import LensoServiceAccount.Crypto
import LensoServiceAccount.Storage.Transaction

/-! Everything the plugin asks of its surroundings, and code that asks. -/

namespace LensoServiceAccount

inductive Op
  | nowUtc
  | getrandom (count : ℕ)
  | projectContext (capabilityId operation : String) (now : Time)
  | checkMembership (r : CheckMembershipRequest)
  | checkPermission (r : CheckPermissionRequest)
  | ensureIdentity (r : EnsureIdentityRequest)
  | readStatus (r : ReadStatusRequest)
  | issue (r : IssueRequest)
  | verifyPassword (input : Bytes) (verifier : String)
  | execute (s : Statement)
  deriving DecidableEq

abbrev Op.Ans : Op → Type
  | .nowUtc => Time
  | .getrandom _ => Option Bytes
  | .projectContext _ _ _ => Option ActorAssertion
  | .checkMembership _ => Except (InvocationError CheckMembershipError) CheckMembershipResponse
  | .checkPermission _ => Except (InvocationError CheckPermissionError) CheckPermissionResponse
  | .ensureIdentity _ => Except (InvocationError String) EnsureIdentityResponse
  | .readStatus _ => Except (InvocationError ReadStatusError) ReadStatusResponse
  | .issue _ => Except (InvocationError IssueError) IssueResponse
  | .verifyPassword _ _ => Bool
  | .execute s => Except SqlError s.Answer

/-- One operation outside of a transaction. -/
def Op.handle (E : Environment) : Program.Handler Op Op.Ans Choice Database
  | .nowUtc, c, d => some (c.clock,d)
  | .getrandom count, c, d => some (c.fill count,d)
  | .projectContext _ _ _, c, d => some (c.assertion,d)
  | .checkMembership _, c, d => some (c.membership,d)
  | .checkPermission _, c, d => some (c.permission,d)
  | .ensureIdentity _, c, d => some (c.identity,d)
  | .readStatus _, c, d => some (c.status,d)
  | .issue _, c, d => some (c.session,d)
  | .verifyPassword input verifier, _, d => some (E.verifyPassword input verifier,d)
  | .execute s, c, d =>
    match c.fault, s.execute E.collation c.now d with
    | none, .ok (a, d') => some (.ok a,d')
    | none, .error e => some (.error e,d)
    | some .lost, _ => some (.error .unavailable,d)
    | some .unacknowledged, .ok (_, d') => some (.error .unavailable,d')
    | some .unacknowledged, .error _ => some (.error .unavailable,d)

/-- The rows that a statement on the pool changes, and therefore waits for. -/
def Statement.locks (now : Time) (d : Database) : Statement → List Lock
  | .prune receiptTtlSeconds =>
    (d.commands.rows.filter (Command.expired now receiptTtlSeconds)).map fun c => .command c.key
  | .reserveCommand key _ => if (d.commands.find key).isSome then [] else [.command key]
  | .completeFailedCommand key _ =>
    if (d.commands.find key).any fun c => c.status.completable then [.command key] else []
  | _ => []

def Op.touched : Op → Choice → Database → List Lock
  | .execute s, c, d => s.locks c.now d
  | _, _, _ => []

/-- Single operations and transactions. -/
abbrev Effect := Outer Op Transaction

abbrev Effect.Ans : Effect → Type := Outer.Ans Op.Ans Transaction.Result

/-- The shared database, its operations and its transactions. -/
def store (E : Environment) :
    Store Op Op.Ans Transaction Transaction.Result TxOp TxOp.Ans Choice Choice Database Session Lock where
  pool := Op.handle E
  within := TxOp.handle E
  body := Transaction.body
  fresh := Session.fresh
  held := Session.locks
  touched := Op.touched

/-- Code of the plugin that fails with `ε`. -/
abbrev Code (ε α : Type) := ExceptT ε (Program Effect Effect.Ans) α

namespace Code
variable {ε α : Type}

/-- Perform one operation. -/
def ask (o : Op) : Code ε (Op.Ans o) :=
  ExceptT.mk (.perform (.pool o) fun a => .pure (.ok a))

/-- A statement on the pool, its error labelled with the operation. -/
def statement (operation : String) (s : Statement) : Code ServiceAccountPluginError s.Answer :=
  ExceptT.mk (.perform (.pool (.execute s)) fun r => .pure (TxM.database operation r))

/-- A whole transaction. -/
def transact (t : Transaction) : Code ServiceAccountPluginError t.Value :=
  ExceptT.mk (.perform (.transact t) fun r => .pure r)

/-- Code that only draws random bytes. -/
def entropy (p : Entropy ε α) : Code ε α :=
  ExceptT.mk (p.run.translate (fun count => .pool (.getrandom count)) fun _ a => a)

/-- Run code and keep its failure as a value. -/
def attempt {ε' : Type} (p : Code ε α) : Code ε' (Except ε α) :=
  ExceptT.mk (p.run >>= fun r => pure (.ok r))

/-- `map_err(runtime)`. -/
def runtime (p : Code ServiceAccountPluginError α) : Code RuntimeFailure α :=
  ExceptT.mk (p.run >>= fun
    | .ok a => pure (.ok a)
    | .error e => pure (.error (.pluginFailure e)))

/-- `?` on a result. -/
def fallible : Except ε α → Code ε α
  | .ok a => pure a
  | .error e => throw e

end Code

/-- `verify_secret`: a text that is no Argon2id verifier is refused without a computation. -/
def verifySecret {ε : Type} (E : Environment) (secret : String) (pepper : Bytes) (verifier : String) :
    Code ε Bool :=
  if wellFormedVerifier E verifier then Code.ask (.verifyPassword (peppered secret pepper) verifier)
  else pure false

end LensoServiceAccount
