import LensoServiceAccount.Crypto
import LensoServiceAccount.Library.Locking
import LensoServiceAccount.Storage.Statement

/-! The transactions of the storage module, statement by statement, and the session in which
they run: its own writes, its locks, and the snapshot of READ COMMITTED that every statement
takes anew. -/

namespace LensoServiceAccount

inductive TxOp
  | begin
  | nowUtc
  | getrandom (count : ℕ)
  | execute (s : TxStatement)
  | commit
  | rollback

abbrev TxOp.Ans : TxOp → Type
  | .begin => Except SqlError Unit
  | .nowUtc => Time
  | .getrandom _ => Option Bytes
  | .execute s => Except SqlError s.Answer
  | .commit => Except SqlError Unit
  | .rollback => Except SqlError Unit

/-- What a transaction can hold to its end: an advisory lock, a row, or an entry of a unique
index that it has inserted. -/
inductive Lock
  | advisory (hash : ℤ)
  | account (serviceAccountId : String)
  | subject (subject : String)
  | name (organizationId nameKey : String)
  | credential (credentialId : String)
  | command (key : CommandKey)
  | limit (caller : String)
  deriving DecidableEq

/-- The locks that a statement takes. A statement that looks for an account to lock and finds none
takes the lock as well: the plugin only gives up the transaction after that. An insertion of an id
that is there already does not wait, and one that is made locks the row that its foreign key names. -/
def TxStatement.locks (E : Environment) (d : Database) : TxStatement → List Lock
  | .advisoryLock organizationId => [.advisory (E.hashtextextended organizationId)]
  | .countAccounts _ => []
  | .insertAccount serviceAccountId organizationId subject _ nameKey =>
    [.account serviceAccountId,.subject subject,.name organizationId nameKey]
  | .insertCredential credentialId serviceAccountId _ _ _ =>
    if (d.credentials.find credentialId).isSome then [] else [.credential credentialId,.account serviceAccountId]
  | .reloadAccount _ _ => []
  | .completeCommand key _ _ => [.command key]
  | .lockAccount _ serviceAccountId => [.account serviceAccountId]
  | .boundCredentials validFrom _ serviceAccountId =>
    ((d.credentialsOf serviceAccountId).filter (Credential.live validFrom)).map
      fun c => .credential c.credentialId
  | .advanceAccount serviceAccountId _ => [.account serviceAccountId]
  | .revokeAccount serviceAccountId _ => [.account serviceAccountId]
  | .revokeCredentials serviceAccountId _ =>
    (d.credentialsOf serviceAccountId).map fun c => .credential c.credentialId
  | .lockAccountStatus serviceAccountId => [.account serviceAccountId]
  | .recheckCredential credentialId serviceAccountId _ =>
    if (d.credentials.find credentialId).any fun c => c.serviceAccountId = serviceAccountId then
      [.credential credentialId]
    else []
  | .recordUse credentialId _ => [.credential credentialId]
  | .markIssuing caller idempotencyKey _ _ => [.command ⟨caller,"exchange_secret",idempotencyKey⟩]
  | .initializeLimit caller _ => if (d.limits.find caller).isSome then [] else [.limit caller]
  | .lockLimit caller => [.limit caller]
  | .lockOut caller _ _ => [.limit caller]
  | .consumeSlot caller _ _ => [.limit caller]

/-- A transaction in progress. -/
structure Session where
  startedAt : Time
  writes : List Write
  locks : List Lock
  aborted : Bool

def Session.fresh : Session := ⟨0,[],[],false⟩

def Session.abort (l : Session) : Session := { l with aborted := true }

/-- What the statements of a transaction see. -/
def Session.view (l : Session) (d : Database) : Database := d.apply l.writes

/-- One operation inside a transaction. Nothing but a commit changes the shared database, and
a commit may happen without the plugin being told. -/
def TxOp.handle (E : Environment) : Program.Handler TxOp TxOp.Ans Choice (Session × Database)
  | .begin, c, (l, d) =>
    match c.fault with
    | some _ => some (.error .unavailable,(l.abort,d))
    | none => some (.ok (),({ l with startedAt := c.now },d))
  | .nowUtc, c, s => some (c.clock,s)
  | .getrandom count, c, s => some (c.fill count,s)
  | .execute s, c, (l, d) =>
    if l.aborted || c.fault.isSome then some (.error .unavailable,(l.abort,d))
    else
      let locks := l.locks ++ s.locks E (l.view d)
      match s.execute E.collation l.startedAt (l.view d) with
      | .error e => some (.error e,({ l with locks := locks,aborted := true },d))
      | .ok (a, ws) => some (.ok a,({ l with locks := locks,writes := l.writes ++ ws },d))
  | .commit, c, (l, d) =>
    if l.aborted then some (.ok (),(l,d))
    else
      match c.fault with
      | none => some (.ok (),(l,l.view d))
      | some .lost => some (.error .unavailable,(l,d))
      | some .unacknowledged => some (.error .unavailable,(l,l.view d))
  | .rollback, c, s =>
    match c.fault with
    | none => some (.ok (),s)
    | some _ => some (.error .unavailable,s)

/-- Code inside a transaction; leaving it early with an error gives the transaction up. -/
abbrev TxM (α : Type) := ExceptT ServiceAccountPluginError (Program TxOp TxOp.Ans) α

namespace TxM

/-- `map_err(database(operation))`. -/
def database {α : Type} (operation : String) : Except SqlError α → Except ServiceAccountPluginError α
  | .ok a => .ok a
  | .error e => .error (.database operation e)

def begin (operation : String) : TxM Unit :=
  ExceptT.mk (.perform .begin fun r => .pure (database operation r))

def statement (operation : String) (s : TxStatement) : TxM s.Answer :=
  ExceptT.mk (.perform (.execute s) fun r => .pure (database operation r))

def commit (operation : String) : TxM Unit :=
  ExceptT.mk (.perform .commit fun r => .pure (database operation r))

def rollback (operation : String) : TxM Unit :=
  ExceptT.mk (.perform .rollback fun r => .pure (database operation r))

/-- `OffsetDateTime::now_utc()`. -/
def nowUtc : TxM Time := ExceptT.mk (.perform .nowUtc fun t => .pure (.ok t))

/-- Code that only draws random bytes. -/
def entropy {α : Type} (p : Entropy ServiceAccountPluginError α) : TxM α :=
  ExceptT.mk (p.run.translate .getrandom fun _ a => a)

end TxM

/-- The constraint of a unique violation. -/
def uniqueConstraint : ServiceAccountPluginError → Option String
  | .database _ (.uniqueViolation constraint) => some constraint
  | _ => none

inductive Mutation (α : Type)
  | updated (value : α)
  | notFound
  | revoked
  | revisionConflict
  deriving DecidableEq

/-- A closure that turns the resulting row into nonce and ciphertext of a receipt. -/
abbrev Sealing (α : Type) := α → Entropy ServiceAccountPluginError (Bytes × Bytes)

structure CreateAccount where
  key : CommandKey
  maxAccounts : ℤ
  serviceAccountId : String
  organizationId : String
  subject : String
  name : String
  nameKey : String
  credentialId : String
  verifier : String
  validFrom : Time
  validUntil : Time
  receipt : Sealing AccountRow

structure RotateAccount where
  key : CommandKey
  organizationId : String
  serviceAccountId : String
  expectedRevision : ℤ
  credentialId : String
  verifier : String
  validFrom : Time
  overlapUntil : Time
  validUntil : Time
  receipt : Sealing AccountRow

structure RevokeAccount where
  key : CommandKey
  organizationId : String
  serviceAccountId : String
  expectedRevision : ℤ
  receipt : Sealing (AccountRow × Bool)

structure MarkExchangeIssuing where
  caller : String
  idempotencyKey : String
  credentialId : String
  serviceAccountId : String
  now : Time
  deriving DecidableEq

structure ReserveRateSlot where
  caller : String
  now : Time
  windowSeconds : ℤ
  maxAttempts : ℤ
  lockoutSeconds : ℤ
  deriving DecidableEq

open TxM

def completeSuccess (key : CommandKey) (nonce ciphertext : Bytes) : TxM Unit := do
  let changed ← statement "complete service-account command" (.completeCommand key nonce ciphertext)
  if changed ≠ 1 then throw (.invariant "service-account command was not completable")
  else pure ()

def completeSuccessOwned (key : CommandKey) (nonce ciphertext : Bytes) : TxM Unit := do
  begin "begin service-account receipt completion"
  completeSuccess key nonce ciphertext
  commit "commit service-account receipt completion"

/-- `load_account_in_transaction`. -/
def loadAccountInTransaction (organizationId serviceAccountId : String) : TxM (Option AccountRow) :=
  statement "reload service account" (.reloadAccount organizationId serviceAccountId)

/-- Reload the account, seal the receipt of what it has become, and complete the command. -/
def finish {α : Type} (key : CommandKey) (organizationId serviceAccountId missing : String)
    (result : AccountRow → α) (receipt : Sealing α) : TxM α := do
  match ← loadAccountInTransaction organizationId serviceAccountId with
  | none => throw (.invariant missing)
  | some row =>
    let (nonce, ciphertext) ← entropy (receipt (result row))
    completeSuccess key nonce ciphertext
    pure (result row)

def createAccount (r : CreateAccount) : TxM (Option AccountRow) := do
  begin "begin service-account creation"
  statement "lock service-account organization" (.advisoryLock r.organizationId)
  let count ← statement "count service accounts" (.countAccounts r.organizationId)
  if r.maxAccounts ≤ count then
    rollback "rollback service-account limit"
    return none
  else
    statement "insert service account"
      (.insertAccount r.serviceAccountId r.organizationId r.subject r.name r.nameKey)
    statement "insert service-account credential"
      (.insertCredential r.credentialId r.serviceAccountId r.verifier r.validFrom r.validUntil)
    let row ← finish r.key r.organizationId r.serviceAccountId "created service account is missing"
      id r.receipt
    commit "commit service-account creation"
    return some row

def rotateAccount (r : RotateAccount) : TxM (Mutation AccountRow) := do
  begin "begin service-account rotation"
  match ← statement "lock service account" (.lockAccount r.organizationId r.serviceAccountId) with
  | none =>
    rollback "rollback missing service account"
    return .notFound
  | some current =>
    if current.status = .revoked then
      rollback "rollback revoked service account"
      return .revoked
    else if current.revision ≠ r.expectedRevision then
      rollback "rollback rotation revision conflict"
      return .revisionConflict
    else
      statement "bound previous service-account credentials"
        (.boundCredentials r.validFrom r.overlapUntil r.serviceAccountId)
      statement "insert rotated service-account credential"
        (.insertCredential r.credentialId r.serviceAccountId r.verifier r.validFrom r.validUntil)
      statement "advance rotated service account" (.advanceAccount r.serviceAccountId r.validFrom)
      let row ← finish r.key r.organizationId r.serviceAccountId
        "rotated service account is missing" id r.receipt
      commit "commit service-account rotation"
      return .updated row

def revokeAccount (r : RevokeAccount) : TxM (Mutation (AccountRow × Bool)) := do
  begin "begin service-account revocation"
  match ← statement "lock service account" (.lockAccount r.organizationId r.serviceAccountId) with
  | none =>
    rollback "rollback missing service-account revocation"
    return .notFound
  | some current =>
    if current.revision ≠ r.expectedRevision then
      rollback "rollback revocation revision conflict"
      return .revisionConflict
    else
      let changed := current.status != .revoked
      if changed then
        let now ← nowUtc
        statement "revoke service account" (.revokeAccount r.serviceAccountId now)
        statement "revoke service-account credentials" (.revokeCredentials r.serviceAccountId now)
      let result ← finish r.key r.organizationId r.serviceAccountId
        "revoked service account is missing" (fun row => (row,changed)) r.receipt
      commit "commit service-account revocation"
      return .updated result

def markExchangeIssuing (r : MarkExchangeIssuing) : TxM (Option CredentialRow) := do
  begin "begin service-account exchange"
  let accountStatus ← statement "lock exchanged service account"
    (.lockAccountStatus r.serviceAccountId)
  if accountStatus ≠ some .active then
    rollback "rollback inactive service-account exchange"
    return none
  else
    match ← statement "recheck service-account credential"
      (.recheckCredential r.credentialId r.serviceAccountId r.now) with
    | none =>
      rollback "rollback invalid service-account exchange"
      return none
    | some credential =>
      statement "record service-account credential use" (.recordUse r.credentialId r.now)
      let advanced ← statement "mark service-account exchange issuing"
        (.markIssuing r.caller r.idempotencyKey r.credentialId r.now)
      if advanced ≠ 1 then
        rollback "rollback stale service-account exchange"
        return none
      else
        commit "commit verified service-account exchange"
        return some credential

def reserveRateSlot (r : ReserveRateSlot) : TxM Bool := do
  begin "begin service-account rate admission"
  statement "initialize service-account rate limit" (.initializeLimit r.caller r.now)
  let row ← statement "lock service-account rate limit" (.lockLimit r.caller)
  if row.lockedUntil.any fun u => r.now < u then
    commit "commit active service-account lockout"
    return false
  else
    let renewed := decide (row.windowStartedAt + seconds r.windowSeconds ≤ r.now)
    let windowStartedAt := if renewed then r.now else row.windowStartedAt
    let attempts := if renewed then 0 else row.attempts
    if r.maxAttempts ≤ attempts then
      statement "lock out service-account caller"
        (.lockOut r.caller windowStartedAt (r.now + seconds r.lockoutSeconds))
      commit "commit service-account lockout"
      return false
    else
      statement "consume service-account rate slot"
        (.consumeSlot r.caller windowStartedAt (attempts + 1))
      commit "commit service-account rate admission"
      return true

/-- The transactions, by name. -/
inductive Transaction
  | completeSuccess (key : CommandKey) (nonce ciphertext : Bytes)
  | createAccount (r : CreateAccount)
  | rotateAccount (r : RotateAccount)
  | revokeAccount (r : RevokeAccount)
  | markExchangeIssuing (r : MarkExchangeIssuing)
  | reserveRateSlot (r : ReserveRateSlot)

abbrev Transaction.Value : Transaction → Type
  | .completeSuccess _ _ _ => Unit
  | .createAccount _ => Option AccountRow
  | .rotateAccount _ => Mutation AccountRow
  | .revokeAccount _ => Mutation (AccountRow × Bool)
  | .markExchangeIssuing _ => Option CredentialRow
  | .reserveRateSlot _ => Bool

abbrev Transaction.Result (t : Transaction) : Type := Except ServiceAccountPluginError t.Value

def Transaction.body : (t : Transaction) → Program TxOp TxOp.Ans t.Result
  | .completeSuccess key nonce ciphertext => (completeSuccessOwned key nonce ciphertext).run
  | .createAccount r => (LensoServiceAccount.createAccount r).run
  | .rotateAccount r => (LensoServiceAccount.rotateAccount r).run
  | .revokeAccount r => (LensoServiceAccount.revokeAccount r).run
  | .markExchangeIssuing r => (LensoServiceAccount.markExchangeIssuing r).run
  | .reserveRateSlot r => (LensoServiceAccount.reserveRateSlot r).run

end LensoServiceAccount
