import LensoServiceAccount.Library.Finishing
import LensoServiceAccount.Rotation

/-! The transactions of the plugin come to their locks in one order, so none of them wait for each
other in a circle. The credential rows of an account have no order among themselves: who waits for
one of them has locked their account, and so has who holds it. -/

namespace LensoServiceAccount

def Lock.rank : Lock → ℕ
  | .advisory _ => 0
  | .account _ => 1
  | .subject _ => 2
  | .name _ _ => 3
  | .credential _ => 4
  | .command _ => 5
  | .limit _ => 6

/-- The locks that an operation of a transaction takes. -/
def TxOp.needs (E : Environment) : TxOp → Session → Database → List Lock
  | .execute s, l, d => if l.aborted then [] else s.locks E (l.view d)
  | _, _, _ => []

/-- How far a transaction has come with its locks: nothing but an advisory lock, an account
without its credentials, with rows of it, with a new credential, or the last lock there is. -/
inductive Stage
  | idle
  | begun
  | organization
  | account (serviceAccountId : String)
  | rows (serviceAccountId : String) (rechecked : Option String)
  | inserted (serviceAccountId : String)
  | command
  | limit (caller : String)
  | finished

/-- Begun and not ended. -/
def Stage.Running (φ : Stage) : Prop := φ ≠ .idle ∧ φ ≠ .finished

/-- The statements that a transaction makes in a stage, and where they lead. -/
inductive Stage.Step : Stage → (s : TxStatement) → s.Answer → Stage → Prop
  | advisoryLock (org : String) (a : Unit) : Step .begun (.advisoryLock org) a .organization
  | countAccounts (org : String) (a : ℤ) : Step .organization (.countAccounts org) a .organization
  | insertAccount (id org subject name nameKey : String) (a : Unit) :
    Step .organization (.insertAccount id org subject name nameKey) a (.account id)
  | lockAccount (org id : String) (a : Option AccountRow) : Step .begun (.lockAccount org id) a (.account id)
  | lockAccountStatus (id : String) (a : Option AccountStatus) : Step .begun (.lockAccountStatus id) a (.account id)
  | revokeAccount (id : String) (now : Time) (a : Unit) : Step (.account id) (.revokeAccount id now) a (.account id)
  | boundCredentials (validFrom overlapUntil : Time) (id : String) (a : Unit) :
    Step (.account id) (.boundCredentials validFrom overlapUntil id) a (.rows id none)
  | revokeCredentials (id : String) (now : Time) (a : Unit) :
    Step (.account id) (.revokeCredentials id now) a (.rows id none)
  | recheckCredential (k id : String) (now : Time) (a : Option CredentialRow) :
    Step (.account id) (.recheckCredential k id now) a (.rows id (a.map fun _ => k))
  | recordUse (k id : String) (now : Time) (a : Unit) : Step (.rows id (some k)) (.recordUse k now) a (.rows id (some k))
  | insertFirst (k id verifier : String) (validFrom validUntil : Time) (a : Unit) :
    Step (.account id) (.insertCredential k id verifier validFrom validUntil) a (.inserted id)
  | insertCredential (r : Option String) (k id verifier : String) (validFrom validUntil : Time) (a : Unit) :
    Step (.rows id r) (.insertCredential k id verifier validFrom validUntil) a (.inserted id)
  | advanceAccount (id : String) (validFrom : Time) (a : Unit) :
    Step (.inserted id) (.advanceAccount id validFrom) a (.inserted id)
  | reloadAccount (φ : Stage) (org id : String) (a : Option AccountRow) (h : φ.Running) :
    Step φ (.reloadAccount org id) a φ
  | completeCommand (φ : Stage) (key : CommandKey) (nonce ciphertext : Bytes) (a : ℕ)
    (h : φ = .begun ∨ (∃ id, φ = .account id) ∨ (∃ id r, φ = .rows id r) ∨ ∃ id, φ = .inserted id) :
    Step φ (.completeCommand key nonce ciphertext) a .command
  | markIssuing (id : String) (r : Option String) (caller idempotencyKey k : String) (now : Time) (a : ℕ) :
    Step (.rows id r) (.markIssuing caller idempotencyKey k now) a .command
  | initializeLimit (caller : String) (now : Time) (a : Unit) :
    Step .begun (.initializeLimit caller now) a (.limit caller)
  | lockLimit (caller : String) (a : ExchangeLimit) : Step (.limit caller) (.lockLimit caller) a (.limit caller)
  | lockOut (caller : String) (windowStartedAt lockedUntil : Time) (a : Unit) :
    Step (.limit caller) (.lockOut caller windowStartedAt lockedUntil) a (.limit caller)
  | consumeSlot (caller : String) (windowStartedAt : Time) (attempts : ℤ) (a : Unit) :
    Step (.limit caller) (.consumeSlot caller windowStartedAt attempts) a (.limit caller)

/-- One operation of a transaction; nothing is asked for after a failure or the end. -/
inductive Stage.Move : Stage → (o : TxOp) → o.Ans → Stage → Prop
  | begin (u : Unit) : Move .idle .begin (.ok u) .begun
  | unbegun (e : SqlError) : Move .idle .begin (.error e) .finished
  | nowUtc (φ : Stage) (t : Time) (h : φ.Running) : Move φ .nowUtc t φ
  | getrandom (φ : Stage) (n : ℕ) (a : Option Bytes) (h : φ.Running) : Move φ (.getrandom n) a φ
  | executed (φ φ' : Stage) (s : TxStatement) (a : s.Answer) (h : φ.Step s a φ') : Move φ (.execute s) (.ok a) φ'
  | failed (φ φ' : Stage) (s : TxStatement) (a : s.Answer) (h : φ.Step s a φ') (e : SqlError) :
    Move φ (.execute s) (.error e) .finished
  | commit (φ : Stage) (r : Except SqlError Unit) (h : φ.Running) : Move φ .commit r .finished
  | rollback (φ : Stage) (r : Except SqlError Unit) (h : φ.Running) : Move φ .rollback r .finished

namespace TxM
variable {α β : Type} {φ φ' : Stage} {operation : String}

variable {Q : Except ServiceAccountPluginError α → Stage → Prop}

end TxM

section Bodies
open TxM
variable {φ : Stage}

/-- The stages in which a transaction completes its command. -/
def Stage.Completing (φ : Stage) : Prop :=
  φ = .begun ∨ (∃ id, φ = .account id) ∨ (∃ id r, φ = .rows id r) ∨ ∃ id, φ = .inserted id

lemma Stage.Completing.running (h : φ.Completing) : φ.Running := by
  rcases h with rfl | ⟨id,rfl⟩ | ⟨id,r,rfl⟩ | ⟨id,rfl⟩ <;> exact ⟨by simp,by simp⟩

end Bodies

/-- What a transaction holds and has written when it is in a stage. -/
def Session.Stands (d : Database) (l : Session) : Stage → Prop
  | .idle | .begun => l.locks = [] ∧ l.writes = []
  | .organization => (∀ w ∈ l.writes, ∃ a h, w = .account a h) ∧ ∀ lk ∈ l.locks, lk.rank = 0
  | .account id => (∀ w ∈ l.writes, ∃ a h, w = .account a h) ∧ .account id ∈ l.locks ∧ ∀ lk ∈ l.locks, lk.rank < 4
  | .rows id r => .account id ∈ l.locks ∧ (∀ lk ∈ l.locks, lk.rank ≤ 4) ∧
    (∀ k, .credential k ∈ l.locks → d.Owns k id) ∧ ∀ k, r = some k → .credential k ∈ l.locks
  | .inserted id => .account id ∈ l.locks ∧ (∀ lk ∈ l.locks, lk.rank ≤ 4) ∧
    ∀ k c, .credential k ∈ l.locks → d.credentials.find k = some c → c.serviceAccountId = id
  | .limit caller => ∀ lk ∈ l.locks, lk = .limit caller
  | .command | .finished => True

section Stands
variable {E : Environment} {d d' : Database} {l : Session} {φ φ' : Stage} {s : TxStatement} {a : s.Answer}
  {got : List Lock} {ws : List Write}

/-- Whoever leaves the locks of a transaction alone leaves it standing. -/
lemma Session.Stands.stays (hl : l.Stands d φ) (hs : ∀ lk ∈ l.locks, lk.Same E d d') : l.Stands d' φ := by
  have hfind : ∀ k, Lock.credential k ∈ l.locks → d.credentials.find k = d'.credentials.find k :=
    fun k hk => hs _ hk
  cases φ with
  | rows id r =>
    obtain ⟨hid,hrank,howns,hr⟩ := hl
    refine ⟨hid,hrank,fun k hk => ?_,hr⟩
    obtain ⟨c,hc,hown⟩ := howns k hk
    exact ⟨c,by rw [← hfind k hk,hc],hown⟩
  | inserted id =>
    obtain ⟨hid,hrank,howns⟩ := hl
    exact ⟨hid,hrank,fun k c hk hc => howns k c hk (by rw [hfind k hk,hc])⟩
  | _ => exact hl

end Stands

section Runs
variable {E : Environment} {κ ρ : Type} {main : κ → Program Effect Effect.Ans ρ} {d : Database}

/-- Some operation can always be answered. -/
instance (o : TxOp) : Nonempty o.Ans := by
  cases o with
  | nowUtc => exact ⟨(0 : ℤ)⟩
  | getrandom n => exact ⟨none⟩
  | _ => exact ⟨.error .unavailable⟩

end Runs

end LensoServiceAccount
