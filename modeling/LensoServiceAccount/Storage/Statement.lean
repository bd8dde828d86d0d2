import Mathlib.Data.List.Sort
import LensoServiceAccount.Environment

/-! The SQL statements of the storage module and what the database does for each of them. -/

namespace LensoServiceAccount

structure AccountRow where
  serviceAccountId : String
  organizationId : String
  subject : String
  name : String
  status : AccountStatus
  revision : ℤ
  createdAt : Time
  rotatedAt : Option Time
  revokedAt : Option Time
  credentialExpiresAt : Option Time
  deriving DecidableEq,Repr

structure CredentialRow where
  credentialId : String
  serviceAccountId : String
  organizationId : String
  subject : String
  accountStatus : AccountStatus
  verifier : String
  validFrom : Time
  validUntil : Time
  revokedAt : Option Time
  deriving DecidableEq,Repr

structure ServiceAccountCommandStatus where
  status : CommandStatus
  createdAt : Time
  updatedAt : Time
  completedAt : Option Time
  deriving DecidableEq,Repr

/-- An issuer call may have committed after the local admission point. -/
def ServiceAccountCommandStatus.requiresIssuerReconciliation (s : ServiceAccountCommandStatus) : Bool :=
  s.status == .issuing

/-- `ORDER BY created_at DESC,credential_id DESC` puts `c` before `d`, or they are the same. -/
def Credential.precedes (o : Collation) (c d : Credential) : Bool :=
  decide (d.createdAt < c.createdAt) ||
    (c.createdAt == d.createdAt && o.le d.credentialId c.credentialId)

/-- The first credential in that order. -/
def latestCredential (o : Collation) : List Credential → Option Credential
  | [] => none
  | c :: cs =>
    match latestCredential o cs with
    | none => some c
    | some d => if c.precedes o d then some c else some d

/-- The columns of an account with the expiry of its latest credential. -/
def accountRow (o : Collation) (d : Database) (a : Account) : AccountRow where
  serviceAccountId := a.serviceAccountId
  organizationId := a.organizationId
  subject := a.subject
  name := a.name
  status := a.status
  revision := a.revision
  createdAt := a.createdAt
  rotatedAt := a.rotatedAt
  revokedAt := a.revokedAt
  credentialExpiresAt :=
    (latestCredential o (d.credentialsOf a.serviceAccountId)).map Credential.validUntil

/-- `WHERE a.organization_id=$1 AND a.service_account_id=$2`. -/
def Database.accountIn (d : Database) (organizationId serviceAccountId : String) : Option Account :=
  (d.accounts.find serviceAccountId).filter fun a => a.organizationId = organizationId

/-- The columns of a credential joined with its account. -/
def credentialRow (c : Credential) (a : Account) : CredentialRow where
  credentialId := c.credentialId
  serviceAccountId := c.serviceAccountId
  organizationId := a.organizationId
  subject := a.subject
  accountStatus := a.status
  verifier := c.verifier
  validFrom := c.validFrom
  validUntil := c.validUntil
  revokedAt := c.revokedAt

/-- Write a row version if it passes the constraints of its table. -/
def writeRow {ρ κ : Type} [DecidableEq κ] [Row ρ κ] (mk : (r : ρ) → Row.check r = true → Write)
    (r : ρ) : Except SqlError Write :=
  if h : Row.check r = true then .ok (mk r h) else .error .checkViolation

theorem writeRow_ok {ρ κ : Type} [DecidableEq κ] [Row ρ κ]
    {mk : (r : ρ) → Row.check r = true → Write} {r : ρ} {w : Write} :
    writeRow mk r = .ok w ↔ ∃ h, w = mk r h := by
  unfold writeRow
  split_ifs with h
  · simp [h,eq_comm]
  · simp [h]

theorem writeRow_error {ρ κ : Type} [DecidableEq κ] [Row ρ κ]
    {mk : (r : ρ) → Row.check r = true → Write} {r : ρ} {e : SqlError} (h : writeRow mk r = .error e) :
    e = .checkViolation := by
  unfold writeRow at h
  split_ifs at h
  exact (Except.error.inj h).symm

/-- Statements that run on the pool, each in a transaction of its own. -/
inductive Statement
  | prune (receiptTtlSeconds : ℤ)
  | reserveCommand (key : CommandKey) (intentHash : Bytes)
  | loadCommand (key : CommandKey)
  | completeFailedCommand (key : CommandKey) (errorCode : String)
  | loadAccount (organizationId serviceAccountId : String)
  | listAccounts (organizationId : String) (after : Option String) (limitPlusOne : ℤ)
  | loadCredential (credentialId : String)
  | inspectCommand (key : CommandKey)
  deriving DecidableEq

/-- Rows or the number of affected rows. -/
abbrev Statement.Answer : Statement → Type
  | .prune _ => Unit
  | .reserveCommand _ _ => ℕ
  | .loadCommand _ => Command
  | .completeFailedCommand _ _ => ℕ
  | .loadAccount _ _ => Option AccountRow
  | .listAccounts _ _ _ => List AccountRow
  | .loadCredential _ => Option CredentialRow
  | .inspectCommand _ => Option ServiceAccountCommandStatus

/-- The row that a claim inserts. -/
def reservedCommand (now : Time) (key : CommandKey) (intentHash : Bytes) : Command where
  key := key
  intentHash := intentHash
  status := .reserved
  responseNonce := none
  responseCiphertext := none
  errorCode := none
  createdAt := now
  updatedAt := now
  completedAt := none

def Command.fail (now : Time) (errorCode : String) (c : Command) : Command :=
  { c with
    status := .completedError
    errorCode := some errorCode
    completedAt := some now
    updatedAt := now }

def Command.succeed (now : Time) (nonce ciphertext : Bytes) (c : Command) : Command :=
  { c with
    status := .completedSuccess
    responseNonce := some nonce
    responseCiphertext := some ciphertext
    completedAt := some now
    updatedAt := now }

def Command.issue (now : Time) (c : Command) : Command := { c with status := .issuing,updatedAt := now }

lemma Command.check_shape {c : Command} (h : Row.check c = true) (hc : c.status.completable = true) :
    c.responseNonce = none ∧ c.responseCiphertext = none ∧ c.errorCode = none ∧ c.completedAt = none := by
  simp only [Row.check,Command.check,Command.shape,Bool.and_eq_true] at h
  have hshape := h.2
  cases hs : c.status <;> rw [hs] at hc hshape <;> simp_all [CommandStatus.completable]

lemma Command.fail_check {c : Command} (h : Row.check c = true) (hc : c.status.completable = true)
    {code : String} (hcode : charLengthBetween code 1 64 = true) (now : Time) : Row.check (c.fail now code) = true := by
  obtain ⟨hn,hx,-,-⟩ := Command.check_shape h hc
  simp only [Row.check,Command.check,Command.shape,Command.fail,Bool.and_eq_true,beq_iff_eq] at h ⊢
  simp_all

lemma Command.succeed_check {c : Command} (h : Row.check c = true) (hc : c.status.completable = true)
    {nonce ciphertext : Bytes} (hn : nonce.length = 12) (hx : ciphertext.length ≤ 262144) (now : Time) :
    Row.check (c.succeed now nonce ciphertext) = true := by
  obtain ⟨-,-,he,-⟩ := Command.check_shape h hc
  simp only [Row.check,Command.check,Command.shape,Command.succeed,Bool.and_eq_true,beq_iff_eq] at h ⊢
  simp_all

lemma Command.issue_check {c : Command} (h : Row.check c = true) (hc : c.status.completable = true) (now : Time) :
    Row.check (c.issue now) = true := by
  obtain ⟨hn,hx,he,ht⟩ := Command.check_shape h hc
  simp only [Row.check,Command.check,Command.shape,Command.issue,Bool.and_eq_true,beq_iff_eq] at h ⊢
  simp_all

/-- `completed_at IS NOT NULL AND completed_at < now() - make_interval(secs => $1)`. -/
def Command.expired (now : Time) (receiptTtlSeconds : ℤ) (c : Command) : Bool :=
  c.completedAt.any fun t => t < now - seconds receiptTtlSeconds

/-- The effect of a statement on the pool at the database's time `now`. -/
def Statement.execute (o : Collation) (now : Time) (d : Database) :
    (s : Statement) → Except SqlError (s.Answer × Database)
  | .prune receiptTtlSeconds =>
    .ok ((), { d with commands := d.commands.delete (Command.expired now receiptTtlSeconds) })
  | .reserveCommand key intentHash => do
    let w ← writeRow .command (reservedCommand now key intentHash)
    if (d.commands.find key).isSome then return (0,d) else return (1,w.apply d)
  | .loadCommand key =>
    match d.commands.find key with
    | some c => .ok (c,d)
    | none => .error .rowNotFound
  | .completeFailedCommand key errorCode =>
    match (d.commands.find key).filter fun c => c.status.completable with
    | none => .ok (0,d)
    | some c => do
      let w ← writeRow .command (c.fail now errorCode)
      return (1,w.apply d)
  | .loadAccount organizationId serviceAccountId =>
    .ok ((d.accountIn organizationId serviceAccountId).map (accountRow o d),d)
  | .listAccounts organizationId after limitPlusOne =>
    let rows := d.accounts.rows.filter fun a =>
      a.organizationId = organizationId && after.all fun cursor => !o.le a.serviceAccountId cursor
    let sorted := rows.insertionSort fun a b => o.le a.serviceAccountId b.serviceAccountId = true
    .ok ((sorted.take limitPlusOne.toNat).map (accountRow o d),d)
  | .loadCredential credentialId =>
    .ok ((d.credentials.find credentialId).bind fun c =>
      (d.accounts.find c.serviceAccountId).map (credentialRow c),d)
  | .inspectCommand key =>
    .ok ((d.commands.find key).map fun c => ⟨c.status,c.createdAt,c.updatedAt,c.completedAt⟩,d)

/-- Statements inside a transaction. -/
inductive TxStatement
  | advisoryLock (organizationId : String)
  | countAccounts (organizationId : String)
  | insertAccount (serviceAccountId organizationId subject name nameKey : String)
  | insertCredential (credentialId serviceAccountId verifier : String) (validFrom validUntil : Time)
  | reloadAccount (organizationId serviceAccountId : String)
  | completeCommand (key : CommandKey) (nonce ciphertext : Bytes)
  | lockAccount (organizationId serviceAccountId : String)
  | boundCredentials (validFrom overlapUntil : Time) (serviceAccountId : String)
  | advanceAccount (serviceAccountId : String) (validFrom : Time)
  | revokeAccount (serviceAccountId : String) (now : Time)
  | revokeCredentials (serviceAccountId : String) (now : Time)
  | lockAccountStatus (serviceAccountId : String)
  | recheckCredential (credentialId serviceAccountId : String) (now : Time)
  | recordUse (credentialId : String) (now : Time)
  | markIssuing (caller idempotencyKey credentialId : String) (now : Time)
  | initializeLimit (caller : String) (now : Time)
  | lockLimit (caller : String)
  | lockOut (caller : String) (windowStartedAt lockedUntil : Time)
  | consumeSlot (caller : String) (windowStartedAt : Time) (attempts : ℤ)
  deriving DecidableEq

abbrev TxStatement.Answer : TxStatement → Type
  | .countAccounts _ => ℤ
  | .reloadAccount _ _ => Option AccountRow
  | .completeCommand _ _ _ => ℕ
  | .lockAccount _ _ => Option AccountRow
  | .lockAccountStatus _ => Option AccountStatus
  | .recheckCredential _ _ _ => Option CredentialRow
  | .markIssuing _ _ _ _ => ℕ
  | .lockLimit _ => ExchangeLimit
  | _ => Unit

/-- `valid_until=LEAST(valid_until,$2),superseded_at=COALESCE(superseded_at,$1)`. -/
def Credential.bound (validFrom overlapUntil : Time) (c : Credential) : Credential :=
  { c with
    validUntil := min c.validUntil overlapUntil
    supersededAt := some (c.supersededAt.getD validFrom) }

/-- `revoked_at=COALESCE(revoked_at,$2),valid_until=GREATEST(valid_from,LEAST(valid_until,$2))`. -/
def Credential.revoke (now : Time) (c : Credential) : Credential :=
  { c with
    revokedAt := some (c.revokedAt.getD now)
    validUntil := max c.validFrom (min c.validUntil now) }

/-- `c.revoked_at IS NULL AND c.valid_from<=$3 AND c.valid_until>$3`. -/
def Credential.validAt (now : Time) (c : Credential) : Bool :=
  c.revokedAt.isNone && decide (c.validFrom ≤ now) && decide (now < c.validUntil)

/-- The rows that a rotation bounds: `revoked_at IS NULL AND valid_until>$1`. -/
def Credential.live (validFrom : Time) (c : Credential) : Bool :=
  c.revokedAt.isNone && decide (validFrom < c.validUntil)

/-- The row that an insertion of an account makes, with the defaults of its columns. -/
def insertedAccount (now : Time) (serviceAccountId organizationId subject name nameKey : String) :
    Account where
  serviceAccountId := serviceAccountId
  organizationId := organizationId
  subject := subject
  name := name
  nameKey := nameKey
  status := .active
  revision := 1
  createdAt := now
  updatedAt := now
  rotatedAt := none
  revokedAt := none

def insertedCredential (now : Time) (credentialId serviceAccountId verifier : String)
    (validFrom validUntil : Time) : Credential where
  credentialId := credentialId
  serviceAccountId := serviceAccountId
  verifier := verifier
  validFrom := validFrom
  validUntil := validUntil
  createdAt := now
  supersededAt := none
  revokedAt := none
  lastUsedAt := none

/-- `revision=revision+1,rotated_at=$2,updated_at=$2`. -/
def Account.rotate (validFrom : Time) (a : Account) : Account :=
  { a with
    revision := a.revision + 1
    rotatedAt := some validFrom
    updatedAt := validFrom }

/-- `status='revoked',revision=revision+1,revoked_at=$2,updated_at=$2`. -/
def Account.revoke (now : Time) (a : Account) : Account :=
  { a with
    status := .revoked
    revision := a.revision + 1
    revokedAt := some now
    updatedAt := now }

/-- The answer of a statement and the row versions it writes. The transaction began at `now`
and sees the database `d`, its own writes included. A revision beyond BIGINT is an error. -/
def TxStatement.execute (o : Collation) (now : Time) (d : Database) :
    (s : TxStatement) → Except SqlError (s.Answer × List Write)
  | .advisoryLock _ => .ok ((),[])
  | .countAccounts organizationId =>
    .ok (((d.accounts.rows.filter fun a => a.organizationId = organizationId).length : ℤ),[])
  | .insertAccount serviceAccountId organizationId subject name nameKey => do
    let w ← writeRow .account
      (insertedAccount now serviceAccountId organizationId subject name nameKey)
    if (d.accounts.find serviceAccountId).isSome then .error (.uniqueViolation "service_accounts_pkey")
    else if d.accounts.rows.any fun a => a.subject = subject then
      .error (.uniqueViolation "service_accounts_subject_unique")
    else if d.accounts.rows.any fun a => a.organizationId = organizationId && a.nameKey = nameKey then
      .error (.uniqueViolation "service_accounts_organization_name_unique")
    else return ((),[w])
  | .insertCredential credentialId serviceAccountId verifier validFrom validUntil => do
    let w ← writeRow .credential
      (insertedCredential now credentialId serviceAccountId verifier validFrom validUntil)
    if (d.credentials.find credentialId).isSome then
      .error (.uniqueViolation "service_account_credentials_pkey")
    else if (d.accounts.find serviceAccountId).isNone then .error .foreignKeyViolation
    else return ((),[w])
  | .reloadAccount organizationId serviceAccountId | .lockAccount organizationId serviceAccountId =>
    .ok ((d.accountIn organizationId serviceAccountId).map (accountRow o d),[])
  | .completeCommand key nonce ciphertext =>
    match (d.commands.find key).filter fun c => c.status.completable with
    | none => .ok (0,[])
    | some c => do
      let w ← writeRow .command (c.succeed now nonce ciphertext)
      return (1,[w])
  | .boundCredentials validFrom overlapUntil serviceAccountId => do
    let rows := (d.credentialsOf serviceAccountId).filter (Credential.live validFrom)
    let ws ← rows.mapM fun c => writeRow .credential (c.bound validFrom overlapUntil)
    return ((),ws)
  | .advanceAccount serviceAccountId validFrom =>
    match d.accounts.find serviceAccountId with
    | none => .ok ((),[])
    | some a =>
      if bigintMax ≤ a.revision then .error .outOfRange
      else do
        let w ← writeRow .account (a.rotate validFrom)
        return ((),[w])
  | .revokeAccount serviceAccountId now =>
    match d.accounts.find serviceAccountId with
    | none => .ok ((),[])
    | some a =>
      if bigintMax ≤ a.revision then .error .outOfRange
      else do
        let w ← writeRow .account (a.revoke now)
        return ((),[w])
  | .revokeCredentials serviceAccountId now => do
    let ws ← (d.credentialsOf serviceAccountId).mapM fun c => writeRow .credential (c.revoke now)
    return ((),ws)
  | .lockAccountStatus serviceAccountId =>
    .ok ((d.accounts.find serviceAccountId).map Account.status,[])
  | .recheckCredential credentialId serviceAccountId now =>
    .ok (((d.credentials.find credentialId).filter fun c =>
        c.serviceAccountId = serviceAccountId && c.validAt now).bind fun c =>
      ((d.accounts.find c.serviceAccountId).filter fun a => a.status = .active).map
        (credentialRow c),[])
  | .recordUse credentialId now =>
    match d.credentials.find credentialId with
    | none => .ok ((),[])
    | some c => do
      let w ← writeRow .credential { c with lastUsedAt := some now }
      return ((),[w])
  | .markIssuing caller idempotencyKey credentialId now =>
    match (d.commands.find ⟨caller,"exchange_secret",idempotencyKey⟩).filter fun c =>
      c.status = .reserved && (d.credentials.find credentialId).isSome with
    | none => .ok (0,[])
    | some c => do
      let w ← writeRow .command (c.issue now)
      return (1,[w])
  | .initializeLimit caller now => do
    let w ← writeRow .limit ⟨caller,now,0,none⟩
    if (d.limits.find caller).isSome then return ((),[]) else return ((),[w])
  | .lockLimit caller =>
    match d.limits.find caller with
    | some l => .ok (l,[])
    | none => .error .rowNotFound
  | .lockOut caller windowStartedAt lockedUntil =>
    match d.limits.find caller with
    | none => .ok ((),[])
    | some l => do
      let w ← writeRow .limit { l with
        windowStartedAt := windowStartedAt
        lockedUntil := some lockedUntil }
      return ((),[w])
  | .consumeSlot caller windowStartedAt attempts =>
    match d.limits.find caller with
    | none => .ok ((),[])
    | some l => do
      let w ← writeRow .limit { l with
        windowStartedAt := windowStartedAt
        attempts := attempts
        lockedUntil := none }
      return ((),[w])

end LensoServiceAccount
