import Mathlib.Order.Nat
import Mathlib.Data.Int.Notation
import LensoServiceAccount.Library.Table

/-! The owned PostgreSQL schema: four tables, with the CHECK constraints of the migration as
the checks of their rows. Instants are counted in microseconds, as the columns store them. -/

namespace LensoServiceAccount

abbrev Time := ℤ
abbrev Bytes := List UInt8

/-- `Duration::seconds`. -/
def seconds (n : ℤ) : Time := n * 1000000

/-- `char_length(value) BETWEEN low AND high`. -/
def charLengthBetween (value : String) (low high : ℕ) : Bool :=
  decide (low ≤ value.length) && decide (value.length ≤ high)

/-- `btrim(value)`: without the spaces at both ends. -/
def btrim (value : String) : String :=
  String.ofList ((value.toList.dropWhile (· == ' ')).reverse.dropWhile (· == ' ')).reverse

/-- `lower(value)`, which is `to_ascii_lowercase` on ASCII text. -/
def lower (value : String) : String := String.ofList (value.toList.map Char.toLower)

/-- The largest BIGINT. -/
def bigintMax : ℤ := 9223372036854775807

inductive AccountStatus
  | active
  | revoked
  deriving DecidableEq,Repr

/-- A row of `service_accounts`. -/
structure Account where
  serviceAccountId : String
  organizationId : String
  subject : String
  name : String
  nameKey : String
  status : AccountStatus
  revision : ℤ
  createdAt : Time
  updatedAt : Time
  rotatedAt : Option Time
  revokedAt : Option Time
  deriving DecidableEq,Repr

def Account.check (a : Account) : Bool :=
  decide (0 < a.revision) && decide (a.revision ≤ bigintMax) &&
  charLengthBetween a.serviceAccountId 1 128 && charLengthBetween a.organizationId 1 256 &&
  charLengthBetween a.subject 1 256 && charLengthBetween a.name 1 128 &&
  charLengthBetween a.nameKey 1 128 && a.name == btrim a.name && a.nameKey == lower a.name &&
  match a.status with
  | .active => a.revokedAt.isNone
  | .revoked => a.revokedAt.isSome

/-- A row of `service_account_credentials`. -/
structure Credential where
  credentialId : String
  serviceAccountId : String
  verifier : String
  validFrom : Time
  validUntil : Time
  createdAt : Time
  supersededAt : Option Time
  revokedAt : Option Time
  lastUsedAt : Option Time
  deriving DecidableEq,Repr

def Credential.check (c : Credential) : Bool :=
  charLengthBetween c.credentialId 1 128 && charLengthBetween c.verifier 32 1024 &&
  decide (c.validFrom ≤ c.validUntil)

inductive CommandStatus
  | reserved
  | verifying
  | issuing
  | completedSuccess
  | completedError
  deriving DecidableEq,Repr

/-- `status IN ('reserved','verifying','issuing')`. -/
def CommandStatus.completable : CommandStatus → Bool
  | .reserved | .verifying | .issuing => true
  | .completedSuccess | .completedError => false

/-- The primary key of `service_account_commands`. -/
structure CommandKey where
  callerInstance : String
  operation : String
  idempotencyKey : String
  deriving DecidableEq,Repr

/-- A row of `service_account_commands`. -/
structure Command where
  key : CommandKey
  intentHash : Bytes
  status : CommandStatus
  responseNonce : Option Bytes
  responseCiphertext : Option Bytes
  errorCode : Option String
  createdAt : Time
  updatedAt : Time
  completedAt : Option Time
  deriving DecidableEq,Repr

/-- The columns that the status of a command requires and excludes. -/
def Command.shape (c : Command) : Bool :=
  match c.status with
  | .completedSuccess => c.responseNonce.isSome && c.responseCiphertext.isSome &&
      c.errorCode.isNone && c.completedAt.isSome
  | .completedError => c.responseNonce.isNone && c.responseCiphertext.isNone &&
      c.errorCode.isSome && c.completedAt.isSome
  | .reserved | .verifying | .issuing => c.responseNonce.isNone && c.responseCiphertext.isNone &&
      c.errorCode.isNone && c.completedAt.isNone

def Command.check (c : Command) : Bool :=
  charLengthBetween c.key.callerInstance 1 128 && charLengthBetween c.key.operation 1 64 &&
  charLengthBetween c.key.idempotencyKey 1 128 && c.intentHash.length == 32 &&
  c.responseNonce.all (·.length == 12) && c.responseCiphertext.all (·.length ≤ 262144) &&
  c.errorCode.all (charLengthBetween · 1 64) && c.shape

/-- A row of `service_account_exchange_limits`. -/
structure ExchangeLimit where
  callerInstance : String
  windowStartedAt : Time
  attempts : ℤ
  lockedUntil : Option Time
  deriving DecidableEq,Repr

def ExchangeLimit.check (l : ExchangeLimit) : Bool :=
  decide (0 ≤ l.attempts) && charLengthBetween l.callerInstance 1 128

instance : Row Account String := ⟨Account.serviceAccountId,Account.check⟩
instance : Row Credential String := ⟨Credential.credentialId,Credential.check⟩
instance : Row Command CommandKey := ⟨Command.key,Command.check⟩
instance : Row ExchangeLimit String := ⟨ExchangeLimit.callerInstance,ExchangeLimit.check⟩

@[simp] theorem key_account (a : Account) : Row.key a = a.serviceAccountId := rfl
@[simp] theorem key_credential (c : Credential) : Row.key c = c.credentialId := rfl
@[simp] theorem key_command (c : Command) : Row.key c = c.key := rfl
@[simp] theorem key_limit (l : ExchangeLimit) : Row.key l = l.callerInstance := rfl

structure Database where
  accounts : Table Account
  credentials : Table Credential
  commands : Table Command
  limits : Table ExchangeLimit
  deriving DecidableEq

def Database.empty : Database := ⟨∅,∅,∅,∅⟩

/-- The credentials of an account. -/
def Database.credentialsOf (d : Database) (serviceAccountId : String) : List Credential :=
  d.credentials.rows.filter fun c => c.serviceAccountId = serviceAccountId

/-- One row version that a statement writes. -/
inductive Write
  | account (row : Account) (h : Row.check row = true)
  | credential (row : Credential) (h : Row.check row = true)
  | command (row : Command) (h : Row.check row = true)
  | limit (row : ExchangeLimit) (h : Row.check row = true)

def Write.apply (d : Database) : Write → Database
  | .account row h => { d with accounts := d.accounts.put row h }
  | .credential row h => { d with credentials := d.credentials.put row h }
  | .command row h => { d with commands := d.commands.put row h }
  | .limit row h => { d with limits := d.limits.put row h }

/-- The database with writes made, oldest first. -/
def Database.apply (d : Database) (ws : List Write) : Database := ws.foldl Write.apply d

@[simp] theorem Database.apply_nil (d : Database) : d.apply [] = d := rfl

@[simp] theorem Database.apply_cons (d : Database) (w : Write) (ws : List Write) :
    d.apply (w :: ws) = (w.apply d).apply ws := rfl

theorem Database.apply_append (d : Database) (ws us : List Write) :
    d.apply (ws ++ us) = (d.apply ws).apply us := by
  simp [Database.apply,List.foldl_append]

end LensoServiceAccount
