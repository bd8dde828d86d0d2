import Mathlib.Data.String.Basic
import LensoServiceAccount.Library.Json
import LensoServiceAccount.Schema

/-! What the plugin takes from other crates and services: cryptography, text formats, the
collation of the database, the messages of its dependencies, and the errors they lead to. -/

namespace LensoServiceAccount

/-- The total order in which the database compares texts. -/
structure Collation where
  le : String → String → Bool
  total : ∀ a b, le a b = true ∨ le b a = true
  trans : ∀ a b c, le a b = true → le b c = true → le a c = true
  antisymm : ∀ a b, le a b = true → le b a = true → a = b

theorem Collation.refl (o : Collation) (a : String) : o.le a a = true :=
  (o.total a a).elim id id

/-- Functions of third-party crates. -/
structure Environment where
  /-- `Sha256::digest`. -/
  sha256 : Bytes → Bytes
  /-- `Aes256Gcm::encrypt` under a key, a nonce and associated data. -/
  aeadEncrypt : Bytes → Bytes → Bytes → Bytes → Option Bytes
  /-- `Aes256Gcm::decrypt`. -/
  aeadDecrypt : Bytes → Bytes → Bytes → Bytes → Option Bytes
  /-- `serde_json::from_slice`. -/
  fromSlice : Bytes → Option Json
  /-- `OffsetDateTime::format(&Rfc3339)`. -/
  formatRfc3339 : Time → Option String
  /-- `OffsetDateTime::parse(_, &Rfc3339)`. -/
  parseRfc3339 : String → Option Time
  /-- `Argon2::hash_password` of an input with a salt, as a PHC string. -/
  hashPassword : Bytes → Bytes → Option String
  /-- The algorithm of `PasswordHash::new`. -/
  phcAlgorithm : String → Option String
  /-- `Argon2::verify_password`. -/
  verifyPassword : Bytes → String → Bool
  /-- `SchemaPlan::new` accepts the schema name. -/
  schemaPlan : String → Bool
  /-- `ActorAssertionVerifier::from_public_key_base64` accepts issuer and key. -/
  actorVerifier : String → String → Bool
  collation : Collation
  /-- `hashtextextended(_,0)`. -/
  hashtextextended : String → ℤ

/-- `sqlx::Error`, as far as the plugin tells its cases apart. -/
inductive SqlError
  | rowNotFound
  | uniqueViolation (constraint : String)
  | checkViolation
  | foreignKeyViolation
  | outOfRange
  | unavailable
  deriving DecidableEq,Repr

inductive CryptoError
  | random
  | passwordHash
  | serialize
  | deserialize
  | receiptEncryption
  | receiptDecryption
  | invariant (detail : String)
  deriving DecidableEq,Repr

inductive ServiceAccountPluginError
  | database (operation : String) (source : SqlError)
  | crypto (source : CryptoError)
  | random
  | serializeReceipt
  | formatTime
  | invariant (detail : String)
  deriving DecidableEq,Repr

/-- A failure that is no domain result. Errors of the plugin are rendered into the detail of a
`PluginFailure` and kept here as they are; failures of dependencies are passed on. -/
inductive RuntimeFailure
  | pluginFailure (error : ServiceAccountPluginError)
  | failure (detail : String)
  | dependency (detail : String)
  deriving DecidableEq,Repr

/-- How the invocation of a dependency fails. -/
inductive InvocationError (ε : Type)
  | domain (error : ε)
  | runtime (detail : String)
  deriving DecidableEq,Repr

structure ActorAssertion where
  actorKind : String
  subject : String
  deriving DecidableEq,Repr

structure CheckMembershipRequest where
  organizationId : String
  subject : String
  deriving DecidableEq,Repr

structure CheckMembershipResponse where
  active : Bool
  deriving DecidableEq,Repr

inductive CheckMembershipError
  | organizationNotFound
  | invalidRequest
  | unknown (code : String)
  deriving DecidableEq,Repr

structure CheckPermissionRequestScope where
  kind : String
  id : String
  deriving DecidableEq,Repr

structure CheckPermissionRequest where
  subject : String
  scope : CheckPermissionRequestScope
  permission : String
  deriving DecidableEq,Repr

structure CheckPermissionResponse where
  allowed : Bool
  deriving DecidableEq,Repr

inductive CheckPermissionError
  | invalidRequest
  | unknown (code : String)
  deriving DecidableEq,Repr

structure EnsureIdentityRequest where
  provider : String
  externalSubject : String
  deriving DecidableEq,Repr

structure EnsureIdentityResponse where
  subject : String
  deriving DecidableEq,Repr

structure ReadStatusRequest where
  subject : String
  deriving DecidableEq,Repr

inductive ReadStatusResponseStatus
  | active
  | disabled
  deriving DecidableEq,Repr

structure ReadStatusResponse where
  subject : String
  status : ReadStatusResponseStatus
  deriving DecidableEq,Repr

inductive ReadStatusError
  | notFound
  | invalidSubject
  | unknown (code : String)
  deriving DecidableEq,Repr

structure IssueRequest where
  subject : String
  actorKind : String
  assurance : String
  audience : List String
  claims : List (String × String)
  expiresAt : String
  deriving DecidableEq,Repr

structure IssueResponse where
  sessionId : String
  credential : String
  expiresAt : String
  deriving DecidableEq,Repr

inductive IssueError
  | disabled
  | other (code : String)
  deriving DecidableEq,Repr

/-- How the database may let a statement down: it does not happen, or it happens and the
plugin is told that it failed. -/
inductive Fault
  | lost
  | unacknowledged
  deriving DecidableEq,Repr

/-- What the surroundings answer in one step. Every operation reads the fields it asks for. -/
structure Choice where
  now : Time := 0
  fault : Option Fault := none
  clock : Time := 0
  entropy : Option Bytes := none
  assertion : Option ActorAssertion := none
  membership : Except (InvocationError CheckMembershipError) CheckMembershipResponse :=
    .error (.runtime "")
  permission : Except (InvocationError CheckPermissionError) CheckPermissionResponse :=
    .error (.runtime "")
  identity : Except (InvocationError String) EnsureIdentityResponse := .error (.runtime "")
  status : Except (InvocationError ReadStatusError) ReadStatusResponse := .error (.runtime "")
  session : Except (InvocationError IssueError) IssueResponse := .error (.runtime "")

/-- `getrandom::fill` of a buffer: it fails or fills the buffer. -/
def Choice.fill (c : Choice) (count : ℕ) : Option Bytes :=
  c.entropy.filter fun bytes => bytes.length = count

theorem Choice.length_of_fill {c : Choice} {count : ℕ} {bytes : Bytes}
    (h : c.fill count = some bytes) : bytes.length = count := by
  have hb := (Option.filter_eq_some_iff.mp h).2
  exact of_decide_eq_true hb

/-- The collation by code points. -/
def Collation.lexical : Collation where
  le a b := decide (a ≤ b)
  total a b := by simpa using le_total a b
  trans a b c h h' := by
    simp only [decide_eq_true_eq] at h h' ⊢
    exact le_trans h h'
  antisymm a b h h' := by
    simp only [decide_eq_true_eq] at h h'
    exact le_antisymm h h'

/-- Bytes that no other bytes begin with, once framed. -/
def frame (bytes : Bytes) : Bytes := bytes.map (fun _ => 1) ++ 0 :: bytes

/-- Two digits. -/
def twoDigits (n : ℕ) : List Char := [Char.ofNat (48 + n / 10),Char.ofNat (48 + n % 10)]

/-- The RFC 3339 text of an instant in the first hour of 1970. -/
def firstHourText (t : Time) : String :=
  let s := (t / 1000000).toNat
  "1970-01-01T00:" ++ String.ofList (twoDigits (s / 60) ++ ':' :: twoDigits (s % 60)) ++ "Z"

/-- A simple stand-in for the crates, on which runs can be followed: nothing is secret in it, but
sealing is authentic and texts are read as they are written. -/
noncomputable def Environment.plain : Environment where
  sha256 bytes := (bytes ++ List.replicate 32 0).take 32
  aeadEncrypt key nonce aad bytes := some (frame key ++ (frame nonce ++ (frame aad ++ bytes)))
  aeadDecrypt key nonce aad bytes :=
    if (frame key ++ (frame nonce ++ frame aad)).isPrefixOf bytes then
      some (bytes.drop (frame key ++ (frame nonce ++ frame aad)).length)
    else none
  fromSlice := Json.ofVec
  formatRfc3339 t := some (firstHourText t)
  parseRfc3339 value := if value = "1970-01-01T00:05:00Z" then some (seconds 300) else none
  hashPassword _ _ := some "$argon2id$v=19$m=65536,t=3,p=1$salt$hash"
  phcAlgorithm _ := some "argon2id"
  verifyPassword _ _ := true
  schemaPlan _ := true
  actorVerifier _ _ := true
  collation := .lexical
  hashtextextended _ := 0

end LensoServiceAccount
