import LensoServiceAccount.Library.Json

/-! The two capability contracts: requests, responses, domain errors, and the JSON forms that
the plugin hashes and keeps as receipts. -/

namespace LensoServiceAccount

def createOperation : String := "create"
def getOperation : String := "get"
def listOperation : String := "list"
def rotateSecretOperation : String := "rotate_secret"
def revokeOperation : String := "revoke"
def exchangeSecretOperation : String := "exchange_secret"
def capabilityId : String := "lenso.service-account@1"

structure CreateServiceAccountRequest where
  idempotencyKey : String
  name : String
  organizationId : String
  deriving DecidableEq,Repr

structure GetServiceAccountRequest where
  organizationId : String
  serviceAccountId : String
  deriving DecidableEq,Repr

structure ListServiceAccountsRequest where
  after : Option String
  limit : String
  organizationId : String
  deriving DecidableEq,Repr

structure RotateServiceAccountSecretRequest where
  expectedRevision : String
  idempotencyKey : String
  organizationId : String
  serviceAccountId : String
  deriving DecidableEq,Repr

structure RevokeServiceAccountRequest where
  expectedRevision : String
  idempotencyKey : String
  organizationId : String
  serviceAccountId : String
  deriving DecidableEq,Repr

structure ExchangeServiceAccountSecretRequest where
  idempotencyKey : String
  secret : String
  deriving DecidableEq,Repr

def CreateServiceAccountRequest.toJson (r : CreateServiceAccountRequest) : Json :=
  .object [("idempotency_key",.string r.idempotencyKey),("name",.string r.name),
    ("organization_id",.string r.organizationId)]

def RotateServiceAccountSecretRequest.toJson (r : RotateServiceAccountSecretRequest) : Json :=
  .object [("expected_revision",.string r.expectedRevision),
    ("idempotency_key",.string r.idempotencyKey),("organization_id",.string r.organizationId),
    ("service_account_id",.string r.serviceAccountId)]

def RevokeServiceAccountRequest.toJson (r : RevokeServiceAccountRequest) : Json :=
  .object [("expected_revision",.string r.expectedRevision),
    ("idempotency_key",.string r.idempotencyKey),("organization_id",.string r.organizationId),
    ("service_account_id",.string r.serviceAccountId)]

def ExchangeServiceAccountSecretRequest.toJson (r : ExchangeServiceAccountSecretRequest) : Json :=
  .object [("idempotency_key",.string r.idempotencyKey),("secret",.string r.secret)]

inductive ServiceAccountStatus
  | active
  | revoked
  deriving DecidableEq,Repr

/-- `Timestamp` fields are RFC 3339 texts. -/
structure ServiceAccountSummary where
  createdAt : String
  credentialExpiresAt : Option String
  name : String
  organizationId : String
  revision : String
  revokedAt : Option String
  rotatedAt : Option String
  serviceAccountId : String
  status : ServiceAccountStatus
  subject : String
  deriving DecidableEq,Repr

structure CreateServiceAccountResponse where
  account : ServiceAccountSummary
  created : Bool
  secret : Option String
  deriving DecidableEq,Repr

structure GetServiceAccountResponse where
  account : ServiceAccountSummary
  deriving DecidableEq,Repr

structure ListServiceAccountsResponse where
  accounts : List ServiceAccountSummary
  nextCursor : Option String
  deriving DecidableEq,Repr

structure RotateServiceAccountSecretResponse where
  account : ServiceAccountSummary
  rotated : Bool
  secret : Option String
  deriving DecidableEq,Repr

structure RevokeServiceAccountResponse where
  account : ServiceAccountSummary
  revoked : Bool
  deriving DecidableEq,Repr

structure ExchangeServiceAccountSecretResponse where
  credential : String
  expiresAt : String
  organizationId : String
  serviceAccountId : String
  sessionId : String
  subject : String
  deriving DecidableEq,Repr

inductive CreateError
  | accessDenied
  | directoryRejected
  | forbidden
  | idempotencyConflict
  | invalidRequest
  | membershipRequired
  | nameConflict
  | operationInProgress
  | organizationNotFound
  | tooManyServiceAccounts
  deriving DecidableEq,Repr

inductive GetError
  | accessDenied
  | forbidden
  | invalidRequest
  | membershipRequired
  | notFound
  | organizationNotFound
  deriving DecidableEq,Repr

inductive ListError
  | accessDenied
  | forbidden
  | invalidRequest
  | membershipRequired
  | organizationNotFound
  deriving DecidableEq,Repr

inductive RotateSecretError
  | accessDenied
  | forbidden
  | idempotencyConflict
  | invalidRequest
  | membershipRequired
  | notFound
  | operationInProgress
  | organizationNotFound
  | revisionConflict
  | revoked
  deriving DecidableEq,Repr

inductive RevokeError
  | accessDenied
  | forbidden
  | idempotencyConflict
  | invalidRequest
  | membershipRequired
  | notFound
  | operationInProgress
  | organizationNotFound
  | revisionConflict
  deriving DecidableEq,Repr

inductive ExchangeSecretError
  | disabled
  | forbidden
  | idempotencyConflict
  | invalidCredentials
  | invalidRequest
  | operationInProgress
  | rateLimited
  deriving DecidableEq,Repr

/-- A type whose values are stored as JSON receipts. -/
class Receipt (ρ : Type) where
  toJson : ρ → Json
  fromJson : Json → Option ρ
  fromJson_toJson : ∀ r, fromJson (toJson r) = some r

def ServiceAccountStatus.toJson : ServiceAccountStatus → Json
  | .active => .string "active"
  | .revoked => .string "revoked"

def ServiceAccountStatus.fromJson : Json → Option ServiceAccountStatus
  | .string "active" => some .active
  | .string "revoked" => some .revoked
  | _ => none

def ServiceAccountSummary.toJson (s : ServiceAccountSummary) : Json :=
  .object [("created_at",.string s.createdAt),
    ("credential_expires_at",.ofOptional s.credentialExpiresAt),("name",.string s.name),
    ("organization_id",.string s.organizationId),("revision",.string s.revision),
    ("revoked_at",.ofOptional s.revokedAt),("rotated_at",.ofOptional s.rotatedAt),
    ("service_account_id",.string s.serviceAccountId),("status",s.status.toJson),
    ("subject",.string s.subject)]

def ServiceAccountSummary.fromJson (j : Json) : Option ServiceAccountSummary := do
  return {
    createdAt := ← (← j.field "created_at").asString
    credentialExpiresAt := ← (← j.field "credential_expires_at").asOptional
    name := ← (← j.field "name").asString
    organizationId := ← (← j.field "organization_id").asString
    revision := ← (← j.field "revision").asString
    revokedAt := ← (← j.field "revoked_at").asOptional
    rotatedAt := ← (← j.field "rotated_at").asOptional
    serviceAccountId := ← (← j.field "service_account_id").asString
    status := ← ServiceAccountStatus.fromJson (← j.field "status")
    subject := ← (← j.field "subject").asString }

lemma ServiceAccountStatus.fromJson_toJson (s : ServiceAccountStatus) : fromJson s.toJson = some s := by
  cases s <;> rfl

lemma ServiceAccountSummary.fromJson_toJson (s : ServiceAccountSummary) :
    fromJson s.toJson = some s := by
  simp [fromJson,toJson,Json.field,ServiceAccountStatus.fromJson_toJson]

instance : Receipt CreateServiceAccountResponse where
  toJson r := .object [("account",r.account.toJson),("created",.bool r.created),
    ("secret",.ofOptional r.secret)]
  fromJson j := do
    return {
      account := ← ServiceAccountSummary.fromJson (← j.field "account")
      created := ← (← j.field "created").asBool
      secret := ← (← j.field "secret").asOptional }
  fromJson_toJson r := by simp [Json.field,ServiceAccountSummary.fromJson_toJson]

instance : Receipt RotateServiceAccountSecretResponse where
  toJson r := .object [("account",r.account.toJson),("rotated",.bool r.rotated),
    ("secret",.ofOptional r.secret)]
  fromJson j := do
    return {
      account := ← ServiceAccountSummary.fromJson (← j.field "account")
      rotated := ← (← j.field "rotated").asBool
      secret := ← (← j.field "secret").asOptional }
  fromJson_toJson r := by simp [Json.field,ServiceAccountSummary.fromJson_toJson]

instance : Receipt RevokeServiceAccountResponse where
  toJson r := .object [("account",r.account.toJson),("revoked",.bool r.revoked)]
  fromJson j := do
    return {
      account := ← ServiceAccountSummary.fromJson (← j.field "account")
      revoked := ← (← j.field "revoked").asBool }
  fromJson_toJson r := by simp [Json.field,ServiceAccountSummary.fromJson_toJson]

instance : Receipt ExchangeServiceAccountSecretResponse where
  toJson r := .object [("credential",.string r.credential),("expires_at",.string r.expiresAt),
    ("organization_id",.string r.organizationId),
    ("service_account_id",.string r.serviceAccountId),("session_id",.string r.sessionId),
    ("subject",.string r.subject)]
  fromJson j := do
    return {
      credential := ← (← j.field "credential").asString
      expiresAt := ← (← j.field "expires_at").asString
      organizationId := ← (← j.field "organization_id").asString
      serviceAccountId := ← (← j.field "service_account_id").asString
      sessionId := ← (← j.field "session_id").asString
      subject := ← (← j.field "subject").asString }
  fromJson_toJson r := by simp [Json.field]

end LensoServiceAccount
