import LensoServiceAccount.Authorization
import LensoServiceAccount.Storage

/-! The management operations: create, get, list, rotate and revoke. -/

namespace LensoServiceAccount
open Code

/-- Unicode `White_Space`. -/
def isWhitespace (c : Char) : Bool :=
  let n := c.toNat
  (decide (9 ≤ n) && decide (n ≤ 13)) || n == 32 || n == 0x85 || n == 0xA0 || n == 0x1680 ||
    (decide (0x2000 ≤ n) && decide (n ≤ 0x200A)) || n == 0x2028 || n == 0x2029 || n == 0x202F ||
    n == 0x205F || n == 0x3000

/-- `str::trim`. -/
def trim (value : String) : String :=
  String.ofList ((value.toList.dropWhile isWhitespace).reverse.dropWhile isWhitespace).reverse

def isControl (c : Char) : Bool :=
  decide (c.toNat < 32) || (decide (127 ≤ c.toNat) && decide (c.toNat < 160))

def toAsciiLowercase (value : String) : String := String.ofList (value.toList.map Char.toLower)

def validToken (value : String) (max : ℕ) : Bool := validBytes ['-','_','.',':'] max value

def validIdempotencyKey (value : String) : Bool := validToken value 128

def validName (value : String) : Bool :=
  !(trim value).toList.isEmpty && decide ((trim value).utf8ByteSize ≤ 128) &&
    (trim value).toList.all fun c => !isControl c && decide (c.toNat < 128)

/-- The value of a text of decimal digits. -/
def digits (cs : List Char) : Option ℕ :=
  if cs.isEmpty || !cs.all Char.isDigit then none
  else some (cs.foldl (fun n c => 10 * n + (c.toNat - 48)) 0)

/-- `str::parse::<i64>`: an optional sign and digits, within the range of the type. -/
def parseI64 (value : String) : Option ℤ :=
  match value.toList with
  | '+' :: cs => (digits cs).bind fun n => if (n : ℤ) ≤ bigintMax then some n else none
  | '-' :: cs => (digits cs).bind fun n => if (n : ℤ) ≤ bigintMax + 1 then some (-n) else none
  | cs => (digits cs).bind fun n => if (n : ℤ) ≤ bigintMax then some n else none

/-- `str::parse::<u32>`. -/
def parseU32 (value : String) : Option ℕ :=
  match value.toList with
  | '+' :: cs => (digits cs).filter fun n => n < 2 ^ 32
  | cs => (digits cs).filter fun n => n < 2 ^ 32

/-- A positive revision in its canonical decimal form. -/
def parseRevision (value : String) : Option ℤ :=
  (parseI64 value).filter fun revision => 0 < revision && toString revision == value

def parsePageLimit (value : String) (max : ℕ) : Option ℕ :=
  (parseU32 value).filter fun limit => 0 < limit && decide (limit ≤ max) && toString limit == value

def validRotation (request : RotateServiceAccountSecretRequest) : Option ℤ :=
  (parseRevision request.expectedRevision).filter fun _ =>
    validIdempotencyKey request.idempotencyKey && validToken request.organizationId 256 &&
      validToken request.serviceAccountId 128

def validRevocation (request : RevokeServiceAccountRequest) : Option ℤ :=
  (parseRevision request.expectedRevision).filter fun _ =>
    validIdempotencyKey request.idempotencyKey && validToken request.organizationId 256 &&
      validToken request.serviceAccountId 128

/-- The digest of the pair of actor and request. -/
def actorIntentHash (E : Environment) (actor : String) (request : Json) : Bytes :=
  E.sha256 (Json.toVec (.array [.string actor,request]))

/-- The digest of a request. -/
def requestIntentHash (E : Environment) (request : Json) : Bytes := E.sha256 (Json.toVec request)

/-- Caller, operation and idempotency key, separated by zero bytes. -/
def receiptAad (key : CommandKey) : Bytes :=
  asBytes key.callerInstance ++ 0 :: asBytes key.operation ++ 0 :: asBytes key.idempotencyKey

def randomId (start : String) : Entropy ServiceAccountPluginError String := do
  let bytes ← Entropy.fill 24 .random
  return start ++ base64Encode bytes

def formatTime (E : Environment) (value : Time) : Except ServiceAccountPluginError String :=
  match E.formatRfc3339 value with
  | some text => .ok text
  | none => .error .formatTime

/-- `Option::map(format_time).transpose()`. -/
def formatOptionalTime (E : Environment) : Option Time → Except ServiceAccountPluginError (Option String)
  | none => .ok none
  | some value =>
    match formatTime E value with
    | .ok text => .ok (some text)
    | .error e => .error e

/-- The status column holds one of two texts, so no other status is left to refuse. -/
def summaryStatus : AccountStatus → ServiceAccountStatus
  | .active => .active
  | .revoked => .revoked

def summary (E : Environment) (row : AccountRow) : Except ServiceAccountPluginError ServiceAccountSummary := do
  let createdAt ← formatTime E row.createdAt
  let rotatedAt ← formatOptionalTime E row.rotatedAt
  let revokedAt ← formatOptionalTime E row.revokedAt
  let credentialExpiresAt ← formatOptionalTime E row.credentialExpiresAt
  return {
    createdAt := createdAt
    credentialExpiresAt := credentialExpiresAt
    name := row.name
    organizationId := row.organizationId
    revision := toString row.revision
    revokedAt := revokedAt
    rotatedAt := rotatedAt
    serviceAccountId := row.serviceAccountId
    status := summaryStatus row.status
    subject := row.subject }

/-- `map_err(ServiceAccountPluginError::from)`. -/
def crypto {α : Type} (p : Entropy CryptoError α) : Entropy ServiceAccountPluginError α :=
  p.mapError .crypto

inductive AuthorizationDomain
  | forbidden
  | organizationNotFound
  | membershipRequired
  | accessDenied

def mapAuthorization : AuthorizationError → Except RuntimeFailure AuthorizationDomain
  | .forbidden => .ok .forbidden
  | .organizationNotFound => .ok .organizationNotFound
  | .membershipRequired => .ok .membershipRequired
  | .accessDenied => .ok .accessDenied
  | .runtime error => .error error

def mapCreateAuthorization (error : AuthorizationError) : Except RuntimeFailure CreateError :=
  (mapAuthorization error).map fun
    | .forbidden => .forbidden
    | .organizationNotFound => .organizationNotFound
    | .membershipRequired => .membershipRequired
    | .accessDenied => .accessDenied

def mapGetAuthorization (error : AuthorizationError) : Except RuntimeFailure GetError :=
  (mapAuthorization error).map fun
    | .forbidden => .forbidden
    | .organizationNotFound => .organizationNotFound
    | .membershipRequired => .membershipRequired
    | .accessDenied => .accessDenied

def mapListAuthorization (error : AuthorizationError) : Except RuntimeFailure ListError :=
  (mapAuthorization error).map fun
    | .forbidden => .forbidden
    | .organizationNotFound => .organizationNotFound
    | .membershipRequired => .membershipRequired
    | .accessDenied => .accessDenied

def mapRotateAuthorization (error : AuthorizationError) : Except RuntimeFailure RotateSecretError :=
  (mapAuthorization error).map fun
    | .forbidden => .forbidden
    | .organizationNotFound => .organizationNotFound
    | .membershipRequired => .membershipRequired
    | .accessDenied => .accessDenied

def mapRevokeAuthorization (error : AuthorizationError) : Except RuntimeFailure RevokeError :=
  (mapAuthorization error).map fun
    | .forbidden => .forbidden
    | .organizationNotFound => .organizationNotFound
    | .membershipRequired => .membershipRequired
    | .accessDenied => .accessDenied

/-- Decode the error code of a receipt. -/
def createErrorOfCode (code : String) : Except ServiceAccountPluginError CreateError :=
  if code = "name_conflict" then .ok .nameConflict
  else if code = "directory_rejected" then .ok .directoryRejected
  else if code = "too_many_service_accounts" then .ok .tooManyServiceAccounts
  else .error (.invariant "unknown create receipt error")

def rotateErrorOfCode (code : String) : Except ServiceAccountPluginError RotateSecretError :=
  if code = "not_found" then .ok .notFound
  else if code = "revoked" then .ok .revoked
  else if code = "revision_conflict" then .ok .revisionConflict
  else .error (.invariant "unknown rotate receipt error")

def revokeErrorOfCode (code : String) : Except ServiceAccountPluginError RevokeError :=
  if code = "not_found" then .ok .notFound
  else if code = "revision_conflict" then .ok .revisionConflict
  else .error (.invariant "unknown revoke receipt error")

section
variable {E : Environment}

/-- `self.active()`. -/
def ServiceAccountPlugin.get (plugin : ServiceAccountPlugin E) : Code RuntimeFailure (ActiveServiceAccount E) :=
  match plugin.active with
  | some active => pure active
  | none => throw (.failure "Service Account Plugin is not active")

/-- Run the authorization, and answer its failure as the operation does. -/
def authorized {ε α : Type} (active : ActiveServiceAccount E) (context : InvocationContext)
    (operation organizationId permission : String)
    (mapError : AuthorizationError → Except RuntimeFailure ε)
    (next : AuthorizedManagement → Code RuntimeFailure (Except ε α)) :
    Code RuntimeFailure (Except ε α) := do
  match ← attempt (authorizeManagement active context capabilityId operation organizationId permission) with
  | .ok authorization => next authorization
  | .error error =>
    match mapError error with
    | .ok error => return .error error
    | .error error => throw error

/-- Record a domain error for the claimed command and return it. -/
def recordError {ε α : Type} (key : CommandKey) (code : String) (error : ε) :
    Code RuntimeFailure (Except ε α) := do
  runtime (completeError key code)
  return .error error

/-- The receipt of a creation: its response without the secret. -/
def createReceipt (active : ActiveServiceAccount E) (aad : Bytes) : Sealing AccountRow := fun row =>
  match summary E row with
  | .error e => throw e
  | .ok account =>
    crypto (active.receiptCipher.encrypt E (⟨account,true,none⟩ : CreateServiceAccountResponse) aad)

/-- What `create` does once it holds the command. -/
def createClaimed (active : ActiveServiceAccount E) (request : CreateServiceAccountRequest)
    (key : CommandKey) (aad : Bytes) :
    Code RuntimeFailure (Except CreateError CreateServiceAccountResponse) := do
  let serviceAccountId ← runtime (entropy (randomId "sa_"))
  let externalSubject := request.organizationId ++ ":" ++ serviceAccountId
  match ← ask (.ensureIdentity ⟨active.config.directoryProvider,externalSubject⟩) with
  | .error (.runtime detail) => throw (.dependency detail)
  | .error (.domain _) => recordError key "directory_rejected" .directoryRejected
  | .ok identity =>
    if !validToken identity.subject 256 then recordError key "directory_rejected" .directoryRejected
    else
      let credential ← runtime (entropy (crypto CredentialSecret.generate))
      let verifier ← runtime (entropy (crypto (hashSecret E credential.wire active.pepper)))
      let now ← ask .nowUtc
      let created ← attempt (transact (.createAccount {
        key := key
        maxAccounts := active.config.maxAccountsPerOrganization
        serviceAccountId := serviceAccountId
        organizationId := request.organizationId
        subject := identity.subject
        name := trim request.name
        nameKey := toAsciiLowercase (trim request.name)
        credentialId := credential.credentialId
        verifier := verifier
        validFrom := now
        validUntil := now + seconds active.config.credentialTtlSeconds
        receipt := createReceipt active aad }))
      match created with
      | .ok (some row) =>
        let account ← runtime (fallible (summary E row))
        return .ok ⟨account,true,some credential.wire⟩
      | .ok none => recordError key "too_many_service_accounts" .tooManyServiceAccounts
      | .error error =>
        if uniqueConstraint error = some "service_accounts_organization_name_unique" then
          recordError key "name_conflict" .nameConflict
        else if uniqueConstraint error = some "service_accounts_subject_unique" then
          recordError key "directory_rejected" .directoryRejected
        else throw (.pluginFailure error)

def create (plugin : ServiceAccountPlugin E) (context : InvocationContext)
    (request : CreateServiceAccountRequest) :
    Code RuntimeFailure (Except CreateError CreateServiceAccountResponse) := do
  let active ← plugin.get
  if !validIdempotencyKey request.idempotencyKey || !validToken request.organizationId 256 ||
      !validName request.name then
    return .error .invalidRequest
  else
    authorized active context createOperation request.organizationId managePermission
      mapCreateAuthorization fun authorization => do
        runtime (prune active.config.receiptTtlSeconds)
        let intent := actorIntentHash E authorization.actorSubject request.toJson
        let key : CommandKey := ⟨authorization.caller,createOperation,request.idempotencyKey⟩
        let aad := receiptAad key
        match ← runtime (claimCommand key intent) with
        | .claimed => createClaimed active request key aad
        | .completedSuccess nonce ciphertext =>
          let response ← runtime (fallible ((active.receiptCipher.decrypt E
            CreateServiceAccountResponse nonce ciphertext aad).mapError .crypto))
          return .ok { response with created := false,secret := none }
        | .completedError code =>
          let error ← runtime (fallible (createErrorOfCode code))
          return .error error
        | .conflict => return .error .idempotencyConflict
        | .inProgress => return .error .operationInProgress

def get (plugin : ServiceAccountPlugin E) (context : InvocationContext)
    (request : GetServiceAccountRequest) :
    Code RuntimeFailure (Except GetError GetServiceAccountResponse) := do
  let active ← plugin.get
  if !validToken request.organizationId 256 || !validToken request.serviceAccountId 128 then
    return .error .invalidRequest
  else
    authorized active context getOperation request.organizationId readPermission
      mapGetAuthorization fun _ => do
        match ← runtime (loadAccount request.organizationId request.serviceAccountId) with
        | none => return .error .notFound
        | some row =>
          let account ← runtime (fallible (summary E row))
          return .ok ⟨account⟩

def list (plugin : ServiceAccountPlugin E) (context : InvocationContext)
    (request : ListServiceAccountsRequest) :
    Code RuntimeFailure (Except ListError ListServiceAccountsResponse) := do
  let active ← plugin.get
  match parsePageLimit request.limit active.config.maxPageSize with
  | none => return .error .invalidRequest
  | some limit =>
    if !validToken request.organizationId 256 ||
        request.after.any fun cursor => !validToken cursor 128 then
      return .error .invalidRequest
    else
      authorized active context listOperation request.organizationId readPermission
        mapListAuthorization fun _ => do
          let rows ← runtime (listAccounts request.organizationId request.after (limit + 1))
          let hasMore := decide (limit < rows.length)
          let page := rows.take limit
          let nextCursor := if hasMore then page.getLast?.map AccountRow.serviceAccountId else none
          let accounts ← runtime (fallible (page.mapM (summary E)))
          return .ok ⟨accounts,nextCursor⟩

def rotateReceipt (active : ActiveServiceAccount E) (aad : Bytes) : Sealing AccountRow := fun row =>
  match summary E row with
  | .error e => throw e
  | .ok account =>
    crypto (active.receiptCipher.encrypt E (⟨account,true,none⟩ : RotateServiceAccountSecretResponse)
      aad)

/-- What `rotate_secret` does once it holds the command. -/
def rotateClaimed (active : ActiveServiceAccount E) (request : RotateServiceAccountSecretRequest)
    (expectedRevision : ℤ) (key : CommandKey) (aad : Bytes) :
    Code RuntimeFailure (Except RotateSecretError RotateServiceAccountSecretResponse) := do
  let credential ← runtime (entropy (crypto CredentialSecret.generate))
  let verifier ← runtime (entropy (crypto (hashSecret E credential.wire active.pepper)))
  let now ← ask .nowUtc
  let result ← runtime (transact (.rotateAccount {
    key := key
    organizationId := request.organizationId
    serviceAccountId := request.serviceAccountId
    expectedRevision := expectedRevision
    credentialId := credential.credentialId
    verifier := verifier
    validFrom := now
    overlapUntil := now + seconds active.config.rotationOverlapSeconds
    validUntil := now + seconds active.config.credentialTtlSeconds
    receipt := rotateReceipt active aad }))
  match result with
  | .updated row =>
    let account ← runtime (fallible (summary E row))
    return .ok ⟨account,true,some credential.wire⟩
  | .notFound => recordError key "not_found" .notFound
  | .revoked => recordError key "revoked" .revoked
  | .revisionConflict => recordError key "revision_conflict" .revisionConflict

def rotateSecret (plugin : ServiceAccountPlugin E) (context : InvocationContext)
    (request : RotateServiceAccountSecretRequest) :
    Code RuntimeFailure (Except RotateSecretError RotateServiceAccountSecretResponse) := do
  let active ← plugin.get
  match validRotation request with
  | none => return .error .invalidRequest
  | some expectedRevision =>
    authorized active context rotateSecretOperation request.organizationId managePermission
      mapRotateAuthorization fun authorization => do
        runtime (prune active.config.receiptTtlSeconds)
        let intent := actorIntentHash E authorization.actorSubject request.toJson
        let key : CommandKey := ⟨authorization.caller,rotateSecretOperation,request.idempotencyKey⟩
        let aad := receiptAad key
        match ← runtime (claimCommand key intent) with
        | .claimed => rotateClaimed active request expectedRevision key aad
        | .completedSuccess nonce ciphertext =>
          let response ← runtime (fallible ((active.receiptCipher.decrypt E
            RotateServiceAccountSecretResponse nonce ciphertext aad).mapError .crypto))
          return .ok { response with rotated := false,secret := none }
        | .completedError code =>
          let error ← runtime (fallible (rotateErrorOfCode code))
          return .error error
        | .conflict => return .error .idempotencyConflict
        | .inProgress => return .error .operationInProgress

def revokeReceipt (active : ActiveServiceAccount E) (aad : Bytes) : Sealing (AccountRow × Bool) :=
  fun (row, changed) =>
    match summary E row with
    | .error e => throw e
    | .ok account =>
      crypto (active.receiptCipher.encrypt E (⟨account,changed⟩ : RevokeServiceAccountResponse) aad)

/-- What `revoke` does once it holds the command. -/
def revokeClaimed (active : ActiveServiceAccount E) (request : RevokeServiceAccountRequest)
    (expectedRevision : ℤ) (key : CommandKey) (aad : Bytes) :
    Code RuntimeFailure (Except RevokeError RevokeServiceAccountResponse) := do
  let result ← runtime (transact (.revokeAccount {
    key := key
    organizationId := request.organizationId
    serviceAccountId := request.serviceAccountId
    expectedRevision := expectedRevision
    receipt := revokeReceipt active aad }))
  match result with
  | .updated (row, changed) =>
    let account ← runtime (fallible (summary E row))
    return .ok ⟨account,changed⟩
  | .notFound => recordError key "not_found" .notFound
  | .revisionConflict => recordError key "revision_conflict" .revisionConflict
  | .revoked => throw (.pluginFailure (.invariant "revocation returned an impossible state"))

def revoke (plugin : ServiceAccountPlugin E) (context : InvocationContext)
    (request : RevokeServiceAccountRequest) :
    Code RuntimeFailure (Except RevokeError RevokeServiceAccountResponse) := do
  let active ← plugin.get
  match validRevocation request with
  | none => return .error .invalidRequest
  | some expectedRevision =>
    authorized active context revokeOperation request.organizationId managePermission
      mapRevokeAuthorization fun authorization => do
        runtime (prune active.config.receiptTtlSeconds)
        let intent := actorIntentHash E authorization.actorSubject request.toJson
        let key : CommandKey := ⟨authorization.caller,revokeOperation,request.idempotencyKey⟩
        let aad := receiptAad key
        match ← runtime (claimCommand key intent) with
        | .claimed => revokeClaimed active request expectedRevision key aad
        | .completedSuccess nonce ciphertext =>
          let response ← runtime (fallible ((active.receiptCipher.decrypt E
            RevokeServiceAccountResponse nonce ciphertext aad).mapError .crypto))
          return .ok { response with revoked := false }
        | .completedError code =>
          let error ← runtime (fallible (revokeErrorOfCode code))
          return .error error
        | .conflict => return .error .idempotencyConflict
        | .inProgress => return .error .operationInProgress

end
end LensoServiceAccount
