import LensoServiceAccount.Management

/-! The exchange of a service-account secret for a session of the Credential Issuer. -/

namespace LensoServiceAccount
open Code

variable {E : Environment}

def exchangeErrorOfCode (code : String) : Except ServiceAccountPluginError ExchangeSecretError :=
  if code = "invalid_credentials" then .ok .invalidCredentials
  else if code = "rate_limited" then .ok .rateLimited
  else if code = "disabled" then .ok .disabled
  else .error (.invariant "unknown exchange receipt error")

/-- The conditions of the in-memory filter on a loaded credential. -/
def CredentialRow.usableAt (now : Time) (row : CredentialRow) : Bool :=
  row.accountStatus == .active && row.revokedAt.isNone && decide (row.validFrom ≤ now) &&
    decide (now < row.validUntil)

def response (credential : CredentialRow) (sessionId token expiresAt : String) :
    ExchangeServiceAccountSecretResponse where
  serviceAccountId := credential.serviceAccountId
  organizationId := credential.organizationId
  subject := credential.subject
  sessionId := sessionId
  credential := token
  expiresAt := expiresAt

/-- The issuer's answer has a session id and a credential of acceptable sizes. -/
def IssueResponse.wellFormed (session : IssueResponse) : Bool :=
  decide (0 < session.sessionId.utf8ByteSize) && decide (session.sessionId.utf8ByteSize ≤ 256) &&
    decide (0 < session.credential.utf8ByteSize) && decide (session.credential.utf8ByteSize ≤ 65536)

/-- What is asked of the issuer for an admitted credential. -/
def issueRequest (active : ActiveServiceAccount E) (credential : CredentialRow) (expiresAt : String) :
    IssueRequest where
  subject := credential.subject
  actorKind := "service_account"
  assurance := "service_account_secret"
  audience := active.config.tokenAudience
  claims := [("organization_id",credential.organizationId),
    ("service_account_id",credential.serviceAccountId)]
  expiresAt := expiresAt

/-- `requested_expiry.min(credential.valid_until)`. -/
def boundedExpiry (active : ActiveServiceAccount E) (credential : CredentialRow) (now : Time) : Time :=
  min (now + seconds active.config.tokenTtlSeconds) credential.validUntil

/-- Check the issued session and keep it as the receipt of the command. -/
def recordSession (active : ActiveServiceAccount E) (key : CommandKey) (aad : Bytes)
    (credential : CredentialRow) (expiresAt : Time) (session : IssueResponse) :
    Code RuntimeFailure (Except ExchangeSecretError ExchangeServiceAccountSecretResponse) := do
  if !session.wellFormed then
    throw (.failure "Credential Issuer returned an invalid service-account credential")
  else
    match E.parseRfc3339 session.expiresAt with
    | none => throw (.failure "Credential Issuer returned an invalid service-account expiry")
    | some actualExpiry =>
      let now ← ask .nowUtc
      if actualExpiry ≤ now ∨ expiresAt < actualExpiry then
        throw (.failure "Credential Issuer exceeded the bounded service-account expiry")
      else
        let response := response credential session.sessionId session.credential session.expiresAt
        let (nonce, ciphertext) ← runtime (entropy (crypto (active.receiptCipher.encrypt E response aad)))
        runtime (transact (.completeSuccess key nonce ciphertext))
        return .ok response

/-- Ask the issuer for an admitted credential. The Issuer contract has no idempotency key: once
issuing has begun, an outcome that is not definitive stays in `issuing`. -/
def issueSession (active : ActiveServiceAccount E) (key : CommandKey) (aad : Bytes)
    (credential : CredentialRow) :
    Code RuntimeFailure (Except ExchangeSecretError ExchangeServiceAccountSecretResponse) := do
  let now ← ask .nowUtc
  let expiresAt := boundedExpiry active credential now
  if expiresAt ≤ now then recordError key "invalid_credentials" .invalidCredentials
  else
    let expiry ← runtime (fallible (formatTime E expiresAt))
    match ← ask (.issue (issueRequest active credential expiry)) with
    | .error (.domain .disabled) => recordError key "disabled" .disabled
    | .error (.domain (.other _)) =>
      throw (.failure "Credential Issuer returned an indeterminate service-account result")
    | .error (.runtime detail) => throw (.dependency detail)
    | .ok session => recordSession active key aad credential expiresAt session

/-- Ask the directory about the verified credential's subject and admit the exchange. -/
def admitCredential (active : ActiveServiceAccount E) (key : CommandKey) (aad : Bytes)
    (credential : CredentialRow) :
    Code RuntimeFailure (Except ExchangeSecretError ExchangeServiceAccountSecretResponse) := do
  match ← ask (.readStatus ⟨credential.subject⟩) with
  | .error (.domain .notFound) | .error (.domain .invalidSubject) =>
    recordError key "disabled" .disabled
  | .error (.domain (.unknown _)) =>
    throw (.failure "Identity Directory returned an unknown service-account status error")
  | .error (.runtime detail) => throw (.dependency detail)
  | .ok status =>
    if status.subject ≠ credential.subject then
      throw (.failure "Identity Directory returned another subject for service-account status")
    else if status.status ≠ .active then recordError key "disabled" .disabled
    else
      let now ← ask .nowUtc
      match ← runtime (transact (.markExchangeIssuing ⟨key.callerInstance,key.idempotencyKey,
        credential.credentialId,credential.serviceAccountId,now⟩)) with
      | none => recordError key "invalid_credentials" .invalidCredentials
      | some admitted => issueSession active key aad admitted

/-- What `exchange_secret` does once it holds the command. -/
def exchangeClaimed (active : ActiveServiceAccount E) (request : ExchangeServiceAccountSecretRequest)
    (key : CommandKey) (aad : Bytes) :
    Code RuntimeFailure (Except ExchangeSecretError ExchangeServiceAccountSecretResponse) := do
  let now ← ask .nowUtc
  let admitted ← runtime (transact (.reserveRateSlot ⟨key.callerInstance,now,
    active.config.exchangeWindowSeconds,active.config.maxExchangesPerWindow,
    active.config.exchangeLockoutSeconds⟩))
  if !admitted then recordError key "rate_limited" .rateLimited
  else
    let credential ← match credentialId request.secret with
      | some credentialId => runtime (loadCredential credentialId)
      | none => pure none
    let verifier := (credential.map CredentialRow.verifier).getD active.dummyVerifier
    let secretMatches ← verifySecret E request.secret active.pepper verifier
    match credential.filter fun row => secretMatches && row.usableAt now with
    | none => recordError key "invalid_credentials" .invalidCredentials
    | some credential => admitCredential active key aad credential

def exchangeSecret (plugin : ServiceAccountPlugin E) (context : InvocationContext)
    (request : ExchangeServiceAccountSecretRequest) :
    Code RuntimeFailure (Except ExchangeSecretError ExchangeServiceAccountSecretResponse) := do
  let active ← plugin.get
  match context.callerIn active.config.authenticationCallers with
  | none => return .error .forbidden
  | some caller =>
    if !validIdempotencyKey request.idempotencyKey || request.secret.isEmpty ||
        decide (512 < request.secret.utf8ByteSize) then
      return .error .invalidRequest
    else
      runtime (prune active.config.receiptTtlSeconds)
      let intent := requestIntentHash E request.toJson
      let key : CommandKey := ⟨caller,exchangeSecretOperation,request.idempotencyKey⟩
      let aad := receiptAad key
      match ← runtime (claimCommand key intent) with
      | .claimed => exchangeClaimed active request key aad
      | .completedSuccess nonce ciphertext =>
        let response ← runtime (fallible ((active.receiptCipher.decrypt E
          ExchangeServiceAccountSecretResponse nonce ciphertext aad).mapError .crypto))
        return .ok response
      | .completedError code =>
        let error ← runtime (fallible (exchangeErrorOfCode code))
        return .error error
      | .conflict => return .error .idempotencyConflict
      | .inProgress => return .error .operationInProgress

end LensoServiceAccount
