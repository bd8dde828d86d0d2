import LensoServiceAccount.System

/-! The four operations that hold a command, with one shape: what a call presents when it claims,
and how it answers when the command is already there. -/

namespace LensoServiceAccount
open Code
variable {E : Environment}

/-- The failure of a reply. -/
def Reply.failure : Reply → Option RuntimeFailure
  | .create (.error f) | .get (.error f) | .list (.error f) | .rotateSecret (.error f)
  | .revoke (.error f) | .exchangeSecret (.error f) => some f
  | _ => none

/-- The reply carries a success. -/
def Reply.succeeds : Reply → Bool
  | .create (.ok (.ok _)) | .get (.ok (.ok _)) | .list (.ok (.ok _)) | .rotateSecret (.ok (.ok _))
  | .revoke (.ok (.ok _)) | .exchangeSecret (.ok (.ok _)) | .inspectCommand (.ok _) => true
  | _ => false

/-- What tells the operations that hold a command apart. -/
structure Kind where
  Error : Type
  Response : Type
  [receipt : Receipt Response]
  reply : Except RuntimeFailure (Except Error Response) → Reply
  errorOfCode : String → Except ServiceAccountPluginError Error
  /-- What a receipt keeps of a response. -/
  kept : Response → Response
  /-- What a later call makes of a receipt. -/
  replayed : Response → Response
  idempotencyConflict : Error
  operationInProgress : Error

attribute [instance] Kind.receipt

def createKind : Kind where
  Error := CreateError
  Response := CreateServiceAccountResponse
  reply := .create
  errorOfCode := createErrorOfCode
  kept r := { r with secret := none }
  replayed r := { r with created := false,secret := none }
  idempotencyConflict := .idempotencyConflict
  operationInProgress := .operationInProgress

def rotateKind : Kind where
  Error := RotateSecretError
  Response := RotateServiceAccountSecretResponse
  reply := .rotateSecret
  errorOfCode := rotateErrorOfCode
  kept r := { r with secret := none }
  replayed r := { r with rotated := false,secret := none }
  idempotencyConflict := .idempotencyConflict
  operationInProgress := .operationInProgress

def revokeKind : Kind where
  Error := RevokeError
  Response := RevokeServiceAccountResponse
  reply := .revoke
  errorOfCode := revokeErrorOfCode
  kept r := r
  replayed r := { r with revoked := false }
  idempotencyConflict := .idempotencyConflict
  operationInProgress := .operationInProgress

def exchangeKind : Kind where
  Error := ExchangeSecretError
  Response := ExchangeServiceAccountSecretResponse
  reply := .exchangeSecret
  errorOfCode := exchangeErrorOfCode
  kept r := r
  replayed r := r
  idempotencyConflict := .idempotencyConflict
  operationInProgress := .operationInProgress

namespace Call

def kind : Call E → Option Kind
  | .create _ _ _ => some createKind
  | .rotateSecret _ _ _ => some rotateKind
  | .revoke _ _ _ => some revokeKind
  | .exchangeSecret _ _ _ => some exchangeKind
  | _ => none

/-- What the instance that is called has active. -/
def active : Call E → Option (ActiveServiceAccount E)
  | .create plugin _ _ | .get plugin _ _ | .list plugin _ _ | .rotateSecret plugin _ _
  | .revoke plugin _ _ | .exchangeSecret plugin _ _ => plugin.active
  | .inspectCommand _ _ _ => none

/-- The command of the call, if its caller may make it. -/
def commandKey : Call E → Option CommandKey
  | .create plugin context request => do
    let caller ← context.callerIn (← plugin.active).config.managementCallers
    return ⟨caller,createOperation,request.idempotencyKey⟩
  | .rotateSecret plugin context request => do
    let caller ← context.callerIn (← plugin.active).config.managementCallers
    return ⟨caller,rotateSecretOperation,request.idempotencyKey⟩
  | .revoke plugin context request => do
    let caller ← context.callerIn (← plugin.active).config.managementCallers
    return ⟨caller,revokeOperation,request.idempotencyKey⟩
  | .exchangeSecret plugin context request => do
    let caller ← context.callerIn (← plugin.active).config.authenticationCallers
    return ⟨caller,exchangeSecretOperation,request.idempotencyKey⟩
  | _ => none

/-- What is hashed as the intent: the request, for management together with its actor. -/
def intent : Call E → Option String → Option Json
  | .create _ _ request, some actor => some (.array [.string actor,request.toJson])
  | .rotateSecret _ _ request, some actor => some (.array [.string actor,request.toJson])
  | .revoke _ _ request, some actor => some (.array [.string actor,request.toJson])
  | .exchangeSecret _ _ request, _ => some request.toJson
  | _, _ => none

end Call

/-- What a call presents when it claims its command. -/
structure Held (E : Environment) where
  active : ActiveServiceAccount E
  key : CommandKey
  intent : Json

namespace Held

def intentHash (h : Held E) : Bytes := E.sha256 (Json.toVec h.intent)

def aad (h : Held E) : Bytes := receiptAad h.key

/-- Nonce and ciphertext are a value sealed for the command. -/
def Sealed (h : Held E) (j : Json) (nonce ciphertext : Bytes) : Prop :=
  nonce.length = 12 ∧
    E.aeadEncrypt h.active.receiptCipher.key nonce h.aad (Json.toVec j) = some ciphertext

end Held

/-- The call, acting for `actor`, presents `h`. -/
structure Call.Presents (call : Call E) (actor : Option String) (h : Held E) : Prop where
  active : call.active = some h.active
  commandKey : call.commandKey = some h.key
  intent : call.intent actor = some h.intent

namespace Kind
variable (K : Kind)

/-- The result of a call that finds the command there. -/
def answer (h : Held E) (row : Command) : Except RuntimeFailure (Except K.Error K.Response) :=
  if row.intentHash ≠ h.intentHash then .ok (.error K.idempotencyConflict)
  else
    match row.status with
    | .completedSuccess =>
      match h.active.receiptCipher.decrypt E K.Response (row.responseNonce.getD [])
          (row.responseCiphertext.getD []) h.aad with
      | .ok response => .ok (.ok (K.replayed response))
      | .error e => .error (.pluginFailure (.crypto e))
    | .completedError =>
      match K.errorOfCode (row.errorCode.getD "") with
      | .ok error => .ok (.error error)
      | .error e => .error (.pluginFailure e)
    | .reserved | .verifying | .issuing => .ok (.error K.operationInProgress)

/-- Claim the command: go on with it, or answer from what is there. -/
def claim (h : Held E) (claimed : Code RuntimeFailure (Except K.Error K.Response)) :
    Code RuntimeFailure (Except K.Error K.Response) := do
  match ← runtime (claimCommand h.key h.intentHash) with
  | .claimed => claimed
  | .completedSuccess nonce ciphertext =>
    let response ← runtime (fallible ((h.active.receiptCipher.decrypt E K.Response nonce ciphertext
      h.aad).mapError .crypto))
    return .ok (K.replayed response)
  | .completedError code =>
    let error ← runtime (fallible (K.errorOfCode code))
    return .error error
  | .conflict => return .error K.idempotencyConflict
  | .inProgress => return .error K.operationInProgress

/-- What a row that is there makes the code do: no more operations, and this result. -/
theorem claim_found (h : Held E) (claimed : Code RuntimeFailure (Except K.Error K.Response))
    (row : Command) :
    (match CommandClaim.ofCommand h.intentHash row with
      | .claimed => claimed
      | .completedSuccess nonce ciphertext => do
        let response ← runtime (fallible ((h.active.receiptCipher.decrypt E K.Response nonce ciphertext
          h.aad).mapError .crypto))
        return .ok (K.replayed response)
      | .completedError code => do
        let error ← runtime (fallible (K.errorOfCode code))
        return .error error
      | .conflict => return .error K.idempotencyConflict
      | .inProgress => return .error K.operationInProgress) =
    (ExceptT.mk (pure (K.answer h row)) : Code RuntimeFailure (Except K.Error K.Response)) := by
  unfold CommandClaim.ofCommand answer
  by_cases hi : row.intentHash ≠ h.intentHash
  · rw [if_pos hi,if_pos hi]
    rfl
  · rw [if_neg hi,if_neg hi]
    cases row.status with
    | completedSuccess =>
      dsimp only
      cases h.active.receiptCipher.decrypt E K.Response (row.responseNonce.getD [])
        (row.responseCiphertext.getD []) h.aad <;> rfl
    | completedError =>
      dsimp only
      cases K.errorOfCode (row.errorCode.getD "") <;> rfl
    | _ => rfl

end Kind

lemma formatTime_error {value : Time} {e : ServiceAccountPluginError} (h : formatTime E value = .error e) :
    e = .formatTime := by
  unfold formatTime at h
  split at h
  · cases h
  · exact (Except.error.inj h).symm

lemma formatOptionalTime_error {value : Option Time} {e : ServiceAccountPluginError}
    (h : formatOptionalTime E value = .error e) : e = .formatTime := by
  cases value with
  | none => cases h
  | some t =>
    simp only [formatOptionalTime] at h
    split at h
    · cases h
    · next e' he =>
      obtain rfl := Except.error.inj h
      exact formatTime_error he

lemma summary_error {row : AccountRow} {e : ServiceAccountPluginError} (h : summary E row = .error e) :
    e = .formatTime := by
  unfold summary at h
  simp only [bind,Except.bind,pure,Except.pure] at h
  repeat' split at h
  all_goals first
    | cases h; done
    | (obtain rfl := Except.error.inj h
       first
         | exact formatTime_error ‹_›
         | exact formatOptionalTime_error ‹_›)

/-- What a summary shows of its row. -/
structure AccountRow.Summarized (E : Environment) (row : AccountRow) (s : ServiceAccountSummary) : Prop where
  serviceAccountId : s.serviceAccountId = row.serviceAccountId
  organizationId : s.organizationId = row.organizationId
  subject : s.subject = row.subject
  name : s.name = row.name
  status : s.status = summaryStatus row.status
  revision : s.revision = toString row.revision
  createdAt : formatTime E row.createdAt = .ok s.createdAt
  rotatedAt : formatOptionalTime E row.rotatedAt = .ok s.rotatedAt
  revokedAt : formatOptionalTime E row.revokedAt = .ok s.revokedAt
  credentialExpiresAt : formatOptionalTime E row.credentialExpiresAt = .ok s.credentialExpiresAt

lemma summary_ok {row : AccountRow} {s : ServiceAccountSummary} (h : summary E row = .ok s) : row.Summarized E s := by
  unfold summary at h
  cases hc : formatTime E row.createdAt with
  | error e => simp [hc,bind,Except.bind] at h
  | ok createdAt =>
    cases hr : formatOptionalTime E row.rotatedAt with
    | error e => simp [hc,hr,bind,Except.bind] at h
    | ok rotatedAt =>
      cases hv : formatOptionalTime E row.revokedAt with
      | error e => simp [hc,hr,hv,bind,Except.bind] at h
      | ok revokedAt =>
        cases he : formatOptionalTime E row.credentialExpiresAt with
        | error e => simp [hc,hr,hv,he,bind,Except.bind] at h
        | ok expiresAt =>
          simp only [hc,hr,hv,he,bind,Except.bind,pure,Except.pure,Except.ok.injEq] at h
          subst h
          exact ⟨rfl,rfl,rfl,rfl,rfl,rfl,hc,hr,hv,he⟩

/-- What the closures of the three management operations seal. -/
lemma sealing_outcome {row : AccountRow} {cipher : ReceiptCipher} {aad : Bytes} {ρ : Type} [Receipt ρ]
    {f : ServiceAccountSummary → ρ} {p : Entropy ServiceAccountPluginError (Bytes × Bytes)}
    (hp : p = match summary E row with
      | .error e => throw e
      | .ok account => crypto (cipher.encrypt E (f account) aad))
    {r : Except ServiceAccountPluginError (Bytes × Bytes)} (h : p.run.Outcome Filled r) :
    (∃ account, ∃ nonce ciphertext : Bytes, summary E row = .ok account ∧ nonce.length = 12 ∧
      E.aeadEncrypt cipher.key nonce aad (Json.toVec (Receipt.toJson (f account))) = some ciphertext ∧
      r = .ok (nonce,ciphertext)) ∨
    ∃ e, r = .error e ∧ ∀ detail, e ≠ .invariant detail := by
  subst hp
  cases hs : summary E row with
  | error e =>
    rw [hs] at h
    obtain rfl : Except.error e = r := h
    refine .inr ⟨e,rfl,fun detail hd => ?_⟩
    rw [summary_error hs] at hd
    cases hd
  | ok account =>
    rw [hs] at h
    obtain ⟨x,hx,rfl⟩ := Entropy.mapError_outcome h
    obtain ⟨nonce,ciphertext,hn,hc,rfl⟩ | rfl | rfl := ReceiptCipher.encrypt_outcome hx
    · exact .inl ⟨account,nonce,ciphertext,rfl,hn,hc,rfl⟩
    · exact .inr ⟨_,rfl,fun _ h => by cases h⟩
    · exact .inr ⟨_,rfl,fun _ h => by cases h⟩

end LensoServiceAccount
