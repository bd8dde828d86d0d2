import LensoServiceAccount.Operations

/-! The protocol of a single call: the phases it goes through, the operation it asks for in each
of them, and the reply it ends with. -/

namespace LensoServiceAccount
variable {E : Environment}

/-- Where a call is. From `claimed` to `deciding` and in `declined` it holds a reserved command,
from `admitted` to `issued` a command that is issuing. -/
inductive Phase (E : Environment)
  | opening (actor : Option String)
  | contested (h : Held E)
  | answered (h : Held E) (row : Command)
  | claimed (h : Held E)
  | timed (h : Held E) (now : Time)
  | loaded (h : Held E) (now : Time) (credential : Option CredentialRow)
  | verified (h : Held E) (row : CredentialRow)
  | alive (h : Held E) (row : CredentialRow)
  | deciding (h : Held E) (row : CredentialRow) (now : Time)
  | declined (h : Held E)
  | admitted (h : Held E) (row : CredentialRow)
  | dated (h : Held E) (row : CredentialRow) (now : Time)
  | refused (h : Held E)
  | issued (h : Held E) (row : CredentialRow) (now : Time) (session : IssueResponse)
  | settled (h : Held E) (reply : Reply)
  | seen (rows : List AccountRow)
  | inspected (status : Option ServiceAccountCommandStatus)
  | broken (failure : RuntimeFailure)

namespace Phase

/-- The command that the call holds, and the status it has then. -/
def holds : Phase E → Option (Held E × CommandStatus)
  | claimed h | timed h _ | loaded h _ _ | verified h _ | alive h _ | deciding h _ _ | declined h =>
    some (h,.reserved)
  | admitted h _ | dated h _ _ | refused h | issued h _ _ _ => some (h,.issuing)
  | _ => none

/-- The errors that may be recorded in a phase. -/
def records : Phase E → String → Bool
  | claimed _, _ | loaded _ _ _, _ | declined _, _ | dated _ _ _, _ => true
  | refused _, code => code = "disabled"
  | _, _ => false

end Phase

/-- No failure of a run is a broken invariant. -/
def RuntimeFailure.Benign (f : RuntimeFailure) : Prop := ∀ detail, f ≠ .pluginFailure (.invariant detail)

def CredentialSecret.Generated (secret : CredentialSecret) : Prop :=
  ∃ id material : Bytes, id.length = 18 ∧ material.length = 32 ∧ secret = .ofRandom id material

/-- A verifier of the secret under a fresh salt. -/
def Verifies (active : ActiveServiceAccount E) (secret : CredentialSecret) (verifier : String) : Prop :=
  ∃ salt : Bytes, salt.length = 16 ∧
    E.hashPassword (peppered secret.wire active.pepper) salt = some verifier

/-- The creation that `create` asks for. -/
structure CreateAccount.For (r : CreateAccount) (h : Held E) (request : CreateServiceAccountRequest)
    (secret : CredentialSecret) : Prop where
  key : r.key = h.key
  maxAccounts : r.maxAccounts = h.active.config.maxAccountsPerOrganization
  serviceAccountId : ∃ bytes : Bytes, bytes.length = 24 ∧ r.serviceAccountId = "sa_" ++ base64Encode bytes
  organizationId : r.organizationId = request.organizationId
  subject : validToken r.subject 256 = true
  name : r.name = trim request.name
  nameKey : r.nameKey = toAsciiLowercase (trim request.name)
  credentialId : r.credentialId = secret.credentialId
  verifier : Verifies h.active secret r.verifier
  validUntil : r.validUntil = r.validFrom + seconds h.active.config.credentialTtlSeconds
  receipt : r.receipt = createReceipt h.active h.aad

/-- The rotation that `rotate_secret` asks for. -/
structure RotateAccount.For (r : RotateAccount) (h : Held E)
    (request : RotateServiceAccountSecretRequest) (secret : CredentialSecret) : Prop where
  key : r.key = h.key
  organizationId : r.organizationId = request.organizationId
  serviceAccountId : r.serviceAccountId = request.serviceAccountId
  expectedRevision : validRotation request = some r.expectedRevision
  credentialId : r.credentialId = secret.credentialId
  verifier : Verifies h.active secret r.verifier
  overlapUntil : r.overlapUntil = r.validFrom + seconds h.active.config.rotationOverlapSeconds
  validUntil : r.validUntil = r.validFrom + seconds h.active.config.credentialTtlSeconds
  receipt : r.receipt = rotateReceipt h.active h.aad

/-- The revocation that `revoke` asks for. -/
structure RevokeAccount.For (r : RevokeAccount) (h : Held E) (request : RevokeServiceAccountRequest) :
    Prop where
  key : r.key = h.key
  organizationId : r.organizationId = request.organizationId
  serviceAccountId : r.serviceAccountId = request.serviceAccountId
  expectedRevision : validRevocation request = some r.expectedRevision
  receipt : r.receipt = revokeReceipt h.active h.aad

/-- The rate slot that `exchange_secret` asks for. -/
def Held.slot (h : Held E) (now : Time) : ReserveRateSlot :=
  ⟨h.key.callerInstance,now,h.active.config.exchangeWindowSeconds,
    h.active.config.maxExchangesPerWindow,h.active.config.exchangeLockoutSeconds⟩

/-- The admission that `exchange_secret` asks for. -/
def Held.mark (h : Held E) (row : CredentialRow) (now : Time) : MarkExchangeIssuing :=
  ⟨h.key.callerInstance,h.key.idempotencyKey,row.credentialId,row.serviceAccountId,now⟩

/-- The checks on the session of an admitted credential. -/
structure Bounded (h : Held E) (row : CredentialRow) (now : Time) (session : IssueResponse) : Prop where
  wellFormed : session.wellFormed = true
  expiry : ∃ actual, E.parseRfc3339 session.expiresAt = some actual ∧
    actual ≤ boundedExpiry h.active row now

/-- The response that carries a session. -/
def IssueResponse.response (session : IssueResponse) (row : CredentialRow) :
    ExchangeServiceAccountSecretResponse :=
  LensoServiceAccount.response row session.sessionId session.credential session.expiresAt

/-- The transactions that a call may ask for. -/
inductive Asks (call : Call E) : Phase E → Held E → Transaction → Prop
  | create {plugin context request secret} {h : Held E} {r : CreateAccount}
      (hcall : call = .create plugin context request) (hs : secret.Generated)
      (hr : r.For h request secret) : Asks call (.claimed h) h (.createAccount r)
  | rotate {plugin context request secret} {h : Held E} {r : RotateAccount}
      (hcall : call = .rotateSecret plugin context request) (hs : secret.Generated)
      (hr : r.For h request secret) : Asks call (.claimed h) h (.rotateAccount r)
  | revoke {plugin context request} {h : Held E} {r : RevokeAccount}
      (hcall : call = .revoke plugin context request) (hr : r.For h request) :
      Asks call (.claimed h) h (.revokeAccount r)
  | slot {plugin context request} {h : Held E} {now : Time}
      (hcall : call = .exchangeSecret plugin context request) :
      Asks call (.timed h now) h (.reserveRateSlot (h.slot now))
  | mark {plugin context request} {h : Held E} {row : CredentialRow} {now : Time}
      (hcall : call = .exchangeSecret plugin context request) :
      Asks call (.deciding h row now) h (.markExchangeIssuing (h.mark row now))
  | complete {plugin context request} {h : Held E} {row : CredentialRow} {now : Time}
      {session : IssueResponse} {nonce ciphertext : Bytes}
      (hcall : call = .exchangeSecret plugin context request) (hb : Bounded h row now session)
      (hs : h.Sealed (Receipt.toJson (session.response row)) nonce ciphertext) :
      Asks call (.issued h row now session) h (.completeSuccess h.key nonce ciphertext)

/-- The results of a transaction that leave the command reserved for an error. -/
def Transaction.declines : (t : Transaction) → t.Result → Prop
  | .createAccount _, .ok none => True
  | .createAccount _, .error e => (uniqueConstraint e).isSome = true
  | .rotateAccount _, .ok (.updated _) => False
  | .rotateAccount _, .ok _ => True
  | .revokeAccount _, .ok (.updated _) => False
  | .revokeAccount _, .ok _ => True
  | .markExchangeIssuing _, .ok none => True
  | .reserveRateSlot _, .ok false => True
  | _, _ => False

/-- The statements that a call may ask for on the pool. -/
inductive Permits (call : Call E) : Phase E → Statement → Prop
  | prune {actor active} (ha : call.active = some active) :
      Permits call (.opening actor) (.prune active.config.receiptTtlSeconds)
  | reserve {actor} {h : Held E} (hp : call.Presents actor h) :
      Permits call (.opening actor) (.reserveCommand h.key h.intentHash)
  | load {h : Held E} : Permits call (.contested h) (.loadCommand h.key)
  | credential {plugin context request credentialId} {h : Held E} {now : Time}
      (hcall : call = .exchangeSecret plugin context request)
      (hi : LensoServiceAccount.credentialId request.secret = some credentialId) :
      Permits call (.loaded h now none) (.loadCredential credentialId)
  | record {φ : Phase E} {h : Held E} {K : Kind} {s code error} (hh : φ.holds = some (h, s))
      (hr : φ.records code = true) (hK : call.kind = some K) (he : K.errorOfCode code = .ok error) :
      Permits call φ (.completeFailedCommand h.key code)
  | account {plugin context request actor} (hcall : call = .get plugin context request) :
      Permits call (.opening actor) (.loadAccount request.organizationId request.serviceAccountId)
  | accounts {plugin context request actor active limit} (hcall : call = .list plugin context request)
      (ha : plugin.active = some active)
      (hl : parsePageLimit request.limit active.config.maxPageSize = some limit) :
      Permits call (.opening actor) (.listAccounts request.organizationId request.after (limit + 1))

/-- What a call does next in each phase, and the phase it comes to by the answer. -/
inductive Move (call : Call E) : Phase E → (o : Effect) → Effect.Ans o → Phase E → Prop
  | clock {actor t} : Move call (.opening actor) (.pool .nowUtc) t (.opening actor)
  | project {actor capability operation now a} :
      Move call (.opening actor) (.pool (.projectContext capability operation now)) a
        (.opening (a.bind userActor))
  | membership {actor r a} : Move call (.opening actor) (.pool (.checkMembership r)) a (.opening actor)
  | permission {actor r a} : Move call (.opening actor) (.pool (.checkPermission r)) a (.opening actor)
  | lost {φ s operation e} (hp : Permits call φ s) :
      Move call φ (.pool (.execute s)) (.error e) (.broken (.pluginFailure (.database operation e)))
  | pruned {actor active} (ha : call.active = some active) :
      Move call (.opening actor) (.pool (.execute (.prune active.config.receiptTtlSeconds))) (.ok ())
        (.opening actor)
  | inserted {actor} {h : Held E} (hp : call.Presents actor h) :
      Move call (.opening actor) (.pool (.execute (.reserveCommand h.key h.intentHash))) (.ok 1)
        (.claimed h)
  | found {actor} {h : Held E} {n : ℕ} (hp : call.Presents actor h) (hn : n ≠ 1) :
      Move call (.opening actor) (.pool (.execute (.reserveCommand h.key h.intentHash))) (.ok n)
        (.contested h)
  | read {h : Held E} {row} :
      Move call (.contested h) (.pool (.execute (.loadCommand h.key))) (.ok row) (.answered h row)
  | account {plugin context request actor row} (hcall : call = .get plugin context request) :
      Move call (.opening actor)
        (.pool (.execute (.loadAccount request.organizationId request.serviceAccountId))) (.ok row)
        (.seen row.toList)
  | accounts {plugin context request actor active limit rows} (hcall : call = .list plugin context request)
      (ha : plugin.active = some active)
      (hl : parsePageLimit request.limit active.config.maxPageSize = some limit) :
      Move call (.opening actor)
        (.pool (.execute (.listAccounts request.organizationId request.after (limit + 1)))) (.ok rows)
        (.seen rows)
  | inspected {caller operation idempotencyKey status}
      (hcall : call = .inspectCommand caller operation idempotencyKey) :
      Move call (.opening none) (.pool (.execute (.inspectCommand ⟨caller,operation,idempotencyKey⟩)))
        (.ok status) (.inspected status)
  | uninspected {caller operation idempotencyKey e}
      (hcall : call = .inspectCommand caller operation idempotencyKey) :
      Move call (.opening none) (.pool (.execute (.inspectCommand ⟨caller,operation,idempotencyKey⟩)))
        (.error e) (.opening none)
  | random {φ : Phase E} {n a} (hφ : φ.holds.isSome = true) : Move call φ (.pool (.getrandom n)) a φ
  | identity {h : Held E} {r a} : Move call (.claimed h) (.pool (.ensureIdentity r)) a (.claimed h)
  | birth {h : Held E} {t} (hcall : ∀ plugin context request, call ≠ .exchangeSecret plugin context request) :
      Move call (.claimed h) (.pool .nowUtc) t (.claimed h)
  | timed {plugin context request t} {h : Held E} (hcall : call = .exchangeSecret plugin context request) :
      Move call (.claimed h) (.pool .nowUtc) t (.timed h t)
  | credential {plugin context request credentialId now row} {h : Held E}
      (hcall : call = .exchangeSecret plugin context request)
      (hi : LensoServiceAccount.credentialId request.secret = some credentialId) :
      Move call (.loaded h now none) (.pool (.execute (.loadCredential credentialId))) (.ok row)
        (.loaded h now row)
  | verified {plugin context request now row} {h : Held E} {verifier : String}
      (hcall : call = .exchangeSecret plugin context request)
      (hv : verifySecretResult E request.secret h.active.pepper row.verifier = true)
      (hverifier : verifier = row.verifier) (hu : row.usableAt now = true) :
      Move call (.loaded h now (some row))
        (.pool (.verifyPassword (peppered request.secret h.active.pepper) verifier)) true
        (.verified h row)
  | unverified {plugin context request now row a} {h : Held E} {verifier : String}
      (hcall : call = .exchangeSecret plugin context request) :
      Move call (.loaded h now row)
        (.pool (.verifyPassword (peppered request.secret h.active.pepper) verifier)) a (.declined h)
  | alive {h : Held E} {row : CredentialRow} :
      Move call (.verified h row) (.pool (.readStatus ⟨row.subject⟩)) (.ok ⟨row.subject,.active⟩)
        (.alive h row)
  | disabled {h : Held E} {row : CredentialRow} {a} :
      Move call (.verified h row) (.pool (.readStatus ⟨row.subject⟩)) a (.declined h)
  | statusFailed {h : Held E} {row : CredentialRow} {a f} (hf : f.Benign) :
      Move call (.verified h row) (.pool (.readStatus ⟨row.subject⟩)) a (.broken f)
  | deciding {h : Held E} {row : CredentialRow} {t} :
      Move call (.alive h row) (.pool .nowUtc) t (.deciding h row t)
  | dated {h : Held E} {row : CredentialRow} {t} :
      Move call (.admitted h row) (.pool .nowUtc) t (.dated h row t)
  | issued {h : Held E} {row : CredentialRow} {now expiry session}
      (hu : now < boundedExpiry h.active row now)
      (he : formatTime E (boundedExpiry h.active row now) = .ok expiry) :
      Move call (.dated h row now) (.pool (.issue (issueRequest h.active row expiry))) (.ok session)
        (.issued h row now session)
  | refused {h : Held E} {row : CredentialRow} {now expiry}
      (he : formatTime E (boundedExpiry h.active row now) = .ok expiry) :
      Move call (.dated h row now) (.pool (.issue (issueRequest h.active row expiry)))
        (.error (.domain .disabled)) (.refused h)
  | ambiguous {h : Held E} {row : CredentialRow} {now expiry e f}
      (he : formatTime E (boundedExpiry h.active row now) = .ok expiry) (hf : f.Benign) :
      Move call (.dated h row now) (.pool (.issue (issueRequest h.active row expiry))) (.error e)
        (.broken f)
  | checked {h : Held E} {row : CredentialRow} {now session t} :
      Move call (.issued h row now session) (.pool .nowUtc) t (.issued h row now session)
  | recorded {φ : Phase E} {h : Held E} {K : Kind} {s code error} (hh : φ.holds = some (h, s))
      (hr : φ.records code = true) (hK : call.kind = some K) (he : K.errorOfCode code = .ok error) :
      Move call φ (.pool (.execute (.completeFailedCommand h.key code))) (.ok 1)
        (.settled h (K.reply (.ok (.error error))))
  | unrecorded {φ : Phase E} {h : Held E} {s code} {n : ℕ} (hh : φ.holds = some (h, s))
      (hr : φ.records code = true) (hn : n ≠ 1) :
      Move call φ (.pool (.execute (.completeFailedCommand h.key code))) (.ok n)
        (.broken (.pluginFailure (.invariant "service-account command error was not completable")))
  | created {plugin context request secret account row} {h : Held E} {r : CreateAccount}
      (hcall : call = .create plugin context request) (hs : secret.Generated)
      (hr : r.For h request secret) (ha : summary E row = .ok account) :
      Move call (.claimed h) (.transact (.createAccount r)) (.ok (some row))
        (.settled h (.create (.ok (.ok ⟨account,true,some secret.wire⟩))))
  | rotated {plugin context request secret account row} {h : Held E} {r : RotateAccount}
      (hcall : call = .rotateSecret plugin context request) (hs : secret.Generated)
      (hr : r.For h request secret) (ha : summary E row = .ok account) :
      Move call (.claimed h) (.transact (.rotateAccount r)) (.ok (.updated row))
        (.settled h (.rotateSecret (.ok (.ok ⟨account,true,some secret.wire⟩))))
  | revoked {plugin context request account row changed} {h : Held E} {r : RevokeAccount}
      (hcall : call = .revoke plugin context request) (hr : r.For h request)
      (ha : summary E row = .ok account) :
      Move call (.claimed h) (.transact (.revokeAccount r)) (.ok (.updated (row, changed)))
        (.settled h (.revoke (.ok (.ok ⟨account,changed⟩))))
  | slotted {plugin context request now} {h : Held E}
      (hcall : call = .exchangeSecret plugin context request) :
      Move call (.timed h now) (.transact (.reserveRateSlot (h.slot now))) (.ok true) (.loaded h now none)
  | marked {plugin context request now row admitted} {h : Held E}
      (hcall : call = .exchangeSecret plugin context request) :
      Move call (.deciding h row now) (.transact (.markExchangeIssuing (h.mark row now)))
        (.ok (some admitted)) (.admitted h admitted)
  | completed {plugin context request row now session nonce ciphertext} {h : Held E}
      (hcall : call = .exchangeSecret plugin context request) (hb : Bounded h row now session)
      (hs : h.Sealed (Receipt.toJson (session.response row)) nonce ciphertext) :
      Move call (.issued h row now session) (.transact (.completeSuccess h.key nonce ciphertext)) (.ok ())
        (.settled h (.exchangeSecret (.ok (.ok (session.response row)))))
  | declined {φ : Phase E} {h : Held E} {t res} (ha : Asks call φ h t) (hd : t.declines res) :
      Move call φ (.transact t) res (.declined h)
  | failed {φ : Phase E} {h : Held E} {t : Transaction} {e} (ha : Asks call φ h t) :
      Move call φ (.transact t) (.error e) (.broken (.pluginFailure e))

/-- What `get` makes of the row that it has loaded. -/
def getAnswer (E : Environment) (row : Option AccountRow) :
    Except RuntimeFailure (Except GetError GetServiceAccountResponse) :=
  match row with
  | none => .ok (.error .notFound)
  | some row =>
    match summary E row with
    | .ok account => .ok (.ok ⟨account⟩)
    | .error e => .error (.pluginFailure e)

/-- What `list` makes of the rows that it has loaded. -/
def listAnswer (E : Environment) (limit : ℕ) (rows : List AccountRow) :
    Except RuntimeFailure (Except ListError ListServiceAccountsResponse) :=
  match (rows.take limit).mapM (summary E) with
  | .ok accounts => .ok (.ok ⟨accounts,if limit < rows.length then
      (rows.take limit).getLast?.map AccountRow.serviceAccountId else none⟩)
  | .error e => .error (.pluginFailure e)

/-- The replies of a call that has read accounts. -/
def Call.shows (call : Call E) (rows : List AccountRow) (r : Reply) : Prop :=
  match call with
  | .get _ _ _ => r = .get (getAnswer E rows.head?)
  | .list plugin _ request => ∃ active limit, plugin.active = some active ∧
      parsePageLimit request.limit active.config.maxPageSize = some limit ∧
      r = .list (listAnswer E limit rows)
  | _ => False

/-- The replies that each phase allows. -/
def Last (call : Call E) (r : Reply) : Phase E → Prop
  | .opening _ => r.succeeds = false ∧ ∀ f, r.failure = some f → f.Benign
  | .contested _ => False
  | .answered h row => ∃ K, call.kind = some K ∧ r = K.reply (K.answer h row)
  | .settled _ reply => r = reply
  | .seen rows => call.shows rows r
  | .inspected status => r = .inspectCommand (.ok status)
  | .broken f => r.failure = some f
  | _ => ∃ f, r.failure = some f ∧ f.Benign

/-- The protocol of the plugin's calls. -/
def protocol (E : Environment) : Protocol (Call E) Effect Effect.Ans Reply (Phase E) where
  first _ := .opening none
  move := Move
  last := Last

end LensoServiceAccount
