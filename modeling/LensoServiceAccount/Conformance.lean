import LensoServiceAccount.Phases
import LensoServiceAccount.Storage.Outcome

/-! Every call keeps to the protocol, whatever it is answered. -/

namespace LensoServiceAccount
open Code
variable {E : Environment} {call : Call E} {φ : Phase E} {ε α β : Type}

/-- From `φ` on the code keeps to the protocol and ends as `Q` says. -/
def Obeys (call : Call E) (p : Code ε α) (φ : Phase E) (Q : Except ε α → Phase E → Prop) : Prop :=
  Program.Conforms (Protocol.Possible (store E).serial) (Move call) p.run φ Q

section Rules
variable {Q : Except ε α → Phase E → Prop}

theorem obeys_pure {a : α} (h : Q (.ok a) φ) : Obeys call (pure a) φ Q := h

theorem obeys_throw {e : ε} (h : Q (.error e) φ) : Obeys call (throw e) φ Q := h

theorem obeys_fallible {r : Except ε α} (h : Q r φ) : Obeys call (fallible r) φ Q := by
  cases r <;> exact h

theorem obeys_bind {p : Code ε β} {f : β → Code ε α}
    (h : Obeys call p φ fun r φ' =>
      match r with
      | .ok b => Obeys call (f b) φ' Q
      | .error e => Q (.error e) φ') : Obeys call (p >>= f) φ Q := by
  refine (Program.conforms_bind_except p f φ Q).mpr (Program.Conforms.mono h ?_)
  rintro (e | b) φ' hr <;> exact hr

theorem obeys_ask {o : Op} {Q : Except ε o.Ans → Phase E → Prop}
    (h : ∀ a, Protocol.Possible (store E).serial (.pool o) a →
      ∃ φ', Move call φ (.pool o) a φ' ∧ Q (.ok a) φ') : Obeys call (ask o) φ Q := h

theorem obeys_statement {operation : String} {s : Statement}
    {Q : Except ServiceAccountPluginError s.Answer → Phase E → Prop}
    (hok : ∀ a, ∃ φ', Move call φ (.pool (.execute s)) (.ok a) φ' ∧ Q (.ok a) φ')
    (herror : ∀ e, ∃ φ', Move call φ (.pool (.execute s)) (.error e) φ' ∧
      Q (.error (.database operation e)) φ') : Obeys call (statement operation s) φ Q := by
  intro r _
  cases r with
  | ok a => exact hok a
  | error e => exact herror e

theorem obeys_transact {t : Transaction} {Q : t.Result → Phase E → Prop}
    (h : ∀ res d d', t.Outcome E (fun _ _ => true) d res d' →
      ∃ φ', Move call φ (.transact t) res φ' ∧ Q res φ') : Obeys call (transact t) φ Q := by
  rintro res ⟨c,d,d',hc⟩
  cases c with
  | inl c => simp [Store.serial] at hc
  | inr cs => exact h res d d' (Transaction.outcome hc)

theorem obeys_entropy {p : Entropy ε α} (hφ : φ.holds.isSome = true)
    (h : ∀ r, p.run.Outcome Filled r → Q r φ) : Obeys call (entropy p) φ Q := by
  refine Program.conforms_translate Filled (fun count a ha => ⟨.random hφ,?_⟩) h
  obtain ⟨c,d,d',hc⟩ := ha
  cases c with
  | inr cs => simp [Store.serial] at hc
  | inl c =>
    simp only [Store.serial,store,Op.handle,Option.some.injEq,Prod.mk.injEq] at hc
    obtain ⟨rfl,-⟩ := hc
    exact fun bytes hb => Choice.length_of_fill hb

theorem obeys_runtime {p : Code ServiceAccountPluginError α} {Q : Except RuntimeFailure α → Phase E → Prop}
    (h : Obeys call p φ fun r φ' => Q (r.mapError .pluginFailure) φ') : Obeys call (runtime p) φ Q := by
  refine (Program.conforms_bind p.run _ φ Q).mpr (Program.Conforms.mono h ?_)
  rintro (e | a) φ' hr <;> exact hr

theorem obeys_attempt {p : Code ε α} {ε' : Type} {Q : Except ε' (Except ε α) → Phase E → Prop}
    (h : Obeys call p φ fun r φ' => Q (.ok r) φ') : Obeys call (attempt p) φ Q :=
  (Program.conforms_bind p.run _ φ Q).mpr h

theorem Obeys.mono {p : Code ε α} {Q R : Except ε α → Phase E → Prop} (h : Obeys call p φ Q)
    (hQR : ∀ r φ', Q r φ' → R r φ') : Obeys call p φ R := Program.Conforms.mono h hQR

end Rules

/-- The result of an operation in the phase it ends in. -/
def Ends {ε ρ : Type} (call : Call E) (reply : Except RuntimeFailure (Except ε ρ) → Reply)
    (r : Except RuntimeFailure (Except ε ρ)) (φ : Phase E) : Prop := Last call (reply r) φ

/-- The replies of an operation carry its failures and are no other successes. -/
structure Faithful {ε ρ : Type} (reply : Except RuntimeFailure (Except ε ρ) → Reply) : Prop where
  failure : ∀ f, (reply (.error f)).failure = some f
  failed : ∀ f, (reply (.error f)).succeeds = false
  error : ∀ e, (reply (.ok (.error e))).failure = none
  unsuccessful : ∀ e, (reply (.ok (.error e))).succeeds = false

theorem Call.kind_faithful {K : Kind} (h : call.kind = some K) : Faithful K.reply := by
  cases call <;> simp only [Call.kind,Option.some.injEq,reduceCtorEq] at h <;> subst h <;>
    exact ⟨fun _ => rfl,fun _ => rfl,fun _ => rfl,fun _ => rfl⟩

section Ends
variable {ε ρ : Type} {reply : Except RuntimeFailure (Except ε ρ) → Reply} {K : Kind}

lemma ends_fails (hK : Faithful reply) {h : Held E} {s : CommandStatus} (hφ : φ.holds = some (h, s))
    {f : RuntimeFailure} (hf : f.Benign) : Ends call reply (.error f) φ := by
  have hlast : ∃ f', (reply (.error f)).failure = some f' ∧ f'.Benign := ⟨f,hK.failure f,hf⟩
  cases φ <;> first | exact hlast | simp [Phase.holds] at hφ

lemma ends_broken (call : Call E) (hK : Faithful reply) (f : RuntimeFailure) :
    Ends call reply (.error f) (.broken f) := hK.failure f

lemma ends_opening_error (hK : Faithful reply) {actor : Option String} (e : ε) :
    Ends call reply (.ok (.error e)) (.opening actor) := by
  refine ⟨hK.unsuccessful e,fun f hf => ?_⟩
  rw [hK.error e] at hf
  cases hf

lemma ends_opening_failure (hK : Faithful reply) {actor : Option String} {f : RuntimeFailure} (hf : f.Benign) :
    Ends call reply (.error f) (.opening actor) := by
  refine ⟨hK.failed f,fun f' hf' => ?_⟩
  rw [hK.failure f] at hf'
  obtain rfl := Option.some.inj hf'
  exact hf

theorem obeys_recordError (hK : call.kind = some K) {h : Held E} {s : CommandStatus}
    (hφ : φ.holds = some (h, s)) {code : String} (hr : φ.records code = true) {error : K.Error}
    (he : K.errorOfCode code = .ok error) : Obeys call (recordError h.key code error) φ (Ends call K.reply) := by
  have hfaithful := Call.kind_faithful hK
  refine obeys_bind (obeys_runtime (obeys_bind (obeys_statement (fun n => ?_) fun e => ?_)))
  · by_cases hn : n = 1
    · subst hn
      exact ⟨_,.recorded hφ hr hK he,rfl⟩
    · refine ⟨_,.unrecorded hφ hr hn,?_⟩
      dsimp only
      rw [if_pos hn]
      exact ends_broken call hfaithful _
  · exact ⟨_,.lost (.record hφ hr hK he),ends_broken call hfaithful _⟩

theorem obeys_claim (hK : call.kind = some K) {h : Held E} {actor : Option String}
    (hp : call.Presents actor h) {claimed : Code RuntimeFailure (Except K.Error K.Response)}
    (hclaimed : Obeys call claimed (.claimed h) (Ends call K.reply)) :
    Obeys call (K.claim h claimed) (.opening actor) (Ends call K.reply) := by
  have hfaithful := Call.kind_faithful hK
  refine obeys_bind (obeys_runtime (obeys_bind (obeys_statement (fun n => ?_) fun e => ?_)))
  · by_cases hn : n = 1
    · subst hn
      exact ⟨_,.inserted hp,hclaimed⟩
    · refine ⟨_,.found hp hn,?_⟩
      dsimp only
      rw [if_neg hn]
      refine obeys_bind (obeys_statement (fun row => ⟨_,.read,?_⟩) fun e => ?_)
      · have hend : Obeys call (ExceptT.mk (pure (K.answer h row)) :
            Code RuntimeFailure (Except K.Error K.Response)) (.answered h row) (Ends call K.reply) :=
          ⟨K,hK,rfl⟩
        rw [← K.claim_found h claimed row] at hend
        exact hend
      · exact ⟨_,.lost .load,ends_broken call hfaithful _⟩
  · exact ⟨_,.lost (.reserve hp),ends_broken call hfaithful _⟩

end Ends

section Authorization

/-- How the authorization of a management operation ends. -/
inductive Authorizes (active : ActiveServiceAccount E) (context : InvocationContext) :
    Except AuthorizationError AuthorizedManagement → Phase E → Prop
  | granted {a : AuthorizedManagement} (hc : context.callerIn active.config.managementCallers = some a.caller) :
      Authorizes active context (.ok a) (.opening (some a.actorSubject))
  | refused {actor e} (he : ∀ f, e = .runtime f → f.Benign) :
      Authorizes active context (.error e) (.opening actor)

lemma benign_failure (detail : String) : (RuntimeFailure.failure detail).Benign := fun _ h => by cases h

lemma benign_dependency (detail : String) : (RuntimeFailure.dependency detail).Benign := fun _ h => by cases h

lemma mapMembershipError_benign (e : InvocationError CheckMembershipError) :
    ∀ f, mapMembershipError e = .runtime f → f.Benign := by
  rcases e with (_ | _ | _) | _ <;> rintro f h <;> cases h <;>
    first | exact benign_failure _ | exact benign_dependency _

lemma mapPermissionError_benign (e : InvocationError CheckPermissionError) :
    ∀ f, mapPermissionError e = .runtime f → f.Benign := by
  rcases e with (_ | _) | _ <;> rintro f h <;> cases h <;>
    first | exact benign_failure _ | exact benign_dependency _

theorem obeys_authorizeManagement (active : ActiveServiceAccount E) (context : InvocationContext)
    (capability operation organizationId permission : String) :
    Obeys call (authorizeManagement active context capability operation organizationId permission)
      (.opening none) (Authorizes active context) := by
  unfold authorizeManagement
  cases hc : context.callerIn active.config.managementCallers with
  | none => exact obeys_throw (.refused fun _ h => by cases h)
  | some caller =>
    refine obeys_bind (obeys_ask fun now _ => ⟨_,.clock,?_⟩)
    refine obeys_bind (obeys_ask fun assertion _ => ⟨_,.project,?_⟩)
    obtain _ | assertion := assertion
    · exact obeys_throw (.refused fun _ h => by cases h)
    simp only [Option.bind_some]
    cases hu : userActor assertion with
    | none => exact obeys_throw (.refused fun _ h => by cases h)
    | some subject =>
      dsimp only
      split_ifs with hs
      · exact obeys_throw (.refused fun _ h => by cases h)
      refine obeys_bind (obeys_ask fun membership _ => ⟨_,.membership,?_⟩)
      cases membership with
      | error e => exact obeys_throw (.refused (mapMembershipError_benign e))
      | ok membership =>
        dsimp only
        split_ifs with hm
        · exact obeys_throw (.refused fun _ h => by cases h)
        refine obeys_bind (obeys_ask fun decision _ => ⟨_,.permission,?_⟩)
        cases decision with
        | error e => exact obeys_throw (.refused (mapPermissionError_benign e))
        | ok decision =>
          dsimp only
          split_ifs with hd
          · exact obeys_throw (.refused fun _ h => by cases h)
          · exact obeys_pure (.granted hc)

/-- The answers of an authorization that failed leave the call in its opening. -/
def AuthorizationMap {ε : Type} (mapError : AuthorizationError → Except RuntimeFailure ε) : Prop :=
  ∀ e f, mapError e = .error f → e = .runtime f

lemma mapAuthorization_map {ε : Type} (g : AuthorizationDomain → ε) :
    AuthorizationMap fun e => (mapAuthorization e).map g := by
  intro e f h
  cases e <;> simp_all [mapAuthorization,Except.map]

theorem obeys_authorized {ε ρ : Type} {reply : Except RuntimeFailure (Except ε ρ) → Reply} {active : ActiveServiceAccount E} {context : InvocationContext}
    {operation organizationId permission : String}
    {mapError : AuthorizationError → Except RuntimeFailure ε} (hm : AuthorizationMap mapError)
    {next : AuthorizedManagement → Code RuntimeFailure (Except ε ρ)} (hK : Faithful reply)
    (h : ∀ a, context.callerIn active.config.managementCallers = some a.caller →
      Obeys call (next a) (.opening (some a.actorSubject)) (Ends call reply)) :
    Obeys call (authorized active context operation organizationId permission mapError next)
      (.opening none) (Ends call reply) := by
  refine obeys_bind (obeys_attempt ?_)
  refine (obeys_authorizeManagement active context capabilityId operation organizationId permission).mono ?_
  rintro r φ' (hc | he)
  · exact h _ hc
  · next actor e =>
    dsimp only
    cases hr : mapError e with
    | ok error => exact obeys_pure (ends_opening_error hK error)
    | error f => exact obeys_throw (ends_opening_failure hK (he _ (hm e f hr)))

end Authorization

section Management

lemma benign_of_ne {e : ServiceAccountPluginError} (h : ∀ detail, e ≠ .invariant detail) :
    (RuntimeFailure.pluginFailure e).Benign := by
  rintro detail hd
  cases hd
  exact h _ rfl

/-- Random bytes, drawn while the command is held: a failure to draw them ends the call. -/
lemma obeys_random {ε ρ : Type}
    {reply : Except RuntimeFailure (Except ε ρ) → Reply} (hK : Faithful reply) {h : Held E} {s : CommandStatus}
    (hφ : φ.holds = some (h, s)) {p : Entropy ServiceAccountPluginError α}
    {f : α → Code RuntimeFailure (Except ε ρ)}
    (herror : ∀ e, p.run.Outcome Filled (.error e) → ∀ detail, e ≠ .invariant detail)
    (hok : ∀ a, p.run.Outcome Filled (.ok a) → Obeys call (f a) φ (Ends call reply)) :
    Obeys call (runtime (entropy p) >>= f) φ (Ends call reply) := by
  refine obeys_bind (obeys_runtime (obeys_entropy (by rw [hφ]; rfl) ?_))
  rintro (e | a) hr
  · exact ends_fails hK hφ (benign_of_ne (herror e hr))
  · exact hok a hr

lemma generate_error {e : ServiceAccountPluginError}
    (h : (crypto CredentialSecret.generate).run.Outcome Filled (.error e)) : ∀ detail, e ≠ .invariant detail := by
  obtain ⟨x,hx,he⟩ := Entropy.mapError_outcome h
  obtain ⟨_,_,_,_,rfl⟩ | rfl := CredentialSecret.generate_outcome hx
  · cases he
  · rintro detail rfl
    cases he

lemma generate_ok {secret : CredentialSecret}
    (h : (crypto CredentialSecret.generate).run.Outcome Filled (.ok secret)) : secret.Generated := by
  obtain ⟨x,hx,he⟩ := Entropy.mapError_outcome h
  obtain ⟨id,material,hid,hm,rfl⟩ | rfl := CredentialSecret.generate_outcome hx
  · exact ⟨id,material,hid,hm,Except.ok.inj he⟩
  · cases he

lemma hashSecret_error {secret : String} {pepper : Bytes} {e : ServiceAccountPluginError}
    (h : (crypto (hashSecret E secret pepper)).run.Outcome Filled (.error e)) :
    ∀ detail, e ≠ .invariant detail := by
  obtain ⟨x,hx,he⟩ := Entropy.mapError_outcome h
  rintro detail rfl
  obtain ⟨_,_,_,_,rfl⟩ | rfl | rfl := hashSecret_outcome hx <;> cases he

lemma hashSecret_ok {secret : CredentialSecret} {active : ActiveServiceAccount E} {verifier : String}
    (h : (crypto (hashSecret E secret.wire active.pepper)).run.Outcome Filled (.ok verifier)) :
    Verifies active secret verifier := by
  obtain ⟨x,hx,he⟩ := Entropy.mapError_outcome h
  obtain ⟨salt,v,hs,hv,rfl⟩ | rfl | rfl := hashSecret_outcome hx
  · obtain rfl := Except.ok.inj he
    exact ⟨salt,hs,hv⟩
  · cases he
  · cases he

/-- A row that a transaction has returned could be summarised: its receipt was sealed. -/
lemma summary_of_sealing {row : AccountRow} {active : ActiveServiceAccount E} {aad : Bytes} {ρ : Type}
    [Receipt ρ] {g : ServiceAccountSummary → ρ} {p : Entropy ServiceAccountPluginError (Bytes × Bytes)}
    (hp : p = match summary E row with
      | .error e => throw e
      | .ok account => crypto (active.receiptCipher.encrypt E (g account) aad))
    {nonce ciphertext : Bytes} (h : p.run.Outcome Filled (.ok (nonce, ciphertext))) :
    ∃ account, summary E row = .ok account := by
  obtain ⟨account,_,_,hs,-⟩ | ⟨e,he,-⟩ := sealing_outcome hp h
  · exact ⟨account,hs⟩
  · cases he

theorem obeys_createClaimed {plugin : ServiceAccountPlugin E} {context : InvocationContext}
    {request : CreateServiceAccountRequest} (h : Held E) :
    Obeys (.create plugin context request) (createClaimed h.active request h.key h.aad) (.claimed h)
      (Ends (.create plugin context request) Reply.create) := by
  have hK : (Call.create plugin context request).kind = some createKind := rfl
  have hfaithful := Call.kind_faithful hK
  have hrecord : ∀ {φ : Phase E} {s} (_ : φ.holds = some (h, s)) {code : String} (_ : φ.records code = true)
      {error : CreateError} (_ : createErrorOfCode code = .ok error),
      Obeys (.create plugin context request)
        (recordError h.key code error : Code RuntimeFailure (Except CreateError CreateServiceAccountResponse))
        φ (Ends (.create plugin context request) Reply.create) :=
    fun hφ _ hr _ he => obeys_recordError hK hφ hr he
  refine obeys_random hfaithful rfl (fun e he => ?_) fun serviceAccountId hid => ?_
  · obtain ⟨_,_,he⟩ | he := Entropy.fill_outcome he
    · cases he
    · rintro detail rfl
      cases he
  obtain ⟨bytes,hbytes,hid⟩ | hid := Entropy.fill_outcome hid
  swap
  · cases hid
  obtain rfl : "sa_" ++ base64Encode bytes = serviceAccountId := Except.ok.inj hid
  refine obeys_bind (obeys_ask fun identity _ => ⟨_,.identity,?_⟩)
  rcases identity with (code | detail) | identity
  · exact hrecord rfl rfl rfl
  · exact obeys_throw (ends_fails hfaithful rfl (benign_dependency detail))
  dsimp only
  split_ifs with hsubject
  · exact hrecord rfl rfl rfl
  refine obeys_random hfaithful rfl (fun e he => generate_error he) fun credential hc => ?_
  refine obeys_random hfaithful rfl (fun e he => hashSecret_error he) fun verifier hv => ?_
  refine obeys_bind (obeys_ask fun now _ => ⟨_,.birth (by simp),?_⟩)
  have hfor : ({
      key := h.key
      maxAccounts := h.active.config.maxAccountsPerOrganization
      serviceAccountId := "sa_" ++ base64Encode bytes
      organizationId := request.organizationId
      subject := identity.subject
      name := trim request.name
      nameKey := toAsciiLowercase (trim request.name)
      credentialId := credential.credentialId
      verifier := verifier
      validFrom := now
      validUntil := now + seconds h.active.config.credentialTtlSeconds
      receipt := createReceipt h.active h.aad } : CreateAccount).For h request credential :=
    ⟨rfl,rfl,⟨bytes,hbytes,rfl⟩,rfl,by simpa using hsubject,rfl,rfl,rfl,hashSecret_ok hv,rfl,rfl⟩
  have hasks : Asks (.create plugin context request) (.claimed h) h (.createAccount _) :=
    .create rfl (generate_ok hc) hfor
  refine obeys_bind (obeys_attempt (obeys_transact fun res d d' ho => ?_))
  have hcase : CreateOutcome E _ d res d' := ho
  rcases res with e | (_ | row)
  · dsimp only
    split_ifs with hname hsub
    · exact ⟨_,.declined hasks (by simp [Transaction.declines,hname]),hrecord rfl rfl rfl⟩
    · exact ⟨_,.declined hasks (by simp [Transaction.declines,hsub]),hrecord rfl rfl rfl⟩
    · exact ⟨_,.failed hasks,ends_broken (.create plugin context request) hfaithful _⟩
  · exact ⟨_,.declined hasks trivial,hrecord rfl rfl rfl⟩
  · obtain ⟨account,ha⟩ : ∃ account, summary E row = .ok account := by
      cases hcase with
      | created _ _ hcommit =>
        obtain ⟨_,_,_,_,_,_,_,hr⟩ := hcommit.completes
        exact summary_of_sealing rfl hr
    refine ⟨_,.created rfl (generate_ok hc) hfor ha,?_⟩
    dsimp only
    rw [ha]
    exact obeys_pure rfl

theorem obeys_rotateClaimed {plugin : ServiceAccountPlugin E} {context : InvocationContext}
    {request : RotateServiceAccountSecretRequest} (h : Held E) {expectedRevision : ℤ}
    (hrevision : validRotation request = some expectedRevision) :
    Obeys (.rotateSecret plugin context request)
      (rotateClaimed h.active request expectedRevision h.key h.aad) (.claimed h)
      (Ends (.rotateSecret plugin context request) Reply.rotateSecret) := by
  have hK : (Call.rotateSecret plugin context request).kind = some rotateKind := rfl
  have hfaithful := Call.kind_faithful hK
  have hrecord : ∀ {φ : Phase E} {s} (_ : φ.holds = some (h, s)) {code : String} (_ : φ.records code = true)
      {error : RotateSecretError} (_ : rotateErrorOfCode code = .ok error),
      Obeys (.rotateSecret plugin context request) (recordError h.key code error :
          Code RuntimeFailure (Except RotateSecretError RotateServiceAccountSecretResponse))
        φ (Ends (.rotateSecret plugin context request) Reply.rotateSecret) :=
    fun hφ _ hr _ he => obeys_recordError hK hφ hr he
  refine obeys_random hfaithful rfl (fun e he => generate_error he) fun credential hc => ?_
  refine obeys_random hfaithful rfl (fun e he => hashSecret_error he) fun verifier hv => ?_
  refine obeys_bind (obeys_ask fun now _ => ⟨_,.birth (by simp),?_⟩)
  have hfor : ({
      key := h.key
      organizationId := request.organizationId
      serviceAccountId := request.serviceAccountId
      expectedRevision := expectedRevision
      credentialId := credential.credentialId
      verifier := verifier
      validFrom := now
      overlapUntil := now + seconds h.active.config.rotationOverlapSeconds
      validUntil := now + seconds h.active.config.credentialTtlSeconds
      receipt := rotateReceipt h.active h.aad } : RotateAccount).For h request credential :=
    ⟨rfl,rfl,rfl,hrevision,rfl,hashSecret_ok hv,rfl,rfl,rfl⟩
  have hasks : Asks (.rotateSecret plugin context request) (.claimed h) h (.rotateAccount _) :=
    .rotate rfl (generate_ok hc) hfor
  refine obeys_bind (obeys_runtime (obeys_transact fun res d d' ho => ?_))
  have hcase : RotateOutcome E _ _ d res d' := ho
  rcases res with e | (row | _ | _ | _)
  · exact ⟨_,.failed hasks,ends_broken (.rotateSecret plugin context request) hfaithful _⟩
  · obtain ⟨account,ha⟩ : ∃ account, summary E row = .ok account := by
      cases hcase with
      | updated _ _ hcommit =>
        obtain ⟨_,_,_,_,_,_,_,hr⟩ := hcommit.completes
        exact summary_of_sealing rfl hr
    refine ⟨_,.rotated rfl (generate_ok hc) hfor ha,?_⟩
    dsimp only [Except.mapError]
    rw [ha]
    exact obeys_pure rfl
  · exact ⟨_,.declined hasks trivial,hrecord rfl rfl rfl⟩
  · exact ⟨_,.declined hasks trivial,hrecord rfl rfl rfl⟩
  · exact ⟨_,.declined hasks trivial,hrecord rfl rfl rfl⟩

theorem obeys_revokeClaimed {plugin : ServiceAccountPlugin E} {context : InvocationContext}
    {request : RevokeServiceAccountRequest} (h : Held E) {expectedRevision : ℤ}
    (hrevision : validRevocation request = some expectedRevision) :
    Obeys (.revoke plugin context request)
      (revokeClaimed h.active request expectedRevision h.key h.aad) (.claimed h)
      (Ends (.revoke plugin context request) Reply.revoke) := by
  have hK : (Call.revoke plugin context request).kind = some revokeKind := rfl
  have hfaithful := Call.kind_faithful hK
  have hrecord : ∀ {φ : Phase E} {s} (_ : φ.holds = some (h, s)) {code : String} (_ : φ.records code = true)
      {error : RevokeError} (_ : revokeErrorOfCode code = .ok error),
      Obeys (.revoke plugin context request) (recordError h.key code error :
          Code RuntimeFailure (Except RevokeError RevokeServiceAccountResponse))
        φ (Ends (.revoke plugin context request) Reply.revoke) :=
    fun hφ _ hr _ he => obeys_recordError hK hφ hr he
  have hfor : ({
      key := h.key
      organizationId := request.organizationId
      serviceAccountId := request.serviceAccountId
      expectedRevision := expectedRevision
      receipt := revokeReceipt h.active h.aad } : RevokeAccount).For h request :=
    ⟨rfl,rfl,rfl,hrevision,rfl⟩
  have hasks : Asks (.revoke plugin context request) (.claimed h) h (.revokeAccount _) :=
    .revoke rfl hfor
  refine obeys_bind (obeys_runtime (obeys_transact fun res d d' ho => ?_))
  have hcase : RevokeOutcome E _ d res d' := ho
  rcases res with e | (⟨row,changed⟩ | _ | _ | _)
  · exact ⟨_,.failed hasks,ends_broken (.revoke plugin context request) hfaithful _⟩
  · obtain ⟨account,ha⟩ : ∃ account, summary E row = .ok account := by
      cases hcase with
      | updated _ _ hcommit =>
        obtain ⟨_,_,_,_,_,_,_,hr⟩ := hcommit.completes
        exact summary_of_sealing rfl hr
    refine ⟨_,.revoked rfl hfor ha,?_⟩
    dsimp only [Except.mapError]
    rw [ha]
    exact obeys_pure rfl
  · exact ⟨_,.declined hasks trivial,hrecord rfl rfl rfl⟩
  · cases hcase
  · exact ⟨_,.declined hasks trivial,hrecord rfl rfl rfl⟩

end Management

section Exchange
variable {plugin : ServiceAccountPlugin E} {context : InvocationContext}
  {request : ExchangeServiceAccountSecretRequest} (h : Held E)

/-- The result of an exchange in the phase it ends in. -/
abbrev ExchangeEnds (plugin : ServiceAccountPlugin E) (context : InvocationContext)
    (request : ExchangeServiceAccountSecretRequest) :=
  Ends (.exchangeSecret plugin context request) Reply.exchangeSecret

lemma exchange_faithful : Faithful Reply.exchangeSecret := ⟨fun _ => rfl,fun _ => rfl,fun _ => rfl,fun _ => rfl⟩

lemma obeys_exchangeError {s : CommandStatus} (hφ : φ.holds = some (h, s)) {code : String}
    (hr : φ.records code = true) {error : ExchangeSecretError} (he : exchangeErrorOfCode code = .ok error) :
    Obeys (.exchangeSecret plugin context request) (recordError h.key code error :
        Code RuntimeFailure (Except ExchangeSecretError ExchangeServiceAccountSecretResponse))
      φ (ExchangeEnds plugin context request) :=
  obeys_recordError (K := exchangeKind) rfl hφ hr he

lemma obeys_recordSession {row : CredentialRow} {now : Time} {session : IssueResponse} :
    Obeys (.exchangeSecret plugin context request)
      (recordSession h.active h.key h.aad row (boundedExpiry h.active row now) session)
      (.issued h row now session) (ExchangeEnds plugin context request) := by
  unfold recordSession
  split_ifs with hwell
  · exact obeys_throw (ends_fails exchange_faithful rfl (benign_failure _))
  split
  · exact obeys_throw (ends_fails exchange_faithful rfl (benign_failure _))
  next actual hactual =>
  refine obeys_bind (obeys_ask fun t _ => ⟨_,.checked,?_⟩)
  dsimp only
  split_ifs with hexpiry
  · exact obeys_throw (ends_fails exchange_faithful rfl (benign_failure _))
  rw [not_or,not_lt] at hexpiry
  have hbounded : Bounded h row now session := ⟨by simpa using hwell,actual,hactual,hexpiry.2⟩
  refine obeys_random exchange_faithful rfl (fun e he => ?_) ?_
  · obtain ⟨x,hx,he⟩ := Entropy.mapError_outcome he
    rintro detail rfl
    obtain ⟨_,_,_,_,rfl⟩ | rfl | rfl := ReceiptCipher.encrypt_outcome hx <;> cases he
  rintro ⟨nonce,ciphertext⟩ hs
  obtain ⟨x,hx,he⟩ := Entropy.mapError_outcome hs
  have hsealed : h.Sealed (Receipt.toJson (session.response row)) nonce ciphertext := by
    obtain ⟨n,c,hn,hc,rfl⟩ | rfl | rfl := ReceiptCipher.encrypt_outcome hx
    · obtain ⟨rfl,rfl⟩ := Prod.mk.inj (Except.ok.inj he)
      exact ⟨hn,hc⟩
    · cases he
    · cases he
  refine obeys_bind (obeys_runtime (obeys_transact fun res _ _ _ => ?_))
  cases res with
  | error e =>
    exact ⟨_,.failed (.complete rfl hbounded hsealed),
      ends_broken (.exchangeSecret plugin context request) exchange_faithful _⟩
  | ok u => exact ⟨_,.completed rfl hbounded hsealed,rfl⟩

lemma obeys_issueSession {row : CredentialRow} :
    Obeys (.exchangeSecret plugin context request) (issueSession h.active h.key h.aad row)
      (.admitted h row) (ExchangeEnds plugin context request) := by
  refine obeys_bind (obeys_ask fun now _ => ⟨_,.dated,?_⟩)
  dsimp only
  split_ifs with hu
  · exact obeys_exchangeError h rfl rfl rfl
  rw [not_le] at hu
  refine obeys_bind (obeys_runtime (obeys_fallible ?_))
  cases he : formatTime E (boundedExpiry h.active row now) with
  | error e =>
    rw [formatTime_error he]
    exact ends_fails exchange_faithful rfl (benign_of_ne fun _ h => by cases h)
  | ok expiry =>
    refine obeys_bind (obeys_ask fun answer _ => ?_)
    rcases answer with (( _ | code) | detail) | session
    · exact ⟨_,.refused he,obeys_exchangeError h rfl rfl rfl⟩
    · exact ⟨_,.ambiguous he (benign_failure _),ends_broken (.exchangeSecret plugin context request) exchange_faithful _⟩
    · exact ⟨_,.ambiguous he (benign_dependency _),ends_broken (.exchangeSecret plugin context request) exchange_faithful _⟩
    · exact ⟨_,.issued hu he,obeys_recordSession h⟩

lemma obeys_admitCredential {row : CredentialRow} :
    Obeys (.exchangeSecret plugin context request) (admitCredential h.active h.key h.aad row)
      (.verified h row) (ExchangeEnds plugin context request) := by
  have hbroken : ∀ f, ExchangeEnds plugin context request (.error f) (.broken f) :=
    ends_broken (.exchangeSecret plugin context request) exchange_faithful
  refine obeys_bind (obeys_ask fun answer _ => ?_)
  rcases answer with ((_ | _ | code) | detail) | status
  · exact ⟨_,.disabled,obeys_exchangeError h rfl rfl rfl⟩
  · exact ⟨_,.disabled,obeys_exchangeError h rfl rfl rfl⟩
  · exact ⟨_,.statusFailed (benign_failure _),hbroken _⟩
  · exact ⟨_,.statusFailed (benign_dependency _),hbroken _⟩
  dsimp only
  by_cases hsubject : status.subject = row.subject
  swap
  · rw [if_pos hsubject]
    exact ⟨_,.statusFailed (benign_failure _),hbroken _⟩
  rw [if_neg (not_not.mpr hsubject)]
  by_cases hstatus : status.status = .active
  swap
  · rw [if_pos hstatus]
    exact ⟨_,.disabled,obeys_exchangeError h rfl rfl rfl⟩
  rw [if_neg (not_not.mpr hstatus)]
  obtain ⟨subject,s⟩ := status
  obtain rfl : subject = row.subject := hsubject
  obtain rfl : s = .active := hstatus
  refine ⟨_,.alive,obeys_bind (obeys_ask fun now _ => ⟨_,.deciding,?_⟩)⟩
  refine obeys_bind (obeys_runtime (obeys_transact fun res _ _ _ => ?_))
  have hasks : Asks (.exchangeSecret plugin context request) (.deciding h row now) h
      (.markExchangeIssuing (h.mark row now)) := .mark rfl
  rcases res with e | (_ | admitted)
  · exact ⟨_,.failed hasks,hbroken _⟩
  · exact ⟨_,.declined hasks trivial,obeys_exchangeError h rfl rfl rfl⟩
  · exact ⟨_,.marked rfl,obeys_issueSession h⟩

lemma obeys_exchangeVerified {now : Time} {credential : Option CredentialRow} :
    Obeys (.exchangeSecret plugin context request) (do
      let verifier := (credential.map CredentialRow.verifier).getD h.active.dummyVerifier
      let secretMatches ← verifySecret E request.secret h.active.pepper verifier
      match credential.filter fun row => secretMatches && row.usableAt now with
      | none => recordError h.key "invalid_credentials" .invalidCredentials
      | some credential => admitCredential h.active h.key h.aad credential)
      (.loaded h now credential) (ExchangeEnds plugin context request) := by
  refine obeys_bind ?_
  unfold verifySecret
  split_ifs with hwell
  · refine obeys_ask fun answer ha => ?_
    have hanswer : answer = E.verifyPassword (peppered request.secret h.active.pepper)
        ((credential.map CredentialRow.verifier).getD h.active.dummyVerifier) := by
      obtain ⟨c | cs,d,d',hc⟩ := ha
      · simp only [Store.serial,store,Op.handle,Option.some.injEq,Prod.mk.injEq] at hc
        exact hc.1.symm
      · simp [Store.serial] at hc
    cases hf : credential.filter fun row => answer && row.usableAt now with
    | none =>
      refine ⟨_,.unverified rfl,?_⟩
      dsimp only
      rw [hf]
      exact obeys_exchangeError h rfl rfl rfl
    | some row =>
      obtain ⟨rfl,hrow⟩ := Option.filter_eq_some_iff.mp hf
      simp only [Bool.and_eq_true] at hrow
      obtain ⟨htrue,husable⟩ := hrow
      subst htrue
      refine ⟨_,.verified rfl ?_ rfl husable,?_⟩
      · simp only [Option.map_some,Option.getD_some] at hwell hanswer
        simp only [verifySecretResult,hwell,← hanswer,Bool.and_self]
      · dsimp only
        rw [hf]
        exact obeys_admitCredential h
  · refine obeys_pure ?_
    have hf : (credential.filter fun row => false && row.usableAt now) = none := by simp
    dsimp only
    rw [hf]
    exact obeys_exchangeError h rfl rfl rfl

theorem obeys_exchangeClaimed :
    Obeys (.exchangeSecret plugin context request) (exchangeClaimed h.active request h.key h.aad)
      (.claimed h) (ExchangeEnds plugin context request) := by
  have hbroken : ∀ f, ExchangeEnds plugin context request (.error f) (.broken f) :=
    ends_broken (.exchangeSecret plugin context request) exchange_faithful
  refine obeys_bind (obeys_ask fun now _ => ⟨_,.timed rfl,?_⟩)
  refine obeys_bind (obeys_runtime (obeys_transact fun res _ _ _ => ?_))
  have hasks : Asks (.exchangeSecret plugin context request) (.timed h now) h
      (.reserveRateSlot (h.slot now)) := .slot rfl
  rcases res with e | (_ | _)
  · exact ⟨_,.failed hasks,hbroken _⟩
  · exact ⟨_,.declined hasks trivial,obeys_exchangeError h rfl rfl rfl⟩
  refine ⟨_,.slotted rfl,?_⟩
  dsimp only [Except.mapError]
  rw [if_neg (by simp)]
  cases hi : credentialId request.secret with
  | none => exact obeys_exchangeVerified h
  | some credentialId =>
    refine obeys_bind (obeys_runtime (obeys_statement (fun row => ?_) fun e => ?_))
    · exact ⟨_,.credential rfl hi,obeys_exchangeVerified h⟩
    · exact ⟨_,.lost (.credential rfl hi),hbroken _⟩

end Exchange

section Calls

lemma obeys_active {ε ρ : Type} {reply : Except RuntimeFailure (Except ε ρ) → Reply}
    (hK : Faithful reply) {plugin : ServiceAccountPlugin E} {actor : Option String}
    {f : ActiveServiceAccount E → Code RuntimeFailure (Except ε ρ)}
    (h : ∀ active, plugin.active = some active → Obeys call (f active) (.opening actor) (Ends call reply)) :
    Obeys call (plugin.get >>= f) (.opening actor) (Ends call reply) := by
  refine obeys_bind ?_
  unfold ServiceAccountPlugin.get
  split
  · next active ha => exact obeys_pure (h active ha)
  · exact obeys_throw (ends_opening_failure hK (benign_failure _))

/-- After its checks an operation prunes and claims. -/
lemma obeys_pruned {ε ρ : Type} {reply : Except RuntimeFailure (Except ε ρ) → Reply}
    (hK : Faithful reply) {active : ActiveServiceAccount E}
    (ha : call.active = some active) {actor : Option String}
    {p : Code RuntimeFailure (Except ε ρ)}
    (h : Obeys call p (.opening actor) (Ends call reply)) :
    Obeys call (do runtime (prune active.config.receiptTtlSeconds); p) (.opening actor) (Ends call reply) := by
  refine obeys_bind (obeys_runtime (obeys_statement (fun u => ⟨_,.pruned ha,h⟩) fun e => ?_))
  exact ⟨_,.lost (.prune ha),ends_broken call hK _⟩

theorem obeys_create (plugin : ServiceAccountPlugin E) (context : InvocationContext)
    (request : CreateServiceAccountRequest) :
    Obeys (.create plugin context request) (create plugin context request) (.opening none)
      (Ends (.create plugin context request) Reply.create) := by
  have hK : (Call.create plugin context request).kind = some createKind := rfl
  have hfaithful := Call.kind_faithful hK
  refine obeys_active hfaithful fun active ha => ?_
  split_ifs
  · exact obeys_pure (ends_opening_error hfaithful _)
  have hactive : (Call.create plugin context request).active = some active := ha
  refine obeys_authorized (mapAuthorization_map _) hfaithful fun a hc => obeys_pruned hfaithful hactive ?_
  let h : Held E := ⟨active,⟨a.caller,createOperation,request.idempotencyKey⟩,
    .array [.string a.actorSubject,request.toJson]⟩
  have hp : (Call.create plugin context request).Presents (some a.actorSubject) h :=
    ⟨hactive,by simp [Call.commandKey,ha,hc,h],rfl⟩
  exact obeys_claim hK hp (obeys_createClaimed h)

theorem obeys_rotateSecret (plugin : ServiceAccountPlugin E) (context : InvocationContext)
    (request : RotateServiceAccountSecretRequest) :
    Obeys (.rotateSecret plugin context request) (rotateSecret plugin context request) (.opening none)
      (Ends (.rotateSecret plugin context request) Reply.rotateSecret) := by
  have hK : (Call.rotateSecret plugin context request).kind = some rotateKind := rfl
  have hfaithful := Call.kind_faithful hK
  refine obeys_active hfaithful fun active ha => ?_
  split
  · exact obeys_pure (ends_opening_error hfaithful _)
  next expectedRevision hr =>
  have hactive : (Call.rotateSecret plugin context request).active = some active := ha
  refine obeys_authorized (mapAuthorization_map _) hfaithful fun a hc => obeys_pruned hfaithful hactive ?_
  let h : Held E := ⟨active,⟨a.caller,rotateSecretOperation,request.idempotencyKey⟩,
    .array [.string a.actorSubject,request.toJson]⟩
  have hp : (Call.rotateSecret plugin context request).Presents (some a.actorSubject) h :=
    ⟨hactive,by simp [Call.commandKey,ha,hc,h],rfl⟩
  exact obeys_claim hK hp (obeys_rotateClaimed h hr)

theorem obeys_revoke (plugin : ServiceAccountPlugin E) (context : InvocationContext)
    (request : RevokeServiceAccountRequest) :
    Obeys (.revoke plugin context request) (revoke plugin context request) (.opening none)
      (Ends (.revoke plugin context request) Reply.revoke) := by
  have hK : (Call.revoke plugin context request).kind = some revokeKind := rfl
  have hfaithful := Call.kind_faithful hK
  refine obeys_active hfaithful fun active ha => ?_
  split
  · exact obeys_pure (ends_opening_error hfaithful _)
  next expectedRevision hr =>
  have hactive : (Call.revoke plugin context request).active = some active := ha
  refine obeys_authorized (mapAuthorization_map _) hfaithful fun a hc => obeys_pruned hfaithful hactive ?_
  let h : Held E := ⟨active,⟨a.caller,revokeOperation,request.idempotencyKey⟩,
    .array [.string a.actorSubject,request.toJson]⟩
  have hp : (Call.revoke plugin context request).Presents (some a.actorSubject) h :=
    ⟨hactive,by simp [Call.commandKey,ha,hc,h],rfl⟩
  exact obeys_claim hK hp (obeys_revokeClaimed h hr)

theorem obeys_exchangeSecret (plugin : ServiceAccountPlugin E) (context : InvocationContext)
    (request : ExchangeServiceAccountSecretRequest) :
    Obeys (.exchangeSecret plugin context request) (exchangeSecret plugin context request) (.opening none)
      (ExchangeEnds plugin context request) := by
  have hK : (Call.exchangeSecret plugin context request).kind = some exchangeKind := rfl
  refine obeys_active exchange_faithful fun active ha => ?_
  split
  · exact obeys_pure (ends_opening_error exchange_faithful _)
  next caller hc =>
  split_ifs
  · exact obeys_pure (ends_opening_error exchange_faithful _)
  have hactive : (Call.exchangeSecret plugin context request).active = some active := ha
  refine obeys_pruned exchange_faithful hactive ?_
  let h : Held E := ⟨active,⟨caller,exchangeSecretOperation,request.idempotencyKey⟩,request.toJson⟩
  have hp : (Call.exchangeSecret plugin context request).Presents none h :=
    ⟨hactive,by simp [Call.commandKey,ha,hc,h],rfl⟩
  exact obeys_claim hK hp (obeys_exchangeClaimed h)

theorem obeys_get (plugin : ServiceAccountPlugin E) (context : InvocationContext)
    (request : GetServiceAccountRequest) :
    Obeys (.get plugin context request) (get plugin context request) (.opening none)
      (Ends (.get plugin context request) Reply.get) := by
  have hfaithful : Faithful Reply.get := ⟨fun _ => rfl,fun _ => rfl,fun _ => rfl,fun _ => rfl⟩
  refine obeys_active hfaithful fun active ha => ?_
  split_ifs
  · exact obeys_pure (ends_opening_error hfaithful _)
  refine obeys_authorized (mapAuthorization_map _) hfaithful fun a hc => ?_
  refine obeys_bind (obeys_runtime (obeys_statement (fun row => ⟨_,.account rfl,?_⟩) fun e => ?_))
  · cases row with
    | none => exact obeys_pure rfl
    | some row =>
      refine obeys_bind (obeys_runtime (obeys_fallible ?_))
      have hshows : ∀ r, r = getAnswer E (some row) →
          Ends (.get plugin context request) Reply.get r (.seen (some row).toList) :=
        fun r hr => congrArg Reply.get hr
      cases hs : summary E row with
      | error e => exact hshows _ (by simp only [getAnswer,hs])
      | ok account => exact obeys_pure (hshows _ (by simp only [getAnswer,hs]))
  · exact ⟨_,.lost (.account rfl),ends_broken (.get plugin context request) hfaithful _⟩

theorem obeys_list (plugin : ServiceAccountPlugin E) (context : InvocationContext)
    (request : ListServiceAccountsRequest) :
    Obeys (.list plugin context request) (list plugin context request) (.opening none)
      (Ends (.list plugin context request) Reply.list) := by
  have hfaithful : Faithful Reply.list := ⟨fun _ => rfl,fun _ => rfl,fun _ => rfl,fun _ => rfl⟩
  refine obeys_active hfaithful fun active ha => ?_
  split
  · exact obeys_pure (ends_opening_error hfaithful _)
  next limit hl =>
  split_ifs
  · exact obeys_pure (ends_opening_error hfaithful _)
  refine obeys_authorized (mapAuthorization_map _) hfaithful fun a hc => ?_
  refine obeys_bind (obeys_runtime (obeys_statement (fun rows => ⟨_,.accounts rfl ha hl,?_⟩) fun e => ?_))
  · refine obeys_bind (obeys_runtime (obeys_fallible ?_))
    have hshows : ∀ r, r = listAnswer E limit rows →
        Ends (.list plugin context request) Reply.list r (.seen rows) :=
      fun r hr => ⟨active,limit,ha,hl,congrArg Reply.list hr⟩
    cases hs : (rows.take limit).mapM (summary E) with
    | error e => exact hshows _ (by simp only [listAnswer,hs])
    | ok accounts => exact obeys_pure (hshows _ (by simp only [listAnswer,hs,decide_eq_true_eq]))
  · exact ⟨_,.lost (.accounts rfl ha hl),ends_broken (.list plugin context request) hfaithful _⟩

theorem obeys_inspectCommand (caller operation idempotencyKey : String) :
    Obeys (.inspectCommand caller operation idempotencyKey : Call E)
      (inspectCommand caller operation idempotencyKey) (.opening none)
      fun r φ => Last (.inspectCommand caller operation idempotencyKey : Call E) (.inspectCommand r) φ := by
  have hfails : ∀ e : ServiceAccountOperatorError,
      Last (.inspectCommand caller operation idempotencyKey : Call E) (.inspectCommand (.error e))
        (.opening none) := fun e => ⟨rfl,fun _ h => by cases h⟩
  unfold inspectCommand
  split_ifs
  · exact obeys_throw (hfails _)
  refine obeys_bind (obeys_ask fun answer _ => ?_)
  cases answer with
  | ok status => exact ⟨_,.inspected rfl,obeys_pure rfl⟩
  | error e => exact ⟨_,.uninspected rfl,obeys_throw (hfails _)⟩

end Calls

lemma conforms_map {p : Code ε α} {reply : Except ε α → Reply} {Q : Reply → Phase E → Prop}
    (h : Obeys call p φ fun r φ' => Q (reply r) φ') :
    Program.Conforms (Protocol.Possible (store E).serial) (Move call) (reply <$> p.run) φ Q :=
  (Program.conforms_bind p.run _ φ Q).mpr h

/-- Every call keeps to the protocol. -/
theorem obeyed (E : Environment) : (protocol E).Obeyed (store E).serial Call.main := by
  intro call
  cases call with
  | create plugin context request => exact conforms_map (obeys_create plugin context request)
  | get plugin context request => exact conforms_map (obeys_get plugin context request)
  | list plugin context request => exact conforms_map (obeys_list plugin context request)
  | rotateSecret plugin context request => exact conforms_map (obeys_rotateSecret plugin context request)
  | revoke plugin context request => exact conforms_map (obeys_revoke plugin context request)
  | exchangeSecret plugin context request => exact conforms_map (obeys_exchangeSecret plugin context request)
  | inspectCommand caller operation idempotencyKey =>
    exact conforms_map (obeys_inspectCommand caller operation idempotencyKey)

end LensoServiceAccount
