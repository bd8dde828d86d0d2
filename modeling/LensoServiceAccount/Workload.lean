import LensoServiceAccount.Disclosure
import LensoServiceAccount.Rejection

/-! What an exchange costs: a call that has been admitted verifies one password, whatever becomes of it. -/

namespace LensoServiceAccount
open Code
variable {E : Environment}

/-- Whether a verification is due: from the admission of a call to its verification. -/
def due (o : Effect) (a : Effect.Ans o) (φ : Bool) : Bool :=
  if grants o a then true else if o.verifies then false else φ

/-- An exchange that comes to a result owes no verification. -/
def dueProtocol (E : Environment) : Protocol (Call E) Effect Effect.Ans Reply Bool where
  first _ := false
  move _ φ o a φ' := φ' = due o a φ
  last _ r φ := ∀ x, r = .exchangeSecret (.ok x) → φ = false

/-- The store while all stored verifiers are Argon2id texts. -/
noncomputable abbrev soundStore (E : Environment) : Program.Handler Effect Effect.Ans (Choice ⊕ List Choice) Database :=
  (store E).serial.guarded (Database.Argon2id E)

section Conformance
variable {ε α β : Type} {call : Call E} {φ : Bool}

/-- From `φ` on the code ends as `Q` says. -/
abbrev Owes (E : Environment) (p : Code ε α) (φ : Bool) (Q : Except ε α → Bool → Prop) : Prop :=
  Program.Conforms (Protocol.Possible (soundStore E)) (fun φ o a φ' => φ' = due o a φ) p.run φ Q

/-- The code neither admits its call nor verifies. -/
def Keeps (E : Environment) (p : Code ε α) : Prop := ∀ φ, Owes E p φ fun _ φ' => φ' = φ

lemma owes_anything {ok : (o : Effect) → Effect.Ans o → Prop} {Q : α → Bool → Prop} (hQ : ∀ x φ, Q x φ)
    (p : Program Effect Effect.Ans α) (φ : Bool) : p.Conforms ok (fun φ o a φ' => φ' = due o a φ) φ Q := by
  induction p generalizing φ with
  | pure x => exact hQ x φ
  | perform o next ih => exact fun a _ => ⟨_,rfl,ih a _⟩

lemma owes_bind {p : Code ε β} {f : β → Code ε α} {Q : Except ε α → Bool → Prop}
    (h : Owes E p φ fun r φ' => (∀ b, r = .ok b → Owes E (f b) φ' Q) ∧ ∀ e, r = .error e → Q (.error e) φ') :
    Owes E (p >>= f) φ Q := by
  refine (Program.conforms_bind_except p f φ Q).mpr (Program.Conforms.mono h ?_)
  rintro (e | b) φ' ⟨hok,herror⟩
  · exact herror e rfl
  · exact hok b rfl

lemma Keeps.bind {p : Code ε β} {f : β → Code ε α} (h : Keeps E p) (hf : ∀ b, Keeps E (f b)) : Keeps E (p >>= f) := by
  intro φ
  refine owes_bind ((h φ).mono ?_)
  rintro r _ rfl
  exact ⟨fun b _ => hf b _,fun e _ => rfl⟩

lemma keeps_pure {a : α} : Keeps E (pure a : Code ε α) := fun _ => rfl

lemma Keeps.owes {p : Code ε α} (h : Keeps E p) {Q : Except ε α → Bool → Prop} (hQ : ∀ r, Q r φ) : Owes E p φ Q := by
  refine (h φ).mono ?_
  rintro r _ rfl
  exact hQ r

lemma keeps_perform {o : Effect} {next : Effect.Ans o → Program Effect Effect.Ans (Except ε α)}
    (ho : ∀ a φ, due o a φ = φ) (h : ∀ a, Keeps E (ExceptT.mk (next a) : Code ε α)) :
    Keeps E (ExceptT.mk (.perform o next) : Code ε α) := by
  intro φ a _
  refine ⟨φ,(ho a φ).symm,h a φ⟩

lemma keeps_ask {o : Op} (ho : ∀ input verifier, o ≠ .verifyPassword input verifier) : Keeps E (ask o : Code ε _) := by
  refine keeps_perform (fun a φ => ?_) fun a φ => rfl
  cases o <;> first | rfl | exact absurd rfl (ho _ _)

lemma keeps_statement {operation : String} {s : Statement} : Keeps E (statement operation s) :=
  keeps_perform (fun _ _ => rfl) fun _ _ => rfl

lemma keeps_transact {t : Transaction} (ht : ∀ r, t ≠ .reserveRateSlot r) : Keeps E (transact t) := by
  refine keeps_perform (fun a φ => ?_) fun a φ => rfl
  cases t <;> first | rfl | exact absurd rfl (ht _)

lemma Keeps.runtime {p : Code ServiceAccountPluginError α} (h : Keeps E p) : Keeps E (runtime p) := by
  intro φ
  refine (Program.conforms_bind p.run _ φ _).mpr ((h φ).mono ?_)
  rintro (e | a) φ' hφ <;> exact hφ

lemma keeps_fallible {r : Except ε α} : Keeps E (fallible r) := by
  cases r <;> exact fun φ => rfl

lemma keeps_entropy {p : Entropy ε α} : Keeps E (entropy p) := fun _ =>
  Program.conforms_translate (fun _ _ => True) (fun _ _ _ => ⟨rfl,trivial⟩) fun _ _ => rfl

lemma keeps_claimCommand {key : CommandKey} {intentHash : Bytes} : Keeps E (claimCommand key intentHash) := by
  refine keeps_statement.bind fun inserted => ?_
  split_ifs
  · exact keeps_pure
  · exact keeps_statement.bind fun row => keeps_pure

lemma keeps_recordError {key : CommandKey} {code : String} {error : ε} :
    Keeps E (recordError (α := α) key code error) := by
  refine Keeps.bind (Keeps.runtime (keeps_statement.bind fun changed => ?_)) fun u => keeps_pure
  split_ifs <;> exact fun φ => rfl

variable {active : ActiveServiceAccount E} {key : CommandKey} {aad : Bytes} {credential : CredentialRow}

lemma keeps_recordSession {expiresAt : Time} {session : IssueResponse} :
    Keeps E (recordSession active key aad credential expiresAt session) := by
  unfold recordSession
  split_ifs
  · exact fun φ => rfl
  split
  · exact fun φ => rfl
  refine (keeps_ask (by simp)).bind fun now => ?_
  dsimp only
  split_ifs
  · exact fun φ => rfl
  refine keeps_entropy.runtime.bind fun sealed => ?_
  exact (keeps_transact (by simp)).runtime.bind fun u => keeps_pure

lemma keeps_issueSession : Keeps E (issueSession active key aad credential) := by
  refine (keeps_ask (by simp)).bind fun now => ?_
  dsimp only
  split_ifs
  · exact keeps_recordError
  refine keeps_fallible.runtime.bind fun expiry => (keeps_ask (by simp)).bind fun answer => ?_
  rcases answer with ((_ | code) | detail) | session
  · exact keeps_recordError
  · exact fun φ => rfl
  · exact fun φ => rfl
  · exact keeps_recordSession

lemma keeps_admitCredential : Keeps E (admitCredential active key aad credential) := by
  refine (keeps_ask (by simp)).bind fun answer => ?_
  rcases answer with ((_ | _ | code) | detail) | status
  · exact keeps_recordError
  · exact keeps_recordError
  · exact fun φ => rfl
  · exact fun φ => rfl
  dsimp only
  split_ifs
  · exact fun φ => rfl
  · exact keeps_recordError
  refine (keeps_ask (by simp)).bind fun now => (keeps_transact (by simp)).runtime.bind fun admitted => ?_
  cases admitted with
  | none => exact keeps_recordError
  | some row => exact keeps_issueSession

/-- A credential that is loaded has an Argon2id verifier. -/
lemma owes_loadCredential {id : String} : Owes E (loadCredential id) φ fun r φ' =>
    φ' = φ ∧ ∀ row, r = .ok (some row) → wellFormedVerifier E row.verifier = true := by
  rintro answer ⟨choice,d,d',hc⟩
  refine ⟨φ,rfl,rfl,?_⟩
  intro row hrow
  obtain ⟨hd,hx⟩ := Program.Handler.of_guarded hc
  cases answer with
  | error e => cases hrow
  | ok row' =>
    cases hrow
    obtain ⟨now,hexecute⟩ := execute_of_serial hx
    simp only [Statement.execute,Except.ok.injEq,Prod.mk.injEq] at hexecute
    obtain ⟨hfind,-⟩ := hexecute
    simp only [Option.bind_eq_some_iff,Option.map_eq_some_iff] at hfind
    obtain ⟨c,hcredential,a,-,rfl⟩ := hfind
    exact hd c (Table.mem_of_find hcredential)

/-- The verification pays what is due. -/
lemma owes_verifySecret {secret : String} {pepper : Bytes} {verifier : String}
    (hv : wellFormedVerifier E verifier = true) :
    Owes E (verifySecret E secret pepper verifier : Code ε Bool) φ fun _ φ' => φ' = false := by
  unfold verifySecret
  rw [if_pos hv]
  exact fun a _ => ⟨false,rfl,rfl⟩

variable {request : ExchangeServiceAccountSecretRequest}

lemma owes_exchangeVerified (now : Time) (aad : Bytes) {credential : Option CredentialRow}
    (hv : wellFormedVerifier E ((credential.map CredentialRow.verifier).getD active.dummyVerifier) = true) :
    Owes E (do
      let verifier := (credential.map CredentialRow.verifier).getD active.dummyVerifier
      let secretMatches ← verifySecret E request.secret active.pepper verifier
      match credential.filter fun row => secretMatches && row.usableAt now with
      | none => recordError key "invalid_credentials" .invalidCredentials
      | some credential => admitCredential active key aad credential) φ
      fun r φ' => ∀ x, r = .ok x → φ' = false := by
  refine owes_bind ((owes_verifySecret hv).mono ?_)
  rintro r _ rfl
  refine ⟨fun secretMatches _ => ?_,fun e _ x hx => by cases hx⟩
  cases credential.filter fun row => secretMatches && row.usableAt now with
  | none => exact keeps_recordError.owes fun _ _ _ => rfl
  | some row => exact keeps_admitCredential.owes fun _ _ _ => rfl

lemma owes_exchangeClaimed (hphc : ∀ input salt v, E.hashPassword input salt = some v → wellFormedVerifier E v = true) :
    Owes E (exchangeClaimed active request key aad) false fun r φ' => ∀ x, r = .ok x → φ' = false := by
  have hdummy : wellFormedVerifier E active.dummyVerifier = true := by
    obtain ⟨salt,hs⟩ := active.dummy
    exact hphc _ _ _ hs
  have hfailed : ∀ (e : RuntimeFailure) (φ : Bool) (x : Except ExchangeSecretError ExchangeServiceAccountSecretResponse),
      Except.error e = .ok x → φ = false := fun e φ x hx => by cases hx
  refine owes_bind (((keeps_ask (by simp)) false).mono ?_)
  rintro r _ rfl
  refine ⟨fun now _ => owes_bind ?_,fun e _ x hx => by cases hx⟩
  refine (Program.conforms_bind _ _ _ _).mpr fun granted _ => ⟨_,rfl,?_⟩
  rcases granted with e | (_ | _)
  · exact ⟨fun b hb => (by cases hb),fun e' _ => hfailed e' _⟩
  · refine ⟨fun b hb => ?_,fun e' _ => hfailed e' _⟩
    cases hb
    exact keeps_recordError.owes fun _ _ _ => rfl
  refine ⟨fun b hb => ?_,fun e' _ => hfailed e' _⟩
  cases hb
  rw [if_neg (by simp)]
  cases hid : credentialId request.secret with
  | none => exact owes_exchangeVerified now aad hdummy
  | some id =>
    refine owes_bind ((Program.conforms_bind _ _ _ _).mpr (owes_loadCredential.mono ?_))
    rintro (e | row) φ' ⟨rfl,hrow⟩
    · exact ⟨fun b hb => (by cases hb),fun e' _ => hfailed e' _⟩
    refine ⟨fun b hb => ?_,fun e' _ => hfailed e' _⟩
    cases hb
    refine owes_exchangeVerified now aad ?_
    cases row with
    | none => exact hdummy
    | some row => exact hrow row rfl

theorem owes_exchangeSecret (hphc : ∀ input salt v, E.hashPassword input salt = some v → wellFormedVerifier E v = true)
    {plugin : ServiceAccountPlugin E} {context : InvocationContext} :
    Owes E (exchangeSecret plugin context request) false fun r φ' => ∀ x, r = .ok x → φ' = false := by
  unfold exchangeSecret ServiceAccountPlugin.get
  cases plugin.active with
  | none => exact fun x hx => rfl
  | some active =>
    refine owes_bind (show Owes E (pure active) false _ from ⟨fun b hb => ?_,fun e he => by cases he⟩)
    cases hb
    cases context.callerIn active.config.authenticationCallers with
    | none => exact fun x hx => rfl
    | some caller =>
      dsimp only
      split_ifs
      · exact fun x hx => rfl
      refine owes_bind ((keeps_statement.runtime false).mono ?_)
      rintro r _ rfl
      refine ⟨fun u _ => owes_bind ((keeps_claimCommand.runtime false).mono ?_),fun e _ x hx => by cases hx⟩
      rintro r _ rfl
      refine ⟨fun claim _ => ?_,fun e _ x hx => by cases hx⟩
      cases claim with
      | claimed => exact owes_exchangeClaimed hphc
      | completedSuccess nonce ciphertext =>
        exact (keeps_fallible.runtime.bind fun response => keeps_pure).owes fun _ _ _ => rfl
      | completedError code => exact (keeps_fallible.runtime.bind fun error => keeps_pure).owes fun _ _ _ => rfl
      | conflict => exact fun x hx => rfl
      | inProgress => exact fun x hx => rfl

/-- Every exchange that comes to a result has paid. -/
theorem dues_obeyed (hphc : ∀ input salt v, E.hashPassword input salt = some v → wellFormedVerifier E v = true) :
    (dueProtocol E).Obeyed (soundStore E) Call.main := by
  intro call
  cases call with
  | exchangeSecret plugin context request =>
    refine (Program.conforms_bind _ _ _ _).mpr ((owes_exchangeSecret hphc).mono ?_)
    rintro r φ h x hx
    cases hx
    exact h x rfl
  | _ =>
    refine (Program.conforms_bind _ _ _ _).mpr (owes_anything (fun r φ x hx => ?_) _ _)
    cases hx

end Conformance

section Runs
variable {c : Run (Call E) Reply}

/-- The verifiers that a run stores are Argon2id texts. -/
theorem argon2id_invariant (hphc : ∀ input salt v, E.hashPassword input salt = some v → wellFormedVerifier E v = true) :
    (protocol E).Invariant (store E).serial Database.empty fun tr d p => Ownership tr d p ∧ d.Argon2id E := by
  refine (ownership_invariant E).and (fun c hc => by cases hc) ?_
  intro tr d p e p' ho hd hs c hc
  have hl := hs.legal
  have hb : e.before = d := hs.before
  obtain ⟨f,new,hrows,hev,hnew⟩ := credentials_of_legal hl
  have hmem := hc
  rw [hrows] at hmem
  rcases List.mem_append.mp hmem with hold | hnewer
  · obtain ⟨z,hz,rfl⟩ := List.mem_map.mp hold
    rw [(hev z hz).verifier]
    exact hd z (hb ▸ hz)
  · obtain ⟨i,hi,hid,-⟩ := hnew c hnewer
    obtain ⟨y,hy,-,hverifier,-⟩ := hi.row hl
    have hfind := Table.find_of_mem hc
    rw [key_credential,hid,hy] at hfind
    obtain rfl := Option.some.inj hfind
    obtain ⟨h,secret,row,-,hcommits⟩ := commits_of_inserts ho hs hi
    obtain ⟨salt,-,hv⟩ := hcommits.verifies
    rw [hverifier]
    exact hphc _ _ _ hv

/-- A call that owes nothing has verified as soon as it has been admitted. -/
lemma verified_of_path {call : Call E} {es : List (CallStep E)} {φ : Bool}
    (h : (dueProtocol E).Path (soundStore E) call es φ) (hg : 0 < es.countP granted) :
    φ = true ∨ 0 < es.countP verifies := by
  induction h with
  | start hc ha =>
    rw [List.countP_singleton] at hg
    simp [granted,ha] at hg
  | @move es φ φ' o choice a e h hc ha hm hH ih =>
    have hdue : φ' = due o a φ := hm
    rw [List.countP_cons] at hg ⊢
    cases hgrant : grants o a with
    | true => exact .inl (by rw [hdue,due,hgrant,if_pos rfl])
    | false =>
      cases hverify : o.verifies with
      | true =>
        have hv : verifies e = true := by simp only [verifies,ha,hverify]
        exact .inr (by simp [hv])
      | false =>
        have hno : granted e = false := by simp only [granted,ha,hgrant]
        rw [hno] at hg
        obtain rfl | hpos := ih (by simpa using hg)
        · exact .inl (by simp [hdue,due,hgrant,hverify])
        · exact .inr (by omega)

lemma steps_eq_own (q : CallStep E → Bool) (i : ℕ) (tr : List (CallStep E)) : steps q i tr = (Protocol.own i tr).countP q := by
  rw [steps,Protocol.own,List.countP_filter]

/-- Every exchange that comes to a result has verified exactly once if it was admitted, and not at all
otherwise. -/
theorem one_verification_per_admission
    (hphc : ∀ input salt v, E.hashPassword input salt = some v → wellFormedVerifier E v = true)
    (hc : LockedConfig.Reachable (store E) Call.main Database.empty c) {post pre : List (CallStep E)} {e : CallStep E}
    (he : c.trace = post ++ e :: pre) {x : Except ExchangeSecretError ExchangeServiceAccountSecretResponse}
    (ha : e.action = .reply (.exchangeSecret (.ok x))) :
    steps verifies e.tid pre = steps granted e.tid pre ∧ steps granted e.tid pre ≤ 1 := by
  have hreach := serializable hc
  have hsound : ∀ y ∈ c.trace, y.before.Argon2id E := by
    intro y hy
    obtain ⟨post',pre',htr⟩ := List.append_of_mem hy
    obtain ⟨p,p',⟨-,hd⟩,-⟩ := (argon2id_invariant hphc).event (obeyed E) hreach htr
    exact hd
  obtain ⟨φ,hpath,hlast⟩ := Protocol.path_of_reply (dues_obeyed hphc) (hreach.guarded hsound) he ha
  obtain rfl : φ = false := hlast x rfl
  obtain ⟨p,p',-,hg,-⟩ := guesses_event hc he
  have honce := hg.once e.tid
  have hpaid : 0 < steps granted e.tid pre → 0 < steps verifies e.tid pre := by
    intro hpos
    rw [steps_eq_own] at hpos ⊢
    obtain hfalse | hpos := verified_of_path hpath hpos
    · cases hfalse
    · exact hpos
  omega

end Runs

/-- The last step is the result of an exchange that has been admitted. -/
noncomputable def sampleAnswered : List (CallStep .plain) → Bool
  | ⟨tid,_,.reply (.exchangeSecret (.ok _)),_,_⟩ :: pre => decide (steps granted tid pre = 1)
  | _ => false

set_option maxRecDepth 4000 in
lemma sampleExchangeRun_answered : sampleAnswered sampleExchangeRun.trace = true := by decide +kernel

/-- The sample exchange has been admitted, and has verified once. -/
theorem one_verification_per_admission_sample : ∃ e pre, sampleExchangeRun.trace = e :: pre ∧
    steps granted e.tid pre = 1 ∧ steps verifies e.tid pre = 1 := by
  have hanswered := sampleExchangeRun_answered
  unfold sampleAnswered at hanswered
  split at hanswered
  · next tid call x before after pre htr =>
    have hgranted : steps granted tid pre = 1 := of_decide_eq_true hanswered
    have hlast : sampleExchangeRun.trace = [] ++ ⟨tid,call,.reply (.exchangeSecret (.ok x)),before,after⟩ :: pre := htr
    obtain ⟨hverified,-⟩ := one_verification_per_admission (fun _ _ _ _ => rfl) sampleExchangeRun_reachable hlast rfl
    exact ⟨_,pre,htr,hgranted,hverified.trans hgranted⟩
  · cases hanswered

end LensoServiceAccount
