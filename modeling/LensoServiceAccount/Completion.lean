import LensoServiceAccount.Ownership
import LensoServiceAccount.Rotation

/-! A claimant can always complete its command: nobody else touches the row, and no invariant of
the code breaks on the way. -/

namespace LensoServiceAccount
variable {E : Environment}

lemma TxFailure.benign {d : Database} {key : CommandKey} {α : Type} {receipt : Sealing α}
    {e : ServiceAccountPluginError} (h : TxFailure d key receipt e)
    (hc : ∃ c, d.commands.find key = some c ∧ c.status.completable = true)
    (hr : ∀ x e, (receipt x).run.Outcome Filled (.error e) → ∀ detail, e ≠ .invariant detail) :
    RuntimeFailure.Benign (.pluginFailure e) := by
  intro detail he
  obtain rfl := RuntimeFailure.pluginFailure.inj he
  cases h with
  | receipt x e h => exact hr x _ h detail rfl
  | notCompletable h =>
    obtain ⟨c,hc,hcomp⟩ := hc
    exact absurd ((h c hc).symm.trans hcomp) (by simp)

lemma RuntimeFailure.Benign.database (operation : String) (e : SqlError) :
    RuntimeFailure.Benign (.pluginFailure (.database operation e)) := fun detail h => by cases h

/-- The failure of a transaction that a call asks for is no broken invariant. -/
lemma Asks.benign {call : Call E} {φ : Phase E} {h : Held E} {t : Transaction} (ha : Asks call φ h t)
    {d d' : Database} (hc : ∃ c, d.commands.find h.key = some c ∧ c.status.completable = true)
    {e : ServiceAccountPluginError} (ho : t.Outcome E (fun _ _ => true) d (.error e) d') :
    RuntimeFailure.Benign (.pluginFailure e) := by
  cases ha with
  | create hcall hs hr =>
    cases ho with
    | failed _ hf hn =>
      rw [hr.key,hr.receipt] at hf
      exact hf.benign hc fun row e ho => (createReceipt_seals h row).benign ho
    | unacknowledged row _ hcommit => exact .database _ _
  | rotate hcall hs hr =>
    cases ho with
    | failed _ hf =>
      have hf' := hf.toTxFailure
      rw [hr.key,hr.receipt] at hf'
      exact hf'.benign hc fun row e ho => (rotateReceipt_seals h row).benign ho
    | unacknowledged row _ hcommit hf => exact .database _ _
  | revoke hcall hr =>
    cases ho with
    | failed _ hf =>
      rw [hr.key,hr.receipt] at hf
      exact hf.benign hc fun result e ho => (revokeReceipt_seals h result).benign ho
    | unacknowledged result _ hcommit => exact .database _ _
  | slot hcall => cases ho <;> exact .database _ _
  | mark hcall => cases ho <;> exact .database _ _
  | complete hcall hb hs =>
    cases ho with
    | failed _ hf =>
      refine hf.benign hc fun x e ho => ?_
      have he : (Except.ok _ : Except ServiceAccountPluginError (Bytes × Bytes)) = .error e := ho
      cases he
    | unacknowledged => exact .database _ _

/-- The failures that a step of a call can break off with. -/
lemma Move.benign {call : Call E} {φ : Phase E} {o : Effect} {a : Effect.Ans o} {f : RuntimeFailure}
    (hm : Move call φ o a (.broken f)) {d d' : Database} {ch : Choice ⊕ List Choice}
    (hH : (store E).serial o ch d = some (a, d'))
    (hc : ∀ h s, φ.holds = some (h, s) → ∃ c, d.commands.find h.key = some c ∧ c.status.completable = true) :
    f.Benign := by
  cases hm with
  | lost hp => exact .database _ _
  | random hφ => cases hφ
  | statusFailed hf | ambiguous he hf => exact hf
  | unrecorded hh hr hn =>
    obtain ⟨c,hcomp⟩ := hc _ _ hh
    obtain ⟨ch',hx⟩ := Op.handle_of_serial hH
    rcases execute_answer hx with ⟨n,ha,hx⟩ | ⟨e,he,-⟩
    · cases ha
      rcases completeFailed_ok hx with ⟨-,-,hno⟩ | ⟨rfl,-⟩
      · exact absurd ((hno c hcomp.1).symm.trans hcomp.2) (by simp)
      · exact absurd rfl hn
    · cases he
  | failed ha =>
    cases ch with
    | inl c => simp [Store.serial] at hH
    | inr cs => exact ha.benign (hc _ _ ha.holds.choose_spec) (Transaction.outcome hH)

/-- What a phase promises of its end: no broken invariant, and an answer that can be decoded. -/
def Phase.Sound : Phase E → Prop
  | .broken f => f.Benign
  | .settled _ reply => reply.failure = none
  | .answered h row => ∃ (call : Call E) (held : Held E), call.commandKey = some h.key ∧ Authored call held row
  | _ => True

lemma Kind.failure_ok {call : Call E} {K : Kind} (hK : call.kind = some K) (r : Except K.Error K.Response) :
    (K.reply (.ok r)).failure = none := by
  cases call <;> simp only [Call.kind,Option.some.injEq,reduceCtorEq] at hK <;> subst hK <;> cases r <;> rfl

lemma Kind.failure_error {call : Call E} {K : Kind} (hK : call.kind = some K) (f : RuntimeFailure) :
    (K.reply (.error f)).failure = some f := (Call.kind_faithful hK).failure f

lemma Move.sound {call : Call E} {φ φ' : Phase E} {o : Effect} {a : Effect.Ans o} (hm : Move call φ o a φ')
    {tr : List (CallStep E)} {d d' : Database} {p : CallPhases E} (h : Ownership tr d p) {i : ℕ}
    (hp : p i = some (call, φ)) {ch : Choice ⊕ List Choice} (hH : (store E).serial o ch d = some (a, d')) :
    φ'.Sound := by
  cases φ' with
  | broken f =>
    refine hm.benign hH fun held s hh => ?_
    obtain ⟨c,hc,hs,-⟩ := h.owned i call φ held s hp hh
    exact ⟨c,hc,by rw [hs]; exact Phase.completable_of_holds hh⟩
  | settled held reply =>
    cases hm with
    | random hφ => cases hφ
    | recorded hh hr hK he => exact Kind.failure_ok hK _
    | created | rotated | revoked | completed => rfl
  | answered held row =>
    cases hm with
    | random hφ => cases hφ
    | read =>
      obtain ⟨c,hx⟩ := Op.handle_of_serial hH
      rcases execute_answer hx with ⟨row',hrow,hx⟩ | ⟨e,he,-⟩
      · cases hrow
        simp only [Statement.execute] at hx
        split at hx
        · next c hc =>
          obtain ⟨rfl,-⟩ := Prod.mk.inj (Except.ok.inj hx)
          obtain ⟨x,held',-,hpr,hk,-,hau⟩ := h.accounted.row _ _ hc
          exact ⟨x.call,held',by rw [hpr.commandKey,hk],hau⟩
        · cases hx
      · cases he
  | _ => trivial

/-- All phases of a run are sound. -/
def Sound (p : CallPhases E) : Prop := ∀ i call φ, p i = some (call, φ) → φ.Sound

theorem sound_invariant (E : Environment) :
    (protocol E).Invariant (store E).serial Database.empty fun tr d p => Ownership tr d p ∧ Sound p := by
  refine (ownership_invariant E).and (J := fun _ _ p => Sound p) (fun _ _ _ h => by simp at h) ?_
  intro tr d p e p' ho hsound hs j call φ hj
  by_cases hje : j = e.tid
  · subst hje
    cases hs with
    | reply i call φ r hp hl => simp at hj
    | stop i call φ hp => simp at hj
    | start i call hp hi =>
      simp only [Function.update_self,Option.some.injEq,Prod.mk.injEq] at hj
      rw [← hj.2]
      trivial
    | perform i call φ φ' o choice a s' hp hm hH =>
      simp only [Function.update_self,Option.some.injEq,Prod.mk.injEq] at hj
      obtain ⟨rfl,rfl⟩ := hj
      exact Move.sound hm ho hp hH
  · rw [hs.other hje] at hj
    exact hsound j call φ hj

/-- Commands of one key are of one operation. -/
lemma Call.kind_of_commandKey {call call' : Call E} {key : CommandKey} (h : call.commandKey = some key)
    (h' : call'.commandKey = some key) : call.kind = call'.kind := by
  have hoperation : ∀ {call : Call E}, call.commandKey = some key →
      (call.kind = some createKind ∧ key.operation = createOperation) ∨
      (call.kind = some rotateKind ∧ key.operation = rotateSecretOperation) ∨
      (call.kind = some revokeKind ∧ key.operation = revokeOperation) ∨
      (call.kind = some exchangeKind ∧ key.operation = exchangeSecretOperation) := by
    intro call hc
    cases call <;> simp only [commandKey,Option.bind_eq_bind,Option.bind_eq_some_iff,pure,Option.some.injEq,
      reduceCtorEq] at hc <;> obtain ⟨active,-,caller,-,rfl⟩ := hc <;> simp [kind]
  rcases hoperation h with ⟨hk,ho⟩ | ⟨hk,ho⟩ | ⟨hk,ho⟩ | ⟨hk,ho⟩ <;>
    rcases hoperation h' with ⟨hk',ho'⟩ | ⟨hk',ho'⟩ | ⟨hk',ho'⟩ | ⟨hk',ho'⟩ <;>
    first
      | exact hk.trans hk'.symm
      | exact absurd (ho.symm.trans ho') (by decide)

lemma getAnswer_error {row : Option AccountRow} {f : RuntimeFailure} (h : getAnswer E row = .error f) :
    f.Benign := by
  unfold getAnswer at h
  split at h
  · cases h
  · split at h
    · cases h
    · next e he =>
      rw [← Except.error.inj h,summary_error he]
      exact fun detail hd => by cases hd

lemma mapM_summary_error {rows : List AccountRow} {e : ServiceAccountPluginError}
    (h : rows.mapM (summary E) = .error e) : e = .formatTime := by
  induction rows with
  | nil => cases h
  | cons row rows ih =>
    simp only [List.mapM_cons,bind,Except.bind] at h
    cases hs : summary E row with
    | error e' =>
      simp only [hs,Except.error.injEq] at h
      rw [← h]
      exact summary_error hs
    | ok account =>
      simp only [hs] at h
      cases hr : rows.mapM (summary E) with
      | error e' =>
        simp only [hr,Except.error.injEq] at h
        subst h
        exact ih hr
      | ok accounts => simp [hr,pure,Except.pure] at h

lemma listAnswer_error {limit : ℕ} {rows : List AccountRow} {f : RuntimeFailure}
    (h : listAnswer E limit rows = .error f) : f.Benign := by
  unfold listAnswer at h
  split at h
  · cases h
  · next e he =>
    rw [← Except.error.inj h,mapM_summary_error he]
    exact fun detail hd => by cases hd

/-- The answer that is made of a row never breaks an invariant. -/
lemma Kind.answer_error {call : Call E} {h held : Held E} {K : Kind} (hK : call.kind = some K) {row : Command}
    (hau : Authored call held row) {f : RuntimeFailure} (hf : K.answer h row = .error f) : f.Benign := by
  unfold answer at hf
  split_ifs at hf
  cases hs : row.status with
  | completedSuccess =>
    simp only [hs] at hf
    split at hf
    · cases hf
    · rw [← Except.error.inj hf]
      exact fun detail hd => by cases hd
  | completedError =>
    simp only [hs] at hf
    obtain hr | hr | ⟨hr⟩ := hau
    · exact absurd (hs.symm.trans hr) (by simp)
    · exact absurd (hs.symm.trans hr) (by simp)
    · cases hr with
      | error hK' hs' hc he =>
        obtain rfl := Option.some.inj (hK.symm.trans hK')
        simp [hc,he] at hf
      | success hK' hs' => exact absurd (hs.symm.trans hs') (by simp)
  | _ =>
    simp only [hs] at hf
    cases hf

/-- No call replies with a broken invariant. -/
lemma Phase.Sound.benign {call : Call E} {φ : Phase E} (h : φ.Sound) (ha : ∀ held, φ.presented = some held →
    call.commandKey = some held.key) {r : Reply} (hl : Last call r φ) {f : RuntimeFailure}
    (hf : r.failure = some f) : f.Benign := by
  cases φ with
  | opening actor => exact hl.2 f hf
  | contested held => exact hl.elim
  | answered held row =>
    obtain ⟨call',held',hk,hau⟩ := h
    obtain ⟨K,hK,rfl⟩ := hl
    have hK' : call'.kind = some K := (Call.kind_of_commandKey hk (ha held rfl)).trans hK
    cases hx : K.answer held row with
    | ok x =>
      rw [hx,Kind.failure_ok hK] at hf
      cases hf
    | error f' =>
      rw [hx,Kind.failure_error hK] at hf
      obtain rfl := Option.some.inj hf
      exact Kind.answer_error hK' hau hx
  | settled held reply =>
    have hnone : reply.failure = none := h
    rw [hl,hnone] at hf
    cases hf
  | seen rows =>
    have hshows : call.shows rows r := hl
    cases call with
    | get plugin context request =>
      rw [show r = .get (getAnswer E rows.head?) from hshows] at hf
      cases hx : getAnswer E rows.head? with
      | error f' =>
        rw [hx] at hf
        obtain rfl := Option.some.inj hf
        exact getAnswer_error hx
      | ok x => rw [hx] at hf; cases hf
    | list plugin context request =>
      obtain ⟨active,limit,-,-,rfl⟩ := hshows
      cases hx : listAnswer E limit rows with
      | error f' =>
        rw [hx] at hf
        obtain rfl := Option.some.inj hf
        exact listAnswer_error hx
      | ok x => rw [hx] at hf; cases hf
    | _ => exact hshows.elim
  | inspected status =>
    rw [show r = .inspectCommand (.ok status) from hl] at hf
    cases hf
  | broken f' =>
    obtain rfl := Option.some.inj (hf.symm.trans hl)
    exact h
  | _ =>
    obtain ⟨f',hf',hb⟩ := hl
    obtain rfl := Option.some.inj (hf.symm.trans hf')
    exact hb

lemma Kind.code_length {call : Call E} {K : Kind} (hK : call.kind = some K) {code : String} {error : K.Error}
    (he : K.errorOfCode code = .ok error) : charLengthBetween code 1 64 = true := by
  cases call <;> simp only [Call.kind,Option.some.injEq,reduceCtorEq] at hK <;> subst hK <;>
    simp only [createKind,rotateKind,revokeKind,exchangeKind,createErrorOfCode,rotateErrorOfCode,
      revokeErrorOfCode,exchangeErrorOfCode] at he <;>
    split_ifs at he <;> subst code <;> decide

/-- The step leaves the command completed. -/
def completes {κ ρ : Type} (k : CommandKey) (e : Step κ ρ) : Bool :=
  (e.after.commands.find k).any fun c => !c.status.completable

section Runs
variable {c : Run (Call E) Reply}

/-- The invariant of the commands and the step of the phases, at every event of a run. -/
theorem sound_event (hc : LockedConfig.Reachable (store E) Call.main Database.empty c) {post pre : List (CallStep E)}
    {e : CallStep E} (he : c.trace = post ++ e :: pre) : ∃ p p',
      (Ownership pre e.before p ∧ Sound p) ∧ (protocol E).Step (store E).serial pre e.before p e p' :=
  (sound_invariant E).event (obeyed E) (serializable hc) he

/-- Every operation of a run was a move of its call. -/
theorem perform_event (hc : LockedConfig.Reachable (store E) Call.main Database.empty c) {e : CallStep E}
    (he : e ∈ c.trace) {o : Effect} {a : Effect.Ans o} (ha : e.action = .perform o a) :
    ∃ pre p φ φ' ch, Ownership pre e.before p ∧ p e.tid = some (e.call, φ) ∧ Move e.call φ o a φ' ∧
      (store E).serial o ch e.before = some (a, e.after) ∧ φ'.Sound := by
  obtain ⟨post,pre,he⟩ := List.append_of_mem he
  obtain ⟨p,p',⟨ho,-⟩,hs⟩ := sound_event hc he
  generalize hb : e.before = d at ho hs
  cases hs with
  | start i call hp hi => cases ha
  | reply i call φ r hp hl => cases ha
  | stop i call φ hp => cases ha
  | perform i call φ φ' o choice a s' hp hm hH =>
    cases ha
    exact ⟨pre,p,φ,φ',choice,ho,hp,hm,hH,Move.sound hm ho hp hH⟩

/-- Every reply of a run was allowed by the phase of its call. -/
theorem reply_event (hc : LockedConfig.Reachable (store E) Call.main Database.empty c) {e : CallStep E}
    (he : e ∈ c.trace) {r : Reply} (ha : e.action = .reply r) :
    ∃ pre p φ, Ownership pre e.before p ∧ p e.tid = some (e.call, φ) ∧ φ.Sound ∧ Last e.call r φ := by
  obtain ⟨post,pre,he⟩ := List.append_of_mem he
  obtain ⟨p,p',⟨ho,hsound⟩,hs⟩ := sound_event hc he
  generalize hb : e.before = d at ho hs
  cases hs with
  | start i call hp hi => cases ha
  | perform i call φ φ' o choice a s' hp hm hH => cases ha
  | stop i call φ hp => cases ha
  | reply i call φ r hp hl =>
    cases ha
    exact ⟨pre,p,φ,ho,hp,hsound i call φ hp,hl⟩

/-- An uncompleted row is changed by its claimant only. -/
lemma Ownership.uncompleted_stays {tr : List (CallStep E)} {d : Database} {p p' : CallPhases E} {e : CallStep E}
    (h : Ownership tr d p) (hs : (protocol E).Step (store E).serial tr d p e p') {k : CommandKey} {row : Command}
    (hrow : d.commands.find k = some row) (hcomp : row.status.completable = true) :
    (e.after.commands.find k).isSome = true ∧
      (claimant k tr ≠ some e.tid → e.after.commands.find k = some row) := by
  have hsame : e.after = d → (e.after.commands.find k).isSome = true ∧
      (claimant k tr ≠ some e.tid → e.after.commands.find k = some row) := by
    intro hd
    rw [hd,hrow]
    exact ⟨rfl,fun _ => rfl⟩
  cases hs with
  | start i call hp hi => exact hsame rfl
  | reply i call φ r hp hl => exact hsame rfl
  | stop i call φ hp => exact hsame rfl
  | perform i call φ φ' o choice a s' hp hm hH =>
    have hstep := h.acting.rowStep hp hm hH k
    rw [hrow] at hstep
    refine ⟨?_,fun hne => hstep.foreign (Table.check_of_find hrow) hcomp ?_⟩
    · dsimp only
      generalize s'.commands.find k = row' at hstep ⊢
      cases hstep with
      | deleted hd =>
        rw [(Command.check_shape (Table.check_of_find hrow) hcomp).2.2.2] at hd
        cases hd
      | _ => rfl
    · rintro held s hh rfl
      obtain ⟨-,-,-,-,hclaim⟩ := h.owned i call φ held s hp hh
      exact hne hclaim

/-- From its claim on, as long as its claimant has not completed it, a row is there and no step of
another call changes it. -/
def Kept (k : CommandKey) (tr : List (CallStep E)) (d : Database) : Prop :=
  ∀ post x pre, tr = post ++ x :: pre → inserts k x = true →
    (∀ e ∈ post, e.tid = x.tid → completes k e = false) →
    ∃ row, d.commands.find k = some row ∧ row.status.completable = true ∧ claimant k tr = some x.tid ∧
      ∀ e ∈ post, e.tid ≠ x.tid → e.after.commands.find k = e.before.commands.find k

lemma Kept.step {k : CommandKey} {tr : List (CallStep E)} {d : Database} {p p' : CallPhases E} {e : CallStep E}
    (h : Kept k tr d) (ho : Ownership tr d p) (hs : (protocol E).Step (store E).serial tr d p e p') :
    Kept k (e :: tr) e.after := by
  intro post x pre he hx hopen
  cases post with
  | nil =>
    obtain ⟨rfl,rfl⟩ := List.cons.inj he
    cases hs with
    | start i call hp hi => cases ((idle_of_same rfl).inserts k).symm.trans hx
    | reply i call φ r hp hl => cases ((idle_of_same rfl).inserts k).symm.trans hx
    | stop i call φ hp => cases ((idle_of_same rfl).inserts k).symm.trans hx
    | perform i call φ φ' o choice a s' hp hm hH =>
      have hrow := ho.acting.rowStep hp hm hH k
      have hi : (d.commands.find k).isNone = true ∧ (s'.commands.find k).isSome = true := by
        simpa [inserts] using hx
      obtain ⟨row,hs'⟩ := Option.isSome_iff_exists.mp hi.2
      rw [Option.isNone_iff_eq_none.mp hi.1,hs'] at hrow
      refine ⟨row,hs',?_,by rw [claimant_cons,if_pos hx],fun _ h => absurd h (by simp)⟩
      cases hrow with
      | inserted hp hk hφ => rfl
  | cons y post =>
    obtain ⟨rfl,rfl⟩ := List.cons.inj he
    obtain ⟨row,hrow,hcomp,hclaim,hothers⟩ := h post x pre rfl hx
      fun e he => hopen e (List.mem_cons_of_mem _ he)
    obtain ⟨hsome,hsame⟩ := ho.uncompleted_stays hs hrow hcomp
    have hbefore : e.before.commands.find k = some row := by rw [hs.before,hrow]
    have hclaim' : claimant k (e :: (post ++ x :: pre)) = some x.tid := by
      rw [claimant_cons,if_neg (by simp [inserts,hbefore])]
      exact hclaim
    by_cases hex : e.tid = x.tid
    · obtain ⟨row',hrow'⟩ := Option.isSome_iff_exists.mp hsome
      have hno := hopen e (by simp) hex
      refine ⟨row',hrow',by simpa [completes,hrow'] using hno,hclaim',fun y hy hne => ?_⟩
      rcases List.mem_cons.mp hy with rfl | hy
      · exact absurd hex hne
      · exact hothers y hy hne
    · have hkeep := hsame (by rw [hclaim]; exact fun h => hex (Option.some.inj h).symm)
      refine ⟨row,hkeep,hcomp,hclaim',fun y hy hne => ?_⟩
      rcases List.mem_cons.mp hy with rfl | hy
      · rw [hkeep,hbefore]
      · exact hothers y hy hne

theorem kept (hc : LockedConfig.Reachable (store E) Call.main Database.empty c) (k : CommandKey) :
    Kept k c.trace c.state := by
  have hI := (ownership_invariant E).and (J := fun tr d _ => Kept k tr d) (fun post x pre he => by simp at he)
    fun ho h hs => h.step ho hs
  obtain ⟨p,-,-,h⟩ := hI.reachable (obeyed E) (serializable hc)
  exact h

/-- What every call can rely on in a run. -/
structure Dependable (c : Run (Call E) Reply) : Prop where
  /-- From its claim to its completion, a row is there and only its claimant changes it. -/
  kept : ∀ k post x pre, c.trace = post ++ x :: pre → inserts k x = true →
    (∀ e ∈ post, e.tid = x.tid → completes k e = false) →
    ∃ row, c.state.commands.find k = some row ∧ row.status.completable = true ∧
      ∀ e ∈ post, e.tid ≠ x.tid → e.after.commands.find k = e.before.commands.find k
  /-- The recording of an error updates one row. -/
  recorded : ∀ e ∈ c.trace, ∀ key code n,
    e.action = .perform (.pool (.execute (.completeFailedCommand key code))) (.ok n) → n = 1
  /-- A transaction does not fail because its command is not completable, or its account gone. -/
  transaction : ∀ e ∈ c.trace, ∀ t error, e.action = .perform (.transact t) (.error error) →
    ∀ detail, error ≠ .invariant detail
  /-- An exchange is turned away because of account or credential, its command being reserved. -/
  admission : ∀ e ∈ c.trace, ∀ r, e.action = .perform (.transact (.markExchangeIssuing r)) (.ok none) →
    (∃ k, e.before.commands.find ⟨r.caller,"exchange_secret",r.idempotencyKey⟩ = some k ∧ k.status = .reserved) ∧
    ((∀ a, e.before.accounts.find r.serviceAccountId = some a → a.status ≠ .active) ∨
      ∀ x, e.before.credentials.find r.credentialId = some x → x.serviceAccountId = r.serviceAccountId →
        x.validAt r.now = false)
  /-- No call replies that an invariant is broken. -/
  reply : ∀ e ∈ c.trace, ∀ r detail, e.action = .reply r →
    r.failure ≠ some (.pluginFailure (.invariant detail))
  /-- Every recorded error passes the check of the table. -/
  failCheck : ∀ e ∈ c.trace, ∀ key code a,
    e.action = .perform (.pool (.execute (.completeFailedCommand key code))) a →
    ∀ row, e.before.commands.find key = some row → row.status.completable = true → ∀ now,
      Row.check (row.fail now code) = true
  /-- So does every receipt of the right size, and an issuing command. -/
  succeedCheck : ∀ k row, c.state.commands.find k = some row → row.status.completable = true → ∀ now,
    Row.check (row.issue now) = true ∧ ∀ nonce ciphertext : Bytes, nonce.length = 12 →
      ciphertext.length ≤ 262144 → Row.check (row.succeed now nonce ciphertext) = true

lemma Move.transact_error {call : Call E} {φ φ' : Phase E} {t : Transaction} {error : ServiceAccountPluginError}
    (hm : Move call φ (.transact t) (.error error) φ') :
    (uniqueConstraint error).isSome = true ∨ ∃ f, φ' = .broken f ∧ f = .pluginFailure error := by
  cases hm with
  | declined ha hd =>
    cases ha <;> first | exact .inl hd | exact absurd hd id
  | failed ha => exact .inr ⟨_,rfl,rfl⟩

/-- A claimant can always complete its own command. -/
theorem claimant_completes (hc : LockedConfig.Reachable (store E) Call.main Database.empty c) : Dependable c where
  kept k post x pre he hx hopen := by
    obtain ⟨row,hrow,hcomp,-,hothers⟩ := kept hc k post x pre he hx hopen
    exact ⟨row,hrow,hcomp,hothers⟩
  recorded e he key code n ha := by
    obtain ⟨pre,p,φ,φ',ch,ho,hp,hm,hH,hsound⟩ := perform_event hc he ha
    cases hm with
    | recorded => rfl
    | unrecorded => exact absurd rfl (hsound _)
  transaction e he t error ha detail := by
    obtain ⟨pre,p,φ,φ',ch,ho,hp,hm,hH,hsound⟩ := perform_event hc he ha
    rintro rfl
    obtain hu | ⟨f,rfl,rfl⟩ := hm.transact_error
    · cases hu
    · exact absurd rfl (hsound detail)
  admission e he r ha := by
    obtain ⟨pre,p,φ,φ',ch,ho,hp,hm,hH,hsound⟩ := perform_event hc he ha
    cases hm with
    | declined hask hd =>
      obtain ⟨row,now,plugin,context,request,rfl,rfl,hcall⟩ := hask.deciding
      obtain ⟨k,hk,hs,-⟩ := ho.owned _ _ _ _ _ hp rfl
      have hoperation := Call.operation_of_commandKey hcall ((ho.acting _).presents _ _ _ hp rfl).commandKey
      rw [Held.mark_key hoperation]
      refine ⟨⟨k,hk,hs⟩,?_⟩
      generalize e.after = d' at hH
      cases ch with
      | inl c => simp [Store.serial] at hH
      | inr cs =>
        cases (Transaction.outcome hH : AdmitOutcome _ _ _ _ _) with
        | refused h =>
          cases h with
          | account h => exact .inl h
          | credential h => exact .inr h
          | command h =>
            rw [Held.mark_key hoperation] at h
            exact absurd hs (h k hk)
  reply e he r detail ha hf := by
    obtain ⟨pre,p,φ,ho,hp,hsound,hl⟩ := reply_event hc he ha
    have hkey : ∀ held, φ.presented = some held → e.call.commandKey = some held.key :=
      fun held hh => ((ho.acting _).presents _ _ held hp hh).commandKey
    exact absurd rfl (hsound.benign hkey hl hf detail)
  failCheck e he key code a ha row hrow hcomp now := by
    obtain ⟨pre,p,φ,φ',ch,ho,hp,hm,hH,hsound⟩ := perform_event hc he ha
    refine Command.fail_check (Table.check_of_find hrow) hcomp ?_ now
    cases hm with
    | lost hp =>
      cases hp with
      | record hh hr hK he => exact Kind.code_length hK he
    | recorded hh hr hK he => exact Kind.code_length hK he
    | unrecorded => exact absurd rfl (hsound _)
  succeedCheck k row hrow hcomp now :=
    ⟨Command.issue_check (Table.check_of_find hrow) hcomp now,
      fun _ _ hn hx => Command.succeed_check (Table.check_of_find hrow) hcomp hn hx now⟩

end Runs
/-- An instance under the sample configuration. -/
noncomputable def sampleActive : ActiveServiceAccount .plain where
  config := sampleConfig
  pepper := List.replicate 32 1
  receiptCipher := ⟨[7]⟩
  dummyVerifier := sampleVerifier
  valid := rfl
  longPepper := Nat.le_refl 32
  dummy := ⟨[],rfl⟩

noncomputable def samplePlugin : ServiceAccountPlugin .plain := ⟨some sampleActive⟩

/-- Call `0` creates an account: up to its claim. -/
noncomputable def sampleClaim : List (LockedLabel (Call .plain) Choice Choice) :=
  [.start (.create samplePlugin ⟨some "console"⟩ ⟨"k1","robot","org"⟩),.pool 0 {},
    .pool 0 { assertion := some ⟨"user","alice"⟩ },.pool 0 { membership := .ok ⟨true⟩ },
    .pool 0 { permission := .ok ⟨true⟩ },.pool 0 {},.pool 0 {}]

set_option maxRecDepth 4000 in
noncomputable def sampleClaimRun : Run (Call .plain) Reply :=
  ((LockedConfig.init Database.empty).run (store .plain) Call.main sampleClaim).get (by decide +kernel)

lemma sampleClaimRun_reachable :
    LockedConfig.Reachable (store .plain) Call.main Database.empty sampleClaimRun :=
  LockedConfig.leads_of_run (Option.some_get _).symm

set_option maxRecDepth 4000 in
/-- In the run of a creation that has claimed its command the row is there and can be completed. -/
theorem claimant_completes_sample : ∃ row,
    sampleClaimRun.state.commands.find ⟨"console","create","k1"⟩ = some row ∧ row.status.completable = true := by
  have hhead : sampleClaimRun.trace.head?.any (inserts ⟨"console","create","k1"⟩) = true := by decide +kernel
  cases htr : sampleClaimRun.trace with
  | nil => simp [htr] at hhead
  | cons x pre =>
    have hx : inserts ⟨"console","create","k1"⟩ x = true := by simpa [htr] using hhead
    obtain ⟨row,hrow,hcomp,-⟩ := (claimant_completes sampleClaimRun_reachable).kept _ [] x pre htr hx (by simp)
    exact ⟨row,hrow,hcomp⟩

end LensoServiceAccount
