import LensoServiceAccount.Rows

/-! Who owns the row of a command: the call that inserted it, until it has completed it. -/

namespace LensoServiceAccount

/-- The step inserts the row of the command. -/
def inserts {κ ρ : Type} (k : CommandKey) (e : Step κ ρ) : Bool :=
  (e.before.commands.find k).isNone && (e.after.commands.find k).isSome

/-- The step does nothing but prune. -/
structure Idle {κ ρ : Type} (e : Step κ ρ) : Prop where
  accounts : e.after.accounts = e.before.accounts
  credentials : e.after.credentials = e.before.credentials
  limits : e.after.limits = e.before.limits
  inserts : ∀ k, inserts k e = false

variable {E : Environment}

/-- A step of a call. -/
abbrev CallStep (E : Environment) := Step (Call E) Reply

/-- The call that inserted the row that is there. -/
def claimant (k : CommandKey) (tr : List (CallStep E)) : Option ℕ := (tr.find? (inserts k)).map Event.tid

/-- The actor that an operation brings to light. -/
def projected : (o : Effect) → Effect.Ans o → Option (Option String)
  | .pool (.projectContext _ _ _), a => some (a.bind userActor)
  | _, _ => none

/-- The actor of a call, as it is known so far. -/
def actorOf (i : ℕ) : List (CallStep E) → Option String
  | [] => none
  | e :: tr =>
    if e.tid = i then
      match e.action with
      | .perform o a => (projected o a).getD (actorOf i tr)
      | _ => actorOf i tr
    else actorOf i tr

namespace Phase

/-- What the call has presented to the commands. -/
def presented : Phase E → Option (Held E)
  | contested h | answered h _ | claimed h | timed h _ | loaded h _ _ | verified h _ | alive h _
  | deciding h _ _ | declined h | admitted h _ | dated h _ _ | refused h | issued h _ _ _
  | settled h _ => some h
  | _ => none

/-- The call has inserted no command. -/
def unclaimed : Phase E → Bool
  | opening _ | contested _ | answered _ _ | seen _ | inspected _ => true
  | _ => false

end Phase

section Moves
variable {call : Call E} {φ φ' : Phase E} {o : Effect} {a : Effect.Ans o}

lemma Phase.presented_of_holds {h : Held E} {s : CommandStatus} (hh : φ.holds = some (h, s)) :
    φ.presented = some h := by
  cases φ <;> simp only [holds,Option.some.injEq,Prod.mk.injEq,reduceCtorEq] at hh <;> rw [← hh.1] <;> rfl

lemma Move.projected (hm : Move call φ o a φ') {x : Option String} (hx : projected o a = some x) :
    φ' = .opening x := by
  cases hm <;> simp only [LensoServiceAccount.projected,Option.some.injEq,reduceCtorEq] at hx
  rw [hx]

lemma Move.opening {actor : Option String} (hm : Move call φ o a (.opening actor)) :
    ∃ actor', φ = .opening actor' ∧ (LensoServiceAccount.projected o a).getD actor' = actor := by
  cases hm with
  | random hφ => cases hφ
  | _ => exact ⟨_,rfl,rfl⟩

lemma Move.presented {h : Held E} (hm : Move call φ o a φ') (hh : φ'.presented = some h) :
    φ.presented = some h ∨ ∃ actor, φ = .opening actor ∧ call.Presents actor h := by
  cases hm with
  | inserted hp | found hp hn =>
    cases hh
    exact .inr ⟨_,rfl,hp⟩
  | recorded hφ hr hK he =>
    cases hh
    exact .inl (Phase.presented_of_holds hφ)
  | declined ha hd =>
    cases hh
    exact .inl (Phase.presented_of_holds ha.holds.choose_spec)
  | lost | unrecorded | failed | statusFailed | ambiguous => cases hh
  | _ => exact .inl hh

lemma Move.unclaimed (hm : Move call φ o a φ') (h : φ'.unclaimed = true) :
    φ.unclaimed = true ∧ ∃ o', o = .pool o' := by
  cases hm <;> first | exact ⟨rfl,_,rfl⟩ | exact ⟨h,_,rfl⟩ | cases h

/-- A step inserts a row only if its call then holds the command or breaks. -/
lemma RowStep.inserts {k : CommandKey} {row row' : Option Command} (h : RowStep call k φ φ' row row')
    (hi : (row.isNone && row'.isSome) = true) : φ'.unclaimed = false := by
  cases h with
  | same => cases row <;> cases hi
  | inserted hp hk hφ => obtain rfl | ⟨f,rfl⟩ := hφ <;> rfl
  | _ => cases hi

end Moves

/-- The calls that are running, each with its phase. -/
abbrev CallPhases (E : Environment) := Protocol.Phases (Call E) (Phase E)

/-- What a running call has presented, it has presented for the actor that it acts for. -/
structure Acts (actor : Option String) (x : Option (Call E × Phase E)) : Prop where
  opening : ∀ call actor', x = some (call, .opening actor') → actor' = actor
  presents : ∀ call φ h, x = some (call, φ) → φ.presented = some h → call.Presents actor h

def Acting (tr : List (CallStep E)) (p : CallPhases E) : Prop := ∀ i, Acts (actorOf i tr) (p i)

/-- The calls that have inserted no command have done nothing but prune. -/
def Waiting (tr : List (CallStep E)) (p : CallPhases E) : Prop :=
  ∀ i call φ, p i = some (call, φ) → φ.unclaimed = true → ∀ e ∈ tr, e.tid = i → Idle e

/-- The commands that calls hold are there, and these calls have inserted them. -/
def Owned (tr : List (CallStep E)) (d : Database) (p : CallPhases E) : Prop :=
  ∀ i call φ h s, p i = some (call, φ) → φ.holds = some (h, s) → ∃ c, d.commands.find h.key = some c ∧
    c.status = s ∧ c.intentHash = h.intentHash ∧ claimant h.key tr = some i

/-- The row of a completed command keeps the reply. -/
inductive Recorded (call : Call E) (h : Held E) (c : Command) : Reply → Prop
  | error {K : Kind} {code : String} {error : K.Error} (hK : call.kind = some K)
      (hs : c.status = .completedError) (hc : c.errorCode = some code) (he : K.errorOfCode code = .ok error) :
      Recorded call h c (K.reply (.ok (.error error)))
  | success {K : Kind} {r : K.Response} {nonce ciphertext : Bytes} (hK : call.kind = some K)
      (hs : c.status = .completedSuccess) (hn : c.responseNonce = some nonce)
      (hc : c.responseCiphertext = some ciphertext)
      (hr : h.Sealed (Receipt.toJson (K.kept r)) nonce ciphertext) : Recorded call h c (K.reply (.ok (.ok r)))

/-- What a row says of the call that inserted it. -/
inductive Authored (call : Call E) (h : Held E) (c : Command) : Prop
  | reserved (hs : c.status = .reserved)
  | issuing (hs : c.status = .issuing)
  | completed {reply : Reply} (hr : Recorded call h c reply)

/-- Every row has been inserted by a call, and says what that call has come to. -/
structure Accounted (tr : List (CallStep E)) (d : Database) (p : CallPhases E) : Prop where
  row : ∀ k c, d.commands.find k = some c → ∃ e h, tr.find? (inserts k) = some e ∧
    e.call.Presents (actorOf e.tid tr) h ∧ h.key = k ∧ c.intentHash = h.intentHash ∧ Authored e.call h c
  settled : ∀ i call h reply, p i = some (call, .settled h reply) → ∀ c, d.commands.find h.key = some c →
    claimant h.key tr = some i → Recorded call h c reply
  replied : ∀ e ∈ tr, ∀ reply, e.action = .reply reply → reply.failure = none → ∀ k c,
    d.commands.find k = some c → claimant k tr = some e.tid →
    ∃ h, h.key = k ∧ e.call.Presents (actorOf e.tid tr) h ∧ Recorded e.call h c reply

/-- The invariant of the commands. -/
structure Ownership (tr : List (CallStep E)) (d : Database) (p : CallPhases E) : Prop where
  orderly : Protocol.Orderly tr p
  acting : Acting tr p
  waiting : Waiting tr p
  owned : Owned tr d p
  accounted : Accounted tr d p

section Steps
variable {tr : List (CallStep E)} {d : Database} {p p' : CallPhases E} {e : CallStep E}

lemma actorOf_cons_of_ne {i : ℕ} (h : e.tid ≠ i) : actorOf i (e :: tr) = actorOf i tr := by
  simp only [actorOf,if_neg h]

lemma actorOf_perform {i : ℕ} {call : Call E} {o : Effect} {a : Effect.Ans o} {d d' : Database} :
    actorOf i (⟨i,call,.perform o a,d,d'⟩ :: tr) = (projected o a).getD (actorOf i tr) := by
  simp only [actorOf,if_true]

lemma actorOf_eq_none {i : ℕ} (h : ∀ e ∈ tr, e.tid ≠ i) : actorOf i tr = none := by
  induction tr with
  | nil => rfl
  | cons e tr ih =>
    rw [actorOf_cons_of_ne (h e (by simp))]
    exact ih fun x hx => h x (List.mem_cons_of_mem e hx)

lemma claimant_cons (k : CommandKey) (e : CallStep E) (tr : List (CallStep E)) :
    claimant k (e :: tr) = if inserts k e = true then some e.tid else claimant k tr := by
  unfold claimant
  split_ifs with h
  · rw [List.find?_cons_of_pos h]
    rfl
  · rw [List.find?_cons_of_neg h]

lemma Acts.none (actor : Option String) : Acts actor (none : Option (Call E × Phase E)) :=
  ⟨fun call actor' h => (by cases h),fun call φ h hx => (by cases hx)⟩

theorem Acting.step (h : Acting tr p) (hs : (protocol E).Step (store E).serial tr d p e p') :
    Acting (e :: tr) p' := by
  intro j
  by_cases hj : j = e.tid
  · subst hj
    cases hs with
    | reply i call φ r hp hl => simpa using Acts.none _
    | stop i call φ hp => simpa using Acts.none _
    | start i call hp hi =>
      have hnone : actorOf i (⟨i,call,.start,d,d⟩ :: tr) = none := by
        simp only [actorOf,if_true]
        exact actorOf_eq_none hi
      simp only [Function.update_self]
      rw [hnone]
      refine ⟨fun call' actor hx => ?_,fun call' φ held hx hh => ?_⟩
      · cases hx
        rfl
      · cases hx
        cases hh
    | perform i call φ φ' o choice a s' hp hm hH =>
      have hi := h i
      rw [hp] at hi
      simp only [Function.update_self]
      rw [actorOf_perform]
      refine ⟨fun call' actor hx => ?_,fun call' ψ held hx hh => ?_⟩
      · cases hx
        obtain ⟨actor',rfl,ha⟩ := hm.opening
        rw [← hi.opening call actor' rfl]
        exact ha.symm
      · cases hx
        have hnone : projected o a = none := by
          cases hx : projected o a with
          | none => rfl
          | some x =>
            rw [hm.projected hx] at hh
            cases hh
        rw [hnone,Option.getD_none]
        obtain hφ | ⟨actor,rfl,hp⟩ := hm.presented hh
        · exact hi.presents call φ held rfl hφ
        · rwa [← hi.opening call actor rfl]
  · rw [actorOf_cons_of_ne (Ne.symm hj),hs.other hj]
    exact h j

/-- What the step of a running call does to a command. -/
lemma Acting.rowStep (h : Acting tr p) {i : ℕ} {call : Call E} {φ φ' : Phase E} {o : Effect}
    {a : Effect.Ans o} {ch : Choice ⊕ List Choice} {d' : Database} (hp : p i = some (call, φ))
    (hm : Move call φ o a φ') (hH : (store E).serial o ch d = some (a, d')) (k : CommandKey) :
    RowStep call k φ φ' (d.commands.find k) (d'.commands.find k) :=
  rowStep_of_move hm (fun held _ hh => ((h i).presents call φ held hp (Phase.presented_of_holds hh)).commandKey) hH k

lemma idle_of_same {e : CallStep E} (h : e.after = e.before) : Idle e :=
  ⟨by rw [h],by rw [h],by rw [h],fun k => (by rw [inserts,h]; cases e.before.commands.find k <;> rfl)⟩

theorem Waiting.step (h : Waiting tr p) (ha : Acting tr p)
    (hs : (protocol E).Step (store E).serial tr d p e p') : Waiting (e :: tr) p' := by
  intro j call φ hj hφ x hx hxj
  by_cases hje : j = e.tid
  · subst hje
    cases hs with
    | reply i call φ r hp hl => simp at hj
    | stop i call φ hp => simp at hj
    | start i call hp hi =>
      rcases List.mem_cons.mp hx with rfl | hx
      · exact idle_of_same rfl
      · exact absurd hxj (hi x hx)
    | perform i call φ₀ φ' o choice a s' hp hm hH =>
      simp only [Function.update_self,Option.some.injEq,Prod.mk.injEq] at hj
      obtain ⟨rfl,rfl⟩ := hj
      obtain ⟨hφ₀,o,rfl⟩ := hm.unclaimed hφ
      rcases List.mem_cons.mp hx with rfl | hx
      · obtain ⟨haccounts,hcredentials,hlimits⟩ := pool_tables hH
        refine ⟨haccounts,hcredentials,hlimits,fun k => ?_⟩
        rw [← Bool.not_eq_true]
        intro hi
        exact absurd (hφ.symm.trans ((ha.rowStep hp hm hH k).inserts hi)) (by simp)
      · exact h i call φ₀ hp hφ₀ x hx hxj
  · rw [hs.other hje] at hj
    rcases List.mem_cons.mp hx with rfl | hx
    · exact absurd hxj.symm hje
    · exact h j call φ hj hφ x hx hxj

lemma Phase.completable_of_holds {φ : Phase E} {h : Held E} {s : CommandStatus} (hh : φ.holds = some (h, s)) :
    s.completable = true := by
  cases φ <;> simp only [holds,Option.some.injEq,Prod.mk.injEq,reduceCtorEq] at hh <;> rw [← hh.2] <;> rfl

/-- A row that a running call has inserted and holds is changed by no other call. -/
lemma RowStep.foreign {call : Call E} {φ φ' : Phase E} {k : CommandKey} {c : Command} {row' : Option Command}
    (h : RowStep call k φ φ' (some c) row') (hcheck : Row.check c = true) (hc : c.status.completable = true)
    (hφ : ∀ held s, φ.holds = some (held, s) → held.key ≠ k) : row' = some c := by
  cases h with
  | same => rfl
  | deleted hd hφ =>
    rw [(Command.check_shape hcheck hc).2.2.2] at hd
    cases hd
  | failed hh hr hk => exact absurd hk (hφ _ _ hh)
  | marked hcall hk => exact absurd hk (hφ _ _ rfl)
  | succeeded ha hk =>
    obtain ⟨s,hh⟩ := ha.holds
    exact absurd hk (hφ _ _ hh)

theorem Owned.step (h : Owned tr d p) (ha : Acting tr p)
    (hs : (protocol E).Step (store E).serial tr d p e p') : Owned (e :: tr) e.after p' := by
  -- a step that changes nothing and gives nobody a command to hold
  have hquiet : e.after = d → e.before = d → (∀ call φ, p' e.tid = some (call,φ) → φ.holds = none) →
      Owned (e :: tr) e.after p' := by
    intro hafter hbefore hnone j call φ held s hj hh
    by_cases hje : j = e.tid
    · subst hje
      rw [hnone call φ hj] at hh
      cases hh
    · rw [hs.other hje] at hj
      have hi : inserts held.key e = false := (idle_of_same (hafter.trans hbefore.symm)).inserts _
      rw [claimant_cons,hi,hafter]
      exact h j call φ held s hj hh
  cases hs with
  | reply i call φ r hp hl => exact hquiet rfl rfl (by simp)
  | stop i call φ hp => exact hquiet rfl rfl (by simp)
  | start i call hp hi =>
    refine hquiet rfl rfl fun call' φ hφ => ?_
    simp only [Function.update_self,Option.some.injEq,Prod.mk.injEq] at hφ
    rw [← hφ.2]
    rfl
  | perform i call φ φ' o choice a s' hp hm hH =>
    intro j call' ψ held s hj hh
    have hrow := ha.rowStep hp hm hH held.key
    rw [claimant_cons]
    by_cases hji : j = i
    · subst hji
      simp only [Function.update_self,Option.some.injEq,Prod.mk.injEq] at hj
      obtain ⟨rfl,rfl⟩ := hj
      unfold inserts
      dsimp only
      generalize hb : d.commands.find held.key = row,hx : s'.commands.find held.key = row' at hrow ⊢
      cases hrow with
      | same hkeep hs =>
        obtain ⟨c,hc,hstatus,hintent,hclaim⟩ := h j call φ held s hp (hkeep held s hh rfl)
        obtain rfl := hb.symm.trans hc
        exact ⟨c,rfl,hstatus,hintent,hclaim⟩
      | inserted hpr hk hφ =>
        obtain rfl | ⟨f,rfl⟩ := hφ <;> cases hh
        exact ⟨_,rfl,rfl,rfl,rfl⟩
      | deleted hd hφ => obtain rfl | ⟨f,rfl⟩ := hφ <;> cases hh
      | failed hφ hr hk hcomp hK he hφ' => obtain rfl | ⟨f,rfl⟩ := hφ' <;> cases hh
      | marked hcall hk hreserved hφ =>
        obtain ⟨admitted,rfl⟩ | ⟨f,rfl⟩ := hφ <;> cases hh
        obtain ⟨c',hc',-,hintent,hclaim⟩ := h j call _ held .reserved hp rfl
        obtain rfl := Option.some.inj (hb.symm.trans hc')
        exact ⟨_,rfl,rfl,hintent,hclaim⟩
      | succeeded hask hk hcomp hs hφ => obtain rfl | ⟨f,rfl⟩ := hφ <;> cases hh
    · rw [Function.update_of_ne hji] at hj
      obtain ⟨c,hc,hstatus,hintent,hclaim⟩ := h j call' ψ held s hj hh
      rw [hc] at hrow
      have hsame : s'.commands.find held.key = some c := by
        refine hrow.foreign (Table.check_of_find hc) (by rw [hstatus]; exact Phase.completable_of_holds hh) ?_
        intro held' t hh' hk
        obtain ⟨-,-,-,-,hclaim'⟩ := h i call φ held' t hp hh'
        rw [hk,hclaim] at hclaim'
        exact hji (Option.some.inj hclaim')
      refine ⟨c,hsame,hstatus,hintent,?_⟩
      simpa [inserts,hc] using hclaim

/-- The actor of a call that has inserted a command is settled. -/
lemma actorOf_stable (hw : Waiting tr p) (hs : (protocol E).Step (store E).serial tr d p e p') {k : CommandKey}
    {x : CallStep E} (hx : x ∈ tr) (hi : inserts k x = true) : actorOf x.tid (e :: tr) = actorOf x.tid tr := by
  by_cases he : e.tid = x.tid
  · cases hs with
    | start i call hp hn => exact absurd he.symm (hn x hx)
    | reply i call φ r hp hl => simp only [actorOf,ite_self]
    | stop i call φ hp => simp only [actorOf,ite_self]
    | perform i call φ φ' o choice a s' hp hm hH =>
      obtain rfl : i = x.tid := he
      rw [actorOf_perform]
      cases hpr : projected o a with
      | none => rfl
      | some actor =>
        obtain rfl := hm.projected hpr
        obtain ⟨actor',rfl,-⟩ := hm.opening
        exact absurd (((hw x.tid call _ hp rfl x hx rfl).inserts k).symm.trans hi) (by simp)
  · exact actorOf_cons_of_ne he

/-- What is known of a command that a call holds. -/
lemma Owned.claim (h : Owned tr d p) (ho : Protocol.Orderly tr p) (ha : Acting tr p) {i : ℕ} {call : Call E}
    {φ : Phase E} {held : Held E} {s : CommandStatus} (hp : p i = some (call, φ))
    (hh : φ.holds = some (held, s)) : ∃ c x, d.commands.find held.key = some c ∧ c.status = s ∧
      c.intentHash = held.intentHash ∧ tr.find? (inserts held.key) = some x ∧ x.tid = i ∧ x.call = call ∧
      call.Presents (actorOf i tr) held := by
  obtain ⟨c,hc,hstatus,hintent,hclaim⟩ := h i call φ held s hp hh
  obtain ⟨x,hx,rfl⟩ := Option.map_eq_some_iff.mp hclaim
  exact ⟨c,x,hc,hstatus,hintent,hx,rfl,ho.call _ call φ hp x (List.mem_of_find?_eq_some hx) rfl,
    (ha x.tid).presents call φ held hp (Phase.presented_of_holds hh)⟩

/-- A row that is there. -/
def Accounted.Row (tr : List (CallStep E)) (k : CommandKey) (c : Command) : Prop :=
  ∃ e h, tr.find? (inserts k) = some e ∧ e.call.Presents (actorOf e.tid tr) h ∧ h.key = k ∧
    c.intentHash = h.intentHash ∧ Authored e.call h c

lemma Accounted.row_step (h : Ownership tr d p) (hs : (protocol E).Step (store E).serial tr d p e p')
    {k : CommandKey} {c : Command} (hc : e.after.commands.find k = some c) : Accounted.Row (e :: tr) k c := by
  -- a row that was there before, in whatever state it is now
  have hold : ∀ {x : CallStep E} {held : Held E}, tr.find? (inserts k) = some x → inserts k e = false →
      x.call.Presents (actorOf x.tid tr) held → held.key = k → c.intentHash = held.intentHash →
      Authored x.call held c → Accounted.Row (e :: tr) k c := by
    intro x held hx hi hp hk hintent hau
    refine ⟨x,held,by rw [List.find?_cons_of_neg (by simp [hi])]; exact hx,?_,hk,hintent,hau⟩
    rwa [actorOf_stable h.waiting hs (List.mem_of_find?_eq_some hx) (List.find?_some hx)]
  have hsame : d.commands.find k = some c → inserts k e = false → Accounted.Row (e :: tr) k c := by
    intro hd hi
    obtain ⟨x,held,hx,hp,hk,hintent,hau⟩ := h.accounted.row k c hd
    exact hold hx hi hp hk hintent hau
  cases hs with
  | start i call hp hi => exact hsame hc ((idle_of_same rfl).inserts k)
  | reply i call φ r hp hl => exact hsame hc ((idle_of_same rfl).inserts k)
  | stop i call φ hp => exact hsame hc ((idle_of_same rfl).inserts k)
  | perform i call φ φ' o choice a s' hp hm hH =>
    have hrow := h.acting.rowStep hp hm hH k
    have hc' : s'.commands.find k = some c := hc
    have hins : (d.commands.find k).isNone = false → inserts k (⟨i,call,.perform o a,d,s'⟩ : CallStep E) = false := by
      intro hn
      simp [inserts,hn]
    rw [hc'] at hrow
    generalize hb : d.commands.find k = row at hrow hins
    -- the row of a command that the moving call holds
    have hown : ∀ {held : Held E} {s : CommandStatus} {x : Command}, φ.holds = some (held,s) → held.key = k →
        row = some x → c.intentHash = x.intentHash → Authored call held c →
        Accounted.Row (⟨i,call,.perform o a,d,s'⟩ :: tr) k c := by
      intro held s x hh hk hbefore hintent hau
      obtain ⟨x',y,hx',-,hintent',hy,hi,hcall,hpr⟩ := h.owned.claim h.orderly h.acting hp hh
      rw [hk,hb,hbefore] at hx'
      obtain rfl := Option.some.inj hx'
      subst hi hcall
      exact hold (hk ▸ hy) (hins (by simp [hbefore])) hpr hk (hintent.trans hintent') hau
    cases hrow with
    | same => exact hsame hb (hins rfl)
    | inserted hpr hk hφ =>
      have hprojected : projected o a = none := by
        cases hx : projected o a with
        | none => rfl
        | some actor =>
          obtain rfl | ⟨f,rfl⟩ := hφ <;> cases hm.projected hx
      have hactor := (h.acting i).opening call _ hp
      refine ⟨_,_,List.find?_cons_of_pos (by simp [inserts,hb,hc']),?_,hk,rfl,.reserved rfl⟩
      rw [actorOf_perform,hprojected,Option.getD_none,← hactor]
      exact hpr
    | failed hh hr hk hcomp hK he hφ' => exact hown hh hk rfl rfl (.completed (.error hK rfl rfl he))
    | marked hcall hk hreserved hφ => exact hown rfl hk rfl rfl (.issuing rfl)
    | succeeded hask hk hcomp hs hφ =>
      obtain ⟨s,hh⟩ := hask.holds
      obtain ⟨K,r,hK,-,hsealed⟩ := hs.sealed
      exact hown hh hk rfl rfl (.completed (.success hK rfl rfl rfl hsealed))

/-- A row is changed by its claimant only, as long as it is there. -/
lemma Ownership.row_stays (h : Ownership tr d p) (hs : (protocol E).Step (store E).serial tr d p e p')
    {k : CommandKey} {i : ℕ} (hi : i ≠ e.tid) {c : Command} (hc : e.after.commands.find k = some c) (hclaim : claimant k (e :: tr) = some i) :
    d.commands.find k = some c ∧ claimant k tr = some i := by
  rw [claimant_cons] at hclaim
  split_ifs at hclaim with hins
  · exact absurd (Option.some.inj hclaim).symm hi
  refine ⟨?_,hclaim⟩
  cases hs with
  | start j call hp hj => exact hc
  | reply j call φ r hp hl => exact hc
  | stop j call φ hp => exact hc
  | perform j call φ φ' o choice a s' hp hm hH =>
    have hrow := h.acting.rowStep hp hm hH k
    have hc' : s'.commands.find k = some c := hc
    rw [hc'] at hrow
    have hmine : ∀ held s, φ.holds = some (held,s) → held.key = k → False := by
      intro held s hh hk
      obtain ⟨x,y,-,-,-,hy,hyj,-⟩ := h.owned.claim h.orderly h.acting hp hh
      have hj : claimant k tr = some j := by rw [← hk,claimant,hy,Option.map_some,hyj]
      obtain rfl := Option.some.inj (hj.symm.trans hclaim)
      exact hi rfl
    generalize hb : d.commands.find k = row at hrow
    cases hrow with
    | same => rfl
    | inserted hpr hk hφ => exact absurd (by simp [inserts,hb,hc']) hins
    | failed hh hr hk => exact (hmine _ _ hh hk).elim
    | marked hcall hk => exact (hmine _ _ rfl hk).elim
    | succeeded hask hk => exact (hmine _ _ hask.holds.choose_spec hk).elim

lemma Accounted.settled_step (h : Ownership tr d p) (hs : (protocol E).Step (store E).serial tr d p e p')
    {i : ℕ} {call : Call E} {held : Held E} {reply : Reply} (hp' : p' i = some (call, .settled held reply))
    {c : Command} (hc : e.after.commands.find held.key = some c)
    (hclaim : claimant held.key (e :: tr) = some i) : Recorded call held c reply := by
  by_cases hi : i = e.tid
  · subst hi
    cases hs with
    | start i call hp hi => simp [protocol] at hp'
    | reply i call φ r hp hl => simp at hp'
    | stop i call φ hp => simp at hp'
    | perform i call₀ φ φ' o choice a s' hp hm hH =>
      simp only [Function.update_self,Option.some.injEq,Prod.mk.injEq] at hp'
      obtain ⟨rfl,rfl⟩ := hp'
      have hrow := h.acting.rowStep hp hm hH held.key
      have hc' : s'.commands.find held.key = some c := hc
      rw [hc'] at hrow
      generalize d.commands.find held.key = row at hrow
      cases hrow with
      | same hkeep hs => exact absurd rfl (hs held reply rfl)
      | inserted hpr hk hφ => obtain hφ | ⟨f,hφ⟩ := hφ <;> cases hφ
      | failed hh hr hk hcomp hK he hφ =>
        obtain hφ | ⟨f,hφ⟩ := hφ <;> cases hφ
        exact .error hK rfl rfl he
      | marked hcall hk hreserved hφ => obtain ⟨admitted,hφ⟩ | ⟨f,hφ⟩ := hφ <;> cases hφ
      | succeeded hask hk hcomp hs hφ =>
        obtain hφ | ⟨f,hφ⟩ := hφ <;> cases hφ
        obtain ⟨K,r,hK,rfl,hsealed⟩ := hs.sealed
        exact .success hK rfl rfl rfl hsealed
  · rw [hs.other hi] at hp'
    obtain ⟨hd,hclaim'⟩ := h.row_stays hs hi hc hclaim
    exact h.accounted.settled i call held reply hp' c hd hclaim'

lemma Accounted.replied_step (h : Ownership tr d p) (hs : (protocol E).Step (store E).serial tr d p e p')
    {x : CallStep E} (hx : x ∈ e :: tr) {reply : Reply} (hr : x.action = .reply reply)
    (hf : reply.failure = none) {k : CommandKey} {c : Command} (hc : e.after.commands.find k = some c)
    (hclaim : claimant k (e :: tr) = some x.tid) :
    ∃ held, held.key = k ∧ x.call.Presents (actorOf x.tid (e :: tr)) held ∧ Recorded x.call held c reply := by
  rcases List.mem_cons.mp hx with rfl | hx
  · cases hs with
    | start i call hp hi => cases hr
    | perform i call φ φ' o choice a s' hp hm hH => cases hr
    | stop i call φ hp => cases hr
    | reply i call φ r hp hl =>
      cases hr
      rw [claimant_cons,(idle_of_same rfl).inserts k] at hclaim
      obtain ⟨y,hy,hyi⟩ := Option.map_eq_some_iff.mp hclaim
      have hmem := List.mem_of_find?_eq_some hy
      have hactor : actorOf i (⟨i,call,.reply reply,d,d⟩ :: tr) = actorOf i tr := by simp only [actorOf,ite_self]
      obtain ⟨z,held',hz,hpr',hkey,-⟩ := h.accounted.row k c hc
      obtain rfl := Option.some.inj (hy.symm.trans hz)
      have hcall : y.call = call := h.orderly.call i call φ hp y hmem hyi
      have hclaimed : φ.unclaimed = false := by
        rw [← Bool.not_eq_true]
        intro hu
        exact absurd (((h.waiting i call φ hp hu y hmem hyi).inserts k).symm.trans (List.find?_some hy)) (by simp)
      have hlast : Last call reply φ := hl
      have hno : ∀ f, reply.failure ≠ some f := fun f hf' => absurd (hf.symm.trans hf') (by simp)
      cases φ with
      | settled held reply' =>
        obtain rfl : reply = reply' := hlast
        have hpr := (h.acting i).presents call _ held hp rfl
        have hk : held.key = k := by
          have hkey' := hpr'.commandKey
          rw [hcall,hpr.commandKey,hkey] at hkey'
          exact Option.some.inj hkey'
        subst hk
        exact ⟨held,rfl,by rw [hactor]; exact hpr,h.accounted.settled i call held reply hp c hc hclaim⟩
      | broken f => exact absurd hlast (hno f)
      | opening | contested | answered | seen | inspected => cases hclaimed
      | _ =>
        obtain ⟨f,hf',-⟩ := hlast
        exact absurd hf' (hno f)
  · have hne : x.tid ≠ e.tid := h.orderly.step_ne hs hx (by rw [hr]; rfl)
    obtain ⟨hd,hclaim'⟩ := h.row_stays hs hne hc hclaim
    rw [actorOf_cons_of_ne (Ne.symm hne)]
    exact h.accounted.replied x hx reply hr hf k c hd hclaim'

/-- The commands of every run are owned. -/
theorem ownership_invariant (E : Environment) :
    (protocol E).Invariant (store E).serial Database.empty Ownership where
  init := {
    orderly := (Protocol.orderly_invariant (protocol E) (store E).serial Database.empty).init
    acting := fun _ => .none _
    waiting := fun _ _ _ h => by simp at h
    owned := fun _ _ _ _ _ h => by simp at h
    accounted := ⟨fun _ _ h => by simp [Database.empty] at h,fun _ _ _ _ h => by simp at h,
      fun _ h => by simp at h⟩ }
  step h hs := {
    orderly := (Protocol.orderly_invariant (protocol E) (store E).serial Database.empty).step h.orderly hs
    acting := h.acting.step hs
    waiting := h.waiting.step h.acting hs
    owned := h.owned.step h.acting hs
    accounted := ⟨fun _ _ hc => Accounted.row_step h hs hc,
      fun _ _ _ _ hp' _ hc hclaim => Accounted.settled_step h hs hp' hc hclaim,
      fun _ hx _ hr hf _ _ hc hclaim => Accounted.replied_step h hs hx hr hf hc hclaim⟩ }

end Steps
end LensoServiceAccount
