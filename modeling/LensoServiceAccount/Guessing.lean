import LensoServiceAccount.RateLimit

/-! Guessing secrets: every verification of a secret has taken a slot of its own, so that the rate limit
bounds the verifications of a caller. -/

namespace LensoServiceAccount
variable {E : Environment}

/-- Before a call is admitted, when it has been, and when it will not verify a secret any more. -/
def Phase.stage : Phase E → ℕ
  | opening _ | contested _ | claimed _ | timed _ _ => 0
  | loaded _ _ _ => 1
  | _ => 2

def Effect.verifies : Effect → Bool
  | .pool (.verifyPassword _ _) => true
  | _ => false

def Effect.slots : Effect → Bool
  | .transact (.reserveRateSlot _) => true
  | _ => false

/-- The call has been admitted. -/
def grants : (o : Effect) → Effect.Ans o → Bool
  | .transact (.reserveRateSlot _), .ok true => true
  | _, _ => false

/-- What a move does to the stage of a call. -/
structure Stages (o : Effect) (granted : Bool) (n n' : ℕ) : Prop where
  mono : n ≤ n'
  verifies : o.verifies = true → n = 1 ∧ n' = 2
  slots : o.slots = true → n = 0 ∧ n' ≠ 0
  grant : granted = true ↔ n = 0 ∧ n' = 1
  slot : granted = true → o.slots = true

lemma Stages.stay {o : Effect} {n n' : ℕ} (hn : n' = n ∨ n' = 2) (hv : o.verifies = false) (hs : o.slots = false)
    (hle : n ≤ 2) : Stages o false n n' where
  mono := by omega
  verifies h := absurd (h.symm.trans hv) (by simp)
  slots h := absurd (h.symm.trans hs) (by simp)
  grant := by
    simp only [Bool.false_eq_true,false_iff]
    omega
  slot h := absurd h (by simp)

lemma Phase.stage_le (φ : Phase E) : φ.stage ≤ 2 := by
  cases φ <;> simp [stage]

lemma Stages.verify {o : Effect} (hs : o.slots = false) : Stages o false 1 2 where
  mono := by omega
  verifies _ := ⟨rfl,rfl⟩
  slots h := absurd (h.symm.trans hs) (by simp)
  grant := by simp
  slot h := absurd h (by simp)

lemma Stages.admission (granted : Bool) {o : Effect} (hv : o.verifies = false) (hs : o.slots = true) :
    Stages o granted 0 (if granted then 1 else 2) where
  mono := Nat.zero_le _
  verifies h := absurd (h.symm.trans hv) (by simp)
  slots _ := by cases granted <;> simp
  grant := by cases granted <;> simp
  slot _ := hs

lemma grants_of_declines {t : Transaction} {res : t.Result} (h : t.declines res) : grants (.transact t) res = false := by
  cases t with
  | reserveRateSlot r => obtain e | _ | _ := res <;> first | rfl | exact absurd h id
  | _ => rfl

lemma Move.stages {call : Call E} {φ φ' : Phase E} {o : Effect} {a : Effect.Ans o} (hm : Move call φ o a φ') :
    Stages o (grants o a) φ.stage φ'.stage := by
  cases hm with
  | unverified | verified => exact .verify rfl
  | slotted hcall => exact .admission true rfl rfl
  | random hφ => exact .stay (.inl rfl) rfl rfl (Phase.stage_le _)
  | lost | recorded | unrecorded => exact .stay (.inr rfl) rfl rfl (Phase.stage_le _)
  | declined ha hd =>
    rw [grants_of_declines hd]
    cases ha with
    | slot hcall => exact .admission false rfl rfl
    | _ => exact .stay (.inr rfl) rfl rfl (Phase.stage_le _)
  | failed ha =>
    cases ha with
    | slot hcall => exact .admission false rfl rfl
    | _ => exact .stay (.inr rfl) rfl rfl (Phase.stage_le _)
  | _ => first | exact .stay (.inl rfl) rfl rfl (Phase.stage_le _) | exact .stay (.inr rfl) rfl rfl (Phase.stage_le _)

/-- The step verifies a secret. -/
def verifies (e : CallStep E) : Bool :=
  match e.action with
  | .perform o _ => o.verifies
  | _ => false

/-- The step asks for a slot. -/
def takesSlot (e : CallStep E) : Bool :=
  match e.action with
  | .perform o _ => o.slots
  | _ => false

/-- The step admits its call. -/
def granted (e : CallStep E) : Bool :=
  match e.action with
  | .perform o a => grants o a
  | _ => false

/-- How often a call has done something. -/
def steps (q : CallStep E → Bool) (i : ℕ) (tr : List (CallStep E)) : ℕ :=
  tr.countP fun x => q x && decide (x.tid = i)

/-- What a call has done at its stage. -/
structure Guesses (tr : List (CallStep E)) (p : CallPhases E) : Prop where
  outset : ∀ i call φ, p i = some (call, φ) → φ.stage = 0 → steps takesSlot i tr = 0 ∧ steps verifies i tr = 0
  middle : ∀ i call φ, p i = some (call, φ) → φ.stage = 1 → steps granted i tr = 1 ∧ steps verifies i tr = 0
  once : ∀ i, steps takesSlot i tr ≤ 1 ∧ steps granted i tr ≤ steps takesSlot i tr ∧
    steps verifies i tr ≤ steps granted i tr

section Steps
variable {tr : List (CallStep E)} {d : Database} {p p' : CallPhases E} {e : CallStep E}

lemma steps_cons (q : CallStep E → Bool) (i : ℕ) :
    steps q i (e :: tr) = steps q i tr + if q e && decide (e.tid = i) then 1 else 0 := by
  rw [steps,steps,List.countP_cons]

lemma steps_other (q : CallStep E → Bool) {i : ℕ} (h : e.tid ≠ i) : steps q i (e :: tr) = steps q i tr := by
  simp [steps_cons,h]

lemma steps_self (q : CallStep E → Bool) : steps q e.tid (e :: tr) = steps q e.tid tr + if q e then 1 else 0 := by
  simp [steps_cons]

lemma steps_fresh (q : CallStep E → Bool) {i : ℕ} (h : ∀ x ∈ tr, x.tid ≠ i) : steps q i tr = 0 := by
  rw [steps,List.countP_eq_zero]
  intro x hx hq
  simp only [Bool.and_eq_true,decide_eq_true_eq] at hq
  exact h x hx hq.2

/-- A step that only its own call has taken. -/
lemma Guesses.own (h : Guesses tr p) (hother : ∀ j, j ≠ e.tid → p' j = p j)
    (hnew : ∀ call φ, p' e.tid = some (call, φ) →
      (φ.stage = 0 → steps takesSlot e.tid (e :: tr) = 0 ∧ steps verifies e.tid (e :: tr) = 0) ∧
      (φ.stage = 1 → steps granted e.tid (e :: tr) = 1 ∧ steps verifies e.tid (e :: tr) = 0))
    (honce : steps takesSlot e.tid (e :: tr) ≤ 1 ∧ steps granted e.tid (e :: tr) ≤ steps takesSlot e.tid (e :: tr) ∧
      steps verifies e.tid (e :: tr) ≤ steps granted e.tid (e :: tr)) : Guesses (e :: tr) p' where
  outset i call φ hp hφ := by
    by_cases hi : i = e.tid
    · subst hi
      exact (hnew call φ hp).1 hφ
    · rw [hother i hi] at hp
      rw [steps_other _ (Ne.symm hi),steps_other _ (Ne.symm hi)]
      exact h.outset i call φ hp hφ
  middle i call φ hp hφ := by
    by_cases hi : i = e.tid
    · subst hi
      exact (hnew call φ hp).2 hφ
    · rw [hother i hi] at hp
      rw [steps_other _ (Ne.symm hi),steps_other _ (Ne.symm hi)]
      exact h.middle i call φ hp hφ
  once i := by
    by_cases hi : i = e.tid
    · subst hi
      exact honce
    · rw [steps_other _ (Ne.symm hi),steps_other _ (Ne.symm hi),steps_other _ (Ne.symm hi)]
      exact h.once i

theorem Guesses.step (h : Guesses tr p) (hs : (protocol E).Step (store E).serial tr d p e p') :
    Guesses (e :: tr) p' := by
  have hother := fun j (hj : j ≠ e.tid) => hs.other hj
  have honce := h.once e.tid
  have hquiet : ∀ q : CallStep E → Bool, q e = false → steps q e.tid (e :: tr) = steps q e.tid tr := by
    intro q hq
    simp [steps_self,hq]
  cases hs with
  | start i call hp hi =>
    have h₁ := (hquiet takesSlot rfl).trans (steps_fresh _ hi)
    have h₂ := (hquiet granted rfl).trans (steps_fresh _ hi)
    have h₃ := (hquiet verifies rfl).trans (steps_fresh _ hi)
    refine h.own hother (fun call' φ hφ => ⟨fun _ => ⟨h₁,h₃⟩,fun h1 => ?_⟩) (by omega)
    simp only [Function.update_self,Option.some.injEq,Prod.mk.injEq] at hφ
    rw [← hφ.2] at h1
    cases h1
  | reply i call φ r hp hl =>
    refine h.own hother (fun call' ψ hψ => by simp at hψ) ?_
    rw [hquiet takesSlot rfl,hquiet granted rfl,hquiet verifies rfl]
    exact honce
  | stop i call φ hp =>
    refine h.own hother (fun call' ψ hψ => by simp at hψ) ?_
    rw [hquiet takesSlot rfl,hquiet granted rfl,hquiet verifies rfl]
    exact honce
  | perform i call φ φ' o choice a s' hp hm hH =>
    have h₁ : steps takesSlot i (⟨i,call,.perform o a,d,s'⟩ :: tr) = steps takesSlot i tr + if o.slots then 1 else 0 :=
      steps_self takesSlot
    have h₂ : steps granted i (⟨i,call,.perform o a,d,s'⟩ :: tr) = steps granted i tr + if grants o a then 1 else 0 :=
      steps_self granted
    have h₃ : steps verifies i (⟨i,call,.perform o a,d,s'⟩ :: tr) =
        steps verifies i tr + if o.verifies then 1 else 0 := steps_self verifies
    have hout := h.outset i call φ hp
    have hmid := h.middle i call φ hp
    obtain ⟨hmono,hverifies,hslots,hgrant,hslot⟩ := hm.stages
    dsimp only at honce
    refine h.own hother (fun call' ψ hψ => ?_) ?_
    · simp only [Function.update_self,Option.some.injEq,Prod.mk.injEq] at hψ
      obtain ⟨-,rfl⟩ := hψ
      dsimp only
      rw [h₁,h₂,h₃]
      cases hv : o.verifies <;> cases hs : o.slots <;> cases hg : grants o a <;>
        simp only [hv,hs,hg,if_true,if_false,Bool.false_eq_true,true_imp_iff,true_iff,false_iff] at * <;> omega
    · dsimp only
      rw [h₁,h₂,h₃]
      cases hv : o.verifies <;> cases hs : o.slots <;> cases hg : grants o a <;>
        simp only [hv,hs,hg,if_true,if_false,Bool.false_eq_true,true_imp_iff,true_iff,false_iff] at * <;> omega

/-- A call that verifies a secret has been admitted before. -/
lemma Guesses.verified (h : Guesses tr p) (hs : (protocol E).Step (store E).serial tr d p e p')
    (hv : verifies e = true) : steps granted e.tid tr = 1 ∧ ∃ φ, p e.tid = some (e.call, φ) := by
  cases hs with
  | start i call hp hi => cases hv
  | reply i call φ r hp hl => cases hv
  | stop i call φ hp => cases hv
  | perform i call φ φ' o choice a s' hp hm hH =>
    have hstage := (hm.stages.verifies hv).1
    exact ⟨(h.middle i call φ hp hstage).1,φ,hp⟩

lemma Guesses.init : Guesses ([] : List (CallStep E)) fun _ => none where
  outset _ _ _ h := by cases h
  middle _ _ _ h := by cases h
  once _ := by simp [steps]

theorem guesses_invariant (E : Environment) : (protocol E).Invariant (store E).serial Database.empty fun tr d p =>
    Ownership tr d p ∧ Guesses tr p :=
  (ownership_invariant E).and .init fun _ h hs => h.step hs

/-- The caller on whose behalf a command is claimed. -/
def Call.caller (call : Call E) : Option String := call.commandKey.map CommandKey.callerInstance

/-- All instances that are called have this configuration. -/
def SameConfig (config : ServiceAccountConfig) (tr : List (CallStep E)) : Prop :=
  ∀ e ∈ tr, ∀ active, e.call.active = some active → active.config = config

/-- The slot that a step asks for is one of its own caller, under its own configuration. -/
lemma slot_of_step (ho : Ownership tr d p) (hs : (protocol E).Step (store E).serial tr d p e p')
    {r : ReserveRateSlot} (hr : slotOf e = some r) : ∃ active, e.call.active = some active ∧
      e.call.caller = some r.caller ∧ r.windowSeconds = active.config.exchangeWindowSeconds ∧
      r.maxAttempts = active.config.maxExchangesPerWindow := by
  have ht : transactionOf e = some (.reserveRateSlot r) := by
    unfold slotOf at hr
    split at hr
    · next r' ht => rw [ht,Option.some.inj hr]
    · cases hr
  obtain ⟨φ,h,hp,ha⟩ := step_asks hs ht
  have hacts := ho.acting e.tid
  rw [hp] at hacts
  cases ha with
  | slot hcall =>
    have hpresents := hacts.presents e.call _ h rfl rfl
    exact ⟨h.active,hpresents.active,by rw [Call.caller,hpresents.commandKey]; rfl,rfl,rfl⟩

lemma limits_pos (active : ActiveServiceAccount E) :
    0 < active.config.exchangeWindowSeconds ∧ 0 < active.config.maxExchangesPerWindow := by
  have hlimits := (ServiceAccountConfig.validate_ok active.valid).2.2
  simp only [ServiceAccountConfig.validLimits,within,Bool.and_eq_true,decide_eq_true_eq] at hlimits
  omega

lemma slotFor_of_step (ho : Ownership tr d p) (hs : (protocol E).Step (store E).serial tr d p e p')
    {config : ServiceAccountConfig} (hconfig : ∀ active, e.call.active = some active → active.config = config) :
    SlotFor config.exchangeWindowSeconds config.maxExchangesPerWindow e := by
  intro r hr
  obtain ⟨active,hactive,-,hwindow,hmax⟩ := slot_of_step ho hs hr
  obtain rfl := hconfig active hactive
  obtain ⟨hW,hM⟩ := limits_pos active
  exact ⟨hW,hM,hwindow,hmax⟩

lemma SlotOutcome.granted {good : TxOp → Choice → Bool} {r : ReserveRateSlot} {d' : Database}
    {res : Except ServiceAccountPluginError Bool} (h : SlotOutcome good r d res d') (hres : res = .ok true) :
    SlotCommit r d d' ∧ (r.grant (d.limitOf r.caller r.now)).1 = true := by
  cases h with
  | failed => cases hres
  | decided _ h => exact ⟨h,Except.ok.inj hres⟩
  | unacknowledged => cases hres

/-- A step that admits its call has taken a slot of its caller. -/
lemma admits_of_granted (ho : Ownership tr d p) (hs : (protocol E).Step (store E).serial tr d p e p')
    (hg : granted e = true) {caller : String} (hcaller : e.call.caller = some caller) : admits caller e = true := by
  have hl := hs.legal
  unfold granted at hg
  split at hg
  swap
  · cases hg
  next o a ha =>
  cases o with
  | pool o => cases hg
  | transact t =>
    cases t with
    | reserveRateSlot r =>
      have hr : slotOf e = some r := by simp only [slotOf,transactionOf,ha]
      have ha' : a = .ok true := by
        unfold grants at hg
        split at hg <;> simp_all
      obtain ⟨active,-,hc,hwindow,hmax⟩ := slot_of_step ho hs hr
      obtain rfl : r.caller = caller := Option.some.inj (hc.symm.trans hcaller)
      obtain ⟨hW,hM⟩ := limits_pos active
      have houtcome : SlotOutcome (fun _ _ => true) r e.before a e.after := outcome_of_legal hl ha
      obtain ⟨hcommit,hyes⟩ := houtcome.granted ha'
      have hne := hcommit.limits_ne hW hwindow (by omega) hyes
      simp [admits,hr,hyes,hne]
    | _ => cases hg

/-- What is admitted has asked for a slot, on behalf of its own caller. -/
lemma takesSlot_of_admits {caller : String} (h : admits caller e = true) : takesSlot e = true := by
  obtain ⟨r,hr,-⟩ := Option.any_eq_true _ _ |>.mp h
  unfold slotOf at hr
  split at hr
  · next r' ht =>
    unfold transactionOf at ht
    split at ht
    · next t res ha =>
      obtain rfl := Option.some.inj ht
      simp only [takesSlot,ha]
      rfl
    · cases ht
  · cases hr

end Steps
/-- The readings of the admissions of a caller do not decrease, in the order in which they are committed. -/
def InOrder {κ ρ : Type} (caller : String) (tr : List (Step κ ρ)) : Prop :=
  ∀ post x pre, tr = post ++ x :: pre → admits caller x = true → ∀ y ∈ pre, admits caller y = true →
    readingOf y ≤ readingOf x

/-- The admission of a call. -/
def admission (caller : String) (tr : List (CallStep E)) (i : ℕ) : Option (CallStep E) :=
  tr.find? fun y => admits caller y && decide (y.tid = i)

/-- The reading lies in the interval of `W` seconds from `t` on. -/
def during {κ ρ : Type} (W : ℕ) (t : Time) (e : Step κ ρ) : Bool :=
  decide (t ≤ readingOf e ∧ readingOf e < t + seconds W)

/-- The verifications of the calls that have been admitted for the caller in the interval. -/
def guesses (caller : String) (W : ℕ) (t : Time) (tr : List (CallStep E)) : ℕ :=
  tr.countP fun e => verifies e && (admission caller tr e.tid).any (during W t)

/-- What the rate limit promises about one caller: `W` and `M` are the length of a window and the
attempts in it. -/
structure RateLimited (W M : ℕ) (caller : String) (c : Run (Call E) Reply) : Prop where
  /-- A window that is recorded is the one that was recorded before, or begins after it has ended. -/
  starts : ∀ post y pre, c.trace = post ++ y :: pre → ∀ x ∈ pre, ∀ l l',
    x.after.limits.find caller = some l → y.after.limits.find caller = some l' →
    Spaced W l.windowStartedAt l'.windowStartedAt
  window : ∀ w, admitted caller w c.trace ≤ M
  /-- A call of the caller verifies a secret once at most, and has been admitted once before. -/
  verified : ∀ post e pre, c.trace = post ++ e :: pre → verifies e = true → e.call.caller = some caller →
    steps verifies e.tid c.trace = 1 ∧ steps (admits caller) e.tid pre = 1 ∧ steps (admits caller) e.tid c.trace = 1
  guesses : InOrder caller c.trace → ∀ t, guesses caller W t c.trace ≤ 2 * M
  /-- A call that finds its command there takes no slot. -/
  answered : ∀ e ∈ c.trace, ∀ k row, Finds e k row → ∀ x ∈ c.trace, x.tid = e.tid →
    x.after.limits = x.before.limits ∧ admits caller x = false

section Runs
variable {c : Run (Call E) Reply} {caller : String} {W M : ℕ}

lemma Rate.apart {tr : List (CallStep E)} {d : Database} (h : Rate W M caller tr d)
    (hstep : ∀ post y pre, tr = post ++ y :: pre → ∀ x ∈ pre, ∀ l l', x.after.limits.find caller = some l →
      y.after.limits.find caller = some l' → Spaced W l.windowStartedAt l'.windowStartedAt)
    {x y : CallStep E} (hx : x ∈ tr) (hy : y ∈ tr) (hax : admits caller x = true) (hay : admits caller y = true) :
    windowOf caller x = windowOf caller y ∨ windowOf caller x + seconds W ≤ windowOf caller y ∨
      windowOf caller y + seconds W ≤ windowOf caller x := by
  obtain ⟨l,hl⟩ := h.recorded x hx hax
  obtain ⟨l',hl'⟩ := h.recorded y hy hay
  rw [windowOf_of_find hl,windowOf_of_find hl']
  obtain ⟨post,pre,htr⟩ := List.append_of_mem hy
  have hxm := hx
  rw [htr] at hxm
  rcases List.mem_append.mp hxm with hpost | hpre
  · obtain ⟨post',pre',htr'⟩ := List.append_of_mem hpost
    have hmem : y ∈ pre' ++ y :: pre := by simp
    rcases hstep post' x (pre' ++ y :: pre) (by rw [htr,htr']; simp) y hmem l' l hl' hl with heq | hlt
    · exact .inl heq
    · exact .inr (.inr hlt)
  rcases List.mem_cons.mp hpre with rfl | hpre
  · obtain rfl := Option.some.inj (hl.symm.trans hl')
    exact .inl rfl
  · rcases hstep post y pre htr x hpre l l' hl hl' with heq | hlt
    · exact .inl heq.symm
    · exact .inr (.inl hlt)

lemma steps_mono {q r : CallStep E → Bool} {tr : List (CallStep E)} {i : ℕ}
    (h : ∀ x ∈ tr, x.tid = i → q x = true → r x = true) : steps q i tr ≤ steps r i tr := by
  apply List.countP_mono_left
  intro x hx hq
  simp only [Bool.and_eq_true,decide_eq_true_eq] at hq ⊢
  exact ⟨h x hx hq.2 hq.1,hq.2⟩

/-- The phases of a run before one of its steps. -/
lemma guesses_event (hc : LockedConfig.Reachable (store E) Call.main Database.empty c) {post pre : List (CallStep E)}
    {e : CallStep E} (he : c.trace = post ++ e :: pre) : ∃ p p', Ownership pre e.before p ∧ Guesses pre p ∧
      (protocol E).Step (store E).serial pre e.before p e p' := by
  obtain ⟨p,p',⟨ho,hg⟩,hs⟩ := (guesses_invariant E).event (obeyed E) (serializable hc) he
  exact ⟨p,p',ho,hg,hs⟩

lemma guesses_once (hc : LockedConfig.Reachable (store E) Call.main Database.empty c) (i : ℕ) :
    steps takesSlot i c.trace ≤ 1 ∧ steps granted i c.trace ≤ steps takesSlot i c.trace ∧
      steps verifies i c.trace ≤ steps granted i c.trace := by
  obtain ⟨p,-,-,hg⟩ := (guesses_invariant E).reachable (obeyed E) (serializable hc)
  exact hg.once i

lemma steps_admits_le (hc : LockedConfig.Reachable (store E) Call.main Database.empty c) (i : ℕ) :
    steps (admits caller) i c.trace ≤ 1 := by
  have honce := guesses_once hc i
  exact (steps_mono fun x _ _ hx => takesSlot_of_admits hx).trans honce.1

lemma verified_once (hc : LockedConfig.Reachable (store E) Call.main Database.empty c) {post pre : List (CallStep E)}
    {e : CallStep E} (he : c.trace = post ++ e :: pre) (hv : verifies e = true)
    (hcaller : e.call.caller = some caller) : steps verifies e.tid c.trace = 1 ∧
      steps (admits caller) e.tid pre = 1 ∧ steps (admits caller) e.tid c.trace = 1 := by
  obtain ⟨p,p',ho,hg,hs⟩ := guesses_event hc he
  obtain ⟨hone,φ,hp⟩ := hg.verified hs hv
  have hadmits : steps granted e.tid pre ≤ steps (admits caller) e.tid pre := by
    apply steps_mono
    intro x hx hi hgx
    obtain ⟨post',pre',htr⟩ := List.append_of_mem hx
    have hx' : c.trace = (post ++ e :: post') ++ x :: pre' := by
      rw [he,htr]
      simp
    obtain ⟨q,q',hoq,-,hsq⟩ := guesses_event hc hx'
    exact admits_of_granted hoq hsq hgx (by rw [ho.orderly.call _ _ _ hp x hx hi]; exact hcaller)
  have hsub : pre.Sublist c.trace := by
    rw [he]
    exact (List.sublist_cons_self e pre).trans (List.sublist_append_right _ _)
  have hle : steps (admits caller) e.tid pre ≤ steps (admits caller) e.tid c.trace := hsub.countP_le
  have htotal : steps (admits caller) e.tid c.trace ≤ 1 := steps_admits_le hc e.tid
  have hpos : 0 < steps verifies e.tid c.trace := by
    rw [steps,List.countP_pos_iff]
    exact ⟨e,by rw [he]; simp,by simp [hv]⟩
  have honce := guesses_once hc e.tid
  omega

/-- What is verified in an interval has been admitted in it, and each admission is one verification's. -/
lemma guesses_le (hc : LockedConfig.Reachable (store E) Call.main Database.empty c) (t : Time) :
    guesses caller W t c.trace ≤ (c.trace.filter (admits caller)).countP (during W t) := by
  rw [List.countP_filter]
  apply Window.countP_le_of_names
  · intro i
    have honce := guesses_once hc i
    refine le_trans (List.countP_mono_left fun e _ he => ?_) (show steps verifies i c.trace ≤ 1 by omega)
    simp only [Bool.and_eq_true] at he ⊢
    exact ⟨he.1.1,he.2⟩
  · intro e _ hv
    simp only [Bool.and_eq_true] at hv
    obtain ⟨y,hy,hduring⟩ := (Option.any_eq_true _ _).mp hv.2
    have hfound := List.find?_some hy
    simp only [Bool.and_eq_true,decide_eq_true_eq] at hfound
    exact ⟨y,List.mem_of_find?_eq_some hy,by simp [hduring,hfound.1],hfound.2⟩

/-- The rate limit of a caller in every run of instances that share a configuration. -/
theorem rate_limited (hc : LockedConfig.Reachable (store E) Call.main Database.empty c)
    {config : ServiceAccountConfig} (hconfig : SameConfig config c.trace) (caller : String) :
    RateLimited config.exchangeWindowSeconds config.maxExchangesPerWindow caller c := by
  have hslots : ∀ e ∈ c.trace, SlotFor config.exchangeWindowSeconds config.maxExchangesPerWindow e := by
    intro e he
    obtain ⟨post,pre,htr⟩ := List.append_of_mem he
    obtain ⟨p,p',ho,-,hs⟩ := guesses_event hc htr
    exact slotFor_of_step ho hs (hconfig e he)
  have hrate := rate_of_reachable (serializable hc) hslots caller
  have hstarts : ∀ post y pre, c.trace = post ++ y :: pre → ∀ x ∈ pre, ∀ l l',
      x.after.limits.find caller = some l → y.after.limits.find caller = some l' →
      Spaced config.exchangeWindowSeconds l.windowStartedAt l'.windowStartedAt := by
    intro post y pre he x hx l l' hl hl'
    obtain ⟨d,hd,htr,hbefore,hlegal⟩ := (serializable hc).split he
    have hy : y ∈ c.trace := by
      rw [he]
      simp
    have hpre : ∀ x ∈ d.trace, SlotFor config.exchangeWindowSeconds config.maxExchangesPerWindow x := by
      intro x hx
      rw [htr] at hx
      exact hslots x (by rw [he]; simp [hx])
    have hrate := rate_of_reachable hd hpre caller
    rw [htr,hbefore] at hrate
    obtain ⟨l'',hl'',hspaced⟩ := (hrate.step (limitStep hlegal (hslots y hy) caller)).starts x
      (List.mem_cons_of_mem y hx) l hl
    obtain rfl := Option.some.inj (hl'.symm.trans hl'')
    exact hspaced
  refine ⟨hstarts,hrate.count,fun post e pre he hv hcaller => verified_once hc he hv hcaller,fun horder t => ?_,
    fun e he k row hfinds x hx hi => ?_⟩
  · have hread : ∀ x ∈ c.trace.filter (admits caller), windowOf caller x ≤ readingOf x ∧
        readingOf x < windowOf caller x + seconds config.exchangeWindowSeconds := by
      intro x hx
      obtain ⟨hx,ha⟩ := List.mem_filter.mp hx
      obtain ⟨post,pre,htr⟩ := List.append_of_mem hx
      obtain ⟨hlt,y,hy,hay,hread⟩ := hrate.reads post x pre htr ha
      refine ⟨?_,hlt⟩
      rw [← hread]
      rcases List.mem_cons.mp hy with rfl | hy
      · exact le_rfl
      · exact horder post x pre htr ha y hy hay
    refine (guesses_le hc t).trans (Window.countP_interval_le hread (fun x hx y hy => ?_) (fun w => ?_) t)
    · obtain ⟨hx,hax⟩ := List.mem_filter.mp hx
      obtain ⟨hy,hay⟩ := List.mem_filter.mp hy
      exact hrate.apart hstarts hx hy hax hay
    · rw [List.countP_filter]
      refine le_trans (List.countP_mono_left fun x _ h => ?_) (hrate.count w)
      simpa [admitsUnder,and_comm] using h
  · obtain ⟨post,pre,htr⟩ := List.append_of_mem he
    obtain ⟨φ,p,p',hφ,ho,hstep,-,hlater⟩ := settled_event hc htr (.inl ⟨k,row,hfinds⟩)
    have hsame : x.after.limits = x.before.limits := by
      rw [htr] at hx
      rcases List.mem_append.mp hx with hx | hx
      · rw [hlater x hx hi]
      rcases List.mem_cons.mp hx with rfl | hx
      · rw [(hfinds.row hstep.legal).2]
      · cases hφ with
        | found _ _ _ hw => exact (hw x hx hi).limits
        | recorded he' => exact absurd (hfinds.symm.trans he') (by simp)
    refine ⟨hsame,?_⟩
    cases hs : slotOf x <;> simp [admits,hs,hsame]

end Runs
/-- The secret that the sample creation has drawn. -/
def sampleSecret : CredentialSecret := .ofRandom (List.replicate 18 0) (List.replicate 32 0)

/-- Call `1` exchanges the secret of the account that call `0` has created. -/
noncomputable def sampleExchange : List (LockedLabel (Call .plain) Choice Choice) :=
  sampleCreate ++ [.start (.exchangeSecret samplePlugin ⟨some "gateway"⟩ ⟨"k2",sampleSecret.wire⟩),.pool 1 {},
    .pool 1 {},.pool 1 { clock := seconds 100 },.enter 1,.within 1 {},.within 1 {},.within 1 {},.within 1 {},
    .within 1 {},.pool 1 {},.pool 1 {},.pool 1 { status := .ok ⟨"subject",.active⟩ },
    .pool 1 { clock := seconds 100 },.enter 1,.within 1 {},.within 1 {},.within 1 {},.within 1 {},.within 1 {},
    .within 1 {},.pool 1 { clock := seconds 100 },
    .pool 1 { session := .ok ⟨"session","token","1970-01-01T00:05:00Z"⟩ },.pool 1 { clock := seconds 100 },
    .pool 1 { entropy := some (List.replicate 12 0) },.enter 1,.within 1 {},.within 1 {},.within 1 {},.reply 1]

set_option maxRecDepth 4000 in
noncomputable def sampleExchangeRun : Run (Call .plain) Reply :=
  ((LockedConfig.init Database.empty).run (store .plain) Call.main sampleExchange).get (by decide +kernel)

lemma sampleExchangeRun_reachable :
    LockedConfig.Reachable (store .plain) Call.main Database.empty sampleExchangeRun :=
  LockedConfig.leads_of_run (Option.some_get _).symm

set_option maxRecDepth 4000 in
/-- An exchange that is admitted. -/
theorem rate_limited_sample : (∃ x ∈ sampleExchangeRun.trace, admits "gateway" x = true) ∧
    RateLimited sampleConfig.exchangeWindowSeconds sampleConfig.maxExchangesPerWindow "gateway" sampleExchangeRun := by
  refine ⟨?_,rate_limited sampleExchangeRun_reachable (fun e he active ha => ?_) "gateway"⟩
  · have hany : sampleExchangeRun.trace.any (admits "gateway") = true := by decide +kernel
    exact List.any_eq_true.mp hany
  · have hall : (sampleExchangeRun.trace.all fun e => e.call.active.all fun active =>
        decide (active.config = sampleConfig)) = true := by decide +kernel
    have hactive := List.all_eq_true.mp hall e he
    rw [ha] at hactive
    exact of_decide_eq_true hactive

end LensoServiceAccount
