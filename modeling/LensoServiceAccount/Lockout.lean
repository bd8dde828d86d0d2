import LensoServiceAccount.RateLimit

/-! Lockouts: while one is in force nothing is admitted and nothing moves, and every one of them ends. -/

namespace LensoServiceAccount

/-- What a rate admission answers. -/
def slotAnswer {κ ρ : Type} (e : Step κ ρ) : Option (Except ServiceAccountPluginError Bool) :=
  match e.action with
  | .perform (.transact (.reserveRateSlot _)) a => some a
  | _ => none

/-- No lockout is in force. -/
def ExchangeLimit.Unlocked (now : Time) (l : ExchangeLimit) : Prop := ∀ u, l.lockedUntil = some u → u ≤ now

/-- The rate admission has these parameters. -/
structure ReserveRateSlot.Under (W M L : ℤ) (r : ReserveRateSlot) : Prop where
  window : r.windowSeconds = W
  attempts : r.maxAttempts = M
  lockout : r.lockoutSeconds = L

namespace ReserveRateSlot
variable {W M L : ℤ} {r : ReserveRateSlot} {l : ExchangeLimit}

lemma grant_of_locked {u : Time} (hu : l.lockedUntil = some u) (hnow : r.now < u) : r.grant l = (false,l) := by
  have hlocked : (l.lockedUntil.any fun u => r.now < u) = true := by
    rw [hu,Option.any_some]
    exact decide_eq_true hnow
  rw [grant,if_pos hlocked]

lemma any_of_unlocked (h : l.Unlocked r.now) : (l.lockedUntil.any fun u => r.now < u) = false := by
  cases hl : l.lockedUntil with
  | none => rfl
  | some u =>
    rw [Option.any_some]
    exact decide_eq_false (Int.not_lt.mpr (h u hl))

lemma grant_of_renewed (hr : r.Under W M L) (hM : 1 ≤ M) (h : l.Unlocked r.now)
    (hnow : l.windowStartedAt + seconds W ≤ r.now) :
    r.grant l = (true,⟨l.callerInstance,r.now,1,none⟩) := by
  have hout : l.windowStartedAt + seconds r.windowSeconds ≤ r.now := by rwa [hr.window]
  have hroom : ¬r.maxAttempts ≤ 0 := by
    have hattempts := hr.attempts
    omega
  simp only [grant,any_of_unlocked h,hout,hroom,decide_true,if_true,if_false,Bool.false_eq_true]
  rfl

/-- A refusal while no lockout is in force comes within the window, and locks out from now on. -/
lemma grant_of_refused (hr : r.Under W M L) (hM : 1 ≤ M) (h : l.Unlocked r.now) (hno : (r.grant l).1 = false) :
    r.now < l.windowStartedAt + seconds W ∧
      (r.grant l).2 = { l with lockedUntil := some (r.now + seconds L) } := by
  have hin : r.now < l.windowStartedAt + seconds W := by
    by_contra hout
    rw [grant_of_renewed hr hM h (Int.not_lt.mp hout)] at hno
    exact absurd hno (by simp)
  refine ⟨hin,?_⟩
  have hwindow : ¬l.windowStartedAt + seconds r.windowSeconds ≤ r.now := by
    rw [hr.window]
    exact Int.not_le.mpr hin
  by_cases hfull : r.maxAttempts ≤ l.attempts
  · simp only [grant,any_of_unlocked h,hwindow,hfull,decide_false,if_true,if_false,Bool.false_eq_true,hr.lockout]
  · have hyes : (r.grant l).1 = true := by
      simp only [grant,any_of_unlocked h,hwindow,hfull,decide_false,if_false,Bool.false_eq_true]
    exact absurd (hyes.symm.trans hno) (by simp)

/-- The end of a lockout was there before, or is set by a call within the window. -/
lemma lockedUntil_grant (hr : r.Under W M L) (hM : 1 ≤ M) {u : Time} (hu : (r.grant l).2.lockedUntil = some u) :
    (r.grant l).2 = l ∨ r.now < l.windowStartedAt + seconds W ∧
      (r.grant l).2 = { l with lockedUntil := some (r.now + seconds L) } := by
  by_cases hl : l.Unlocked r.now
  · cases hg : (r.grant l).1 with
    | false => exact .inr (grant_of_refused hr hM hl hg)
    | true =>
      have hnone : (r.grant l).2.lockedUntil = none := by
        unfold grant at hg ⊢
        dsimp only at hg ⊢
        split_ifs at hg ⊢ <;> rfl
      exact absurd (hu.symm.trans hnone) (by simp)
  · unfold ExchangeLimit.Unlocked at hl
    push Not at hl
    obtain ⟨v,hv,hlt⟩ := hl
    left
    rw [grant_of_locked hv hlt]

end ReserveRateSlot

section Steps
variable {E : Environment} {κ ρ : Type} {tr : List (Step κ ρ)} {e : Step κ ρ} {d d' : Database}
variable {W M L : ℤ} {caller : String}

/-- The step is a rate admission of the caller that has had the row. -/
structure Takes (caller : String) (r : ReserveRateSlot) (e : Step κ ρ) : Prop where
  slot : slotOf e = some r
  own : r.caller = caller
  commit : SlotCommit r e.before e.after

/-- The step refuses the caller while no lockout is in force. -/
structure RefusesAfresh (caller : String) (r : ReserveRateSlot) (e : Step κ ρ) : Prop where
  slot : slotOf e = some r
  own : r.caller = caller
  answer : slotAnswer e = some (.ok false)
  unlocked : (e.before.limitOf caller r.now).Unlocked r.now

/-- The rate admissions of the caller all have these parameters. -/
def SlotUnder (W M L : ℤ) (caller : String) (e : Step κ ρ) : Prop :=
  ∀ r, slotOf e = some r → r.caller = caller → r.Under W M L

lemma slot_eq {r : ReserveRateSlot} (h : slotOf e = some r) :
    ∃ a, e.action = .perform (.transact (.reserveRateSlot r)) a ∧ slotAnswer e = some a := by
  cases ha : e.action with
  | perform o a =>
    cases o with
    | pool o => simp [slotOf,transactionOf,ha] at h
    | transact t =>
      cases t with
      | reserveRateSlot r' =>
        simp only [slotOf,transactionOf,ha,Option.some.injEq] at h
        subst h
        exact ⟨a,rfl,by simp only [slotAnswer,ha]⟩
      | _ => simp [slotOf,transactionOf,ha] at h
  | _ => simp [slotOf,transactionOf,ha] at h

/-- A rate admission that answers has had the row, and decides on it. -/
lemma decided_of_answer (hl : e.Legal (store E).serial) {r : ReserveRateSlot} (h : slotOf e = some r) {b : Bool}
    (hb : slotAnswer e = some (.ok b)) :
    SlotCommit r e.before e.after ∧ (r.grant (e.before.limitOf r.caller r.now)).1 = b := by
  obtain ⟨a,ha,hanswer⟩ := slot_eq h
  have ha' := Option.some.inj (hanswer.symm.trans hb)
  subst ha'
  have hout : SlotOutcome _ r e.before (.ok b) e.after := outcome_of_legal hl ha
  cases hout with
  | decided _ hc => exact ⟨hc,rfl⟩

lemma SlotCommit.find_caller {r : ReserveRateSlot} (h : SlotCommit r d d') (hr : r.caller = caller) :
    d'.limits.find caller = some (r.grant (d.limitOf caller r.now)).2 := by
  subst hr
  exact h.find

/-- A step leaves the row of the caller alone, or is a rate admission of the caller. -/
lemma takes_or_same (hl : e.Legal (store E).serial) (caller : String) :
    e.after.limits.find caller = e.before.limits.find caller ∨ ∃ r, Takes caller r e := by
  obtain hsame | ⟨r,hslot,hc⟩ := limits_of_legal hl
  · left
    rw [hsame]
  by_cases hr : r.caller = caller
  · exact .inr ⟨r,hslot,hr,hc⟩
  · obtain ⟨hv,hlimits⟩ := hc.limits
    have hne : Row.key (r.grant (e.before.limitOf r.caller r.now)).2 ≠ caller := by
      rwa [key_limit,r.grant_caller,limitOf_caller]
    left
    rw [hlimits,Table.find_put_of_ne _ hv hne]

/-- A lockout ends before the window and another lockout have passed since the window has begun. -/
def LockoutBounded (W L : ℤ) (caller : String) (d : Database) : Prop :=
  ∀ l, d.limits.find caller = some l → ∀ u, l.lockedUntil = some u → u < l.windowStartedAt + seconds W + seconds L

theorem LockoutBounded.step (h : LockoutBounded W L caller e.before) (hl : e.Legal (store E).serial)
    (hr : SlotUnder W M L caller e) (hM : 1 ≤ M) : LockoutBounded W L caller e.after := by
  intro l' hl' u hu
  obtain hsame | ⟨r,ht⟩ := takes_or_same hl caller
  · rw [hsame] at hl'
    exact h l' hl' u hu
  have hfind := ht.commit.find_caller ht.own
  obtain rfl := Option.some.inj (hfind.symm.trans hl')
  obtain hsame | ⟨hin,hlock⟩ := ReserveRateSlot.lockedUntil_grant (hr r ht.slot ht.own) hM hu
  · rw [hsame] at hu ⊢
    cases hb : e.before.limits.find caller with
    | none =>
      rw [Database.limitOf,hb,Option.getD_none] at hu
      exact absurd hu (by simp)
    | some l =>
      rw [limitOf_of_find hb] at hu ⊢
      exact h l hb u hu
  · rw [hlock] at hu ⊢
    obtain rfl := Option.some.inj hu
    exact Int.add_lt_add_right hin _

/-- The lockouts of a history: each is in force as it was set, or a call has come after its end. -/
def LockoutsHeld (L : ℤ) (caller : String) (tr : List (Step κ ρ)) (d : Database) : Prop :=
  ∀ post e pre r, tr = post ++ e :: pre → RefusesAfresh caller r e →
    (∃ l, d.limits.find caller = some l ∧ l.lockedUntil = some (r.now + seconds L)) ∨
      ∃ x ∈ post, ∃ r', Takes caller r' x ∧ r.now + seconds L ≤ r'.now

theorem LockoutsHeld.step (h : LockoutsHeld L caller tr e.before) (hl : e.Legal (store E).serial)
    (hr : SlotUnder W M L caller e) (hM : 1 ≤ M) : LockoutsHeld L caller (e :: tr) e.after := by
  intro post x pre r he hx
  cases post with
  | nil =>
    obtain ⟨rfl,rfl⟩ := List.cons.inj he
    obtain ⟨hc,hno⟩ := decided_of_answer hl hx.slot hx.answer
    rw [hx.own] at hno
    obtain ⟨-,hlock⟩ := ReserveRateSlot.grant_of_refused (hr r hx.slot hx.own) hM hx.unlocked hno
    have hfind := hc.find_caller hx.own
    rw [hlock] at hfind
    exact .inl ⟨_,hfind,rfl⟩
  | cons y post =>
    obtain ⟨rfl,htr⟩ := List.cons.inj he
    obtain ⟨l,hfind,hu⟩ | ⟨z,hz,r',ht,hle⟩ := h post x pre r htr hx
    · obtain hsame | ⟨r',ht⟩ := takes_or_same hl caller
      · exact .inl ⟨l,by rwa [hsame],hu⟩
      by_cases hnow : r'.now < r.now + seconds L
      · have hafter := ht.commit.find_caller ht.own
        rw [limitOf_of_find hfind,ReserveRateSlot.grant_of_locked hu hnow] at hafter
        exact .inl ⟨l,hafter,hu⟩
      · exact .inr ⟨e,List.mem_cons_self,r',ht,Int.not_lt.mp hnow⟩
    · exact .inr ⟨z,List.mem_cons_of_mem e hz,r',ht,hle⟩

end Steps

section Runs
variable {E : Environment} {κ ρ : Type} {main : κ → Program Effect Effect.Ans ρ}
variable {W M L : ℤ} {caller : String}

end Runs

end LensoServiceAccount
