import LensoServiceAccount.Library.Window
import LensoServiceAccount.Replay

/-! The rate limit over whole runs: what is admitted in a window, and how many secrets are verified. -/

namespace LensoServiceAccount

/-- The rate admission that a step asks for. -/
def slotOf {κ ρ : Type} (e : Step κ ρ) : Option ReserveRateSlot :=
  match transactionOf e with
  | some (.reserveRateSlot r) => some r
  | _ => none

/-- The clock reading of a rate admission. -/
def readingOf {κ ρ : Type} (e : Step κ ρ) : Time := ((slotOf e).map ReserveRateSlot.now).getD 0

/-- The window that is recorded after a step. -/
def windowOf {κ ρ : Type} (caller : String) (e : Step κ ρ) : Time := (e.after.limitOf caller 0).windowStartedAt

/-- The step admits an attempt of the caller: it is committed, and it takes a slot. -/
def admits {κ ρ : Type} (caller : String) (e : Step κ ρ) : Bool :=
  (slotOf e).any fun r => r.caller == caller && (r.grant (e.before.limitOf caller r.now)).1 &&
    decide (e.after.limits ≠ e.before.limits)

section Steps
variable {E : Environment} {κ ρ : Type} {tr : List (Step κ ρ)} {e : Step κ ρ} {d d' : Database}

lemma Transaction.limits {t : Transaction} {res : t.Result} {good : TxOp → Choice → Bool}
    (h : t.Outcome E good d res d') :
    d'.limits = d.limits ∨ ∃ r, t = .reserveRateSlot r ∧ SlotCommit r d d' := by
  cases t with
  | completeSuccess key nonce ciphertext => cases h <;> exact .inl rfl
  | createAccount r =>
    cases h with
    | failed e h | full h => exact .inl rfl
    | created row _ h | unacknowledged row _ h =>
      cases h with
      | mk t c nonce ciphertext _ _ _ _ _ _ _ _ _ _ hlimits => exact .inl hlimits
  | rotateAccount r =>
    cases h with
    | updated row _ h | unacknowledged row _ h =>
      cases h with
      | mk t a c nonce ciphertext _ _ _ _ _ _ _ _ _ _ _ hlimits => exact .inl hlimits
    | _ => exact .inl rfl
  | revokeAccount r =>
    cases h with
    | updated result _ h | unacknowledged result _ h =>
      cases h with
      | changed t now a c nonce ciphertext _ _ _ _ _ _ _ _ _ hlimits => exact .inl hlimits
      | unchanged t a c nonce ciphertext _ _ _ _ _ _ _ _ _ hlimits => exact .inl hlimits
    | _ => exact .inl rfl
  | markExchangeIssuing r =>
    cases h with
    | admitted row _ h | unacknowledged row _ h =>
      cases h with
      | mk a c k _ _ _ _ _ _ _ _ _ _ _ hlimits => exact .inl hlimits
    | _ => exact .inl rfl
  | reserveRateSlot r =>
    cases h with
    | failed operation e h => exact .inl rfl
    | decided _ h => exact .inr ⟨r,rfl,h⟩
    | unacknowledged operation _ h hf => exact .inr ⟨r,rfl,h⟩

/-- Only committed rate admissions write limits. -/
theorem limits_of_legal (hl : e.Legal (store E).serial) : e.after.limits = e.before.limits ∨
    ∃ r, slotOf e = some r ∧ SlotCommit r e.before e.after := by
  cases ha : e.action with
  | perform o a =>
    cases o with
    | pool o =>
      simp only [Event.Legal,ha] at hl
      obtain ⟨ch,hc⟩ := hl
      exact .inl (pool_tables hc).2.2
    | transact t =>
      obtain hsame | ⟨r,rfl,hr⟩ := Transaction.limits (outcome_of_legal hl ha)
      · exact .inl hsame
      · exact .inr ⟨r,by simp only [slotOf,transactionOf,ha],hr⟩
  | _ =>
    simp only [Event.Legal,ha] at hl
    exact .inl (by rw [hl])

/-- The three ways of a committed rate admission: it changes nothing but perhaps the lockout, takes the next
slot of the window, or opens a window. -/
inductive Decision (r : ReserveRateSlot) (l l' : ExchangeLimit) : Prop
  | refused (hno : (r.grant l).1 = false) (hw : l'.windowStartedAt = l.windowStartedAt)
      (ha : l'.attempts = l.attempts)
  | taken (hyes : (r.grant l).1 = true) (hin : r.now < l.windowStartedAt + seconds r.windowSeconds)
      (hw : l'.windowStartedAt = l.windowStartedAt) (ha : l'.attempts = l.attempts + 1)
      (hroom : l.attempts < r.maxAttempts)
  | opened (hyes : (r.grant l).1 = true) (hout : l.windowStartedAt + seconds r.windowSeconds ≤ r.now)
      (hw : l'.windowStartedAt = r.now) (ha : l'.attempts = 1)

lemma ReserveRateSlot.decision (r : ReserveRateSlot) (l : ExchangeLimit) (hM : 0 < r.maxAttempts) :
    Decision r l (r.grant l).2 := by
  by_cases hlocked : (l.lockedUntil.any fun u => r.now < u) = true
  · have ha : r.grant l = (false,l) := by rw [grant,if_pos hlocked]
    exact .refused (by rw [ha]) (by rw [ha]) (by rw [ha])
  by_cases hout : l.windowStartedAt + seconds r.windowSeconds ≤ r.now
  · have ha : r.grant l = (true,{ l with windowStartedAt := r.now,attempts := 1,lockedUntil := none }) := by
      simp [grant,hlocked,hout,hM]
    exact .opened (by rw [ha]) hout (by rw [ha]) (by rw [ha])
  by_cases hroom : r.maxAttempts ≤ l.attempts
  · have ha : r.grant l = (false,{ l with lockedUntil := some (r.now + seconds r.lockoutSeconds) }) := by
      simp [grant,hlocked,hout,hroom]
    exact .refused (by rw [ha]) (by rw [ha]) (by rw [ha])
  · have ha : r.grant l = (true,{ l with attempts := l.attempts + 1,lockedUntil := none }) := by
      simp [grant,hlocked,hout,hroom]
    exact .taken (by rw [ha]) (not_le.mp hout) (by rw [ha]) (by rw [ha]) (not_le.mp hroom)

/-- What a step does to the limit of the caller, when windows last `W` seconds and hold `M` attempts. -/
inductive LimitStep (W M : ℕ) (caller : String) (e : Step κ ρ) : Prop
  | same (hf : e.after.limits.find caller = e.before.limits.find caller) (hn : admits caller e = false)
  | refused (l l' : ExchangeLimit) (hb : e.before.limits.find caller = some l)
      (ha : e.after.limits.find caller = some l') (hw : l'.windowStartedAt = l.windowStartedAt)
      (hattempts : l'.attempts = l.attempts) (hn : admits caller e = false)
  | taken (l l' : ExchangeLimit) (hb : e.before.limits.find caller = some l)
      (ha : e.after.limits.find caller = some l') (hw : l'.windowStartedAt = l.windowStartedAt)
      (hattempts : l'.attempts = l.attempts + 1) (hroom : l.attempts < M)
      (hin : readingOf e < l.windowStartedAt + seconds W) (hy : admits caller e = true)
  | opened (l' : ExchangeLimit) (hW : 0 < W) (hM : 0 < M)
      (hb : ∀ l, e.before.limits.find caller = some l → l.windowStartedAt + seconds W ≤ readingOf e)
      (ha : e.after.limits.find caller = some l') (hw : l'.windowStartedAt = readingOf e)
      (hattempts : l'.attempts = 1) (hy : admits caller e = true)

lemma seconds_pos {n : ℕ} (h : 0 < n) : (0 : ℤ) < seconds n := by
  simp only [seconds]
  omega

lemma limitOf_of_find {caller : String} {l : ExchangeLimit} (h : d.limits.find caller = some l) (now : Time) :
    d.limitOf caller now = l := by
  rw [Database.limitOf,h,Option.getD_some]

/-- The rate admission of a step has a window of `W` seconds for `M` attempts, neither of them none. -/
def SlotFor {κ ρ : Type} (W M : ℕ) (e : Step κ ρ) : Prop :=
  ∀ r, slotOf e = some r → 0 < W ∧ 0 < M ∧ r.windowSeconds = W ∧ r.maxAttempts = M

/-- An admission changes the row. -/
lemma ReserveRateSlot.grant_ne (r : ReserveRateSlot) (l : ExchangeLimit) {W : ℕ} (hW : 0 < W)
    (hwindow : r.windowSeconds = W) (hM : 0 < r.maxAttempts) (hy : (r.grant l).1 = true) : (r.grant l).2 ≠ l := by
  have hdecision := r.decision l hM
  intro heq
  rw [heq] at hdecision
  cases hdecision with
  | refused hn hw ha => exact absurd (hy.symm.trans hn) (by simp)
  | taken hy hin hw ha hroom => omega
  | opened hy hout hw ha =>
    rw [hw,hwindow] at hout
    exact absurd hout (Int.not_le.mpr (Int.lt_add_of_pos_right _ (seconds_pos hW)))

lemma SlotCommit.find {r : ReserveRateSlot} (hc : SlotCommit r d d') :
    d'.limits.find r.caller = some (r.grant (d.limitOf r.caller r.now)).2 := by
  obtain ⟨hv,hlimits⟩ := hc.limits
  have hkey : Row.key (r.grant (d.limitOf r.caller r.now)).2 = r.caller := by
    rw [key_limit,r.grant_caller,limitOf_caller]
  rw [hlimits,Table.find_put,if_pos hkey]

lemma SlotCommit.limits_ne {r : ReserveRateSlot} (hc : SlotCommit r d d') {W : ℕ} (hW : 0 < W)
    (hwindow : r.windowSeconds = W) (hM : 0 < r.maxAttempts)
    (hy : (r.grant (d.limitOf r.caller r.now)).1 = true) : d'.limits ≠ d.limits := by
  intro heq
  have hfind := hc.find
  rw [heq] at hfind
  exact r.grant_ne _ hW hwindow hM hy (limitOf_of_find hfind r.now).symm

theorem limitStep (hl : e.Legal (store E).serial) {W M : ℕ} (hr : SlotFor W M e) (caller : String) :
    LimitStep W M caller e := by
  obtain hsame | ⟨r,hslot,hc⟩ := limits_of_legal hl
  · refine .same (by rw [hsame]) ?_
    cases hs : slotOf e <;> simp [admits,hs,hsame]
  obtain ⟨hW,hM,hwindow,hmax⟩ := hr r hslot
  have hreading : readingOf e = r.now := by rw [readingOf,hslot,Option.map_some,Option.getD_some]
  by_cases hcaller : r.caller = caller
  · subst hcaller
    have hafter := hc.find
    have hadmits : admits r.caller e = (r.grant (e.before.limitOf r.caller r.now)).1 := by
      cases hy : (r.grant (e.before.limitOf r.caller r.now)).1 with
      | false => simp [admits,hslot,hy]
      | true =>
        have hne := hc.limits_ne hW hwindow (by omega) hy
        simp [admits,hslot,hy,hne]
    have hdecision := r.decision (e.before.limitOf r.caller r.now) (by omega)
    generalize (r.grant (e.before.limitOf r.caller r.now)).2 = l' at hafter hdecision
    cases hb : e.before.limits.find r.caller with
    | none =>
      have hfresh : e.before.limitOf r.caller r.now = ⟨r.caller,r.now,0,none⟩ := by
        rw [Database.limitOf,hb,Option.getD_none]
      rw [hfresh] at hdecision hadmits
      have hin : ¬(r.now + seconds r.windowSeconds ≤ r.now) := by
        rw [hwindow]
        exact Int.not_le.mpr (Int.lt_add_of_pos_right _ (seconds_pos hW))
      have hgrant : (r.grant ⟨r.caller,r.now,0,none⟩).1 = true := by
        simp [ReserveRateSlot.grant,hin,hmax,hM.ne']
      have hyes := hadmits.trans hgrant
      cases hdecision with
      | refused hn hw ha => exact absurd (hgrant.symm.trans hn) (by simp)
      | taken hy _ hw ha hroom =>
        exact .opened l' hW hM (by simp [hb]) hafter (by rw [hw,hreading]) (by rw [ha]; rfl) hyes
      | opened hy hout hw ha => exact .opened l' hW hM (by simp [hb]) hafter (by rw [hw,hreading]) ha hyes
    | some l =>
      rw [limitOf_of_find hb] at hdecision hadmits
      cases hdecision with
      | refused hn hw ha => exact .refused l l' hb hafter hw ha (hadmits.trans hn)
      | taken hy hin hw ha hroom =>
        exact .taken l l' hb hafter hw ha (by omega) (by rw [hreading,← hwindow]; exact hin) (hadmits.trans hy)
      | opened hy hout hw ha =>
        refine .opened l' hW hM (fun x hx => ?_) hafter (by rw [hw,hreading]) ha (hadmits.trans hy)
        obtain rfl := Option.some.inj (hb.symm.trans hx)
        rw [hreading,← hwindow]
        exact hout
  · obtain ⟨hv,hlimits⟩ := hc.limits
    have hne : Row.key (r.grant (e.before.limitOf r.caller r.now)).2 ≠ caller := by
      rwa [key_limit,r.grant_caller,limitOf_caller]
    refine .same (by rw [hlimits,Table.find_put_of_ne _ hv hne]) ?_
    simp [admits,hslot,hcaller]

/-- The step admits an attempt of the caller under the window that begins at `w`. -/
def admitsUnder {κ ρ : Type} (caller : String) (w : Time) (e : Step κ ρ) : Bool :=
  admits caller e && decide (windowOf caller e = w)

/-- The attempts that a history admits under a window. -/
def admitted {κ ρ : Type} (caller : String) (w : Time) (tr : List (Step κ ρ)) : ℕ :=
  tr.countP (admitsUnder caller w)

/-- The second window is the first, or begins after it has ended. -/
def Spaced (W : ℕ) (w w' : Time) : Prop := w' = w ∨ w + seconds W ≤ w'

/-- The invariant of the limit of a caller. -/
structure Rate (W M : ℕ) (caller : String) (tr : List (Step κ ρ)) (d : Database) : Prop where
  row : ∀ l, d.limits.find caller = some l →
    l.attempts ≤ M ∧ l.attempts = admitted caller l.windowStartedAt tr
  origin : ∀ l, d.limits.find caller = some l → ∃ x ∈ tr, admits caller x = true ∧ readingOf x = l.windowStartedAt
  starts : ∀ x ∈ tr, ∀ l, x.after.limits.find caller = some l →
    ∃ l', d.limits.find caller = some l' ∧ Spaced W l.windowStartedAt l'.windowStartedAt
  count : ∀ w, admitted caller w tr ≤ M
  recorded : ∀ x ∈ tr, admits caller x = true → ∃ l, x.after.limits.find caller = some l
  reads : ∀ post x pre, tr = post ++ x :: pre → admits caller x = true →
    readingOf x < windowOf caller x + seconds W ∧
      ∃ y ∈ x :: pre, admits caller y = true ∧ readingOf y = windowOf caller x

lemma admitted_cons (caller : String) (w : Time) (e : Step κ ρ) (tr : List (Step κ ρ)) :
    admitted caller w (e :: tr) = admitted caller w tr + if admitsUnder caller w e then 1 else 0 := by
  rw [admitted,admitted,List.countP_cons]

lemma windowOf_of_find {caller : String} {l : ExchangeLimit} (h : e.after.limits.find caller = some l) :
    windowOf caller e = l.windowStartedAt := by rw [windowOf,limitOf_of_find h]

lemma Rate.keep {W M : ℕ} {caller : String} (h : Rate W M caller tr e.before) (hn : admits caller e = false)
    (hf : ∀ l', e.after.limits.find caller = some l' → ∃ l, e.before.limits.find caller = some l ∧
      l'.windowStartedAt = l.windowStartedAt ∧ l'.attempts = l.attempts)
    (hb : ∀ l, e.before.limits.find caller = some l → ∃ l', e.after.limits.find caller = some l' ∧
      l'.windowStartedAt = l.windowStartedAt) : Rate W M caller (e :: tr) e.after := by
  have hcount : ∀ w, admitted caller w (e :: tr) = admitted caller w tr := by
    intro w
    simp [admitted_cons,admitsUnder,hn]
  refine ⟨fun l' hl' => ?_,fun l' hl' => ?_,fun x hx l hl => ?_,fun w => ?_,fun x hx ha => ?_,?_⟩
  · obtain ⟨l,hl,hw,hattempts⟩ := hf l' hl'
    rw [hw,hattempts,hcount]
    exact h.row l hl
  · obtain ⟨l,hl,hw,-⟩ := hf l' hl'
    obtain ⟨x,hx,ha,hr⟩ := h.origin l hl
    exact ⟨x,List.mem_cons_of_mem e hx,ha,hr.trans hw.symm⟩
  · rcases List.mem_cons.mp hx with rfl | hx
    · exact ⟨l,hl,.inl rfl⟩
    · obtain ⟨l₁,hl₁,hspaced⟩ := h.starts x hx l hl
      obtain ⟨l₂,hl₂,hw⟩ := hb l₁ hl₁
      exact ⟨l₂,hl₂,by rwa [hw]⟩
  · rw [hcount]
    exact h.count w
  · rcases List.mem_cons.mp hx with rfl | hx
    · exact absurd (ha.symm.trans hn) (by simp)
    · exact h.recorded x hx ha
  · intro post x pre he ha
    cases post with
    | nil =>
      obtain ⟨rfl,rfl⟩ := List.cons.inj he
      exact absurd (ha.symm.trans hn) (by simp)
    | cons y post => exact h.reads post x pre (List.cons.inj he).2 ha

lemma Rate.take {W M : ℕ} {caller : String} (h : Rate W M caller tr e.before) (hy : admits caller e = true)
    {l' : ExchangeLimit} (ha : e.after.limits.find caller = some l')
    (hspaced : ∀ l, e.before.limits.find caller = some l → Spaced W l.windowStartedAt l'.windowStartedAt)
    (hattempts : l'.attempts = admitted caller l'.windowStartedAt tr + 1) (hle : l'.attempts ≤ M)
    (hread : readingOf e < l'.windowStartedAt + seconds W)
    (horigin : ∃ y ∈ e :: tr, admits caller y = true ∧ readingOf y = l'.windowStartedAt) :
    Rate W M caller (e :: tr) e.after := by
  have hwindow : windowOf caller e = l'.windowStartedAt := windowOf_of_find ha
  have hself : (admitted caller l'.windowStartedAt (e :: tr) : ℤ) = l'.attempts := by
    rw [admitted_cons,admitsUnder,hy,hwindow,hattempts]
    simp
  have hsome : ∀ l, e.after.limits.find caller = some l → l = l' := fun l hl => Option.some.inj (hl.symm.trans ha)
  refine ⟨fun l hl => ?_,fun l hl => ?_,fun x hx l hl => ?_,fun w => ?_,fun x hx hadmits => ?_,?_⟩
  · obtain rfl := hsome l hl
    exact ⟨hle,hself.symm⟩
  · obtain rfl := hsome l hl
    exact horigin
  · rcases List.mem_cons.mp hx with rfl | hx
    · exact ⟨l,hl,.inl rfl⟩
    · obtain ⟨l₁,hl₁,hspaced₁⟩ := h.starts x hx l hl
      refine ⟨l',ha,?_⟩
      have hpos : (0 : ℤ) ≤ seconds W := by
        simp only [seconds]
        omega
      rcases hspaced₁ with heq | hlt <;> rcases hspaced l₁ hl₁ with heq' | hlt'
      · exact .inl (heq'.trans heq)
      · exact .inr (by rw [← heq]; exact hlt')
      · exact .inr (by rw [heq']; exact hlt)
      · exact .inr (hlt.trans ((Int.le_add_of_nonneg_right hpos).trans hlt'))
  · by_cases hw : l'.windowStartedAt = w
    · subst hw
      omega
    · have hcount := h.count w
      rw [admitted_cons,admitsUnder,hwindow]
      simpa [hw] using hcount
  · rcases List.mem_cons.mp hx with rfl | hx
    · exact ⟨l',ha⟩
    · exact h.recorded x hx hadmits
  · intro post x pre he hadmits
    cases post with
    | nil =>
      obtain ⟨rfl,rfl⟩ := List.cons.inj he
      rw [hwindow]
      exact ⟨hread,horigin⟩
    | cons y post => exact h.reads post x pre (List.cons.inj he).2 hadmits

theorem Rate.step {W M : ℕ} {caller : String} (h : Rate W M caller tr e.before)
    (hs : LimitStep W M caller e) : Rate W M caller (e :: tr) e.after := by
  cases hs with
  | same hf hn =>
    exact h.keep hn (fun l hl => ⟨l,by rwa [← hf],rfl,rfl⟩) fun l hl => ⟨l,by rwa [hf],rfl⟩
  | refused l l' hb ha hw hattempts hn =>
    refine h.keep hn (fun x hx => ⟨l,hb,?_⟩) fun x hx => ⟨l',ha,?_⟩
    · obtain rfl := Option.some.inj (ha.symm.trans hx)
      exact ⟨hw,hattempts⟩
    · obtain rfl := Option.some.inj (hb.symm.trans hx)
      exact hw
  | taken l l' hb ha hw hattempts hroom hin hy =>
    obtain ⟨-,hcount⟩ := h.row l hb
    refine h.take hy ha (fun x hx => ?_) (by rw [hattempts,hw,hcount]) (by omega) (by rwa [hw]) ?_
    · obtain rfl := Option.some.inj (hb.symm.trans hx)
      exact .inl hw
    · obtain ⟨y,hy,hya,hyr⟩ := h.origin l hb
      exact ⟨y,List.mem_cons_of_mem e hy,hya,by rw [hw,hyr]⟩
  | opened l' hW hM hb ha hw hattempts hy =>
    -- no attempt before has been admitted under the window that begins now
    have hzero : admitted caller l'.windowStartedAt tr = 0 := by
      rw [admitted,List.countP_eq_zero]
      intro x hx hunder
      simp only [admitsUnder,Bool.and_eq_true,decide_eq_true_eq] at hunder
      obtain ⟨lx,hlx⟩ := h.recorded x hx hunder.1
      obtain ⟨l,hl,hspaced⟩ := h.starts x hx lx hlx
      have hout := hb l hl
      have hwx := windowOf_of_find hlx
      have hpos := seconds_pos hW
      rw [hunder.2,hw] at hwx
      rcases hspaced with heq | hlt
      · rw [heq,← hwx] at hout
        exact absurd hout (Int.not_le.mpr (Int.lt_add_of_pos_right _ hpos))
      · rw [← hwx] at hlt
        have hle := hlt.trans ((Int.le_add_of_nonneg_right hpos.le).trans hout)
        exact absurd hle (Int.not_le.mpr (Int.lt_add_of_pos_right _ hpos))
    refine h.take hy ha (fun l hl => .inr ?_) (by rw [hattempts,hzero]; rfl) (by omega) ?_ ⟨e,by simp,hy,hw.symm⟩
    · rw [hw]
      exact hb l hl
    · rw [hw]
      exact Int.lt_add_of_pos_right _ (seconds_pos hW)

/-- The limit of a caller in every run, whatever is called, whose rate admissions agree on window and
maximum. -/
theorem rate_of_reachable {main : κ → Program Effect Effect.Ans ρ} {c : Config κ Effect Effect.Ans ρ Database}
    (hc : Config.Reachable main (store E).serial Database.empty c) {W M : ℕ}
    (hr : ∀ e ∈ c.trace, SlotFor W M e) (caller : String) : Rate W M caller c.trace c.state := by
  have hI := hc.invariant (I := fun tr d => (∀ e ∈ tr, SlotFor W M e) → Rate W M caller tr d) ?_ ?_
  · exact hI hr
  · intro _
    exact ⟨fun l h => by simp [Database.empty] at h,fun l h => by simp [Database.empty] at h,fun x hx => by simp at hx,
      fun w => Nat.zero_le _,fun x hx => by simp at hx,fun post x pre he => by simp at he⟩
  · intro tr e h hl hall
    exact (h fun x hx => hall x (List.mem_cons_of_mem e hx)).step (limitStep hl (hall e (by simp)) caller)

end Steps
end LensoServiceAccount
