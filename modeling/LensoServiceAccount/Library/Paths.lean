import LensoServiceAccount.Library.Interleaving

/-! The steps of a single call, taken out of the history of a run: they lead through its phases. -/

namespace Protocol
variable {κ Op : Type} {Ans : Op → Type} {ρ σ C Φ : Type}

/-- The events of one call. -/
def own (i : ℕ) (tr : List (Event κ Op Ans ρ σ)) : List (Event κ Op Ans ρ σ) := tr.filter fun e => e.tid = i

lemma mem_own {i : ℕ} {tr : List (Event κ Op Ans ρ σ)} {e : Event κ Op Ans ρ σ} :
    e ∈ own i tr ↔ e ∈ tr ∧ e.tid = i := by
  rw [own,List.mem_filter,decide_eq_true_eq]

lemma own_cons_self {i : ℕ} {tr : List (Event κ Op Ans ρ σ)} {e : Event κ Op Ans ρ σ} (h : e.tid = i) :
    own i (e :: tr) = e :: own i tr := List.filter_cons_of_pos (decide_eq_true h)

lemma own_cons_ne {i : ℕ} {tr : List (Event κ Op Ans ρ σ)} {e : Event κ Op Ans ρ σ} (h : e.tid ≠ i) :
    own i (e :: tr) = own i tr := by
  apply List.filter_cons_of_neg
  rw [decide_eq_true_eq]
  exact h

lemma own_eq_nil {i : ℕ} {tr : List (Event κ Op Ans ρ σ)} (h : ∀ e ∈ tr, e.tid ≠ i) : own i tr = [] := by
  rw [own,List.filter_eq_nil_iff]
  intro e he
  rw [decide_eq_true_eq]
  exact h e he

/-- Where the events of one call are divided, the history can be divided. -/
lemma own_split {i : ℕ} {tr later earlier : List (Event κ Op Ans ρ σ)} {e : Event κ Op Ans ρ σ}
    (h : own i tr = later ++ e :: earlier) :
    ∃ post pre, tr = post ++ e :: pre ∧ own i post = later ∧ own i pre = earlier := by
  obtain ⟨post,rest,rfl,hpost,hrest⟩ := List.filter_eq_append_iff.mp h
  obtain ⟨mid,pre,rfl,hmid,-,hpre⟩ := List.filter_eq_cons_iff.mp hrest
  refine ⟨post ++ mid,pre,by simp,?_,hpre⟩
  have hnone : own i mid = [] := List.filter_eq_nil_iff.mpr hmid
  rw [own,List.filter_append,hpost]
  rw [own] at hnone
  rw [hnone,List.append_nil]

/-- Events of one call that lead from its first phase to another one, the newest first. -/
inductive Path (P : Protocol κ Op Ans ρ Φ) (H : Program.Handler Op Ans C σ) (call : κ) :
    List (Event κ Op Ans ρ σ) → Φ → Prop
  | start {e : Event κ Op Ans ρ σ} (hc : e.call = call) (ha : e.action = .start) : Path P H call [e] (P.first call)
  | move {es : List (Event κ Op Ans ρ σ)} {φ φ' : Φ} {o : Op} {choice : C} {a : Ans o} {e : Event κ Op Ans ρ σ}
      (h : Path P H call es φ) (hc : e.call = call) (ha : e.action = .perform o a) (hm : P.move call φ o a φ')
      (hH : H o choice e.before = some (a, e.after)) : Path P H call (e :: es) φ'

section
variable {P : Protocol κ Op Ans ρ Φ} {H : Program.Handler Op Ans C σ} {main : κ → Program Op Ans ρ} {s₀ : σ}

/-- Where a running call is, its own events have led it. -/
theorem path_invariant (P : Protocol κ Op Ans ρ Φ) (H : Program.Handler Op Ans C σ) (s₀ : σ) :
    P.Invariant H s₀ fun tr _ p => ∀ i call φ, p i = some (call, φ) → P.Path H call (own i tr) φ where
  init _ _ _ h := by simp at h
  step {tr s p e p'} h hs i call φ hp := by
    by_cases hi : e.tid = i
    · subst hi
      rw [own_cons_self rfl]
      cases hs with
      | start i call' hpi hfresh =>
        simp only [Function.update_self,Option.some.injEq,Prod.mk.injEq] at hp
        obtain ⟨rfl,rfl⟩ := hp
        rw [own_eq_nil hfresh]
        exact .start rfl rfl
      | perform i call' φ₀ φ' o choice a s' hpi hm hH =>
        simp only [Function.update_self,Option.some.injEq,Prod.mk.injEq] at hp
        obtain ⟨rfl,rfl⟩ := hp
        exact .move (h i _ φ₀ hpi) rfl rfl hm hH
      | reply i call' φ₀ r hpi hl => simp at hp
      | stop i call' φ₀ hpi => simp at hp
    · rw [own_cons_ne hi]
      rw [hs.other (Ne.symm hi)] at hp
      exact h i call φ hp

/-- The events of a call that replies have led to a phase which allows the reply. -/
theorem path_of_reply (ho : P.Obeyed H main) {c : Config κ Op Ans ρ σ} (hc : Config.Reachable main H s₀ c)
    {post pre : List (Event κ Op Ans ρ σ)} {e : Event κ Op Ans ρ σ} (he : c.trace = post ++ e :: pre) {r : ρ}
    (ha : e.action = .reply r) : ∃ φ, P.Path H e.call (own e.tid pre) φ ∧ P.last e.call r φ := by
  obtain ⟨p,p',hpath,hs⟩ := (path_invariant P H s₀).event ho hc he
  generalize e.before = s at hs
  cases hs with
  | start i call hp hi => cases ha
  | perform i call φ φ' o choice a s' hp hm hH => cases ha
  | stop i call φ hp => cases ha
  | reply i call φ r' hp hl =>
    cases ha
    exact ⟨φ,hpath i call φ hp,hl⟩

/-- So have those before an operation. -/
theorem path_of_perform (ho : P.Obeyed H main) {c : Config κ Op Ans ρ σ} (hc : Config.Reachable main H s₀ c)
    {post pre : List (Event κ Op Ans ρ σ)} {e : Event κ Op Ans ρ σ} (he : c.trace = post ++ e :: pre) {o : Op}
    {a : Ans o} (ha : e.action = .perform o a) :
    ∃ φ φ' choice, P.Path H e.call (own e.tid pre) φ ∧ P.move e.call φ o a φ' ∧
      H o choice e.before = some (a, e.after) := by
  obtain ⟨p,p',hpath,hs⟩ := (path_invariant P H s₀).event ho hc he
  generalize hb : e.before = s at hs
  cases hs with
  | start i call hp hi => cases ha
  | reply i call φ r hp hl => cases ha
  | stop i call φ hp => cases ha
  | perform i call φ φ' o' choice a' s' hp hm hH =>
    cases ha
    exact ⟨φ,φ',choice,hpath i call φ hp,hm,hH⟩

end
end Protocol
