import LensoServiceAccount.Library.Relational

/-! Two runs of the same calls over two states, under one schedule. The calls may go different ways
inside, as long as every operation of one is matched by an operation of the other. -/

namespace Program
variable {Op : Type} {Ans : Op → Type} {C σ σ' α β γ δ : Type}

/-- Two programs that perform matching operations, whatever happens to the states between them: from
states related by `R`, and as long as the answers of the first program are `good`. -/
def Lockstep (H : Handler Op Ans C σ) (H' : Handler Op Ans C σ') (R : σ → σ' → Prop) (good : (o : Op) → Ans o → Prop)
    (A : (o : Op) → Ans o → (o' : Op) → Ans o' → Prop) : Program Op Ans α → Program Op Ans β → (α → β → Prop) → Prop
  | pure a, pure b, Q => Q a b
  | perform o next, perform o' next', Q => ∀ c s s' a t, R s s' → H o c s = some (a, t) → good o a →
      ∃ a' t', H' o' c s' = some (a', t') ∧ R t t' ∧ A o a o' a' ∧ (next a).Lockstep H H' R good A (next' a') Q
  | pure _, perform _ _, _ => False
  | perform _ _, pure _, _ => False

/-- An operation that both sides answer alike. -/
def Agrees (H : Handler Op Ans C σ) (H' : Handler Op Ans C σ') (R : σ → σ' → Prop) (o : Op) : Prop :=
  ∀ c s s' a t, R s s' → H o c s = some (a, t) → ∃ t', H' o c s' = some (a, t') ∧ R t t'

section
variable {H : Handler Op Ans C σ} {H' : Handler Op Ans C σ'} {R : σ → σ' → Prop} {good : (o : Op) → Ans o → Prop}
  {A : (o : Op) → Ans o → (o' : Op) → Ans o' → Prop}

theorem Lockstep.mono {p : Program Op Ans α} {q : Program Op Ans β} {Q Q' : α → β → Prop}
    (h : p.Lockstep H H' R good A q Q) (hQ : ∀ a b, Q a b → Q' a b) : p.Lockstep H H' R good A q Q' := by
  induction p generalizing q with
  | pure a =>
    cases q with
    | pure b => exact hQ a b h
    | perform o' next' => exact h
  | perform o next ih =>
    cases q with
    | pure b => exact h
    | perform o' next' =>
      intro c s s' a t hR hc hg
      obtain ⟨a',t',hc',hR',hA,hn⟩ := h c s s' a t hR hc hg
      exact ⟨a',t',hc',hR',hA,ih a hn⟩

theorem Lockstep.bind {p : Program Op Ans α} {q : Program Op Ans β} {f : α → Program Op Ans γ}
    {g : β → Program Op Ans δ} {Q : γ → δ → Prop}
    (h : p.Lockstep H H' R good A q fun a b => (f a).Lockstep H H' R good A (g b) Q) :
    (p >>= f).Lockstep H H' R good A (q >>= g) Q := by
  induction p generalizing q with
  | pure a =>
    cases q with
    | pure b => exact h
    | perform o' next' => exact h.elim
  | perform o next ih =>
    cases q with
    | pure b => exact h.elim
    | perform o' next' =>
      intro c s s' a t hR hc hg
      obtain ⟨a',t',hc',hR',hA,hn⟩ := h c s s' a t hR hc hg
      exact ⟨a',t',hc',hR',hA,ih a hn⟩

/-- The same operation on both sides, answered alike. -/
theorem Lockstep.performed {o : Op} {next : Ans o → Program Op Ans α} {next' : Ans o → Program Op Ans β}
    {Q : α → β → Prop} (ho : Agrees H H' R o) (hA : ∀ a, A o a o a)
    (h : ∀ a, good o a → (next a).Lockstep H H' R good A (next' a) Q) :
    Lockstep H H' R good A (perform o next) (perform o next') Q := by
  intro c s s' a t hR hc hg
  obtain ⟨t',hc',hR'⟩ := ho c s s' a t hR hc
  exact ⟨a,t',hc',hR',hA a,h a hg⟩

/-- Nothing has to match where no answer is good. -/
theorem Lockstep.never (hgood : ∀ o a, ¬good o a) (p : Program Op Ans α) : p.Lockstep H H' R good A p Eq := by
  cases p with
  | pure a => rfl
  | perform o next => exact fun c s s' a t hR hc hg => absurd hg (hgood o a)

/-- Both fail alike, or both succeed with results related by `S`. -/
inductive Outcomes {ε : Type} (S : α → β → Prop) : Except ε α → Except ε β → Prop
  | ok {a : α} {b : β} (h : S a b) : Outcomes S (.ok a) (.ok b)
  | error (e : ε) : Outcomes S (.error e) (.error e)

theorem Lockstep.bindExcept {ε : Type} {p : ExceptT ε (Program Op Ans) α} {q : ExceptT ε (Program Op Ans) β}
    {f : α → ExceptT ε (Program Op Ans) γ} {g : β → ExceptT ε (Program Op Ans) γ} {S : α → β → Prop}
    (h : Lockstep H H' R good A p.run q.run (Outcomes S))
    (hf : ∀ a b, S a b → Lockstep H H' R good A (f a).run (g b).run Eq) :
    Lockstep H H' R good A (p >>= f).run (q >>= g).run Eq := by
  apply Lockstep.bind (p := p.run) (q := q.run)
  apply h.mono
  intro r r' hr
  cases hr with
  | ok hab => exact hf _ _ hab
  | error e => rfl

end
end Program

namespace Config
variable {κ Op : Type} {Ans : Op → Type} {ρ σ C : Type} (main : κ → Program Op Ans ρ) (H : Program.Handler Op Ans C σ)
  (R : σ → σ → Prop) (good : κ → (o : Op) → Ans o → Prop) (A : (o : Op) → Ans o → (o' : Op) → Ans o' → Prop)

/-- The same call, in lockstep on both sides, or over on both. -/
inductive Matched : Thread κ Op Ans ρ → Thread κ Op Ans ρ → Prop
  | running {call : κ} {p q : Program Op Ans ρ} (h : p.Lockstep H H R (good call) A q Eq) :
      Matched (.running call p) (.running call q)
  | «over» {call : κ} : Matched (.over call) (.over call)

/-- What a call does on the two sides: the operations match, the replies are the same. -/
inductive MatchedAct : Act Op Ans ρ → Act Op Ans ρ → Prop
  | start : MatchedAct .start .start
  | perform {o o' : Op} {a : Ans o} {a' : Ans o'} (h : A o a o' a') : MatchedAct (.perform o a) (.perform o' a')
  | reply {r : ρ} : MatchedAct (.reply r) (.reply r)
  | stop : MatchedAct .stop .stop

/-- Matching steps of the same call. -/
structure MatchedEvent (e e' : Event κ Op Ans ρ σ) : Prop where
  tid : e'.tid = e.tid
  call : e'.call = e.call
  action : MatchedAct A e.action e'.action

/-- Two configurations of the same calls, at matching places. -/
structure Abreast (c c' : Config κ Op Ans ρ σ) : Prop where
  state : R c.state c'.state
  threads : List.Forall₂ (Matched H R good A) c.threads c'.threads
  trace : List.Forall₂ (MatchedEvent A) c.trace c'.trace

variable {main H R good A}

lemma matched_get {xs ys : List (Thread κ Op Ans ρ)} (h : List.Forall₂ (Matched H R good A) xs ys) {i : ℕ}
    {t : Thread κ Op Ans ρ} (hi : xs[i]? = some t) : ∃ t', ys[i]? = some t' ∧ Matched H R good A t t' := by
  induction h generalizing i with
  | nil => simp at hi
  | @cons x y xs ys hxy hrest ih =>
    cases i with
    | zero =>
      simp only [List.getElem?_cons_zero,Option.some.injEq] at hi
      subst hi
      exact ⟨y,rfl,hxy⟩
    | succ i => exact ih hi

lemma matched_set {xs ys : List (Thread κ Op Ans ρ)} (h : List.Forall₂ (Matched H R good A) xs ys) (i : ℕ)
    {t t' : Thread κ Op Ans ρ} (ht : Matched H R good A t t') :
    List.Forall₂ (Matched H R good A) (xs.set i t) (ys.set i t') := by
  induction h generalizing i with
  | nil => exact .nil
  | cons hxy hrest ih =>
    cases i with
    | zero => exact .cons ht hrest
    | succ i => exact .cons hxy (ih i)

lemma Abreast.advance {c c' : Config κ Op Ans ρ σ} (h : Abreast H R good A c c') (i : ℕ) (call : κ)
    {action action' : Act Op Ans ρ} (ha : MatchedAct A action action') {s s' : σ} (hs : R s s')
    {t t' : Thread κ Op Ans ρ} (ht : Matched H R good A t t') :
    Abreast H R good A (c.advance i call action s t) (c'.advance i call action' s' t') where
  state := hs
  threads := matched_set h.threads i ht
  trace := .cons ⟨rfl,rfl,ha⟩ h.trace

/-- What one side can do, the other side can do as well. -/
theorem Abreast.step (hmain : ∀ call, (main call).Lockstep H H R (good call) A (main call) Eq)
    {c c' d : Config κ Op Ans ρ σ} (h : Abreast H R good A c c') {l : Label κ C} (hs : c.step main H l = some d)
    (hgood : ∀ e ∈ d.trace, ∀ o a, e.action = .perform o a → good e.call o a) :
    ∃ d', c'.step main H l = some d' ∧ Abreast H R good A d d' := by
  cases l with
  | start call =>
    cases hs
    have hlength : c'.threads.length = c.threads.length := h.threads.length_eq.symm
    refine ⟨_,rfl,h.state,?_,.cons ⟨hlength,rfl,.start⟩ h.trace⟩
    exact List.rel_append h.threads (.cons (.running (hmain call)) .nil)
  | perform tid choice =>
    simp only [Config.step] at hs
    split at hs
    · next call o next hth =>
      split at hs
      · next a t hc =>
        cases hs
        have hg : good call o a := hgood _ (List.mem_cons_self ..) o a rfl
        obtain ⟨th,hth',hmatched⟩ := matched_get h.threads hth
        cases hmatched with
        | @running _ _ q hq =>
          cases q with
          | pure b => exact hq.elim
          | perform o' next' =>
            obtain ⟨a',t',hc',hR,hA,hn⟩ := hq choice _ _ a t h.state hc hg
            refine ⟨_,?_,h.advance tid call (.perform hA) hR (.running hn)⟩
            simp only [Config.step,hth',hc']
      · contradiction
    · contradiction
  | reply tid =>
    simp only [Config.step] at hs
    split at hs
    · next call r hth =>
      cases hs
      obtain ⟨th,hth',hmatched⟩ := matched_get h.threads hth
      cases hmatched with
      | @running _ _ q hq =>
        cases q with
        | perform o' next' => exact hq.elim
        | pure b =>
          obtain rfl : r = b := hq
          refine ⟨_,?_,h.advance tid call .reply h.state .over⟩
          simp only [Config.step,hth']
    · contradiction
  | stop tid =>
    simp only [Config.step] at hs
    split at hs
    · next call rest hth =>
      cases hs
      obtain ⟨th,hth',hmatched⟩ := matched_get h.threads hth
      cases hmatched with
      | running hq =>
        refine ⟨_,?_,h.advance tid call .stop h.state .over⟩
        simp only [Config.step,hth']
    · contradiction

/-- Two runs under one schedule stay at matching places. -/
theorem Abreast.run (hmain : ∀ call, (main call).Lockstep H H R (good call) A (main call) Eq)
    {c c' d : Config κ Op Ans ρ σ} (h : Abreast H R good A c c') {ls : List (Label κ C)}
    (hr : c.run main H ls = some d) (hgood : ∀ e ∈ d.trace, ∀ o a, e.action = .perform o a → good e.call o a) :
    ∃ d', c'.run main H ls = some d' ∧ Abreast H R good A d d' := by
  induction ls generalizing c c' with
  | nil =>
    cases hr
    exact ⟨c',rfl,h⟩
  | cons l ls ih =>
    simp only [Config.run] at hr
    cases hs : c.step main H l with
    | none => simp [hs] at hr
    | some e =>
      simp only [hs] at hr
      have hmem := (trace_of_run hr).subset
      obtain ⟨e',hs',he⟩ := h.step hmain hs fun ev hev => hgood ev (hmem hev)
      obtain ⟨d',hr',hd⟩ := ih he hr
      exact ⟨d',by simpa only [Config.run,hs'] using hr',hd⟩

end Config
