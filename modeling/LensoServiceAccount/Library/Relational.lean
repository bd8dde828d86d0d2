import Mathlib.Data.List.Forall2
import LensoServiceAccount.Library.Interleaving

/-! Two runs side by side. Both are answered by the same choices of the environment, operation by
operation; what they may differ in is the state they start from. -/

namespace Program
variable {Op : Type} {Ans : Op → Type} {C σ σ' α β γ δ : Type}

/-- Whatever the choices: when the first program ends, the second ends after as many operations, and
the two results and states are related by `Q`. -/
def Both (H : Handler Op Ans C σ) (H' : Handler Op Ans C σ') :
    Program Op Ans α → Program Op Ans β → (α → β → σ → σ' → Prop) → σ → σ' → Prop
  | pure a, pure b, Q, s, s' => Q a b s s'
  | perform o next, perform o' next', Q, s, s' => ∀ c a t, H o c s = some (a, t) →
      ∃ a' t', H' o' c s' = some (a', t') ∧ (next a).Both H H' (next' a') Q t t'
  | pure _, perform _ _, _, _, _ => False
  | perform _ _, pure _, _, _, _ => False

section
variable {H : Handler Op Ans C σ} {H' : Handler Op Ans C σ'}

theorem Both.mono {p : Program Op Ans α} {q : Program Op Ans β} {Q R : α → β → σ → σ' → Prop} {s : σ} {s' : σ'}
    (h : p.Both H H' q Q s s') (hQR : ∀ a b t t', Q a b t t' → R a b t t') : p.Both H H' q R s s' := by
  induction p generalizing q s s' with
  | pure a =>
    cases q with
    | pure b => exact hQR a b s s' h
    | perform o' next' => exact h
  | perform o next ih =>
    cases q with
    | pure b => exact h
    | perform o' next' =>
      intro c a t hc
      obtain ⟨a',t',hc',hn⟩ := h c a t hc
      exact ⟨a',t',hc',ih a hn⟩

theorem Both.bind {p : Program Op Ans α} {q : Program Op Ans β} {f : α → Program Op Ans γ}
    {g : β → Program Op Ans δ} {Q : γ → δ → σ → σ' → Prop} {s : σ} {s' : σ'}
    (h : p.Both H H' q (fun a b t t' => (f a).Both H H' (g b) Q t t') s s') :
    (p >>= f).Both H H' (q >>= g) Q s s' := by
  induction p generalizing q s s' with
  | pure a =>
    cases q with
    | pure b => exact h
    | perform o' next' => exact h.elim
  | perform o next ih =>
    cases q with
    | pure b => exact h.elim
    | perform o' next' =>
      intro c a t hc
      obtain ⟨a',t',hc',hn⟩ := h c a t hc
      exact ⟨a',t',hc',ih a hn⟩

/-- What the next two programs have to do after two results. A failure skips what follows. -/
def Onward (H : Handler Op Ans C σ) (H' : Handler Op Ans C σ') {ε ε' : Type}
    (f : α → ExceptT ε (Program Op Ans) γ) (g : β → ExceptT ε' (Program Op Ans) δ)
    (Q : Except ε γ → Except ε' δ → σ → σ' → Prop) : Except ε α → Except ε' β → σ → σ' → Prop
  | .ok a, .ok b, s, s' => Both H H' (f a).run (g b).run Q s s'
  | .error e, .error e', s, s' => Q (.error e) (.error e') s s'
  | .ok a, .error e', s, s' => Both H H' (f a).run (Pure.pure (.error e')) Q s s'
  | .error e, .ok b, s, s' => Both H H' (Pure.pure (.error e)) (g b).run Q s s'

theorem Both.bindExcept {ε ε' : Type} {p : ExceptT ε (Program Op Ans) α} {q : ExceptT ε' (Program Op Ans) β}
    {f : α → ExceptT ε (Program Op Ans) γ} {g : β → ExceptT ε' (Program Op Ans) δ}
    {Q : Except ε γ → Except ε' δ → σ → σ' → Prop} {s : σ} {s' : σ'}
    (h : Both H H' p.run q.run (Onward H H' f g Q) s s') : Both H H' (p >>= f).run (q >>= g).run Q s s' := by
  apply Both.bind (p := p.run) (q := q.run)
  apply h.mono
  rintro (e | a) (e' | b) t t' hr <;> exact hr

theorem Both.run {p : Program Op Ans α} {q : Program Op Ans β} {Q : α → β → σ → σ' → Prop} {s t : σ} {s' : σ'}
    {cs : List C} {a : α} (h : p.Both H H' q Q s s') (hr : p.run H cs s = some (a, t)) :
    ∃ b t', q.run H' cs s' = some (b, t') ∧ Q a b t t' := by
  induction cs generalizing p q s s' with
  | nil =>
    cases p with
    | perform o next => simp [Program.run] at hr
    | pure a₀ =>
      cases hr
      cases q with
      | pure b => exact ⟨b,s',rfl,h⟩
      | perform o' next' => exact h.elim
  | cons c cs ih =>
    cases p with
    | pure a₀ => simp [Program.run] at hr
    | perform o next =>
      cases q with
      | pure b => exact h.elim
      | perform o' next' =>
        simp only [Program.run] at hr
        cases hc : H o c s with
        | none => simp [hc] at hr
        | some r =>
          simp only [hc] at hr
          obtain ⟨a',t₁,hc',hn⟩ := h c r.1 r.2 hc
          obtain ⟨b,t',hr',hQ⟩ := ih hn hr
          exact ⟨b,t',by simpa only [Program.run,hc'] using hr',hQ⟩

/-- The same operation on both sides, answered alike. -/
theorem Both.performed {o : Op} {next : Ans o → Program Op Ans α} {next' : Ans o → Program Op Ans β}
    {Q : α → β → σ → σ' → Prop} {s : σ} {s' : σ'}
    (h : ∀ c a t, H o c s = some (a, t) → ∃ t', H' o c s' = some (a, t') ∧ (next a).Both H H' (next' a) Q t t') :
    Both H H' (perform o next) (perform o next') Q s s' := by
  intro c a t hc
  obtain ⟨t',hc',hn⟩ := h c a t hc
  exact ⟨a,t',hc',hn⟩

/-- Operations that are answered alike and keep a relation of the states. -/
theorem Both.translated {Op' : Type} {Ans' : Op' → Type} {f : Op' → Op} {g : (o : Op') → Ans (f o) → Ans' o}
    {R : σ → σ' → Prop}
    (hH : ∀ o c a s s' t, R s s' → H (f o) c s = some (a, t) → ∃ t', H' (f o) c s' = some (a, t') ∧ R t t')
    (p : Program Op' Ans' α) {s : σ} {s' : σ'} (hR : R s s') :
    (p.translate f g).Both H H' (p.translate f g) (fun a b t t' => a = b ∧ R t t') s s' := by
  induction p generalizing s s' with
  | pure a => exact ⟨rfl,hR⟩
  | perform o next ih =>
    intro c a t hc
    obtain ⟨t',hc',hR'⟩ := hH o c a s s' t hR hc
    exact ⟨a,t',hc',ih (g o a) hR'⟩

end

open Classical in
/-- The environment confined to good states. -/
noncomputable def Handler.guarded (H : Handler Op Ans C σ) (P : σ → Prop) : Handler Op Ans C σ :=
  fun o c s => if P s then H o c s else none

lemma Handler.guarded_of {H : Handler Op Ans C σ} {P : σ → Prop} {s : σ} (h : P s) (o : Op) (c : C) :
    H.guarded P o c s = H o c s := if_pos h

lemma Handler.of_guarded {H : Handler Op Ans C σ} {P : σ → Prop} {o : Op} {c : C} {s : σ} {r : Ans o × σ}
    (h : H.guarded P o c s = some r) : P s ∧ H o c s = some r := by
  by_cases hP : P s
  · rw [Handler.guarded_of hP] at h
    exact ⟨hP,h⟩
  · simp [Handler.guarded,hP] at h

end Program

namespace Config
variable {κ Op : Type} {Ans : Op → Type} {ρ σ C : Type} {main : κ → Program Op Ans ρ} {H : Program.Handler Op Ans C σ}

/-- A run only adds to the history. -/
theorem trace_of_run {c d : Config κ Op Ans ρ σ} {ls : List (Label κ C)} (h : c.run main H ls = some d) :
    c.trace <:+ d.trace := by
  induction ls generalizing c with
  | nil => cases h; exact List.suffix_refl _
  | cons l ls ih =>
    simp only [run] at h
    cases hs : c.step main H l with
    | none => simp [hs] at h
    | some e =>
      simp only [hs] at h
      obtain ⟨ev,htr,-,-,-⟩ := step_event hs
      exact (List.suffix_cons ev c.trace).trans (htr ▸ ih h)

/-- A run through good states is one of the confined environment. -/
theorem Leads.guarded {P : σ → Prop} {c d : Config κ Op Ans ρ σ} (h : Leads main H c d)
    (hP : ∀ e ∈ d.trace, P e.before) : Leads main (H.guarded P) c d := by
  induction h with
  | refl => exact .refl
  | @tail d e l h hs ih =>
    obtain ⟨ev,htr,hb,-,-⟩ := step_event hs
    rw [htr] at hP
    have hstate : P d.state := hb ▸ hP ev (List.mem_cons_self ..)
    refine (ih fun x hx => hP x (List.mem_cons_of_mem _ hx)).tail l ?_
    cases l with
    | perform tid choice =>
      simp only [step,Program.Handler.guarded_of hstate] at hs ⊢
      exact hs
    | _ => exact hs

/-- Two events at which the same call does the same. -/
def SameAct (e e' : Event κ Op Ans ρ σ) : Prop := e.tid = e'.tid ∧ e.call = e'.call ∧ e.action = e'.action

/-- Two configurations that only their states tell apart. -/
structure Alike (R : σ → σ → Prop) (c c' : Config κ Op Ans ρ σ) : Prop where
  state : R c.state c'.state
  threads : c'.threads = c.threads
  trace : List.Forall₂ SameAct c.trace c'.trace

variable {R : σ → σ → Prop} {good : (o : Op) → Ans o → Prop}

lemma Alike.start {c c' : Config κ Op Ans ρ σ} (h : Alike R c c') (call : κ) :
    Alike R ⟨c.state,c.threads ++ [.running call (main call)],⟨c.threads.length,call,.start,c.state,c.state⟩ :: c.trace⟩
      ⟨c'.state,c'.threads ++ [.running call (main call)],
        ⟨c'.threads.length,call,.start,c'.state,c'.state⟩ :: c'.trace⟩ where
  state := h.state
  threads := by rw [h.threads]
  trace := .cons ⟨by rw [h.threads],rfl,rfl⟩ h.trace

lemma Alike.advance {c c' : Config κ Op Ans ρ σ} (h : Alike R c c') (i : ℕ) (call : κ) (action : Act Op Ans ρ)
    {s s' : σ} (hs : R s s') (t : Thread κ Op Ans ρ) :
    Alike R (c.advance i call action s t) (c'.advance i call action s' t) where
  state := hs
  threads := by rw [Config.advance,Config.advance,h.threads]
  trace := .cons ⟨rfl,rfl,rfl⟩ h.trace

/-- What one configuration can do, the other one can do as well, as long as the operations that are
performed are `good`. -/
theorem Alike.step (hH : ∀ o ch a s s' t, good o a → R s s' → H o ch s = some (a, t) →
      ∃ t', H o ch s' = some (a, t') ∧ R t t')
    {c c' d : Config κ Op Ans ρ σ} (h : Alike R c c') {l : Label κ C} (hs : c.step main H l = some d)
    (hgood : ∀ e ∈ d.trace, ∀ o a, e.action = .perform o a → good o a) :
    ∃ d', c'.step main H l = some d' ∧ Alike R d d' := by
  cases l with
  | start call =>
    cases hs
    exact ⟨_,rfl,h.start call⟩
  | perform tid choice =>
    simp only [Config.step] at hs
    split at hs
    · next call o next hth =>
      split at hs
      · next a t hc =>
        cases hs
        have hperf : good o a := hgood _ (List.mem_cons_self ..) o a rfl
        obtain ⟨t',hc',hR⟩ := hH o choice a _ _ t hperf h.state hc
        refine ⟨_,?_,h.advance tid call (.perform o a) hR (.running call (next a))⟩
        simp only [Config.step,h.threads,hth,hc']
      · contradiction
    · contradiction
  | reply tid =>
    simp only [Config.step] at hs
    split at hs
    · next call r hth =>
      cases hs
      refine ⟨_,?_,h.advance tid call (.reply r) h.state (.over call)⟩
      simp only [Config.step,h.threads,hth]
    · contradiction
  | stop tid =>
    simp only [Config.step] at hs
    split at hs
    · next call rest hth =>
      cases hs
      refine ⟨_,?_,h.advance tid call .stop h.state (.over call)⟩
      simp only [Config.step,h.threads,hth]
    · contradiction

/-- Two runs under the same schedule stay side by side. -/
theorem Alike.run (hH : ∀ o ch a s s' t, good o a → R s s' → H o ch s = some (a, t) →
      ∃ t', H o ch s' = some (a, t') ∧ R t t')
    {c c' d : Config κ Op Ans ρ σ} (h : Alike R c c') {ls : List (Label κ C)} (hr : c.run main H ls = some d)
    (hgood : ∀ e ∈ d.trace, ∀ o a, e.action = .perform o a → good o a) :
    ∃ d', c'.run main H ls = some d' ∧ Alike R d d' := by
  induction ls generalizing c c' with
  | nil =>
    cases hr
    exact ⟨c',rfl,h⟩
  | cons l ls ih =>
    simp only [Config.run] at hr
    cases hs : c.step main H l with
    | none => simp [hs] at hr
    | some e =>
      simp only [hs] at hr
      have hmem := (trace_of_run hr).subset
      obtain ⟨e',hs',he⟩ := h.step hH hs fun ev hev => hgood ev (hmem hev)
      obtain ⟨d',hr',hd⟩ := ih he hr
      exact ⟨d',by simpa only [Config.run,hs'] using hr',hd⟩

end Config
