import Mathlib.Logic.Basic

/-! Programs as trees of operations, and two logics over them. An operation is answered by
its surroundings; the program only says which operation comes next for every answer. -/

/-- A program that asks for operations and goes on with their answers. -/
inductive Program (Op : Type) (Ans : Op → Type) (α : Type) : Type
  | pure (value : α) : Program Op Ans α
  | perform (o : Op) (next : Ans o → Program Op Ans α) : Program Op Ans α

namespace Program
variable {Op : Type} {Ans : Op → Type} {α β γ σ C Φ : Type}

def bind (p : Program Op Ans α) (f : α → Program Op Ans β) : Program Op Ans β :=
  match p with
  | pure a => f a
  | perform o next => perform o fun a => (next a).bind f

instance : Monad (Program Op Ans) where
  pure := pure
  bind := bind

/-- The program that performs one operation and returns its answer. -/
def call (o : Op) : Program Op Ans (Ans o) := perform o pure

@[simp] theorem pure_bind (a : α) (f : α → Program Op Ans β) : (Pure.pure a >>= f) = f a := rfl

@[simp] theorem call_bind (o : Op) (f : Ans o → Program Op Ans β) :
    (call o >>= f) = perform o f := rfl

@[simp] theorem perform_bind (o : Op) (next : Ans o → Program Op Ans α)
    (f : α → Program Op Ans β) :
    (perform o next >>= f) = perform o fun a => next a >>= f := rfl

theorem bind_assoc (p : Program Op Ans α) (f : α → Program Op Ans β)
    (g : β → Program Op Ans γ) : (p >>= f) >>= g = p >>= fun a => f a >>= g := by
  induction p with
  | pure a => rfl
  | perform o next ih =>
    change perform o (fun a => (next a >>= f) >>= g) = perform o fun a => next a >>= fun b => f b >>= g
    congr 1
    funext a
    exact ih a

/-- What performing an operation does to a state, under one choice of the environment.
`none` means that the choice is not one the environment has for this operation. -/
abbrev Handler (Op : Type) (Ans : Op → Type) (C σ : Type) :=
  (o : Op) → C → σ → Option (Ans o × σ)

/-- Run a program to its end, one environment choice for each operation. -/
def run (H : Handler Op Ans C σ) : Program Op Ans α → List C → σ → Option (α × σ)
  | pure a, [], s => some (a, s)
  | pure _, _ :: _, _ => none
  | perform _ _, [], _ => none
  | perform o next, c :: cs, s =>
    match H o c s with
    | none => none
    | some (a, s') => (next a).run H cs s'

/-- A program ends when every operation can go on, and keeps what every operation can keep. -/
theorem exists_run_keeping {H : Handler Op Ans C σ} {P : σ → Prop}
    (hH : ∀ o s, P s → ∃ c a s', H o c s = some (a, s') ∧ P s') (p : Program Op Ans α) {s : σ} (h : P s) :
    ∃ cs a s', p.run H cs s = some (a, s') ∧ P s' := by
  induction p generalizing s with
  | pure a => exact ⟨[],a,s,rfl,h⟩
  | perform o next ih =>
    obtain ⟨c,a,s',hr,hs⟩ := hH o s h
    obtain ⟨cs,b,s'',hrun,hs'⟩ := ih a hs
    exact ⟨c :: cs,b,s'',by simpa only [run,hr] using hrun,hs'⟩

theorem exists_run {H : Handler Op Ans C σ} (hH : ∀ o s, ∃ c, H o c s ≠ none) (p : Program Op Ans α)
    (s : σ) : ∃ cs a s', p.run H cs s = some (a, s') := by
  have hgo : ∀ o s, True → ∃ c a s', H o c s = some (a, s') ∧ True := by
    intro o s _
    obtain ⟨c,hc⟩ := hH o s
    obtain ⟨⟨a,s'⟩,hr⟩ := Option.ne_none_iff_exists'.mp hc
    exact ⟨c,a,s',hr,trivial⟩
  obtain ⟨cs,a,s',hrun,-⟩ := exists_run_keeping hgo p (s := s) trivial
  exact ⟨cs,a,s',hrun⟩

/-- The environment confined to some of its choices for each operation. -/
def Handler.restrict (H : Handler Op Ans C σ) (good : Op → C → Bool) : Handler Op Ans C σ :=
  fun o c s => if good o c then H o c s else none

theorem Handler.restrict_true (H : Handler Op Ans C σ) : H.restrict (fun _ _ => true) = H := rfl

theorem run_of_restrict {H : Handler Op Ans C σ} {good : Op → C → Bool} {p : Program Op Ans α}
    {cs : List C} {s : σ} {r : α × σ} (hr : p.run (H.restrict good) cs s = some r) :
    p.run H cs s = some r := by
  induction cs generalizing p s with
  | nil =>
    cases p with
    | pure a => exact hr
    | perform o next => simp [run] at hr
  | cons c cs ih =>
    cases p with
    | pure a => simp [run] at hr
    | perform o next =>
      simp only [run,Handler.restrict] at hr ⊢
      by_cases hc : good o c = true
      · simp only [hc,if_true] at hr
        cases hH : H o c s with
        | none => simp [hH] at hr
        | some r' =>
          simp only [hH] at hr ⊢
          exact ih hr
      · simp [hc] at hr

/-- Run the first operations of a program and keep what is left of it. -/
def advance (H : Handler Op Ans C σ) : Program Op Ans α → List C → σ →
    Option (Program Op Ans α × σ)
  | p, [], s => some (p, s)
  | pure _, _ :: _, _ => none
  | perform o next, c :: cs, s =>
    match H o c s with
    | none => none
    | some (a, s') => (next a).advance H cs s'

theorem advance_snoc (H : Handler Op Ans C σ) {p : Program Op Ans α} {cs : List C} {s : σ}
    {o : Op} {next : Ans o → Program Op Ans α} {s₁ : σ} {c : C} {a : Ans o} {s₂ : σ}
    (h : p.advance H cs s = some (perform o next, s₁)) (hc : H o c s₁ = some (a, s₂)) :
    p.advance H (cs ++ [c]) s = some (next a, s₂) := by
  induction cs generalizing p s with
  | nil =>
    simp only [advance,Option.some.injEq,Prod.mk.injEq] at h
    obtain ⟨rfl,rfl⟩ := h
    simp [advance,hc]
  | cons d ds ih =>
    cases p with
    | pure a => simp [advance] at h
    | perform o' next' =>
      simp only [advance,List.cons_append] at h ⊢
      cases hd : H o' d s with
      | none => simp [hd] at h
      | some r =>
        simp only [hd] at h ⊢
        exact ih h

/-- Go on from where a program has been stopped. -/
theorem run_append (H : Handler Op Ans C σ) {p rest : Program Op Ans α} {cs ds : List C} {s s₁ : σ}
    {r : α × σ} (h : p.advance H cs s = some (rest, s₁)) (hr : rest.run H ds s₁ = some r) :
    p.run H (cs ++ ds) s = some r := by
  induction cs generalizing p s with
  | nil =>
    simp only [advance,Option.some.injEq,Prod.mk.injEq] at h
    obtain ⟨rfl,rfl⟩ := h
    exact hr
  | cons c cs ih =>
    cases p with
    | pure a => simp [advance] at h
    | perform o next =>
      simp only [advance,run,List.cons_append] at h ⊢
      cases hc : H o c s with
      | none => simp [hc] at h
      | some r' =>
        simp only [hc] at h ⊢
        exact ih h

theorem run_of_advance (H : Handler Op Ans C σ) {p : Program Op Ans α} {cs : List C} {s s' : σ}
    {a : α} (h : p.advance H cs s = some (pure a, s')) : p.run H cs s = some (a, s') := by
  have hrun := run_append H h (show (pure a : Program Op Ans α).run H [] s' = some (a, s') from rfl)
  rwa [List.append_nil] at hrun

/-- Weakest precondition: every run from `s` that ends does so in `Q`. -/
def wp (H : Handler Op Ans C σ) : Program Op Ans α → (α → σ → Prop) → σ → Prop
  | pure a, Q, s => Q a s
  | perform o next, Q, s => ∀ c a s', H o c s = some (a, s') → (next a).wp H Q s'

theorem wp_run (H : Handler Op Ans C σ) {p : Program Op Ans α} {Q : α → σ → Prop} {cs : List C}
    {s s' : σ} {a : α} (hw : p.wp H Q s) (hr : p.run H cs s = some (a, s')) : Q a s' := by
  induction cs generalizing p s with
  | nil =>
    cases p with
    | pure b => cases hr; exact hw
    | perform o next => simp [run] at hr
  | cons c cs ih =>
    cases p with
    | pure b => simp [run] at hr
    | perform o next =>
      simp only [run] at hr
      cases hc : H o c s with
      | none => simp [hc] at hr
      | some r =>
        simp only [hc] at hr
        exact ih (hw c r.1 r.2 hc) hr

theorem wp_mono (H : Handler Op Ans C σ) {p : Program Op Ans α} {Q R : α → σ → Prop} {s : σ}
    (h : p.wp H Q s) (hQR : ∀ a s', Q a s' → R a s') : p.wp H R s := by
  induction p generalizing s with
  | pure a => exact hQR a s h
  | perform o next ih => exact fun c a s' hc => ih a (h c a s' hc)

theorem wp_bind (H : Handler Op Ans C σ) (p : Program Op Ans α) (f : α → Program Op Ans β)
    (Q : β → σ → Prop) (s : σ) :
    (p >>= f).wp H Q s ↔ p.wp H (fun a s' => (f a).wp H Q s') s := by
  induction p generalizing s with
  | pure a => rfl
  | perform o next ih =>
    change (∀ c a s', H o c s = some (a, s') → (next a >>= f).wp H Q s') ↔ _
    simp only [ih]
    rfl

/-- Sequencing of programs that may fail: a failure skips what follows. -/
theorem wp_bind_except (H : Handler Op Ans C σ) {ε : Type} (p : ExceptT ε (Program Op Ans) α)
    (f : α → ExceptT ε (Program Op Ans) β) (Q : Except ε β → σ → Prop) (s : σ) :
    wp H (p >>= f).run Q s ↔ wp H p.run (fun r s' =>
      match r with
      | .ok a => wp H (f a).run Q s'
      | .error e => Q (.error e) s') s := by
  change wp H (p.run >>= _) Q s ↔ _
  rw [wp_bind]
  constructor <;> intro h <;> refine wp_mono H h ?_ <;> rintro (e | a) s' hr <;> exact hr

/-- Conformance to a protocol of phases: whatever the possible answers `ok`, every operation
the program asks for is a move of the protocol, and it ends in a phase that `Q` accepts. -/
def Conforms (ok : (o : Op) → Ans o → Prop) (move : Φ → (o : Op) → Ans o → Φ → Prop) :
    Program Op Ans α → Φ → (α → Φ → Prop) → Prop
  | pure a, φ, Q => Q a φ
  | perform o next, φ, Q => ∀ a, ok o a → ∃ φ', move φ o a φ' ∧ (next a).Conforms ok move φ' Q

section Conforms
variable {ok : (o : Op) → Ans o → Prop} {move : Φ → (o : Op) → Ans o → Φ → Prop}

theorem Conforms.mono {p : Program Op Ans α} {φ : Φ} {Q R : α → Φ → Prop}
    (h : p.Conforms ok move φ Q) (hQR : ∀ a φ', Q a φ' → R a φ') : p.Conforms ok move φ R := by
  induction p generalizing φ with
  | pure a => exact hQR a φ h
  | perform o next ih =>
    intro a ha
    obtain ⟨φ',hm,hn⟩ := h a ha
    exact ⟨φ',hm,ih a hn⟩

theorem conforms_bind (p : Program Op Ans α) (f : α → Program Op Ans β) (φ : Φ)
    (Q : β → Φ → Prop) :
    (p >>= f).Conforms ok move φ Q ↔
      p.Conforms ok move φ fun a φ' => (f a).Conforms ok move φ' Q := by
  induction p generalizing φ with
  | pure a => rfl
  | perform o next ih =>
    change (∀ a, ok o a → ∃ φ', move φ o a φ' ∧ (next a >>= f).Conforms ok move φ' Q) ↔ _
    simp only [ih]
    rfl

theorem conforms_bind_except {ε : Type} (p : ExceptT ε (Program Op Ans) α)
    (f : α → ExceptT ε (Program Op Ans) β) (φ : Φ) (Q : Except ε β → Φ → Prop) :
    Conforms ok move (p >>= f).run φ Q ↔ Conforms ok move p.run φ fun r φ' =>
      match r with
      | .ok a => Conforms ok move (f a).run φ' Q
      | .error e => Q (.error e) φ' := by
  change Conforms ok move (p.run >>= _) φ Q ↔ _
  rw [conforms_bind]
  constructor <;> intro h <;> refine h.mono ?_ <;> rintro (e | a) φ' hr <;> exact hr

end Conforms

section Translate
variable {Op' : Type} {Ans' : Op' → Type}

/-- A program over other operations, each performed as one of ours. -/
def translate (f : Op' → Op) (g : (o : Op') → Ans (f o) → Ans' o) :
    Program Op' Ans' α → Program Op Ans α
  | pure a => pure a
  | perform o next => perform (f o) fun a => (next (g o a)).translate f g

/-- The results of a program whose operations are answered as `ok` allows. -/
def Outcome (ok : (o : Op) → Ans o → Prop) : Program Op Ans α → α → Prop
  | pure a, b => a = b
  | perform o next, b => ∃ a, ok o a ∧ (next a).Outcome ok b

theorem Outcome.mono {ok ok' : (o : Op) → Ans o → Prop} {p : Program Op Ans α} {b : α}
    (h : p.Outcome ok b) (hok : ∀ o a, ok o a → ok' o a) : p.Outcome ok' b := by
  induction p with
  | pure a => exact h
  | perform o next ih =>
    obtain ⟨a,ha,hn⟩ := h
    exact ⟨a,hok o a ha,ih a hn⟩

theorem outcome_bind {ok : (o : Op) → Ans o → Prop} (p : Program Op Ans α) (f : α → Program Op Ans β)
    (b : β) : (p >>= f).Outcome ok b ↔ ∃ a, p.Outcome ok a ∧ (f a).Outcome ok b := by
  induction p with
  | pure a =>
    constructor
    · exact fun h => ⟨a,rfl,h⟩
    · rintro ⟨a',rfl,h⟩
      exact h
  | perform o next ih =>
    constructor
    · rintro ⟨x,hx,h⟩
      obtain ⟨a,ha,hb⟩ := (ih x).mp h
      exact ⟨a,⟨x,hx,ha⟩,hb⟩
    · rintro ⟨a,⟨x,hx,ha⟩,hb⟩
      exact ⟨x,hx,(ih x).mpr ⟨a,ha,hb⟩⟩

variable {ok : (o : Op) → Ans o → Prop} (ok' : (o : Op') → Ans' o → Prop) {f : Op' → Op}
  {g : (o : Op') → Ans (f o) → Ans' o}

theorem wp_translate (H : Handler Op Ans C σ) {s : σ}
    (hH : ∀ o c a s', H (f o) c s = some (a, s') → s' = s ∧ ok' o (g o a))
    {p : Program Op' Ans' α} {Q : α → σ → Prop} (hQ : ∀ a, p.Outcome ok' a → Q a s) :
    (p.translate f g).wp H Q s := by
  induction p with
  | pure a => exact hQ a rfl
  | perform o next ih =>
    intro c a s' hc
    obtain ⟨rfl,ha⟩ := hH o c a s' hc
    exact ih (g o a) fun b hb => hQ b ⟨g o a,ha,hb⟩

theorem conforms_translate {move : Φ → (o : Op) → Ans o → Φ → Prop} {φ : Φ}
    (hm : ∀ o a, ok (f o) a → move φ (f o) a φ ∧ ok' o (g o a)) {p : Program Op' Ans' α}
    {Q : α → Φ → Prop} (hQ : ∀ a, p.Outcome ok' a → Q a φ) :
    (p.translate f g).Conforms ok move φ Q := by
  induction p with
  | pure a => exact hQ a rfl
  | perform o next ih =>
    intro a ha
    obtain ⟨hmove,hok⟩ := hm o a ha
    exact ⟨φ,hmove,ih (g o a) fun b hb => hQ b ⟨g o a,hok,hb⟩⟩

end Translate
end Program
