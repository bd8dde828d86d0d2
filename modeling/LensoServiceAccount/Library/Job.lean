import Mathlib.Data.List.Basic
import Mathlib.Order.Defs.Unbundled

/-! A job as an abstract machine: whoever finds it vacant takes it, only he goes on with it, and what he ends
with stays until the job is given up. -/

/-- The states of a job. -/
inductive Job (ι σ ω : Type) : Type
  | vacant
  | taken (owner : ι) (stage : σ)
  | done (owner : ι) (outcome : ω)

namespace Job
variable {ι σ ω γ : Type}

def owner : Job ι σ ω → Option ι
  | .vacant => none
  | .taken i _ | .done i _ => some i

/-- A measure of the work, at every stage and at its end. -/
def value (f : σ → γ) (g : ω → γ) : Job ι σ ω → Option γ
  | .vacant => none
  | .taken _ a => some (f a)
  | .done _ o => some (g o)

/-- How the work begins, goes on and ends. -/
structure Rules (σ ω : Type) where
  first : σ → Prop
  next : σ → σ → Prop
  last : σ → ω → Prop

namespace Rules

/-- What `i` may do to a job in one step. -/
inductive Step (R : Rules σ ω) (i : ι) : Job ι σ ω → Job ι σ ω → Prop
  | idle {s : Job ι σ ω} : Step R i s s
  | take {a : σ} (h : R.first a) : Step R i .vacant (.taken i a)
  | advance {a b : σ} (h : R.next a b) : Step R i (.taken i a) (.taken i b)
  | finish {a : σ} {o : ω} (h : R.last a o) : Step R i (.taken i a) (.done i o)
  | release {j : ι} {o : ω} : Step R i (.done j o) .vacant

end Rules

/-- Where a run from `s` is, given what its steps have led to, the newest first. -/
def latest (s : Job ι σ ω) : List (ι × Job ι σ ω) → Job ι σ ω
  | [] => s
  | x :: _ => x.2

namespace Rules
variable {R : Rules σ ω} {s : Job ι σ ω} {xs : List (ι × Job ι σ ω)}

/-- Every step of a run from `s` is one that its maker may take. -/
def Chain (R : Rules σ ω) (s : Job ι σ ω) : List (ι × Job ι σ ω) → Prop
  | [] => True
  | x :: xs => R.Step x.1 (latest s xs) x.2 ∧ R.Chain s xs

/-- What every allowed step keeps that leads where `P` allows, a run keeps. -/
lemma Chain.keeps {I : Job ι σ ω → Prop} {P : ι → Job ι σ ω → Prop} (hc : R.Chain s xs) (hs : I s)
    (hstep : ∀ i t u, I t → R.Step i t u → P i u → I u) (hP : ∀ x ∈ xs, P x.1 x.2) : I (latest s xs) := by
  induction xs with
  | nil => exact hs
  | cons x xs ih =>
    have hbefore := ih hc.2 fun y hy => hP y (List.mem_cons_of_mem x hy)
    exact hstep x.1 _ x.2 hbefore hc.1 (hP x (by simp))

/-- What the work has ended with stays. -/
theorem Chain.settled {j : ι} {o : ω} (hc : R.Chain (.done j o) xs) (hx : ∀ x ∈ xs, x.2 ≠ .vacant) :
    latest (.done j o) xs = .done j o := by
  refine hc.keeps (I := fun t => t = .done j o) (P := fun _ u => u ≠ .vacant) rfl ?_ hx
  rintro i t u rfl hstep hu
  cases hstep with
  | idle => rfl
  | release => exact absurd rfl hu

/-- As long as the job is not given up, it keeps its owner, and the work goes on from where it was. -/
theorem Chain.continues {f : σ → γ} {g : ω → γ} {r : γ → γ → Prop} [IsPreorder γ r]
    (hnext : ∀ a b, R.next a b → r (f a) (f b)) (hlast : ∀ a o, R.last a o → r (f a) (g o)) {i : ι} {v : γ}
    (hc : R.Chain s xs) (hx : ∀ x ∈ xs, x.2 ≠ .vacant) (ho : s.owner = some i) (hv : s.value f g = some v) :
    (latest s xs).owner = some i ∧ ∃ v', (latest s xs).value f g = some v' ∧ r v v' := by
  refine hc.keeps (I := fun t => t.owner = some i ∧ ∃ v', t.value f g = some v' ∧ r v v')
    (P := fun _ u => u ≠ .vacant) ⟨ho,v,hv,refl v⟩ ?_ hx
  rintro j t u ⟨ht,v',hv',hr⟩ hstep hu
  cases hstep with
  | idle => exact ⟨ht,v',hv',hr⟩
  | take => cases ht
  | @advance a b h =>
    obtain rfl : f a = v' := Option.some.inj hv'
    exact ⟨ht,f b,rfl,Trans.trans hr (hnext a b h)⟩
  | @finish a o h =>
    obtain rfl : f a = v' := Option.some.inj hv'
    exact ⟨ht,g o,rfl,Trans.trans hr (hlast a o h)⟩
  | release => exact absurd rfl hu

end Rules
end Job
