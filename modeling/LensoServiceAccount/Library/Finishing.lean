import Mathlib.Algebra.BigOperators.Group.Finset.Basic
import Mathlib.Algebra.Order.BigOperators.Group.Finset
import Mathlib.Data.Fintype.Card
import Mathlib.Logic.Hydra
import LensoServiceAccount.Library.Waiting

/-! Where threads never wait for each other in a circle, one of them can always move; and since
every move takes a thread down its program, all of them can come to their end. -/

section
variable {Op : Type} {Ans : Op → Type} {Tx : Type} {Res : Tx → Type} {TxOp : Type}
  {TxAns : TxOp → Type} {C TC σ τ L κ ρ : Type}

/-- Every operation can be answered, whatever the state, and no transaction is empty. -/
structure Store.Live (S : Store Op Ans Tx Res TxOp TxAns C TC σ τ L) : Prop where
  pool : ∀ o s, ∃ c a s', S.pool o c s = some (a, s')
  within : ∀ o l s, ∃ c a l' s', S.within o c (l, s) = some (a, (l', s'))
  body : ∀ t, ∃ o k, S.body t = .perform o k

namespace LockedThread

variable {S : Store Op Ans Tx Res TxOp TxAns C TC σ τ L}

end LockedThread

namespace Gradual
variable [DecidableEq L] {S : Store Op Ans Tx Res TxOp TxAns C TC σ τ L} {F : S.Footprint}
  {main : κ → Program (Outer Op Tx) (Outer.Ans Ans Res) ρ} {c d e : Gradual κ Op Ans Tx Res TxOp TxAns ρ σ τ L} {s : σ}

/-- Steps of the threads that are there; none is stopped. -/
def GoesOn : GradualLabel κ C TC L → Prop
  | .step (.start _) | .step (.stop _) => False
  | _ => True

variable (F main)

inductive Continues (c : Gradual κ Op Ans Tx Res TxOp TxAns ρ σ τ L) : Gradual κ Op Ans Tx Res TxOp TxAns ρ σ τ L → Prop
  | refl : Continues c c
  | tail {d e : Gradual κ Op Ans Tx Res TxOp TxAns ρ σ τ L} (l : GradualLabel κ C TC L) (h : Continues c d)
      (hl : GoesOn l) (hs : d.step F main l = some e) : Continues c e

variable {F main}

lemma Continues.head {l : GradualLabel κ C TC L} (hl : GoesOn l) (hs : c.step F main l = some d)
    (h : Continues F main d e) : Continues F main c e := by
  induction h with
  | refl => exact Continues.refl.tail l hl hs
  | tail l' _ hl' hs' ih => exact ih.tail l' hl' hs'

/-- The locks that are still missing for the next statement of a thread. -/
def missing (F : S.Footprint) (c : Gradual κ Op Ans Tx Res TxOp TxAns ρ σ τ L) (i : ℕ) : List L :=
  match c.config.threads[i]? with
  | some (.within _ _ _ (.perform o _) l) =>
    (F.needs o l c.config.state).filter fun lk => !(c.held S.held i).contains lk
  | _ => []

omit [DecidableEq L] in
/-- A thread comes to its end by its reply. -/
lemma over_of_turn {l : LockedLabel κ C TC} {i : ℕ} {th : LockedThread κ Op Ans Tx Res TxOp TxAns ρ τ} {call : κ} {s s' : σ}
    (ht : LockedThread.Turn S s i l th (.over call) s') (hl : ∀ j, l ≠ .stop j) : l = .reply i := by
  cases ht with
  | reply _ r => rfl
  | stop _ call => exact absurd rfl (hl i)

/-- The history only grows, and a reply is in it. -/
lemma trace_of_step {b b' : LockedConfig κ Op Ans Tx Res TxOp TxAns ρ σ τ} {l : LockedLabel κ C TC}
    (h : b.step S main l = some b') : b.trace ⊆ b'.trace ∧
      ∀ i, l = .reply i → ∃ ev ∈ b'.trace, ev.tid = i ∧ ∃ r, ev.action = .reply r := by
  cases l with
  | reply i =>
    simp only [LockedConfig.step] at h
    split at h
    · next call r hi =>
      simp only [Option.some.injEq] at h
      subst h
      refine ⟨List.subset_cons_self ..,?_⟩
      rintro j ⟨⟩
      exact ⟨_,List.mem_cons_self ..,rfl,r,rfl⟩
    · cases h
  | start call =>
    simp only [LockedConfig.step,Option.some.injEq] at h
    subst h
    exact ⟨List.subset_cons_self ..,by simp⟩
  | pool i ch =>
    simp only [LockedConfig.step] at h
    split at h
    · split_ifs at h
      split at h <;> simp only [Option.some.injEq,reduceCtorEq] at h
      subst h
      exact ⟨List.subset_cons_self ..,by simp⟩
    · cases h
  | enter i =>
    simp only [LockedConfig.step] at h
    split at h
    · split at h <;> simp only [Option.some.injEq,reduceCtorEq] at h
      subst h
      exact ⟨List.Subset.refl _,by simp⟩
    · cases h
  | within i ch =>
    simp only [LockedConfig.step] at h
    split at h
    · split at h
      · split_ifs at h
        split at h <;> simp only [Option.some.injEq] at h <;> subst h
        · exact ⟨List.subset_cons_self ..,by simp⟩
        · exact ⟨List.Subset.refl _,by simp⟩
      · cases h
    · cases h
  | stop i =>
    simp only [LockedConfig.step] at h
    split at h
    · simp only [Option.some.injEq] at h
      subst h
      exact ⟨List.subset_cons_self ..,by simp⟩
    · simp only [Option.some.injEq] at h
      subst h
      exact ⟨List.subset_cons_self ..,by simp⟩
    · cases h

/-- A call that was not over, and is not stopped, is still not over or has been answered. -/
lemma Continues.answered (h : Continues F main c d) {i : ℕ} {th : LockedThread κ Op Ans Tx Res TxOp TxAns ρ τ}
    (hi : c.config.threads[i]? = some th) (hopen : ∀ call, th ≠ .over call) :
    (∃ th', d.config.threads[i]? = some th' ∧ ∀ call, th' ≠ .over call) ∨
      ∃ ev ∈ d.config.trace, ev.tid = i ∧ ∃ r, ev.action = .reply r := by
  induction h with
  | refl => exact .inl ⟨th,hi,hopen⟩
  | tail l _ hl hs ih =>
    rcases step_cases hs with ⟨_,_,-,-,-,rfl⟩ | ⟨l',rfl,-,hstep,-⟩
    · exact ih
    · obtain ⟨hsub,hreply⟩ := trace_of_step hstep
      rcases ih with ⟨th₁,hi₁,hopen₁⟩ | ⟨ev,hev,htid,r,hr⟩
      · rcases LockedConfig.step_turn hstep with ⟨call,rfl,-⟩ | ⟨j,th₂,th₂',hj,hset,ht⟩
        · exact hl.elim
        · by_cases hij : i = j
          · subst hij
            have hlt : i < _ := (List.getElem?_eq_some_iff.mp hj).1
            by_cases hover : ∃ call, th₂' = .over call
            · obtain ⟨call,rfl⟩ := hover
              have hstop : ∀ j, l' ≠ .stop j := by
                rintro j rfl
                exact hl
              exact .inr (hreply i (over_of_turn ht hstop))
            · refine .inl ⟨th₂',by rw [hset,List.getElem?_set_self hlt],fun call h => hover ⟨call,h⟩⟩
          · refine .inl ⟨th₁,?_,hopen₁⟩
            rw [hset,List.getElem?_set_ne (Ne.symm hij),hi₁]
      · exact .inr ⟨ev,hsub hev,htid,r,hr⟩

end Gradual
end
