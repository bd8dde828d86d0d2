import Mathlib.Data.Int.Notation
import Mathlib.Order.Nat
import Mathlib.Data.List.Nodup
import Mathlib.Data.List.Perm.Subperm

/-! Fixed windows: what a bound for every single window says about intervals that lie across them. -/

namespace Window
variable {α : Type} {xs : List α} {start reading : α → ℤ} {W : ℤ} {M : ℕ}

/-- Counting what satisfies one of two conditions. -/
lemma countP_le_add {p q r : α → Bool} (h : ∀ x ∈ xs, p x = true → q x = true ∨ r x = true) :
    xs.countP p ≤ xs.countP q + xs.countP r := by
  induction xs with
  | nil => simp
  | cons x xs ih =>
    have hrest := ih fun y hy => h y (List.mem_cons_of_mem x hy)
    have hx := h x (by simp)
    rw [List.countP_cons,List.countP_cons,List.countP_cons]
    cases hp : p x with
    | false =>
      rw [if_neg (by simp)]
      omega
    | true =>
      rcases hx hp with hq | hr
      · rw [if_pos rfl,if_pos hq]
        omega
      · rw [if_pos rfl,if_pos hr]
        omega

/-- Windows begin at least `W` apart, and everything in a window is read less than `W` after its
begin: then an interval of that length meets at most two of them. -/
theorem countP_interval_le (hread : ∀ x ∈ xs, start x ≤ reading x ∧ reading x < start x + W)
    (hapart : ∀ x ∈ xs, ∀ y ∈ xs, start x = start y ∨ start x + W ≤ start y ∨ start y + W ≤ start x)
    (hcount : ∀ w, (xs.countP fun x => decide (start x = w)) ≤ M) (t : ℤ) :
    (xs.countP fun x => decide (t ≤ reading x ∧ reading x < t + W)) ≤ 2 * M := by
  by_cases hx : ∃ x ∈ xs, t ≤ reading x ∧ reading x < t + W
  · obtain ⟨x,hxs,hx⟩ := hx
    by_cases hy : ∃ y ∈ xs, (t ≤ reading y ∧ reading y < t + W) ∧ start y ≠ start x
    · obtain ⟨y,hys,hy,hne⟩ := hy
      have hle : (xs.countP fun z => decide (t ≤ reading z ∧ reading z < t + W)) ≤
          (xs.countP fun z => decide (start z = start x)) + xs.countP fun z => decide (start z = start y) := by
        apply countP_le_add
        intro z hz hzt
        have hz' := of_decide_eq_true hzt
        have h₁ := hread x hxs
        have h₂ := hread y hys
        have h₃ := hread z hz
        have h₄ := hapart x hxs y hys
        have h₅ := hapart x hxs z hz
        have h₆ := hapart y hys z hz
        simp only [decide_eq_true_eq]
        omega
      have h₁ := hcount (start x)
      have h₂ := hcount (start y)
      omega
    · have hle : (xs.countP fun z => decide (t ≤ reading z ∧ reading z < t + W)) ≤
          xs.countP fun z => decide (start z = start x) := by
        apply List.countP_mono_left
        intro z hz hzt
        by_contra hne
        exact hy ⟨z,hz,of_decide_eq_true hzt,fun he => hne (decide_eq_true he)⟩
      have h₁ := hcount (start x)
      omega
  · have hzero : (xs.countP fun z => decide (t ≤ reading z ∧ reading z < t + W)) = 0 := by
      rw [List.countP_eq_zero]
      intro z hz hzt
      exact hx ⟨z,hz,of_decide_eq_true hzt⟩
    omega

/-- At most one `p` for every name, and a `q` of the same name for each of them. -/
theorem countP_le_of_names {p q : α → Bool} {name : α → ℕ}
    (honce : ∀ i, (xs.countP fun x => p x && decide (name x = i)) ≤ 1)
    (hname : ∀ x ∈ xs, p x = true → ∃ y ∈ xs, q y = true ∧ name y = name x) : xs.countP p ≤ xs.countP q := by
  have hnodup : ((xs.filter p).map name).Nodup := by
    rw [List.nodup_iff_count_le_one]
    intro i
    have h := honce i
    rw [List.count_eq_countP,List.countP_map,List.countP_filter]
    refine le_trans (List.countP_mono_left fun x _ hx => ?_) h
    simpa [and_comm] using hx
  have hsub : (xs.filter p).map name ⊆ (xs.filter q).map name := by
    intro i hi
    obtain ⟨x,hx,rfl⟩ := List.mem_map.mp hi
    obtain ⟨hxs,hp⟩ := List.mem_filter.mp hx
    obtain ⟨y,hys,hq,hname'⟩ := hname x hxs hp
    exact List.mem_map.mpr ⟨y,List.mem_filter.mpr ⟨hys,hq⟩,hname'⟩
  have hle := (List.subperm_of_subset hnodup hsub).length_le
  rwa [List.length_map,List.length_map,← List.countP_eq_length_filter,← List.countP_eq_length_filter] at hle

end Window
