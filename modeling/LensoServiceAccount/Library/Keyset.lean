import Mathlib.Data.List.Sort
import Mathlib.Order.Defs.Unbundled

/-! Pages of sorted keys, each starting beyond the last key of the one before. The keys may change from
page to page. -/

namespace Keyset
variable {α : Type} (r : α → α → Prop) [DecidableRel r]

/-- The keys beyond a cursor, or all of them. -/
def beyond (keys : List α) (after : Option α) : List α :=
  keys.filter fun a => after.all fun cursor => decide (r cursor a)

/-- What is there when a page is asked for, and how many keys it may have. -/
structure Request (α : Type) where
  keys : List α
  limit : ℕ

namespace Request

/-- The first keys beyond the cursor. -/
def page (q : Request α) (after : Option α) : List α := (beyond r q.keys after).take q.limit

/-- The last key of the page, if there are more. -/
def next (q : Request α) (after : Option α) : Option α :=
  if q.limit < (beyond r q.keys after).length then (q.page r after).getLast? else none

/-- The keys are sorted, and a page may have some. -/
structure Proper (q : Request α) : Prop where
  sorted : q.keys.Pairwise r
  positive : 0 < q.limit

end Request

/-- The keys of all pages. -/
def walked : Option α → List (Request α) → List α
  | _, [] => []
  | after, q :: qs => q.page r after ++ walked (q.next r after) qs

/-- The cursors that come with the pages. -/
def cursors : Option α → List (Request α) → List (Option α)
  | _, [] => []
  | after, q :: qs => q.next r after :: cursors (q.next r after) qs

/-- Each page starts where the one before has ended. -/
inductive Walk : Option α → List (Request α) → Prop
  | last (after : Option α) (q : Request α) : Walk after [q]
  | next {after : Option α} {q : Request α} {qs : List (Request α)} {cursor : α} (h : q.next r after = some cursor)
      (hw : Walk (some cursor) qs) : Walk after (q :: qs)

variable {r} {q : Request α} {qs : List (Request α)} {after : Option α} {a cursor : α}

lemma mem_beyond {keys : List α} : a ∈ beyond r keys after ↔ a ∈ keys ∧ ∀ cursor, after = some cursor → r cursor a := by
  rw [beyond,List.mem_filter]
  cases after <;> simp

lemma Request.mem_page (h : a ∈ q.page r after) : a ∈ q.keys ∧ ∀ cursor, after = some cursor → r cursor a :=
  mem_beyond.mp (List.mem_of_mem_take h)

lemma Request.Proper.page (h : q.Proper r) : (q.page r after).Pairwise r :=
  (h.sorted.sublist List.filter_sublist).sublist (List.take_sublist _ _)

/-- A page with a cursor is full. -/
lemma Request.length_page (h : (q.next r after).isSome = true) : (q.page r after).length = q.limit := by
  unfold Request.next at h
  split_ifs at h with hlt
  · rw [Request.page,List.length_take]
    omega
  · cases h

lemma Request.next_mem (h : q.next r after = some cursor) : cursor ∈ q.page r after := by
  unfold Request.next at h
  split_ifs at h
  exact List.mem_of_getLast? h

/-- The cursor is the greatest key of its page. -/
lemma Request.Proper.le_next (hq : q.Proper r) (h : q.next r after = some cursor) (ha : a ∈ q.page r after) :
    a = cursor ∨ r a cursor := by
  unfold Request.next at h
  split_ifs at h
  obtain ⟨front,hfront⟩ := List.getLast?_eq_some_iff.mp h
  have hsorted : (q.page r after).Pairwise r := hq.page
  rw [hfront] at hsorted ha
  rcases List.mem_append.mp ha with ha | ha
  · exact .inr ((List.pairwise_append.mp hsorted).2.2 a ha cursor (by simp))
  · exact .inl (List.mem_singleton.mp ha)

/-- Whatever is beyond the old cursor is on the page, or beyond the new cursor if there is one. -/
lemma Request.Proper.covers (hq : q.Proper r) (ha : a ∈ beyond r q.keys after) :
    a ∈ q.page r after ∨ ∃ cursor, q.next r after = some cursor ∧ r cursor a := by
  have hsplit := List.take_append_drop q.limit (beyond r q.keys after)
  rw [← hsplit] at ha
  rcases List.mem_append.mp ha with ha | ha
  · exact .inl ha
  · right
    have hlt : q.limit < (beyond r q.keys after).length := by
      have hpos := List.length_pos_of_mem ha
      rw [List.length_drop] at hpos
      omega
    have hne : q.page r after ≠ [] := by
      rw [← List.length_pos_iff,Request.page,List.length_take]
      have hpos := hq.positive
      omega
    have hnext : q.next r after = some ((q.page r after).getLast hne) := by
      rw [Request.next,if_pos hlt,List.getLast?_eq_some_getLast hne]
    refine ⟨_,hnext,?_⟩
    have hsorted : (beyond r q.keys after).Pairwise r := hq.sorted.sublist List.filter_sublist
    rw [← hsplit] at hsorted
    exact (List.pairwise_append.mp hsorted).2.2 _ (List.getLast_mem hne) a ha

lemma mem_walked (h : a ∈ walked r after qs) : ∃ q ∈ qs, a ∈ q.keys := by
  induction qs generalizing after with
  | nil => cases h
  | cons q qs ih =>
    rcases List.mem_append.mp h with h | h
    · exact ⟨q,by simp,(Request.mem_page h).1⟩
    · obtain ⟨q',hq',ha⟩ := ih h
      exact ⟨q',List.mem_cons_of_mem q hq',ha⟩

/-- What a walk comes upon lies beyond its first cursor. -/
lemma Walk.beyond [IsTrans α r] (hw : Walk r after qs) (ha : a ∈ walked r after qs) (hc : after = some cursor) :
    r cursor a := by
  induction hw generalizing cursor with
  | last after q =>
    rw [walked,walked,List.append_nil] at ha
    exact (Request.mem_page ha).2 cursor hc
  | @next after q qs cursor' hnext hw ih =>
    rw [walked,hnext] at ha
    rcases List.mem_append.mp ha with ha | ha
    · exact (Request.mem_page ha).2 cursor hc
    · exact IsTrans.trans _ _ _ ((Request.mem_page (Request.next_mem hnext)).2 cursor hc) (ih ha rfl)

/-- A walk comes upon its keys in their order. -/
theorem Walk.sorted [IsTrans α r] (hw : Walk r after qs) (hq : ∀ q ∈ qs, q.Proper r) : (walked r after qs).Pairwise r := by
  induction hw with
  | last after q =>
    rw [walked,walked,List.append_nil]
    exact (hq q (by simp)).page
  | @next after q qs cursor hnext hw ih =>
    rw [walked,hnext]
    have hqs := ih fun q hmem => hq q (List.mem_cons_of_mem _ hmem)
    refine List.pairwise_append.mpr ⟨(hq q (by simp)).page,hqs,fun a ha b hb => ?_⟩
    have hb' := hw.beyond hb rfl
    rcases (hq q (by simp)).le_next hnext ha with rfl | ha
    · exact hb'
    · exact IsTrans.trans _ _ _ ha hb'

/-- A walk that has come to its end has come upon every key that was there all the time. -/
theorem Walk.complete (hw : Walk r after qs) (hq : ∀ q ∈ qs, q.Proper r)
    (hend : (cursors r after qs).getLast? = some none) (ha : ∀ q ∈ qs, a ∈ q.keys)
    (hafter : ∀ cursor, after = some cursor → r cursor a) : a ∈ walked r after qs := by
  induction hw with
  | last after q =>
    rw [walked,walked,List.append_nil]
    rcases (hq q (by simp)).covers (mem_beyond.mpr ⟨ha q (by simp),hafter⟩) with h | ⟨cursor,hnext,-⟩
    · exact h
    · rw [cursors,cursors,hnext] at hend
      cases hend
  | @next after q qs cursor hnext hw ih =>
    rw [walked,hnext]
    rcases (hq q (by simp)).covers (mem_beyond.mpr ⟨ha q (by simp),hafter⟩) with h | ⟨cursor',hnext',hr⟩
    · exact List.mem_append_left _ h
    · obtain rfl := Option.some.inj (hnext.symm.trans hnext')
      refine List.mem_append_right _ (ih (fun q hmem => hq q (List.mem_cons_of_mem _ hmem)) ?_
        (fun q hmem => ha q (List.mem_cons_of_mem _ hmem)) fun c hc => Option.some.inj hc ▸ hr)
      rw [cursors,hnext] at hend
      cases hw <;> simpa [cursors] using hend

/-- There are no more cursors than keys. -/
theorem count_cursors (hq : ∀ q ∈ qs, q.Proper r) : ∀ after,
    (cursors r after qs).countP Option.isSome ≤ (walked r after qs).length := by
  induction qs with
  | nil => intro after; simp [cursors]
  | cons q qs ih =>
    intro after
    have hrest := ih (fun q hmem => hq q (List.mem_cons_of_mem _ hmem)) (q.next r after)
    rw [cursors,walked,List.length_append]
    by_cases hnext : (q.next r after).isSome = true
    · rw [List.countP_cons_of_pos hnext,Request.length_page hnext]
      have hpos := (hq q (by simp)).positive
      omega
    · rw [List.countP_cons_of_neg hnext]
      omega

end Keyset
