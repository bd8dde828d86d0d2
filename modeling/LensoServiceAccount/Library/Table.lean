import Mathlib.Data.List.Nodup

/-! Keyed tables. A table holds at most one row for a key and only rows that pass the
check of their kind, so neither fact has to be carried as an invariant of a program. -/

/-- A kind of row: its primary key and the check that every stored row passes. -/
class Row (ρ : Type) (κ : outParam Type) where
  key : ρ → κ
  check : ρ → Bool

/-- Rows in the order of their insertion. -/
structure Table (ρ : Type) {κ : Type} [DecidableEq κ] [Row ρ κ] where
  rows : List ρ
  nodup : (rows.map Row.key).Nodup
  checked : ∀ r ∈ rows, Row.check r = true

namespace Table
variable {ρ κ : Type} [DecidableEq κ] [Row ρ κ]

@[ext] theorem ext_rows {t u : Table ρ} (h : t.rows = u.rows) : t = u := by
  cases t; cases u; cases h; rfl

instance [DecidableEq ρ] : DecidableEq (Table ρ) := fun t u =>
  decidable_of_iff (t.rows = u.rows) ⟨ext_rows,fun h => h ▸ rfl⟩

instance : EmptyCollection (Table ρ) where
  emptyCollection := ⟨[],List.nodup_nil,by simp⟩

/-- The row stored under a key. -/
def find (t : Table ρ) (k : κ) : Option ρ := t.rows.find? fun r => Row.key r = k

/-- Replace the row of the same key in place, or append. -/
def putRow (r : ρ) (rows : List ρ) : List ρ :=
  if Row.key r ∈ rows.map Row.key then rows.map fun x => if Row.key x = Row.key r then r else x
  else rows ++ [r]

lemma map_key_replace (r : ρ) (rows : List ρ) :
    (rows.map fun x => if Row.key x = Row.key r then r else x).map Row.key = rows.map Row.key := by
  rw [List.map_map]
  apply List.map_congr_left
  intro x _
  by_cases h : Row.key x = Row.key r <;> simp [h]

lemma putRow_nodup (r : ρ) (rows : List ρ) (h : (rows.map Row.key).Nodup) :
    ((putRow r rows).map Row.key).Nodup := by
  unfold putRow
  split_ifs with hm
  · rwa [map_key_replace]
  · rw [List.map_append]
    exact h.append (by simp) (by simpa [List.disjoint_singleton] using hm)

lemma mem_putRow {r x : ρ} {rows : List ρ} (h : x ∈ putRow r rows) : x = r ∨ x ∈ rows := by
  unfold putRow at h
  split_ifs at h with hm
  · obtain ⟨y,hy,rfl⟩ := List.mem_map.mp h
    by_cases hk : Row.key y = Row.key r <;> simp [hk,hy]
  · simpa [or_comm] using h

/-- Write one row version. Only a row that passes its check can be written. -/
def put (t : Table ρ) (r : ρ) (h : Row.check r = true) : Table ρ where
  rows := putRow r t.rows
  nodup := putRow_nodup r t.rows t.nodup
  checked x hx := by
    rcases mem_putRow hx with rfl | hx
    · exact h
    · exact t.checked x hx

/-- Remove the rows that satisfy `p`. -/
def delete (t : Table ρ) (p : ρ → Bool) : Table ρ where
  rows := t.rows.filter fun r => !p r
  nodup := t.nodup.sublist (List.Sublist.map Row.key List.filter_sublist)
  checked x hx := t.checked x (List.mem_filter.mp hx).1

@[simp] theorem find_empty (k : κ) : (∅ : Table ρ).find k = none := rfl

theorem key_of_find {t : Table ρ} {k : κ} {r : ρ} (h : t.find k = some r) : Row.key r = k := by
  simpa using List.find?_some h

theorem mem_of_find {t : Table ρ} {k : κ} {r : ρ} (h : t.find k = some r) : r ∈ t.rows :=
  List.mem_of_find?_eq_some h

theorem check_of_find {t : Table ρ} {k : κ} {r : ρ} (h : t.find k = some r) :
    Row.check r = true := t.checked r (mem_of_find h)

lemma find?_of_mem {rows : List ρ} (hn : (rows.map Row.key).Nodup) {r : ρ} (h : r ∈ rows) :
    rows.find? (fun x => Row.key x = Row.key r) = some r := by
  induction rows with
  | nil => simp at h
  | cons x xs ih =>
    rw [List.map_cons,List.nodup_cons] at hn
    rcases List.mem_cons.mp h with rfl | hx
    · simp
    · have hne : Row.key x ≠ Row.key r :=
        fun he => hn.1 (he ▸ List.mem_map_of_mem hx)
      simp [hne,ih hn.2 hx]

theorem find_of_mem {t : Table ρ} {r : ρ} (h : r ∈ t.rows) : t.find (Row.key r) = some r :=
  find?_of_mem t.nodup h

theorem find_eq_none {t : Table ρ} {k : κ} : t.find k = none ↔ k ∉ t.rows.map Row.key := by
  simp [find]

/-- Reading after a write: the written key holds the row, every other key is unchanged. -/
theorem find_put (t : Table ρ) (r : ρ) (h : Row.check r = true) (k : κ) :
    (t.put r h).find k = if Row.key r = k then some r else t.find k := by
  split_ifs with hk
  · subst hk
    apply find_of_mem
    simp only [put,putRow]
    split_ifs with hm
    · obtain ⟨x,hx,he⟩ := List.mem_map.mp hm
      exact List.mem_map.mpr ⟨x,hx,by simp [he]⟩
    · simp
  · have hreplace : ∀ rows : List ρ,
        (rows.map fun x => if Row.key x = Row.key r then r else x).find? (fun x => Row.key x = k) =
          rows.find? fun x => Row.key x = k := by
      intro rows
      induction rows with
      | nil => rfl
      | cons x xs ih =>
        by_cases hx : Row.key x = Row.key r
        · have hxk : Row.key x ≠ k := fun he => hk (hx.symm.trans he)
          rw [List.map_cons,if_pos hx,List.find?_cons_of_neg (by simpa using hk),
            List.find?_cons_of_neg (by simpa using hxk),ih]
        · rw [List.map_cons,if_neg hx]
          by_cases hxk : Row.key x = k
          · rw [List.find?_cons_of_pos (by simpa using hxk),List.find?_cons_of_pos (by simpa using hxk)]
          · rw [List.find?_cons_of_neg (by simpa using hxk),List.find?_cons_of_neg (by simpa using hxk),ih]
    simp only [put,putRow,find]
    split_ifs with hm
    · exact hreplace t.rows
    · simp [List.find?_append,hk]

@[simp] theorem find_put_self (t : Table ρ) (r : ρ) (h : Row.check r = true) :
    (t.put r h).find (Row.key r) = some r := by simp [find_put]

theorem find_put_of_ne (t : Table ρ) {r : ρ} (h : Row.check r = true) {k : κ}
    (hk : Row.key r ≠ k) : (t.put r h).find k = t.find k := by simp [find_put,hk]

theorem find_delete (t : Table ρ) (p : ρ → Bool) (k : κ) :
    (t.delete p).find k = (t.find k).filter fun r => !p r := by
  cases h : t.find k with
  | none =>
    rw [Option.filter_none,find_eq_none]
    exact fun hm => find_eq_none.mp h (List.map_subset _ (List.filter_subset_self _) hm)
  | some r =>
    have hr := mem_of_find h
    have hkey := key_of_find h
    subst hkey
    by_cases hp : p r = true
    · simp only [Option.filter,hp,Bool.not_true]
      rw [if_neg (by simp),find_eq_none]
      intro hm
      obtain ⟨x,hx,he⟩ := List.mem_map.mp hm
      have hx' := List.mem_filter.mp hx
      have hxr : x = r := by
        have hfx := find_of_mem hx'.1
        rw [he,h] at hfx
        exact (Option.some.inj hfx).symm
      subst hxr
      simp [hp] at hx'
    · simp only [Option.filter,hp,Bool.not_false,if_true]
      exact find_of_mem (t := t.delete p) (List.mem_filter.mpr ⟨hr,by simp [hp]⟩)

/-- A selection that sees neither the written row nor the one it replaces is unchanged. -/
theorem filter_put (t : Table ρ) {r : ρ} (h : Row.check r = true) (q : ρ → Bool)
    (hr : q r = false) (ho : ∀ x, t.find (Row.key r) = some x → q x = false) :
    (t.put r h).rows.filter q = t.rows.filter q := by
  simp only [put,putRow]
  split_ifs with hm
  · have hall : ∀ x ∈ t.rows, Row.key x = Row.key r → q x = false :=
      fun x hx he => ho x (he ▸ find_of_mem hx)
    revert hall
    generalize t.rows = rows
    intro hall
    induction rows with
    | nil => rfl
    | cons x xs ih =>
      have hxs := ih fun y hy => hall y (List.mem_cons_of_mem _ hy)
      by_cases hk : Row.key x = Row.key r
      · have hx := hall x (by simp) hk
        simp [hk,hr,hx,hxs]
      · by_cases hq : q x = true <;> simp [hk,hq,hxs]
  · simp [hr]

/-- A new key is appended. -/
theorem rows_put_of_new (t : Table ρ) {r : ρ} (h : Row.check r = true)
    (hn : t.find (Row.key r) = none) : (t.put r h).rows = t.rows ++ [r] := by
  simp only [put,putRow]
  rw [if_neg (find_eq_none.mp hn)]

/-- A known key keeps its place. -/
theorem rows_put_of_old (t : Table ρ) {r x : ρ} (h : Row.check r = true)
    (ho : t.find (Row.key r) = some x) :
    (t.put r h).rows = t.rows.map fun y => if Row.key y = Row.key r then r else y := by
  simp only [put,putRow]
  rw [if_pos (List.mem_map.mpr ⟨x,mem_of_find ho,key_of_find ho⟩)]

/-- Writing what is there changes nothing. -/
theorem put_of_find (t : Table ρ) {r : ρ} (h : Row.check r = true) (hf : t.find (Row.key r) = some r) :
    t.put r h = t := by
  apply ext_rows
  rw [rows_put_of_old t h hf]
  conv_rhs => rw [← List.map_id t.rows]
  apply List.map_congr_left
  intro y hy
  split_ifs with hk
  · have hy' := find_of_mem hy
    rw [hk,hf] at hy'
    exact Option.some.inj hy'
  · rfl

/-- The later of two writes to a row counts. -/
theorem put_put (t : Table ρ) {r s : ρ} (hr : Row.check r = true) (hs : Row.check s = true)
    (hk : Row.key r = Row.key s) : (t.put r hr).put s hs = t.put s hs := by
  apply ext_rows
  have hfind : (t.put r hr).find (Row.key s) = some r := by rw [← hk,find_put_self]
  rw [rows_put_of_old _ hs hfind]
  cases hf : t.find (Row.key s) with
  | none =>
    have hnone : t.find (Row.key r) = none := by rw [hk,hf]
    have hne : ∀ y ∈ t.rows, Row.key y ≠ Row.key s := fun y hy he =>
      find_eq_none.mp hf (he ▸ List.mem_map_of_mem hy)
    rw [rows_put_of_new t hr hnone,rows_put_of_new t hs hf,List.map_append,List.map_singleton,if_pos hk]
    congr 1
    conv_rhs => rw [← List.map_id t.rows]
    exact List.map_congr_left fun y hy => by rw [if_neg (hne y hy)]; rfl
  | some x =>
    have hx : t.find (Row.key r) = some x := by rw [hk,hf]
    rw [rows_put_of_old t hr hx,rows_put_of_old t hs hf,List.map_map]
    apply List.map_congr_left
    intro y _
    simp only [Function.comp,hk]
    split_ifs <;> simp_all

/-- Counting after a write: the written row counts and the one it replaces does not. -/
theorem countP_put (t : Table ρ) {r : ρ} (h : Row.check r = true) (p : ρ → Bool) :
    (t.put r h).rows.countP p + (t.find (Row.key r)).toList.countP p =
      t.rows.countP p + [r].countP p := by
  cases hf : t.find (Row.key r) with
  | none =>
    rw [rows_put_of_new t h hf,List.countP_append]
    rfl
  | some x =>
    have hx := mem_of_find hf
    have hk := key_of_find hf
    have hn := t.nodup
    rw [rows_put_of_old t h hf]
    revert hx hn
    generalize t.rows = rows
    intro hx hn
    induction rows with
    | nil => simp at hx
    | cons y ys ih =>
      rw [List.map_cons,List.nodup_cons] at hn
      by_cases hy : Row.key y = Row.key r
      · have hyx : x = y := by
          rcases List.mem_cons.mp hx with rfl | hx
          · rfl
          · exact absurd (hy ▸ hk ▸ List.mem_map_of_mem hx) hn.1
        subst hyx
        have hsame : (ys.map fun z => if Row.key z = Row.key r then r else z) = ys := by
          conv_rhs => rw [← List.map_id ys]
          apply List.map_congr_left
          intro z hz
          have hne : Row.key z ≠ Row.key r := fun he => hn.1 (by rw [hy,← he]; exact List.mem_map_of_mem hz)
          simp [hne]
        simp only [List.map_cons,hy,if_true,hsame,List.countP_cons,Option.toList_some,List.countP_nil]
        omega
      · have hne : x ≠ y := fun he => hy (he ▸ hk)
        have hys := ih ((List.mem_cons.mp hx).resolve_left hne) hn.2
        simp only [List.map_cons,hy,if_false,List.countP_cons] at hys ⊢
        omega

/-- A selection that does not tell the written row from the one it replaces. -/
theorem filter_put_congr {t u : Table ρ} {r : ρ} (h : Row.check r = true) {q : ρ → Bool}
    (hf : t.find (Row.key r) = u.find (Row.key r)) (hq : t.rows.filter q = u.rows.filter q)
    (ho : ∀ x, t.find (Row.key r) = some x → q x = q r) :
    (t.put r h).rows.filter q = (u.put r h).rows.filter q := by
  cases ht : t.find (Row.key r) with
  | none =>
    rw [rows_put_of_new t h ht,rows_put_of_new u h (hf ▸ ht),List.filter_append,hq,List.filter_append]
  | some x =>
    have hcomm : ∀ v : Table ρ, v.find (Row.key r) = some x →
        (v.put r h).rows.filter q =
          (v.rows.filter q).map fun y => if Row.key y = Row.key r then r else y := by
      intro v hv
      rw [rows_put_of_old v h hv,List.filter_map]
      congr 1
      apply List.filter_congr
      intro y hy
      by_cases hk : Row.key y = Row.key r
      · have hyx : y = x := by
          have hfy := find_of_mem hy
          rw [hk,hv] at hfy
          exact (Option.some.inj hfy).symm
        subst hyx
        simp [hk,ho y ht]
      · simp [hk]
    rw [hcomm t ht,hcomm u (hf ▸ ht),hq]

/-- A write to a row that stays commutes with the deletion of others. -/
theorem delete_put (t : Table ρ) {r : ρ} (h : Row.check r = true) {p : ρ → Bool} (hr : p r = false)
    (ho : ∀ x, t.find (Row.key r) = some x → p x = false) : (t.put r h).delete p = (t.delete p).put r h := by
  apply ext_rows
  cases hf : t.find (Row.key r) with
  | none =>
    have hnone : (t.delete p).find (Row.key r) = none := by rw [find_delete,hf,Option.filter_none]
    rw [rows_put_of_new _ h hnone]
    simp only [delete,rows_put_of_new t h hf,List.filter_append]
    simp [hr]
  | some x =>
    have hx : (t.delete p).find (Row.key r) = some x := by
      rw [find_delete,hf]
      simp [ho x hf]
    rw [rows_put_of_old _ h hx]
    simp only [delete,rows_put_of_old t h hf,List.filter_map]
    congr 1
    apply List.filter_congr
    intro y hy
    by_cases hk : Row.key y = Row.key r
    · have hyx := find_of_mem hy
      rw [hk,hf] at hyx
      simp [hk,hr,ho y (by rw [hf,hyx])]
    · simp [hk]

/-- A write to a row that is deleted anyway. -/
theorem delete_put_of_pos (t : Table ρ) {r : ρ} (h : Row.check r = true) {p : ρ → Bool} (hr : p r = true)
    (ho : ∀ x, t.find (Row.key r) = some x → p x = true) : (t.put r h).delete p = t.delete p := by
  apply ext_rows
  apply filter_put t h
  · simp [hr]
  · intro x hx
    simp [ho x hx]

end Table
