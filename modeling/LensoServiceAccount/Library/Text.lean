import Mathlib.Data.String.Basic
import Mathlib.Data.List.DropRight
import Mathlib.Data.List.TakeWhile

/-! Characters, bytes, the two ends and the decimal digits of texts. -/

namespace Text

theorem utf8ByteSize_cons (c : Char) (cs : List Char) :
    (String.ofList (c :: cs)).utf8ByteSize = c.utf8Size + (String.ofList cs).utf8ByteSize := by
  rw [← List.singleton_append,String.ofList_append,String.utf8ByteSize_append,
    show String.ofList [c] = String.singleton c from rfl,String.utf8ByteSize_singleton]

/-- A text has at least as many bytes as characters. -/
theorem length_le_utf8ByteSize (s : String) : s.length ≤ s.utf8ByteSize := by
  have hlist : ∀ cs : List Char, cs.length ≤ (String.ofList cs).utf8ByteSize := by
    intro cs
    induction cs with
    | nil => exact Nat.zero_le _
    | cons c cs ih =>
      rw [utf8ByteSize_cons,List.length_cons]
      have hpos := c.utf8Size_pos
      omega
  have h := hlist s.toList
  rwa [String.ofList_toList,String.length_toList] at h

/-- No character takes more than four bytes. -/
theorem utf8ByteSize_le (s : String) : s.utf8ByteSize ≤ 4 * s.length := by
  have hlist : ∀ cs : List Char, (String.ofList cs).utf8ByteSize ≤ 4 * cs.length := by
    intro cs
    induction cs with
    | nil => exact Nat.zero_le _
    | cons c cs ih =>
      have hc := c.utf8Size_le_four
      rw [utf8ByteSize_cons,List.length_cons]
      omega
  have h := hlist s.toList
  rwa [String.ofList_toList,String.length_toList] at h

/-- A text of one-byte characters has just as many. -/
theorem utf8ByteSize_ofList {cs : List Char} (h : ∀ c ∈ cs, c.utf8Size = 1) :
    (String.ofList cs).utf8ByteSize = cs.length := by
  induction cs with
  | nil => rfl
  | cons c cs ih =>
    rw [utf8ByteSize_cons,List.length_cons,h c List.mem_cons_self,ih fun x hx => h x (List.mem_cons_of_mem c hx)]
    omega

/-- A separator that neither first part contains separates them in one way. -/
theorem append_cons_inj {α : Type} {a : α} {xs xs' ys ys' : List α} (h : a ∉ xs) (h' : a ∉ xs')
    (heq : xs ++ a :: ys = xs' ++ a :: ys') : xs = xs' ∧ ys = ys' := by
  induction xs generalizing xs' with
  | nil =>
    cases xs' with
    | nil => exact ⟨rfl,(List.cons.inj heq).2⟩
    | cons x xs' =>
      obtain ⟨rfl,-⟩ := List.cons.inj heq
      exact absurd List.mem_cons_self h'
  | cons x xs ih =>
    cases xs' with
    | nil =>
      obtain ⟨rfl,-⟩ := List.cons.inj heq
      exact absurd List.mem_cons_self h
    | cons x' xs' =>
      obtain ⟨rfl,htail⟩ := List.cons.inj heq
      obtain ⟨rfl,rfl⟩ := ih (fun hm => h (List.mem_cons_of_mem x hm)) (fun hm => h' (List.mem_cons_of_mem x hm)) htail
      exact ⟨rfl,rfl⟩

/-- Without the characters at both ends that satisfy `p`. -/
def strip (p : Char → Bool) (cs : List Char) : List Char := ((cs.dropWhile p).reverse.dropWhile p).reverse

lemma strip_eq_self {p : Char → Bool} {cs : List Char} (hhead : ∀ h : cs ≠ [], ¬p (cs.head h))
    (hlast : ∀ h : cs ≠ [], ¬p (cs.getLast h)) : strip p cs = cs := by
  have hfront : cs.dropWhile p = cs := by
    cases cs with
    | nil => rfl
    | cons c cs =>
      have hc : ¬p c := hhead (List.cons_ne_nil c cs)
      rw [List.dropWhile_cons_of_neg hc]
  have hback : cs.rdropWhile p = cs := List.rdropWhile_eq_self_iff.mpr hlast
  rw [strip,hfront]
  exact hback

lemma strip_head (p : Char → Bool) (cs : List Char) (h : strip p cs ≠ []) : ¬p ((strip p cs).head h) := by
  have hprefix : strip p cs <+: cs.dropWhile p := List.rdropWhile_prefix p (cs.dropWhile p)
  obtain ⟨r,hr⟩ := hprefix
  have hne : cs.dropWhile p ≠ [] := by
    intro hnil
    rw [hnil] at hr
    exact h (List.append_eq_nil_iff.mp hr).1
  have hhead := List.head_dropWhile_not p hne
  have heq : (cs.dropWhile p).head hne = (strip p cs).head h := by
    simp only [← hr,List.head_append_of_ne_nil h]
  rw [← heq,hhead]
  simp

lemma strip_last (p : Char → Bool) (cs : List Char) (h : strip p cs ≠ []) : ¬p ((strip p cs).getLast h) :=
  List.rdropWhile_last_not p (cs.dropWhile p) h

/-- Stripping more characters leaves no fewer to strip. -/
theorem strip_strip {p q : Char → Bool} (h : ∀ c, q c = true → p c = true) (cs : List Char) :
    strip q (strip p cs) = strip p cs :=
  strip_eq_self (fun hne hq => strip_head p cs hne (h _ hq)) fun hne hq => strip_last p cs hne (h _ hq)

/-- The decimal digits of a number are digits, and there are some. -/
theorem toDigits_isDigit (n : ℕ) : (Nat.toDigits 10 n).all Char.isDigit = true := by
  rw [List.all_eq_true]
  intro c hc
  exact Nat.isDigit_of_mem_toDigits (by omega) (by omega) hc

/-- Digits are read from the left. -/
theorem foldl_toDigits (n : ℕ) : (Nat.toDigits 10 n).foldl (fun m c => 10 * m + (c.toNat - 48)) 0 = n :=
  Nat.ofDigitChars_ten_toDigits

theorem toList_toString_nat (n : ℕ) : (toString n).toList = Nat.toDigits 10 n := Nat.toList_repr

theorem toString_nat_inj {m n : ℕ} (h : toString m = toString n) : m = n := by
  have hlist := congrArg String.toList h
  rw [toList_toString_nat,toList_toString_nat] at hlist
  rw [← foldl_toDigits m,hlist,foldl_toDigits]

end Text
