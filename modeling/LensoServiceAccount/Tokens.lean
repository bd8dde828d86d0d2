import LensoServiceAccount.Library.Text
import LensoServiceAccount.Lifetime
import LensoServiceAccount.Operations

/-! Revisions and page limits as texts: a text is accepted if and only if it is the text that the plugin
writes itself. -/

namespace LensoServiceAccount
variable {E : Environment}

lemma digits_toDigits (n : ℕ) : digits (Nat.toDigits 10 n) = some n := by
  have hempty : (Nat.toDigits 10 n).isEmpty = false := by simp
  rw [digits,hempty,Text.toDigits_isDigit,Text.foldl_toDigits]
  rfl

/-- No digit is a sign. -/
lemma toDigits_cons (n : ℕ) : ∃ c cs, Nat.toDigits 10 n = c :: cs ∧ c ≠ '+' ∧ c ≠ '-' := by
  obtain ⟨c,cs,hcs⟩ := List.exists_cons_of_ne_nil (Nat.toDigits_ne_nil (n := n) (b := 10))
  have hdigit : c.isDigit = true := by
    have hall := Text.toDigits_isDigit n
    rw [hcs,List.all_cons,Bool.and_eq_true] at hall
    exact hall.1
  refine ⟨c,cs,hcs,?_,?_⟩
  · rintro rfl
    cases hdigit
  · rintro rfl
    cases hdigit

lemma parseI64_toString {n : ℕ} (h : (n : ℤ) ≤ bigintMax) : parseI64 (toString n) = some (n : ℤ) := by
  obtain ⟨c,cs,hcs,hplus,hminus⟩ := toDigits_cons n
  have hdigits := digits_toDigits n
  rw [parseI64,Text.toList_toString_nat]
  rw [hcs] at hdigits ⊢
  split
  · next heq => exact absurd (List.cons.inj heq).1 hplus
  · next heq => exact absurd (List.cons.inj heq).1 hminus
  · rw [hdigits,Option.bind_some,if_pos h]

lemma parseU32_toString {n : ℕ} (h : n < 2 ^ 32) : parseU32 (toString n) = some n := by
  obtain ⟨c,cs,hcs,hplus,-⟩ := toDigits_cons n
  have hdigits := digits_toDigits n
  rw [parseU32,Text.toList_toString_nat]
  rw [hcs] at hdigits ⊢
  split
  · next heq => exact absurd (List.cons.inj heq).1 hplus
  · rw [hdigits,Option.filter_some,if_pos (decide_eq_true h)]

lemma parseI64_le {value : String} {n : ℤ} (h : parseI64 value = some n) : n ≤ bigintMax := by
  have hmax : (0 : ℤ) ≤ bigintMax := by decide
  unfold parseI64 at h
  split at h <;> obtain ⟨m,-,hm⟩ := Option.bind_eq_some_iff.mp h <;> split_ifs at hm <;>
    obtain rfl := Option.some.inj hm <;> omega

/-- `parse_revision` accepts the canonical texts of the positive revisions, and nothing else. -/
lemma parseRevision_iff (value : String) (n : ℤ) :
    parseRevision value = some n ↔ 0 < n ∧ n ≤ bigintMax ∧ value = toString n := by
  rw [parseRevision,Option.filter_eq_some_iff,Bool.and_eq_true,decide_eq_true_eq,beq_iff_eq]
  constructor
  · rintro ⟨hparse,hpos,htext⟩
    exact ⟨hpos,parseI64_le hparse,htext.symm⟩
  · rintro ⟨hpos,hmax,rfl⟩
    obtain ⟨m,rfl⟩ := Int.eq_ofNat_of_zero_le (Int.le_of_lt hpos)
    exact ⟨parseI64_toString hmax,hpos,rfl⟩

/-- `parse_page_limit` accepts the canonical texts of the limits up to the largest. -/
lemma parsePageLimit_iff {max : ℕ} (hmax : max < 2 ^ 32) (value : String) (n : ℕ) :
    parsePageLimit value max = some n ↔ 0 < n ∧ n ≤ max ∧ value = toString n := by
  rw [parsePageLimit,Option.filter_eq_some_iff,Bool.and_eq_true,Bool.and_eq_true,decide_eq_true_eq,
    decide_eq_true_eq,beq_iff_eq]
  constructor
  · rintro ⟨-,⟨hpos,hle⟩,htext⟩
    exact ⟨hpos,hle,htext.symm⟩
  · rintro ⟨hpos,hle,rfl⟩
    exact ⟨parseU32_toString (by omega),⟨hpos,hle⟩,rfl⟩

example : parseRevision "7" = some 7 ∧ parseRevision "+7" = none ∧ parseRevision "07" = none := by decide

lemma Account.revision_bounds {a : Account} (h : Row.check a = true) : 0 < a.revision ∧ a.revision ≤ bigintMax := by
  simp only [Row.check,Account.check,Bool.and_eq_true,decide_eq_true_eq] at h
  exact h.1.1.1.1.1.1.1.1

/-- What is accepted as a revision or a page limit. -/
structure RoundTrips (E : Environment) : Prop where
  revision : ∀ value n, parseRevision value = some n ↔ 1 ≤ n ∧ n ≤ 9223372036854775807 ∧ value = toString n
  emitted : ∀ row s, summary E row = .ok s → s.revision = toString row.revision
  revision_unique : ∀ value value' n, parseRevision value = some n → parseRevision value' = some n → value = value'
  /-- The revision that is reported for a stored account is accepted as it is, and is the stored one. -/
  reported : ∀ c : Run (Call E) Reply, LockedConfig.Reachable (store E) Call.main Database.empty c →
    ∀ a ∈ c.state.accounts.rows, ∀ s, summary E (accountRow E.collation c.state a) = .ok s →
      (∀ request : RotateServiceAccountSecretRequest, request.expectedRevision = s.revision →
        validIdempotencyKey request.idempotencyKey = true → validToken request.organizationId 256 = true →
        validToken request.serviceAccountId 128 = true → validRotation request = some a.revision) ∧
      ∀ request : RevokeServiceAccountRequest, request.expectedRevision = s.revision →
        validIdempotencyKey request.idempotencyKey = true → validToken request.organizationId 256 = true →
        validToken request.serviceAccountId 128 = true → validRevocation request = some a.revision
  pageLimit : ∀ max, max < 2 ^ 32 → ∀ value n,
    parsePageLimit value max = some n ↔ 1 ≤ n ∧ n ≤ max ∧ value = toString n
  pageLimit_unique : ∀ max, max < 2 ^ 32 → ∀ value value' n, parsePageLimit value max = some n →
    parsePageLimit value' max = some n → value = value'

/-- Revisions and page limits round-trip exactly. -/
theorem tokens_round_trip (E : Environment) : RoundTrips E where
  revision value n := by
    rw [parseRevision_iff]
    exact Iff.rfl
  emitted _ _ h := (summary_ok h).revision
  revision_unique value value' n h h' := by
    rw [((parseRevision_iff value n).mp h).2.2,((parseRevision_iff value' n).mp h').2.2]
  reported c hc a ha s hs := by
    obtain ⟨hpos,hmax⟩ := Account.revision_bounds (c.state.accounts.checked a ha)
    have htext : parseRevision s.revision = some a.revision := by
      rw [parseRevision_iff]
      exact ⟨hpos,hmax,(summary_ok hs).revision⟩
    constructor
    · intro request hrev hkey horg hid
      simp only [validRotation,hrev,htext,hkey,horg,hid,Option.filter_some,Bool.and_self,if_true]
    · intro request hrev hkey horg hid
      simp only [validRevocation,hrev,htext,hkey,horg,hid,Option.filter_some,Bool.and_self,if_true]
  pageLimit max hmax value n := parsePageLimit_iff hmax value n
  pageLimit_unique max hmax value value' n h h' := by
    rw [((parsePageLimit_iff hmax value n).mp h).2.2,((parsePageLimit_iff hmax value' n).mp h').2.2]

end LensoServiceAccount
