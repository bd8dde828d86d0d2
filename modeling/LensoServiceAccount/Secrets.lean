import LensoServiceAccount.Library.Text
import LensoServiceAccount.Crypto

/-! The wire format of secrets: which texts are read, and that the texts that are written are read back
and are all different. -/

namespace LensoServiceAccount

/-- A character of the two parts of a secret. -/
def secretChar (c : Char) : Bool := isAsciiAlphanumeric c || ['-','_'].contains c

lemma secretChar_base64Char {n : ℕ} (h : n < 64) : secretChar (base64Char n) = true := by
  have hall : ∀ m : Fin 64, secretChar (base64Char m) = true := by decide
  exact hall ⟨n,h⟩

theorem base64Chars_secretChar (bytes : Bytes) : ∀ c ∈ base64Chars bytes, secretChar c = true := by
  induction bytes using base64Chars.induct with
  | case1 => simp [base64Chars]
  | case2 a =>
    have ha := a.toNat_lt
    intro c hc
    simp only [base64Chars,List.mem_cons,List.not_mem_nil,or_false] at hc
    rcases hc with rfl | rfl <;> exact secretChar_base64Char (by omega)
  | case3 a b =>
    have ha := a.toNat_lt
    have hb := b.toNat_lt
    intro c hc
    simp only [base64Chars,List.mem_cons,List.not_mem_nil,or_false] at hc
    rcases hc with rfl | rfl | rfl <;> exact secretChar_base64Char (by omega)
  | case4 a b c rest ih =>
    have ha := a.toNat_lt
    have hb := b.toNat_lt
    have hc := c.toNat_lt
    intro x hx
    simp only [base64Chars,List.mem_cons] at hx
    rcases hx with rfl | rfl | rfl | rfl | hx
    · exact secretChar_base64Char (by omega)
    · exact secretChar_base64Char (by omega)
    · exact secretChar_base64Char (by omega)
    · exact secretChar_base64Char (by omega)
    · exact ih x hx

theorem length_base64Chars (bytes : Bytes) : (base64Chars bytes).length = (4 * bytes.length + 2) / 3 := by
  induction bytes using base64Chars.induct with
  | case1 => rfl
  | case2 a => simp [base64Chars]
  | case3 a b => simp [base64Chars]
  | case4 a b c rest ih =>
    simp only [base64Chars,List.length_cons,ih]
    omega

lemma splitOnce_eq_some {sep : Char} {cs l r : List Char} :
    splitOnce sep cs = some (l, r) ↔ cs = l ++ sep :: r ∧ sep ∉ l := by
  induction cs generalizing l with
  | nil => simp [splitOnce]
  | cons c cs ih =>
    rw [splitOnce]
    split_ifs with hc
    · subst hc
      constructor
      · intro h
        obtain ⟨rfl,rfl⟩ := Prod.mk.inj (Option.some.inj h)
        exact ⟨rfl,List.not_mem_nil⟩
      · rintro ⟨h,hl⟩
        cases l with
        | nil => rw [(List.cons.inj h).2]
        | cons x l =>
          obtain ⟨rfl,-⟩ := List.cons.inj h
          exact absurd List.mem_cons_self hl
    · constructor
      · intro h
        obtain ⟨⟨l',r'⟩,hsplit,he⟩ := Option.map_eq_some_iff.mp h
        obtain ⟨rfl,rfl⟩ := Prod.mk.inj he
        obtain ⟨rfl,hl⟩ := ih.mp hsplit
        refine ⟨rfl,fun hmem => ?_⟩
        rcases List.mem_cons.mp hmem with heq | hmem
        · exact hc heq.symm
        · exact hl hmem
      · rintro ⟨h,hl⟩
        cases l with
        | nil => exact absurd (List.cons.inj h).1 hc
        | cons x l =>
          obtain ⟨rfl,rfl⟩ := List.cons.inj h
          rw [ih.mpr ⟨rfl,fun hmem => hl (List.mem_cons_of_mem c hmem)⟩]
          rfl

/-- One of the two parts of a secret, of at least `low` bytes. -/
structure SecretPart (low : ℕ) (value : String) : Prop where
  low : low ≤ value.utf8ByteSize
  high : value.utf8ByteSize ≤ 128
  alphabet : ∀ c ∈ value.toList, secretChar c = true

lemma secretPart_iff {low : ℕ} (hlow : 0 < low) (value : String) : SecretPart low value ↔
    low ≤ value.utf8ByteSize ∧ validBytes ['-','_'] 128 value = true := by
  have hempty : 0 < value.utf8ByteSize → value.toList ≠ [] := by
    intro hpos hnil
    rw [String.toList_eq_nil_iff.mp hnil] at hpos
    exact Nat.lt_irrefl 0 hpos
  simp only [validBytes,Bool.and_eq_true,Bool.not_eq_true',List.isEmpty_eq_false_iff,decide_eq_true_eq,
    List.all_eq_true]
  constructor
  · rintro ⟨hl,hh,ha⟩
    exact ⟨hl,⟨hempty (by omega),hh⟩,ha⟩
  · rintro ⟨hl,⟨-,hh⟩,ha⟩
    exact ⟨hl,hh,ha⟩

lemma SecretPart.dot {low : ℕ} {value : String} (h : SecretPart low value) : '.' ∉ value.toList := by
  intro hmem
  have hdot := h.alphabet '.' hmem
  cases hdot

/-- The text of a secret. -/
def secretText (id material : String) : String := secretPrefix ++ id ++ "." ++ material

lemma toList_secretText (id material : String) :
    (secretText id material).toList = secretPrefix.toList ++ (id.toList ++ '.' :: material.toList) := by
  simp only [secretText,String.toList_append,List.append_assoc]
  rfl

/-- A secret has one id and one material. -/
theorem secretText_inj {id material id' material' : String} (hid : SecretPart 1 id) (hid' : SecretPart 1 id')
    (h : secretText id material = secretText id' material') : id = id' ∧ material = material' := by
  have hlist := congrArg String.toList h
  rw [toList_secretText,toList_secretText,List.append_cancel_left_eq] at hlist
  have hsplit := (splitOnce_eq_some (r := material.toList)).mpr ⟨rfl,hid.dot⟩
  rw [hlist,splitOnce_eq_some.mpr ⟨rfl,hid'.dot⟩] at hsplit
  obtain ⟨hids,hmaterials⟩ := Prod.mk.inj (Option.some.inj hsplit)
  exact ⟨(String.toList_injective hids).symm,(String.toList_injective hmaterials).symm⟩

lemma utf8Size_secretChar {c : Char} (h : secretChar c = true) : c.utf8Size = 1 := by
  have hrange : c.val ≤ 127 := by
    simp only [secretChar,isAsciiAlphanumeric,Bool.or_eq_true,Bool.and_eq_true,decide_eq_true_eq,
      List.contains_eq_mem,List.mem_cons,List.not_mem_nil,or_false] at h
    rcases h with ((⟨-,h⟩ | ⟨-,h⟩) | ⟨-,h⟩) | rfl | rfl
    · exact UInt32.le_trans (Char.le_def.mp h) (show 'z'.val ≤ 127 by decide)
    · exact UInt32.le_trans (Char.le_def.mp h) (show 'Z'.val ≤ 127 by decide)
    · exact UInt32.le_trans (Char.le_def.mp h) (show '9'.val ≤ 127 by decide)
    · decide
    · decide
  exact Char.utf8Size_eq_one_iff.mpr hrange

/-- A part made of an encoding. -/
lemma secretPart_ofList {low : ℕ} {cs : List Char} (hcs : ∀ c ∈ cs, secretChar c = true) (hlow : low ≤ cs.length)
    (hhigh : cs.length ≤ 128) : SecretPart low (String.ofList cs) := by
  have hsize : (String.ofList cs).utf8ByteSize = cs.length :=
    Text.utf8ByteSize_ofList fun c hc => utf8Size_secretChar (hcs c hc)
  refine ⟨by omega,by omega,?_⟩
  rwa [String.toList_ofList]

/-- The id of a generated secret. -/
lemma secretPart_credentialId {id : Bytes} (hid : id.length = 18) : SecretPart 1 ("sac_" ++ base64Encode id) := by
  have hlist : "sac_" ++ base64Encode id = String.ofList ("sac_".toList ++ base64Chars id) := by
    rw [String.ofList_append,String.ofList_toList,base64Encode]
  have hlen : ("sac_".toList ++ base64Chars id).length = 28 := by
    rw [List.length_append,length_base64Chars,hid]
    rfl
  rw [hlist]
  refine secretPart_ofList (fun c hc => ?_) (by omega) (by omega)
  rcases List.mem_append.mp hc with hc | hc
  · have hsac : "sac_".toList.all secretChar = true := by decide
    exact List.all_eq_true.mp hsac c hc
  · exact base64Chars_secretChar id c hc

lemma wire_eq (id material : Bytes) : (CredentialSecret.ofRandom id material).wire =
    secretText ("sac_" ++ base64Encode id) (base64Encode material) := rfl

end LensoServiceAccount
