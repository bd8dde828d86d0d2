import Mathlib.Data.List.Basic
import LensoServiceAccount.Library.Text

/-! JSON values without numbers, and their compact text. -/

inductive Json
  | null
  | bool (value : Bool)
  | string (value : String)
  | array (elements : List Json)
  | object (fields : List (String × Json))

namespace Json

/-- The bytes of a text. -/
def utf8 (cs : List Char) : List UInt8 := cs.flatMap String.utf8EncodeChar

def hexDigit (n : ℕ) : Char := if n < 10 then Char.ofNat (48 + n) else Char.ofNat (87 + n)

/-- Quotation marks, backslashes and control characters are escaped, nothing else is. -/
def escape (c : Char) : List Char :=
  if c = '"' then ['\\','"']
  else if c = '\\' then ['\\','\\']
  else if c.toNat = 8 then ['\\','b']
  else if c.toNat = 9 then ['\\','t']
  else if c.toNat = 10 then ['\\','n']
  else if c.toNat = 12 then ['\\','f']
  else if c.toNat = 13 then ['\\','r']
  else if c.toNat < 32 then ['\\','u','0','0',hexDigit (c.toNat / 16),hexDigit (c.toNat % 16)]
  else [c]

def printString (s : String) : List Char := '"' :: s.toList.flatMap escape ++ ['"']

mutual

def print : Json → List Char
  | .null => "null".toList
  | .bool true => "true".toList
  | .bool false => "false".toList
  | .string s => printString s
  | .array xs => '[' :: printElements xs ++ [']']
  | .object fs => '{' :: printFields fs ++ ['}']

def printElements : List Json → List Char
  | [] => []
  | [x] => print x
  | x :: y :: ys => print x ++ ',' :: printElements (y :: ys)

def printFields : List (String × Json) → List Char
  | [] => []
  | [(n, x)] => printString n ++ ':' :: print x
  | (n, x) :: f :: fs => printString n ++ ':' :: print x ++ ',' :: printFields (f :: fs)

end

/-- The compact encoding. -/
def toVec (j : Json) : List UInt8 := utf8 j.print

/-- The value of a field that an object has exactly once. -/
def field (name : String) : Json → Option Json
  | .object fs =>
    match fs.filter fun f => f.1 = name with
    | [(_, j)] => some j
    | _ => none
  | _ => none

def asString : Json → Option String
  | .string s => some s
  | _ => none

def asBool : Json → Option Bool
  | .bool b => some b
  | _ => none

/-- An optional string: a string or `null`. -/
def asOptional : Json → Option (Option String)
  | .string s => some (some s)
  | .null => some none
  | _ => none

def ofOptional : Option String → Json
  | some s => .string s
  | none => .null

/-- The character that an escape sequence begins with, and what follows it. -/
def unescape : List Char → Option (Char × List Char)
  | '\\' :: '"' :: r => some ('"',r)
  | '\\' :: '\\' :: r => some ('\\',r)
  | '\\' :: 'b' :: r => some (Char.ofNat 8,r)
  | '\\' :: 't' :: r => some (Char.ofNat 9,r)
  | '\\' :: 'n' :: r => some (Char.ofNat 10,r)
  | '\\' :: 'f' :: r => some (Char.ofNat 12,r)
  | '\\' :: 'r' :: r => some (Char.ofNat 13,r)
  | '\\' :: 'u' :: '0' :: '0' :: h :: l :: r =>
    some (Char.ofNat (16 * (if h.toNat < 58 then h.toNat - 48 else h.toNat - 87) +
      if l.toNat < 58 then l.toNat - 48 else l.toNat - 87),r)
  | c :: r => some (c,r)
  | [] => none

lemma hexDigit_value {n : ℕ} (h : n < 16) :
    (if (hexDigit n).toNat < 58 then (hexDigit n).toNat - 48 else (hexDigit n).toNat - 87) = n := by
  revert n
  decide

theorem unescape_escape (c : Char) (r : List Char) : unescape (escape c ++ r) = some (c,r) := by
  have hof : ∀ n, c.toNat = n → Char.ofNat n = c := fun n h => h ▸ Char.ofNat_toNat c
  unfold escape
  split_ifs with h₁ h₂ h₃ h₄ h₅ h₆ h₇ h₈
  · simp [unescape,h₁]
  · simp [unescape,h₂]
  · simpa [unescape] using hof _ h₃
  · simpa [unescape] using hof _ h₄
  · simpa [unescape] using hof _ h₅
  · simpa [unescape] using hof _ h₆
  · simpa [unescape] using hof _ h₇
  · have hh : c.toNat / 16 < 16 := by omega
    have hl : c.toNat % 16 < 16 := by omega
    simp only [List.cons_append,List.nil_append,unescape,hexDigit_value hh,hexDigit_value hl,
      Option.some.injEq,Prod.mk.injEq,and_true]
    exact hof _ (by omega)
  · rw [List.singleton_append]
    unfold unescape
    split <;> simp_all

/-- A quoted text is read back up to the closing quotation mark. -/
lemma escape_head (c : Char) : (escape c).head? ≠ some '"' := by
  unfold escape
  split_ifs with h₁ <;> simp [h₁]

lemma flatMap_escape_inj {cs cs' r r' : List Char}
    (h : cs.flatMap escape ++ '"' :: r = cs'.flatMap escape ++ '"' :: r') : cs = cs' ∧ r = r' := by
  have hne : ∀ (c : Char) (x y : List Char), '"' :: x ≠ escape c ++ y := by
    intro c x y he
    have hhead := escape_head c
    have hc := unescape_escape c y
    cases hx : escape c with
    | nil =>
      unfold escape at hx
      split_ifs at hx
    | cons d ds =>
      rw [hx] at he hhead
      obtain ⟨rfl,-⟩ := List.cons.inj he
      exact hhead rfl
  induction cs generalizing cs' with
  | nil =>
    cases cs' with
    | nil => exact ⟨rfl,(List.cons.inj h).2⟩
    | cons c cs' =>
      rw [List.flatMap_nil,List.nil_append,List.flatMap_cons,List.append_assoc] at h
      exact absurd h (hne _ _ _)
  | cons c cs ih =>
    cases cs' with
    | nil =>
      rw [List.flatMap_nil,List.nil_append,List.flatMap_cons,List.append_assoc] at h
      exact absurd h.symm (hne _ _ _)
    | cons c' cs' =>
      rw [List.flatMap_cons,List.flatMap_cons,List.append_assoc,List.append_assoc] at h
      have hread := congrArg unescape h
      rw [unescape_escape,unescape_escape,Option.some.injEq,Prod.mk.injEq] at hread
      obtain ⟨rfl,hrest⟩ := hread
      obtain ⟨rfl,rfl⟩ := ih hrest
      exact ⟨rfl,rfl⟩

lemma printString_inj {s s' : String} {r r' : List Char}
    (h : printString s ++ r = printString s' ++ r') : s = s' ∧ r = r' := by
  simp only [printString,List.cons_append,List.append_assoc,List.nil_append] at h
  obtain ⟨hs,hr⟩ := flatMap_escape_inj (List.cons.inj h).2
  exact ⟨String.toList_inj.mp hs,hr⟩

/-- The kinds of values begin with different characters. -/
def first : Json → Char
  | .null => 'n'
  | .bool true => 't'
  | .bool false => 'f'
  | .string _ => '"'
  | .array _ => '['
  | .object _ => '\x7b'

lemma print_first (j : Json) : ∃ cs, j.print = j.first :: cs := by
  cases j with
  | bool b => cases b <;> exact ⟨_,rfl⟩
  | _ => exact ⟨_,rfl⟩

lemma bracket_ne_print (j : Json) (r r' : List Char) : ']' :: r ≠ j.print ++ r' := by
  obtain ⟨cs,hj⟩ := print_first j
  rw [hj]
  intro h
  have hfirst := (List.cons.inj h).1
  cases j with
  | bool b => cases b <;> simp [first] at hfirst
  | _ => simp [first] at hfirst

mutual

/-- Reading is unambiguous: no value begins another. -/
theorem print_inj : ∀ {j j' : Json} {r r' : List Char}, j.print ++ r = j'.print ++ r' → j = j' ∧ r = r'
  | j, j', r, r', h => by
    have hfirst : j.first = j'.first := by
      obtain ⟨cs,hj⟩ := print_first j
      obtain ⟨cs',hj'⟩ := print_first j'
      rw [hj,hj'] at h
      exact (List.cons.inj h).1
    match j, j', hfirst, h with
    | .null, .null, _, h => exact ⟨rfl,List.append_cancel_left h⟩
    | .bool true, .bool true, _, h => exact ⟨rfl,List.append_cancel_left h⟩
    | .bool false, .bool false, _, h => exact ⟨rfl,List.append_cancel_left h⟩
    | .string s, .string s', _, h =>
      obtain ⟨rfl,rfl⟩ := printString_inj h
      exact ⟨rfl,rfl⟩
    | .array xs, .array xs', _, h =>
      simp only [print,List.cons_append,List.append_assoc,List.nil_append] at h
      obtain ⟨rfl,rfl⟩ := printElements_inj (List.cons.inj h).2
      exact ⟨rfl,rfl⟩
    | .object fs, .object fs', _, h =>
      simp only [print,List.cons_append,List.append_assoc,List.nil_append] at h
      obtain ⟨rfl,rfl⟩ := printFields_inj (List.cons.inj h).2
      exact ⟨rfl,rfl⟩

theorem printElements_inj : ∀ {xs xs' : List Json} {r r' : List Char},
    printElements xs ++ ']' :: r = printElements xs' ++ ']' :: r' → xs = xs' ∧ r = r'
  | [], [], _, _, h => ⟨rfl,(List.cons.inj h).2⟩
  | [], [_], _, _, h => absurd h (bracket_ne_print _ _ _)
  | [], _ :: _ :: _, _, _, h => absurd (by simpa [printElements] using h) (bracket_ne_print _ _ _)
  | [_], [], _, _, h => absurd h.symm (bracket_ne_print _ _ _)
  | _ :: _ :: _, [], _, _, h =>
    absurd (by simpa [printElements] using h.symm) (bracket_ne_print _ _ _)
  | [x], [x'], _, _, h => by
    obtain ⟨rfl,hr⟩ := print_inj h
    exact ⟨rfl,(List.cons.inj hr).2⟩
  | [x], x' :: y :: ys, _, _, h => by
    simp only [printElements,List.append_assoc,List.cons_append] at h
    obtain ⟨-,hr⟩ := print_inj h
    simp at hr
  | x :: y :: ys, [x'], _, _, h => by
    simp only [printElements,List.append_assoc,List.cons_append] at h
    obtain ⟨-,hr⟩ := print_inj h
    simp at hr
  | x :: y :: ys, x' :: y' :: ys', _, _, h => by
    simp only [printElements,List.append_assoc,List.cons_append] at h
    obtain ⟨rfl,hr⟩ := print_inj h
    obtain ⟨hys,rfl⟩ := printElements_inj (List.cons.inj hr).2
    exact ⟨by rw [hys],rfl⟩

theorem printFields_inj : ∀ {fs fs' : List (String × Json)} {r r' : List Char},
    printFields fs ++ '\x7d' :: r = printFields fs' ++ '\x7d' :: r' → fs = fs' ∧ r = r'
  | [], [], _, _, h => ⟨rfl,(List.cons.inj h).2⟩
  | [], [(n, x)], _, _, h => by simp [printFields,printString] at h
  | [], (n, x) :: f :: fs, _, _, h => by simp [printFields,printString] at h
  | [(n, x)], [], _, _, h => by simp [printFields,printString] at h
  | (n, x) :: f :: fs, [], _, _, h => by simp [printFields,printString] at h
  | [(n, x)], [(n', x')], _, _, h => by
    simp only [printFields,List.append_assoc,List.cons_append] at h
    obtain ⟨rfl,hx⟩ := printString_inj h
    obtain ⟨rfl,hr⟩ := print_inj (List.cons.inj hx).2
    exact ⟨rfl,(List.cons.inj hr).2⟩
  | [(n, x)], (n', x') :: f :: fs, _, _, h => by
    simp only [printFields,List.append_assoc,List.cons_append] at h
    obtain ⟨rfl,hx⟩ := printString_inj h
    obtain ⟨-,hr⟩ := print_inj (List.cons.inj hx).2
    simp at hr
  | (n, x) :: f :: fs, [(n', x')], _, _, h => by
    simp only [printFields,List.append_assoc,List.cons_append] at h
    obtain ⟨rfl,hx⟩ := printString_inj h
    obtain ⟨-,hr⟩ := print_inj (List.cons.inj hx).2
    simp at hr
  | (n, x) :: f :: fs, (n', x') :: f' :: fs', _, _, h => by
    simp only [printFields,List.append_assoc,List.cons_append] at h
    obtain ⟨rfl,hx⟩ := printString_inj h
    obtain ⟨rfl,hr⟩ := print_inj (List.cons.inj hx).2
    obtain ⟨hfs,rfl⟩ := printFields_inj (List.cons.inj hr).2
    exact ⟨by rw [hfs],rfl⟩

end

theorem utf8_inj {cs cs' : List Char} (h : utf8 cs = utf8 cs') : cs = cs' := by
  have hencode : cs.utf8Encode = cs'.utf8Encode := by
    simp only [List.utf8Encode]
    exact congrArg List.toByteArray h
  have hdecode := congrArg ByteArray.utf8Decode? hencode
  rw [List.utf8Decode?_utf8Encode,List.utf8Decode?_utf8Encode] at hdecode
  simpa using hdecode

/-- Different values have different encodings. -/
theorem toVec_inj {j j' : Json} (h : j.toVec = j'.toVec) : j = j' :=
  (print_inj (congrArg (· ++ []) (utf8_inj h))).1

open Classical in
/-- The value that an encoding is of. -/
noncomputable def ofVec (bytes : List UInt8) : Option Json :=
  if h : ∃ j : Json, j.toVec = bytes then some h.choose else none

theorem ofVec_toVec (j : Json) : ofVec j.toVec = some j := by
  have h : ∃ j' : Json, j'.toVec = j.toVec := ⟨j,rfl⟩
  rw [ofVec,dif_pos h]
  exact congrArg some (toVec_inj h.choose_spec)

@[simp] theorem asString_string (s : String) : (string s).asString = some s := rfl
@[simp] theorem asBool_bool (b : Bool) : (bool b).asBool = some b := rfl
@[simp] theorem asOptional_ofOptional (s : Option String) : (ofOptional s).asOptional = some s := by
  cases s <;> rfl

/-- The bytes that a character takes in a printed string. -/
def escapedSize (c : Char) : ℕ :=
  if c = '"' ∨ c = '\\' ∨ c.toNat = 8 ∨ c.toNat = 9 ∨ c.toNat = 10 ∨ c.toNat = 12 ∨ c.toNat = 13 then 2
  else if c.toNat < 32 then 6 else c.utf8Size

/-- The bytes between the quotation marks of a printed string. -/
def stringSize (s : String) : ℕ := s.toList.foldr (fun c n => escapedSize c + n) 0

lemma length_utf8_append (cs cs' : List Char) : (utf8 (cs ++ cs')).length = (utf8 cs).length + (utf8 cs').length := by
  rw [utf8,List.flatMap_append,List.length_append]
  rfl

lemma length_utf8_cons (c : Char) (cs : List Char) : (utf8 (c :: cs)).length = c.utf8Size + (utf8 cs).length := by
  rw [utf8,List.flatMap_cons,List.length_append,String.length_utf8EncodeChar]
  rfl

@[simp] lemma length_utf8_nil : (utf8 []).length = 0 := rfl

lemma utf8Size_hexDigit {n : ℕ} (h : n < 16) : (hexDigit n).utf8Size = 1 := by
  revert n
  decide

lemma length_utf8_escape (c : Char) : (utf8 (escape c)).length = escapedSize c := by
  have hhigh : c.toNat < 32 → c.toNat / 16 < 16 := by omega
  have hlow : c.toNat % 16 < 16 := by omega
  unfold escape escapedSize
  split_ifs <;> simp_all [length_utf8_cons,utf8Size_hexDigit] <;> rfl

lemma length_utf8_flatMap_escape (cs : List Char) :
    (utf8 (cs.flatMap escape)).length = cs.foldr (fun c n => escapedSize c + n) 0 := by
  induction cs with
  | nil => rfl
  | cons c cs ih => rw [List.flatMap_cons,length_utf8_append,length_utf8_escape,ih,List.foldr_cons]

theorem length_utf8_printString (s : String) : (utf8 (printString s)).length = stringSize s + 2 := by
  have hquote : '"'.utf8Size = 1 := rfl
  rw [printString,List.cons_append,length_utf8_cons,length_utf8_append,length_utf8_flatMap_escape,length_utf8_cons,
    length_utf8_nil,hquote,stringSize]
  omega

lemma escapedSize_le (c : Char) : escapedSize c ≤ 6 * c.utf8Size := by
  have hpos := c.utf8Size_pos
  unfold escapedSize
  split_ifs <;> omega

/-- No byte becomes more than six. -/
theorem stringSize_le (s : String) : stringSize s ≤ 6 * s.utf8ByteSize := by
  have hlist : ∀ cs : List Char,
      cs.foldr (fun c n => escapedSize c + n) 0 ≤ 6 * (String.ofList cs).utf8ByteSize := by
    intro cs
    induction cs with
    | nil => exact Nat.zero_le _
    | cons c cs ih =>
      have hc := escapedSize_le c
      rw [List.foldr_cons,Text.utf8ByteSize_cons]
      omega
  have h := hlist s.toList
  rwa [String.ofList_toList] at h

lemma length_print_ofOptional_le {s : Option String} {n : ℕ} (h : ∀ t, s = some t → t.utf8ByteSize ≤ n) :
    (utf8 (ofOptional s).print).length ≤ 6 * n + 4 := by
  cases s with
  | none =>
    have hnull : (utf8 (ofOptional none).print).length = 4 := by decide
    omega
  | some t =>
    have hsize := stringSize_le t
    have ht := h t rfl
    rw [ofOptional,print,length_utf8_printString]
    omega

/-- The bytes of an object of strings. -/
def fieldsSize : List (String × String) → ℕ
  | [] => 0
  | [(n, s)] => stringSize n + stringSize s + 5
  | (n, s) :: f :: fs => stringSize n + stringSize s + 6 + fieldsSize (f :: fs)

lemma length_utf8_printFields (fs : List (String × String)) :
    (utf8 (printFields (fs.map fun f => (f.1,.string f.2)))).length = fieldsSize fs := by
  have hcolon : ':'.utf8Size = 1 := rfl
  have hcomma : ','.utf8Size = 1 := rfl
  induction fs with
  | nil => rfl
  | cons f fs ih =>
    obtain ⟨n,s⟩ := f
    cases fs with
    | nil =>
      simp only [List.map_cons,List.map_nil,printFields,print,length_utf8_append,length_utf8_cons,
        length_utf8_printString,fieldsSize,hcolon]
      omega
    | cons f fs =>
      simp only [List.map_cons,printFields,print,length_utf8_append,length_utf8_cons,length_utf8_printString,
        fieldsSize,hcolon,hcomma] at ih ⊢
      rw [ih]
      omega

/-- The bytes of the encoding of an object of strings. -/
theorem length_toVec_object (fs : List (String × String)) :
    (toVec (.object (fs.map fun f => (f.1,.string f.2)))).length = fieldsSize fs + 2 := by
  have hopen : '\x7b'.utf8Size = 1 := rfl
  have hclose : '\x7d'.utf8Size = 1 := rfl
  rw [toVec,print,List.cons_append,length_utf8_cons,length_utf8_append,length_utf8_printFields,length_utf8_cons,
    length_utf8_nil]
  omega

end Json
