import LensoServiceAccount.Library.Program
import LensoServiceAccount.Contract
import LensoServiceAccount.Environment

/-! The cryptography module: secrets and their wire format, the Argon2id verifier, and the
cipher of receipts. Its code draws random bytes and asks for nothing else. -/

namespace LensoServiceAccount

/-- Code that draws random bytes and fails with `ε`. -/
abbrev Entropy (ε α : Type) := ExceptT ε (Program ℕ fun _ => Option Bytes) α

/-- `getrandom::fill` of a buffer, failing with the given error. -/
def Entropy.fill {ε : Type} (count : ℕ) (error : ε) : Entropy ε Bytes :=
  ExceptT.mk (.perform count fun
    | some bytes => .pure (.ok bytes)
    | none => .pure (.error error))

/-- What `getrandom` answers: it fails or fills the buffer. -/
def Filled (count : ℕ) (answer : Option Bytes) : Prop := ∀ bytes, answer = some bytes → bytes.length = count

/-- `map_err`. -/
def Entropy.mapError {ε ε' α : Type} (f : ε → ε') (p : Entropy ε α) : Entropy ε' α :=
  ExceptT.mk (p.run >>= fun r => pure (r.mapError f))

def secretPrefix : String := "lenso_sa_"

/-- The bytes of a text. -/
def asBytes (value : String) : Bytes := Json.utf8 value.toList

def isAsciiAlphanumeric (c : Char) : Bool :=
  (decide ('a' ≤ c) && decide (c ≤ 'z')) || (decide ('A' ≤ c) && decide (c ≤ 'Z')) ||
    (decide ('0' ≤ c) && decide (c ≤ '9'))

/-- Nonempty, at most `max` bytes, every byte an ASCII letter, a digit or one of `extra`.
Bytes of a longer encoding are none of these, so the characters can be asked instead. -/
def validBytes (extra : List Char) (max : ℕ) (value : String) : Bool :=
  !value.toList.isEmpty && decide (value.utf8ByteSize ≤ max) &&
    value.toList.all fun c => isAsciiAlphanumeric c || extra.contains c

/-- The alphabet of `URL_SAFE_NO_PAD`. -/
def base64Char (n : ℕ) : Char :=
  if n < 26 then Char.ofNat (65 + n)
  else if n < 52 then Char.ofNat (71 + n)
  else if n < 62 then Char.ofNat (n - 4)
  else if n = 62 then '-'
  else '_'

/-- `URL_SAFE_NO_PAD.encode`. -/
def base64Chars : Bytes → List Char
  | [] => []
  | [a] => [base64Char (a.toNat / 4),base64Char (a.toNat % 4 * 16)]
  | [a, b] => [base64Char (a.toNat / 4),base64Char (a.toNat % 4 * 16 + b.toNat / 16),
      base64Char (b.toNat % 16 * 4)]
  | a :: b :: c :: rest =>
    base64Char (a.toNat / 4) :: base64Char (a.toNat % 4 * 16 + b.toNat / 16) ::
      base64Char (b.toNat % 16 * 4 + c.toNat / 64) :: base64Char (c.toNat % 64) :: base64Chars rest

def base64Encode (bytes : Bytes) : String := String.ofList (base64Chars bytes)

structure CredentialSecret where
  credentialId : String
  wire : String
  deriving DecidableEq,Repr

/-- The secret made of 18 random bytes for the id and 32 for the material. -/
def CredentialSecret.ofRandom (id material : Bytes) : CredentialSecret where
  credentialId := "sac_" ++ base64Encode id
  wire := secretPrefix ++ ("sac_" ++ base64Encode id) ++ "." ++ base64Encode material

def CredentialSecret.generate : Entropy CryptoError CredentialSecret := do
  let id ← Entropy.fill 18 .random
  let material ← Entropy.fill 32 .random
  return .ofRandom id material

/-- `split_once('.')`. -/
def splitOnce (sep : Char) : List Char → Option (List Char × List Char)
  | [] => none
  | c :: cs =>
    if c = sep then some ([],cs) else (splitOnce sep cs).map fun r => (c :: r.1,r.2)

/-- The id part of a well-formed secret. -/
def credentialId (secret : String) : Option String :=
  if secretPrefix.toList.isPrefixOf secret.toList then
    (splitOnce '.' (secret.toList.drop secretPrefix.toList.length)).bind fun (id, material) =>
      if validBytes ['-','_'] 128 (String.ofList id) &&
          decide (32 ≤ (String.ofList material).utf8ByteSize) &&
          validBytes ['-','_'] 128 (String.ofList material) then some (String.ofList id)
      else none
  else none

/-- Secret, a zero byte, pepper. -/
def peppered (secret : String) (pepper : Bytes) : Bytes := asBytes secret ++ 0 :: pepper

def hashSecret (E : Environment) (secret : String) (pepper : Bytes) : Entropy CryptoError String := do
  let salt ← Entropy.fill 16 .random
  match E.hashPassword (peppered secret pepper) salt with
  | some verifier => return verifier
  | none => throw .passwordHash

/-- The check that `verify_secret` makes before it computes a hash. -/
def wellFormedVerifier (E : Environment) (verifier : String) : Bool :=
  E.phcAlgorithm verifier == some "argon2id"

/-- The result of `verify_secret`. -/
def verifySecretResult (E : Environment) (secret : String) (pepper : Bytes) (verifier : String) : Bool :=
  wellFormedVerifier E verifier && E.verifyPassword (peppered secret pepper) verifier

/-- The key of the receipt cipher. -/
structure ReceiptCipher where
  key : Bytes
  deriving DecidableEq

def ReceiptCipher.derive (E : Environment) (secret : Bytes) : ReceiptCipher := ⟨E.sha256 secret⟩

/-- Seal the encoding of a value under a fresh nonce. -/
def ReceiptCipher.encrypt (E : Environment) (cipher : ReceiptCipher) {ρ : Type} [Receipt ρ] (value : ρ)
    (aad : Bytes) : Entropy CryptoError (Bytes × Bytes) := do
  let nonce ← Entropy.fill 12 .random
  match E.aeadEncrypt cipher.key nonce aad (Json.toVec (Receipt.toJson value)) with
  | some ciphertext => return (nonce,ciphertext)
  | none => throw .receiptEncryption

def ReceiptCipher.decrypt (E : Environment) (cipher : ReceiptCipher) (ρ : Type) [Receipt ρ]
    (nonce ciphertext aad : Bytes) : Except CryptoError ρ :=
  if nonce.length = 12 then
    match E.aeadDecrypt cipher.key nonce aad ciphertext with
    | none => .error .receiptDecryption
    | some bytes =>
      match (E.fromSlice bytes).bind Receipt.fromJson with
      | none => .error .deserialize
      | some value => .ok value
  else .error .receiptDecryption

section Outcomes
variable {E : Environment} {ε ε' α : Type}

/-- Drawing bytes either fails or goes on with as many as asked for. -/
lemma Entropy.fill_outcome {count : ℕ} {error : ε} {f : Bytes → Entropy ε α} {r : Except ε α}
    (h : Program.Outcome Filled (Entropy.fill count error >>= f).run r) :
    (∃ bytes : Bytes, bytes.length = count ∧ (f bytes).run.Outcome Filled r) ∨ r = .error error := by
  obtain ⟨answer,ha,h⟩ := h
  cases answer with
  | none => exact .inr h.symm
  | some bytes => exact .inl ⟨bytes,ha bytes rfl,h⟩

lemma Entropy.mapError_outcome {f : ε → ε'} {p : Entropy ε α} {r : Except ε' α}
    (h : (p.mapError f).run.Outcome Filled r) :
    ∃ x, p.run.Outcome Filled x ∧ r = x.mapError f := by
  obtain ⟨x,hx,h⟩ := (Program.outcome_bind p.run _ r).mp h
  exact ⟨x,hx,h.symm⟩

/-- The secrets that may be generated. -/
lemma CredentialSecret.generate_outcome {r : Except CryptoError CredentialSecret}
    (h : generate.run.Outcome Filled r) :
    (∃ id material : Bytes, id.length = 18 ∧ material.length = 32 ∧ r = .ok (.ofRandom id material)) ∨
      r = .error .random := by
  obtain ⟨id,hid,h⟩ | h := Entropy.fill_outcome h
  · obtain ⟨material,hm,h⟩ | h := Entropy.fill_outcome h
    · exact .inl ⟨id,material,hid,hm,h.symm⟩
    · exact .inr h
  · exact .inr h

lemma hashSecret_outcome {secret : String} {pepper : Bytes} {r : Except CryptoError String}
    (h : (hashSecret E secret pepper).run.Outcome Filled r) :
    (∃ (salt : Bytes) (verifier : String), salt.length = 16 ∧
      E.hashPassword (peppered secret pepper) salt = some verifier ∧ r = .ok verifier) ∨
      r = .error .random ∨ r = .error .passwordHash := by
  obtain ⟨salt,hs,h⟩ | h := Entropy.fill_outcome h
  · split at h
    · next verifier hv => exact .inl ⟨salt,verifier,hs,hv,h.symm⟩
    · exact .inr (.inr h.symm)
  · exact .inr (.inl h)

lemma ReceiptCipher.encrypt_outcome {cipher : ReceiptCipher} {ρ : Type} [Receipt ρ] {value : ρ} {aad : Bytes}
    {r : Except CryptoError (Bytes × Bytes)} (h : (cipher.encrypt E value aad).run.Outcome Filled r) :
    (∃ nonce ciphertext : Bytes, nonce.length = 12 ∧
      E.aeadEncrypt cipher.key nonce aad (Json.toVec (Receipt.toJson value)) = some ciphertext ∧
      r = .ok (nonce,ciphertext)) ∨ r = .error .random ∨ r = .error .receiptEncryption := by
  obtain ⟨nonce,hn,h⟩ | h := Entropy.fill_outcome h
  · split at h
    · next ciphertext hc => exact .inl ⟨nonce,ciphertext,hn,hc,h.symm⟩
    · exact .inr (.inr h.symm)
  · exact .inr (.inl h)

end Outcomes
end LensoServiceAccount
