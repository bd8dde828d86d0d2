import LensoServiceAccount.Phases
import LensoServiceAccount.Rotation

/-! The size of a session's receipt: which sessions that an exchange accepts can be recorded. -/

namespace LensoServiceAccount
variable {E : Environment}

/-- AES-256-GCM adds a tag of 16 bytes. -/
def Environment.Tagged (E : Environment) : Prop := ∀ key nonce aad plain ciphertext,
  E.aeadEncrypt key nonce aad plain = some ciphertext → ciphertext.length = plain.length + 16

/-- The bytes that the contents of the response take in its encoding: a quotation mark, a backslash and
some control characters take two, the other control characters six, and the rest their UTF-8 length. -/
def sessionSize (row : CredentialRow) (session : IssueResponse) : ℕ :=
  Json.stringSize session.credential + Json.stringSize session.expiresAt + Json.stringSize row.organizationId +
    Json.stringSize row.serviceAccountId + Json.stringSize session.sessionId + Json.stringSize row.subject

lemma length_toVec_response (row : CredentialRow) (session : IssueResponse) :
    (Json.toVec (Receipt.toJson (session.response row))).length = sessionSize row session + 107 := by
  have hsize := Json.length_toVec_object [("credential",session.credential),("expires_at",session.expiresAt),
    ("organization_id",row.organizationId),("service_account_id",row.serviceAccountId),
    ("session_id",session.sessionId),("subject",row.subject)]
  have hnames : Json.stringSize "credential" = 10 ∧ Json.stringSize "expires_at" = 10 ∧
      Json.stringSize "organization_id" = 15 ∧ Json.stringSize "service_account_id" = 18 ∧
      Json.stringSize "session_id" = 10 ∧ Json.stringSize "subject" = 7 := by decide
  obtain ⟨h₁,h₂,h₃,h₄,h₅,h₆⟩ := hnames
  simp only [Json.fieldsSize,h₁,h₂,h₃,h₄,h₅,h₆] at hsize
  refine hsize.trans ?_
  rw [sessionSize]
  omega

lemma length_sealed (hE : E.Tagged) {h : Held E} {row : CredentialRow} {session : IssueResponse}
    {nonce ciphertext : Bytes} (hs : h.Sealed (Receipt.toJson (session.response row)) nonce ciphertext) :
    ciphertext.length = sessionSize row session + 123 := by
  have hlength := hE _ _ _ _ _ hs.2
  rw [length_toVec_response] at hlength
  exact hlength

/-- The statement that completes a command goes through when the completed row passes its checks. -/
lemma completeCommand_iff {o : Collation} {t : Time} {d : Database} {key : CommandKey} {nonce ciphertext : Bytes}
    {c : Command} (hc : d.commands.find key = some c) (hcomp : c.status.completable = true) :
    (∃ ws, (TxStatement.completeCommand key nonce ciphertext).execute o t d = .ok (1, ws)) ↔
      Row.check (c.succeed t nonce ciphertext) = true := by
  constructor
  · rintro ⟨ws,h⟩
    obtain ⟨hn,-⟩ | ⟨-,c',hv,hc',-⟩ := completeCommand_ok h
    · cases hn
    · obtain rfl := Option.some.inj (hc.symm.trans hc')
      exact hv
  · intro hv
    cases hx : (TxStatement.completeCommand key nonce ciphertext).execute o t d with
    | error e =>
      obtain ⟨-,c',hc',-,hno⟩ := completeCommand_error hx
      obtain rfl := Option.some.inj (hc.symm.trans hc')
      exact absurd hv hno
    | ok r =>
      obtain ⟨n,ws⟩ := r
      obtain ⟨-,-,hno⟩ | ⟨rfl,-⟩ := completeCommand_ok hx
      · exact absurd (hcomp.symm.trans (hno c hc)) (by simp)
      · exact ⟨ws,rfl⟩

lemma Command.succeed_check_iff {c : Command} (h : Row.check c = true) (hc : c.status.completable = true)
    {nonce ciphertext : Bytes} (hn : nonce.length = 12) (t : Time) :
    Row.check (c.succeed t nonce ciphertext) = true ↔ ciphertext.length ≤ 262144 := by
  constructor
  · intro hv
    simp only [Row.check,Command.check,Command.succeed,Bool.and_eq_true,Option.all_some,decide_eq_true_eq] at hv
    exact hv.1.1.2
  · exact fun hx => Command.succeed_check h hc hn hx t

/-- The receipt of a session is within its limit, and can be stored for an issuing command, exactly when
the contents of the response take at most 262021 bytes in their encoding. -/
theorem session_recorded_iff (hE : E.Tagged) {h : Held E} {row : CredentialRow} {session : IssueResponse}
    {nonce ciphertext : Bytes} (hs : h.Sealed (Receipt.toJson (session.response row)) nonce ciphertext) :
    (ciphertext.length ≤ 262144 ↔ sessionSize row session ≤ 262021) ∧
      ∀ o t d c, d.commands.find h.key = some c → c.status = .issuing →
        ((∃ ws, (TxStatement.completeCommand h.key nonce ciphertext).execute o t d = .ok (1, ws)) ↔
          sessionSize row session ≤ 262021) := by
  have hlength : ciphertext.length ≤ 262144 ↔ sessionSize row session ≤ 262021 := by
    have heq := length_sealed hE hs
    omega
  refine ⟨hlength,fun o t d c hc hissuing => ?_⟩
  have hcomp : c.status.completable = true := by rw [hissuing]; rfl
  rw [completeCommand_iff hc hcomp,Command.succeed_check_iff (Table.check_of_find hc) hcomp hs.1,hlength]

/-- The crates of the runs above, but for ciphertexts that end with a tag. -/
noncomputable def Environment.tagged : Environment :=
  { Environment.plain with
    aeadEncrypt := fun _ _ _ bytes => some (bytes ++ List.replicate 16 0)
    aeadDecrypt := fun _ _ _ bytes => some (bytes.take (bytes.length - 16)) }

lemma tagged_tagged : Environment.tagged.Tagged := by
  intro key nonce aad plain ciphertext h
  simp only [Environment.tagged,Option.some.injEq] at h
  rw [← h,List.length_append,List.length_replicate]

/-- The command of an exchange, held under the sample configuration. -/
noncomputable def sampleHeld : Held .tagged where
  active := {
    config := sampleConfig
    pepper := List.replicate 32 1
    receiptCipher := ⟨[7]⟩
    dummyVerifier := sampleVerifier
    valid := rfl
    longPepper := by decide
    dummy := ⟨[],rfl⟩ }
  key := ⟨"gateway","exchange_secret","k2"⟩
  intent := .null

def sampleCredentialRow : CredentialRow where
  credentialId := "sac_1"
  serviceAccountId := "sa_1"
  organizationId := "org"
  subject := "subject"
  accountStatus := .active
  verifier := sampleVerifier
  validFrom := seconds 100
  validUntil := seconds 400
  revokedAt := none

/-- A credential of control characters, as long as an exchange accepts it. -/
def oversized : IssueResponse where
  sessionId := "session"
  credential := String.ofList (List.replicate 65536 (Char.ofNat 1))
  expiresAt := "1970-01-01T00:05:00Z"

lemma utf8ByteSize_replicate (n : ℕ) (c : Char) :
    (String.ofList (List.replicate n c)).utf8ByteSize = n * c.utf8Size := by
  induction n with
  | zero => simp
  | succ n ih =>
    rw [List.replicate_succ,← List.singleton_append,String.ofList_append,String.utf8ByteSize_append,ih,
      show String.ofList [c] = String.singleton c from rfl,String.utf8ByteSize_singleton]
    lia

lemma stringSize_replicate (n : ℕ) (c : Char) :
    Json.stringSize (String.ofList (List.replicate n c)) = n * Json.escapedSize c := by
  rw [Json.stringSize,String.toList_ofList]
  induction n with
  | zero => simp
  | succ n ih => rw [List.replicate_succ,List.foldr_cons,ih,Nat.succ_mul,Nat.add_comm]

/-- An exchange accepts a session whose receipt is too large to be stored: the completion violates a
CHECK, and the command stays issuing. -/
theorem oversized_session_unrecorded : Bounded sampleHeld sampleCredentialRow (seconds 100) oversized ∧
    ∃ nonce ciphertext, sampleHeld.Sealed (Receipt.toJson (oversized.response sampleCredentialRow)) nonce ciphertext ∧
      262144 < ciphertext.length ∧ ∀ o t d c, d.commands.find sampleHeld.key = some c → c.status = .issuing →
        (TxStatement.completeCommand sampleHeld.key nonce ciphertext).execute o t d = .error .checkViolation := by
  have hbounded : Bounded sampleHeld sampleCredentialRow (seconds 100) oversized := by
    have hparse : Environment.tagged.parseRfc3339 "1970-01-01T00:05:00Z" = some (seconds 300) := by
      simp [Environment.tagged,Environment.plain]
    refine ⟨?_,seconds 300,hparse,?_⟩
    · have hsize : oversized.credential.utf8ByteSize = 65536 := utf8ByteSize_replicate 65536 (Char.ofNat 1)
      rw [IssueResponse.wellFormed,hsize]
      decide
    · decide
  have hsealed : sampleHeld.Sealed (Receipt.toJson (oversized.response sampleCredentialRow)) (List.replicate 12 0)
      (Json.toVec (Receipt.toJson (oversized.response sampleCredentialRow)) ++ List.replicate 16 0) := ⟨rfl,rfl⟩
  have hlong : 262144 < (Json.toVec (Receipt.toJson (oversized.response sampleCredentialRow)) ++
      List.replicate 16 0).length := by
    rw [length_sealed tagged_tagged hsealed,sessionSize,show Json.stringSize oversized.credential = 65536 * 6 from
      stringSize_replicate 65536 (Char.ofNat 1)]
    omega
  refine ⟨hbounded,_,_,hsealed,hlong,fun o t d c hc hissuing => ?_⟩
  have hcomp : c.status.completable = true := by rw [hissuing]; rfl
  have hcheck : ¬Row.check (c.succeed t (List.replicate 12 0)
      (Json.toVec (Receipt.toJson (oversized.response sampleCredentialRow)) ++ List.replicate 16 0)) = true := by
    rw [Command.succeed_check_iff (Table.check_of_find hc) hcomp rfl]
    exact not_le.mpr hlong
  cases hx : (TxStatement.completeCommand sampleHeld.key (List.replicate 12 0)
      (Json.toVec (Receipt.toJson (oversized.response sampleCredentialRow)) ++ List.replicate 16 0)).execute o t d with
  | error e => rw [(completeCommand_error hx).1]
  | ok r =>
    obtain ⟨-,-,hno⟩ | ⟨-,c',hv,hc',-⟩ := completeCommand_ok hx
    · exact absurd (hcomp.symm.trans (hno c hc)) (by simp)
    · obtain rfl := Option.some.inj (hc.symm.trans hc')
      exact absurd hv hcheck

/-- A short session is recorded. -/
theorem session_recorded_sample : (Json.toVec (Receipt.toJson ((⟨"session","token","1970-01-01T00:05:00Z"⟩ :
    IssueResponse).response sampleCredentialRow)) ++ List.replicate 16 0).length ≤ 262144 := by
  have hsealed : sampleHeld.Sealed (Receipt.toJson ((⟨"session","token","1970-01-01T00:05:00Z"⟩ :
      IssueResponse).response sampleCredentialRow)) (List.replicate 12 0) (Json.toVec (Receipt.toJson
        ((⟨"session","token","1970-01-01T00:05:00Z"⟩ : IssueResponse).response sampleCredentialRow)) ++
          List.replicate 16 0) := ⟨rfl,rfl⟩
  exact (session_recorded_iff tagged_tagged hsealed).1.mpr (by decide)

end LensoServiceAccount
