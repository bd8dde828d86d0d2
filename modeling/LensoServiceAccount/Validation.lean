import LensoServiceAccount.Recording
import LensoServiceAccount.Secrets
import LensoServiceAccount.Completion

/-! Validated input fits the schema: what the validators of a creation accept passes every check of the
tables, so that no creation fails on a CHECK. -/

namespace LensoServiceAccount
variable {E : Environment}

/-- What the crates promise about sizes. -/
structure Environment.Sized (E : Environment) : Prop where
  digest : ∀ bytes, (E.sha256 bytes).length = 32
  verifier : ∀ input salt verifier, E.hashPassword input salt = some verifier →
    32 ≤ verifier.length ∧ verifier.length ≤ 1024
  tagged : E.Tagged
  time : ∀ t text, E.formatRfc3339 t = some text → text.utf8ByteSize ≤ 128

/-- The request of a creation that is accepted. -/
structure CreateServiceAccountRequest.Validated (request : CreateServiceAccountRequest) : Prop where
  idempotencyKey : validIdempotencyKey request.idempotencyKey = true
  organizationId : validToken request.organizationId 256 = true
  name : validName request.name = true

section Texts

lemma charLengthBetween_iff {value : String} {low high : ℕ} :
    charLengthBetween value low high = true ↔ low ≤ value.length ∧ value.length ≤ high := by
  simp only [charLengthBetween,Bool.and_eq_true,decide_eq_true_eq]

/-- A bound on bytes is one on characters. -/
lemma charLengthBetween_of_bytes {value : String} {max : ℕ} (hne : value.toList ≠ [])
    (h : value.utf8ByteSize ≤ max) : charLengthBetween value 1 max = true := by
  have hpos := List.length_pos_of_ne_nil hne
  have hle := Text.length_le_utf8ByteSize value
  rw [String.length_toList] at hpos
  exact charLengthBetween_iff.mpr ⟨hpos,hle.trans h⟩

lemma charLengthBetween_of_validBytes {extra : List Char} {max : ℕ} {value : String}
    (h : validBytes extra max value = true) : charLengthBetween value 1 max = true := by
  simp only [validBytes,Bool.and_eq_true,Bool.not_eq_true',decide_eq_true_eq] at h
  refine charLengthBetween_of_bytes ?_ h.1.2
  intro hnil
  simp [hnil] at h

lemma charLengthBetween_of_validCaller {value : String} (h : validCaller value = true) :
    charLengthBetween value 1 128 = true := by
  simp only [validCaller,Bool.and_eq_true,decide_eq_true_eq] at h
  refine charLengthBetween_of_bytes ?_ h.1.1
  intro hnil
  have hpart := h.2
  rw [hnil,show ([] : List Char).splitOn '/' = [[]] from rfl] at hpart
  cases hpart

lemma toList_trim (value : String) : (trim value).toList = Text.strip isWhitespace value.toList := by
  rw [trim,String.toList_ofList]
  rfl

lemma isWhitespace_of_space (c : Char) (h : (c == ' ') = true) : isWhitespace c = true := by
  rw [beq_iff_eq.mp h]
  decide

/-- There is no space at the ends of a trimmed text. -/
theorem btrim_trim (value : String) : btrim (trim value) = trim value := by
  have hstrip := Text.strip_strip isWhitespace_of_space value.toList
  rw [← toList_trim] at hstrip
  have hbtrim : btrim (trim value) = String.ofList (Text.strip (· == ' ') (trim value).toList) := rfl
  rw [hbtrim,hstrip,String.ofList_toList]

lemma length_toAsciiLowercase (value : String) : (toAsciiLowercase value).length = value.length := by
  rw [toAsciiLowercase,← String.length_toList,String.toList_ofList,List.length_map,String.length_toList]

lemma charLengthBetween_of_validName {value : String} (h : validName value = true) :
    charLengthBetween (trim value) 1 128 = true := by
  simp only [validName,Bool.and_eq_true,Bool.not_eq_true',decide_eq_true_eq] at h
  refine charLengthBetween_of_bytes ?_ h.1.2
  intro hnil
  simp [hnil] at h

lemma length_generated (start : String) (bytes : Bytes) :
    (start ++ base64Encode bytes).length = start.length + (4 * bytes.length + 2) / 3 := by
  rw [String.length_append,base64Encode,String.length_ofList,length_base64Chars]

end Texts

section Rows
variable {request : CreateServiceAccountRequest}

lemma reservedCommand_check {now : Time} {key : CommandKey} {intentHash : Bytes}
    (hcaller : validCaller key.callerInstance = true) (hoperation : charLengthBetween key.operation 1 64 = true)
    (hkey : validIdempotencyKey key.idempotencyKey = true) (hhash : intentHash.length = 32) :
    Row.check (reservedCommand now key intentHash) = true := by
  have hcallerLength := charLengthBetween_of_validCaller hcaller
  have hkeyLength : charLengthBetween key.idempotencyKey 1 128 = true := charLengthBetween_of_validBytes hkey
  simp [Row.check,Command.check,Command.shape,reservedCommand,hcallerLength,hoperation,hkeyLength,hhash]

lemma insertedAccount_check (hr : request.Validated) {now : Time} {subject : String} {bytes : Bytes}
    (hbytes : bytes.length = 24) (hsubject : validToken subject 256 = true) :
    Row.check (insertedAccount now ("sa_" ++ base64Encode bytes) request.organizationId subject (trim request.name)
      (toAsciiLowercase (trim request.name))) = true := by
  have hid : charLengthBetween ("sa_" ++ base64Encode bytes) 1 128 = true := by
    have hlength := length_generated "sa_" bytes
    have hstart : "sa_".length = 3 := rfl
    exact charLengthBetween_iff.mpr (by omega)
  have horganization : charLengthBetween request.organizationId 1 256 = true :=
    charLengthBetween_of_validBytes hr.organizationId
  have hsubjectLength : charLengthBetween subject 1 256 = true := charLengthBetween_of_validBytes hsubject
  have hname := charLengthBetween_of_validName hr.name
  have hlower : toAsciiLowercase (trim request.name) = lower (trim request.name) := rfl
  have hnameKey : charLengthBetween (lower (trim request.name)) 1 128 = true := by
    rw [charLengthBetween_iff] at hname ⊢
    rwa [← hlower,length_toAsciiLowercase]
  simp [Row.check,Account.check,insertedAccount,hid,horganization,hsubjectLength,hname,hnameKey,btrim_trim,hlower,
    bigintMax]

lemma insertedCredential_check {now validFrom validUntil : Time} {secret : CredentialSecret}
    {serviceAccountId verifier : String} (hs : secret.Generated)
    (hverifier : 32 ≤ verifier.length ∧ verifier.length ≤ 1024) (huntil : validFrom ≤ validUntil) :
    Row.check (insertedCredential now secret.credentialId serviceAccountId verifier validFrom validUntil) = true := by
  obtain ⟨id,material,hlength,-,rfl⟩ := hs
  have hid : charLengthBetween ("sac_" ++ base64Encode id) 1 128 = true := by
    have hgenerated := length_generated "sac_" id
    have hstart : "sac_".length = 4 := rfl
    exact charLengthBetween_iff.mpr (by omega)
  have hv := charLengthBetween_iff.mpr hverifier
  simp [Row.check,Credential.check,insertedCredential,CredentialSecret.ofRandom,hid,hv,huntil]

end Rows

section Receipts

/-- Every text of the summary takes at most `n` bytes. -/
structure ServiceAccountSummary.Small (n : ℕ) (s : ServiceAccountSummary) : Prop where
  createdAt : s.createdAt.utf8ByteSize ≤ n
  credentialExpiresAt : ∀ t, s.credentialExpiresAt = some t → t.utf8ByteSize ≤ n
  name : s.name.utf8ByteSize ≤ n
  organizationId : s.organizationId.utf8ByteSize ≤ n
  revision : s.revision.utf8ByteSize ≤ n
  revokedAt : ∀ t, s.revokedAt = some t → t.utf8ByteSize ≤ n
  rotatedAt : ∀ t, s.rotatedAt = some t → t.utf8ByteSize ≤ n
  serviceAccountId : s.serviceAccountId.utf8ByteSize ≤ n
  subject : s.subject.utf8ByteSize ≤ n

lemma length_print_string_le {s : String} {n : ℕ} (h : s.utf8ByteSize ≤ n) :
    (Json.utf8 (Json.printString s)).length ≤ 6 * n + 2 := by
  have hsize := Json.stringSize_le s
  rw [Json.length_utf8_printString]
  omega

/-- Ten texts and their names. -/
lemma ServiceAccountSummary.Small.length_le {n : ℕ} {s : ServiceAccountSummary} (h : s.Small n) :
    (Json.utf8 s.toJson.print).length ≤ 60 * n + 300 := by
  have h₁ := length_print_string_le h.createdAt
  have h₂ := Json.length_print_ofOptional_le h.credentialExpiresAt
  have h₃ := length_print_string_le h.name
  have h₄ := length_print_string_le h.organizationId
  have h₅ := length_print_string_le h.revision
  have h₆ := Json.length_print_ofOptional_le h.revokedAt
  have h₇ := Json.length_print_ofOptional_le h.rotatedAt
  have h₈ := length_print_string_le h.serviceAccountId
  have h₉ := length_print_string_le h.subject
  have hstatus : (Json.utf8 s.status.toJson.print).length ≤ 10 := by
    cases s.status <;> decide
  have hnames : (Json.utf8 (Json.printString "created_at")).length = 12 ∧
      (Json.utf8 (Json.printString "credential_expires_at")).length = 23 ∧
      (Json.utf8 (Json.printString "name")).length = 6 ∧
      (Json.utf8 (Json.printString "organization_id")).length = 17 ∧
      (Json.utf8 (Json.printString "revision")).length = 10 ∧
      (Json.utf8 (Json.printString "revoked_at")).length = 12 ∧
      (Json.utf8 (Json.printString "rotated_at")).length = 12 ∧
      (Json.utf8 (Json.printString "service_account_id")).length = 20 ∧
      (Json.utf8 (Json.printString "status")).length = 8 ∧
      (Json.utf8 (Json.printString "subject")).length = 9 := by decide
  have hcolon : ':'.utf8Size = 1 := rfl
  have hcomma : ','.utf8Size = 1 := rfl
  have hopen : '\x7b'.utf8Size = 1 := rfl
  have hclose : '\x7d'.utf8Size = 1 := rfl
  simp only [toJson,Json.print,Json.printFields,List.cons_append,Json.length_utf8_append,Json.length_utf8_cons,
    Json.length_utf8_nil,hnames,hcolon,hcomma,hopen,hclose]
  omega

lemma length_createReceipt_le {n : ℕ} {s : ServiceAccountSummary} (h : s.Small n) :
    (Json.toVec (Receipt.toJson (⟨s,true,none⟩ : CreateServiceAccountResponse))).length ≤ 60 * n + 350 := by
  have hsummary := h.length_le
  have hnames : (Json.utf8 (Json.printString "account")).length = 9 ∧
      (Json.utf8 (Json.printString "created")).length = 9 ∧
      (Json.utf8 (Json.printString "secret")).length = 8 ∧ (Json.utf8 "true".toList).length = 4 ∧
      (Json.utf8 "null".toList).length = 4 := by decide
  have hcolon : ':'.utf8Size = 1 := rfl
  have hcomma : ','.utf8Size = 1 := rfl
  have hopen : '\x7b'.utf8Size = 1 := rfl
  have hclose : '\x7d'.utf8Size = 1 := rfl
  simp only [Receipt.toJson,Json.toVec,Json.ofOptional,Json.print,Json.printFields,List.cons_append,
    Json.length_utf8_append,Json.length_utf8_cons,Json.length_utf8_nil,hnames,hcolon,hcomma,hopen,hclose]
  omega

lemma formatTime_size (hE : E.Sized) {t : Time} {text : String} (h : formatTime E t = .ok text) :
    text.utf8ByteSize ≤ 128 := by
  unfold formatTime at h
  split at h
  · next text' htext =>
    obtain rfl := Except.ok.inj h
    exact hE.time t text' htext
  · cases h

lemma formatOptionalTime_size (hE : E.Sized) {t : Option Time} {text : Option String}
    (h : formatOptionalTime E t = .ok text) : ∀ value, text = some value → value.utf8ByteSize ≤ 128 := by
  rintro value rfl
  cases t with
  | none => simp [formatOptionalTime] at h
  | some t =>
    cases ht : formatTime E t with
    | error e => simp [formatOptionalTime,ht] at h
    | ok text =>
      simp only [formatOptionalTime,ht,Except.ok.injEq,Option.some.injEq] at h
      subst h
      exact formatTime_size hE ht

/-- The summary of a new account is small. -/
lemma small_of_check (hE : E.Sized) {d : Database} {a : Account} {s : ServiceAccountSummary}
    (h : Row.check a = true) (hrevision : a.revision = 1) (hs : summary E (accountRow E.collation d a) = .ok s) :
    s.Small 1024 := by
  have hsummary := summary_ok hs
  simp only [Row.check,Account.check,Bool.and_eq_true] at h
  obtain ⟨⟨⟨⟨⟨⟨⟨⟨-,hid⟩,horganization⟩,hsubject⟩,hname⟩,-⟩,-⟩,-⟩,-⟩ := h
  have hbytes : ∀ value : String, ∀ max, charLengthBetween value 1 max = true → max ≤ 256 →
      value.utf8ByteSize ≤ 1024 := by
    intro value max hvalue hmax
    have hlength := (charLengthBetween_iff.mp hvalue).2
    have hsize := Text.utf8ByteSize_le value
    omega
  have htime : ∀ value : String, value.utf8ByteSize ≤ 128 → value.utf8ByteSize ≤ 1024 := fun _ h => by omega
  refine ⟨htime _ (formatTime_size hE hsummary.createdAt),?_,?_,?_,?_,?_,?_,?_,?_⟩
  · exact fun t ht => htime t (formatOptionalTime_size hE hsummary.credentialExpiresAt t ht)
  · rw [hsummary.name]
    exact hbytes _ _ hname (by omega)
  · rw [hsummary.organizationId]
    exact hbytes _ _ horganization (by omega)
  · rw [hsummary.revision,show (accountRow E.collation d a).revision = 1 from hrevision]
    decide
  · exact fun t ht => htime t (formatOptionalTime_size hE hsummary.revokedAt t ht)
  · exact fun t ht => htime t (formatOptionalTime_size hE hsummary.rotatedAt t ht)
  · rw [hsummary.serviceAccountId]
    exact hbytes _ _ hid (by omega)
  · rw [hsummary.subject]
    exact hbytes _ _ hsubject (by omega)

end Receipts

section Transactions
open TxM
variable {good : TxOp → Choice → Bool} {d : Database}

/-- The rows of a creation pass their checks, and so does its command with the receipt. -/
structure CreateAccount.Fits (E : Environment) (r : CreateAccount) : Prop where
  account : ∀ now, Row.check
    (insertedAccount now r.serviceAccountId r.organizationId r.subject r.name r.nameKey) = true
  credential : ∀ now, Row.check
    (insertedCredential now r.credentialId r.serviceAccountId r.verifier r.validFrom r.validUntil) = true
  receipt : ∀ d now nonce ciphertext, (r.receipt (accountRow E.collation d (insertedAccount now r.serviceAccountId
    r.organizationId r.subject r.name r.nameKey))).run.Outcome Filled (.ok (nonce, ciphertext)) →
    nonce.length = 12 ∧ ciphertext.length ≤ 262144
  failure : ∀ x operation source, ¬(r.receipt x).run.Outcome Filled (.error (.database operation source))

lemma insertAccount_fits {t : Time} {o : Collation} {serviceAccountId organizationId subject name nameKey : String}
    (h : Row.check (insertedAccount t serviceAccountId organizationId subject name nameKey) = true) :
    (TxStatement.insertAccount serviceAccountId organizationId subject name nameKey).execute o t d ≠
      .error .checkViolation := by
  simp only [TxStatement.execute,writeRow,h,dite_true,bind,Except.bind]
  split_ifs <;> simp [pure,Except.pure]

lemma insertCredential_fits {t validFrom validUntil : Time} {o : Collation}
    {credentialId serviceAccountId verifier : String}
    (h : Row.check (insertedCredential t credentialId serviceAccountId verifier validFrom validUntil) = true) :
    (TxStatement.insertCredential credentialId serviceAccountId verifier validFrom validUntil).execute o t d ≠
      .error .checkViolation := by
  simp only [TxStatement.execute,writeRow,h,dite_true,bind,Except.bind]
  split_ifs <;> simp [pure,Except.pure]

lemma StatementFailure.ne_check {t : Time} {d₀ : Database} {s : TxStatement} {e : SqlError}
    (h : StatementFailure E good t d₀ s e) (hs : s.execute E.collation t d₀ ≠ .error .checkViolation)
    (operation operation' : String) :
    ServiceAccountPluginError.database operation e ≠ .database operation' .checkViolation := by
  intro heq
  obtain ⟨-,rfl⟩ := ServiceAccountPluginError.database.inj heq
  rcases h with ⟨he,-⟩ | he
  · cases he
  · exact hs he

/-- A creation whose rows fit does not violate a CHECK. -/
theorem createAccount_fits {r : CreateAccount} (h : r.Fits E) :
    TxM.wp E good (createAccount r)
      (fun res _ => ∀ operation, res ≠ .error (.database operation .checkViolation)) (Session.fresh, d) := by
  have hlost : ∀ operation operation', (.error (.database operation .unavailable) :
      Except ServiceAccountPluginError (Option AccountRow)) ≠ .error (.database operation' .checkViolation) := by
    intro _ _ heq
    cases heq
  refine wp_bind (wp_begin (fun l _ => hlost _) fun t => ?_)
  refine wp_bind (wp_statement ?_ ?_)
  · intro e l he operation heq
    exact he.ne_check (fun hx => (by cases hx)) _ operation (Except.error.inj heq)
  intro _ us ls he
  simp only [TxStatement.execute,Except.ok.injEq,Prod.mk.injEq] at he
  obtain ⟨-,rfl⟩ := he
  refine wp_bind (wp_statement ?_ ?_)
  · intro e l he operation heq
    exact he.ne_check (fun hx => (by cases hx)) _ operation (Except.error.inj heq)
  intro count us ls he
  simp only [TxStatement.execute,Except.ok.injEq,Prod.mk.injEq] at he
  obtain ⟨rfl,rfl⟩ := he
  simp only [List.append_nil,Database.apply_nil]
  split_ifs with hfull
  · exact wp_bind (wp_rollback (fun _ => hlost _) fun _ heq => (by cases heq))
  refine wp_bind (wp_statement ?_ ?_)
  · intro e l he operation heq
    exact he.ne_check (insertAccount_fits (h.account t)) _ operation (Except.error.inj heq)
  intro _ us ls he
  obtain ⟨⟨hv,rfl⟩,-⟩ := insertAccount_ok he
  refine wp_bind (wp_statement ?_ ?_)
  · intro e l he operation heq
    exact he.ne_check (insertCredential_fits (h.credential t)) _ operation (Except.error.inj heq)
  intro _ us ls he
  obtain ⟨⟨hv',rfl⟩,-⟩ := insertCredential_ok he
  have ha : (d.apply ([.account _ hv] ++ [.credential _ hv'])).accountIn r.organizationId
      r.serviceAccountId = some (insertedAccount t r.serviceAccountId r.organizationId r.subject
        r.name r.nameKey) := by
    have hfind := Table.find_put_self d.accounts _ hv
    simp only [key_account,insertedAccount] at hfind
    simp [Database.accountIn,Write.apply,hfind,insertedAccount,Option.filter]
  refine wp_bind (wp_finish ?_ ?_)
  · intro e l he operation heq
    obtain rfl := Except.error.inj heq
    cases he with
    | receipt a _ _ hr => exact h.failure _ _ _ (hr.mono fun _ _ h => h.filled)
    | oversize a c nonce ciphertext ha' hr hc hcomp hno =>
      -- the receipt is that of the account that has just been inserted
      obtain rfl := Option.some.inj (ha.symm.trans ha')
      obtain ⟨hn,hx⟩ := h.receipt _ _ _ _ (hr.mono fun _ _ h => h.filled)
      exact hno (Command.succeed_check (Table.check_of_find hc) hcomp hn hx t)
  intro a c nonce ciphertext hc ls ha' hr hfind hcomp
  refine wp_bind (wp_commit (fun _ => hlost _) (fun _ => hlost _) fun _ heq => (by cases heq))

lemma CreateAccount.Fits.serial {r : CreateAccount} (h : r.Fits E) {ch : Choice ⊕ List Choice} {d' : Database}
    {res : Except ServiceAccountPluginError (Option AccountRow)}
    (hrun : (store E).serial (.transact (.createAccount r)) ch d = some (res, d')) (operation : String) :
    res ≠ .error (.database operation .checkViolation) := by
  cases ch with
  | inl c => simp [Store.serial] at hrun
  | inr cs =>
    simp only [Store.serial] at hrun
    split at hrun
    · next r' l s hr =>
      simp only [Option.some.injEq,Prod.mk.injEq] at hrun
      obtain ⟨rfl,rfl⟩ := hrun
      have hw := Program.wp_run ((TxOp.handle E).restrict fun _ _ => true) (createAccount_fits h) hr
      exact hw operation
    · contradiction

/-- The creation that a validated request leads to fits. -/
theorem CreateAccount.For.fits (hE : E.Sized) {r : CreateAccount} {h : Held E}
    {request : CreateServiceAccountRequest} {secret : CredentialSecret} (hv : request.Validated)
    (hs : secret.Generated) (hr : r.For h request secret) : r.Fits E := by
  obtain ⟨bytes,hbytes,hid⟩ := hr.serviceAccountId
  obtain ⟨salt,-,hverifier⟩ := hr.verifier
  have haccount : ∀ now, Row.check
      (insertedAccount now r.serviceAccountId r.organizationId r.subject r.name r.nameKey) = true := by
    intro now
    rw [hid,hr.organizationId,hr.name,hr.nameKey]
    exact insertedAccount_check hv hbytes hr.subject
  have huntil : r.validFrom ≤ r.validUntil := by
    have hpos : (0 : ℤ) ≤ seconds h.active.config.credentialTtlSeconds := by
      simp only [seconds]
      omega
    rw [hr.validUntil]
    exact Int.le_add_of_nonneg_right hpos
  refine ⟨haccount,fun now => ?_,fun d now nonce ciphertext ho => ?_,fun x operation source ho => ?_⟩
  · rw [hr.credentialId]
    exact insertedCredential_check hs (hE.verifier _ _ _ hverifier) huntil
  · rw [hr.receipt] at ho
    obtain ⟨account,hsummary,hn,hsealed⟩ := (createReceipt_seals h _).sealed ho
    have hsize := length_createReceipt_le (small_of_check hE (haccount now) rfl hsummary)
    have hlength := hE.tagged _ _ _ _ _ hsealed
    exact ⟨hn,by omega⟩
  · rw [hr.receipt] at ho
    obtain he | ⟨e,he⟩ := (createReceipt_seals h x).failure ho <;> cases he

end Transactions

section Runs

lemma execute_error {s : Statement} {c : Choice} {d d' : Database} {e : SqlError}
    (h : Op.handle E (.execute s) c d = some (.error e, d')) :
    e = .unavailable ∨ s.execute E.collation c.now d = .error e := by
  simp only [Op.handle] at h
  split at h <;> simp only [Option.some.injEq,Prod.mk.injEq,Except.error.injEq,reduceCtorEq,false_and] at h <;>
    obtain ⟨rfl,-⟩ := h
  · next he => exact .inr he
  · exact .inl rfl
  · exact .inl rfl
  · exact .inl rfl

/-- The command of a creation can be inserted. -/
lemma Call.Presents.reserved_check (hE : E.Sized) {plugin : ServiceAccountPlugin E} {context : InvocationContext}
    {request : CreateServiceAccountRequest} (hv : request.Validated) {actor : Option String} {h : Held E}
    (hp : (Call.create plugin context request).Presents actor h) (now : Time) :
    Row.check (reservedCommand now h.key h.intentHash) = true := by
  have hkey := hp.commandKey
  have hactive : plugin.active = some h.active := hp.active
  simp only [Call.commandKey,hactive,Option.bind_eq_bind,Option.bind_some] at hkey
  obtain ⟨caller,hcaller,hkey⟩ := Option.bind_eq_some_iff.mp hkey
  rw [← Option.some.inj hkey]
  obtain ⟨-,hallowed⟩ := Option.filter_eq_some_iff.mp hcaller
  have hvalid := validCaller_of_mem (ServiceAccountConfig.validate_ok h.active.valid).1 (List.contains_iff_mem.mp hallowed)
  exact reservedCommand_check hvalid (show charLengthBetween createOperation 1 64 = true by decide) hv.idempotencyKey (hE.digest _)

/-- No statement that a creation asks for on the pool violates a CHECK. -/
lemma Permits.ne_check (hE : E.Sized) {plugin : ServiceAccountPlugin E} {context : InvocationContext}
    {request : CreateServiceAccountRequest} (hv : request.Validated) {φ : Phase E} {s : Statement}
    (hp : Permits (.create plugin context request) φ s) (o : Collation) (now : Time) (d : Database) :
    s.execute o now d ≠ .error .checkViolation := by
  cases hp with
  | prune ha => simp [Statement.execute]
  | reserve hpresents =>
    simp only [Statement.execute,writeRow,hpresents.reserved_check hE hv now,dite_true,bind,Except.bind]
    split_ifs <;> simp [pure,Except.pure]
  | @load h =>
    simp only [Statement.execute]
    cases d.commands.find h.key <;> simp
  | credential hcall hi => cases hcall
  | @record _ h K _ code error hh hr hK he =>
    simp only [Statement.execute]
    cases hc : (d.commands.find h.key).filter fun c => c.status.completable with
    | none => simp
    | some c =>
      obtain ⟨hfind,hcomp⟩ := Option.filter_eq_some_iff.mp hc
      have hcheck := Command.fail_check (Table.check_of_find hfind) hcomp (Kind.code_length hK he) now
      simp [writeRow,hcheck,bind,Except.bind,pure,Except.pure]
  | account hcall => cases hcall
  | accounts hcall ha hl => cases hcall

/-- The rows that a validated creation inserts, whatever the Directory and the random bytes. -/
structure RowsFit (E : Environment) : Prop where
  command : ∀ now caller actor (request : CreateServiceAccountRequest), validCaller caller = true → request.Validated →
    Row.check (reservedCommand now ⟨caller,createOperation,request.idempotencyKey⟩
      (actorIntentHash E actor request.toJson)) = true
  account : ∀ now (request : CreateServiceAccountRequest) subject (bytes : Bytes), request.Validated →
    validToken subject 256 = true → bytes.length = 24 →
    Row.check (insertedAccount now ("sa_" ++ base64Encode bytes) request.organizationId subject (trim request.name)
      (toAsciiLowercase (trim request.name))) = true
  credential : ∀ now (id material : Bytes) serviceAccountId verifier validFrom (ttl : ℕ), id.length = 18 →
    material.length = 32 → 32 ≤ verifier.length → verifier.length ≤ 1024 →
    Row.check (insertedCredential now (CredentialSecret.ofRandom id material).credentialId serviceAccountId verifier
      validFrom (validFrom + seconds ttl)) = true

/-- No step of a validated creation fails on a CHECK. -/
structure CreatesFit (c : Run (Call E) Reply) : Prop where
  statement : ∀ e ∈ c.trace, ∀ plugin context request, e.call = .create plugin context request → request.Validated →
    ∀ s, e.action ≠ .perform (.pool (.execute s)) (.error .checkViolation)
  transaction : ∀ e ∈ c.trace, ∀ plugin context request, e.call = .create plugin context request →
    request.Validated → ∀ t operation, e.action ≠ .perform (.transact t) (.error (.database operation .checkViolation))

/-- Validated input fits the schema. -/
theorem validated_fits (hE : E.Sized) :
    RowsFit E ∧ ∀ c : Run (Call E) Reply,
      LockedConfig.Reachable (store E) Call.main Database.empty c → CreatesFit c := by
  refine ⟨⟨?_,?_,?_⟩,fun c hc => ⟨?_,?_⟩⟩
  · intro now caller actor request hcaller hv
    exact reservedCommand_check hcaller (show charLengthBetween createOperation 1 64 = true by decide)
      hv.idempotencyKey (hE.digest _)
  · intro now request subject bytes hv hsubject hbytes
    exact insertedAccount_check hv hbytes hsubject
  · intro now id material serviceAccountId verifier validFrom ttl hid hmaterial hlow hhigh
    have hpos : (0 : ℤ) ≤ seconds ttl := by
      simp only [seconds]
      omega
    exact insertedCredential_check ⟨id,material,hid,hmaterial,rfl⟩ ⟨hlow,hhigh⟩ (Int.le_add_of_nonneg_right hpos)
  · intro e he plugin context request hcall hv s ha
    obtain ⟨pre,p,φ,φ',ch,ho,hp,hm,hH,-⟩ := perform_event hc he ha
    rw [hcall] at hm
    obtain ⟨ch',hx⟩ := Op.handle_of_serial hH
    obtain hu | hx := execute_error hx
    · cases hu
    cases hm with
    | lost hpermits => exact hpermits.ne_check hE hv _ _ _ hx
    | uninspected hinspect => cases hinspect
  · intro e he plugin context request hcall hv t operation ha
    obtain ⟨pre,p,φ,φ',ch,ho,hp,hm,hH,-⟩ := perform_event hc he ha
    rw [hcall] at hm
    have hasks : ∃ h, Asks (.create plugin context request) φ h t := by
      cases hm with
      | declined hasks hd => exact ⟨_,hasks⟩
      | failed hasks => exact ⟨_,hasks⟩
    obtain ⟨h,hasks⟩ := hasks
    cases hasks with
    | create hcreate hs hr =>
      obtain ⟨-,-,rfl⟩ := Call.create.inj hcreate
      exact (hr.fits hE hv hs).serial hH operation rfl
    | rotate hcall hs hr => cases hcall
    | revoke hcall hr => cases hcall
    | slot hcall => cases hcall
    | mark hcall => cases hcall
    | complete hcall hb hs => cases hcall

end Runs

lemma tagged_sized : Environment.tagged.Sized where
  digest bytes := by
    have hsha : Environment.tagged.sha256 bytes = (bytes ++ List.replicate 32 0).take 32 := rfl
    rw [hsha,List.length_take,List.length_append,List.length_replicate]
    omega
  verifier input salt verifier h := by
    have hhash : Environment.tagged.hashPassword input salt = some "$argon2id$v=19$m=65536,t=3,p=1$salt$hash" := rfl
    rw [← Option.some.inj (hhash.symm.trans h)]
    decide
  tagged := tagged_tagged
  time t text h := by
    have htext : Environment.tagged.formatRfc3339 t = some (firstHourText t) := rfl
    rw [← Option.some.inj (htext.symm.trans h)]
    have hsize := Text.utf8ByteSize_le (firstHourText t)
    have hlength : (firstHourText t).length = 20 := by
      simp only [firstHourText,twoDigits,String.length_append,String.length_ofList,List.length_append,
        List.length_cons,List.length_nil]
      rfl
    omega

/-- Call `0` creates an account whose name has exotic white space at its ends and spaces within. -/
noncomputable def sampleSpaced : List (LockedLabel (Call .tagged) Choice Choice) :=
  [.start (.create ⟨some sampleHeld.active⟩ ⟨some "console"⟩ ⟨"k1","\u2003My Robot\t","org"⟩),.pool 0 {},
    .pool 0 { assertion := some ⟨"user","alice"⟩ },.pool 0 { membership := .ok ⟨true⟩ },
    .pool 0 { permission := .ok ⟨true⟩ },.pool 0 {},.pool 0 {},
    .pool 0 { entropy := some (List.replicate 24 0) },.pool 0 { identity := .ok ⟨"subject"⟩ },
    .pool 0 { entropy := some (List.replicate 18 0) },.pool 0 { entropy := some (List.replicate 32 0) },
    .pool 0 { entropy := some (List.replicate 16 0) },.pool 0 { clock := seconds 100 },.enter 0,.within 0 {},
    .within 0 {},.within 0 {},.within 0 {},.within 0 {},.within 0 {},
    .within 0 { entropy := some (List.replicate 12 0) },.within 0 {},.within 0 {},.reply 0]

set_option maxRecDepth 4000 in
noncomputable def sampleSpacedRun : Run (Call .tagged) Reply :=
  ((LockedConfig.init Database.empty).run (store .tagged) Call.main sampleSpaced).get (by decide +kernel)

set_option maxRecDepth 4000 in
/-- The name is stored without the white space at its ends. -/
theorem validated_fits_sample : RowsFit .tagged ∧ CreatesFit sampleSpacedRun ∧
    sampleSpacedRun.state.accounts.rows.map Account.name = ["My Robot"] := by
  have hfits := validated_fits tagged_sized
  exact ⟨hfits.1,hfits.2 sampleSpacedRun (LockedConfig.leads_of_run (Option.some_get _).symm),by decide +kernel⟩

end LensoServiceAccount
