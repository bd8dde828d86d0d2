import Mathlib.Order.MinMax
import LensoServiceAccount.Lifetime

/-! When a rotation goes through: the bound it puts on older credentials has to respect their
beginning, which the statement does not see to. -/

namespace LensoServiceAccount
variable {E : Environment}

/-- What the closure of a rotation does as long as random bytes are there. -/
def Supplied (count : ℕ) (answer : Option Bytes) : Prop :=
  ∃ bytes, answer = some bytes ∧ bytes.length = count

/-- The closure seals a receipt that fits its columns. -/
def Sealing.Fits {α : Type} (receipt : Sealing α) : Prop :=
  ∀ x res, (receipt x).run.Outcome Supplied res →
    ∃ nonce ciphertext, res = .ok (nonce,ciphertext) ∧ nonce.length = 12 ∧ ciphertext.length ≤ 262144

lemma Draws.supplied {count : ℕ} {answer : Option Bytes} (h : Draws faultless count answer) :
    Supplied count answer := by
  obtain ⟨c,hc,rfl⟩ := h
  simp only [faultless,Bool.and_eq_true] at hc
  obtain ⟨bytes,hb⟩ := Option.isSome_iff_exists.mp hc.2
  exact ⟨bytes,hb,Choice.length_of_fill hb⟩

/-- Every credential that the rotation bounds has begun before the bound. -/
def RotateAccount.Bounds (r : RotateAccount) (d : Database) : Prop :=
  ∀ x ∈ d.credentialsOf r.serviceAccountId, x.live r.validFrom = true → x.validFrom ≤ r.overlapUntil

/-- A rotation as `rotate_secret` asks for it under a validated configuration, on a database where
nothing stands against it: the account is active and at the expected revision, the command is
reserved, the id of the credential is fresh, and what it writes fits the columns. -/
structure RotateAccount.Due (r : RotateAccount) (config : ServiceAccountConfig) (d : Database)
    (a : Account) (k : Command) : Prop where
  overlapUntil : r.overlapUntil = r.validFrom + seconds config.rotationOverlapSeconds
  validUntil : r.validUntil = r.validFrom + seconds config.credentialTtlSeconds
  account : d.accountIn r.organizationId r.serviceAccountId = some a
  active : a.status = .active
  revision : a.revision = r.expectedRevision
  command : d.commands.find r.key = some k
  reserved : k.status = .reserved
  fresh : d.credentials.find r.credentialId = none
  credentialId : charLengthBetween r.credentialId 1 128 = true
  verifier : charLengthBetween r.verifier 32 1024 = true
  receipt : r.receipt.Fits

lemma Credential.bound_check_iff {c : Credential} (h : Row.check c = true) (validFrom overlapUntil : Time) :
    Row.check (c.bound validFrom overlapUntil) = true ↔ c.validFrom ≤ overlapUntil := by
  simp only [Row.check,Credential.check,Credential.bound,Bool.and_eq_true,decide_eq_true_eq,le_min_iff] at h ⊢
  exact ⟨fun hc => hc.2.2,fun hc => ⟨h.1,h.2,hc⟩⟩

lemma Account.rotate_check_iff {a : Account} (h : Row.check a = true) (validFrom : Time) :
    Row.check (a.rotate validFrom) = true ↔ a.revision < bigintMax := by
  simp only [Row.check,Account.check,Account.rotate,Bool.and_eq_true,decide_eq_true_eq] at h ⊢
  constructor
  · intro hc
    have hnext : a.revision + 1 ≤ bigintMax := of_decide_eq_true hc.1.1.1.1.1.1.1.1.2
    omega
  · intro hc
    obtain ⟨⟨⟨⟨⟨⟨⟨⟨⟨hpos,-⟩,h₁⟩,h₂⟩,h₃⟩,h₄⟩,h₅⟩,h₆⟩,h₇⟩,h₈⟩ := h
    exact ⟨⟨⟨⟨⟨⟨⟨⟨⟨decide_eq_true (Int.lt_add_one_of_le hpos.le),decide_eq_true (Int.add_one_le_of_lt hc)⟩,h₁⟩,h₂⟩,h₃⟩,h₄⟩,h₅⟩,h₆⟩,h₇⟩,h₈⟩

/-- A rotation that is due goes through exactly when every live credential has begun before the
bound, and the revision can still be counted up. -/
theorem rotation_goes_through_iff {d d' : Database} {config : ServiceAccountConfig} {r : RotateAccount}
    {a : Account} {k : Command} (hdue : r.Due config d a k)
    {res : Except ServiceAccountPluginError (Mutation AccountRow)}
    (hrun : FaultlessRun E (.rotateAccount r) d res d') :
    (∃ row, res = .ok (.updated row)) ↔ r.Bounds d ∧ a.revision < bigintMax := by
  have hout : RotateOutcome E faultless r d res d' := hrun.outcome
  have hcheck := Table.check_of_find (accountIn_eq_some.mp hdue.account).1
  constructor
  · rintro ⟨row,rfl⟩
    cases hout with
    | updated _ _ h =>
      obtain ⟨t,b,k',nonce,ciphertext,d',hb,-,-,hbound,-,-,-,⟨hv,-⟩,-⟩ := h
      obtain rfl := Option.some.inj (hdue.account.symm.trans hb)
      refine ⟨fun x hx hlive => ?_,(Account.rotate_check_iff hcheck _).mp hv⟩
      obtain ⟨hmem,hid⟩ := mem_of_credentialsOf hx
      exact (Credential.bound_check_iff (d.credentials.checked x hmem) _ _).mp (hbound x hmem hid hlive)
  · rintro ⟨hbounds,hmax⟩
    cases hout with
    | updated row _ h => exact ⟨row,rfl⟩
    | notFound h => exact absurd (h.symm.trans hdue.account) (by simp)
    | revoked b hb h =>
      obtain rfl := Option.some.inj (hdue.account.symm.trans hb)
      exact absurd (h.symm.trans hdue.active) (by simp)
    | revisionConflict b hb h =>
      obtain rfl := Option.some.inj (hdue.account.symm.trans hb)
      exact absurd hdue.revision h
    | unacknowledged row _ h hf => exact absurd hf not_faulty
    | failed e h =>
      exfalso
      cases h with
      | unavailable operation hf => exact not_faulty hf
      | bound x hx hid hlive hv =>
        have hmem : x ∈ d.credentialsOf r.serviceAccountId := by
          simp [Database.credentialsOf,hx,hid]
        exact hv ((Credential.bound_check_iff (d.credentials.checked x hx) _ _).mpr
          (hbounds x hmem hlive))
      | insert t e h =>
        have httl : r.validFrom ≤ r.validUntil := by
          rw [hdue.validUntil]
          refine Int.le_add_of_nonneg_right ?_
          simp only [seconds]
          omega
        refine h.elim (fun hv => hv ?_) fun hn => hn hdue.fresh
        simp [Row.check,Credential.check,insertedCredential,hdue.credentialId,hdue.verifier,httl]
      | advance b e hb h =>
        obtain rfl := Option.some.inj (hdue.account.symm.trans hb)
        exact h.elim (fun hle => absurd hmax (not_lt.mpr hle))
          fun hv => hv ((Account.rotate_check_iff hcheck _).mpr hmax)
      | receipt x e h =>
        obtain ⟨nonce,ciphertext,he,-⟩ := hdue.receipt x _ (h.mono fun _ _ h => h.supplied)
        exact absurd he (by simp)
      | notCompletable h =>
        have hno := h k hdue.command
        rw [hdue.reserved] at hno
        exact absurd hno (by decide)
      | oversize x t k' nonce ciphertext h hk hv =>
        obtain rfl := Option.some.inj (hdue.command.symm.trans hk)
        obtain ⟨n,m,he,hn,hm⟩ := hdue.receipt x _ (h.mono fun _ _ h => h.supplied)
        obtain ⟨rfl,rfl⟩ := Prod.mk.inj (Except.ok.inj he)
        exact hv (Command.succeed_check (Table.check_of_find hdue.command) (by rw [hdue.reserved]; rfl) hn hm _)

/-- The configuration of the runs below, with no overlap. -/
def sampleConfig : ServiceAccountConfig where
  schema := "service_accounts"
  databaseUrlSecret := "database-url"
  credentialPepperSecret := "pepper"
  receiptEncryptionKeySecret := "receipt-key"
  directoryProvider := "directory"
  authIssuer := "auth"
  authPublicKey := "key"
  managementCallers := ["console"]
  authenticationCallers := ["gateway"]
  tokenAudience := ["api"]
  credentialTtlSeconds := 300
  rotationOverlapSeconds := 0
  tokenTtlSeconds := 300
  receiptTtlSeconds := 300
  exchangeWindowSeconds := 60
  maxExchangesPerWindow := 5
  exchangeLockoutSeconds := 60
  maxPageSize := 50
  maxAccountsPerOrganization := 10

example : sampleConfig.validate .plain = .ok () := by rfl

/-- What the schedule leaves in the database. -/
def sampleStore : Database where
  accounts := Table.put ∅ (insertedAccount 0 "sa_1" "org" "subject" "robot" "robot") (by decide)
  credentials := Table.put ∅
    (insertedCredential 0 "sac_1" "sa_1" sampleVerifier (seconds 100) (seconds 400)) (by decide)
  commands := (Table.put ∅ ((reservedCommand 0 ⟨"console","create","k1"⟩ (List.replicate 32 0)).succeed 0
      (List.replicate 12 0) []) (by decide)).put
    (reservedCommand 0 ⟨"console","rotate_secret","k2"⟩ (List.replicate 32 0)) (by decide)
  limits := ∅

set_option maxRecDepth 4000 in
lemma sampleStore_reachable :
    ∃ c, LockedConfig.Reachable (store .plain) StorageCall.main Database.empty c ∧ c.state = sampleStore := by
  have hrun : ((LockedConfig.init Database.empty).run (store .plain) StorageCall.main sampleSchedule).map
      LockedConfig.state = some sampleStore := by decide
  obtain ⟨c,hc,hs⟩ := Option.map_eq_some_iff.mp hrun
  exact ⟨c,LockedConfig.leads_of_run hc,hs⟩

lemma sampleRotation_due (validFrom : Time) : ∃ a k,
    (sampleRotation validFrom).Due sampleConfig sampleStore a k := by
  refine ⟨_,_,?_,rfl,rfl,rfl,rfl,rfl,rfl,rfl,?_,?_,?_⟩
  · simp [sampleRotation,sampleConfig,seconds]
  · change charLengthBetween "sac_2" 1 128 = true
    decide
  · change charLengthBetween sampleVerifier 32 1024 = true
    decide
  · rintro x res rfl
    exact ⟨_,_,rfl,rfl,by decide⟩

set_option maxRecDepth 4000 in
/-- A clock that is behind the one of the instance that created the account stops a rotation that
is due: a CHECK fails, and the command stays reserved. -/
theorem rotation_behind_fails : ∃ c, LockedConfig.Reachable (store .plain) StorageCall.main Database.empty c ∧
    sampleConfig.validate .plain = .ok () ∧
    (∃ a k, (sampleRotation (seconds 50)).Due sampleConfig c.state a k) ∧
    FaultlessRun .plain (.rotateAccount (sampleRotation (seconds 50))) c.state
      (.error (.database "bound previous service-account credentials" .checkViolation)) c.state := by
  obtain ⟨c,hc,hs⟩ := sampleStore_reachable
  refine ⟨c,hc,rfl,hs ▸ sampleRotation_due _,?_⟩
  rw [hs]
  exact ⟨[{},{},{}],_,rfl⟩

/-- With a clock that is ahead the same rotation goes through. -/
theorem rotation_ahead_goes_through : ∃ res d',
    FaultlessRun .plain (.rotateAccount (sampleRotation (seconds 200))) sampleStore res d' ∧
      ∃ row, res = .ok (.updated row) := by
  obtain ⟨res,d',hrun⟩ := exists_faultlessRun .plain (.rotateAccount (sampleRotation (seconds 200))) sampleStore
  obtain ⟨a,k,hdue⟩ := sampleRotation_due (seconds 200)
  refine ⟨res,d',hrun,(rotation_goes_through_iff hdue hrun).mpr ⟨?_,?_⟩⟩
  · unfold RotateAccount.Bounds
    decide
  · obtain rfl := Option.some.inj (hdue.account.symm.trans rfl)
    decide

end LensoServiceAccount
