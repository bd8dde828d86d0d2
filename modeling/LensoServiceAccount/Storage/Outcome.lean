import LensoServiceAccount.Effect
import LensoServiceAccount.Storage.Logic

/-! What each transaction can do to the database, said once: how it may fail and then change
nothing, when it declines, and exactly what its commit changes. -/

namespace LensoServiceAccount
open TxM

section Statements
variable {o : Collation} {t : Time} {d : Database}

lemma insertAccount_ok {serviceAccountId organizationId subject name nameKey : String} {us : List Write}
    {u : Unit} (h : (TxStatement.insertAccount serviceAccountId organizationId subject name nameKey).execute
      o t d = .ok (u, us)) :
    (∃ hv, us = [.account (insertedAccount t serviceAccountId organizationId subject name nameKey) hv]) ∧
      d.accounts.find serviceAccountId = none ∧ (∀ a ∈ d.accounts.rows, a.subject ≠ subject) ∧
      ∀ a ∈ d.accounts.rows, a.organizationId = organizationId → a.nameKey ≠ nameKey := by
  simp only [TxStatement.execute] at h
  cases hw : writeRow Write.account
      (insertedAccount t serviceAccountId organizationId subject name nameKey) with
  | error e => simp [hw,bind,Except.bind] at h
  | ok w =>
    obtain ⟨hv,rfl⟩ := writeRow_ok.mp hw
    simp only [hw,bind,Except.bind] at h
    split_ifs at h with h₁ h₂ h₃
    simp only [pure,Except.pure,Except.ok.injEq,Prod.mk.injEq] at h
    obtain ⟨-,rfl⟩ := h
    refine ⟨⟨hv,rfl⟩,by simpa using h₁,?_,?_⟩
    · simpa using h₂
    · simpa using h₃

lemma insertCredential_ok {credentialId serviceAccountId verifier : String} {validFrom validUntil : Time}
    {us : List Write} {u : Unit}
    (h : (TxStatement.insertCredential credentialId serviceAccountId verifier validFrom
      validUntil).execute o t d = .ok (u, us)) :
    (∃ hv, us = [.credential
      (insertedCredential t credentialId serviceAccountId verifier validFrom validUntil) hv]) ∧
      d.credentials.find credentialId = none := by
  simp only [TxStatement.execute] at h
  cases hw : writeRow Write.credential
      (insertedCredential t credentialId serviceAccountId verifier validFrom validUntil) with
  | error e => simp [hw,bind,Except.bind] at h
  | ok w =>
    obtain ⟨hv,rfl⟩ := writeRow_ok.mp hw
    simp only [hw,bind,Except.bind] at h
    split_ifs at h with h₁ h₂
    simp only [pure,Except.pure,Except.ok.injEq,Prod.mk.injEq] at h
    obtain ⟨-,rfl⟩ := h
    exact ⟨⟨hv,rfl⟩,by simpa using h₁⟩

lemma insertCredential_error {credentialId serviceAccountId verifier : String}
    {validFrom validUntil : Time} {e : SqlError}
    (h : (TxStatement.insertCredential credentialId serviceAccountId verifier validFrom
      validUntil).execute o t d = .error e) :
    ¬Row.check (insertedCredential t credentialId serviceAccountId verifier validFrom validUntil) = true ∨
      d.credentials.find credentialId ≠ none ∨ d.accounts.find serviceAccountId = none := by
  by_cases hv : Row.check
      (insertedCredential t credentialId serviceAccountId verifier validFrom validUntil) = true
  · simp only [TxStatement.execute,writeRow,hv,dite_true,bind,Except.bind] at h
    split_ifs at h with h₁ h₂
    · exact .inr (.inl (by simpa [Option.isSome_iff_ne_none] using h₁))
    · exact .inr (.inr (by simpa using h₂))
    · simp [pure,Except.pure] at h
  · exact .inl hv

lemma mapM_writeRow_error {f : Credential → Credential} {cs : List Credential} {e : SqlError}
    (h : (cs.mapM fun c => writeRow Write.credential (f c)) = .error e) :
    e = .checkViolation ∧ ∃ c ∈ cs, ¬Row.check (f c) = true := by
  induction cs with
  | nil => simp [pure,Except.pure] at h
  | cons c cs ih =>
    simp only [List.mapM_cons] at h
    by_cases hc : Row.check (f c) = true
    · simp only [writeRow,hc,dite_true,bind,Except.bind] at h
      cases hcs : cs.mapM fun c => writeRow Write.credential (f c) with
      | error e' =>
        simp only [writeRow] at hcs
        simp only [hcs,Except.error.injEq] at h
        subst h
        obtain ⟨he,x,hx,hv⟩ := ih hcs
        exact ⟨he,x,by simp [hx],hv⟩
      | ok ws => 
        simp only [writeRow] at hcs
        simp [hcs,pure,Except.pure] at h
    · simp only [writeRow,hc,dite_false,bind,Except.bind,Except.error.injEq,Bool.false_eq_true] at h
      exact ⟨h.symm,c,by simp,hc⟩

/-- Row versions of known credentials replace them where they stand. -/
lemma apply_mapM {f : Credential → Credential} (hk : ∀ c, (f c).credentialId = c.credentialId)
    {cs : List Credential} {ws : List Write} {d : Database}
    (h : (cs.mapM fun c => writeRow Write.credential (f c)) = .ok ws)
    (hn : (cs.map Credential.credentialId).Nodup) (hd : ∀ c ∈ cs, c ∈ d.credentials.rows) :
    (∀ c ∈ cs, Row.check (f c) = true) ∧ (d.apply ws).accounts = d.accounts ∧
      (d.apply ws).commands = d.commands ∧ (d.apply ws).limits = d.limits ∧
      (d.apply ws).credentials.rows = d.credentials.rows.map fun y =>
        if y.credentialId ∈ cs.map Credential.credentialId then f y else y := by
  induction cs generalizing ws d with
  | nil =>
    simp only [List.mapM_nil,pure,Except.pure,Except.ok.injEq] at h
    subst h
    simp
  | cons c cs ih =>
    simp only [List.mapM_cons] at h
    cases hw : writeRow Write.credential (f c) with
    | error e => simp [hw,bind,Except.bind] at h
    | ok w =>
      obtain ⟨hc,rfl⟩ := writeRow_ok.mp hw
      cases hws : cs.mapM fun c => writeRow Write.credential (f c) with
      | error e => simp [hw,hws,bind,Except.bind] at h
      | ok us =>
        simp only [hw,hws,bind,Except.bind,pure,Except.pure,Except.ok.injEq] at h
        subst h
        rw [List.map_cons,List.nodup_cons] at hn
        have hfind : d.credentials.find (Row.key (f c)) = some c := by
          rw [key_credential,hk]
          exact Table.find_of_mem (hd c (by simp))
        have hrows := Table.rows_put_of_old d.credentials hc hfind
        have hmem : ∀ x ∈ cs, x ∈ (d.credentials.put (f c) hc).rows := by
          intro x hx
          have hne : x.credentialId ≠ c.credentialId := fun he => hn.1 (he ▸ List.mem_map_of_mem hx)
          rw [hrows]
          exact List.mem_map.mpr ⟨x,hd x (by simp [hx]),by simp [hk,hne]⟩
        obtain ⟨hcheck,ha,hcom,hl,hr⟩ := ih (d := (Write.credential (f c) hc).apply d) hws hn.2 hmem
        refine ⟨?_,ha,hcom,hl,?_⟩
        · intro x hx
          rcases List.mem_cons.mp hx with rfl | hx
          · exact hc
          · exact hcheck x hx
        · rw [Database.apply_cons,hr]
          change (d.credentials.put (f c) hc).rows.map _ = _
          rw [hrows,List.map_map]
          apply List.map_congr_left
          intro y hy
          simp only [Function.comp,key_credential,hk,List.map_cons,List.mem_cons]
          by_cases he : y.credentialId = c.credentialId
          · have hyc : y = c := by
              have h1 := Table.find_of_mem hy
              have h2 := Table.find_of_mem (hd c (by simp))
              simp only [key_credential] at h1 h2
              rw [he,h2] at h1
              exact (Option.some.inj h1).symm
            subst hyc
            simp [hk,hn.1]
          · simp [he]

/-- Rewriting the credentials of an account that satisfy `p`. -/
lemma apply_credentialsOf {f : Credential → Credential} (hk : ∀ c, (f c).credentialId = c.credentialId)
    {serviceAccountId : String} {p : Credential → Bool} {ws : List Write} {d : Database}
    (h : (((d.credentialsOf serviceAccountId).filter p).mapM fun c =>
      writeRow Write.credential (f c)) = .ok ws) :
    (∀ c ∈ d.credentials.rows, c.serviceAccountId = serviceAccountId → p c = true →
        Row.check (f c) = true) ∧ (d.apply ws).accounts = d.accounts ∧
      (d.apply ws).commands = d.commands ∧ (d.apply ws).limits = d.limits ∧
      (d.apply ws).credentials.rows = d.credentials.rows.map fun c =>
        if c.serviceAccountId = serviceAccountId ∧ p c = true then f c else c := by
  have hsub : ((d.credentialsOf serviceAccountId).filter p).Sublist d.credentials.rows :=
    List.filter_sublist.trans List.filter_sublist
  have hn := d.credentials.nodup.sublist (hsub.map Credential.credentialId)
  obtain ⟨hcheck,ha,hc,hl,hr⟩ := apply_mapM hk h hn fun c hc => hsub.subset hc
  refine ⟨?_,ha,hc,hl,?_⟩
  · intro c hc hid hp
    exact hcheck c (by simp [Database.credentialsOf,hc,hid,hp])
  · rw [hr]
    apply List.map_congr_left
    intro c hc
    have hiff : c.credentialId ∈ ((d.credentialsOf serviceAccountId).filter p).map
        Credential.credentialId ↔ c.serviceAccountId = serviceAccountId ∧ p c = true := by
      constructor
      · intro hm
        obtain ⟨x,hx,he⟩ := List.mem_map.mp hm
        have hxc : x = c := by
          have h₁ := Table.find_of_mem (hsub.subset hx)
          have h₂ := Table.find_of_mem hc
          simp only [key_credential] at h₁ h₂
          rw [he,h₂] at h₁
          exact (Option.some.inj h₁).symm
        subst hxc
        simpa [Database.credentialsOf,hc,and_comm] using hx
      · rintro ⟨hid,hp⟩
        exact List.mem_map.mpr ⟨c,by simp [Database.credentialsOf,hc,hid,hp],rfl⟩
    simp only [hiff]

end Statements

/-- What a rotation does to a row of the credential table. -/
def RotateAccount.boundFor (r : RotateAccount) (c : Credential) : Credential :=
  if c.serviceAccountId = r.serviceAccountId ∧ c.live r.validFrom = true then
    c.bound r.validFrom r.overlapUntil
  else c

/-- What a revocation does to a row of the credential table. -/
def Credential.revokeFor (serviceAccountId : String) (now : Time) (c : Credential) : Credential :=
  if c.serviceAccountId = serviceAccountId then c.revoke now else c

/-- The failures of a transaction that completes a command: none of them is a missing row, and
the command was not completable only if it says so. -/
inductive TxFailure (d : Database) (key : CommandKey) {α : Type} (receipt : Sealing α) :
    ServiceAccountPluginError → Prop
  | statement (operation : String) (e : SqlError)
      (h : operation ≠ "complete service-account command" ∨ e = .unavailable) :
      TxFailure d key receipt (.database operation e)
  | receipt (x : α) (e : ServiceAccountPluginError) (h : (receipt x).run.Outcome Filled (.error e)) :
      TxFailure d key receipt e
  | notCompletable (h : ∀ c, d.commands.find key = some c → c.status.completable = false) :
      TxFailure d key receipt (.invariant "service-account command was not completable")
  | oversize (x : α) (t : Time) (c : Command) (nonce ciphertext : Bytes)
      (h : (receipt x).run.Outcome Filled (.ok (nonce, ciphertext)))
      (hc : d.commands.find key = some c) (hv : ¬Row.check (c.succeed t nonce ciphertext) = true) :
      TxFailure d key receipt (.database "complete service-account command" .checkViolation)

lemma FinishFailure.toTxFailure {E : Environment} {good : TxOp → Choice → Bool} {t : Time} {d d₀ : Database}
    {α : Type} {key : CommandKey} {organizationId serviceAccountId missing : String}
    {result : AccountRow → α} {receipt : Sealing α} {e : ServiceAccountPluginError}
    (h : FinishFailure E good t d key organizationId serviceAccountId missing result receipt e)
    (ha : d.accountIn organizationId serviceAccountId ≠ none) (hc : d.commands = d₀.commands) :
    TxFailure d₀ key receipt e := by
  cases h with
  | unavailable operation _ => exact .statement _ _ (.inr rfl)
  | missing h => exact absurd h ha
  | receipt a e _ hr => exact .receipt _ e (hr.mono fun _ _ h => h.filled)
  | notCompletable h => exact .notCompletable (by rwa [← hc])
  | oversize a c nonce ciphertext _ hr hf _ hv =>
    exact .oversize _ t c nonce ciphertext (hr.mono fun _ _ h => h.filled) (by rwa [← hc]) hv

/-- The number of accounts of an organization. -/
def Database.accountsOf (d : Database) (organizationId : String) : ℕ :=
  (d.accounts.rows.filter fun a => a.organizationId = organizationId).length

/-- What is true after a creation has been committed. -/
inductive CreateCommit (E : Environment) (r : CreateAccount) (d : Database) : AccountRow → Database → Prop
  | mk (t : Time) (c : Command) (nonce ciphertext : Bytes) (d' : Database)
      (hid : d.accounts.find r.serviceAccountId = none)
      (hsubject : ∀ a ∈ d.accounts.rows, a.subject ≠ r.subject)
      (hname : ∀ a ∈ d.accounts.rows, a.organizationId = r.organizationId → a.nameKey ≠ r.nameKey)
      (hcredential : d.credentials.find r.credentialId = none)
      (hc : d.commands.find r.key = some c) (hcomp : c.status.completable = true)
      (haccounts : ∃ h, d'.accounts = d.accounts.put
        (insertedAccount t r.serviceAccountId r.organizationId r.subject r.name r.nameKey) h)
      (hcredentials : ∃ h, d'.credentials = d.credentials.put
        (insertedCredential t r.credentialId r.serviceAccountId r.verifier r.validFrom r.validUntil) h)
      (hcommands : ∃ h, d'.commands = d.commands.put (c.succeed t nonce ciphertext) h)
      (hlimits : d'.limits = d.limits)
      (hr : (r.receipt (accountRow E.collation d' (insertedAccount t r.serviceAccountId
        r.organizationId r.subject r.name r.nameKey))).run.Outcome Filled (.ok (nonce, ciphertext)))
      (hroom : d.accountsOf r.organizationId < r.maxAccounts) :
      CreateCommit E r d (accountRow E.collation d' (insertedAccount t r.serviceAccountId
        r.organizationId r.subject r.name r.nameKey)) d'

/-- A failure on the constraint of names, unless the closure makes it up, is one on a row that is
there. -/
def CreateAccount.Violates (r : CreateAccount) (d : Database) (e : ServiceAccountPluginError) : Prop :=
  uniqueConstraint e = some "service_accounts_organization_name_unique" →
    (∃ a ∈ d.accounts.rows, a.organizationId = r.organizationId ∧ a.nameKey = r.nameKey) ∨
      ∃ x, (r.receipt x).run.Outcome Filled (.error e)

inductive CreateOutcome (E : Environment) (r : CreateAccount) (d : Database) :
    Except ServiceAccountPluginError (Option AccountRow) → Database → Prop
  | failed (e : ServiceAccountPluginError) (h : TxFailure d r.key r.receipt e) (hn : r.Violates d e) :
      CreateOutcome E r d (.error e) d
  | full (h : r.maxAccounts ≤ d.accountsOf r.organizationId) : CreateOutcome E r d (.ok none) d
  | created (row : AccountRow) (d' : Database) (h : CreateCommit E r d row d') :
      CreateOutcome E r d (.ok (some row)) d'
  | unacknowledged (row : AccountRow) (d' : Database) (h : CreateCommit E r d row d') :
      CreateOutcome E r d (.error (.database "commit service-account creation" .unavailable)) d'

section Create
variable {E : Environment} {good : TxOp → Choice → Bool} {d : Database}

lemma StatementFailure.violates {r : CreateAccount} {t : Time} {d₀ : Database} {s : TxStatement} {e : SqlError}
    (h : StatementFailure E good t d₀ s e)
    (hs : s.execute E.collation t d₀ = .error e → e ≠ .uniqueViolation "service_accounts_organization_name_unique" ∨
      ∃ a ∈ d.accounts.rows, a.organizationId = r.organizationId ∧ a.nameKey = r.nameKey)
    (operation : String) : r.Violates d (.database operation e) := by
  intro hc
  rcases h with ⟨rfl,-⟩ | he
  · cases hc
  · rcases hs he with hne | ha
    · cases e <;> simp_all [uniqueConstraint]
    · exact .inl ha

lemma insertAccount_error {r : CreateAccount} {t : Time} {e : SqlError}
    (h : (TxStatement.insertAccount r.serviceAccountId r.organizationId r.subject r.name r.nameKey).execute
      E.collation t d = .error e) : e ≠ .uniqueViolation "service_accounts_organization_name_unique" ∨
      ∃ a ∈ d.accounts.rows, a.organizationId = r.organizationId ∧ a.nameKey = r.nameKey := by
  simp only [TxStatement.execute] at h
  cases hw : writeRow Write.account
      (insertedAccount t r.serviceAccountId r.organizationId r.subject r.name r.nameKey) with
  | error e' =>
    simp only [hw,bind,Except.bind,Except.error.injEq] at h
    exact .inl (by simp [← h,writeRow_error hw])
  | ok w =>
    simp only [hw,bind,Except.bind] at h
    split_ifs at h with h₁ h₂ h₃
    · exact .inl (by simp [← Except.error.inj h])
    · exact .inl (by simp [← Except.error.inj h])
    · obtain ⟨a,ha,hx⟩ := List.any_eq_true.mp h₃
      simp only [Bool.and_eq_true,decide_eq_true_eq] at hx
      exact .inr ⟨a,ha,hx⟩
    · cases h

lemma insertCredential_violation {credentialId serviceAccountId verifier : String}
    {validFrom validUntil t : Time} {o : Collation} {e : SqlError}
    (h : (TxStatement.insertCredential credentialId serviceAccountId verifier validFrom
      validUntil).execute o t d = .error e) : e ≠ .uniqueViolation "service_accounts_organization_name_unique" := by
  simp only [TxStatement.execute] at h
  cases hw : writeRow Write.credential
      (insertedCredential t credentialId serviceAccountId verifier validFrom validUntil) with
  | error e' =>
    simp only [hw,bind,Except.bind,Except.error.injEq] at h
    simp [← h,writeRow_error hw]
  | ok w =>
    simp only [hw,bind,Except.bind] at h
    split_ifs at h with h₁ h₂
    · simp [← Except.error.inj h]
    · simp [← Except.error.inj h]
    · cases h

lemma FinishFailure.violates {r : CreateAccount} {t : Time} {d₀ : Database}
    {organizationId serviceAccountId missing : String} {e : ServiceAccountPluginError}
    (h : FinishFailure E good t d₀ r.key organizationId serviceAccountId missing id r.receipt e) :
    r.Violates d e := by
  intro hc
  cases h with
  | receipt a e _ hr => exact .inr ⟨_,hr.mono fun _ _ h => h.filled⟩
  | _ => cases hc

theorem createAccount_wp (r : CreateAccount) :
    TxM.wp E good (createAccount r) (fun res s => CreateOutcome E r d res s.2) (Session.fresh, d) := by
  have hlost : ∀ operation, r.Violates d (.database operation .unavailable) := fun _ hc => by cases hc
  refine wp_bind (wp_begin (fun l _ => .failed _ (.statement _ _ (.inr rfl)) (hlost _)) fun t => ?_)
  refine wp_bind (wp_statement ?_ ?_)
  · intro e l he
    exact .failed _ (.statement _ _ (.inl (by decide))) (he.violates (fun h => (by cases h)) _)
  intro _ us ls he
  simp only [TxStatement.execute,Except.ok.injEq,Prod.mk.injEq] at he
  obtain ⟨-,rfl⟩ := he
  refine wp_bind (wp_statement ?_ ?_)
  · intro e l he
    exact .failed _ (.statement _ _ (.inl (by decide))) (he.violates (fun h => (by cases h)) _)
  intro count us ls he
  simp only [TxStatement.execute,Except.ok.injEq,Prod.mk.injEq] at he
  obtain ⟨rfl,rfl⟩ := he
  simp only [List.append_nil,Database.apply_nil]
  split_ifs with hfull
  · refine wp_bind (wp_rollback (fun _ => .failed _ (.statement _ _ (.inr rfl)) (hlost _)) ?_)
    exact .full hfull
  have hroom : (d.accountsOf r.organizationId : ℤ) < r.maxAccounts := not_le.mp hfull
  refine wp_bind (wp_statement ?_ ?_)
  · intro e l he
    exact .failed _ (.statement _ _ (.inl (by decide))) (he.violates insertAccount_error _)
  intro _ us ls he
  obtain ⟨⟨hv,rfl⟩,hid,hsubject,hname⟩ := insertAccount_ok he
  refine wp_bind (wp_statement ?_ ?_)
  · intro e l he
    exact .failed _ (.statement _ _ (.inl (by decide)))
      (he.violates (fun h => .inl (insertCredential_violation h)) _)
  intro _ us ls he
  obtain ⟨⟨hv',rfl⟩,hcredential⟩ := insertCredential_ok he
  have ha : (d.apply ([.account _ hv] ++ [.credential _ hv'])).accountIn r.organizationId
      r.serviceAccountId = some (insertedAccount t r.serviceAccountId r.organizationId r.subject
        r.name r.nameKey) := by
    have hfind := Table.find_put_self d.accounts _ hv
    simp only [key_account,insertedAccount] at hfind
    simp [Database.accountIn,Write.apply,hfind,insertedAccount,Option.filter]
  refine wp_bind (wp_finish ?_ ?_)
  · intro e l he
    exact .failed _ (he.toTxFailure (fun hn => absurd (ha.symm.trans hn) (by simp)) rfl) he.violates
  intro a c nonce ciphertext hc ls ha' hr hfind hcomp
  obtain rfl := Option.some.inj (ha.symm.trans ha')
  have hcommit : CreateCommit E r d _ (d.apply [.account _ hv,.credential _ hv',.command _ hc]) :=
    .mk t c nonce ciphertext _ hid hsubject hname hcredential hfind hcomp ⟨hv,rfl⟩ ⟨hv',rfl⟩ ⟨hc,rfl⟩
      rfl hr hroom
  refine wp_bind (wp_commit ?_ ?_ ?_)
  · exact fun _ => .failed _ (.statement _ _ (.inr rfl)) (hlost _)
  · exact fun _ => .unacknowledged _ _ hcommit
  · exact .created _ _ hcommit

end Create

/-- What is true after a rotation has been committed. -/
inductive RotateCommit (E : Environment) (r : RotateAccount) (d : Database) : AccountRow → Database → Prop
  | mk (t : Time) (a : Account) (c : Command) (nonce ciphertext : Bytes) (d' : Database)
      (ha : d.accountIn r.organizationId r.serviceAccountId = some a) (hactive : a.status = .active)
      (hrevision : a.revision = r.expectedRevision)
      (hbound : ∀ x ∈ d.credentials.rows, x.serviceAccountId = r.serviceAccountId →
        x.live r.validFrom = true → Row.check (x.bound r.validFrom r.overlapUntil) = true)
      (hcredential : d.credentials.find r.credentialId = none)
      (hc : d.commands.find r.key = some c) (hcomp : c.status.completable = true)
      (haccounts : ∃ h, d'.accounts = d.accounts.put (a.rotate r.validFrom) h)
      (hcredentials : d'.credentials.rows = d.credentials.rows.map r.boundFor ++ [insertedCredential t
        r.credentialId r.serviceAccountId r.verifier r.validFrom r.validUntil])
      (hcommands : ∃ h, d'.commands = d.commands.put (c.succeed t nonce ciphertext) h)
      (hlimits : d'.limits = d.limits)
      (hr : (r.receipt (accountRow E.collation d' (a.rotate r.validFrom))).run.Outcome Filled
        (.ok (nonce, ciphertext))) :
      RotateCommit E r d (accountRow E.collation d' (a.rotate r.validFrom)) d'

/-- The failures of a rotation, each with its reason. -/
inductive RotateFailure (good : TxOp → Choice → Bool) (r : RotateAccount) (d : Database) :
    ServiceAccountPluginError → Prop
  | unavailable (operation : String) (h : Faulty good) :
      RotateFailure good r d (.database operation .unavailable)
  | bound (x : Credential) (hx : x ∈ d.credentials.rows) (hid : x.serviceAccountId = r.serviceAccountId)
      (hlive : x.live r.validFrom = true)
      (hv : ¬Row.check (x.bound r.validFrom r.overlapUntil) = true) :
      RotateFailure good r d
        (.database "bound previous service-account credentials" .checkViolation)
  | insert (t : Time) (e : SqlError)
      (h : ¬Row.check (insertedCredential t r.credentialId r.serviceAccountId r.verifier r.validFrom
        r.validUntil) = true ∨ d.credentials.find r.credentialId ≠ none) :
      RotateFailure good r d (.database "insert rotated service-account credential" e)
  | advance (a : Account) (e : SqlError) (ha : d.accountIn r.organizationId r.serviceAccountId = some a)
      (h : bigintMax ≤ a.revision ∨ ¬Row.check (a.rotate r.validFrom) = true) :
      RotateFailure good r d (.database "advance rotated service account" e)
  | receipt (x : AccountRow) (e : ServiceAccountPluginError)
      (h : (r.receipt x).run.Outcome (Draws good) (.error e)) : RotateFailure good r d e
  | notCompletable (h : ∀ c, d.commands.find r.key = some c → c.status.completable = false) :
      RotateFailure good r d (.invariant "service-account command was not completable")
  | oversize (x : AccountRow) (t : Time) (c : Command) (nonce ciphertext : Bytes)
      (h : (r.receipt x).run.Outcome (Draws good) (.ok (nonce, ciphertext)))
      (hc : d.commands.find r.key = some c) (hv : ¬Row.check (c.succeed t nonce ciphertext) = true) :
      RotateFailure good r d (.database "complete service-account command" .checkViolation)

lemma RotateFailure.toTxFailure {good : TxOp → Choice → Bool} {r : RotateAccount} {d : Database}
    {e : ServiceAccountPluginError} (h : RotateFailure good r d e) : TxFailure d r.key r.receipt e := by
  cases h with
  | unavailable operation _ => exact .statement _ _ (.inr rfl)
  | bound x _ _ _ _ => exact .statement _ _ (.inl (by decide))
  | insert t e _ => exact .statement _ _ (.inl (by decide))
  | advance a e _ _ => exact .statement _ _ (.inl (by decide))
  | receipt x e h => exact .receipt x e (h.mono fun _ _ h => h.filled)
  | notCompletable h => exact .notCompletable h
  | oversize x t c nonce ciphertext h hc hv =>
    exact .oversize x t c nonce ciphertext (h.mono fun _ _ h => h.filled) hc hv

inductive RotateOutcome (E : Environment) (good : TxOp → Choice → Bool) (r : RotateAccount) (d : Database) :
    Except ServiceAccountPluginError (Mutation AccountRow) → Database → Prop
  | failed (e : ServiceAccountPluginError) (h : RotateFailure good r d e) :
      RotateOutcome E good r d (.error e) d
  | notFound (h : d.accountIn r.organizationId r.serviceAccountId = none) :
      RotateOutcome E good r d (.ok .notFound) d
  | revoked (a : Account) (ha : d.accountIn r.organizationId r.serviceAccountId = some a)
      (h : a.status = .revoked) : RotateOutcome E good r d (.ok .revoked) d
  | revisionConflict (a : Account) (ha : d.accountIn r.organizationId r.serviceAccountId = some a)
      (h : a.revision ≠ r.expectedRevision) : RotateOutcome E good r d (.ok .revisionConflict) d
  | updated (row : AccountRow) (d' : Database) (h : RotateCommit E r d row d') :
      RotateOutcome E good r d (.ok (.updated row)) d'
  | unacknowledged (row : AccountRow) (d' : Database) (h : RotateCommit E r d row d')
      (hf : Faulty good) :
      RotateOutcome E good r d (.error (.database "commit service-account rotation" .unavailable)) d'

lemma FinishFailure.toRotateFailure {E : Environment} {good : TxOp → Choice → Bool} {t : Time}
    {d d₀ : Database} {r : RotateAccount} {organizationId serviceAccountId missing : String}
    {e : ServiceAccountPluginError}
    (h : FinishFailure E good t d r.key organizationId serviceAccountId missing id r.receipt e)
    (ha : d.accountIn organizationId serviceAccountId ≠ none) (hc : d.commands = d₀.commands) :
    RotateFailure good r d₀ e := by
  cases h with
  | unavailable operation hf => exact .unavailable _ hf
  | missing h => exact absurd h ha
  | receipt a e _ hr => exact .receipt _ e hr
  | notCompletable h => exact .notCompletable (by rwa [← hc])
  | oversize a c nonce ciphertext _ hr hf _ hv => exact .oversize _ t c nonce ciphertext hr (by rwa [← hc]) hv

lemma accountIn_eq_some {d : Database} {organizationId serviceAccountId : String} {a : Account} :
    d.accountIn organizationId serviceAccountId = some a ↔
      d.accounts.find serviceAccountId = some a ∧ a.organizationId = organizationId := by
  simp [Database.accountIn,Option.filter_eq_some_iff]

/-- An account found in its organization is still found there after its row is rewritten. -/
lemma accountIn_put {d d' : Database} {organizationId serviceAccountId : String} {a b : Account}
    (ha : d.accountIn organizationId serviceAccountId = some a)
    (hid : b.serviceAccountId = a.serviceAccountId) (horg : b.organizationId = a.organizationId)
    (hd : ∃ hv, d'.accounts = d.accounts.put b hv) :
    d'.accountIn organizationId serviceAccountId = some b := by
  obtain ⟨hv,hd⟩ := hd
  obtain ⟨hfind,ho⟩ := accountIn_eq_some.mp ha
  have hkey := Table.key_of_find hfind
  simp only [key_account] at hkey
  refine accountIn_eq_some.mpr ⟨?_,horg.trans ho⟩
  have hput := Table.find_put_self d.accounts b hv
  rw [key_account,hid,hkey] at hput
  rw [hd,hput]

lemma find_eq_none_of_map {t u : Table Credential} {f : Credential → Credential}
    (hk : ∀ c, (f c).credentialId = c.credentialId) (h : t.rows = u.rows.map f) {k : String} :
    t.find k = none ↔ u.find k = none := by
  have hkeys : t.rows.map Row.key = u.rows.map Row.key := by
    rw [h,List.map_map]
    exact List.map_congr_left fun c _ => hk c
  rw [Table.find_eq_none,Table.find_eq_none,hkeys]

lemma RotateAccount.boundFor_credentialId (r : RotateAccount) (c : Credential) :
    (r.boundFor c).credentialId = c.credentialId := by
  unfold RotateAccount.boundFor
  split_ifs <;> rfl

lemma boundCredentials_ok {r : RotateAccount} {o : Collation} {t : Time} {d : Database} {u : Unit}
    {ws : List Write} (h : (TxStatement.boundCredentials r.validFrom r.overlapUntil
      r.serviceAccountId).execute o t d = .ok (u, ws)) :
    (∀ x ∈ d.credentials.rows, x.serviceAccountId = r.serviceAccountId → x.live r.validFrom = true →
        Row.check (x.bound r.validFrom r.overlapUntil) = true) ∧ (d.apply ws).accounts = d.accounts ∧
      (d.apply ws).commands = d.commands ∧ (d.apply ws).limits = d.limits ∧
      (d.apply ws).credentials.rows = d.credentials.rows.map r.boundFor := by
  simp only [TxStatement.execute] at h
  cases hm : ((d.credentialsOf r.serviceAccountId).filter (Credential.live r.validFrom)).mapM
      fun c => writeRow Write.credential (c.bound r.validFrom r.overlapUntil) with
  | error e => simp [hm,bind,Except.bind] at h
  | ok us =>
    simp only [hm,bind,Except.bind,pure,Except.pure,Except.ok.injEq,Prod.mk.injEq] at h
    obtain ⟨-,rfl⟩ := h
    exact apply_credentialsOf (f := Credential.bound r.validFrom r.overlapUntil) (fun _ => rfl) hm

lemma boundCredentials_error {r : RotateAccount} {o : Collation} {t : Time} {d : Database} {e : SqlError}
    (h : (TxStatement.boundCredentials r.validFrom r.overlapUntil r.serviceAccountId).execute o t d =
      .error e) :
    e = .checkViolation ∧ ∃ x ∈ d.credentials.rows, x.serviceAccountId = r.serviceAccountId ∧
      x.live r.validFrom = true ∧ ¬Row.check (x.bound r.validFrom r.overlapUntil) = true := by
  simp only [TxStatement.execute] at h
  cases hm : ((d.credentialsOf r.serviceAccountId).filter (Credential.live r.validFrom)).mapM
      fun c => writeRow Write.credential (c.bound r.validFrom r.overlapUntil) with
  | ok ws => simp [hm,bind,Except.bind,pure,Except.pure] at h
  | error e' =>
    simp only [hm,bind,Except.bind,Except.error.injEq] at h
    subst h
    obtain ⟨rfl,x,hx,hv⟩ := mapM_writeRow_error (f := Credential.bound r.validFrom r.overlapUntil) hm
    simp only [Database.credentialsOf,List.mem_filter,decide_eq_true_eq] at hx
    exact ⟨rfl,x,hx.1.1,hx.1.2,hx.2,hv⟩

lemma advanceAccount_ok {o : Collation} {t validFrom : Time} {d : Database} {serviceAccountId : String}
    {a : Account} {u : Unit} {ws : List Write} (ha : d.accounts.find serviceAccountId = some a)
    (h : (TxStatement.advanceAccount serviceAccountId validFrom).execute o t d = .ok (u, ws)) :
    ∃ hv, ws = [.account (a.rotate validFrom) hv] := by
  simp only [TxStatement.execute,ha] at h
  split_ifs at h
  cases hw : writeRow Write.account (a.rotate validFrom) with
  | error e => simp [hw,bind,Except.bind] at h
  | ok w =>
    obtain ⟨hv,rfl⟩ := writeRow_ok.mp hw
    simp only [hw,bind,Except.bind,pure,Except.pure,Except.ok.injEq,Prod.mk.injEq] at h
    exact ⟨hv,h.2.symm⟩

lemma advanceAccount_error {o : Collation} {t validFrom : Time} {d : Database}
    {serviceAccountId : String} {a : Account} {e : SqlError}
    (ha : d.accounts.find serviceAccountId = some a)
    (h : (TxStatement.advanceAccount serviceAccountId validFrom).execute o t d = .error e) :
    bigintMax ≤ a.revision ∨ ¬Row.check (a.rotate validFrom) = true := by
  by_cases hmax : bigintMax ≤ a.revision
  · exact .inl hmax
  · refine .inr fun hv => ?_
    simp [TxStatement.execute,ha,hmax,writeRow,hv,bind,Except.bind,pure,Except.pure] at h

section Rotate
variable {E : Environment} {good : TxOp → Choice → Bool} {d : Database}

theorem rotateAccount_wp (r : RotateAccount) :
    TxM.wp E good (rotateAccount r) (fun res s => RotateOutcome E good r d res s.2)
      (Session.fresh, d) := by
  refine wp_bind (wp_begin (fun l hf => .failed _ (.unavailable _ hf)) fun t => ?_)
  refine wp_bind (wp_statement ?_ ?_)
  · rintro e l (⟨rfl,hf⟩ | he)
    · exact .failed _ (.unavailable _ hf)
    · simp [TxStatement.execute] at he
  intro row us ls he
  simp only [TxStatement.execute,Except.ok.injEq,Prod.mk.injEq] at he
  obtain ⟨rfl,rfl⟩ := he
  simp only [List.append_nil,Database.apply_nil]
  cases ha : d.accountIn r.organizationId r.serviceAccountId with
  | none => exact wp_bind (wp_rollback (fun hf => .failed _ (.unavailable _ hf)) (.notFound ha))
  | some a =>
    simp only [Option.map_some]
    split_ifs with hrevoked hrevision
    · exact wp_bind (wp_rollback (fun hf => .failed _ (.unavailable _ hf)) (.revoked a ha hrevoked))
    · exact wp_bind (wp_rollback (fun hf => .failed _ (.unavailable _ hf))
        (.revisionConflict a ha hrevision))
    have hactive : a.status = .active := by
      cases hs : a.status with
      | active => rfl
      | revoked => exact absurd hs hrevoked
    have hrevision' : a.revision = r.expectedRevision := not_not.mp hrevision
    obtain ⟨hfind,horg⟩ := accountIn_eq_some.mp ha
    refine wp_bind (wp_statement ?_ ?_)
    · rintro e l (⟨rfl,hf⟩ | he)
      · exact .failed _ (.unavailable _ hf)
      · obtain ⟨rfl,x,hx,hid,hlive,hv⟩ := boundCredentials_error he
        exact .failed _ (.bound x hx hid hlive hv)
    intro _ ws ls he
    obtain ⟨hbound,haccounts,hcommands,hlimits,hrows⟩ := boundCredentials_ok he
    simp only [List.nil_append,Database.apply_nil] at hbound haccounts hcommands hlimits hrows ⊢
    have hsame := find_eq_none_of_map r.boundFor_credentialId hrows (k := r.credentialId)
    have hfind' : (d.apply ws).accounts.find r.serviceAccountId = some a := by rw [haccounts,hfind]
    refine wp_bind (wp_statement ?_ ?_)
    · rintro e l (⟨rfl,hf⟩ | he)
      · exact .failed _ (.unavailable _ hf)
      · refine .failed _ (.insert t e ?_)
        rcases insertCredential_error he with hv | hc | hacc
        · exact .inl hv
        · exact .inr (mt hsame.mpr hc)
        · exact absurd (hfind'.symm.trans hacc) (by simp)
    intro _ us ls he
    obtain ⟨⟨hv,rfl⟩,hcredential⟩ := insertCredential_ok he
    have hfind'' : (d.apply (ws ++ [.credential _ hv])).accounts.find r.serviceAccountId = some a := by
      rw [Database.apply_append]
      exact hfind'
    refine wp_bind (wp_statement ?_ ?_)
    · rintro e l (⟨rfl,hf⟩ | he)
      · exact .failed _ (.unavailable _ hf)
      · exact .failed _ (.advance a e ha (advanceAccount_error hfind'' he))
    intro _ us ls he
    obtain ⟨hv',rfl⟩ := advanceAccount_ok hfind'' he
    set d₁ := d.apply (ws ++ [.credential _ hv] ++ [.account (a.rotate r.validFrom) hv']) with hd₁
    have hd₁' : d₁ = ⟨d.accounts.put (a.rotate r.validFrom) hv',(d.apply ws).credentials.put _ hv,
        d.commands,d.limits⟩ := by
      rw [hd₁,Database.apply_append,Database.apply_append]
      simp only [Database.apply_cons,Database.apply_nil,Write.apply,haccounts,hcommands,hlimits]
    have hin : d₁.accountIn r.organizationId r.serviceAccountId = some (a.rotate r.validFrom) :=
      accountIn_put ha rfl rfl ⟨hv',by rw [hd₁']⟩
    refine wp_bind (wp_finish ?_ ?_)
    · intro e l he
      exact .failed _ (he.toRotateFailure (fun hn => absurd (hin.symm.trans hn) (by simp)) (by rw [← hd₁,hd₁']))
    intro b c nonce ciphertext hc ls hb hr hcommand hcomp
    obtain rfl := Option.some.inj (hin.symm.trans hb)
    have hcommit : RotateCommit E r d (accountRow E.collation d₁ (a.rotate r.validFrom))
        (d₁.apply [.command _ hc]) := by
      refine .mk t a c nonce ciphertext (d₁.apply [.command _ hc]) ha hactive hrevision' hbound
        (hsame.mp hcredential) ?_ hcomp ⟨hv',?_⟩ ?_ ⟨hc,?_⟩ ?_ hr
      · rw [← hd₁,hd₁'] at hcommand
        exact hcommand
      · rw [hd₁']
        rfl
      · rw [hd₁']
        exact (Table.rows_put_of_new _ hv hcredential).trans (by rw [hrows])
      · rw [hd₁']
        rfl
      · rw [hd₁']
        rfl
    have hview : d.apply (ws ++ [.credential _ hv] ++ [.account (a.rotate r.validFrom) hv'] ++
        [.command _ hc]) = d₁.apply [.command _ hc] := Database.apply_append _ _ _
    refine wp_bind (wp_commit ?_ ?_ ?_)
    · exact fun hf => .failed _ (.unavailable _ hf)
    · intro hf
      rw [hview]
      exact .unacknowledged _ _ hcommit hf
    · rw [hview]
      exact .updated _ _ hcommit

end Rotate

/-- What is true after a revocation has been committed: it changed an active account and all
of its credentials, or it found the account revoked and only completed its command. -/
inductive RevokeCommit (E : Environment) (r : RevokeAccount) (d : Database) :
    AccountRow × Bool → Database → Prop
  | changed (t now : Time) (a : Account) (c : Command) (nonce ciphertext : Bytes) (d' : Database)
      (ha : d.accountIn r.organizationId r.serviceAccountId = some a) (hactive : a.status = .active)
      (hrevision : a.revision = r.expectedRevision)
      (hc : d.commands.find r.key = some c) (hcomp : c.status.completable = true)
      (haccounts : ∃ h, d'.accounts = d.accounts.put (a.revoke now) h)
      (hcredentials : d'.credentials.rows =
        d.credentials.rows.map (Credential.revokeFor r.serviceAccountId now))
      (hcommands : ∃ h, d'.commands = d.commands.put (c.succeed t nonce ciphertext) h)
      (hlimits : d'.limits = d.limits)
      (hr : (r.receipt (accountRow E.collation d' (a.revoke now), true)).run.Outcome Filled
        (.ok (nonce, ciphertext))) :
      RevokeCommit E r d (accountRow E.collation d' (a.revoke now), true) d'
  | unchanged (t : Time) (a : Account) (c : Command) (nonce ciphertext : Bytes) (d' : Database)
      (ha : d.accountIn r.organizationId r.serviceAccountId = some a) (hrevoked : a.status = .revoked)
      (hrevision : a.revision = r.expectedRevision)
      (hc : d.commands.find r.key = some c) (hcomp : c.status.completable = true)
      (haccounts : d'.accounts = d.accounts) (hcredentials : d'.credentials = d.credentials)
      (hcommands : ∃ h, d'.commands = d.commands.put (c.succeed t nonce ciphertext) h)
      (hlimits : d'.limits = d.limits)
      (hr : (r.receipt (accountRow E.collation d' a, false)).run.Outcome Filled
        (.ok (nonce, ciphertext))) :
      RevokeCommit E r d (accountRow E.collation d' a, false) d'

inductive RevokeOutcome (E : Environment) (r : RevokeAccount) (d : Database) :
    Except ServiceAccountPluginError (Mutation (AccountRow × Bool)) → Database → Prop
  | failed (e : ServiceAccountPluginError) (h : TxFailure d r.key r.receipt e) :
      RevokeOutcome E r d (.error e) d
  | notFound (h : d.accountIn r.organizationId r.serviceAccountId = none) :
      RevokeOutcome E r d (.ok .notFound) d
  | revisionConflict (a : Account) (ha : d.accountIn r.organizationId r.serviceAccountId = some a)
      (h : a.revision ≠ r.expectedRevision) : RevokeOutcome E r d (.ok .revisionConflict) d
  | updated (result : AccountRow × Bool) (d' : Database) (h : RevokeCommit E r d result d') :
      RevokeOutcome E r d (.ok (.updated result)) d'
  | unacknowledged (result : AccountRow × Bool) (d' : Database) (h : RevokeCommit E r d result d') :
      RevokeOutcome E r d (.error (.database "commit service-account revocation" .unavailable)) d'

lemma Credential.revoke_check {now : Time} {c : Credential} (h : Row.check c = true) :
    Row.check (c.revoke now) = true := by
  simp only [Row.check,Credential.check,Bool.and_eq_true,decide_eq_true_eq] at h ⊢
  exact ⟨h.1,le_max_left _ _⟩

lemma revokeAccountStatement_ok {o : Collation} {t now : Time} {d : Database} {serviceAccountId : String}
    {a : Account} {u : Unit} {ws : List Write} (ha : d.accounts.find serviceAccountId = some a)
    (h : (TxStatement.revokeAccount serviceAccountId now).execute o t d = .ok (u, ws)) :
    ∃ hv, ws = [.account (a.revoke now) hv] := by
  simp only [TxStatement.execute,ha] at h
  split_ifs at h
  cases hw : writeRow Write.account (a.revoke now) with
  | error e => simp [hw,bind,Except.bind] at h
  | ok w =>
    obtain ⟨hv,rfl⟩ := writeRow_ok.mp hw
    simp only [hw,bind,Except.bind,pure,Except.pure,Except.ok.injEq,Prod.mk.injEq] at h
    exact ⟨hv,h.2.symm⟩

lemma revokeCredentials_ok {o : Collation} {t now : Time} {d : Database} {serviceAccountId : String}
    {u : Unit} {ws : List Write}
    (h : (TxStatement.revokeCredentials serviceAccountId now).execute o t d = .ok (u, ws)) :
    (d.apply ws).accounts = d.accounts ∧ (d.apply ws).commands = d.commands ∧
      (d.apply ws).limits = d.limits ∧
      (d.apply ws).credentials.rows = d.credentials.rows.map (Credential.revokeFor serviceAccountId now) := by
  simp only [TxStatement.execute] at h
  cases hm : (d.credentialsOf serviceAccountId).mapM fun c => writeRow Write.credential (c.revoke now) with
  | error e => simp [hm,bind,Except.bind] at h
  | ok us =>
    simp only [hm,bind,Except.bind,pure,Except.pure,Except.ok.injEq,Prod.mk.injEq] at h
    obtain ⟨-,rfl⟩ := h
    have hall : (d.credentialsOf serviceAccountId).filter (fun _ => true) =
        d.credentialsOf serviceAccountId := List.filter_true _
    rw [← hall] at hm
    obtain ⟨-,ha,hc,hl,hr⟩ := apply_credentialsOf (f := Credential.revoke now) (fun _ => rfl) hm
    refine ⟨ha,hc,hl,hr.trans ?_⟩
    apply List.map_congr_left
    intro c _
    simp [Credential.revokeFor]

section Revoke
variable {E : Environment} {good : TxOp → Choice → Bool} {d : Database}

/-- The end of a revocation, from the point where the account is as it is going to be. -/
lemma revokeAccount_finish {r : RevokeAccount} {t : Time} {ws : List Write} {ls : List Lock}
    {d₁ : Database} {a : Account} {changed : Bool} (hd₁ : d.apply ws = d₁)
    (ha : d₁.accountIn r.organizationId r.serviceAccountId = some a)
    (hcommands : d₁.commands = d.commands)
    (hcommit : ∀ c nonce ciphertext hc, d.commands.find r.key = some c → c.status.completable = true →
      (r.receipt (accountRow E.collation d₁ a, changed)).run.Outcome Filled (.ok (nonce, ciphertext)) →
      RevokeCommit E r d (accountRow E.collation d₁ a, changed)
        { d₁ with commands := d.commands.put (c.succeed t nonce ciphertext) hc }) :
    TxM.wp E good (do
        let result ← finish r.key r.organizationId r.serviceAccountId
          "revoked service account is missing" (fun row => (row,changed)) r.receipt
        commit "commit service-account revocation"
        return Mutation.updated result)
      (fun res s => RevokeOutcome E r d res s.2) (⟨t,ws,ls,false⟩, d) := by
  refine wp_bind (wp_finish ?_ ?_)
  · intro e l he
    rw [hd₁] at he
    exact .failed _ (he.toTxFailure (fun hn => absurd (ha.symm.trans hn) (by simp)) hcommands)
  intro b c nonce ciphertext hc ls hb hr hcommand hcomp
  rw [hd₁] at hb hr hcommand ⊢
  obtain rfl := Option.some.inj (ha.symm.trans hb)
  have hdone := hcommit c nonce ciphertext hc (by rwa [← hcommands]) hcomp hr
  have hview : d.apply (ws ++ [.command (c.succeed t nonce ciphertext) hc]) =
      { d₁ with commands := d.commands.put (c.succeed t nonce ciphertext) hc } := by
    rw [Database.apply_append,hd₁,Database.apply_cons,Database.apply_nil]
    simp only [Write.apply,hcommands]
  refine wp_bind (wp_commit ?_ ?_ ?_)
  · exact fun _ => .failed _ (.statement _ _ (.inr rfl))
  · intro _
    rw [hview]
    exact .unacknowledged _ _ hdone
  · rw [hview]
    exact .updated _ _ hdone

theorem revokeAccount_wp (r : RevokeAccount) :
    TxM.wp E good (revokeAccount r) (fun res s => RevokeOutcome E r d res s.2)
      (Session.fresh, d) := by
  refine wp_bind (wp_begin (fun l _ => .failed _ (.statement _ _ (.inr rfl))) fun t => ?_)
  refine wp_bind (wp_statement ?_ ?_)
  · exact fun e l _ => .failed _ (.statement _ _ (.inl (by decide)))
  intro row us ls he
  simp only [TxStatement.execute,Except.ok.injEq,Prod.mk.injEq] at he
  obtain ⟨rfl,rfl⟩ := he
  simp only [List.append_nil,Database.apply_nil]
  cases ha : d.accountIn r.organizationId r.serviceAccountId with
  | none => exact wp_bind (wp_rollback (fun _ => .failed _ (.statement _ _ (.inr rfl))) (.notFound ha))
  | some a =>
    simp only [Option.map_some]
    split_ifs with hrevision hchanged
    · exact wp_bind (wp_rollback (fun _ => .failed _ (.statement _ _ (.inr rfl)))
        (.revisionConflict a ha hrevision))
    · have hrevision' : a.revision = r.expectedRevision := not_not.mp hrevision
      have hactive : a.status = .active := by
        cases hs : a.status with
        | active => rfl
        | revoked => simp [accountRow,hs] at hchanged
      obtain ⟨hfind,horg⟩ := accountIn_eq_some.mp ha
      refine wp_bind (wp_nowUtc fun now => ?_)
      refine wp_bind (wp_statement ?_ ?_)
      · exact fun e l _ => .failed _ (.statement _ _ (.inl (by decide)))
      intro _ us ls he
      obtain ⟨hv,rfl⟩ := revokeAccountStatement_ok hfind he
      refine wp_bind (wp_statement ?_ ?_)
      · exact fun e l _ => .failed _ (.statement _ _ (.inl (by decide)))
      intro _ us ls he
      obtain ⟨haccounts,hcommands,hlimits,hrows⟩ := revokeCredentials_ok he
      rw [← Database.apply_append] at haccounts hcommands hlimits hrows
      have hwrite : d.apply ([] ++ [.account (a.revoke now) hv]) =
          { d with accounts := d.accounts.put (a.revoke now) hv } := rfl
      rw [hwrite] at haccounts hcommands hlimits hrows
      have hb : (accountRow E.collation d a).status != .revoked := hchanged
      rw [hb]
      generalize hd₁ : d.apply ([] ++ [.account (a.revoke now) hv] ++ us) = d₁ at *
      have hin : d₁.accountIn r.organizationId r.serviceAccountId = some (a.revoke now) :=
        accountIn_put ha rfl rfl ⟨hv,haccounts⟩
      refine revokeAccount_finish hd₁ hin hcommands ?_
      intro c nonce ciphertext hc hcommand hcomp hr
      exact .changed t now a c nonce ciphertext
        { d₁ with commands := d.commands.put (c.succeed t nonce ciphertext) hc }
        ha hactive hrevision' hcommand hcomp ⟨hv,haccounts⟩ hrows ⟨hc,rfl⟩ hlimits hr
    · have hrevision' : a.revision = r.expectedRevision := not_not.mp hrevision
      have hrevoked : a.status = .revoked := by
        cases hs : a.status with
        | active => simp [accountRow,hs] at hchanged
        | revoked => rfl
      have hb : ((accountRow E.collation d a).status != .revoked) = false := by simpa using hchanged
      rw [hb]
      refine revokeAccount_finish rfl ha rfl ?_
      intro c nonce ciphertext hc hcommand hcomp hr
      exact .unchanged t a c nonce ciphertext
        { d with commands := d.commands.put (c.succeed t nonce ciphertext) hc }
        ha hrevoked hrevision' hcommand hcomp rfl rfl ⟨hc,rfl⟩ rfl hr

end Revoke

/-- What is true after an exchange has been admitted. -/
inductive AdmitCommit (r : MarkExchangeIssuing) (d : Database) : CredentialRow → Database → Prop
  | mk (a : Account) (c : Credential) (k : Command) (d' : Database)
      (ha : d.accounts.find r.serviceAccountId = some a) (hactive : a.status = .active)
      (hc : d.credentials.find r.credentialId = some c)
      (hid : c.serviceAccountId = r.serviceAccountId) (hvalid : c.validAt r.now = true)
      (hk : d.commands.find ⟨r.caller,"exchange_secret",r.idempotencyKey⟩ = some k)
      (hreserved : k.status = .reserved)
      (haccounts : d'.accounts = d.accounts)
      (hcredentials : ∃ h, d'.credentials = d.credentials.put { c with lastUsedAt := some r.now } h)
      (hcommands : ∃ h, d'.commands = d.commands.put (k.issue r.now) h)
      (hlimits : d'.limits = d.limits) : AdmitCommit r d (credentialRow c a) d'

/-- Why an exchange is not admitted. -/
inductive AdmitRefusal (r : MarkExchangeIssuing) (d : Database) : Prop
  | account (h : ∀ a, d.accounts.find r.serviceAccountId = some a → a.status ≠ .active)
  | credential (h : ∀ c, d.credentials.find r.credentialId = some c →
      c.serviceAccountId = r.serviceAccountId → c.validAt r.now = false)
  | command (h : ∀ k, d.commands.find ⟨r.caller,"exchange_secret",r.idempotencyKey⟩ = some k →
      k.status ≠ .reserved)

inductive AdmitOutcome (good : TxOp → Choice → Bool) (r : MarkExchangeIssuing) (d : Database) :
    Except ServiceAccountPluginError (Option CredentialRow) → Database → Prop
  | unavailable (operation : String) (h : Faulty good) :
      AdmitOutcome good r d (.error (.database operation .unavailable)) d
  | refused (h : AdmitRefusal r d) : AdmitOutcome good r d (.ok none) d
  | admitted (row : CredentialRow) (d' : Database) (h : AdmitCommit r d row d') :
      AdmitOutcome good r d (.ok (some row)) d'
  | unacknowledged (row : CredentialRow) (d' : Database) (h : AdmitCommit r d row d')
      (hf : Faulty good) :
      AdmitOutcome good r d (.error (.database "commit verified service-account exchange" .unavailable)) d'

section Admit
variable {E : Environment} {good : TxOp → Choice → Bool} {d : Database}

lemma recordUse_ok (o : Collation) (t now : Time) {d : Database} {credentialId : String}
    {c : Credential} (hc : d.credentials.find credentialId = some c) :
    ∃ hv, (TxStatement.recordUse credentialId now).execute o t d =
      .ok ((),[.credential { c with lastUsedAt := some now } hv]) := by
  have hold : Row.check c = true := Table.check_of_find hc
  have hv : Row.check { c with lastUsedAt := some now } = true := hold
  exact ⟨hv,by simp [TxStatement.execute,hc,writeRow,hv,bind,Except.bind,pure,Except.pure]⟩

lemma markIssuing_ok (o : Collation) (t now : Time) (caller idempotencyKey : String) {d : Database}
    {credentialId : String} (hc : (d.credentials.find credentialId).isSome = true) :
    ((TxStatement.markIssuing caller idempotencyKey credentialId now).execute o t d = .ok (0,[]) ∧
      ∀ k, d.commands.find ⟨caller,"exchange_secret",idempotencyKey⟩ = some k → k.status ≠ .reserved) ∨
    ∃ k hv, d.commands.find ⟨caller,"exchange_secret",idempotencyKey⟩ = some k ∧ k.status = .reserved ∧
      (TxStatement.markIssuing caller idempotencyKey credentialId now).execute o t d =
        .ok (1,[.command (k.issue now) hv]) := by
  cases hk : d.commands.find ⟨caller,"exchange_secret",idempotencyKey⟩ with
  | none => exact .inl ⟨by simp [TxStatement.execute,hk],by simp⟩
  | some k =>
    by_cases hr : k.status = .reserved
    · have hold : Command.check k = true := Table.check_of_find hk
      have hv : Row.check (k.issue now) = true := by
        simp only [Row.check,Command.check,Command.shape,Command.issue] at hold ⊢
        simpa [hr] using hold
      exact .inr ⟨k,hv,rfl,hr,by
        simp [TxStatement.execute,hk,hc,hr,Option.filter,writeRow,hv,bind,Except.bind,pure,Except.pure]⟩
    · refine .inl ⟨by simp [TxStatement.execute,hk,hr,Option.filter],?_⟩
      rintro k' hk'
      cases hk'
      exact hr

theorem markExchangeIssuing_wp (r : MarkExchangeIssuing) :
    TxM.wp E good (markExchangeIssuing r) (fun res s => AdmitOutcome good r d res s.2)
      (Session.fresh, d) := by
  refine wp_bind (wp_begin (fun l hf => .unavailable _ hf) fun t => ?_)
  refine wp_bind (wp_statement ?_ ?_)
  · rintro e l (⟨rfl,hf⟩ | he)
    · exact .unavailable _ hf
    · simp [TxStatement.execute] at he
  intro status us ls he
  simp only [TxStatement.execute,Except.ok.injEq,Prod.mk.injEq,Database.apply_nil] at he
  obtain ⟨hstatus,rfl⟩ := he
  simp only [List.append_nil]
  by_cases hactive : status = some .active
  swap
  · rw [if_pos hactive]
    refine wp_bind (wp_rollback (fun hf => .unavailable _ hf) (.refused (.account ?_)))
    intro a ha hs
    rw [ha,Option.map_some,hs] at hstatus
    exact hactive hstatus.symm
  rw [if_neg (not_not.mpr hactive)]
  rw [hactive] at hstatus
  obtain ⟨a,ha,hs⟩ := Option.map_eq_some_iff.mp hstatus
  refine wp_bind (wp_statement ?_ ?_)
  · rintro e l (⟨rfl,hf⟩ | he)
    · exact .unavailable _ hf
    · simp [TxStatement.execute] at he
  intro row us ls he
  simp only [TxStatement.execute,Except.ok.injEq,Prod.mk.injEq] at he
  obtain ⟨hrow,rfl⟩ := he
  simp only [List.append_nil,Database.apply_nil] at hrow ⊢
  cases row with
  | none =>
    refine wp_bind (wp_rollback (fun hf => .unavailable _ hf) (.refused (.credential ?_)))
    intro c hc hid
    by_contra hv
    rw [Bool.not_eq_false] at hv
    simp [hc,hid,hv,Option.filter,ha,hs] at hrow
  | some row =>
    obtain ⟨c,hcf,hca⟩ := Option.bind_eq_some_iff.mp hrow
    obtain ⟨hc,hcv⟩ := Option.filter_eq_some_iff.mp hcf
    simp only [Bool.and_eq_true,decide_eq_true_eq] at hcv
    obtain ⟨b,hbf,rfl⟩ := Option.map_eq_some_iff.mp hca
    obtain ⟨hb,-⟩ := Option.filter_eq_some_iff.mp hbf
    rw [hcv.1] at hb
    obtain rfl := Option.some.inj (ha.symm.trans hb)
    obtain ⟨hv,huse⟩ := recordUse_ok E.collation t r.now hc
    refine wp_bind (wp_statement ?_ ?_)
    · rintro e l (⟨rfl,hf⟩ | he)
      · exact .unavailable _ hf
      · exact absurd (huse.symm.trans he) (by simp)
    intro _ us ls he
    obtain ⟨-,rfl⟩ := Prod.mk.inj (Except.ok.inj (huse.symm.trans he))
    have hsome : ((d.apply [.credential _ hv]).credentials.find r.credentialId).isSome = true := by
      have hkey : c.credentialId = r.credentialId := Table.key_of_find hc
      rw [← hkey]
      exact Option.isSome_of_mem (Table.find_put_self d.credentials _ hv)
    refine wp_bind (wp_statement ?_ ?_)
    · rintro e l (⟨rfl,hf⟩ | he)
      · exact .unavailable _ hf
      · obtain ⟨h,-⟩ | ⟨k,hk,-,-,h⟩ := markIssuing_ok E.collation t r.now r.caller
            r.idempotencyKey hsome <;>
          exact absurd (h.symm.trans he) (by simp)
    intro n us ls he
    obtain ⟨h,hk⟩ | ⟨k,hv',hk,hreserved,h⟩ := markIssuing_ok E.collation t r.now r.caller
      r.idempotencyKey hsome
    · obtain ⟨rfl,rfl⟩ := Prod.mk.inj (Except.ok.inj (h.symm.trans he))
      exact wp_bind (wp_rollback (fun hf => .unavailable _ hf) (.refused (.command hk)))
    · obtain ⟨rfl,rfl⟩ := Prod.mk.inj (Except.ok.inj (h.symm.trans he))
      have hcommit : AdmitCommit r d (credentialRow c a)
          (d.apply [.credential _ hv,.command _ hv']) :=
        .mk a c k _ ha hs hc hcv.1 hcv.2 hk hreserved rfl ⟨hv,rfl⟩ ⟨hv',rfl⟩ rfl
      refine wp_bind (wp_commit ?_ ?_ ?_)
      · exact fun hf => .unavailable _ hf
      · exact fun hf => .unacknowledged _ _ hcommit hf
      · exact .admitted _ _ hcommit

end Admit

/-- What the completion of a command on its own leads to. -/
inductive CompleteOutcome (key : CommandKey) (nonce ciphertext : Bytes) (d : Database) :
    Except ServiceAccountPluginError Unit → Database → Prop
  | failed (e : ServiceAccountPluginError)
      (h : TxFailure d key (fun _ : Unit => pure (nonce,ciphertext)) e) :
      CompleteOutcome key nonce ciphertext d (.error e) d
  | completed (t : Time) (c : Command) (hv : Row.check (c.succeed t nonce ciphertext) = true)
      (hc : d.commands.find key = some c) (hcomp : c.status.completable = true) :
      CompleteOutcome key nonce ciphertext d (.ok ())
        { d with commands := d.commands.put (c.succeed t nonce ciphertext) hv }
  | unacknowledged (t : Time) (c : Command) (hv : Row.check (c.succeed t nonce ciphertext) = true)
      (hc : d.commands.find key = some c) (hcomp : c.status.completable = true) :
      CompleteOutcome key nonce ciphertext d
        (.error (.database "commit service-account receipt completion" .unavailable))
        { d with commands := d.commands.put (c.succeed t nonce ciphertext) hv }

/-- The row that a rate admission finds or makes. -/
def Database.limitOf (d : Database) (caller : String) (now : Time) : ExchangeLimit :=
  (d.limits.find caller).getD ⟨caller,now,0,none⟩

/-- Whether a rate admission admits, and what it makes of the row. -/
def ReserveRateSlot.grant (r : ReserveRateSlot) (l : ExchangeLimit) : Bool × ExchangeLimit :=
  if l.lockedUntil.any fun u => r.now < u then (false,l)
  else
    let renewed := decide (l.windowStartedAt + seconds r.windowSeconds ≤ r.now)
    let windowStartedAt := if renewed then r.now else l.windowStartedAt
    let attempts := if renewed then 0 else l.attempts
    if r.maxAttempts ≤ attempts then
      (false,{ l with
        windowStartedAt := windowStartedAt
        lockedUntil := some (r.now + seconds r.lockoutSeconds) })
    else
      (true,{ l with
        windowStartedAt := windowStartedAt
        attempts := attempts + 1
        lockedUntil := none })

/-- What is true after a rate admission has been committed: its row is decided, and nothing else
is written. -/
structure SlotCommit (r : ReserveRateSlot) (d d' : Database) : Prop where
  accounts : d'.accounts = d.accounts
  credentials : d'.credentials = d.credentials
  commands : d'.commands = d.commands
  limits : ∃ h, d'.limits = d.limits.put (r.grant (d.limitOf r.caller r.now)).2 h

inductive SlotOutcome (good : TxOp → Choice → Bool) (r : ReserveRateSlot) (d : Database) :
    Except ServiceAccountPluginError Bool → Database → Prop
  | failed (operation : String) (e : SqlError)
      (h : Faulty good ∨ charLengthBetween r.caller 1 128 = false) :
      SlotOutcome good r d (.error (.database operation e)) d
  | decided (d' : Database) (h : SlotCommit r d d') :
      SlotOutcome good r d (.ok (r.grant (d.limitOf r.caller r.now)).1) d'
  | unacknowledged (operation : String) (d' : Database) (h : SlotCommit r d d') (hf : Faulty good) :
      SlotOutcome good r d (.error (.database operation .unavailable)) d'

lemma SlotOutcome.tables {good : TxOp → Choice → Bool} {r : ReserveRateSlot} {d d' : Database}
    {res : Except ServiceAccountPluginError Bool} (h : SlotOutcome good r d res d') :
    d'.accounts = d.accounts ∧ d'.credentials = d.credentials ∧ d'.commands = d.commands := by
  cases h with
  | failed => exact ⟨rfl,rfl,rfl⟩
  | decided _ h => exact ⟨h.accounts,h.credentials,h.commands⟩
  | unacknowledged _ _ h => exact ⟨h.accounts,h.credentials,h.commands⟩

section Others
variable {E : Environment} {good : TxOp → Choice → Bool} {d : Database}

theorem completeSuccessOwned_wp (key : CommandKey) (nonce ciphertext : Bytes) :
    TxM.wp E good (completeSuccessOwned key nonce ciphertext)
      (fun res s => CompleteOutcome key nonce ciphertext d res s.2) (Session.fresh, d) := by
  refine wp_bind (wp_begin (fun l _ => .failed _ (.statement _ _ (.inr rfl))) fun t => ?_)
  refine wp_bind (wp_completeSuccess ?_ ?_ ?_ ?_)
  · exact fun l _ => .failed _ (.statement _ _ (.inr rfl))
  · exact fun l c hc _ hv => .failed _ (.oversize () t c nonce ciphertext rfl hc hv)
  · exact fun l hn => .failed _ (.notCompletable hn)
  · intro c hc ls hfind hcomp
    exact wp_commit (fun _ => .failed _ (.statement _ _ (.inr rfl)))
      (fun _ => .unacknowledged t c hc hfind hcomp) (.completed t c hc hfind hcomp)

/-- The transaction has made sure of the row `l` and written nothing else. -/
structure Initialized (d : Database) (l : ExchangeLimit) (ws : List Write) : Prop where
  find : (d.apply ws).limits.find l.callerInstance = some l
  same : ∃ h, d.apply ws = { d with limits := d.limits.put l h }
  put : ∀ l' h, l'.callerInstance = l.callerInstance →
    d.apply (ws ++ [.limit l' h]) = { d with limits := d.limits.put l' h }

lemma limitOf_caller (d : Database) (caller : String) (now : Time) :
    (d.limitOf caller now).callerInstance = caller := by
  unfold Database.limitOf
  cases h : d.limits.find caller with
  | none => rfl
  | some l => exact Table.key_of_find h

lemma initializeLimit_ok {o : Collation} {t now : Time} {caller : String} {u : Unit} {us : List Write}
    (h : (TxStatement.initializeLimit caller now).execute o t d = .ok (u, us)) :
    Initialized d (d.limitOf caller now) us := by
  simp only [TxStatement.execute] at h
  cases hw : writeRow Write.limit ⟨caller,now,0,none⟩ with
  | error e => simp [hw,bind,Except.bind] at h
  | ok w =>
    obtain ⟨hv,rfl⟩ := writeRow_ok.mp hw
    simp only [hw,bind,Except.bind,pure,Except.pure] at h
    cases hf : d.limits.find caller with
    | none =>
      simp only [hf,Option.isSome_none,Bool.false_eq_true,if_false,Except.ok.injEq,Prod.mk.injEq,true_and] at h
      subst h
      simp only [Database.limitOf,hf,Option.getD_none]
      refine ⟨Table.find_put_self d.limits _ hv,⟨hv,rfl⟩,fun l' hl hc => ?_⟩
      have hput := Table.put_put d.limits hv hl (show Row.key _ = Row.key l' from hc.symm)
      simp only [Database.apply_append,Database.apply_cons,Database.apply_nil,Write.apply,hput]
    | some l =>
      simp only [hf,Option.isSome_some,if_true,Except.ok.injEq,Prod.mk.injEq,true_and] at h
      subst h
      have hkey : l.callerInstance = caller := Table.key_of_find hf
      have hcheck := Table.check_of_find hf
      simp only [Database.limitOf,hf,Option.getD_some]
      refine ⟨by rw [hkey]; exact hf,⟨hcheck,?_⟩,fun l' hl _ => rfl⟩
      rw [Table.put_of_find d.limits hcheck (by rw [key_limit,hkey,hf])]
      rfl

lemma initializeLimit_error {o : Collation} {t now : Time} {caller : String} {e : SqlError}
    (h : (TxStatement.initializeLimit caller now).execute o t d = .error e) :
    charLengthBetween caller 1 128 = false := by
  simp only [TxStatement.execute] at h
  rw [← Bool.not_eq_true]
  intro hc
  have hv : Row.check (⟨caller,now,0,none⟩ : ExchangeLimit) = true := by
    simp [Row.check,ExchangeLimit.check,hc]
  simp only [writeRow,hv,dite_true,bind,Except.bind,pure,Except.pure] at h
  split_ifs at h

lemma ReserveRateSlot.grant_caller (r : ReserveRateSlot) (l : ExchangeLimit) :
    (r.grant l).2.callerInstance = l.callerInstance := by
  unfold grant
  dsimp only
  split_ifs <;> rfl

lemma ReserveRateSlot.grant_check (r : ReserveRateSlot) {l : ExchangeLimit} (h : Row.check l = true) :
    Row.check (r.grant l).2 = true := by
  simp only [Row.check,ExchangeLimit.check,Bool.and_eq_true,decide_eq_true_eq] at h ⊢
  rw [grant_caller]
  refine ⟨?_,h.2⟩
  unfold grant
  dsimp only
  split_ifs <;> dsimp only <;> omega

lemma Initialized.check {l : ExchangeLimit} {ws : List Write} (h : Initialized d l ws) : Row.check l = true :=
  Table.check_of_find h.find

lemma Initialized.commit {r : ReserveRateSlot} {ws : List Write} {l' : ExchangeLimit}
    (h : Initialized d (d.limitOf r.caller r.now) ws) (hl : (r.grant (d.limitOf r.caller r.now)).2 = l')
    (hv : Row.check l' = true) : SlotCommit r d (d.apply (ws ++ [.limit l' hv])) := by
  subst hl
  rw [h.put _ hv (r.grant_caller _)]
  exact ⟨rfl,rfl,rfl,hv,rfl⟩

lemma wp_decided {r : ReserveRateSlot} {t : Time} {ws : List Write} {ls : List Lock} {operation : String}
    {b : Bool} (hb : (r.grant (d.limitOf r.caller r.now)).1 = b) (hc : SlotCommit r d (d.apply ws)) :
    TxM.wp E good (do commit operation; return b) (fun res s => SlotOutcome good r d res s.2)
      (⟨t,ws,ls,false⟩, d) := by
  subst hb
  exact wp_bind (wp_commit (fun hf => .failed _ _ (.inl hf)) (fun hf => .unacknowledged _ _ hc hf) (.decided _ hc))

/-- The statement that writes the decided row, and the commit after it. -/
lemma wp_written {r : ReserveRateSlot} {t : Time} {ws : List Write} {ls : List Lock} {s : TxStatement}
    {operation operation' : String} {b : Bool} {l' : ExchangeLimit} {f : s.Answer → TxM Bool}
    (hf : ∀ a, f a = do commit operation'; return b)
    (hi : Initialized d (d.limitOf r.caller r.now) ws) (hgrant : r.grant (d.limitOf r.caller r.now) = (b,l'))
    (hv : Row.check l' = true) (hs : ∃ a, s.execute E.collation t (d.apply ws) = .ok (a,[.limit l' hv])) :
    TxM.wp E good (statement operation s >>= f) (fun res s => SlotOutcome good r d res s.2)
      (⟨t,ws,ls,false⟩, d) := by
  obtain ⟨a,hs⟩ := hs
  refine wp_bind (wp_statement ?_ ?_)
  · rintro e l (⟨rfl,hf⟩ | he)
    · exact .failed _ _ (.inl hf)
    · cases hs.symm.trans he
  · intro a' us ls' he
    obtain ⟨rfl,rfl⟩ := Prod.mk.inj (Except.ok.inj (hs.symm.trans he))
    dsimp only
    rw [hf]
    exact wp_decided (by rw [hgrant]) (hi.commit (by rw [hgrant]) hv)

theorem reserveRateSlot_wp (r : ReserveRateSlot) :
    TxM.wp E good (reserveRateSlot r) (fun res s => SlotOutcome good r d res s.2) (Session.fresh, d) := by
  refine wp_bind (wp_begin (fun _ hf => .failed _ _ (.inl hf)) fun t => ?_)
  refine wp_bind (wp_statement ?_ ?_)
  · rintro e l (⟨rfl,hf⟩ | he)
    · exact .failed _ _ (.inl hf)
    · exact .failed _ _ (.inr (initializeLimit_error he))
  intro _ ws ls he
  have hinit := initializeLimit_ok he
  simp only [Database.apply_nil] at hinit
  have hfind := hinit.find
  rw [limitOf_caller] at hfind
  refine wp_bind (wp_statement ?_ ?_)
  · rintro e l (⟨rfl,hf⟩ | he)
    · exact .failed _ _ (.inl hf)
    · simp [TxStatement.execute,hfind] at he
  intro row us ls he
  simp only [TxStatement.execute,List.nil_append,hfind,Except.ok.injEq,Prod.mk.injEq] at he
  obtain ⟨rfl,rfl⟩ := he
  have hcheck := r.grant_check hinit.check
  set l := d.limitOf r.caller r.now with hl
  have hgrant : r.grant l = r.grant l := rfl
  conv at hgrant => rhs; unfold ReserveRateSlot.grant
  simp only [List.nil_append,List.append_nil]
  dsimp only at hgrant ⊢
  generalize (if decide (l.windowStartedAt + seconds r.windowSeconds ≤ r.now) = true then r.now
    else l.windowStartedAt) = windowStartedAt at hgrant ⊢
  generalize (if decide (l.windowStartedAt + seconds r.windowSeconds ≤ r.now) = true then 0
    else l.attempts) = attempts at hgrant ⊢
  split_ifs with hlocked hfull
  · rw [if_pos hlocked] at hgrant
    obtain ⟨hv,hsame⟩ := hinit.same
    refine wp_decided (by rw [← hl,hgrant]) ?_
    rw [hsame]
    exact ⟨rfl,rfl,rfl,by rw [← hl,hgrant]; exact hv,by simp only [← hl,hgrant]⟩
  · rw [if_neg hlocked,if_pos hfull] at hgrant
    rw [hgrant] at hcheck
    refine wp_written (fun _ => rfl) hinit hgrant hcheck ⟨(),?_⟩
    simp only [TxStatement.execute,hfind,writeRow,hcheck,dite_true,bind,Except.bind,pure,Except.pure]
  · rw [if_neg hlocked,if_neg hfull] at hgrant
    rw [hgrant] at hcheck
    refine wp_written (fun _ => rfl) hinit hgrant hcheck ⟨(),?_⟩
    simp only [TxStatement.execute,hfind,writeRow,hcheck,dite_true,bind,Except.bind,pure,Except.pure]

end Others

/-- What a transaction can lead to. -/
def Transaction.Outcome (E : Environment) (good : TxOp → Choice → Bool) (d : Database) :
    (t : Transaction) → t.Result → Database → Prop
  | .completeSuccess key nonce ciphertext => CompleteOutcome key nonce ciphertext d
  | .createAccount r => CreateOutcome E r d
  | .rotateAccount r => RotateOutcome E good r d
  | .revokeAccount r => RevokeOutcome E r d
  | .markExchangeIssuing r => AdmitOutcome good r d
  | .reserveRateSlot r => SlotOutcome good r d

/-- A run of a transaction by itself, under admitted choices, has one of its outcomes. -/
theorem Transaction.run_outcome {E : Environment} {good : TxOp → Choice → Bool} {t : Transaction}
    {cs : List Choice} {d d' : Database} {l : Session} {res : t.Result}
    (h : t.body.run ((TxOp.handle E).restrict good) cs (Session.fresh, d) = some (res, (l, d'))) :
    t.Outcome E good d res d' := by
  cases t with
  | completeSuccess key nonce ciphertext =>
    have hw := Program.wp_run ((TxOp.handle E).restrict good) (completeSuccessOwned_wp key nonce ciphertext) h
    exact hw
  | createAccount r =>
    have hw := Program.wp_run ((TxOp.handle E).restrict good) (createAccount_wp r) h
    exact hw
  | rotateAccount r =>
    have hw := Program.wp_run ((TxOp.handle E).restrict good) (rotateAccount_wp r) h
    exact hw
  | revokeAccount r =>
    have hw := Program.wp_run ((TxOp.handle E).restrict good) (revokeAccount_wp r) h
    exact hw
  | markExchangeIssuing r =>
    have hw := Program.wp_run ((TxOp.handle E).restrict good) (markExchangeIssuing_wp r) h
    exact hw
  | reserveRateSlot r =>
    have hw := Program.wp_run ((TxOp.handle E).restrict good) (reserveRateSlot_wp r) h
    exact hw

/-- A transaction as one operation has one of its outcomes. -/
theorem Transaction.outcome {E : Environment} {t : Transaction} {cs : List Choice} {d d' : Database}
    {res : t.Result} (h : (store E).serial (.transact t) (.inr cs) d = some (res, d')) :
    t.Outcome E (fun _ _ => true) d res d' := by
  simp only [Store.serial] at h
  split at h
  · next r l s hr =>
    simp only [Option.some.injEq,Prod.mk.injEq] at h
    obtain ⟨rfl,rfl⟩ := h
    exact Transaction.run_outcome (l := l) hr
  · contradiction

/-- The choices under which the database does not fail and random bytes are there. -/
def faultless : TxOp → Choice → Bool
  | .getrandom count, c => c.fault.isNone && (c.fill count).isSome
  | _, c => c.fault.isNone

lemma not_faulty : ¬Faulty faultless := by
  rintro ⟨o,c,hc,hf⟩
  have hnone : c.fault.isNone = true := by
    cases o <;> simp only [faultless,Bool.and_eq_true] at hc <;> first | exact hc | exact hc.1
  exact hf (by simpa using hnone)

/-- A run of a transaction in which nothing that it asks for fails. -/
def FaultlessRun (E : Environment) (t : Transaction) (d : Database) (res : t.Result) (d' : Database) : Prop :=
  ∃ cs l, t.body.run ((TxOp.handle E).restrict faultless) cs (Session.fresh, d) = some (res, (l, d'))

theorem FaultlessRun.outcome {E : Environment} {t : Transaction} {d d' : Database} {res : t.Result}
    (h : FaultlessRun E t d res d') : t.Outcome E faultless d res d' := by
  obtain ⟨cs,l,hrun⟩ := h
  exact Transaction.run_outcome hrun

/-- It is one of the runs of the transaction as an operation. -/
theorem FaultlessRun.serial {E : Environment} {t : Transaction} {d d' : Database} {res : t.Result}
    (h : FaultlessRun E t d res d') : ∃ cs, (store E).serial (.transact t) (.inr cs) d = some (res, d') := by
  obtain ⟨cs,l,hrun⟩ := h
  have hrun' : ((store E).body t).run (store E).within cs ((store E).fresh, d) = some (res, (l, d')) :=
    Program.run_of_restrict hrun
  exact ⟨cs,by simp only [Store.serial,hrun']⟩

/-- Every transaction has such a run. -/
theorem exists_faultlessRun (E : Environment) (t : Transaction) (d : Database) :
    ∃ res d', FaultlessRun E t d res d' := by
  have htotal : ∀ o s, ∃ c, (TxOp.handle E).restrict faultless o c s ≠ none := by
    intro o ⟨l,d⟩
    cases o with
    | getrandom count =>
      refine ⟨{ entropy := some (List.replicate count 0) },?_⟩
      simp [Program.Handler.restrict,faultless,Choice.fill,Option.filter,TxOp.handle]
    | execute s =>
      refine ⟨{},?_⟩
      simp only [Program.Handler.restrict,faultless,TxOp.handle]
      cases s.execute E.collation l.startedAt (l.view d) <;> cases l.aborted <;> simp
    | commit =>
      refine ⟨{},?_⟩
      cases hl : l.aborted <;> simp [Program.Handler.restrict,faultless,TxOp.handle,hl]
    | _ => exact ⟨{},by simp [Program.Handler.restrict,faultless,TxOp.handle]⟩
  obtain ⟨cs,res,⟨l,d'⟩,hrun⟩ := Program.exists_run htotal t.body (Session.fresh, d)
  exact ⟨res,d',cs,l,hrun⟩


/-- The commit completes the command with the receipt of `x`. -/
inductive Completes {α : Type} (key : CommandKey) (receipt : Sealing α) (x : α) (d d' : Database) : Prop
  | mk (t : Time) (c : Command) (nonce ciphertext : Bytes) (hc : d.commands.find key = some c)
      (hcomp : c.status.completable = true)
      (hcommands : ∃ h, d'.commands = d.commands.put (c.succeed t nonce ciphertext) h)
      (hr : (receipt x).run.Outcome Filled (.ok (nonce, ciphertext)))

lemma CreateCommit.completes {E : Environment} {r : CreateAccount} {d d' : Database} {row : AccountRow}
    (h : CreateCommit E r d row d') : Completes r.key r.receipt row d d' := by
  cases h with
  | mk t c nonce ciphertext _ _ _ _ _ hc hcomp _ _ hcommands _ hr =>
    exact .mk t c nonce ciphertext hc hcomp hcommands hr

lemma RotateCommit.completes {E : Environment} {r : RotateAccount} {d d' : Database} {row : AccountRow}
    (h : RotateCommit E r d row d') : Completes r.key r.receipt row d d' := by
  cases h with
  | mk t a c nonce ciphertext _ _ _ _ _ _ hc hcomp _ _ hcommands _ hr =>
    exact .mk t c nonce ciphertext hc hcomp hcommands hr

lemma RevokeCommit.completes {E : Environment} {r : RevokeAccount} {d d' : Database}
    {result : AccountRow × Bool} (h : RevokeCommit E r d result d') :
    Completes r.key r.receipt result d d' := by
  cases h with
  | changed t now a c nonce ciphertext _ _ _ _ hc hcomp _ _ hcommands _ hr =>
    exact .mk t c nonce ciphertext hc hcomp hcommands hr
  | unchanged t a c nonce ciphertext _ _ _ _ hc hcomp _ _ hcommands _ hr =>
    exact .mk t c nonce ciphertext hc hcomp hcommands hr

end LensoServiceAccount
