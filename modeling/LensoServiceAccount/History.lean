import LensoServiceAccount.Storage.Locks
import LensoServiceAccount.Storage.Outcome

/-! The history of a run as the two tables of accounts and credentials see it. -/

namespace LensoServiceAccount

/-- One step of a run over the database. -/
abbrev Step (κ ρ : Type) := Event κ Effect Effect.Ans ρ Database

/-- The transaction that a step performs. -/
def transactionOf {κ ρ : Type} (e : Step κ ρ) : Option Transaction :=
  match e.action with
  | .perform (.transact t) _ => some t
  | _ => none

/-- What a step does to accounts and credentials: nothing, or what a committed transaction does. -/
inductive Mutates (E : Environment) (d d' : Database) : Option Transaction → Prop
  | nothing (t : Option Transaction) (ha : d'.accounts = d.accounts)
      (hc : d'.credentials = d.credentials) : Mutates E d d' t
  | created (r : CreateAccount) (row : AccountRow) (h : CreateCommit E r d row d') :
      Mutates E d d' (some (.createAccount r))
  | rotated (r : RotateAccount) (row : AccountRow) (h : RotateCommit E r d row d') :
      Mutates E d d' (some (.rotateAccount r))
  | revoked (r : RevokeAccount) (result : AccountRow × Bool) (h : RevokeCommit E r d result d') :
      Mutates E d d' (some (.revokeAccount r))
  | used (r : MarkExchangeIssuing) (row : CredentialRow) (h : AdmitCommit r d row d') :
      Mutates E d d' (some (.markExchangeIssuing r))

section Legal
variable {E : Environment} {d d' : Database}

/-- Statements on the pool write commands only. -/
lemma Statement.execute_tables {o : Collation} {now : Time} {s : Statement} {a : s.Answer}
    (h : s.execute o now d = .ok (a, d')) :
    d'.accounts = d.accounts ∧ d'.credentials = d.credentials ∧ d'.limits = d.limits := by
  cases s with
  | prune receiptTtlSeconds =>
    simp only [Statement.execute,Except.ok.injEq,Prod.mk.injEq,true_and] at h
    subst h
    exact ⟨rfl,rfl,rfl⟩
  | reserveCommand key intentHash =>
    simp only [Statement.execute] at h
    cases hw : writeRow Write.command (reservedCommand now key intentHash) with
    | error e => simp [hw,bind,Except.bind] at h
    | ok w =>
      obtain ⟨hv,rfl⟩ := writeRow_ok.mp hw
      simp only [hw,bind,Except.bind,pure,Except.pure] at h
      split_ifs at h <;> simp only [Except.ok.injEq,Prod.mk.injEq] at h <;> obtain ⟨-,rfl⟩ := h <;>
        exact ⟨rfl,rfl,rfl⟩
  | completeFailedCommand key errorCode =>
    simp only [Statement.execute] at h
    cases hf : (d.commands.find key).filter fun c => c.status.completable with
    | none =>
      simp only [hf,Except.ok.injEq,Prod.mk.injEq] at h
      obtain ⟨-,rfl⟩ := h
      exact ⟨rfl,rfl,rfl⟩
    | some k =>
      simp only [hf] at h
      cases hw : writeRow Write.command (k.fail now errorCode) with
      | error e => simp [hw,bind,Except.bind] at h
      | ok w =>
        obtain ⟨hv,rfl⟩ := writeRow_ok.mp hw
        simp only [hw,bind,Except.bind,pure,Except.pure,Except.ok.injEq,Prod.mk.injEq] at h
        obtain ⟨-,rfl⟩ := h
        exact ⟨rfl,rfl,rfl⟩
  | loadCommand key =>
    simp only [Statement.execute] at h
    split at h
    · simp only [Except.ok.injEq,Prod.mk.injEq] at h
      obtain ⟨-,rfl⟩ := h
      exact ⟨rfl,rfl,rfl⟩
    · contradiction
  | loadAccount organizationId serviceAccountId =>
    simp only [Statement.execute,Except.ok.injEq,Prod.mk.injEq] at h
    obtain ⟨-,rfl⟩ := h
    exact ⟨rfl,rfl,rfl⟩
  | listAccounts organizationId after limitPlusOne =>
    simp only [Statement.execute,Except.ok.injEq,Prod.mk.injEq] at h
    obtain ⟨-,rfl⟩ := h
    exact ⟨rfl,rfl,rfl⟩
  | loadCredential credentialId =>
    simp only [Statement.execute,Except.ok.injEq,Prod.mk.injEq] at h
    obtain ⟨-,rfl⟩ := h
    exact ⟨rfl,rfl,rfl⟩
  | inspectCommand key =>
    simp only [Statement.execute,Except.ok.injEq,Prod.mk.injEq] at h
    obtain ⟨-,rfl⟩ := h
    exact ⟨rfl,rfl,rfl⟩

/-- So do the other operations outside of transactions. -/
lemma pool_tables {o : Op} {a : o.Ans} {ch : Choice ⊕ List Choice}
    (h : (store E).serial (.pool o) ch d = some (a, d')) :
    d'.accounts = d.accounts ∧ d'.credentials = d.credentials ∧ d'.limits = d.limits := by
  cases ch with
  | inr cs => simp [Store.serial] at h
  | inl c =>
    rcases Op.handle_cases (h : Op.handle E o c d = some (a,d')) with rfl | ⟨s,b,-,he⟩
    · exact ⟨rfl,rfl,rfl⟩
    · exact Statement.execute_tables he

lemma Transaction.mutates {t : Transaction} {res : t.Result} {good : TxOp → Choice → Bool}
    (h : t.Outcome E good d res d') : Mutates E d d' (some t) := by
  cases t with
  | completeSuccess key nonce ciphertext => cases h <;> exact .nothing _ rfl rfl
  | createAccount r =>
    cases h with
    | failed e h => exact .nothing _ rfl rfl
    | full h => exact .nothing _ rfl rfl
    | created row _ h => exact .created r row h
    | unacknowledged row _ h => exact .created r row h
  | rotateAccount r =>
    cases h with
    | updated row _ h => exact .rotated r row h
    | unacknowledged row _ h hf => exact .rotated r row h
    | _ => exact .nothing _ rfl rfl
  | revokeAccount r =>
    cases h with
    | updated result _ h => exact .revoked r result h
    | unacknowledged result _ h => exact .revoked r result h
    | _ => exact .nothing _ rfl rfl
  | markExchangeIssuing r =>
    cases h with
    | admitted row _ h => exact .used r row h
    | unacknowledged row _ h hf => exact .used r row h
    | _ => exact .nothing _ rfl rfl
  | reserveRateSlot r => exact .nothing _ h.tables.1 h.tables.2.1

/-- A step that performs a transaction has one of its outcomes. -/
lemma outcome_of_legal {κ ρ : Type} {e : Step κ ρ} {t : Transaction} {res : t.Result}
    (hl : e.Legal (store E).serial) (ha : e.action = .perform (.transact t) res) :
    t.Outcome E (fun _ _ => true) e.before res e.after := by
  simp only [Event.Legal,ha] at hl
  obtain ⟨c | cs,hc⟩ := hl
  · simp [Store.serial] at hc
  · exact Transaction.outcome hc

theorem mutates_of_legal {κ ρ : Type} {e : Step κ ρ} (hl : e.Legal (store E).serial) :
    Mutates E e.before e.after (transactionOf e) := by
  cases ha : e.action with
  | perform o a =>
    cases o with
    | pool o =>
      simp only [Event.Legal,ha] at hl
      obtain ⟨ch,hc⟩ := hl
      exact .nothing _ (pool_tables hc).1 (pool_tables hc).2.1
    | transact t =>
      have ht : transactionOf e = some t := by simp only [transactionOf,ha]
      rw [ht]
      exact Transaction.mutates (outcome_of_legal hl ha)
  | _ =>
    simp only [Event.Legal,ha] at hl
    exact .nothing _ (by rw [hl]) (by rw [hl])

end Legal

/-- A later version of a credential: the same secret of the same account, at most shortened and
never back from its revocation. -/
structure Credential.Evolves (c c' : Credential) : Prop where
  credentialId : c'.credentialId = c.credentialId
  serviceAccountId : c'.serviceAccountId = c.serviceAccountId
  verifier : c'.verifier = c.verifier
  validFrom : c'.validFrom = c.validFrom
  createdAt : c'.createdAt = c.createdAt
  validUntil : c'.validUntil ≤ c.validUntil
  revokedAt : c.revokedAt.isSome = true → c'.revokedAt.isSome = true

/-- A later version of an account: the same identity, and no way back from its revocation. -/
structure Account.Evolves (a a' : Account) : Prop where
  serviceAccountId : a'.serviceAccountId = a.serviceAccountId
  organizationId : a'.organizationId = a.organizationId
  subject : a'.subject = a.subject
  nameKey : a'.nameKey = a.nameKey
  revision : a.revision ≤ a'.revision
  status : a.status = .revoked → a' = a

section Evolution
variable {E : Environment} {d d' : Database} {t : Option Transaction}

@[simp] lemma Credential.Evolves.refl (c : Credential) : c.Evolves c := ⟨rfl,rfl,rfl,rfl,rfl,le_rfl,id⟩

@[simp] lemma Account.Evolves.refl (a : Account) : a.Evolves a := ⟨rfl,rfl,rfl,rfl,le_rfl,fun _ => rfl⟩

lemma RotateAccount.boundFor_evolves (r : RotateAccount) (c : Credential) : c.Evolves (r.boundFor c) := by
  unfold RotateAccount.boundFor
  split_ifs
  · exact ⟨rfl,rfl,rfl,rfl,rfl,min_le_left _ _,id⟩
  · exact .refl c

lemma Credential.revokeFor_evolves (id : String) (now : Time) {c : Credential} (h : Row.check c = true) :
    c.Evolves (c.revokeFor id now) := by
  unfold Credential.revokeFor
  split_ifs
  · have hle : c.validFrom ≤ c.validUntil := by
      simp only [Row.check,Credential.check,Bool.and_eq_true,decide_eq_true_eq] at h
      exact h.2
    exact ⟨rfl,rfl,rfl,rfl,rfl,max_le hle (min_le_left _ _),fun _ => rfl⟩
  · exact .refl c

/-- What a use of a credential does to a row of the table. -/
def Credential.useFor (credentialId : String) (now : Time) (c : Credential) : Credential :=
  if c.credentialId = credentialId then { c with lastUsedAt := some now } else c

lemma Credential.useFor_evolves (k : String) (now : Time) (c : Credential) : c.Evolves (c.useFor k now) := by
  unfold Credential.useFor
  split_ifs
  · exact ⟨rfl,rfl,rfl,rfl,rfl,le_rfl,id⟩
  · exact .refl c

lemma AdmitCommit.credentials {r : MarkExchangeIssuing} {row : CredentialRow} (h : AdmitCommit r d row d') :
    d'.credentials.rows = d.credentials.rows.map (Credential.useFor r.credentialId r.now) := by
  obtain ⟨a,c,k,_,ha,hactive,hc,hid,hvalid,hk,hreserved,haccounts,⟨hv,hcredentials⟩,-,-⟩ := h
  have hkey : c.credentialId = r.credentialId := Table.key_of_find hc
  have hfind : d.credentials.find (Row.key { c with lastUsedAt := some r.now }) = some c := by
    rw [key_credential,hkey,hc]
  rw [hcredentials,Table.rows_put_of_old _ hv hfind]
  apply List.map_congr_left
  intro x hx
  simp only [key_credential,hkey,Credential.useFor]
  split_ifs with he
  · have hfx := Table.find_of_mem hx
    rw [key_credential,he,hc] at hfx
    obtain rfl := Option.some.inj hfx
    rw [hkey]
  · rfl

/-- Credentials stay in their place and evolve; new ones come at the end. -/
theorem Mutates.credentials (h : Mutates E d d' t) : ∃ f new,
    d'.credentials.rows = d.credentials.rows.map f ++ new ∧ ∀ c ∈ d.credentials.rows, c.Evolves (f c) := by
  cases h with
  | nothing _ ha hc => exact ⟨id,[],by simp [hc],fun c _ => .refl c⟩
  | created r row h =>
    obtain ⟨t,c,nonce,ciphertext,_,-,-,-,hnew,-,-,-,⟨hv,hcredentials⟩,-⟩ := h
    exact ⟨id,[_],by rw [hcredentials,Table.rows_put_of_new _ hv hnew,List.map_id],fun c _ => .refl c⟩
  | rotated r row h =>
    obtain ⟨t,a,c,nonce,ciphertext,_,-,-,-,-,-,-,-,-,hcredentials,-⟩ := h
    exact ⟨r.boundFor,_,hcredentials,fun c _ => r.boundFor_evolves c⟩
  | revoked r result h =>
    cases h with
    | changed t now a c nonce ciphertext _ ha hactive hrevision hc hcomp haccounts hcredentials =>
      exact ⟨Credential.revokeFor r.serviceAccountId now,[],by simp [hcredentials],
        fun c hc => Credential.revokeFor_evolves _ now (d.credentials.checked c hc)⟩
    | unchanged t a c nonce ciphertext _ ha hrevoked hrevision hc hcomp haccounts hcredentials =>
      exact ⟨id,[],by simp [hcredentials],fun c _ => .refl c⟩
  | used r row h =>
    exact ⟨Credential.useFor r.credentialId r.now,[],by simp [h.credentials],
      fun c _ => Credential.useFor_evolves _ _ c⟩

/-- What a step does to the accounts: nothing, a later version of one, or a new one. -/
inductive AccountsStep (E : Environment) (d d' : Database) : Option Transaction → Prop
  | same (t : Option Transaction) (h : d'.accounts = d.accounts) : AccountsStep E d d' t
  | evolved (t : Option Transaction) (a b : Account) (hv : Row.check b = true) (ha : d.accounts.find a.serviceAccountId = some a)
      (hev : a.Evolves b) (h : d'.accounts = d.accounts.put b hv) : AccountsStep E d d' t
  | created (r : CreateAccount) (row : AccountRow) (h : CreateCommit E r d row d') :
      AccountsStep E d d' (some (.createAccount r))

lemma Account.rotate_evolves (validFrom : Time) {a : Account} (h : a.status = .active) :
    a.Evolves (a.rotate validFrom) := by
  refine ⟨rfl,rfl,rfl,rfl,?_,fun hr => absurd (hr.symm.trans h) (by simp)⟩
  change a.revision ≤ a.revision + 1
  omega

lemma Account.revoke_evolves (now : Time) {a : Account} (h : a.status = .active) : a.Evolves (a.revoke now) := by
  refine ⟨rfl,rfl,rfl,rfl,?_,fun hr => absurd (hr.symm.trans h) (by simp)⟩
  change a.revision ≤ a.revision + 1
  omega

lemma find_of_accountIn {organizationId serviceAccountId : String} {a : Account}
    (h : d.accountIn organizationId serviceAccountId = some a) : d.accounts.find a.serviceAccountId = some a := by
  have hfind := (accountIn_eq_some.mp h).1
  have hkey : a.serviceAccountId = serviceAccountId := Table.key_of_find hfind
  rwa [hkey]

theorem Mutates.accountsStep (h : Mutates E d d' t) : AccountsStep E d d' t := by
  cases h with
  | nothing _ ha hc => exact .same _ ha
  | created r row hc => exact .created r row hc
  | used r row hc =>
    obtain ⟨a,c,k,_,-,-,-,-,-,-,-,ha,-⟩ := hc
    exact .same _ ha
  | rotated r row hc =>
    obtain ⟨t,a,c,nonce,ciphertext,_,hin,hactive,-,-,-,-,-,⟨hv,ha⟩,-⟩ := hc
    exact .evolved _ a _ hv (find_of_accountIn hin) (Account.rotate_evolves _ hactive) ha
  | revoked r result hc =>
    cases hc with
    | unchanged t a c nonce ciphertext _ _ _ _ _ _ ha => exact .same _ ha
    | changed t now a c nonce ciphertext _ hin hactive hrevision hc hcomp ha =>
      obtain ⟨hv,ha⟩ := ha
      exact .evolved _ a _ hv (find_of_accountIn hin) (Account.revoke_evolves now hactive) ha

/-- Accounts evolve and are never deleted. -/
theorem AccountsStep.accounts (h : AccountsStep E d d' t) {id : String} {a : Account}
    (ha : d.accounts.find id = some a) : ∃ a', d'.accounts.find id = some a' ∧ a.Evolves a' := by
  cases h with
  | same _ h => exact ⟨a,by rw [h,ha],.refl a⟩
  | evolved _ b b' hv hb hev hd =>
    rw [hd,Table.find_put,key_account,hev.serviceAccountId]
    by_cases hid : b.serviceAccountId = id
    · rw [hid,ha] at hb
      obtain rfl := Option.some.inj hb
      exact ⟨b',by rw [if_pos hid],hev⟩
    · exact ⟨a,by rw [if_neg hid,ha],.refl a⟩
  | created r row h =>
    obtain ⟨t,c,nonce,ciphertext,_,hnew,-,-,-,-,-,⟨hv,haccounts⟩,-⟩ := h
    have hne : r.serviceAccountId ≠ id := by
      rintro rfl
      exact absurd (hnew.symm.trans ha) (by simp)
    exact ⟨a,by rw [haccounts]; exact (Table.find_put_of_ne _ hv hne).trans ha,.refl a⟩

theorem Mutates.accounts (h : Mutates E d d' t) {id : String} {a : Account}
    (ha : d.accounts.find id = some a) : ∃ a', d'.accounts.find id = some a' ∧ a.Evolves a' :=
  h.accountsStep.accounts ha

end Evolution
end LensoServiceAccount
