import LensoServiceAccount.Evidence

/-! The expiry that is reported for an account: it is that of the credential whose transaction began
last, which need not be the one that was inserted last. -/

namespace LensoServiceAccount

section Order
variable {o : Collation}

lemma Credential.precedes_refl (c : Credential) : c.precedes o c = true := by
  simp [Credential.precedes,o.refl]

lemma Credential.precedes_antisymm {c d : Credential} (h : c.precedes o d = true) (h' : d.precedes o c = true) :
    c.credentialId = d.credentialId := by
  simp only [Credential.precedes,Bool.or_eq_true,Bool.and_eq_true,beq_iff_eq,decide_eq_true_eq] at h h'
  rcases h with h | ⟨he,hc⟩
  · rcases h' with h' | ⟨he',-⟩
    · exact absurd h' (lt_asymm h)
    · exact absurd he' h.ne
  · rcases h' with h' | ⟨-,hd⟩
    · exact absurd he h'.ne
    · exact o.antisymm _ _ hd hc

lemma Credential.Evolves.precedes {x x' y y' : Credential} (hx : x.Evolves x') (hy : y.Evolves y') :
    x'.precedes o y' = x.precedes o y := by
  rw [Credential.precedes,Credential.precedes,hx.createdAt,hy.createdAt,hx.credentialId,hy.credentialId]

lemma mem_of_latestCredential {cs : List Credential} {x : Credential} (h : latestCredential o cs = some x) :
    x ∈ cs := by
  induction cs generalizing x with
  | nil => cases h
  | cons c cs ih =>
    rw [latestCredential] at h
    cases hl : latestCredential o cs with
    | none =>
      rw [hl] at h
      obtain rfl := Option.some.inj h
      exact List.mem_cons_self
    | some d =>
      simp only [hl] at h
      split_ifs at h
      · obtain rfl := Option.some.inj h
        exact List.mem_cons_self
      · obtain rfl := Option.some.inj h
        exact List.mem_cons_of_mem _ (ih hl)

/-- A credential that comes before all others is the first one. -/
lemma latestCredential_eq {cs : List Credential} (hn : (cs.map Credential.credentialId).Nodup) {x : Credential}
    (hx : x ∈ cs) (h : ∀ y ∈ cs, x.precedes o y = true) : latestCredential o cs = some x := by
  induction cs with
  | nil => cases hx
  | cons c cs ih =>
    rw [List.map_cons,List.nodup_cons] at hn
    have hcs := fun y hy => h y (List.mem_cons_of_mem c hy)
    rw [latestCredential]
    rcases List.mem_cons.mp hx with rfl | hx
    · cases hd : latestCredential o cs with
      | none => rfl
      | some d => simp only [hcs d (mem_of_latestCredential hd),if_true]
    · have hne : c.credentialId ≠ x.credentialId := by
        intro he
        exact hn.1 (he ▸ List.mem_map_of_mem hx)
      have hno : ¬c.precedes o x = true := fun hc => hne (Credential.precedes_antisymm hc (h c (by simp)))
      simp only [ih hn.2 hx hcs,if_neg hno]

end Order

section Steps
variable {κ ρ : Type} {E : Environment} {tr : List (Step κ ρ)} {d : Database} {e : Step κ ρ} {id : String}
  {i : Insertion}

/-- The transaction of an inserted credential began later than those of the earlier credentials of the
account, or at the same instant and the id of the credential is larger. -/
def Foremost (E : Environment) (e : Step κ ρ) : Prop :=
  ∀ i x, Inserts e i → e.after.credentials.find i.credentialId = some x →
    ∀ y ∈ e.before.credentialsOf i.serviceAccountId, x.precedes E.collation y = true

/-- The step is the last one to insert a credential of the account. -/
inductive LastInserted (id : String) : List (Step κ ρ) → Step κ ρ → Insertion → Prop
  | here {tr : List (Step κ ρ)} {e : Step κ ρ} {i : Insertion} (h : Inserts e i)
      (hid : i.serviceAccountId = id) : LastInserted id (e :: tr) e i
  | later {tr : List (Step κ ρ)} {e x : Step κ ρ} {i : Insertion} (h : LastInserted id tr e i)
      (hno : ∀ j, Inserts x j → j.serviceAccountId ≠ id) : LastInserted id (x :: tr) e i

/-- The inserted credential comes before all others of its account. -/
def Heads (o : Collation) (d : Database) (i : Insertion) : Prop :=
  ∃ x, d.credentials.find i.credentialId = some x ∧ x.serviceAccountId = i.serviceAccountId ∧
    ∀ y ∈ d.credentialsOf i.serviceAccountId, x.precedes o y = true

/-- Credentials evolve, and what is new is inserted. -/
theorem credentials_of_legal (hl : e.Legal (store E).serial) : ∃ f new,
    e.after.credentials.rows = e.before.credentials.rows.map f ++ new ∧
    (∀ c ∈ e.before.credentials.rows, c.Evolves (f c)) ∧ ∀ x ∈ new, ∃ i, Inserts e i ∧
      x.credentialId = i.credentialId ∧ x.serviceAccountId = i.serviceAccountId := by
  have hm := mutates_of_legal hl
  generalize ht : transactionOf e = t at hm
  cases hm with
  | nothing _ ha hc => exact ⟨fun c => c,[],by simp [hc],fun c _ => .refl c,by simp⟩
  | created r row h =>
    obtain ⟨t,c,nonce,ciphertext,_,-,-,-,hnew,-,-,-,⟨hv,hcredentials⟩,-⟩ := h
    have hrows := Table.rows_put_of_new e.before.credentials hv hnew
    rw [← hcredentials] at hrows
    have hi := inserts_of_find ht rfl hnew (find_new hrows)
    refine ⟨fun c => c,_,by rw [hrows,List.map_id'],fun c _ => .refl c,fun x hx => ⟨_,hi,?_⟩⟩
    obtain rfl := List.mem_singleton.mp hx
    exact ⟨rfl,rfl⟩
  | rotated r row h =>
    obtain ⟨t,a,c,nonce,ciphertext,_,-,-,-,-,hnew,-,-,-,hrows,-⟩ := h
    have hi := inserts_of_find ht rfl hnew (find_new hrows)
    refine ⟨r.boundFor,_,hrows,fun c _ => r.boundFor_evolves c,fun x hx => ⟨_,hi,?_⟩⟩
    obtain rfl := List.mem_singleton.mp hx
    exact ⟨rfl,rfl⟩
  | revoked r result h =>
    cases h with
    | changed t now a c nonce ciphertext _ ha hactive hrevision hc hcomp haccounts hcredentials =>
      exact ⟨Credential.revokeFor r.serviceAccountId now,[],by simp [hcredentials],
        fun c hc => Credential.revokeFor_evolves _ now (e.before.credentials.checked c hc),by simp⟩
    | unchanged t a c nonce ciphertext _ ha hrevoked hrevision hc hcomp haccounts hcredentials =>
      exact ⟨fun c => c,[],by simp [hcredentials],fun c _ => .refl c,by simp⟩
  | used r row h =>
    exact ⟨Credential.useFor r.credentialId r.now,[],by simp [h.credentials],
      fun c _ => Credential.useFor_evolves _ _ c,by simp⟩

lemma Inserts.unique {j : Insertion} (h : Inserts e i) (h' : Inserts e j) : i = j :=
  Option.some.inj (h.transaction.symm.trans h'.transaction)

lemma Heads.inserted (hl : e.Legal (store E).serial) (hi : Inserts e i) (hf : Foremost E e) :
    Heads E.collation e.after i := by
  obtain ⟨x,hx,hid,-⟩ := hi.row hl
  obtain ⟨f,new,hrows,hev,hnew⟩ := credentials_of_legal hl
  refine ⟨x,hx,hid,fun y hy => ?_⟩
  rw [credentialsOf_form hrows fun c hc => (hev c hc).serviceAccountId] at hy
  rcases List.mem_append.mp hy with hy | hy
  · obtain ⟨z,hz,rfl⟩ := List.mem_map.mp hy
    have hez := hev z (mem_of_credentialsOf hz).1
    rw [(Credential.Evolves.refl x).precedes hez]
    exact hf i x hi hx z hz
  · obtain ⟨j,hj,hcredential,-⟩ := hnew y (List.mem_of_mem_filter hy)
    obtain rfl := hi.unique hj
    have hmem : y ∈ e.after.credentials.rows := by
      rw [hrows]
      exact List.mem_append_right _ (List.mem_of_mem_filter hy)
    have hfind := Table.find_of_mem hmem
    rw [key_credential,hcredential,hx] at hfind
    obtain rfl := Option.some.inj hfind
    exact x.precedes_refl

lemma Heads.step (h : Heads E.collation e.before i) (hl : e.Legal (store E).serial)
    (hno : ∀ j, Inserts e j → j.serviceAccountId ≠ i.serviceAccountId) : Heads E.collation e.after i := by
  obtain ⟨x,hx,hid,hfirst⟩ := h
  obtain ⟨f,new,hrows,hev,hnew⟩ := credentials_of_legal hl
  have hex := hev x (Table.mem_of_find hx)
  refine ⟨f x,find_form hrows hex.credentialId hx,hex.serviceAccountId.trans hid,fun y hy => ?_⟩
  rw [credentialsOf_form hrows fun c hc => (hev c hc).serviceAccountId] at hy
  rcases List.mem_append.mp hy with hy | hy
  · obtain ⟨z,hz,rfl⟩ := List.mem_map.mp hy
    rw [hex.precedes (hev z (mem_of_credentialsOf hz).1)]
    exact hfirst z hz
  · obtain ⟨j,hj,-,haccount⟩ := hnew y (List.mem_of_mem_filter hy)
    have hid := (List.mem_filter.mp hy).2
    rw [decide_eq_true_eq,haccount] at hid
    exact absurd hid (hno j hj)

/-- An account that is there was there before or has got its first credential. -/
lemma account_of_legal (hl : e.Legal (store E).serial) {a : Account} (ha : e.after.accounts.find id = some a) :
    (∃ b, e.before.accounts.find id = some b) ∨ ∃ i, Inserts e i ∧ i.serviceAccountId = id := by
  have hs := (mutates_of_legal hl).accountsStep
  generalize ht : transactionOf e = t at hs
  cases hs with
  | same _ h => exact .inl ⟨a,by rw [← h,ha]⟩
  | evolved _ b b' hv hb hev h =>
    rw [h,Table.find_put,key_account,hev.serviceAccountId] at ha
    split_ifs at ha with hid
    · exact .inl ⟨b,by rw [← hid]; exact hb⟩
    · exact .inl ⟨a,ha⟩
  | created r row h =>
    obtain ⟨t,c,nonce,ciphertext,_,-,-,-,hnew,-,-,⟨hv,haccounts⟩,⟨hv',hcredentials⟩,-⟩ := h
    rw [haccounts,Table.find_put] at ha
    split_ifs at ha with hid
    · have hrows := Table.rows_put_of_new e.before.credentials hv' hnew
      rw [← hcredentials] at hrows
      exact .inr ⟨_,inserts_of_find ht rfl hnew (find_new hrows),hid⟩
    · exact .inl ⟨a,ha⟩

/-- The expiry that is shown for an account whose newest credential comes first. -/
lemma Heads.latest {o : Collation} (h : Heads o d i) : ∃ x, d.credentials.find i.credentialId = some x ∧
    latestCredential o (d.credentialsOf i.serviceAccountId) = some x := by
  obtain ⟨x,hx,hid,hfirst⟩ := h
  have hmem : x ∈ d.credentialsOf i.serviceAccountId := by
    simp [Database.credentialsOf,Table.mem_of_find hx,hid]
  have hsub : (d.credentialsOf i.serviceAccountId).Sublist d.credentials.rows := List.filter_sublist
  exact ⟨x,hx,latestCredential_eq (d.credentials.nodup.sublist (hsub.map Credential.credentialId)) hmem hfirst⟩

/-- A rotation that bounds the credentials of an account inserts one. -/
lemma inserts_of_boundOf (hl : e.Legal (store E).serial) {u : Time} (h : boundOf id e = some u) :
    ∃ j, Inserts e j ∧ j.serviceAccountId = id := by
  have hm := mutates_of_legal hl
  generalize ht : transactionOf e = t at hm
  simp only [boundOf,ht] at h
  cases hm with
  | nothing _ ha hc =>
    have hrotates : rotates id e = false := rotates_eq_false (fun _ _ => ha.symm) id
    simp only [hrotates] at h
    split at h <;> simp at h
  | rotated r row hc =>
    have hrotates : rotates id e = true := by
      simp only at h
      split_ifs at h with hr
      exact hr
    have hid : r.serviceAccountId = id := by
      simp only [rotates,ht,Bool.and_eq_true,beq_iff_eq] at hrotates
      exact hrotates.1
    obtain ⟨t,a,c,nonce,ciphertext,_,-,-,-,-,hnew,-,-,-,hrows,-⟩ := hc
    exact ⟨_,inserts_of_find ht rfl hnew (find_new hrows),hid⟩
  | created r row hc => cases h
  | revoked r result hc => cases h
  | used r row hc => cases h

lemma LastInserted.split (h : LastInserted id tr e i) (hl : ∀ x ∈ tr, x.Legal (store E).serial) :
    i.serviceAccountId = id ∧ ∃ post pre, tr = post ++ e :: pre ∧ Inserts e i ∧
      ∀ v, lifetimeEnd id v post = v := by
  induction h with
  | here h hid => exact ⟨hid,[],_,rfl,h,fun v => rfl⟩
  | @later tr e x i h hno ih =>
    obtain ⟨hid,post,pre,rfl,hi,hend⟩ := ih fun y hy => hl y (List.mem_cons_of_mem _ hy)
    refine ⟨hid,x :: post,pre,rfl,hi,fun v => ?_⟩
    have hnone : boundOf id x = none := by
      cases hb : boundOf id x with
      | none => rfl
      | some u =>
        obtain ⟨j,hj,hje⟩ := inserts_of_boundOf (hl x (by simp)) hb
        exact absurd hje (hno j hj)
    rw [lifetimeEnd_cons,hnone]
    exact hend v

end Steps

lemma LastInserted.mem {κ ρ : Type} {id : String} {tr : List (Step κ ρ)} {e : Step κ ρ} {i : Insertion}
    (h : LastInserted id tr e i) : e ∈ tr := by
  induction h with
  | here h hid => exact List.mem_cons_self
  | later h hno ih => exact List.mem_cons_of_mem _ ih

section Runs
variable {κ ρ : Type} {E : Environment} {main : κ → Program Effect Effect.Ans ρ}
  {c : Config κ Effect Effect.Ans ρ Database}

/-- Every account has a credential that was inserted last. -/
theorem last_inserted (hc : Config.Reachable main (store E).serial Database.empty c) {id : String} {a : Account}
    (ha : c.state.accounts.find id = some a) :
    ∃ e i, LastInserted id c.trace e i ∧ (Foremost E e → Heads E.collation c.state i) := by
  have h := hc.invariant (I := fun tr d => ∀ a, d.accounts.find id = some a → ∃ e i, LastInserted id tr e i ∧
    i.serviceAccountId = id ∧ (Foremost E e → Heads E.collation d i)) (fun a h => by simp [Database.empty] at h) ?_
  · obtain ⟨e,i,hlast,-,hheads⟩ := h a ha
    exact ⟨e,i,hlast,hheads⟩
  intro tr e ih hl a ha
  by_cases hi : ∃ j, Inserts e j ∧ j.serviceAccountId = id
  · obtain ⟨j,hj,hid⟩ := hi
    exact ⟨e,j,.here hj hid,hid,fun hf => .inserted hl hj hf⟩
  · obtain ⟨b,hb⟩ | hinserted := account_of_legal hl ha
    · obtain ⟨y,i,hlast,hid,hheads⟩ := ih b hb
      have hno : ∀ j, Inserts e j → j.serviceAccountId ≠ id := fun j hj he => hi ⟨j,hj,he⟩
      exact ⟨y,i,.later hlast hno,hid,fun hf => (hheads hf).step hl (by rw [hid]; exact hno)⟩
    · exact absurd hinserted hi

lemma legal_of_reachable (hc : Config.Reachable main (store E).serial Database.empty c) {e : Step κ ρ}
    (he : e ∈ c.trace) : e.Legal (store E).serial := by
  obtain ⟨post,pre,htr⟩ := List.append_of_mem he
  obtain ⟨d,-,-,-,hl⟩ := hc.split htr
  exact hl

/-- The expiry of an active account is that of the credential that was inserted last, if it came first. -/
theorem expiry_of_last (hc : Config.Reachable main (store E).serial Database.empty c)
    (hforward : OverlapsForward c.trace) {id : String} {a : Account} (ha : c.state.accounts.find id = some a)
    (hactive : a.status = .active) {e : Step κ ρ} {i : Insertion} (hlast : LastInserted id c.trace e i)
    (hheads : Heads E.collation c.state i) :
    (accountRow E.collation c.state a).credentialExpiresAt = some i.validUntil := by
  obtain ⟨hid,post,pre,htr,hi,hend⟩ := hlast.split fun x hx => legal_of_reachable hc hx
  obtain ⟨x,hx,hxid,-,-,huntil⟩ := lifetime_of_inserts hc hforward htr hi
  obtain ⟨y,hy,hlatest⟩ := hheads.latest
  obtain rfl := Option.some.inj (hx.symm.trans hy)
  have hmem : x ∈ c.state.credentialsOf id := by
    simp [Database.credentialsOf,Table.mem_of_find hx,hxid,hid]
  have hunrevoked := ((storeOk hc).accounts id a ha).active hactive x hmem
  have hkey : a.serviceAccountId = id := Table.key_of_find ha
  rw [hid] at huntil hlatest
  simp only [accountRow,hkey,hlatest,Option.map_some,huntil hunrevoked,hend]

end Runs

variable {E : Environment}

/-- The account shows this expiry. -/
def ServiceAccountSummary.Expires (E : Environment) (account : ServiceAccountSummary) (t : Time) : Prop :=
  ∃ text, E.formatRfc3339 t = some text ∧ account.credentialExpiresAt = some text

lemma expires_of_formatOptionalTime {account : ServiceAccountSummary} {t : Time}
    (h : formatOptionalTime E (some t) = .ok account.credentialExpiresAt) : account.Expires E t := by
  simp only [formatOptionalTime,formatTime] at h
  cases hf : E.formatRfc3339 t with
  | none =>
    rw [hf] at h
    cases h
  | some text =>
    simp only [hf,Except.ok.injEq] at h
    exact ⟨text,hf,h.symm⟩

section Calls
variable {e : CallStep E} {h : Held E} {secret : CredentialSecret} {row : AccountRow} {i : Insertion}

/-- The account that is loaded shows the expiry of the first of its credentials. -/
lemma Commits.shows (hc : Commits e h secret row i) : row.credentialExpiresAt =
    (latestCredential E.collation (e.after.credentialsOf i.serviceAccountId)).map Credential.validUntil := by
  cases hc with
  | create hcall ht hr hc =>
    obtain ⟨t,c,nonce,ciphertext,_,-⟩ := hc
    rfl
  | rotate hcall ht hr hc =>
    obtain ⟨t,a,c,nonce,ciphertext,_,ha,-⟩ := hc
    have hkey : a.serviceAccountId = _ := Table.key_of_find (accountIn_eq_some.mp ha).1
    simp only [accountRow,Account.rotate,hkey]

/-- A commit whose transaction began last reports the credential that it inserts. -/
lemma Commits.expires (hc : Commits e h secret row i) (hl : e.Legal (store E).serial) (hf : Foremost E e)
    {account : ServiceAccountSummary} (ha : summary E row = .ok account) : account.Expires E i.validUntil := by
  obtain ⟨x,hx,-,-,-,huntil,-⟩ := hc.inserts.row hl
  obtain ⟨y,hy,hlatest⟩ := (Heads.inserted hl hc.inserts hf).latest
  obtain rfl := Option.some.inj (hx.symm.trans hy)
  have hexpires := (summary_ok ha).credentialExpiresAt
  rw [hc.shows,hlatest,Option.map_some,huntil] at hexpires
  exact expires_of_formatOptionalTime hexpires

lemma commits_of_inserts {tr : List (CallStep E)} {d : Database} {p p' : CallPhases E} (ho : Ownership tr d p)
    (hs : (protocol E).Step (store E).serial tr d p e p') (hi : Inserts e i) :
    ∃ h secret row, e.call.commandKey = some h.key ∧ Commits e h secret row i := by
  have hkey : ∀ {φ held s}, p e.tid = some (e.call, φ) → φ.holds = some (held, s) →
      e.call.commandKey = some held.key := by
    intro φ held s hp hholds
    exact ((ho.acting e.tid).presents _ φ held hp (Phase.presented_of_holds hholds)).commandKey
  have hm := mutates_of_legal hs.legal
  have hinsertion := hi.transaction
  generalize ht : transactionOf e = t at hm hinsertion
  cases hm with
  | nothing _ ha hc => exact absurd hc.symm hi.committed
  | created r row hc =>
    obtain rfl := Option.some.inj hinsertion
    obtain ⟨φ,held,hp,hask⟩ := step_asks hs ht
    have hown := hkey hp hask.holds.choose_spec
    cases hask with
    | create hcall hgen hr => exact ⟨held,_,row,hown,.create hcall ht hr hc⟩
  | rotated r row hc =>
    obtain rfl := Option.some.inj hinsertion
    obtain ⟨φ,held,hp,hask⟩ := step_asks hs ht
    have hown := hkey hp hask.holds.choose_spec
    cases hask with
    | rotate hcall hgen hr => exact ⟨held,_,row,hown,.rotate hcall ht hr hc⟩
  | revoked r result hc => cases hinsertion
  | used r row hc => cases hinsertion

end Calls

section Reports
variable {c : Run (Call E) Reply}

/-- The overlap of a rotation is a number of seconds, and not negative. -/
lemma overlaps_forward (hc : LockedConfig.Reachable (store E) Call.main Database.empty c) :
    OverlapsForward c.trace := by
  intro e he r ht
  obtain ⟨pre,p,p',-,hs⟩ := orderly_event hc he
  obtain ⟨φ,held,-,hask⟩ := step_asks hs ht
  cases hask with
  | rotate hcall hgen hr =>
    rw [hr.overlapUntil]
    refine Int.le_add_of_nonneg_right ?_
    simp only [seconds]
    omega

/-- The reported expiry is that of the newest credential. -/
structure NewestReported (c : Run (Call E) Reply) : Prop where
  /-- A creation or rotation that hands out a secret reports the credential of that secret, which it has
  committed itself. -/
  response : ∀ e ∈ c.trace, ∀ r account wire, e.action = .reply r → r.disclosed = some (account, wire) →
    ∃ x ∈ c.trace, x.tid = e.tid ∧ ∃ i, ∃ secret : CredentialSecret, Inserts x i ∧ secret.Generated ∧ secret.wire = wire ∧
      i.credentialId = secret.credentialId ∧ account.Expires E i.validUntil
  /-- So does the receipt that is stored with the credential. -/
  receipt : ∀ x ∈ c.trace, ∀ i, Inserts x i → ∃ (h : Held E) (command : Command) (account : ServiceAccountSummary),
    x.call.commandKey = some h.key ∧ x.after.commands.find h.key = some command ∧
      command.status = .completedSuccess ∧ Receipted h command account ∧ account.Expires E i.validUntil
  /-- An active account that is shown was loaded with the expiry of the credential inserted last. -/
  shown : ∀ e ∈ c.trace, ∀ r, e.action = .reply r → ∀ account ∈ r.shown, account.status = .active →
    ∃ post x pre, c.trace = post ++ x :: pre ∧ x.tid = e.tid ∧ Loads x ∧
      ∃ y i, LastInserted account.serviceAccountId pre y i ∧ account.Expires E i.validUntil

/-- When no credential is inserted by a transaction that began before that of an earlier credential of the
account, the newest one is reported. -/
theorem newest_reported (hc : LockedConfig.Reachable (store E) Call.main Database.empty c)
    (hf : ∀ e ∈ c.trace, Foremost E e) : NewestReported c where
  response e he r account wire ha hd := by
    obtain ⟨x,hx,htid,h,secret,row,i,hcommits,hgen,hwire,hsummary⟩ := commits_of_disclosed hc he ha hd
    have hl := legal_of_reachable (serializable hc) hx
    exact ⟨x,hx,htid,i,secret,hcommits.inserts,hgen,hwire,hcommits.credentialId,
      hcommits.expires hl (hf x hx) hsummary⟩
  receipt x hx i hi := by
    obtain ⟨post,pre,htr⟩ := List.append_of_mem hx
    obtain ⟨p,p',⟨ho,-⟩,hs⟩ := sound_event hc htr
    obtain ⟨h,secret,row,hkey,hcommits⟩ := commits_of_inserts ho hs hi
    obtain ⟨account,command,hsummary,hfind,hstatus,hreceipted⟩ := hcommits.receipted
    exact ⟨h,command,account,hkey,hfind,hstatus,hreceipted,hcommits.expires hs.legal (hf x hx) hsummary⟩
  shown e he r ha account hs hactive := by
    obtain ⟨x,hx,htid,hloads,a,hfind,hsummary⟩ := loads_of_shown hc he ha hs
    have hshown := summary_ok hsummary
    obtain ⟨post,pre,htr⟩ := List.append_of_mem hx
    obtain ⟨d,hd,rfl,hstate,-⟩ := (serializable hc).split htr
    rw [← hstate] at hfind hshown
    obtain ⟨y,i,hlast,hheads⟩ := last_inserted hd hfind
    have hy : y ∈ c.trace := by
      rw [htr]
      exact List.mem_append_right _ (List.mem_cons_of_mem _ hlast.mem)
    have hforward : OverlapsForward d.trace := fun z hz => overlaps_forward hc z (by
      rw [htr]
      exact List.mem_append_right _ (List.mem_cons_of_mem _ hz))
    have hstatus : a.status = .active := by
      have hs := hshown.status
      rw [hactive] at hs
      cases hst : a.status with
      | active => rfl
      | revoked =>
        simp only [accountRow,hst] at hs
        cases hs
    have hexpires := hshown.credentialExpiresAt
    rw [expiry_of_last hd hforward hfind hstatus hlast (hheads (hf y hy))] at hexpires
    have hid : account.serviceAccountId = a.serviceAccountId := hshown.serviceAccountId
    refine ⟨post,x,d.trace,htr,htid,hloads,y,i,?_,expires_of_formatOptionalTime hexpires⟩
    rw [hid]
    exact hlast

end Reports
/-- What is tested of the steps of a finished run. -/
def foremost {κ ρ : Type} (o : Collation) (e : Step κ ρ) : Bool :=
  ((transactionOf e).bind Transaction.insertion).all fun i =>
    (e.after.credentials.find i.credentialId).all fun x =>
      (e.before.credentialsOf i.serviceAccountId).all (x.precedes o)

lemma foremost_of_all {κ ρ : Type} {tr : List (Step κ ρ)} (h : tr.all (foremost E.collation) = true) :
    ∀ e ∈ tr, Foremost E e := by
  intro e he i x hi hx y hy
  have hall := List.all_eq_true.mp h e he
  rw [foremost,hi.transaction,Option.all_some,hx,Option.all_some,List.all_eq_true] at hall
  exact hall y hy

/-- Call `i` rotates the account of the sample creation: up to its transaction. -/
noncomputable def sampleRotate (i : ℕ) (idempotencyKey expectedRevision : String) (byte : UInt8) (clock : Time) :
    List (LockedLabel (Call .plain) Choice Choice) :=
  [.start (.rotateSecret samplePlugin ⟨some "console"⟩
      ⟨expectedRevision,idempotencyKey,"org","sa_AAAAAAAAAAAAAAAAAAAAAAAAAAAAAAAA"⟩),
    .pool i {},.pool i { assertion := some ⟨"user","alice"⟩ },.pool i { membership := .ok ⟨true⟩ },
    .pool i { permission := .ok ⟨true⟩ },.pool i {},.pool i {},.pool i { entropy := some (List.replicate 18 byte) },
    .pool i { entropy := some (List.replicate 32 byte) },.pool i { entropy := some (List.replicate 16 byte) },
    .pool i { clock := clock }]

/-- The transaction of a rotation after its beginning. -/
def sampleRotateEnd (i : ℕ) : List (LockedLabel (Call .plain) Choice Choice) :=
  List.replicate 5 (.within i {}) ++
    [.within i { entropy := some (List.replicate 12 0) },.within i {},.within i {},.reply i]

set_option maxRecDepth 8000 in
noncomputable def sampleRotateRun : Run (Call .plain) Reply :=
  ((LockedConfig.init Database.empty).run (store .plain) Call.main (sampleCreate ++
    sampleRotate 1 "k2" "1" 1 (seconds 120) ++ [.enter 1,.within 1 { now := seconds 121 }] ++
    sampleRotateEnd 1)).get (by decide +kernel)

lemma sampleRotateRun_reachable :
    LockedConfig.Reachable (store .plain) Call.main Database.empty sampleRotateRun :=
  LockedConfig.leads_of_run (Option.some_get _).symm

set_option maxRecDepth 8000 in
/-- A creation and a rotation that begin one after the other. -/
theorem newest_reported_sample : (∃ e ∈ sampleRotateRun.trace, rotates "sa_AAAAAAAAAAAAAAAAAAAAAAAAAAAAAAAA" e = true) ∧
    NewestReported sampleRotateRun := by
  have hrun : (sampleRotateRun.trace.any (rotates "sa_AAAAAAAAAAAAAAAAAAAAAAAAAAAAAAAA") &&
      sampleRotateRun.trace.all (foremost Environment.plain.collation)) = true := by decide +kernel
  rw [Bool.and_eq_true] at hrun
  exact ⟨List.any_eq_true.mp hrun.1,newest_reported sampleRotateRun_reachable (foremost_of_all hrun.2)⟩

/-- Two rotations overlap: call `1` begins its transaction first, for the revision that call `2` will make,
and call `2` commits first. -/
noncomputable def sampleOverlap : List (LockedLabel (Call .plain) Choice Choice) :=
  sampleCreate ++ sampleRotate 1 "k2" "2" 1 (seconds 120) ++ sampleRotate 2 "k3" "1" 2 (seconds 110) ++
    [.enter 1,.within 1 { now := seconds 121 },.enter 2,.within 2 { now := seconds 122 }] ++
    sampleRotateEnd 2 ++ sampleRotateEnd 1

set_option maxRecDepth 8000 in
noncomputable def sampleOverlapRun : Run (Call .plain) Reply :=
  ((LockedConfig.init Database.empty).run (store .plain) Call.main sampleOverlap).get (by decide +kernel)

set_option maxRecDepth 8000 in
/-- Call `1` hands out a secret that is valid until 00:07:00 and reports 00:02:00, the bound that it has put
on the credential of call `2`. -/
theorem rotation_reports_older : LockedConfig.Reachable (store .plain) Call.main Database.empty sampleOverlapRun ∧
    ¬NewestReported sampleOverlapRun := by
  refine ⟨LockedConfig.leads_of_run (Option.some_get _).symm,fun hnewest => ?_⟩
  have hrun : (sampleOverlapRun.trace.any (fun e => decide (e.tid = 1) && (replied e).any fun r =>
      r.disclosed.any fun p => p.1.credentialExpiresAt = some "1970-01-01T00:02:00Z") &&
    sampleOverlapRun.trace.all fun e => !decide (e.tid = 1) ||
      ((transactionOf e).bind Transaction.insertion).all fun i => i.validUntil = seconds 420) = true := by
    decide +kernel
  rw [Bool.and_eq_true] at hrun
  obtain ⟨hreplies,hinserts⟩ := hrun
  obtain ⟨e,he,hreply⟩ := List.any_eq_true.mp hreplies
  simp only [Bool.and_eq_true,decide_eq_true_eq,Option.any_eq_true] at hreply
  obtain ⟨htid,r,hr,⟨account,wire⟩,hdisclosed,hshown⟩ := hreply
  obtain ⟨x,hx,hxtid,i,secret,hi,-,-,-,text,htext,hexpires⟩ :=
    hnewest.response e he r account wire (action_of_replied hr) hdisclosed
  have hall := List.all_eq_true.mp hinserts x hx
  rw [hxtid,htid,hi.transaction,Option.all_some] at hall
  have huntil : i.validUntil = seconds 420 := by simpa using hall
  rw [huntil] at htext
  have hseven : Environment.plain.formatRfc3339 (seconds 420) = some "1970-01-01T00:07:00Z" := by decide +kernel
  rw [hseven] at htext
  rw [← Option.some.inj htext] at hexpires
  exact absurd (hshown.symm.trans hexpires) (by decide)

end LensoServiceAccount
