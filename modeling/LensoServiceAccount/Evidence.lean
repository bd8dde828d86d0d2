import LensoServiceAccount.Library.Paths
import LensoServiceAccount.Changes
import LensoServiceAccount.Replay

/-! What a reply is evidence of: the steps that its call has taken before. -/

namespace LensoServiceAccount

lemma inserts_of_find {κ ρ : Type} {e : Step κ ρ} {i : Insertion} {x : Credential} {t : Transaction} (ht : transactionOf e = some t)
    (hi : t.insertion = some i) (hnone : e.before.credentials.find i.credentialId = none)
    (hx : e.after.credentials.find i.credentialId = some x) : Inserts e i where
  transaction := by rw [ht]; exact hi
  committed he := by
    rw [he,hx] at hnone
    cases hnone

variable {E : Environment}

/-- The reply that a step gives. -/
def replied (e : CallStep E) : Option Reply :=
  match e.action with
  | .reply r => some r
  | _ => none

lemma action_of_replied {e : CallStep E} {r : Reply} (h : replied e = some r) : e.action = .reply r := by
  unfold replied at h
  split at h
  · next r' ha => rw [ha,Option.some.inj h]
  · cases h

/-- The account and the secret of a reply that hands out a secret. -/
def Reply.disclosed : Reply → Option (ServiceAccountSummary × String)
  | .create (.ok (.ok response)) => response.secret.map fun secret => (response.account,secret)
  | .rotateSecret (.ok (.ok response)) => response.secret.map fun secret => (response.account,secret)
  | _ => none

/-- The accounts that a reply of `get` or `list` shows. -/
def Reply.shown : Reply → List ServiceAccountSummary
  | .get (.ok (.ok response)) => [response.account]
  | .list (.ok (.ok response)) => response.accounts
  | _ => []

/-- The row keeps the receipt of a creation or rotation, with this account. -/
inductive Receipted (h : Held E) (row : Command) (account : ServiceAccountSummary) : Prop
  | create {nonce ciphertext} (hn : row.responseNonce = some nonce) (hc : row.responseCiphertext = some ciphertext)
      (hs : h.Sealed (Receipt.toJson (⟨account,true,none⟩ : CreateServiceAccountResponse)) nonce ciphertext)
  | rotate {nonce ciphertext} (hn : row.responseNonce = some nonce) (hc : row.responseCiphertext = some ciphertext)
      (hs : h.Sealed (Receipt.toJson (⟨account,true,none⟩ : RotateServiceAccountSecretResponse)) nonce ciphertext)

/-- The step commits the creation or rotation of a call, which loads `row` and inserts the credential of
the secret. -/
inductive Commits (e : CallStep E) (h : Held E) (secret : CredentialSecret) (row : AccountRow) : Insertion → Prop
  | create {plugin context request} {r : CreateAccount} (hcall : e.call = .create plugin context request)
      (ht : transactionOf e = some (.createAccount r)) (hr : r.For h request secret)
      (hc : CreateCommit E r e.before row e.after) :
      Commits e h secret row ⟨r.credentialId,r.serviceAccountId,r.verifier,r.validFrom,r.validUntil⟩
  | rotate {plugin context request} {r : RotateAccount} (hcall : e.call = .rotateSecret plugin context request)
      (ht : transactionOf e = some (.rotateAccount r)) (hr : r.For h request secret)
      (hc : RotateCommit E r e.before row e.after) :
      Commits e h secret row ⟨r.credentialId,r.serviceAccountId,r.verifier,r.validFrom,r.validUntil⟩

section Calls
variable {e : CallStep E} {h : Held E} {secret : CredentialSecret} {row : AccountRow} {i : Insertion}

lemma Commits.credentialId (hc : Commits e h secret row i) : i.credentialId = secret.credentialId := by
  cases hc with
  | create hcall ht hr hc => exact hr.credentialId
  | rotate hcall ht hr hc => exact hr.credentialId

lemma Commits.inserts (hc : Commits e h secret row i) : Inserts e i := by
  cases hc with
  | create hcall ht hr hc =>
    obtain ⟨t,c,nonce,ciphertext,_,-,-,-,hnew,-,-,-,⟨hv,hcredentials⟩,-⟩ := hc
    have hrows := Table.rows_put_of_new e.before.credentials hv hnew
    rw [← hcredentials] at hrows
    exact inserts_of_find ht rfl hnew (find_new hrows)
  | rotate hcall ht hr hc =>
    obtain ⟨t,a,c,nonce,ciphertext,_,-,-,-,-,hnew,-,-,-,hrows,-⟩ := hc
    exact inserts_of_find ht rfl hnew (find_new hrows)

/-- The receipt that a commit stores. -/
lemma Commits.receipted (hc : Commits e h secret row i) : ∃ account command, summary E row = .ok account ∧
    e.after.commands.find h.key = some command ∧ command.status = .completedSuccess ∧
    Receipted h command account := by
  cases hc with
  | create hcall ht hr hc =>
    obtain ⟨t,c,nonce,ciphertext,hfind,hcomp,⟨hv,hcommands⟩,ho⟩ := hc.completes
    rw [hr.receipt] at ho
    obtain ⟨account,ha,hs⟩ := (createReceipt_seals h row).sealed ho
    have hkey : (c.succeed t nonce ciphertext).key = h.key := (Table.key_of_find hfind).trans hr.key
    refine ⟨account,c.succeed t nonce ciphertext,ha,?_,rfl,.create rfl rfl hs⟩
    rw [hcommands,Table.find_put,key_command,if_pos hkey]
  | rotate hcall ht hr hc =>
    obtain ⟨t,c,nonce,ciphertext,hfind,hcomp,⟨hv,hcommands⟩,ho⟩ := hc.completes
    rw [hr.receipt] at ho
    obtain ⟨account,ha,hs⟩ := (rotateReceipt_seals h row).sealed ho
    have hkey : (c.succeed t nonce ciphertext).key = h.key := (Table.key_of_find hfind).trans hr.key
    refine ⟨account,c.succeed t nonce ciphertext,ha,?_,rfl,.rotate rfl rfl hs⟩
    rw [hcommands,Table.find_put,key_command,if_pos hkey]

variable {call : Call E} {φ : Phase E} {r : Reply} {account : ServiceAccountSummary} {wire : String}

lemma Reply.succeeds_of_disclosed (h : r.disclosed = some (account, wire)) : r.succeeds = true := by
  unfold Reply.disclosed at h
  split at h
  · rfl
  · rfl
  · cases h

lemma Reply.succeeds_of_shown (h : account ∈ r.shown) : r.succeeds = true := by
  unfold Reply.shown at h
  split at h
  · rfl
  · rfl
  · cases h

lemma Reply.succeeds_of_failure {f : RuntimeFailure} (h : r.failure = some f) : r.succeeds = false := by
  unfold Reply.failure at h
  split at h <;> first | rfl | cases h

lemma Kind.shown {K : Kind} (hK : call.kind = some K) (x : Except RuntimeFailure (Except K.Error K.Response)) :
    (K.reply x).shown = [] := by
  cases call <;> simp only [Call.kind,Option.some.injEq,reduceCtorEq] at hK <;> subst hK <;> rfl

lemma Kind.unsuccessful {K : Kind} (hK : call.kind = some K) {x : Except RuntimeFailure (Except K.Error K.Response)}
    (h : ∀ response, x ≠ .ok (.ok response)) : (K.reply x).succeeds = false := by
  rcases x with f | error | response
  · cases call <;> simp only [Call.kind,Option.some.injEq,reduceCtorEq] at hK <;> subst hK <;> rfl
  · cases call <;> simp only [Call.kind,Option.some.injEq,reduceCtorEq] at hK <;> subst hK <;> rfl
  · exact absurd rfl (h response)

/-- What a call finds discloses no secret. -/
lemma Kind.disclosed {K : Kind} (hK : call.kind = some K) (held : Held E) (command : Command) :
    (K.reply (K.answer held command)).disclosed = none := by
  have hreplayed : ∀ x, (K.reply (.ok (.ok (K.replayed x)))).disclosed = none := by
    cases call <;> simp only [Call.kind,Option.some.injEq,reduceCtorEq] at hK <;> subst hK <;> intro x <;> rfl
  have hother : (∀ response, K.answer held command ≠ .ok (.ok response)) →
      (K.reply (K.answer held command)).disclosed = none := by
    intro hne
    rw [← Option.not_isSome_iff_eq_none]
    intro hsome
    obtain ⟨⟨account,wire⟩,hd⟩ := Option.isSome_iff_exists.mp hsome
    exact absurd ((Kind.unsuccessful hK hne).symm.trans (Reply.succeeds_of_disclosed hd)) (by simp)
  by_cases hi : command.intentHash = held.intentHash
  · cases hs : command.status with
    | completedSuccess =>
      cases hd : held.active.receiptCipher.decrypt E K.Response (command.responseNonce.getD [])
          (command.responseCiphertext.getD []) held.aad with
      | ok response =>
        have ha : K.answer held command = .ok (.ok (K.replayed response)) := by simp [Kind.answer,hi,hs,hd]
        rw [ha]
        exact hreplayed response
      | error e => exact hother (by simp [Kind.answer,hi,hs,hd])
    | completedError =>
      cases he : K.errorOfCode (command.errorCode.getD "") with
      | ok error => exact hother (by simp [Kind.answer,hi,hs,he])
      | error e => exact hother (by simp [Kind.answer,hi,hs,he])
    | _ => exact hother (by simp [Kind.answer,hi,hs])
  · exact hother (by simp [Kind.answer,hi])

/-- How a call comes to a success: it finds it, it settles it, or it has seen it. -/
lemma Last.succeeds (h : Last call r φ) (hs : r.succeeds = true) :
    (∃ held command K, φ = .answered held command ∧ call.kind = some K ∧ r = K.reply (K.answer held command)) ∨
    (∃ held, φ = .settled held r) ∨ (∃ rows, φ = .seen rows ∧ call.shows rows r) ∨
    ∃ status, φ = .inspected status ∧ r = .inspectCommand (.ok status) := by
  have hfailed : ∀ f, r.failure ≠ some f := by
    intro f hf
    rw [Reply.succeeds_of_failure hf] at hs
    cases hs
  cases φ with
  | opening actor =>
    have hno := h.1
    rw [hs] at hno
    cases hno
  | contested held => exact absurd h id
  | answered held command =>
    obtain ⟨K,hK,hr⟩ := h
    exact .inl ⟨held,command,K,rfl,hK,hr⟩
  | settled held reply =>
    obtain rfl : r = reply := h
    exact .inr (.inl ⟨held,rfl⟩)
  | seen rows => exact .inr (.inr (.inl ⟨rows,rfl,h⟩))
  | inspected status => exact .inr (.inr (.inr ⟨status,rfl,h⟩))
  | broken f => exact absurd h (hfailed f)
  | _ =>
    obtain ⟨f,hf,-⟩ := h
    exact absurd hf (hfailed f)

/-- A call that hands out a secret has settled it. -/
lemma Last.disclosed (h : Last call r φ) (hd : r.disclosed = some (account, wire)) :
    ∃ held, φ = .settled held r := by
  obtain ⟨held,command,K,-,hK,rfl⟩ | ⟨held,hφ⟩ | ⟨rows,-,hr⟩ | ⟨status,-,rfl⟩ :=
    h.succeeds (Reply.succeeds_of_disclosed hd)
  · rw [Kind.disclosed hK] at hd
    cases hd
  · exact ⟨held,hφ⟩
  · cases call <;> simp only [Call.shows] at hr
    · rw [hr] at hd
      cases hd
    · obtain ⟨active,limit,-,-,rfl⟩ := hr
      cases hd
  · cases hd

/-- What a call settles in a move shows no accounts. -/
lemma Move.settled_shown {o : Effect} {a : Effect.Ans o} {held : Held E} (hm : Move call φ o a (.settled held r)) :
    r.shown = [] := by
  cases hm with
  | recorded hh hr hK he => exact Kind.shown hK _
  | random hφ => cases hφ
  | _ => rfl

end Calls

/-- A call that holds a command of exchanges is an exchange. -/
lemma Call.exchange_of_key {call : Call E} {k : CommandKey} (hk : call.commandKey = some k)
    (hoperation : k.operation = exchangeSecretOperation) :
    ∃ plugin context request, call = .exchangeSecret plugin context request := by
  cases call <;> simp only [commandKey,Option.bind_eq_bind,Option.bind_eq_some_iff,pure,Option.some.injEq,
    reduceCtorEq] at hk
  case exchangeSecret plugin context request => exact ⟨plugin,context,request,rfl⟩
  all_goals
    obtain ⟨active,-,caller,-,rfl⟩ := hk
    simp [createOperation,rotateSecretOperation,revokeOperation,exchangeSecretOperation] at hoperation

/-- Its caller is on the list of the instance. -/
lemma Call.allowed_of_key {call : Call E} {k : CommandKey} (hk : call.commandKey = some k)
    (hoperation : k.operation = exchangeSecretOperation) {active : ActiveServiceAccount E}
    (ha : call.active = some active) : k.callerInstance ∈ active.config.authenticationCallers := by
  obtain ⟨plugin,context,request,rfl⟩ := Call.exchange_of_key hk hoperation
  simp only [commandKey,Call.active,Option.bind_eq_bind,Option.bind_eq_some_iff,pure,Option.some.injEq] at hk ha
  obtain ⟨active',hactive,caller,hcaller,rfl⟩ := hk
  obtain rfl := Option.some.inj (ha.symm.trans hactive)
  have hallowed := (Option.filter_eq_some_iff.mp hcaller).2
  exact List.contains_iff_mem.mp hallowed

/-- The steps of every running call have led it to its phase. -/
def Traced (tr : List (CallStep E)) (p : CallPhases E) : Prop :=
  ∀ i call φ, p i = some (call, φ) → (protocol E).Path (store E).serial call (Protocol.own i tr) φ

theorem traced_invariant (E : Environment) : (protocol E).Invariant (store E).serial Database.empty fun tr d p =>
    Ownership tr d p ∧ Traced tr p := by
  have hpath := Protocol.path_invariant (protocol E) (store E).serial Database.empty
  exact (ownership_invariant E).and hpath.init fun _ h hs => hpath.step h hs

section Paths
variable {call : Call E} {es : List (CallStep E)} {held : Held E} {r : Reply} {account : ServiceAccountSummary}
  {wire : String} {rows : List AccountRow}

/-- The step loads accounts. -/
def Loads (e : CallStep E) : Prop :=
  ∃ s rows, e.action = .perform (.pool (.execute s)) rows ∧
    ((∃ organizationId id, s = .loadAccount organizationId id) ∨
      ∃ organizationId cursor limit, s = .listAccounts organizationId cursor limit)

/-- A secret that is handed out was committed by the last step before. -/
lemma commits_of_path (hp : (protocol E).Path (store E).serial call es (.settled held r))
    (hd : r.disclosed = some (account, wire)) : ∃ x ∈ es, ∃ secret row i, Commits x held secret row i ∧
      secret.Generated ∧ secret.wire = wire ∧ summary E row = .ok account := by
  generalize hφ : Phase.settled held r = φ at hp
  cases hp with
  | start hc ha => cases hφ
  | @move es φ₀ φ' o choice a x h hc ha hm hH =>
    subst hφ
    have hl : x.Legal (store E).serial := by
      simp only [Event.Legal,ha]
      exact ⟨choice,hH⟩
    have hm' : Move call φ₀ o a (.settled held r) := hm
    cases hm' with
    | recorded hh hr hK he =>
      have hsucceeds := Reply.succeeds_of_disclosed hd
      rw [Kind.unsuccessful hK (by simp)] at hsucceeds
      cases hsucceeds
    | random hφ => cases hφ
    | revoked hcall hr hs => cases hd
    | completed hcall hb hs => cases hd
    | @created plugin context request secret account' row h r hcall hgen hr hs =>
      obtain ⟨rfl,rfl⟩ := Prod.mk.inj (Option.some.inj hd)
      have ht : transactionOf x = some (.createAccount r) := by simp only [transactionOf,ha]
      have ho := outcome_of_legal hl ha
      cases ho with
      | created _ _ hcommit =>
        exact ⟨x,by simp,secret,row,_,.create (hc.trans hcall) ht hr hcommit,hgen,rfl,hs⟩
    | @rotated plugin context request secret account' row h r hcall hgen hr hs =>
      obtain ⟨rfl,rfl⟩ := Prod.mk.inj (Option.some.inj hd)
      have ht : transactionOf x = some (.rotateAccount r) := by simp only [transactionOf,ha]
      have ho := outcome_of_legal hl ha
      cases ho with
      | updated _ _ hcommit =>
        exact ⟨x,by simp,secret,row,_,.rotate (hc.trans hcall) ht hr hcommit,hgen,rfl,hs⟩

/-- A call that answers from a row has found it. -/
lemma finds_of_path {command : Command} (hp : (protocol E).Path (store E).serial call es (.answered held command)) :
    ∃ f ∈ es, Finds f held.key command := by
  generalize hφ : Phase.answered held command = φ at hp
  cases hp with
  | start hc ha => cases hφ
  | @move es φ₀ φ' o choice a f h hc ha hm hH =>
    subst hφ
    have hm' : Move call φ₀ o a (.answered held command) := hm
    cases hm' with
    | random hφ => cases hφ
    | read => exact ⟨f,by simp,ha⟩

/-- What has been settled shows no accounts. -/
lemma shown_of_path (hp : (protocol E).Path (store E).serial call es (.settled held r)) : r.shown = [] := by
  generalize hφ : Phase.settled held r = φ at hp
  cases hp with
  | start hc ha => cases hφ
  | move h hc ha hm hH =>
    subst hφ
    exact Move.settled_shown hm

/-- Rows that have been seen are those of accounts. -/
lemma loads_of_path (hp : (protocol E).Path (store E).serial call es (.seen rows)) : ∃ x ∈ es, Loads x ∧
    ∀ row ∈ rows, ∃ a, x.before.accounts.find a.serviceAccountId = some a ∧ row = accountRow E.collation x.before a := by
  generalize hφ : Phase.seen rows = φ at hp
  cases hp with
  | start hc ha => cases hφ
  | @move es φ₀ φ' o choice a x h hc ha hm hH =>
    subst hφ
    have hm' : Move call φ₀ o a (.seen rows) := hm
    cases hm' with
    | random hφ => cases hφ
    | @account plugin context request actor row hcall =>
      refine ⟨x,by simp,⟨_,_,ha,.inl ⟨_,_,rfl⟩⟩,fun row' hrow => ?_⟩
      obtain ⟨now,hx⟩ := execute_of_serial hH
      simp only [Statement.execute,Except.ok.injEq,Prod.mk.injEq] at hx
      obtain ⟨hrows,-⟩ := hx
      rw [← hrows,Option.mem_toList,Option.map_eq_some_iff] at hrow
      obtain ⟨b,hb,rfl⟩ := hrow
      exact ⟨b,find_of_accountIn hb,rfl⟩
    | accounts hcall hactive hlimit =>
      refine ⟨x,by simp,⟨_,_,ha,.inr ⟨_,_,_,rfl⟩⟩,fun row' hrow => ?_⟩
      obtain ⟨now,hx⟩ := execute_of_serial hH
      simp only [Statement.execute,Except.ok.injEq,Prod.mk.injEq] at hx
      obtain ⟨hrows,-⟩ := hx
      rw [← hrows] at hrow
      obtain ⟨b,hb,rfl⟩ := List.mem_map.mp hrow
      have hmem := List.mem_of_mem_filter ((List.perm_insertionSort _ _).mem_iff.mp (List.mem_of_mem_take hb))
      exact ⟨b,Table.find_of_mem hmem,rfl⟩

end Paths

lemma map_of_mapM_ok {α β γ ε : Type} {f : α → Except ε β} {g : β → γ} {h : α → γ}
    (hf : ∀ x y, f x = .ok y → g y = h x) {xs : List α} {ys : List β} (hm : xs.mapM f = .ok ys) : ys.map g = xs.map h := by
  induction xs generalizing ys with
  | nil =>
    rw [List.mapM_nil] at hm
    obtain rfl := Except.ok.inj hm
    rfl
  | cons x xs ih =>
    rw [List.mapM_cons] at hm
    cases hx : f x with
    | error e => simp [hx,bind,Except.bind] at hm
    | ok z =>
      cases hxs : xs.mapM f with
      | error e => simp [hx,hxs,bind,Except.bind] at hm
      | ok zs =>
        simp only [hx,hxs,bind,Except.bind,pure,Except.pure,Except.ok.injEq] at hm
        subst hm
        rw [List.map_cons,List.map_cons,hf x z hx,ih hxs]

lemma mem_of_mapM_ok {α β ε : Type} {f : α → Except ε β} {xs : List α} {ys : List β} (h : xs.mapM f = .ok ys)
    {y : β} (hy : y ∈ ys) : ∃ x ∈ xs, f x = .ok y := by
  induction xs generalizing ys with
  | nil =>
    rw [List.mapM_nil] at h
    obtain rfl := Except.ok.inj h
    cases hy
  | cons x xs ih =>
    rw [List.mapM_cons] at h
    cases hx : f x with
    | error e => simp [hx,bind,Except.bind] at h
    | ok z =>
      cases hxs : xs.mapM f with
      | error e => simp [hx,hxs,bind,Except.bind] at h
      | ok zs =>
        simp only [hx,hxs,bind,Except.bind,pure,Except.pure,Except.ok.injEq] at h
        subst h
        rcases List.mem_cons.mp hy with rfl | hy
        · exact ⟨x,by simp,hx⟩
        · obtain ⟨w,hw,hf⟩ := ih hxs hy
          exact ⟨w,by simp [hw],hf⟩

section Runs
variable {c : Run (Call E) Reply} {post pre : List (CallStep E)} {e : CallStep E} {r : Reply}
  {account : ServiceAccountSummary} {wire : String}

/-- What is known of a call that replies. -/
lemma reply_path (hc : LockedConfig.Reachable (store E) Call.main Database.empty c)
    (he : c.trace = post ++ e :: pre) {r : Reply} (ha : e.action = .reply r) : ∃ p φ, Ownership pre e.before p ∧
      p e.tid = some (e.call, φ) ∧ (protocol E).Path (store E).serial e.call (Protocol.own e.tid pre) φ ∧
      Last e.call r φ := by
  obtain ⟨p,p',⟨ho,hpath⟩,hs⟩ := (traced_invariant E).event (obeyed E) (serializable hc) he
  generalize e.before = d at ho hs
  cases hs with
  | start i call hp hi => cases ha
  | perform i call φ φ' o choice a s' hp hm hH => cases ha
  | stop i call φ hp => cases ha
  | reply i call φ r' hp hl =>
    cases ha
    exact ⟨p,φ,ho,hp,hpath i call φ hp,hl⟩

/-- A secret is handed out by the call that has committed its credential. -/
theorem commits_of_disclosed (hc : LockedConfig.Reachable (store E) Call.main Database.empty c)
    (he : e ∈ c.trace) (ha : e.action = .reply r) (hd : r.disclosed = some (account, wire)) :
    ∃ x ∈ c.trace, x.tid = e.tid ∧ ∃ h secret row i, Commits x h secret row i ∧ secret.Generated ∧
      secret.wire = wire ∧ summary E row = .ok account := by
  obtain ⟨post,pre,htr⟩ := List.append_of_mem he
  obtain ⟨φ,hp,hl⟩ := Protocol.path_of_reply (obeyed E) (serializable hc) htr ha
  obtain ⟨held,rfl⟩ := Last.disclosed hl hd
  obtain ⟨x,hx,secret,row,i,h⟩ := commits_of_path hp hd
  obtain ⟨hx,htid⟩ := Protocol.mem_own.mp hx
  refine ⟨x,?_,htid,held,secret,row,i,h⟩
  rw [show c.trace = post ++ e :: pre from htr]
  simp [hx]

/-- An account is shown as it was when its call has loaded it. -/
theorem loads_of_shown (hc : LockedConfig.Reachable (store E) Call.main Database.empty c)
    (he : e ∈ c.trace) (ha : e.action = .reply r) (hs : account ∈ r.shown) :
    ∃ x ∈ c.trace, x.tid = e.tid ∧ Loads x ∧ ∃ a, x.before.accounts.find a.serviceAccountId = some a ∧
      summary E (accountRow E.collation x.before a) = .ok account := by
  obtain ⟨post,pre,htr⟩ := List.append_of_mem he
  obtain ⟨φ,hp,hl⟩ := Protocol.path_of_reply (obeyed E) (serializable hc) htr ha
  have hfrom : ∀ rows, φ = .seen rows → ∀ row ∈ rows, summary E row = .ok account →
      ∃ x ∈ c.trace, x.tid = e.tid ∧ Loads x ∧ ∃ a, x.before.accounts.find a.serviceAccountId = some a ∧
        summary E (accountRow E.collation x.before a) = .ok account := by
    rintro rows rfl row hrow hsummary
    obtain ⟨x,hx,hloads,hrows⟩ := loads_of_path hp
    obtain ⟨a,hfind,rfl⟩ := hrows row hrow
    obtain ⟨hx,htid⟩ := Protocol.mem_own.mp hx
    refine ⟨x,?_,htid,hloads,a,hfind,hsummary⟩
    rw [show c.trace = post ++ e :: pre from htr]
    simp [hx]
  obtain ⟨held,command,K,-,hK,rfl⟩ | ⟨held,rfl⟩ | ⟨rows,hφ,hr⟩ | ⟨status,-,rfl⟩ :=
    Last.succeeds hl (Reply.succeeds_of_shown hs)
  · rw [Kind.shown hK] at hs
    cases hs
  · rw [shown_of_path hp] at hs
    cases hs
  · cases hcall : e.call with
    | get plugin context request =>
      rw [hcall] at hr
      obtain rfl : r = .get (getAnswer E rows.head?) := hr
      cases rows with
      | nil => cases hs
      | cons row rows =>
        simp only [getAnswer,List.head?_cons] at hs
        cases hsummary : summary E row with
        | error e =>
          rw [hsummary] at hs
          cases hs
        | ok account' =>
          rw [hsummary] at hs
          obtain rfl := List.mem_singleton.mp hs
          exact hfrom _ hφ row (by simp) hsummary
    | list plugin context request =>
      rw [hcall] at hr
      obtain ⟨active,limit,-,-,rfl⟩ := hr
      simp only [listAnswer] at hs
      cases hm : (rows.take limit).mapM (summary E) with
      | error e =>
        rw [hm] at hs
        cases hs
      | ok accounts =>
        rw [hm] at hs
        obtain ⟨row,hrow,hsummary⟩ := mem_of_mapM_ok hm hs
        exact hfrom _ hφ row (List.mem_of_mem_take hrow) hsummary
    | _ =>
      rw [hcall] at hr
      exact absurd hr id
  · cases hs

end Runs
end LensoServiceAccount
