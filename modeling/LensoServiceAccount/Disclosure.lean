import LensoServiceAccount.Expiry
import LensoServiceAccount.Secrets

/-! The secrets of credentials over whole runs: each of them is disclosed at most once, by the call that
has committed its credential. -/

namespace LensoServiceAccount
variable {E : Environment} {c : Run (Call E) Reply}

/-- Generated secrets with the same text have the same id. -/
lemma CredentialSecret.Generated.credentialId_eq {s s' : CredentialSecret} (h : s.Generated) (h' : s'.Generated)
    (hw : s.wire = s'.wire) : s.credentialId = s'.credentialId := by
  obtain ⟨id,material,hid,hmaterial,rfl⟩ := h
  obtain ⟨id',material',hid',hmaterial',rfl⟩ := h'
  rw [wire_eq,wire_eq] at hw
  exact (secretText_inj (secretPart_credentialId hid) (secretPart_credentialId hid') hw).1

lemma Commits.verifies {e : CallStep E} {h : Held E} {secret : CredentialSecret} {row : AccountRow} {i : Insertion}
    (hc : Commits e h secret row i) : Verifies h.active secret i.verifier := by
  cases hc with
  | create hcall ht hr hc => exact hr.verifier
  | rotate hcall ht hr hc => exact hr.verifier

/-- The inserted credential is new. -/
lemma Inserts.new {e : CallStep E} {i : Insertion} (hi : Inserts e i) (hl : e.Legal (store E).serial) :
    e.before.credentials.find i.credentialId = none := by
  have hm := mutates_of_legal hl
  have hinsertion := hi.transaction
  generalize transactionOf e = t at hm hinsertion
  cases hm with
  | nothing _ ha hc => exact absurd hc.symm hi.committed
  | created r row hc =>
    obtain rfl := Option.some.inj hinsertion
    obtain ⟨t,c,nonce,ciphertext,d,-,-,-,hnew,-⟩ := hc
    exact hnew
  | rotated r row hc =>
    obtain rfl := Option.some.inj hinsertion
    obtain ⟨t,a,c,nonce,ciphertext,d,-,-,-,-,hnew,-⟩ := hc
    exact hnew
  | revoked r result hc => cases hinsertion
  | used r row hc => cases hinsertion

/-- A credential is inserted by a call that has generated its secret. -/
lemma issues_of_inserts {tr : List (CallStep E)} {d : Database} {p p' : CallPhases E} {e : CallStep E} {i : Insertion}
    (ho : Ownership tr d p) (hs : (protocol E).Step (store E).serial tr d p e p') (hi : Inserts e i) :
    ∃ h secret row, Commits e h secret row i ∧ secret.Generated := by
  obtain ⟨h,secret,row,-,hcommits⟩ := commits_of_inserts ho hs hi
  cases hcommits with
  | create hcall ht hr hc =>
    obtain ⟨φ,held,-,hask⟩ := step_asks hs ht
    cases hask with
    | create hcall' hgen hr' => exact ⟨held,_,row,.create hcall' ht hr' hc,hgen⟩
  | rotate hcall ht hr hc =>
    obtain ⟨φ,held,-,hask⟩ := step_asks hs ht
    cases hask with
    | rotate hcall' hgen hr' => exact ⟨held,_,row,.rotate hcall' ht hr' hc,hgen⟩

section Runs

/-- An id is inserted once: what has been inserted stays. -/
theorem credential_inserted_once (hc : LockedConfig.Reachable (store E) Call.main Database.empty c) {x y : CallStep E}
    {i j : Insertion} (hx : x ∈ c.trace) (hy : y ∈ c.trace) (hi : Inserts x i) (hj : Inserts y j)
    (h : i.credentialId = j.credentialId) : x = y := by
  -- of two different steps, the later one finds the credential of the earlier one
  have hearlier : ∀ {x y : CallStep E} {i j : Insertion} {post pre : List (CallStep E)}, c.trace = post ++ x :: pre →
      y ∈ pre → Inserts x i → Inserts y j → i.credentialId ≠ j.credentialId := by
    intro x y i j post pre htr hy hi hj heq
    obtain ⟨d,hd,rfl,hstate,hl⟩ := (serializable hc).split htr
    obtain ⟨post',pre',htr'⟩ := List.append_of_mem hy
    have hforward : OverlapsForward d.trace := fun z hz => overlaps_forward hc z (by
      rw [show c.trace = post ++ x :: d.trace from htr]
      simp [hz])
    obtain ⟨r,hr,-⟩ := lifetime_of_inserts hd hforward htr' hj
    rw [hstate,← heq,hi.new hl] at hr
    cases hr
  obtain ⟨post,pre,htr⟩ := List.append_of_mem hx
  have hmem := hy
  rw [htr] at hmem
  rcases List.mem_append.mp hmem with hpost | hpre
  · obtain ⟨post',pre',hpost'⟩ := List.append_of_mem hpost
    have htr' : c.trace = post' ++ y :: (pre' ++ x :: pre) := by
      rw [htr,hpost']
      simp
    exact absurd h.symm (hearlier htr' (by simp) hj hi)
  rcases List.mem_cons.mp hpre with rfl | hpre
  · rfl
  · exact absurd h (hearlier htr hpre hi hj)

/-- Every stored credential has been inserted, with its verifier. -/
theorem inserted_of_find (hc : LockedConfig.Reachable (store E) Call.main Database.empty c) {k : String}
    {x : Credential} (hx : c.state.credentials.find k = some x) :
    ∃ e ∈ c.trace, ∃ i, Inserts e i ∧ i.credentialId = k ∧ i.serviceAccountId = x.serviceAccountId ∧
      i.verifier = x.verifier := by
  refine (serializable hc).invariant (I := fun tr d => ∀ k x, d.credentials.find k = some x →
    ∃ e ∈ tr, ∃ i, Inserts e i ∧ i.credentialId = k ∧ i.serviceAccountId = x.serviceAccountId ∧
      i.verifier = x.verifier) ?_ ?_ k x hx
  · intro k x hx
    simp [Database.empty] at hx
  · intro tr e ih hl k x hx
    obtain ⟨f,new,hrows,hev,hnew⟩ := credentials_of_legal hl
    have hmem := Table.mem_of_find hx
    have hkey : x.credentialId = k := Table.key_of_find hx
    rw [hrows] at hmem
    rcases List.mem_append.mp hmem with hold | hnewer
    · obtain ⟨z,hz,rfl⟩ := List.mem_map.mp hold
      have hevz := hev z hz
      obtain ⟨e',he',i,hi,hid,haccount,hverifier⟩ := ih _ z (Table.find_of_mem hz)
      refine ⟨e',List.mem_cons_of_mem _ he',i,hi,?_,?_,?_⟩
      · rw [hid,← hkey,hevz.credentialId]
        rfl
      · rw [haccount,hevz.serviceAccountId]
      · rw [hverifier,hevz.verifier]
    · obtain ⟨i,hi,hid,haccount⟩ := hnew x hnewer
      obtain ⟨y,hy,-,hverifier,-⟩ := hi.row hl
      rw [← hid,hkey,hx] at hy
      obtain rfl := Option.some.inj hy
      exact ⟨e,by simp,i,hi,by rw [← hid,hkey],haccount.symm,hverifier.symm⟩

/-- What is known of the secrets that have been handed out, and of those behind the stored credentials. -/
structure SecretsDisclosed (c : Run (Call E) Reply) : Prop where
  /-- A secret is handed out after its call has committed the credential, together with a receipt that
  does not contain the secret. The credential stays, and its verifier is one of the secret. -/
  committed : ∀ post e pre, c.trace = post ++ e :: pre → ∀ r account wire, e.action = .reply r →
    r.disclosed = some (account, wire) → ∃ x ∈ pre, x.tid = e.tid ∧ ∃ h secret row i command,
      Commits x h secret row i ∧ secret.Generated ∧ secret.wire = wire ∧ summary E row = .ok account ∧
      x.after.commands.find h.key = some command ∧ command.status = .completedSuccess ∧ Receipted h command account ∧
      ∃ stored, c.state.credentials.find secret.credentialId = some stored ∧ stored.verifier = i.verifier ∧
        Verifies h.active secret stored.verifier
  /-- No other call hands it out. -/
  once : ∀ e ∈ c.trace, ∀ e' ∈ c.trace, ∀ r r' account account' wire, e.action = .reply r → e'.action = .reply r' →
    r.disclosed = some (account, wire) → r'.disclosed = some (account', wire) → e'.tid = e.tid
  /-- A stored credential has been inserted by a single step, for a secret that its call has generated. -/
  stored : ∀ k x, c.state.credentials.find k = some x → ∃ e ∈ c.trace, ∃ h secret row i, Commits e h secret row i ∧
    secret.Generated ∧ secret.credentialId = k ∧ Verifies h.active secret x.verifier ∧
    ∀ e' ∈ c.trace, ∀ j, Inserts e' j → j.credentialId = k → e' = e

lemma stored_of_commits (hc : LockedConfig.Reachable (store E) Call.main Database.empty c) {x : CallStep E}
    (hx : x ∈ c.trace) {h : Held E} {secret : CredentialSecret} {row : AccountRow} {i : Insertion}
    (hcommits : Commits x h secret row i) : ∃ stored, c.state.credentials.find secret.credentialId = some stored ∧
      stored.verifier = i.verifier ∧ Verifies h.active secret stored.verifier := by
  obtain ⟨post,pre,htr⟩ := List.append_of_mem hx
  obtain ⟨stored,hfind,-,hverifier,-⟩ :=
    lifetime_of_inserts (serializable hc) (overlaps_forward hc) htr hcommits.inserts
  rw [hcommits.credentialId] at hfind
  exact ⟨stored,hfind,hverifier,hverifier ▸ hcommits.verifies⟩

/-- A secret is disclosed at most once, by the call that has committed its credential. -/
theorem secrets_disclosed (hc : LockedConfig.Reachable (store E) Call.main Database.empty c) : SecretsDisclosed c where
  committed post e pre htr r account wire ha hd := by
    obtain ⟨φ,hp,hl⟩ := Protocol.path_of_reply (obeyed E) (serializable hc) htr ha
    obtain ⟨held,rfl⟩ := Last.disclosed hl hd
    obtain ⟨x,hx,secret,row,i,hcommits,hgen,hwire,hsummary⟩ := commits_of_path hp hd
    obtain ⟨hmem,htid⟩ := Protocol.mem_own.mp hx
    obtain ⟨account',command,hsummary',hfind,hstatus,hreceipted⟩ := hcommits.receipted
    obtain rfl := Except.ok.inj (hsummary'.symm.trans hsummary)
    have hxc : x ∈ c.trace := by
      rw [htr]
      simp [hmem]
    exact ⟨x,hmem,htid,held,secret,row,i,command,hcommits,hgen,hwire,hsummary,hfind,hstatus,hreceipted,
      stored_of_commits hc hxc hcommits⟩
  once e he e' he' r r' account account' wire ha ha' hd hd' := by
    obtain ⟨x,hx,htid,h,secret,row,i,hcommits,hgen,hwire,-⟩ := commits_of_disclosed hc he ha hd
    obtain ⟨x',hx',htid',h',secret',row',i',hcommits',hgen',hwire',-⟩ := commits_of_disclosed hc he' ha' hd'
    have hid : i.credentialId = i'.credentialId := by
      rw [hcommits.credentialId,hcommits'.credentialId]
      exact hgen.credentialId_eq hgen' (hwire.trans hwire'.symm)
    have hsame := credential_inserted_once hc hx hx' hcommits.inserts hcommits'.inserts hid
    rw [← htid,← htid',hsame]
  stored k x hx := by
    obtain ⟨e,he,i,hi,hid,-,hverifier⟩ := inserted_of_find hc hx
    obtain ⟨post,pre,htr⟩ := List.append_of_mem he
    obtain ⟨p,p',⟨ho,-⟩,hs⟩ := sound_event hc htr
    obtain ⟨h,secret,row,hcommits,hgen⟩ := issues_of_inserts ho hs hi
    refine ⟨e,he,h,secret,row,i,hcommits,hgen,hcommits.credentialId.symm.trans hid,hverifier ▸ hcommits.verifies,?_⟩
    intro e' he' j hj hk
    exact credential_inserted_once hc he' he hj hi (hk.trans hid.symm)

end Runs

set_option maxRecDepth 4000 in
/-- The sample creation has handed out its secret. -/
theorem secrets_disclosed_sample : (∃ e ∈ sampleCreateRun.trace, ((replied e).bind Reply.disclosed).isSome = true) ∧
    SecretsDisclosed sampleCreateRun := by
  refine ⟨?_,secrets_disclosed sampleCreateRun_reachable⟩
  have hany : (sampleCreateRun.trace.any fun e => ((replied e).bind Reply.disclosed).isSome) = true := by
    decide +kernel
  exact List.any_eq_true.mp hany

end LensoServiceAccount
