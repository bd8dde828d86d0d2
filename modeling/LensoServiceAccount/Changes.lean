import LensoServiceAccount.Accounts
import LensoServiceAccount.Completion

/-! Changes of accounts over whole runs: each of them moves one expected revision to the next, and
no management request takes effect twice. -/

namespace LensoServiceAccount
variable {E : Environment}

lemma Account.Evolves.trans {a b c : Account} (h : a.Evolves b) (h' : b.Evolves c) : a.Evolves c where
  serviceAccountId := h'.serviceAccountId.trans h.serviceAccountId
  organizationId := h'.organizationId.trans h.organizationId
  subject := h'.subject.trans h.subject
  nameKey := h'.nameKey.trans h.nameKey
  revision := h.revision.trans h'.revision
  status hr := by
    have hb := h.status hr
    rw [hb] at h'
    rw [h'.status hr]

/-- The accounts of an earlier state are still there, in a later version. -/
def Evolved {κ ρ : Type} (tr : List (Step κ ρ)) (d : Database) : Prop :=
  ∀ e ∈ tr, ∀ id a, (e.before.accounts.find id = some a ∨ e.after.accounts.find id = some a) →
    ∃ a', d.accounts.find id = some a' ∧ a.Evolves a'

lemma Evolved.step {κ ρ : Type} {tr : List (Step κ ρ)} {e : Step κ ρ} (h : Evolved tr e.before)
    (hl : e.Legal (store E).serial) : Evolved (e :: tr) e.after := by
  have hm := mutates_of_legal hl
  intro x hx id a ha
  rcases List.mem_cons.mp hx with rfl | hx
  · rcases ha with ha | ha
    · exact hm.accounts ha
    · exact ⟨a,ha,.refl a⟩
  · obtain ⟨b,hb,hab⟩ := h x hx id a ha
    obtain ⟨c,hc,hbc⟩ := hm.accounts hb
    exact ⟨c,hc,hab.trans hbc⟩

theorem evolved {κ ρ : Type} {main : κ → Program Effect Effect.Ans ρ} {d : Database}
    {c : Config κ Effect Effect.Ans ρ Database} (hc : Config.Reachable main (store E).serial d c) :
    Evolved c.trace c.state :=
  hc.invariant (fun e he => by simp at he) fun tr e h hl => h.step hl

lemma Credential.Evolves.trans {x y z : Credential} (h : x.Evolves y) (h' : y.Evolves z) : x.Evolves z where
  credentialId := h'.credentialId.trans h.credentialId
  serviceAccountId := h'.serviceAccountId.trans h.serviceAccountId
  verifier := h'.verifier.trans h.verifier
  validFrom := h'.validFrom.trans h.validFrom
  createdAt := h'.createdAt.trans h.createdAt
  validUntil := h'.validUntil.trans h.validUntil
  revokedAt hr := h'.revokedAt (h.revokedAt hr)

/-- So are the credentials. -/
theorem credentials_evolved {κ ρ : Type} {main : κ → Program Effect Effect.Ans ρ} {d : Database}
    {c : Config κ Effect Effect.Ans ρ Database} (hc : Config.Reachable main (store E).serial d c) :
    ∀ e ∈ c.trace, ∀ k x, e.before.credentials.find k = some x →
      ∃ x', c.state.credentials.find k = some x' ∧ x.Evolves x' := by
  refine hc.invariant (I := fun tr d => ∀ e ∈ tr, ∀ k x, e.before.credentials.find k = some x →
    ∃ x', d.credentials.find k = some x' ∧ x.Evolves x') (fun e he => by simp at he) fun tr e ih hl y hy k x hx => ?_
  have hstep : ∀ x, e.before.credentials.find k = some x →
      ∃ x', e.after.credentials.find k = some x' ∧ x.Evolves x' := by
    intro x hx
    obtain ⟨f,new,hrows,hev⟩ := (mutates_of_legal hl).credentials
    have hex := hev x (Table.mem_of_find hx)
    have hmem : f x ∈ e.after.credentials.rows := by
      rw [hrows]
      exact List.mem_append_left _ (List.mem_map_of_mem (Table.mem_of_find hx))
    have hk : x.credentialId = k := Table.key_of_find hx
    have hfind := Table.find_of_mem hmem
    rw [key_credential,hex.credentialId,hk] at hfind
    exact ⟨f x,hfind,hex⟩
  rcases List.mem_cons.mp hy with rfl | hy
  · exact hstep x hx
  · obtain ⟨x',hx',hev⟩ := ih y hy k x hx
    obtain ⟨z,hz,hev'⟩ := hstep x' hx'
    exact ⟨z,hz,hev.trans hev'⟩

/-- The account and the revision that a rotation or revocation expects. -/
def Call.expects : Call E → Option (String × ℤ)
  | .rotateSecret _ _ request =>
    (validRotation request).map fun revision => (request.serviceAccountId,revision)
  | .revoke _ _ request =>
    (validRevocation request).map fun revision => (request.serviceAccountId,revision)
  | _ => none

/-- The step changes the account. -/
def changes {κ ρ : Type} (id : String) (e : Step κ ρ) : Bool :=
  (e.before.accounts.find id).isSome && decide (e.after.accounts.find id ≠ e.before.accounts.find id)

/-- A call asks for the transaction that it performs. -/
lemma Move.asks {call : Call E} {φ φ' : Phase E} {t : Transaction} {res : t.Result}
    (hm : Move call φ (.transact t) res φ') : ∃ h, Asks call φ h t := by
  cases hm with
  | created hcall hs hr ha => exact ⟨_,.create hcall hs hr⟩
  | rotated hcall hs hr ha => exact ⟨_,.rotate hcall hs hr⟩
  | revoked hcall hr ha => exact ⟨_,.revoke hcall hr⟩
  | slotted hcall => exact ⟨_,.slot hcall⟩
  | marked hcall => exact ⟨_,.mark hcall⟩
  | completed hcall hb hs => exact ⟨_,.complete hcall hb hs⟩
  | declined ha hd => exact ⟨_,ha⟩
  | failed ha => exact ⟨_,ha⟩

section Steps
variable {tr : List (CallStep E)} {d : Database} {p p' : CallPhases E} {e : CallStep E}

lemma step_asks (hs : (protocol E).Step (store E).serial tr d p e p') {t : Transaction}
    (ht : transactionOf e = some t) : ∃ φ h, p e.tid = some (e.call, φ) ∧ Asks e.call φ h t := by
  cases hs with
  | start i call hp hi => simp [transactionOf] at ht
  | reply i call φ r hp hl => simp [transactionOf] at ht
  | stop i call φ hp => simp [transactionOf] at ht
  | perform i call φ φ' o choice a s' hp hm hH =>
    cases o with
    | pool o => simp [transactionOf] at ht
    | transact t' =>
      obtain rfl : t' = t := by simpa [transactionOf] using ht
      obtain ⟨h,ha⟩ := hm.asks
      exact ⟨φ,h,hp,ha⟩

/-- One account goes from a revision to the next, and the others stay. -/
structure Advances (d d' : Database) (id : String) (n : ℤ) : Prop where
  before : ∃ a, d.accounts.find id = some a ∧ a.revision = n
  after : ∃ a, d'.accounts.find id = some a ∧ a.revision = n + 1
  others : ∀ k, k ≠ id → d'.accounts.find k = d.accounts.find k

lemma Advances.mk_put {d d' : Database} {a b : Account} {id : String} {n : ℤ} {hv : Row.check b = true}
    (ha : d.accounts.find id = some a) (hn : a.revision = n) (hid : b.serviceAccountId = a.serviceAccountId)
    (hrevision : b.revision = a.revision + 1) (hd : d'.accounts = d.accounts.put b hv) : Advances d d' id n := by
  have hkey : Row.key b = id := hid.trans (Table.key_of_find ha)
  refine ⟨⟨a,ha,hn⟩,⟨b,?_,by rw [hrevision,hn]⟩,fun k hk => ?_⟩
  · rw [hd,Table.find_put,if_pos hkey]
  · rw [hd]
    exact Table.find_put_of_ne _ hv (by rw [hkey]; exact hk.symm)

lemma RotateCommit.advances {r : RotateAccount} {d d' : Database} {row : AccountRow}
    (h : RotateCommit E r d row d') : Advances d d' r.serviceAccountId r.expectedRevision := by
  obtain ⟨t,a,c,nonce,ciphertext,_,hin,-,hrevision,-,-,-,-,⟨hv,ha⟩,-⟩ := h
  exact .mk_put (accountIn_eq_some.mp hin).1 hrevision (b := a.rotate r.validFrom) rfl rfl ha

/-- A revocation advances its account, or it was revoked before. -/
lemma RevokeCommit.advances {r : RevokeAccount} {d d' : Database} {result : AccountRow × Bool}
    (h : RevokeCommit E r d result d') : Advances d d' r.serviceAccountId r.expectedRevision ∨
      d'.accounts = d.accounts ∧ d'.credentials = d.credentials := by
  cases h with
  | unchanged t a c nonce ciphertext _ _ _ _ _ _ ha hc => exact .inr ⟨ha,hc⟩
  | changed t now a c nonce ciphertext _ hin hactive hrevision hc hcomp ha =>
    obtain ⟨hv,ha⟩ := ha
    exact .inl (.mk_put (accountIn_eq_some.mp hin).1 hrevision (b := a.revoke now) rfl rfl ha)

/-- What a rotation or a revocation changes, it moves from the revision that it expects to the next. -/
structure Moves (e : CallStep E) (id : String) (n : ℤ) : Prop where
  expects : e.call.expects = some (id, n)
  advances : Advances e.before e.after id n

lemma Moves.rotated {r : RotateAccount} {row : AccountRow} (hc : RotateCommit E r e.before row e.after)
    {plugin : ServiceAccountPlugin E} {context : InvocationContext} {request : RotateServiceAccountSecretRequest}
    {h : Held E} {secret : CredentialSecret} (hcall : e.call = .rotateSecret plugin context request)
    (hr : r.For h request secret) : Moves e r.serviceAccountId r.expectedRevision where
  expects := by
    rw [hcall,Call.expects,hr.expectedRevision,hr.serviceAccountId]
    rfl
  advances := hc.advances

lemma Moves.revoked {r : RevokeAccount} (hc : Advances e.before e.after r.serviceAccountId r.expectedRevision)
    {plugin : ServiceAccountPlugin E} {context : InvocationContext} {request : RevokeServiceAccountRequest}
    {h : Held E} (hcall : e.call = .revoke plugin context request) (hr : r.For h request) :
    Moves e r.serviceAccountId r.expectedRevision where
  expects := by
    rw [hcall,Call.expects,hr.expectedRevision,hr.serviceAccountId]
    rfl
  advances := hc

theorem moves_of_changes (hs : (protocol E).Step (store E).serial tr d p e p') {id : String}
    (hc : changes id e = true) : ∃ n, Moves e id n := by
  simp only [changes,Bool.and_eq_true,decide_eq_true_eq] at hc
  obtain ⟨hsome,hne⟩ := hc
  have hother : ∀ {k : String} {n : ℤ}, Moves e k n → ∃ n, Moves e id n := by
    intro k n hm
    by_cases hk : id = k
    · exact ⟨n,hk ▸ hm⟩
    · exact absurd (hm.advances.others id hk) hne
  have hm := mutates_of_legal hs.legal
  generalize ht : transactionOf e = t at hm
  cases hm with
  | nothing _ ha _ => exact absurd (by rw [ha]) hne
  | used r row h =>
    obtain ⟨a,c,k,_,-,-,-,-,-,-,-,ha,-⟩ := h
    exact absurd (by rw [ha]) hne
  | created r row h =>
    obtain ⟨t,c,nonce,ciphertext,_,hnew,-,-,-,-,-,⟨hv,ha⟩,-⟩ := h
    have hid : r.serviceAccountId ≠ id := by
      rintro rfl
      simp [hnew] at hsome
    exact absurd (by rw [ha]; exact Table.find_put_of_ne _ hv hid) hne
  | rotated r row h =>
    obtain ⟨φ,held,-,hask⟩ := step_asks hs ht
    cases hask with
    | rotate hcall hgen hr => exact hother (.rotated h hcall hr)
  | revoked r result h =>
    obtain ⟨φ,held,-,hask⟩ := step_asks hs ht
    cases hask with
    | revoke hcall hr =>
      obtain hadvances | ⟨ha,-⟩ := h.advances
      · exact hother (.revoked hadvances hcall hr)
      · exact absurd (by rw [ha]) hne

/-- The account has left the revision behind. -/
def Past (id : String) (n : ℤ) (d : Database) : Prop := ∃ a, d.accounts.find id = some a ∧ n < a.revision

lemma Past.step (hs : (protocol E).Step (store E).serial tr d p e p') {id : String} {n : ℤ} (h : Past id n d) :
    Past id n e.after := by
  obtain ⟨a,ha,hn⟩ := h
  obtain ⟨a',ha',hev⟩ := (mutates_of_legal hs.legal).accounts (by rw [hs.before]; exact ha)
  exact ⟨a',ha',hn.trans_le hev.revision⟩

lemma Moves.past {id : String} {n : ℤ} (h : Moves e id n) (hs : (protocol E).Step (store E).serial tr d p e p') :
    ¬Past id n d ∧ Past id n e.after := by
  obtain ⟨⟨a,ha,hn⟩,⟨a',ha',hn'⟩,-⟩ := h.advances
  rw [hs.before] at ha
  refine ⟨?_,a',ha',by omega⟩
  rintro ⟨b,hb,hlt⟩
  obtain rfl := Option.some.inj (ha.symm.trans hb)
  omega

end Steps

section Runs
variable {c : Run (Call E) Reply}

/-- Of the rotations and revocations that expect the same revision at most one changes the account. -/
theorem changes_le_one (hc : LockedConfig.Reachable (store E) Call.main Database.empty c) (id : String) (n : ℤ) :
    (c.trace.countP fun e => changes id e && decide (e.call.expects = some (id, n))) ≤ 1 := by
  refine Protocol.count_le_one (Protocol.orderly_invariant (protocol E) (store E).serial Database.empty)
    (obeyed E) (D := Past id n) (fun _ hs h => h.step hs) (fun {tr s p e p'} _ hs honce => ?_) (serializable hc)
  simp only [Bool.and_eq_true,decide_eq_true_eq] at honce
  obtain ⟨m,hm⟩ := moves_of_changes hs honce.1
  obtain ⟨-,rfl⟩ := Prod.mk.inj (Option.some.inj (hm.expects.symm.trans honce.2))
  exact hm.past hs

/-- The step of every event of a run. -/
theorem orderly_event (hc : LockedConfig.Reachable (store E) Call.main Database.empty c) {e : CallStep E}
    (he : e ∈ c.trace) : ∃ pre p p', Protocol.Orderly pre p ∧
      (protocol E).Step (store E).serial pre e.before p e p' := by
  obtain ⟨post,pre,he⟩ := List.append_of_mem he
  obtain ⟨p,p',h,hs⟩ := (Protocol.orderly_invariant (protocol E) (store E).serial Database.empty).event
    (obeyed E) (serializable hc) he
  exact ⟨pre,p,p',h,hs⟩

/-- An account after `n` rotations, with its credentials. -/
structure Account.Counts (n : ℕ) (a : Account) (cs : List Credential) : Prop extends AccountOk n a cs where
  revokedAt : a.status = .revoked ↔ a.revokedAt.isSome = true
  credentials : a.revokedAt.isSome = true ↔ ∀ c ∈ cs, c.revokedAt.isSome = true

lemma AccountOk.counts {n : ℕ} {a : Account} {cs : List Credential} (h : AccountOk n a cs)
    (hv : Row.check a = true) : a.Counts n cs := by
  have hstatus : a.status = .revoked ↔ a.revokedAt.isSome = true := by
    simp only [Row.check,Account.check,Bool.and_eq_true] at hv
    have hs := hv.2
    cases hst : a.status <;> simp [hst] at hs <;> simp [hs]
  refine ⟨h,hstatus,fun hr => h.revoked (hstatus.mpr hr),fun hall => ?_⟩
  cases hst : a.status with
  | revoked => exact hstatus.mp hst
  | active =>
    have hlength := h.length
    cases cs with
    | nil =>
      rw [List.length_nil] at hlength
      omega
    | cons x xs =>
      have hnone := h.active hst x (by simp)
      have hsome := hall x (by simp)
      rw [hnone] at hsome
      cases hsome

/-- The invariant of the accounts over a whole run, and their revisions as a lock against lost
updates. -/
structure RevisionControl (c : Run (Call E) Reply) : Prop where
  counts : ∀ id a, c.state.accounts.find id = some a →
    a.Counts (rotations id c.trace) (c.state.credentialsOf id)
  /-- A revoked account stays as it is. -/
  final : ∀ e ∈ c.trace, ∀ id a, (e.before.accounts.find id = some a ∨ e.after.accounts.find id = some a) →
    a.status = .revoked → c.state.accounts.find id = some a
  once : ∀ id n, (c.trace.countP fun e => changes id e && decide (e.call.expects = some (id, n))) ≤ 1
  moves : ∀ e ∈ c.trace, ∀ id, changes id e = true → ∃ n, Moves e id n

/-- Accounts, credentials and revisions of every run. -/
theorem revision_control (hc : LockedConfig.Reachable (store E) Call.main Database.empty c) :
    RevisionControl c where
  counts id a ha := ((storeOk (serializable hc)).accounts id a ha).counts (Table.check_of_find ha)
  final e he id a ha hr := by
    obtain ⟨b,hb,hev⟩ := evolved (serializable hc) e he id a ha
    have hb' : c.state.accounts.find id = some b := hb
    rw [hb',hev.status hr]
  once := changes_le_one hc
  moves e he id h := by
    obtain ⟨pre,p,p',-,hs⟩ := orderly_event hc he
    exact moves_of_changes hs h

end Runs

/-- The request of a management operation that may change an account. -/
inductive ManagementRequest
  | create (request : CreateServiceAccountRequest)
  | rotateSecret (request : RotateServiceAccountSecretRequest)
  | revoke (request : RevokeServiceAccountRequest)
  deriving DecidableEq

def Call.managementRequest : Call E → Option ManagementRequest
  | .create _ _ request => some (.create request)
  | .rotateSecret _ _ request => some (.rotateSecret request)
  | .revoke _ _ request => some (.revoke request)
  | _ => none

/-- The step takes effect on accounts or credentials. -/
def alters {κ ρ : Type} (e : Step κ ρ) : Bool :=
  decide (e.after.accounts ≠ e.before.accounts ∨ e.after.credentials ≠ e.before.credentials)

section Effects
variable {tr : List (CallStep E)} {d : Database} {p p' : CallPhases E} {e : CallStep E}

/-- What the step of a management call does when it takes effect. -/
inductive Alters (e : CallStep E) : ManagementRequest → Prop
  | create {request r row} (hc : CreateCommit E r e.before row e.after)
      (horganization : r.organizationId = request.organizationId)
      (hname : r.nameKey = toAsciiLowercase (trim request.name)) : Alters e (.create request)
  | rotate {request id n} (hm : Moves e id n) : Alters e (.rotateSecret request)
  | revoke {request id n} (hm : Moves e id n) : Alters e (.revoke request)

theorem alters_cases (hs : (protocol E).Step (store E).serial tr d p e p') (h : alters e = true)
    {m : ManagementRequest} (hm : e.call.managementRequest = some m) : Alters e m := by
  have hmut := mutates_of_legal hs.legal
  have halters := of_decide_eq_true h
  generalize ht : transactionOf e = t at hmut
  cases hmut with
  | nothing _ ha hc => exact absurd halters (by simp [ha,hc])
  | used r row hc =>
    obtain ⟨φ,held,-,hask⟩ := step_asks hs ht
    cases hask with
    | mark hcall => simp [hcall,Call.managementRequest] at hm
  | created r row hc =>
    obtain ⟨φ,held,-,hask⟩ := step_asks hs ht
    cases hask with
    | create hcall hgen hr =>
      rw [hcall] at hm
      obtain rfl := Option.some.inj hm
      exact .create hc hr.organizationId hr.nameKey
  | rotated r row hc =>
    obtain ⟨φ,held,-,hask⟩ := step_asks hs ht
    cases hask with
    | rotate hcall hgen hr =>
      have hmoves := Moves.rotated hc hcall hr
      rw [hcall] at hm
      obtain rfl := Option.some.inj hm
      exact .rotate hmoves
  | revoked r result hc =>
    obtain ⟨φ,held,-,hask⟩ := step_asks hs ht
    cases hask with
    | revoke hcall hr =>
      obtain hadvances | ⟨ha,hcr⟩ := hc.advances
      · have hmoves := Moves.revoked hadvances hcall hr
        rw [hcall] at hm
        obtain rfl := Option.some.inj hm
        exact .revoke hmoves
      · exact absurd halters (by simp [ha,hcr])

/-- What a management request leaves behind when it takes effect, and what stops it from taking
effect again: the name is taken, or the revision is past. -/
def ManagementRequest.Spent (d : Database) : ManagementRequest → Prop
  | .create request => ∃ a ∈ d.accounts.rows, a.organizationId = request.organizationId ∧
      a.nameKey = toAsciiLowercase (trim request.name)
  | .rotateSecret request => ∃ n, validRotation request = some n ∧ Past request.serviceAccountId n d
  | .revoke request => ∃ n, validRevocation request = some n ∧ Past request.serviceAccountId n d

lemma ManagementRequest.Spent.step (hs : (protocol E).Step (store E).serial tr d p e p') {m : ManagementRequest}
    (h : m.Spent d) : m.Spent e.after := by
  cases m with
  | create request =>
    obtain ⟨a,ha,horganization,hname⟩ := h
    rw [← hs.before] at ha
    obtain ⟨a',ha',hev⟩ := (mutates_of_legal hs.legal).accounts (Table.find_of_mem ha)
    exact ⟨a',Table.mem_of_find ha',hev.organizationId.trans horganization,hev.nameKey.trans hname⟩
  | rotateSecret request =>
    obtain ⟨n,hn,hpast⟩ := h
    exact ⟨n,hn,hpast.step hs⟩
  | revoke request =>
    obtain ⟨n,hn,hpast⟩ := h
    exact ⟨n,hn,hpast.step hs⟩

lemma Alters.spent (hs : (protocol E).Step (store E).serial tr d p e p') {m : ManagementRequest}
    (hm : e.call.managementRequest = some m) (h : Alters e m) : ¬m.Spent d ∧ m.Spent e.after := by
  cases h with
  | create hc horganization hname =>
    obtain ⟨t,c,nonce,ciphertext,_,hnew,-,hnames,-,-,-,⟨hv,ha⟩,-⟩ := hc
    rw [hs.before] at hnames ha
    refine ⟨?_,_,Table.mem_of_find (by rw [ha]; exact Table.find_put_self _ _ hv),horganization,hname⟩
    rintro ⟨a,ha',ho,hk⟩
    exact hnames a ha' (ho.trans horganization.symm) (hk.trans hname.symm)
  | @rotate request id n hmoves =>
    obtain ⟨hno,hyes⟩ := hmoves.past hs
    have hexpects := hmoves.expects
    cases hcall : e.call with
    | rotateSecret plugin context request' =>
      rw [hcall] at hm hexpects
      obtain rfl : request' = request := by simpa [Call.managementRequest] using hm
      obtain ⟨k,hk,he⟩ := Option.map_eq_some_iff.mp hexpects
      obtain ⟨rfl,rfl⟩ := Prod.mk.inj he
      refine ⟨?_,k,hk,hyes⟩
      rintro ⟨k',hk',hpast⟩
      obtain rfl := Option.some.inj (hk.symm.trans hk')
      exact hno hpast
    | _ => simp [hcall,Call.managementRequest] at hm
  | @revoke request id n hmoves =>
    obtain ⟨hno,hyes⟩ := hmoves.past hs
    have hexpects := hmoves.expects
    cases hcall : e.call with
    | revoke plugin context request' =>
      rw [hcall] at hm hexpects
      obtain rfl : request' = request := by simpa [Call.managementRequest] using hm
      obtain ⟨k,hk,he⟩ := Option.map_eq_some_iff.mp hexpects
      obtain ⟨rfl,rfl⟩ := Prod.mk.inj he
      refine ⟨?_,k,hk,hyes⟩
      rintro ⟨k',hk',hpast⟩
      obtain rfl := Option.some.inj (hk.symm.trans hk')
      exact hno hpast
    | _ => simp [hcall,Call.managementRequest] at hm

/-- A management request takes effect at most once, however often it is sent, whoever sends it, and
whatever has been pruned in between. -/
theorem takes_effect_once {c : Run (Call E) Reply}
    (hc : LockedConfig.Reachable (store E) Call.main Database.empty c) (m : ManagementRequest) :
    (c.trace.countP fun e => alters e && decide (e.call.managementRequest = some m)) ≤ 1 := by
  refine Protocol.count_le_one (Protocol.orderly_invariant (protocol E) (store E).serial Database.empty)
    (obeyed E) (D := m.Spent) (fun _ hs h => h.step hs) (fun {tr s p e p'} _ hs honce => ?_) (serializable hc)
  simp only [Bool.and_eq_true,decide_eq_true_eq] at honce
  exact (alters_cases hs honce.1 honce.2).spent hs honce.2

end Effects

/-- Call `0` creates an account: after its claim. -/
noncomputable def sampleCreate : List (LockedLabel (Call .plain) Choice Choice) :=
  sampleClaim ++ [.pool 0 { entropy := some (List.replicate 24 0) },.pool 0 { identity := .ok ⟨"subject"⟩ },
    .pool 0 { entropy := some (List.replicate 18 0) },.pool 0 { entropy := some (List.replicate 32 0) },
    .pool 0 { entropy := some (List.replicate 16 0) },.pool 0 { clock := seconds 100 },.enter 0,.within 0 {},
    .within 0 {},.within 0 {},.within 0 {},.within 0 {},.within 0 {},
    .within 0 { entropy := some (List.replicate 12 0) },.within 0 {},.within 0 {},.reply 0]

set_option maxRecDepth 4000 in
noncomputable def sampleCreateRun : Run (Call .plain) Reply :=
  ((LockedConfig.init Database.empty).run (store .plain) Call.main sampleCreate).get (by decide +kernel)

lemma sampleCreateRun_reachable :
    LockedConfig.Reachable (store .plain) Call.main Database.empty sampleCreateRun :=
  LockedConfig.leads_of_run (Option.some_get _).symm

set_option maxRecDepth 4000 in
/-- A creation makes an account with one credential. -/
theorem revision_control_sample : ∃ id a, sampleCreateRun.state.accounts.find id = some a ∧
    a.Counts (rotations id sampleCreateRun.trace) (sampleCreateRun.state.credentialsOf id) := by
  have hrows : sampleCreateRun.state.accounts.rows ≠ [] := by decide +kernel
  obtain ⟨a,ha⟩ := List.exists_mem_of_ne_nil _ hrows
  exact ⟨_,a,Table.find_of_mem ha,(revision_control sampleCreateRun_reachable).counts _ a (Table.find_of_mem ha)⟩

/-- Where a creation has taken effect, it has done so once. -/
theorem takes_effect_once_sample : (sampleCreateRun.trace.countP fun e =>
    alters e && decide (e.call.managementRequest = some (.create ⟨"k1","robot","org"⟩))) ≤ 1 :=
  takes_effect_once sampleCreateRun_reachable _

end LensoServiceAccount
