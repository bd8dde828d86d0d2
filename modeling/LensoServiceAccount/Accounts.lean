import LensoServiceAccount.History

/-! Accounts over whole runs: the revision counts the committed changes, and the credentials of
an account follow its status. -/

namespace LensoServiceAccount
variable {κ ρ : Type}

/-- The step is a committed rotation of the account. -/
def rotates (serviceAccountId : String) (e : Step κ ρ) : Bool :=
  match transactionOf e with
  | some (.rotateAccount r) =>
    r.serviceAccountId == serviceAccountId && decide (e.before.accounts ≠ e.after.accounts)
  | _ => false

/-- The committed rotations of an account. -/
def rotations (serviceAccountId : String) (tr : List (Step κ ρ)) : ℕ := tr.countP (rotates serviceAccountId)

/-- What is true of an account after `n` rotations, and of its credentials. -/
structure AccountOk (n : ℕ) (a : Account) (cs : List Credential) : Prop where
  revision : a.revision = 1 + n + if a.status = .revoked then 1 else 0
  rotatedAt : a.rotatedAt.isSome = true ↔ 0 < n
  length : cs.length = 1 + n
  active : a.status = .active → ∀ c ∈ cs, c.revokedAt = none
  revoked : a.status = .revoked → ∀ c ∈ cs, c.revokedAt.isSome = true

/-- The invariant of the two tables: accounts are as their history says, and no credential and
no rotation is without an account. -/
structure StoreOk (tr : List (Step κ ρ)) (d : Database) : Prop where
  accounts : ∀ id a, d.accounts.find id = some a → AccountOk (rotations id tr) a (d.credentialsOf id)
  absent : ∀ id, d.accounts.find id = none → rotations id tr = 0 ∧ d.credentialsOf id = []

section Steps
variable {E : Environment} {tr : List (Step κ ρ)} {d d' : Database}

/-- The credentials of one account in a table whose rows have been rewritten and added to. -/
lemma credentialsOf_form {f : Credential → Credential} {g : List Credential}
    (h : d'.credentials.rows = d.credentials.rows.map f ++ g)
    (hf : ∀ c ∈ d.credentials.rows, (f c).serviceAccountId = c.serviceAccountId) (id : String) :
    d'.credentialsOf id = (d.credentialsOf id).map f ++ g.filter fun c => c.serviceAccountId = id := by
  unfold Database.credentialsOf
  rw [h,List.filter_append,List.filter_map]
  congr 2
  apply List.filter_congr
  intro c hc
  simp [hf c hc]

lemma mem_of_credentialsOf {id : String} {c : Credential} (h : c ∈ d.credentialsOf id) :
    c ∈ d.credentials.rows ∧ c.serviceAccountId = id := by
  simpa [Database.credentialsOf] using h

lemma AccountOk.map {n : ℕ} {a : Account} {cs : List Credential} (h : AccountOk n a cs)
    {f : Credential → Credential} (hf : ∀ c ∈ cs, (f c).revokedAt = c.revokedAt) :
    AccountOk n a (cs.map f) where
  revision := h.revision
  rotatedAt := h.rotatedAt
  length := by rw [List.length_map,h.length]
  active hs c hc := by
    obtain ⟨x,hx,rfl⟩ := List.mem_map.mp hc
    rw [hf x hx,h.active hs x hx]
  revoked hs c hc := by
    obtain ⟨x,hx,rfl⟩ := List.mem_map.mp hc
    rw [hf x hx,h.revoked hs x hx]

/-- A rewriting of the credentials that keeps their revocation keeps the invariant, as long as
accounts and rotations are the same. -/
lemma StoreOk.map (h : StoreOk tr d) {tr' : List (Step κ ρ)} {f : Credential → Credential}
    (ha : d'.accounts = d.accounts) (hc : d'.credentials.rows = d.credentials.rows.map f)
    (hf : ∀ c ∈ d.credentials.rows, (f c).serviceAccountId = c.serviceAccountId ∧
      (f c).revokedAt = c.revokedAt) (hr : ∀ id, rotations id tr' = rotations id tr) : StoreOk tr' d' := by
  have hform := credentialsOf_form (g := []) (by rw [hc,List.append_nil]) fun c hc => (hf c hc).1
  simp only [List.filter_nil,List.append_nil] at hform
  constructor
  · intro id a hfind
    rw [ha] at hfind
    rw [hr,hform]
    exact (h.accounts id a hfind).map fun c hc => (hf c (mem_of_credentialsOf hc).1).2
  · intro id hfind
    rw [ha] at hfind
    obtain ⟨hn,hcs⟩ := h.absent id hfind
    rw [hr,hform,hcs]
    exact ⟨hn,rfl⟩

lemma rotations_cons (id : String) (e : Step κ ρ) (tr : List (Step κ ρ)) :
    rotations id (e :: tr) = rotations id tr + if rotates id e then 1 else 0 := by
  simp [rotations,List.countP_cons]

lemma rotates_eq_false {e : Step κ ρ} (h : ∀ r, transactionOf e = some (.rotateAccount r) →
    e.before.accounts = e.after.accounts) (id : String) : rotates id e = false := by
  unfold rotates
  split
  · next r hr => simp [h r hr]
  · rfl

lemma rotations_of_not {e : Step κ ρ} (h : ∀ r, transactionOf e = some (.rotateAccount r) →
    e.before.accounts = e.after.accounts) (id : String) : rotations id (e :: tr) = rotations id tr := by
  rw [rotations_cons,rotates_eq_false h]
  rfl

lemma StoreOk.created {e : Step κ ρ} (h : StoreOk tr e.before) {r : CreateAccount} {row : AccountRow}
    (hc : CreateCommit E r e.before row e.after) (ht : transactionOf e = some (.createAccount r)) :
    StoreOk (e :: tr) e.after := by
  obtain ⟨t,c,nonce,ciphertext,d',hnew,-,-,hcredential,-,-,⟨hv,haccounts⟩,⟨hv',hcredentials⟩,-⟩ := hc
  have hrot : ∀ id, rotations id (e :: tr) = rotations id tr :=
    rotations_of_not fun r' hr' => absurd (ht.symm.trans hr') (by simp)
  have hrows := Table.rows_put_of_new e.before.credentials hv' hcredential
  rw [← hcredentials,← List.map_id e.before.credentials.rows] at hrows
  have hform := credentialsOf_form hrows fun _ _ => rfl
  simp only [List.map_id] at hform
  constructor
  · intro id a hfind
    rw [haccounts,Table.find_put] at hfind
    rw [hrot,hform]
    split_ifs at hfind with hid
    · obtain rfl := Option.some.inj hfind
      obtain rfl : r.serviceAccountId = id := hid
      obtain ⟨hn,hcs⟩ := h.absent _ hnew
      rw [hn,hcs]
      exact ⟨rfl,by simp [insertedAccount],by simp [insertedCredential],
        fun _ c hc => by simp_all [insertedCredential],fun hs => by cases hs⟩
    · have hne : r.serviceAccountId ≠ id := hid
      simpa [insertedCredential,hne] using h.accounts id a hfind
  · intro id hfind
    rw [haccounts,Table.find_put] at hfind
    split_ifs at hfind with hid
    have hne : r.serviceAccountId ≠ id := hid
    obtain ⟨hn,hcs⟩ := h.absent id hfind
    rw [hrot,hform,hcs]
    exact ⟨hn,by simp [insertedCredential,hne]⟩

lemma RotateAccount.boundFor_revokedAt (r : RotateAccount) (c : Credential) :
    (r.boundFor c).revokedAt = c.revokedAt := by
  unfold RotateAccount.boundFor
  split_ifs <;> rfl

lemma StoreOk.rotated {e : Step κ ρ} (h : StoreOk tr e.before) {r : RotateAccount} {row : AccountRow}
    (hc : RotateCommit E r e.before row e.after) (ht : transactionOf e = some (.rotateAccount r)) :
    StoreOk (e :: tr) e.after := by
  obtain ⟨t,a,c,nonce,ciphertext,d',hin,hactive,-,-,-,-,-,⟨hv,haccounts⟩,hrows,-⟩ := hc
  obtain ⟨hfind,-⟩ := accountIn_eq_some.mp hin
  have hkey : a.serviceAccountId = r.serviceAccountId := Table.key_of_find hfind
  have hrotate : (Row.key (a.rotate r.validFrom) : String) = r.serviceAccountId := hkey
  have hput := Table.find_put_self e.before.accounts _ hv
  rw [hrotate,← haccounts] at hput
  have hchanged : e.before.accounts ≠ e.after.accounts := by
    intro he
    rw [← he,hfind] at hput
    have hrev : a.revision = a.revision + 1 := congrArg Account.revision (Option.some.inj hput)
    omega
  have hrot : ∀ id, rotations id (e :: tr) = rotations id tr + if r.serviceAccountId = id then 1 else 0 := by
    intro id
    rw [rotations_cons]
    simp [rotates,ht,hchanged]
  have hform := credentialsOf_form hrows fun c _ => (r.boundFor_evolves c).serviceAccountId
  have hkeep : ∀ id n b, AccountOk n b (e.before.credentialsOf id) →
      AccountOk n b ((e.before.credentialsOf id).map r.boundFor) :=
    fun id n b hb => hb.map fun c _ => r.boundFor_revokedAt c
  constructor
  · intro id b hb
    rw [hrot,hform]
    by_cases hid : r.serviceAccountId = id
    · subst hid
      obtain rfl := Option.some.inj (hput.symm.trans hb)
      have hok := hkeep _ _ _ (h.accounts _ a hfind)
      have hrevision := hok.revision
      rw [hactive] at hrevision
      refine ⟨?_,by simp [Account.rotate],?_,?_,?_⟩
      · simp only [Account.rotate,hactive,hrevision,if_true]
        push_cast
        simp
        omega
      · simp [insertedCredential,hok.length] 
        omega
      · intro _ c hc
        rcases List.mem_append.mp hc with hc | hc
        · exact hok.active hactive c hc
        · simp_all [insertedCredential]
      · intro hs
        exact absurd (hs.symm.trans hactive) (by simp)
    · have hne : Row.key (a.rotate r.validFrom) ≠ id := by rwa [hrotate]
      rw [haccounts,Table.find_put_of_ne _ hv hne] at hb
      simpa [insertedCredential,hid] using hkeep _ _ _ (h.accounts id b hb)
  · intro id hb
    have hid : r.serviceAccountId ≠ id := by
      rintro rfl
      exact absurd (hput.symm.trans hb) (by simp)
    have hne : Row.key (a.rotate r.validFrom) ≠ id := by rwa [hrotate]
    rw [haccounts,Table.find_put_of_ne _ hv hne] at hb
    obtain ⟨hn,hcs⟩ := h.absent id hb
    rw [hrot,hform,hcs]
    simp [hn,hid,insertedCredential]

lemma StoreOk.revoked {e : Step κ ρ} (h : StoreOk tr e.before) {r : RevokeAccount}
    {result : AccountRow × Bool} (hc : RevokeCommit E r e.before result e.after)
    (ht : transactionOf e = some (.revokeAccount r)) : StoreOk (e :: tr) e.after := by
  have hrot : ∀ id, rotations id (e :: tr) = rotations id tr :=
    rotations_of_not fun r' hr' => absurd (ht.symm.trans hr') (by simp)
  cases hc with
  | unchanged t a c nonce ciphertext _ hin hrevoked hrevision hc hcomp haccounts hcredentials =>
    exact h.map (f := id) haccounts (by rw [hcredentials,List.map_id]) (fun _ _ => ⟨rfl,rfl⟩) hrot
  | changed t now a c nonce ciphertext _ hin hactive hrevision hc hcomp haccounts hrows =>
    obtain ⟨hv,haccounts⟩ := haccounts
    obtain ⟨hfind,-⟩ := accountIn_eq_some.mp hin
    have hkey : a.serviceAccountId = r.serviceAccountId := Table.key_of_find hfind
    have hrevoke : (Row.key (a.revoke now) : String) = r.serviceAccountId := hkey
    have hput := Table.find_put_self e.before.accounts _ hv
    rw [hrevoke,← haccounts] at hput
    have hform := credentialsOf_form (g := []) (by rw [hrows,List.append_nil])
      fun c hc => (Credential.revokeFor_evolves r.serviceAccountId now
        (e.before.credentials.checked c hc)).serviceAccountId
    simp only [List.filter_nil,List.append_nil] at hform
    constructor
    · intro id b hb
      rw [hrot,hform]
      by_cases hid : r.serviceAccountId = id
      · subst hid
        obtain rfl := Option.some.inj (hput.symm.trans hb)
        have hok := h.accounts _ a hfind
        have hrevision := hok.revision
        rw [hactive] at hrevision
        refine ⟨?_,hok.rotatedAt,by rw [List.length_map,hok.length],fun hs => (by cases hs),?_⟩
        · simp only [Account.revoke,hrevision,if_true]
          simp
        · intro _ c hc
          obtain ⟨x,hx,rfl⟩ := List.mem_map.mp hc
          simp [Credential.revokeFor,(mem_of_credentialsOf hx).2,Credential.revoke]
      · have hne : Row.key (a.revoke now) ≠ id := by rwa [hrevoke]
        rw [haccounts,Table.find_put_of_ne _ hv hne] at hb
        refine (h.accounts id b hb).map fun c hc => ?_
        have hother : c.serviceAccountId ≠ r.serviceAccountId :=
          fun he => hid (he.symm.trans (mem_of_credentialsOf hc).2)
        simp [Credential.revokeFor,hother]
    · intro id hb
      have hid : r.serviceAccountId ≠ id := by
        rintro rfl
        exact absurd (hput.symm.trans hb) (by simp)
      have hne : Row.key (a.revoke now) ≠ id := by rwa [hrevoke]
      rw [haccounts,Table.find_put_of_ne _ hv hne] at hb
      obtain ⟨hn,hcs⟩ := h.absent id hb
      rw [hrot,hform,hcs]
      exact ⟨hn,rfl⟩

/-- One step keeps the invariant. -/
theorem StoreOk.step {e : Step κ ρ} (h : StoreOk tr e.before) (hl : e.Legal (store E).serial) :
    StoreOk (e :: tr) e.after := by
  have hm := mutates_of_legal hl
  generalize ht : transactionOf e = t at hm
  cases hm with
  | nothing _ ha hc =>
    exact h.map (f := id) ha (by rw [hc,List.map_id]) (fun _ _ => ⟨rfl,rfl⟩)
      (rotations_of_not fun _ _ => ha.symm)
  | created r row hc => exact h.created hc ht
  | rotated r row hc => exact h.rotated hc ht
  | revoked r result hc => exact h.revoked hc ht
  | used r row hc =>
    have haccounts : e.after.accounts = e.before.accounts := by
      obtain ⟨b,c,k,_,-,-,-,-,-,-,-,haccounts,-⟩ := hc
      exact haccounts
    refine h.map haccounts hc.credentials (fun c _ => ?_) (rotations_of_not fun _ _ => haccounts.symm)
    unfold Credential.useFor
    split_ifs <;> exact ⟨rfl,rfl⟩

end Steps

/-- The invariant holds in every run from the empty database, whatever is called. -/
theorem storeOk {E : Environment} {main : κ → Program Effect Effect.Ans ρ}
    {c : Config κ Effect Effect.Ans ρ Database}
    (hc : Config.Reachable main (store E).serial Database.empty c) : StoreOk c.trace c.state := by
  refine hc.invariant (I := StoreOk) ⟨?_,?_⟩ fun tr e h hl => h.step hl
  · intro id a h
    simp [Database.empty] at h
  · intro id _
    exact ⟨rfl,rfl⟩

end LensoServiceAccount
