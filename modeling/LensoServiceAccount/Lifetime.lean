import LensoServiceAccount.Accounts
import LensoServiceAccount.System

/-! The lifetime of a credential over whole runs: rotations cap it, whatever order their
timestamps are in, and only a revocation ends it otherwise. -/

namespace LensoServiceAccount
variable {κ ρ : Type}

/-- The credential that a transaction inserts. -/
structure Insertion where
  credentialId : String
  serviceAccountId : String
  verifier : String
  validFrom : Time
  validUntil : Time
  deriving DecidableEq

def Transaction.insertion : Transaction → Option Insertion
  | .createAccount r =>
    some ⟨r.credentialId,r.serviceAccountId,r.verifier,r.validFrom,r.validUntil⟩
  | .rotateAccount r =>
    some ⟨r.credentialId,r.serviceAccountId,r.verifier,r.validFrom,r.validUntil⟩
  | _ => none

/-- The step is the committed insertion of a credential. -/
structure Inserts (e : Step κ ρ) (i : Insertion) : Prop where
  transaction : (transactionOf e).bind Transaction.insertion = some i
  committed : e.before.credentials ≠ e.after.credentials

/-- The step is a revocation that changed the account. -/
def revokes (serviceAccountId : String) (e : Step κ ρ) : Bool :=
  match transactionOf e with
  | some (.revokeAccount r) =>
    r.serviceAccountId == serviceAccountId && decide (e.before.accounts ≠ e.after.accounts)
  | _ => false

/-- The bound that a step puts on the older credentials of the account. -/
def boundOf (serviceAccountId : String) (e : Step κ ρ) : Option Time :=
  match transactionOf e with
  | some (.rotateAccount r) => if rotates serviceAccountId e then some r.overlapUntil else none
  | _ => none

/-- The least of `validUntil` and the bounds of the rotations in `post`. -/
def lifetimeEnd (serviceAccountId : String) (validUntil : Time) (post : List (Step κ ρ)) : Time :=
  (post.filterMap (boundOf serviceAccountId)).foldr min validUntil

/-- What `management.rs` makes sure of: the overlap of a rotation is not negative. -/
def OverlapsForward (tr : List (Step κ ρ)) : Prop :=
  ∀ e ∈ tr, ∀ r, transactionOf e = some (.rotateAccount r) → r.validFrom ≤ r.overlapUntil

lemma overlapsForward_iff {tr : List (Step κ ρ)} : OverlapsForward tr ↔ tr.all (fun e =>
    match transactionOf e with
    | some (.rotateAccount r) => decide (r.validFrom ≤ r.overlapUntil)
    | _ => true) = true := by
  rw [List.all_eq_true]
  refine forall₂_congr fun e _ => ?_
  rcases transactionOf e with _ | (_ | _ | _ | _ | _ | _) <;> simp

section Steps
variable {E : Environment} {tr : List (Step κ ρ)} {d d' : Database} {e : Step κ ρ}

lemma find_form {f : Credential → Credential} {g : List Credential}
    (h : d'.credentials.rows = d.credentials.rows.map f ++ g) {k : String} {x : Credential}
    (hf : (f x).credentialId = x.credentialId) (hx : d.credentials.find k = some x) :
    d'.credentials.find k = some (f x) := by
  have hmem : f x ∈ d'.credentials.rows := by
    rw [h]
    exact List.mem_append_left _ (List.mem_map_of_mem (Table.mem_of_find hx))
  have hk : x.credentialId = k := Table.key_of_find hx
  have hfind := Table.find_of_mem hmem
  rwa [key_credential,hf,hk] at hfind

lemma find_new {rows : List Credential} {x : Credential} (h : d'.credentials.rows = rows ++ [x]) :
    d'.credentials.find x.credentialId = some x :=
  Table.find_of_mem (by rw [h]; exact List.mem_append_right _ (List.mem_singleton_self x))

/-- The row that an insertion makes. -/
theorem Inserts.row {i : Insertion} (hi : Inserts e i) (hl : e.Legal (store E).serial) : ∃ x,
    e.after.credentials.find i.credentialId = some x ∧ x.serviceAccountId = i.serviceAccountId ∧
      x.verifier = i.verifier ∧ x.validFrom = i.validFrom ∧ x.validUntil = i.validUntil ∧
      x.revokedAt = none := by
  have hm := mutates_of_legal hl
  have ht := hi.transaction
  generalize transactionOf e = t at hm ht
  cases hm with
  | nothing _ ha hc => exact absurd hc.symm hi.committed
  | created r row hc =>
    obtain ⟨t,c,nonce,ciphertext,d',hnew,-,-,hcredential,-,-,-,⟨hv,hcredentials⟩,-⟩ := hc
    obtain rfl := Option.some.inj ht
    refine ⟨insertedCredential t r.credentialId r.serviceAccountId r.verifier r.validFrom r.validUntil,
      ?_,rfl,rfl,rfl,rfl,rfl⟩
    rw [hcredentials]
    exact Table.find_put_self _ _ hv
  | rotated r row hc =>
    obtain ⟨t,a,c,nonce,ciphertext,d',-,-,-,-,-,-,-,-,hrows,-⟩ := hc
    obtain rfl := Option.some.inj ht
    exact ⟨insertedCredential t r.credentialId r.serviceAccountId r.verifier r.validFrom r.validUntil,
      find_new hrows,rfl,rfl,rfl,rfl,rfl⟩
  | revoked r result hc => simp [Transaction.insertion] at ht
  | used r row hc => simp [Transaction.insertion] at ht

/-- The accounts of a committed rotation have changed. -/
lemma RotateCommit.rotates {r : RotateAccount} {row : AccountRow}
    (hc : RotateCommit E r e.before row e.after) (ht : transactionOf e = some (.rotateAccount r)) :
    rotates r.serviceAccountId e = true := by
  obtain ⟨t,a,c,nonce,ciphertext,d',hin,-,-,-,-,-,-,⟨hv,haccounts⟩,-⟩ := hc
  obtain ⟨hfind,-⟩ := accountIn_eq_some.mp hin
  have hkey : a.serviceAccountId = r.serviceAccountId := Table.key_of_find hfind
  have hrotate : (Row.key (a.rotate r.validFrom) : String) = r.serviceAccountId := hkey
  have hput := Table.find_put_self e.before.accounts _ hv
  rw [hrotate,← haccounts] at hput
  have hchanged : e.before.accounts ≠ e.after.accounts := by
    intro he
    rw [← he,hfind] at hput
    have hrev : a.revision = a.revision + 1 := congrArg Account.revision (Option.some.inj hput)
    omega
  simp [LensoServiceAccount.rotates,ht,hchanged]

lemma lifetimeEnd_cons (id : String) (v : Time) (e : Step κ ρ) (post : List (Step κ ρ)) :
    lifetimeEnd id v (e :: post) =
      match boundOf id e with
      | some u => min u (lifetimeEnd id v post)
      | none => lifetimeEnd id v post := by
  simp only [lifetimeEnd,List.filterMap_cons]
  cases boundOf id e <;> rfl

lemma boundOf_eq_none {id : String} (h : rotates id e = false) : boundOf id e = none := by
  unfold boundOf
  split
  · simp [h]
  · rfl

/-- The end of the lifetime of an unrevoked credential follows every step. -/
lemma validUntil_step (hl : e.Legal (store E).serial)
    (hforward : ∀ r, transactionOf e = some (.rotateAccount r) → r.validFrom ≤ r.overlapUntil)
    {k acc : String} {x : Credential} (hx : e.before.credentials.find k = some x)
    (hid : x.serviceAccountId = acc) {v : Time} {post : List (Step κ ρ)}
    (hv : x.revokedAt = none → x.validUntil = lifetimeEnd acc v post) : ∃ x',
    e.after.credentials.find k = some x' ∧ x.Evolves x' ∧
      (x'.revokedAt = none → x'.validUntil = lifetimeEnd acc v (e :: post)) := by
  have hm := mutates_of_legal hl
  rw [lifetimeEnd_cons]
  have hsame : ∀ {f : Credential → Credential} {g : List Credential},
      e.after.credentials.rows = e.before.credentials.rows.map f ++ g → x.Evolves (f x) →
      (f x).validUntil = x.validUntil → ((f x).revokedAt = none → x.revokedAt = none) →
      boundOf acc e = none → ∃ x', e.after.credentials.find k = some x' ∧ x.Evolves x' ∧
        (x'.revokedAt = none → x'.validUntil = match boundOf acc e with
          | some u => min u (lifetimeEnd acc v post)
          | none => lifetimeEnd acc v post) := by
    intro f g hrows hev huntil hrevoked hbound
    refine ⟨f x,find_form hrows hev.credentialId hx,hev,fun hr => ?_⟩
    rw [huntil,hbound]
    exact hv (hrevoked hr)
  generalize ht : transactionOf e = t at hm
  have hnot : (∀ r, t ≠ some (.rotateAccount r)) → boundOf acc e = none := by
    intro hn
    unfold boundOf
    rw [ht]
    split
    · next r => exact absurd rfl (hn r)
    · rfl
  cases hm with
  | nothing _ ha hc =>
    have hrot : rotates acc e = false := by
      apply rotates_eq_false
      exact fun _ _ => ha.symm
    exact hsame (f := id) (g := []) (by simp [hc]) (.refl x) rfl (fun h => h) (boundOf_eq_none hrot)
  | created r row hc =>
    obtain ⟨t,c,nonce,ciphertext,d',-,-,-,hnew,-,-,-,⟨hv,hcredentials⟩,-⟩ := hc
    have hrows := Table.rows_put_of_new e.before.credentials hv hnew
    rw [← hcredentials,← List.map_id e.before.credentials.rows] at hrows
    exact hsame hrows (.refl x) rfl (fun h => h) (hnot fun _ => by simp)
  | rotated r row hc =>
    have hrotates := hc.rotates ht
    obtain ⟨t,a,c,nonce,ciphertext,d',-,-,-,-,-,-,-,-,hrows,-⟩ := hc
    have hev := r.boundFor_evolves x
    by_cases hacc : r.serviceAccountId = acc
    · subst hacc
      have hbound : boundOf r.serviceAccountId e = some r.overlapUntil := by
        simp [boundOf,ht,hrotates]
      rw [hbound]
      refine ⟨r.boundFor x,find_form hrows hev.credentialId hx,hev,fun hr => ?_⟩
      rw [r.boundFor_revokedAt] at hr
      have huntil := hv hr
      have hle := hforward r ht
      simp only [RotateAccount.boundFor,hid,Credential.live,hr]
      split_ifs with hlive
      · change min x.validUntil r.overlapUntil = _
        rw [huntil,min_comm]
      · -- the rotation skips a credential that has ended before it
        simp only [Option.isNone_none,Bool.true_and,decide_eq_true_eq,true_and,not_lt] at hlive
        rw [huntil] at hlive ⊢
        exact (min_eq_right (le_trans hlive hle)).symm
    · refine hsame hrows hev ?_ (by rw [r.boundFor_revokedAt]; exact fun h => h) ?_
      · simp only [RotateAccount.boundFor,hid]
        rw [if_neg]
        exact fun h => hacc h.1.symm
      · apply boundOf_eq_none
        simp [rotates,ht,hacc]
  | revoked r result hc =>
    cases hc with
    | unchanged t a c nonce ciphertext _ hin hrevoked hrevision hc hcomp haccounts hcredentials =>
      exact hsame (f := id) (g := []) (by simp [hcredentials]) (.refl x) rfl (fun h => h)
        (hnot fun _ => by simp)
    | changed t now a c nonce ciphertext _ hin hactive hrevision hc hcomp haccounts hrows =>
      have hev := Credential.revokeFor_evolves r.serviceAccountId now (Table.check_of_find hx)
      by_cases hacc : x.serviceAccountId = r.serviceAccountId
      · refine ⟨x.revokeFor r.serviceAccountId now,
          find_form (g := []) (by rw [hrows,List.append_nil]) hev.credentialId hx,hev,fun hr => ?_⟩
        simp [Credential.revokeFor,hacc,Credential.revoke] at hr
      · have hf : x.revokeFor r.serviceAccountId now = x := if_neg hacc
        exact hsame (f := Credential.revokeFor r.serviceAccountId now) (g := [])
          (by rw [hrows,List.append_nil]) hev (by rw [hf]) (by rw [hf]; exact fun h => h)
          (hnot fun _ => by simp)
  | used r row hc =>
    refine hsame (f := Credential.useFor r.credentialId r.now) (g := []) (by rw [hc.credentials,List.append_nil])
      (Credential.useFor_evolves _ _ x) ?_ ?_ (hnot fun _ => by simp)
    · unfold Credential.useFor
      split_ifs <;> rfl
    · unfold Credential.useFor
      split_ifs <;> exact fun h => h

end Steps

section Runs
variable {E : Environment} {main : κ → Program Effect Effect.Ans ρ} {c : Config κ Effect Effect.Ans ρ Database}

/-- Every inserted credential is in the table, its lifetime as the later history says. -/
theorem lifetime_of_inserts (hc : Config.Reachable main (store E).serial Database.empty c)
    (hforward : OverlapsForward c.trace) {post pre : List (Step κ ρ)} {e : Step κ ρ}
    (he : c.trace = post ++ e :: pre) {i : Insertion} (hi : Inserts e i) : ∃ x,
    c.state.credentials.find i.credentialId = some x ∧ x.serviceAccountId = i.serviceAccountId ∧
      x.verifier = i.verifier ∧ x.validFrom = i.validFrom ∧
      (x.revokedAt = none → x.validUntil = lifetimeEnd i.serviceAccountId i.validUntil post) := by
  have h := hc.invariant (I := fun tr d => OverlapsForward tr → ∀ post e pre, tr = post ++ e :: pre →
    Inserts e i → ∃ x, d.credentials.find i.credentialId = some x ∧
      x.serviceAccountId = i.serviceAccountId ∧ x.verifier = i.verifier ∧ x.validFrom = i.validFrom ∧
      (x.revokedAt = none → x.validUntil = lifetimeEnd i.serviceAccountId i.validUntil post)) ?_ ?_
  · exact h hforward post e pre he hi
  · intro _ post e pre he
    simp at he
  · intro tr e₁ ih hl hforward post e pre he hi
    cases post with
    | nil =>
      obtain ⟨rfl,rfl⟩ := List.cons.inj he
      obtain ⟨x,hx,hid,hv,hfrom,huntil,-⟩ := hi.row hl
      exact ⟨x,hx,hid,hv,hfrom,fun _ => huntil⟩
    | cons e₂ post =>
      obtain ⟨rfl,rfl⟩ := List.cons.inj he
      have hold : OverlapsForward (post ++ e :: pre) := fun e he => hforward e (List.mem_cons_of_mem _ he)
      obtain ⟨x,hx,hid,hv,hfrom,huntil⟩ := ih hold post e pre rfl hi
      obtain ⟨x',hx',hev,huntil'⟩ := validUntil_step hl (hforward e₁ (by simp)) hx hid huntil
      exact ⟨x',hx',hev.serviceAccountId.trans hid,hev.verifier.trans hv,hev.validFrom.trans hfrom,huntil'⟩

/-- The status of an account and its revocations so far. -/
def RevokedOk (id : String) (tr : List (Step κ ρ)) (d : Database) : Prop :=
  (∀ a, d.accounts.find id = some a → (a.status = .revoked ↔ ∃ e ∈ tr, revokes id e = true)) ∧
    (d.accounts.find id = none → ∀ e ∈ tr, revokes id e = false)

lemma RevokedOk.step {id : String} {tr : List (Step κ ρ)} {e : Step κ ρ} (h : RevokedOk id tr e.before)
    (hl : e.Legal (store E).serial) : RevokedOk id (e :: tr) e.after := by
  obtain ⟨hsome,hnone⟩ := h
  -- a step that is no revocation of the account keeps its status
  have hkeep : revokes id e = false → (e.before.accounts.find id = none → ∀ a,
      e.after.accounts.find id = some a → a.status = .active) →
      (∀ a, e.before.accounts.find id = some a → ∃ a', e.after.accounts.find id = some a' ∧
        a'.status = a.status) → RevokedOk id (e :: tr) e.after := by
    intro hr hnew hold
    cases hf : e.before.accounts.find id with
    | none =>
      refine ⟨fun a ha => ?_,fun _ => by simpa [hr] using hnone hf⟩
      have hactive := hnew hf a ha
      have hno := hnone hf
      simp only [hactive,List.mem_cons,exists_eq_or_imp,hr,Bool.false_eq_true,false_or,reduceCtorEq,false_iff]
      rintro ⟨x,hx,hxr⟩
      exact absurd ((hno x hx).symm.trans hxr) (by simp)
    | some a =>
      obtain ⟨a',ha',hs⟩ := hold a hf
      refine ⟨fun b hb => ?_,fun hb => absurd (hb.symm.trans ha') (by simp)⟩
      obtain rfl := Option.some.inj (ha'.symm.trans hb)
      rw [hs,hsome a hf]
      simp [hr]
  have hm := mutates_of_legal hl
  have hnot : (∀ r, transactionOf e ≠ some (.revokeAccount r)) → revokes id e = false := by
    intro hn
    unfold revokes
    split
    · next r hr => exact absurd hr (hn r)
    · rfl
  have hquiet : e.after.accounts = e.before.accounts → RevokedOk id (e :: tr) e.after := by
    intro ha
    refine hkeep ?_ (fun hf a hfa => ?_) fun a hf => ⟨a,by rw [ha,hf],rfl⟩
    · unfold revokes
      split <;> simp [ha]
    · rw [ha] at hfa
      exact absurd (hf.symm.trans hfa) (by simp)
  generalize ht : transactionOf e = t at hm hnot
  cases hm with
  | nothing _ ha hc => exact hquiet ha
  | created r row hc =>
    obtain ⟨t,c,nonce,ciphertext,d',hnew,-,-,-,-,-,⟨hv,haccounts⟩,-⟩ := hc
    refine hkeep (hnot fun _ => by simp) (fun hf a hfa => ?_) fun a hf => ⟨a,?_,rfl⟩
    · rw [haccounts,Table.find_put] at hfa
      split_ifs at hfa with hid
      · rw [← Option.some.inj hfa]
        rfl
      · exact absurd (hf.symm.trans hfa) (by simp)
    · have hne : r.serviceAccountId ≠ id := by
        rintro rfl
        exact absurd (hnew.symm.trans hf) (by simp)
      rw [haccounts]
      exact (Table.find_put_of_ne _ hv hne).trans hf
  | rotated r row hc =>
    obtain ⟨t,a,c,nonce,ciphertext,d',hin,hactive,-,-,-,-,-,⟨hv,haccounts⟩,-⟩ := hc
    obtain ⟨hfind,-⟩ := accountIn_eq_some.mp hin
    have hkey : a.serviceAccountId = r.serviceAccountId := Table.key_of_find hfind
    rw [haccounts] at hkeep
    simp only [Table.find_put,key_account,Account.rotate,hkey] at hkeep
    refine hkeep (hnot fun _ => by simp) (fun hf b hb => ?_) fun b hb => ?_
    · split_ifs at hb with hid
      · subst hid
        exact absurd (hf.symm.trans hfind) (by simp)
      · exact absurd (hf.symm.trans hb) (by simp)
    · split_ifs with hid
      · subst hid
        obtain rfl := Option.some.inj (hfind.symm.trans hb)
        exact ⟨_,rfl,rfl⟩
      · exact ⟨b,hb,rfl⟩
  | revoked r result hc =>
    cases hc with
    | unchanged t a c nonce ciphertext _ hin hrevoked hrevision hc hcomp haccounts => exact hquiet haccounts
    | changed t now a c nonce ciphertext _ hin hactive hrevision hc hcomp haccounts hrows =>
      obtain ⟨hv,haccounts⟩ := haccounts
      obtain ⟨hfind,-⟩ := accountIn_eq_some.mp hin
      have hkey : a.serviceAccountId = r.serviceAccountId := Table.key_of_find hfind
      have hput := Table.find_put_self e.before.accounts _ hv
      have hrevoke : (Row.key (a.revoke now) : String) = r.serviceAccountId := hkey
      rw [hrevoke,← haccounts] at hput
      by_cases hid : r.serviceAccountId = id
      · subst hid
        have hchanged : e.before.accounts ≠ e.after.accounts := by
          intro he
          rw [← he,hfind] at hput
          have hs : a.status = .revoked := congrArg Account.status (Option.some.inj hput)
          exact absurd (hs.symm.trans hactive) (by simp)
        have hrevokes : revokes r.serviceAccountId e = true := by simp [revokes,ht,hchanged]
        refine ⟨fun b hb => ?_,fun hb => absurd (hb.symm.trans hput) (by simp)⟩
        obtain rfl := Option.some.inj (hput.symm.trans hb)
        exact ⟨fun _ => ⟨e,by simp,hrevokes⟩,fun _ => rfl⟩
      · have hne : Row.key (a.revoke now) ≠ id := by rwa [hrevoke]
        have hother : e.after.accounts.find id = e.before.accounts.find id := by
          rw [haccounts,Table.find_put_of_ne _ hv hne]
        refine hkeep (by simp [revokes,ht,hid]) (fun hf b hb => ?_) fun b hb => ⟨b,hother.trans hb,rfl⟩
        exact absurd ((hother.trans hf).symm.trans hb) (by simp)
  | used r row hc =>
    obtain ⟨b,c,k,_,-,-,-,-,-,-,-,haccounts,-⟩ := hc
    exact hquiet haccounts

/-- An account is revoked exactly when a revocation has changed it. -/
theorem revoked_iff (hc : Config.Reachable main (store E).serial Database.empty c) {id : String}
    {a : Account} (ha : c.state.accounts.find id = some a) :
    a.status = .revoked ↔ ∃ e ∈ c.trace, revokes id e = true := by
  have h : RevokedOk id c.trace c.state := by
    refine hc.invariant (I := RevokedOk id) ⟨fun a h => ?_,fun _ e he => absurd he (by simp)⟩
      fun tr e h hl => h.step hl
    simp [Database.empty] at h
  exact h.1 a ha

/-- The conditions of both validity checks, said with the history of the account: no revocation
has changed it, and the instant is in the lifetime of the credential. -/
structure Live (tr post : List (Step κ ρ)) (i : Insertion) (now : Time) : Prop where
  unrevoked : ∀ e ∈ tr, revokes i.serviceAccountId e = false
  begun : i.validFrom ≤ now
  unended : now < lifetimeEnd i.serviceAccountId i.validUntil post

/-- The rows of an inserted credential and what they say of its life. -/
theorem live_iff (hc : Config.Reachable main (store E).serial Database.empty c)
    (hforward : OverlapsForward c.trace) {post pre : List (Step κ ρ)} {e : Step κ ρ}
    (he : c.trace = post ++ e :: pre) {i : Insertion} (hi : Inserts e i) : ∃ x a,
    c.state.credentials.find i.credentialId = some x ∧ x.serviceAccountId = i.serviceAccountId ∧
      c.state.accounts.find i.serviceAccountId = some a ∧
      ∀ now, Live c.trace post i now ↔ a.status = .active ∧ x.validAt now = true := by
  obtain ⟨x,hx,hid,-,hfrom,huntil⟩ := lifetime_of_inserts hc hforward he hi
  have hok := storeOk hc
  have hmem : x ∈ c.state.credentialsOf i.serviceAccountId := by
    simp [Database.credentialsOf,Table.mem_of_find hx,hid]
  cases ha : c.state.accounts.find i.serviceAccountId with
  | none =>
    rw [(hok.absent _ ha).2] at hmem
    exact absurd hmem (by simp)
  | some a =>
    refine ⟨x,a,hx,hid,rfl,fun now => ?_⟩
    have hrevoked := revoked_iff hc ha
    cases hs : a.status with
    | active =>
      have hnone := (hok.accounts _ a ha).active hs x hmem
      have hun : ∀ e ∈ c.trace, revokes i.serviceAccountId e = false := by
        intro e he
        rw [← Bool.not_eq_true]
        intro hr
        exact absurd (hs.symm.trans (hrevoked.mpr ⟨e,he,hr⟩)) (by simp)
      simp only [Credential.validAt,hnone,hfrom,huntil hnone,Option.isNone_none,Bool.true_and,
        Bool.and_eq_true,decide_eq_true_eq,true_and]
      exact ⟨fun h => ⟨h.begun,h.unended⟩,fun h => ⟨hun,h.1,h.2⟩⟩
    | revoked =>
      obtain ⟨e,he,hr⟩ := hrevoked.mp hs
      exact ⟨fun h => (absurd ((h.unrevoked e he).symm.trans hr) (by simp)),fun h => (absurd h.1 (by simp))⟩

/-- Both validity checks agree with the closed form of a credential's lifetime, in every history
of creations, rotations and revocations: the one of an admission, which is answered whenever the
database does not fail, and the one on the loaded row. -/
theorem credential_lifetime {c : Run κ ρ} (hc : LockedConfig.Reachable (store E) main Database.empty c)
    (hforward : OverlapsForward c.trace) {post pre : List (Step κ ρ)} {e : Step κ ρ}
    (he : c.trace = post ++ e :: pre) {i : Insertion} (hi : Inserts e i) (now : Time) :
    (∀ caller idempotencyKey k,
      c.state.commands.find ⟨caller,"exchange_secret",idempotencyKey⟩ = some k → k.status = .reserved →
      ∀ res d', FaultlessRun E (.markExchangeIssuing
        ⟨caller,idempotencyKey,i.credentialId,i.serviceAccountId,now⟩) c.state res d' →
      ∃ answer, res = .ok answer ∧ (answer.isSome = true ↔ Live c.trace post i now)) ∧
    ∃ row, (∀ o t, (Statement.loadCredential i.credentialId).execute o t c.state = .ok (some row,c.state)) ∧
      (row.usableAt now = true ↔ Live c.trace post i now) := by
  obtain ⟨x,a,hx,hid,ha,hlive⟩ := live_iff (serializable hc) hforward he hi
  change c.state.credentials.find i.credentialId = some x at hx
  change c.state.accounts.find i.serviceAccountId = some a at ha
  refine ⟨fun caller idempotencyKey k hk hreserved res d' hrun => ?_,credentialRow x a,fun o t => ?_,?_⟩
  · have hout : AdmitOutcome faultless _ _ _ _ := hrun.outcome
    cases hout with
    | unavailable operation hf => exact absurd hf not_faulty
    | unacknowledged row _ h hf => exact absurd hf not_faulty
    | admitted row _ h =>
      obtain ⟨a',x',k',_,ha',hactive,hx',hid',hvalid,-⟩ := h
      obtain rfl := Option.some.inj (ha.symm.trans ha')
      obtain rfl := Option.some.inj (hx.symm.trans hx')
      exact ⟨_,rfl,fun _ => (hlive now).mpr ⟨hactive,hvalid⟩,fun _ => rfl⟩
    | refused h =>
      refine ⟨none,rfl,fun h => (absurd h (by simp)),fun hl => ?_⟩
      obtain ⟨hactive,hvalid⟩ := (hlive now).mp hl
      cases h with
      | account h => exact absurd hactive (h a ha)
      | credential h => exact absurd ((h x hx hid).symm.trans hvalid) (by simp)
      | command h => exact absurd hreserved (h k hk)
  · simp [Statement.execute,hx,hid,ha]
  · rw [show Live c.trace post i now ↔ _ from hlive now]
    cases hs : a.status <;>
      simp [CredentialRow.usableAt,credentialRow,Credential.validAt,hs]

end Runs

def sampleVerifier : String := "$argon2id$v=19$m=65536,t=3,p=1$salt$hash"

/-- A creation whose clock reads 100 s. -/
def sampleCreation : CreateAccount where
  key := ⟨"console","create","k1"⟩
  maxAccounts := 10
  serviceAccountId := "sa_1"
  organizationId := "org"
  subject := "subject"
  name := "robot"
  nameKey := "robot"
  credentialId := "sac_1"
  verifier := sampleVerifier
  validFrom := seconds 100
  validUntil := seconds 400
  receipt := fun _ => pure (List.replicate 12 0,[])

/-- A rotation whose clock reads `validFrom`. -/
def sampleRotation (validFrom : Time) : RotateAccount where
  key := ⟨"console","rotate_secret","k2"⟩
  organizationId := "org"
  serviceAccountId := "sa_1"
  expectedRevision := 1
  credentialId := "sac_2"
  verifier := sampleVerifier
  validFrom := validFrom
  overlapUntil := validFrom
  validUntil := validFrom + seconds 300
  receipt := fun _ => pure (List.replicate 12 0,[])

/-- Create the account and reserve the command of the rotation. -/
def sampleSchedule : List (LockedLabel StorageCall Choice Choice) :=
  [.start (.claimCommand ⟨"console","create","k1"⟩ (List.replicate 32 0)),.pool 0 {},.reply 0,
    .start (.transact (.createAccount sampleCreation)),.enter 1] ++ List.replicate 8 (.within 1 {}) ++
  [.reply 1,.start (.claimCommand ⟨"console","rotate_secret","k2"⟩ (List.replicate 32 0)),.pool 2 {},.reply 2]

/-- Then rotate it, and reserve the command of an exchange. -/
def sampleContinuation : List (LockedLabel StorageCall Choice Choice) :=
  [.start (.transact (.rotateAccount (sampleRotation (seconds 200)))),.enter 3] ++
  List.replicate 8 (.within 3 {}) ++
  [.reply 3,.start (.claimCommand ⟨"gateway","exchange_secret","k3"⟩ (List.replicate 32 0)),.pool 4 {},.reply 4]

set_option maxRecDepth 8000 in
noncomputable def sampleRun : Run StorageCall StorageReply :=
  ((LockedConfig.init Database.empty).run (store .plain) StorageCall.main
    (sampleSchedule ++ sampleContinuation)).get (by decide)

lemma sampleRun_reachable : LockedConfig.Reachable (store .plain) StorageCall.main Database.empty sampleRun :=
  LockedConfig.leads_of_run (Option.some_get _).symm

def sampleInsertion : Insertion := ⟨"sac_1","sa_1",sampleVerifier,seconds 100,seconds 400⟩

set_option maxRecDepth 8000 in
/-- The first credential of the sample run ends with the overlap of the rotation. -/
theorem credential_lifetime_sample : ∃ post e pre, sampleRun.trace = post ++ e :: pre ∧
    Inserts e sampleInsertion ∧ ∃ row,
      (∀ o t, (Statement.loadCredential "sac_1").execute o t sampleRun.state = .ok (some row,sampleRun.state)) ∧
      (row.usableAt (seconds 200) = true ↔ Live sampleRun.trace post sampleInsertion (seconds 200)) ∧
      ∀ res d', FaultlessRun .plain (.markExchangeIssuing ⟨"gateway","k3","sac_1","sa_1",seconds 200⟩)
        sampleRun.state res d' → ∃ answer, res = .ok answer ∧
          (answer.isSome = true ↔ Live sampleRun.trace post sampleInsertion (seconds 200)) := by
  have hlen : 10 < sampleRun.trace.length := by decide
  have he : sampleRun.trace = sampleRun.trace.take 10 ++ sampleRun.trace[10] :: sampleRun.trace.drop 11 := by
    rw [List.getElem_cons_drop,List.take_append_drop]
  have hi : Inserts sampleRun.trace[10] sampleInsertion := ⟨rfl,of_decide_eq_true rfl⟩
  have hforward : OverlapsForward sampleRun.trace := overlapsForward_iff.mpr (by decide)
  obtain ⟨hmark,hload⟩ := credential_lifetime sampleRun_reachable hforward he hi (seconds 200)
  obtain ⟨row,hrow,husable⟩ := hload
  exact ⟨_,_,_,he,hi,row,hrow,husable,hmark _ _ _ rfl rfl⟩

end LensoServiceAccount
