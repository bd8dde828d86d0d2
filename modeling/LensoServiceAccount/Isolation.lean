import LensoServiceAccount.Storage.Together
import LensoServiceAccount.Pagination

/-! Organizations are isolated from each other: the calls of one organization neither see nor change
the accounts and credentials of another. -/

namespace LensoServiceAccount

/-- The credential belongs to an account of the organization. -/
def Credential.isOf (organizationId : String) (d : Database) (c : Credential) : Bool :=
  (d.accounts.find c.serviceAccountId).any fun a => a.organizationId = organizationId

namespace Database

/-- The accounts and credentials of one organization, and all commands. -/
def only (organizationId : String) (d : Database) : Database where
  accounts := d.accounts.delete fun a => a.organizationId ≠ organizationId
  credentials := d.credentials.delete fun c => !c.isOf organizationId d
  commands := d.commands
  limits := ∅

/-- The accounts and credentials of the other organizations, and all rate rows. -/
def others (organizationId : String) (d : Database) : Database where
  accounts := d.accounts.delete fun a => a.organizationId = organizationId
  credentials := d.credentials.delete fun c => c.isOf organizationId d
  commands := ∅
  limits := d.limits

/-- The organization has the account. -/
def Has (organizationId : String) (d : Database) (serviceAccountId : String) : Prop :=
  ∃ a, (d.only organizationId).accounts.find serviceAccountId = some a

end Database

section Sight
variable {O : String} {d d' : Database} {id : String}

lemma find_only (O : String) (d : Database) (id : String) :
    (d.only O).accounts.find id = d.accountIn O id := by
  rw [Database.only,Table.find_delete,Database.accountIn]
  congr 1
  funext a
  simp

lemma find_of_only {a : Account} (h : (d.only O).accounts.find id = some a) :
    d.accounts.find id = some a ∧ a.organizationId = O := by
  rw [find_only] at h
  have hf := Option.filter_eq_some_iff.mp h
  exact ⟨hf.1,of_decide_eq_true hf.2⟩

lemma has_iff : d.Has O id ↔ ∃ a, d.accounts.find id = some a ∧ a.organizationId = O := by
  constructor
  · rintro ⟨a,ha⟩
    exact ⟨a,find_of_only ha⟩
  · rintro ⟨a,ha,ho⟩
    refine ⟨a,?_⟩
    rw [find_only,Database.accountIn,ha]
    simp [ho]

lemma isOf_iff {c : Credential} : c.isOf O d = true ↔ d.Has O c.serviceAccountId := by
  rw [has_iff,Credential.isOf,Option.any_eq_true]
  simp

lemma find_only_of_has (h : d.Has O id) : (d.only O).accounts.find id = d.accounts.find id := by
  obtain ⟨a,ha⟩ := h
  rw [ha,(find_of_only ha).1]

/-- What an organization has, table by table. -/
lemma only_eq (ha : (d.only O).accounts.rows = (d'.only O).accounts.rows)
    (hc : (d.only O).credentials.rows = (d'.only O).credentials.rows) (hk : d.commands = d'.commands) :
    d.only O = d'.only O := by
  have haccounts := Table.ext_rows ha
  have hcredentials := Table.ext_rows hc
  rw [Database.only,Database.only,Database.mk.injEq]
  exact ⟨haccounts,hcredentials,hk,rfl⟩

lemma accountIn_only (O : String) (d : Database) (id : String) : (d.only O).accountIn O id = d.accountIn O id := by
  rw [Database.accountIn,find_only,Database.accountIn,Option.filter_filter]
  simp

lemma credentialsOf_only (h : d.Has O id) : (d.only O).credentialsOf id = d.credentialsOf id := by
  simp only [Database.credentialsOf,Database.only,Table.delete,List.filter_filter]
  apply List.filter_congr
  intro c _
  by_cases hc : c.serviceAccountId = id
  · have hof : c.isOf O d = true := isOf_iff.mpr (hc ▸ h)
    simp [hc,hof]
  · simp [hc]

lemma accountRow_only (o : Collation) {a : Account} (h : d.Has O a.serviceAccountId) :
    accountRow o (d.only O) a = accountRow o d a := by
  rw [accountRow,accountRow,credentialsOf_only h]

lemma accountIn_map_only (o : Collation) (O : String) (d : Database) (id : String) :
    ((d.only O).accountIn O id).map (accountRow o (d.only O)) = (d.accountIn O id).map (accountRow o d) := by
  rw [accountIn_only]
  cases ha : d.accountIn O id with
  | none => rfl
  | some a =>
    have hfind := find_only O d id
    rw [ha] at hfind
    have hid : a.serviceAccountId = id := Table.key_of_find (find_of_only hfind).1
    rw [Option.map_some,Option.map_some,accountRow_only o (hid ▸ ⟨a,hfind⟩)]

end Sight

/-- What a statement may be about, inside of an organization. -/
def TxStatement.Within (O : String) (d : Database) : TxStatement → Prop
  | .reloadAccount organizationId _ | .lockAccount organizationId _ => organizationId = O
  | .completeCommand _ _ _ => True
  | .boundCredentials _ _ serviceAccountId | .advanceAccount serviceAccountId _
  | .revokeAccount serviceAccountId _ | .revokeCredentials serviceAccountId _ => d.Has O serviceAccountId
  | .insertCredential credentialId serviceAccountId _ _ _ =>
    d.Has O serviceAccountId ∧ (d.others O).credentials.find credentialId = none
  | _ => False

/-- A row version of the organization, in the place of one. -/
def Write.Within (O : String) (d : Database) : Write → Prop
  | .account row _ => row.organizationId = O ∧ d.Has O row.serviceAccountId
  | .credential row _ => d.Has O row.serviceAccountId ∧
    ∀ c, d.credentials.find row.credentialId = some c → d.Has O c.serviceAccountId
  | .command _ _ => True
  | .limit _ _ => False

section Writes
variable {O : String} {d : Database} {w : Write}

lemma Write.Within.find (h : w.Within O d) (id : String) :
    (w.apply d).Has O id ↔ d.Has O id := by
  cases w with
  | account row hrow =>
    obtain ⟨ho,hhas⟩ := h
    rw [has_iff,has_iff,Write.apply,Table.find_put,key_account]
    by_cases hk : row.serviceAccountId = id
    · subst hk
      rw [has_iff] at hhas
      simp [ho,hhas]
    · rw [if_neg hk]
  | credential row hrow => rw [has_iff,has_iff]; rfl
  | command row hrow => rw [has_iff,has_iff]; rfl
  | limit row hrow => exact h.elim

lemma Write.Within.isOf (h : w.Within O d) : Credential.isOf O (w.apply d) = Credential.isOf O d := by
  funext c
  rw [Bool.eq_iff_iff,isOf_iff,isOf_iff]
  exact h.find _

/-- A write inside of an organization is made there, -/
lemma Write.Within.only (h : w.Within O d) : (w.apply d).only O = w.apply (d.only O) := by
  have hof := h.isOf
  cases w with
  | account row hrow =>
    obtain ⟨ho,hhas⟩ := h
    obtain ⟨a,ha,hao⟩ := has_iff.mp hhas
    simp only [Database.only,hof]
    simp only [Write.apply]
    rw [Table.delete_put]
    · simp [ho]
    · intro x hx
      rw [key_account,ha] at hx
      cases hx
      simp [hao]
  | credential row hrow =>
    simp only [Database.only,hof]
    simp only [Write.apply]
    rw [Table.delete_put]
    · rw [isOf_iff.mpr h.1]
      rfl
    · intro x hx
      rw [isOf_iff.mpr (h.2 x hx)]
      rfl
  | command row hrow => rfl
  | limit row hrow => exact h.elim

/-- and nowhere else. -/
lemma Write.Within.others (h : w.Within O d) : (w.apply d).others O = d.others O := by
  have hof := h.isOf
  cases w with
  | account row hrow =>
    obtain ⟨ho,hhas⟩ := h
    obtain ⟨a,ha,hao⟩ := has_iff.mp hhas
    simp only [Database.others,hof]
    simp only [Write.apply]
    rw [Table.delete_put_of_pos]
    · simp [ho]
    · intro x hx
      rw [key_account,ha] at hx
      cases hx
      simp [hao]
  | credential row hrow =>
    simp only [Database.others,hof]
    simp only [Write.apply]
    rw [Table.delete_put_of_pos]
    · exact isOf_iff.mpr h.1
    · intro x hx
      exact isOf_iff.mpr (h.2 x hx)
  | command row hrow => rfl
  | limit row hrow => exact h.elim

lemma Write.Within.stays {w' : Write} (h' : w'.Within O d) (h : w.Within O d) : w'.Within O (w.apply d) := by
  cases w' with
  | account row hrow => exact ⟨h'.1,(h.find _).mpr h'.2⟩
  | credential row hrow =>
    refine ⟨(h.find _).mpr h'.1,fun c hc => (h.find _).mpr ?_⟩
    cases w with
    | credential old hold =>
      rw [Write.apply,Table.find_put] at hc
      split_ifs at hc with hk
      · cases hc
        exact h.1
      · exact h'.2 c hc
    | account old hold => exact h'.2 c hc
    | command old hold => exact h'.2 c hc
    | limit old hold => exact h.elim
  | command row hrow => trivial
  | limit row hrow => exact h'.elim

theorem within_apply {ws : List Write} (h : ∀ w ∈ ws, w.Within O d) :
    (d.apply ws).only O = (d.only O).apply ws ∧ (d.apply ws).others O = d.others O ∧
      ∀ id, (d.apply ws).Has O id ↔ d.Has O id := by
  induction ws generalizing d with
  | nil => exact ⟨rfl,rfl,fun _ => Iff.rfl⟩
  | cons w ws ih =>
    have hw := h w (List.mem_cons_self ..)
    obtain ⟨honly,hothers,hhas⟩ := ih fun w' hw' => (h w' (List.mem_cons_of_mem _ hw')).stays hw
    rw [Database.apply_cons,Database.apply_cons]
    refine ⟨?_,?_,fun id => (hhas id).trans (hw.find id)⟩
    · rw [honly,hw.only]
    · rw [hothers,hw.others]

end Writes

section Statements
variable {O : String} {o : Collation} {now : Time} {d : Database}

lemma find_others_or (O : String) (d : Database) (k : String) (h : (d.others O).credentials.find k = none) :
    (d.only O).credentials.find k = d.credentials.find k := by
  rw [Database.others,Table.find_delete] at h
  rw [Database.only,Table.find_delete]
  cases hc : d.credentials.find k with
  | none => rfl
  | some c =>
    rw [hc] at h
    have hof : c.isOf O d = true := by simpa using h
    simp [hof]

/-- A statement inside of an organization sees nothing else. -/
lemma TxStatement.Within.execute {s : TxStatement} (h : s.Within O d) :
    s.execute o now (d.only O) = s.execute o now d := by
  cases s with
  | reloadAccount organizationId id | lockAccount organizationId id =>
    obtain rfl : organizationId = O := h
    simp only [TxStatement.execute,accountIn_map_only]
  | completeCommand key nonce ciphertext => rfl
  | boundCredentials validFrom overlapUntil id =>
    have hid : d.Has O id := h
    simp only [TxStatement.execute,credentialsOf_only hid]
  | insertCredential k id verifier validFrom validUntil =>
    obtain ⟨hid,hnew⟩ := h
    simp only [TxStatement.execute,find_only_of_has hid,find_others_or O d k hnew]
  | advanceAccount id validFrom =>
    have hid : d.Has O id := h
    simp only [TxStatement.execute,find_only_of_has hid]
  | revokeAccount id now' =>
    have hid : d.Has O id := h
    simp only [TxStatement.execute,find_only_of_has hid]
  | revokeCredentials id now' =>
    have hid : d.Has O id := h
    simp only [TxStatement.execute,credentialsOf_only hid]
  | _ => exact h.elim

lemma mem_of_mapM_writeRow {f : Credential → Credential} {cs : List Credential} {ws : List Write}
    (h : (cs.mapM fun c => writeRow .credential (f c)) = .ok ws) {w : Write} (hw : w ∈ ws) :
    ∃ c ∈ cs, ∃ hc, w = .credential (f c) hc := by
  induction cs generalizing ws with
  | nil =>
    cases h
    simp at hw
  | cons c cs ih =>
    rw [List.mapM_cons] at h
    simp only [bind,Except.bind,pure,Except.pure] at h
    cases hx : writeRow Write.credential (f c) with
    | error e => simp [hx] at h
    | ok x =>
      cases hxs : cs.mapM fun c => writeRow Write.credential (f c) with
      | error e => simp [hx,hxs] at h
      | ok xs =>
        simp only [hx,hxs,Except.ok.injEq] at h
        subst h
        rcases List.mem_cons.mp hw with rfl | hw
        · obtain ⟨hc,rfl⟩ := writeRow_ok.mp hx
          exact ⟨c,List.mem_cons_self ..,hc,rfl⟩
        · obtain ⟨c',hm,hc,rfl⟩ := ih hxs hw
          exact ⟨c',List.mem_cons_of_mem _ hm,hc,rfl⟩

/-- Rewritten credentials of an account of the organization stay in their places. -/
lemma within_rewritten {f : Credential → Credential} (hk : ∀ c, (f c).credentialId = c.credentialId)
    (ha : ∀ c, (f c).serviceAccountId = c.serviceAccountId) {id : String} (hid : d.Has O id) {cs : List Credential}
    (hcs : ∀ c ∈ cs, c ∈ d.credentialsOf id) {ws : List Write}
    (h : (cs.mapM fun c => writeRow .credential (f c)) = .ok ws) : ∀ w ∈ ws, w.Within O d := by
  intro w hw
  obtain ⟨c,hc,hcheck,rfl⟩ := mem_of_mapM_writeRow h hw
  have hmem := List.mem_filter.mp (hcs c hc)
  have hof : c.serviceAccountId = id := of_decide_eq_true hmem.2
  refine ⟨by rw [ha c,hof]; exact hid,fun c' hc' => ?_⟩
  rw [hk c] at hc'
  have hsame : d.credentials.find c.credentialId = some c := Table.find_of_mem hmem.1
  rw [hsame] at hc'
  cases hc'
  rw [hof]
  exact hid

/-- Its writes are inside of the organization too. -/
lemma TxStatement.Within.writes {s : TxStatement} (h : s.Within O d) {a : s.Answer} {ws : List Write}
    (hx : s.execute o now d = .ok (a, ws)) : ∀ w ∈ ws, w.Within O d := by
  cases s with
  | reloadAccount organizationId id | lockAccount organizationId id =>
    cases hx
    simp
  | completeCommand key nonce ciphertext =>
    simp only [TxStatement.execute] at hx
    split at hx
    · cases hx
      simp
    · next c hc =>
      cases hw : writeRow Write.command (c.succeed now nonce ciphertext) with
      | error e => simp [hw,bind,Except.bind] at hx
      | ok w =>
        simp only [hw,bind,Except.bind,pure,Except.pure,Except.ok.injEq,Prod.mk.injEq] at hx
        obtain ⟨hcheck,rfl⟩ := writeRow_ok.mp hw
        rw [← hx.2]
        simp [Write.Within]
  | boundCredentials validFrom overlapUntil id =>
    simp only [TxStatement.execute] at hx
    cases hm : ((d.credentialsOf id).filter (Credential.live validFrom)).mapM fun c =>
        writeRow Write.credential (c.bound validFrom overlapUntil) with
    | error e => simp [hm,bind,Except.bind] at hx
    | ok us =>
      simp only [hm,bind,Except.bind,pure,Except.pure,Except.ok.injEq,Prod.mk.injEq] at hx
      rw [← hx.2]
      exact within_rewritten (f := Credential.bound validFrom overlapUntil) (fun _ => rfl) (fun _ => rfl) h
        (fun c hc => (List.mem_filter.mp hc).1) hm
  | insertCredential k id verifier validFrom validUntil =>
    obtain ⟨⟨hcheck,rfl⟩,hnew⟩ := insertCredential_ok hx
    rw [List.forall_mem_singleton]
    refine ⟨h.1,fun c hc => ?_⟩
    simp only [insertedCredential,hnew,reduceCtorEq] at hc
  | advanceAccount id validFrom =>
    obtain ⟨a,ha,hao⟩ := has_iff.mp h
    have hkey : a.serviceAccountId = id := Table.key_of_find ha
    obtain ⟨hcheck,rfl⟩ := advanceAccount_ok ha hx
    rw [List.forall_mem_singleton]
    exact ⟨hao,by rw [Account.rotate,hkey]; exact h⟩
  | revokeAccount id now' =>
    obtain ⟨a,ha,hao⟩ := has_iff.mp h
    have hkey : a.serviceAccountId = id := Table.key_of_find ha
    obtain ⟨hcheck,rfl⟩ := revokeAccountStatement_ok ha hx
    rw [List.forall_mem_singleton]
    exact ⟨hao,by rw [Account.revoke,hkey]; exact h⟩
  | revokeCredentials id now' =>
    simp only [TxStatement.execute] at hx
    cases hm : (d.credentialsOf id).mapM fun c => writeRow Write.credential (c.revoke now') with
    | error e => simp [hm,bind,Except.bind] at hx
    | ok us =>
      simp only [hm,bind,Except.bind,pure,Except.pure,Except.ok.injEq,Prod.mk.injEq] at hx
      rw [← hx.2]
      exact within_rewritten (f := Credential.revoke now') (fun _ => rfl) (fun _ => rfl) h (fun c hc => hc) hm
  | _ => exact h.elim

end Statements

/-- Two databases that agree on an organization and on the commands, each with its own others. -/
structure SameFor (O : String) (D D' : Database) (d d' : Database) : Prop where
  only : d.only O = d'.only O
  left : d.others O = D
  right : d'.others O = D'

section Sessions
variable {O : String} {D D' : Database} {E : Environment}

lemma SameFor.has {d d' : Database} (h : SameFor O D D' d d') (id : String) : d'.Has O id ↔ d.Has O id := by
  rw [Database.Has,Database.Has,h.only]

lemma SameFor.apply {d d' : Database} (h : SameFor O D D' d d') {ws : List Write} (hw : ∀ w ∈ ws, w.Within O d)
    (hw' : ∀ w ∈ ws, w.Within O d') : SameFor O D D' (d.apply ws) (d'.apply ws) := by
  obtain ⟨honly,hothers,-⟩ := within_apply hw
  obtain ⟨honly',hothers',-⟩ := within_apply hw'
  exact ⟨by rw [honly,honly',h.only],hothers.trans h.left,hothers'.trans h.right⟩

lemma SameFor.execute {d d' : Database} (h : SameFor O D D' d d') {s : TxStatement} {o : Collation} {now : Time}
    (hs : s.Within O d) (hs' : s.Within O d') : s.execute o now d' = s.execute o now d := by
  rw [← hs.execute,← hs'.execute,h.only]

open TxM

variable {x x' : Session × Database} {operation : String}

/-- A statement inside of the organization. -/
theorem together_within {s : TxStatement}
    {Q : Except ServiceAccountPluginError s.Answer → Except ServiceAccountPluginError s.Answer →
      Session × Database → Session × Database → Prop} (h : SameSession (SameFor O D D') x x')
    (hs : s.Within O (x.1.view x.2)) (hs' : s.Within O (x'.1.view x'.2))
    (hfail : ∀ e y y', SameSession (SameFor O D D') y y' → Q (.error e) (.error e) y y')
    (hok : ∀ a ws y y', SameSession (SameFor O D D') y y' →
      s.execute E.collation x.1.startedAt (x.1.view x.2) = .ok (a, ws) →
      (∀ id, (x.1.view x.2).Has O id → (y.1.view y.2).Has O id) → Q (.ok a) (.ok a) y y') :
    Together E (statement operation s) Q x x' := by
  refine together_statement h (fun t => h.view.execute hs hs') (fun t a ws hx => ?_) hfail fun a ws y y' hy hx hv => ?_
  · exact h.view.apply (hs.writes hx) (hs'.writes (by rw [h.view.execute hs hs',hx]))
  · refine hok a ws y y' hy hx fun id hid => ?_
    rw [hv]
    exact ((within_apply (hs.writes hx)).2.2 id).mpr hid

theorem together_completeSuccess {key : CommandKey} {nonce ciphertext : Bytes}
    {Q : Except ServiceAccountPluginError Unit → Except ServiceAccountPluginError Unit → Session × Database →
      Session × Database → Prop} (h : SameSession (SameFor O D D') x x')
    (hQ : ∀ r y y', SameSession (SameFor O D D') y y' → Q r r y y') : Together E (completeSuccess key nonce ciphertext) Q x x' := by
  refine Program.Both.bindExcept (together_within h trivial trivial (fun e y y' hy => hQ _ y y' hy) ?_)
  intro n ws y y' hy hx hhas
  change Program.Both _ _ (ite _ _ _ : TxM Unit).run (ite _ _ _ : TxM Unit).run Q y y'
  split_ifs with hn
  · exact hQ _ y y' hy
  · exact hQ _ y y' hy

theorem together_finish {β : Type} {key : CommandKey} {id missing : String} {result : AccountRow → β}
    {receipt : Sealing β}
    {Q : Except ServiceAccountPluginError β → Except ServiceAccountPluginError β → Session × Database →
      Session × Database → Prop} (h : SameSession (SameFor O D D') x x')
    (hQ : ∀ r y y', SameSession (SameFor O D D') y y' → Q r r y y') :
    Together E (finish key O id missing result receipt) Q x x' := by
  refine Program.Both.bindExcept (together_within h rfl rfl (fun e y y' hy => hQ _ y y' hy) ?_)
  intro row ws y y' hy hx hhas
  cases row with
  | none => exact hQ _ y y' hy
  | some row =>
    refine Program.Both.bindExcept (together_entropy fun r => ?_)
    obtain e | ⟨nonce,ciphertext⟩ := r
    · exact hQ _ y y' hy
    · refine Program.Both.bindExcept (together_completeSuccess hy fun r z z' hz => ?_)
      cases r with
      | error e => exact hQ _ z z' hz
      | ok u => exact hQ _ z z' hz

/-- The row that a locking query has found is one of the organization. -/
lemma has_of_locked {id : String} {row : AccountRow} {ws : List Write} {o : Collation} {now : Time} {d : Database}
    (h : (TxStatement.lockAccount O id).execute o now d = .ok (some row, ws)) : d.Has O id := by
  simp only [TxStatement.execute,Except.ok.injEq,Prod.mk.injEq] at h
  obtain ⟨a,ha,-⟩ := Option.map_eq_some_iff.mp h.1
  exact ⟨a,by rw [find_only,ha]⟩

/-- A rotation for the organization, its new id being none of another organization's. -/
theorem together_rotateAccount {r : RotateAccount} (hr : r.organizationId = O)
    (hD : D.credentials.find r.credentialId = none) (hD' : D'.credentials.find r.credentialId = none)
    (h : SameSession (SameFor O D D') x x') : Together E (rotateAccount r) (EndAlike (SameFor O D D')) x x' := by
  subst hr
  have hend : ∀ {β : Type} (res : β) y y', SameSession (SameFor r.organizationId D D') y y' →
      EndAlike (SameFor r.organizationId D D') res res y y' := fun _ _ _ hy => ⟨rfl,hy.shared⟩
  have hrollback : ∀ (operation : String) (m : Mutation AccountRow) y y', SameSession (SameFor r.organizationId D D') y y' →
      Together E (do rollback operation; return m) (EndAlike (SameFor r.organizationId D D')) y y' := by
    intro operation m y y' hy
    refine Program.Both.bindExcept (together_rollback fun res => ?_)
    cases res <;> exact hend _ y y' hy
  refine Program.Both.bindExcept (together_begin h fun res y y' hy => ?_)
  cases res with
  | error e => exact hend _ y y' hy
  | ok u =>
  refine Program.Both.bindExcept (together_within hy rfl rfl (fun e => hend _) ?_)
  intro current ws z z' hz hx hhas
  cases current with
  | none => exact hrollback _ _ z z' hz
  | some current =>
  have hid : (z.1.view z.2).Has r.organizationId r.serviceAccountId := hhas _ (has_of_locked hx)
  change Program.Both _ _ (ite _ _ _ : TxM (Mutation AccountRow)).run (ite _ _ _ : TxM (Mutation AccountRow)).run _ z z'
  split_ifs with hrevoked hrevision
  · exact hrollback _ _ z z' hz
  · exact hrollback _ _ z z' hz
  refine Program.Both.bindExcept (together_within hz hid ((hz.view.has _).mpr hid) (fun e => hend _) ?_)
  intro u₁ ws₁ a a' ha hx₁ hhas₁
  have hid₁ := hhas₁ _ hid
  refine Program.Both.bindExcept (together_within ha ⟨hid₁,by rw [ha.view.left]; exact hD⟩
    ⟨(ha.view.has _).mpr hid₁,by rw [ha.view.right]; exact hD'⟩ (fun e => hend _) ?_)
  intro u₂ ws₂ b b' hb hx₂ hhas₂
  have hid₂ := hhas₂ _ hid₁
  refine Program.Both.bindExcept (together_within hb hid₂ ((hb.view.has _).mpr hid₂) (fun e => hend _) ?_)
  intro u₃ ws₃ c c' hc hx₃ hhas₃
  refine Program.Both.bindExcept (together_finish hc fun res f f' hf => ?_)
  cases res with
  | error e => exact hend _ f f' hf
  | ok row =>
    refine Program.Both.bindExcept (together_commit hf fun res g g' hg => ?_)
    cases res <;> exact ⟨rfl,hg⟩

theorem together_revokeAccount {r : RevokeAccount} (hr : r.organizationId = O) (h : SameSession (SameFor O D D') x x') :
    Together E (revokeAccount r) (EndAlike (SameFor O D D')) x x' := by
  subst hr
  have hend : ∀ {β : Type} (res : β) y y', SameSession (SameFor r.organizationId D D') y y' →
      EndAlike (SameFor r.organizationId D D') res res y y' := fun _ _ _ hy => ⟨rfl,hy.shared⟩
  have hrollback : ∀ (operation : String) (m : Mutation (AccountRow × Bool)) y y',
      SameSession (SameFor r.organizationId D D') y y' →
      Together E (do rollback operation; return m) (EndAlike (SameFor r.organizationId D D')) y y' := by
    intro operation m y y' hy
    refine Program.Both.bindExcept (together_rollback fun res => ?_)
    cases res <;> exact hend _ y y' hy
  have hfinish : ∀ (changed : Bool) y y', SameSession (SameFor r.organizationId D D') y y' →
      Together E (do
        let result ← finish r.key r.organizationId r.serviceAccountId "revoked service account is missing"
          (fun row => (row,changed)) r.receipt
        commit "commit service-account revocation"
        return Mutation.updated result) (EndAlike (SameFor r.organizationId D D')) y y' := by
    intro changed y y' hy
    refine Program.Both.bindExcept (together_finish hy fun res f f' hf => ?_)
    cases res with
    | error e => exact hend _ f f' hf
    | ok row =>
      refine Program.Both.bindExcept (together_commit hf fun res g g' hg => ?_)
      cases res <;> exact ⟨rfl,hg⟩
  refine Program.Both.bindExcept (together_begin h fun res y y' hy => ?_)
  cases res with
  | error e => exact hend _ y y' hy
  | ok u =>
  refine Program.Both.bindExcept (together_within hy rfl rfl (fun e => hend _) ?_)
  intro current ws z z' hz hx hhas
  cases current with
  | none => exact hrollback _ _ z z' hz
  | some current =>
  have hid : (z.1.view z.2).Has r.organizationId r.serviceAccountId := hhas _ (has_of_locked hx)
  change Program.Both _ _ (ite _ _ _ : TxM (Mutation (AccountRow × Bool))).run
    (ite _ _ _ : TxM (Mutation (AccountRow × Bool))).run _ z z'
  split_ifs with hrevision
  · exact hrollback _ _ z z' hz
  dsimp only
  split_ifs with hchanged
  · refine Program.Both.bindExcept (together_nowUtc fun now => ?_)
    refine Program.Both.bindExcept (together_within hz hid ((hz.view.has _).mpr hid) (fun e => hend _) ?_)
    intro u₁ ws₁ a a' ha hx₁ hhas₁
    have hid₁ := hhas₁ _ hid
    refine Program.Both.bindExcept (together_within ha hid₁ ((ha.view.has _).mpr hid₁) (fun e => hend _) ?_)
    intro u₂ ws₂ b b' hb hx₂ hhas₂
    exact hfinish _ b b' hb
  · exact hfinish _ z z' hz

end Sessions

/-- What a statement on the pool may be about, inside of an organization. -/
def Statement.Within (O : String) : Statement → Prop
  | .loadAccount organizationId _ | .listAccounts organizationId _ _ => organizationId = O
  | .loadCredential _ => False
  | _ => True

/-- What a call of the organization asks for, with ids that others do not have. -/
def Effect.Within (O : String) (D D' : Database) : Effect → Prop
  | .pool (.execute s) => s.Within O
  | .pool _ => True
  | .transact (.rotateAccount r) => r.organizationId = O ∧ D.credentials.find r.credentialId = none ∧
    D'.credentials.find r.credentialId = none
  | .transact (.revokeAccount r) => r.organizationId = O
  | .transact _ => False

/-- The request is about the organization; an inspection is about commands alone. -/
def Call.Within {E : Environment} (O : String) : Call E → Prop
  | .get _ _ request => request.organizationId = O
  | .list _ _ request => request.organizationId = O
  | .rotateSecret _ _ request => request.organizationId = O
  | .revoke _ _ request => request.organizationId = O
  | .inspectCommand _ _ _ => True
  | _ => False

instance {E : Environment} (O : String) (call : Call E) : Decidable (call.Within O) :=
  match call with
  | .create _ _ _ | .exchangeSecret _ _ _ => inferInstanceAs (Decidable False)
  | .get _ _ request | .list _ _ request | .rotateSecret _ _ request | .revoke _ _ request =>
    inferInstanceAs (Decidable (request.organizationId = O))
  | .inspectCommand _ _ _ => inferInstanceAs (Decidable True)

section Calls
variable {O : String} {D D' : Database} {E : Environment}

lemma SameFor.commands {d d' : Database} (h : SameFor O D D' d d') : d'.commands = d.commands := by
  have honly := congrArg Database.commands h.only
  exact honly.symm

lemma SameFor.withCommands {d d' : Database} (h : SameFor O D D' d d') (t : Table Command) :
    SameFor O D D' { d with commands := t } { d' with commands := t } :=
  ⟨congrArg (fun x : Database => { x with commands := t }) h.only,h.left,h.right⟩

lemma listed_only (o : Collation) (O : String) (d : Database) (after : Option String) (n : ℕ) :
    (((d.accounts.rows.filter fun a => a.organizationId = O &&
        after.all fun cursor => !o.le a.serviceAccountId cursor).insertionSort
      fun a b => o.le a.serviceAccountId b.serviceAccountId = true).take n).map (accountRow o d) =
    ((((d.only O).accounts.rows.filter fun a => a.organizationId = O &&
        after.all fun cursor => !o.le a.serviceAccountId cursor).insertionSort
      fun a b => o.le a.serviceAccountId b.serviceAccountId = true).take n).map (accountRow o (d.only O)) := by
  have hrows : ((d.only O).accounts.rows.filter fun a => a.organizationId = O &&
      after.all fun cursor => !o.le a.serviceAccountId cursor) =
      d.accounts.rows.filter fun a => a.organizationId = O && after.all fun cursor => !o.le a.serviceAccountId cursor := by
    simp only [Database.only,Table.delete,List.filter_filter]
    apply List.filter_congr
    intro a _
    by_cases ha : a.organizationId = O <;> simp [ha]
  rw [hrows]
  apply List.map_congr_left
  intro a ha
  have hmem := List.mem_filter.mp ((List.perm_insertionSort ..).subset (List.mem_of_mem_take ha))
  have ho : a.organizationId = O := by
    have hp := hmem.2
    rw [Bool.and_eq_true] at hp
    exact of_decide_eq_true hp.1
  exact (accountRow_only o (has_iff.mpr ⟨a,Table.find_of_mem hmem.1,ho⟩)).symm

/-- A statement on the pool is answered alike. -/
theorem Statement.Within.execute {s : Statement} (hs : s.Within O) {d d' : Database} (h : SameFor O D D' d d')
    {o : Collation} {now : Time} :
    (∀ e, s.execute o now d = .error e → s.execute o now d' = .error e) ∧
      ∀ a t, s.execute o now d = .ok (a, t) → ∃ t', s.execute o now d' = .ok (a, t') ∧ SameFor O D D' t t' := by
  have hcommands := h.commands
  cases s with
  | prune ttl =>
    refine ⟨fun e he => (by cases he),fun a t hx => ?_⟩
    cases hx
    exact ⟨_,rfl,by rw [hcommands]; exact h.withCommands _⟩
  | reserveCommand key intentHash =>
    simp only [Statement.execute,hcommands]
    cases hw : writeRow Write.command (reservedCommand now key intentHash) with
    | error e => exact ⟨fun e he => he,fun a t hx => (by cases hx)⟩
    | ok w =>
      obtain ⟨hcheck,rfl⟩ := writeRow_ok.mp hw
      simp only [bind,Except.bind]
      split_ifs with hfound
      · refine ⟨fun e he => (by cases he),fun a t hx => ?_⟩
        cases hx
        exact ⟨_,rfl,h⟩
      · refine ⟨fun e he => (by cases he),fun a t hx => ?_⟩
        cases hx
        exact ⟨_,rfl,by rw [Write.apply,Write.apply,hcommands]; exact h.withCommands _⟩
  | loadCommand key =>
    simp only [Statement.execute,hcommands]
    cases d.commands.find key with
    | none => exact ⟨fun e he => he,fun a t hx => (by cases hx)⟩
    | some c =>
      refine ⟨fun e he => (by cases he),fun a t hx => ?_⟩
      cases hx
      exact ⟨_,rfl,h⟩
  | completeFailedCommand key errorCode =>
    simp only [Statement.execute,hcommands]
    cases (d.commands.find key).filter fun c => c.status.completable with
    | none =>
      refine ⟨fun e he => (by cases he),fun a t hx => ?_⟩
      cases hx
      exact ⟨_,rfl,h⟩
    | some c =>
      dsimp only
      cases hw : writeRow Write.command (c.fail now errorCode) with
      | error e => exact ⟨fun e he => he,fun a t hx => (by cases hx)⟩
      | ok w =>
        obtain ⟨hcheck,rfl⟩ := writeRow_ok.mp hw
        refine ⟨fun e he => (by cases he),fun a t hx => ?_⟩
        cases hx
        exact ⟨_,rfl,by rw [Write.apply,Write.apply,hcommands]; exact h.withCommands _⟩
  | loadAccount organizationId id =>
    obtain rfl : organizationId = O := hs
    refine ⟨fun e he => (by cases he),fun a t hx => ?_⟩
    cases hx
    refine ⟨_,?_,h⟩
    rw [Statement.execute,← accountIn_map_only o organizationId d',← h.only,accountIn_map_only]
  | listAccounts organizationId after n =>
    obtain rfl : organizationId = O := hs
    refine ⟨fun e he => (by cases he),fun a t hx => ?_⟩
    cases hx
    refine ⟨_,?_,h⟩
    simp only [Statement.execute]
    rw [listed_only o organizationId d',← h.only,← listed_only]
  | loadCredential k => exact hs.elim
  | inspectCommand key =>
    refine ⟨fun e he => (by cases he),fun a t hx => ?_⟩
    cases hx
    exact ⟨_,by simp only [Statement.execute,hcommands],h⟩

theorem Effect.Within.serial {o : Effect} (ho : o.Within O D D') {ch : Choice ⊕ List Choice} {a : Effect.Ans o}
    {d d' t : Database} (h : SameFor O D D' d d') (hx : (store E).serial o ch d = some (a, t)) :
    ∃ t', (store E).serial o ch d' = some (a, t') ∧ SameFor O D D' t t' := by
  cases o with
  | pool o =>
    obtain c | cs := ch
    swap
    · simp [Store.serial] at hx
    by_cases hs : ∃ s, o = .execute s
    · obtain ⟨s,rfl⟩ := hs
      obtain ⟨herror,hok⟩ := Statement.Within.execute ho h
      simp only [Store.serial,store,Op.handle] at hx ⊢
      cases hr : s.execute E.collation c.now d with
      | error e =>
        rw [herror e hr]
        rcases hf : c.fault with _ | (_ | _) <;> simp only [hr,hf,Option.some.injEq,Prod.mk.injEq] at hx ⊢ <;>
          obtain ⟨rfl,rfl⟩ := hx <;> exact ⟨_,⟨rfl,rfl⟩,h⟩
      | ok r =>
        obtain ⟨t',hr',ht⟩ := hok r.1 r.2 hr
        rw [hr']
        rcases hf : c.fault with _ | (_ | _) <;> simp only [hr,hf,Option.some.injEq,Prod.mk.injEq] at hx ⊢ <;>
          obtain ⟨rfl,rfl⟩ := hx
        · exact ⟨_,⟨rfl,rfl⟩,ht⟩
        · exact ⟨_,⟨rfl,rfl⟩,h⟩
        · exact ⟨_,⟨rfl,rfl⟩,ht⟩
    · cases o with
      | execute s => exact absurd ⟨s,rfl⟩ hs
      | _ =>
        simp only [Store.serial,store,Op.handle,Option.some.injEq,Prod.mk.injEq] at hx ⊢
        obtain ⟨rfl,rfl⟩ := hx
        exact ⟨_,⟨rfl,rfl⟩,h⟩
  | transact tx =>
    obtain c | cs := ch
    · simp [Store.serial] at hx
    have hfresh := SameSession.fresh h
    cases tx with
    | rotateAccount r => exact serial_of_together rfl (together_rotateAccount ho.1 ho.2.1 ho.2.2 hfresh) hx
    | revokeAccount r => exact serial_of_together rfl (together_revokeAccount ho hfresh) hx
    | _ => exact ho.elim

lemma Asks.within {call : Call E} {φ : Phase E} {h : Held E} {t : Transaction} (ha : Asks call φ h t)
    (hcall : call.Within O) (hnew : ∀ r, t = .rotateAccount r →
      D.credentials.find r.credentialId = none ∧ D'.credentials.find r.credentialId = none) :
    Effect.Within O D D' (.transact t) := by
  cases ha with
  | create hc => subst hc; exact hcall.elim
  | rotate hc hs hr =>
    subst hc
    exact ⟨hr.organizationId.trans hcall,hnew _ rfl⟩
  | revoke hc hr =>
    subst hc
    exact hr.organizationId.trans hcall
  | slot hc => subst hc; exact hcall.elim
  | mark hc => subst hc; exact hcall.elim
  | complete hc => subst hc; exact hcall.elim

lemma Permits.within {call : Call E} {φ : Phase E} {s : Statement} (hp : Permits call φ s) (hcall : call.Within O) :
    s.Within O := by
  cases hp with
  | credential hc => subst hc; exact hcall.elim
  | account hc => subst hc; exact hcall
  | accounts hc => subst hc; exact hcall
  | _ => trivial

/-- What a call of the organization asks for next is inside of the organization. -/
theorem Move.within {call : Call E} {φ φ' : Phase E} {o : Effect} {a : Effect.Ans o} (hm : Move call φ o a φ')
    (hcall : call.Within O) (hnew : ∀ r, o = .transact (.rotateAccount r) →
      D.credentials.find r.credentialId = none ∧ D'.credentials.find r.credentialId = none) : o.Within O D D' := by
  have hasks : ∀ {φ h t}, Asks call φ h t → o = .transact t → o.Within O D D' := by
    rintro φ h t ha rfl
    exact ha.within hcall fun r hr => hnew r (congrArg _ hr)
  cases hm with
  | lost hp => exact hp.within hcall
  | account hc => subst hc; exact hcall
  | accounts hc => subst hc; exact hcall
  | credential hc => subst hc; exact hcall.elim
  | created hc hs hr => exact hasks (.create hc hs hr) rfl
  | rotated hc hs hr => exact hasks (.rotate hc hs hr) rfl
  | revoked hc hr => exact hasks (.revoke hc hr) rfl
  | slotted hc => exact hasks (.slot hc) rfl
  | marked hc => exact hasks (.mark hc) rfl
  | completed hc hb hs => exact hasks (.complete hc hb hs) rfl
  | declined ha hd => exact hasks ha rfl
  | failed ha => exact hasks ha rfl
  | _ => trivial

/-- The rows that a call of the organization has seen are the organization's. -/
lemma seen_within {call : Call E} (hcall : call.Within O) {es : List (CallStep E)} {rows : List AccountRow}
    (hp : (protocol E).Path (store E).serial call es (.seen rows)) : ∀ row ∈ rows, row.organizationId = O := by
  generalize hφ : Phase.seen rows = φ at hp
  cases hp with
  | start hc ha => cases hφ
  | @move es φ₀ φ' o choice a x h hc ha hm hH =>
    subst hφ
    have hm' : Move call φ₀ o a (.seen rows) := hm
    cases hm' with
    | random hφ => cases hφ
    | account hc =>
      subst hc
      obtain ⟨now,hx⟩ := execute_of_serial hH
      simp only [Statement.execute,Except.ok.injEq,Prod.mk.injEq] at hx
      intro row hrow
      rw [← hx.1,Option.mem_toList] at hrow
      obtain ⟨a,ha,rfl⟩ := Option.map_eq_some_iff.mp hrow
      exact (of_decide_eq_true (Option.filter_eq_some_iff.mp ha).2).trans hcall
    | accounts hc hactive hlimit =>
      subst hc
      obtain ⟨now,hx⟩ := execute_of_serial hH
      exact fun row hrow => ((listAccounts_ok hx).2 row hrow).trans hcall

lemma shown_within {call : Call E} {rows : List AccountRow} (hrows : ∀ row ∈ rows, row.organizationId = O) {r : Reply}
    (h : call.shows rows r) : ∀ s ∈ r.shown, s.organizationId = O := by
  intro s hs
  cases call with
  | get plugin context request =>
    obtain rfl : r = .get (getAnswer E rows.head?) := h
    cases hr : rows.head? with
    | none => simp [getAnswer,hr,Reply.shown] at hs
    | some row =>
      cases ha : summary E row with
      | error e => simp [getAnswer,hr,ha,Reply.shown] at hs
      | ok account =>
        simp only [getAnswer,hr,ha,Reply.shown,List.mem_singleton] at hs
        subst hs
        rw [(summary_ok ha).organizationId]
        exact hrows row (List.mem_of_head? hr)
  | list plugin context request =>
    obtain ⟨active,limit,-,-,rfl⟩ := h
    cases hm : (rows.take limit).mapM (summary E) with
    | error e => simp [listAnswer,hm,Reply.shown] at hs
    | ok accounts =>
      simp only [listAnswer,hm,Reply.shown] at hs
      obtain ⟨row,hrow,ha⟩ := mem_of_mapM_ok hm hs
      rw [(summary_ok ha).organizationId]
      exact hrows row (List.mem_of_mem_take hrow)
  | _ => exact h.elim

/-- What a call of the organization shows is the organization's. -/
theorem shown_of_reply {call : Call E} (hcall : call.Within O) {es : List (CallStep E)} {φ : Phase E}
    (hp : (protocol E).Path (store E).serial call es φ) {r : Reply} (h : Last call r φ) :
    ∀ s ∈ r.shown, s.organizationId = O := by
  intro s hs
  obtain ⟨held,command,K,-,hK,rfl⟩ | ⟨held,rfl⟩ | ⟨rows,rfl,hshows⟩ | ⟨status,-,rfl⟩ :=
    h.succeeds (Reply.succeeds_of_shown hs)
  · rw [Kind.shown hK] at hs
    cases hs
  · generalize hφ : Phase.settled held r = φ at hp
    cases hp with
    | start hc ha => cases hφ
    | @move es φ₀ φ' o choice a x hpath hc ha hm hH =>
      subst hφ
      have hm' : Move call φ₀ o a (.settled held r) := hm
      rw [hm'.settled_shown] at hs
      cases hs
  · exact shown_within (seen_within hcall hp) hshows s hs
  · cases hs

end Calls

/-- The calls of one organization, in any number and interleaved in any way, go the same way in two
databases that agree on the organization and on the commands: they are answered and they reply alike, they
leave the same behind for the organization, and neither run changes anything of another organization or
shows any of its accounts. -/
theorem organizations_isolated {E : Environment} {O : String} {d d' : Database} (hsame : d.only O = d'.only O)
    {ls : List (Label (Call E) (Choice ⊕ List Choice))} {c : Config (Call E) Effect Effect.Ans Reply Database}
    (hrun : (Config.init d).run Call.main (store E).serial ls = some c)
    (hcalls : ∀ e ∈ c.trace, e.call.Within O)
    (hnew : ∀ e ∈ c.trace, ∀ r, transactionOf e = some (.rotateAccount r) →
      (d.others O).credentials.find r.credentialId = none ∧ (d'.others O).credentials.find r.credentialId = none) :
    (∃ c', (Config.init d').run Call.main (store E).serial ls = some c' ∧ c'.threads = c.threads ∧
      List.Forall₂ Config.SameAct c.trace c'.trace ∧ c'.state.only O = c.state.only O ∧
      c'.state.others O = d'.others O) ∧
    c.state.others O = d.others O ∧
    ∀ e ∈ c.trace, ∀ r, e.action = .reply r → ∀ s ∈ r.shown, s.organizationId = O := by
  have hreach : Config.Reachable Call.main (store E).serial d c := Config.leads_of_run hrun
  have hgood : ∀ e ∈ c.trace, ∀ o a, e.action = .perform o a → o.Within O (d.others O) (d'.others O) := by
    intro e he o a ha
    obtain ⟨post,pre,htr⟩ := List.append_of_mem he
    obtain ⟨φ,φ',choice,-,hm,-⟩ := Protocol.path_of_perform (obeyed E) hreach htr ha
    refine hm.within (hcalls e he) fun r hr => hnew e he r ?_
    subst hr
    simp only [transactionOf,ha]
  have hinit : Config.Alike (SameFor O (d.others O) (d'.others O)) (Config.init d)
      (Config.init d' : Config (Call E) Effect Effect.Ans Reply Database) := ⟨⟨hsame,rfl,rfl⟩,rfl,.nil⟩
  have hserial : ∀ (o : Effect) ch (a : o.Ans) s s' t, o.Within O (d.others O) (d'.others O) →
      SameFor O (d.others O) (d'.others O) s s' → (store E).serial o ch s = some (a,t) →
      ∃ t', (store E).serial o ch s' = some (a,t') ∧ SameFor O (d.others O) (d'.others O) t t' :=
    fun o ch a s s' t ho hs hx => ho.serial hs hx
  obtain ⟨c',hrun',halike⟩ := Config.Alike.run hserial hinit hrun hgood
  refine ⟨⟨c',hrun',halike.threads,halike.trace,halike.state.only.symm,halike.state.right⟩,halike.state.left,?_⟩
  intro e he r ha
  obtain ⟨post,pre,htr⟩ := List.append_of_mem he
  obtain ⟨φ,hpath,hlast⟩ := Protocol.path_of_reply (obeyed E) hreach htr ha
  exact shown_of_reply (hcalls e he) hpath hlast

/-- The sample database, shared with another organization. -/
def sampleShared : Database where
  accounts := sampleStore.accounts.put (insertedAccount 0 "sa_9" "other" "stranger" "robot" "robot") (by decide)
  credentials := sampleStore.credentials.put
    (insertedCredential 0 "sac_9" "sa_9" sampleVerifier (seconds 100) (seconds 400)) (by decide)
  commands := sampleStore.commands
  limits := ∅

/-- The checks of a management call, passed. -/
def samplePassed (i : ℕ) : List (Label (Call .plain) (Choice ⊕ List Choice)) :=
  [.perform i (.inl {}),.perform i (.inl { assertion := some ⟨"user","alice"⟩ }),
    .perform i (.inl { membership := .ok ⟨true⟩ }),.perform i (.inl { permission := .ok ⟨true⟩ })]

/-- Call `0` asks for the other organization's account and call `1` rotates a secret. -/
noncomputable def sampleVisit : List (Label (Call .plain) (Choice ⊕ List Choice)) :=
  [.start (.get samplePlugin ⟨some "console"⟩ ⟨"org","sa_9"⟩)] ++ samplePassed 0 ++
  [.start (.rotateSecret samplePlugin ⟨some "console"⟩ ⟨"1","k7","org","sa_1"⟩)] ++ samplePassed 1 ++
  [.perform 1 (.inl {}),.perform 1 (.inl {}),.perform 1 (.inl { entropy := some (List.replicate 18 0) }),
    .perform 1 (.inl { entropy := some (List.replicate 32 0) }),
    .perform 1 (.inl { entropy := some (List.replicate 16 0) }),.perform 1 (.inl { clock := seconds 200 }),
    .perform 1 (.inr [{},{},{},{},{},{},{ entropy := some (List.replicate 12 0) },{},{}]),
    .reply 1,.perform 0 (.inl {}),.reply 0]

set_option maxRecDepth 4000 in
noncomputable def sampleVisited : Config (Call .plain) Effect Effect.Ans Reply Database :=
  ((Config.init sampleShared).run Call.main (store .plain).serial sampleVisit).get (by decide +kernel)

lemma sampleVisited_run :
    (Config.init sampleShared).run Call.main (store .plain).serial sampleVisit = some sampleVisited :=
  (Option.some_get _).symm

/-- The rotations of a step use an id that is none of another organization's in the sample. -/
def sampleFresh (e : CallStep .plain) : Bool :=
  (transactionOf e).all fun
    | .rotateAccount r => ((sampleShared.others "org").credentials.find r.credentialId).isNone &&
      ((sampleStore.others "org").credentials.find r.credentialId).isNone
    | _ => true

set_option maxRecDepth 4000 in
lemma sampleVisited_fresh : ∀ e ∈ sampleVisited.trace, sampleFresh e = true := by decide +kernel

lemma sampleVisited_new : ∀ e ∈ sampleVisited.trace, ∀ r, transactionOf e = some (.rotateAccount r) →
    (sampleShared.others "org").credentials.find r.credentialId = none ∧
      (sampleStore.others "org").credentials.find r.credentialId = none := by
  intro e he r ht
  have hf := sampleVisited_fresh e he
  rw [sampleFresh,ht] at hf
  simpa only [Option.all_some,Bool.and_eq_true,Option.isNone_iff_eq_none] using hf

set_option maxRecDepth 4000 in
lemma sampleVisited_within : ∀ e ∈ sampleVisited.trace, e.call.Within "org" := by decide +kernel

lemma sampleShared_only : sampleShared.only "org" = sampleStore.only "org" :=
  only_eq (by decide +kernel) (by decide +kernel) rfl

/-- Without the other organization the two calls go the same way: its account is as good as absent. -/
theorem organizations_isolated_sample : ∃ c',
    (Config.init sampleStore).run Call.main (store .plain).serial sampleVisit = some c' ∧
      List.Forall₂ Config.SameAct sampleVisited.trace c'.trace ∧
      sampleVisited.state.others "org" = sampleShared.others "org" := by
  obtain ⟨⟨c',hrun,-,htrace,-⟩,hothers,-⟩ :=
    organizations_isolated sampleShared_only sampleVisited_run sampleVisited_within sampleVisited_new
  exact ⟨c',hrun,htrace,hothers⟩

end LensoServiceAccount
