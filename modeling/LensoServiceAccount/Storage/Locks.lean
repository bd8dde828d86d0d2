import LensoServiceAccount.Effect
import LensoServiceAccount.Storage.Logic

/-! The transactions lock whatever they rely on: what a lock covers, the order in which the
statements come to their locks, and from both that an interleaved run is a serial one. -/

namespace LensoServiceAccount

/-- The part of the database that a lock covers is the same in both. -/
def Lock.Same (E : Environment) (d d' : Database) : Lock → Prop
  | .advisory h => ∀ org, E.hashtextextended org = h →
    (d.accounts.rows.countP fun a => a.organizationId = org) =
      d'.accounts.rows.countP fun a => a.organizationId = org
  | .account serviceAccountId => d.accounts.find serviceAccountId = d'.accounts.find serviceAccountId ∧
    d.credentialsOf serviceAccountId = d'.credentialsOf serviceAccountId
  | .subject value => (d.accounts.rows.countP fun a => a.subject = value) =
    d'.accounts.rows.countP fun a => a.subject = value
  | .name org value => (d.accounts.rows.countP fun a => a.organizationId = org && a.nameKey = value) =
    d'.accounts.rows.countP fun a => a.organizationId = org && a.nameKey = value
  | .credential credentialId => d.credentials.find credentialId = d'.credentials.find credentialId
  | .command key => d.commands.find key = d'.commands.find key
  | .limit caller => d.limits.find caller = d'.limits.find caller

/-- Rate rows and credentials are never deleted. -/
structure RowsStay (d d' : Database) : Prop where
  limits : ∀ caller, (d.limits.find caller).isSome = true → (d'.limits.find caller).isSome = true
  credentials : ∀ credentialId, (d.credentials.find credentialId).isSome = true →
    (d'.credentials.find credentialId).isSome = true

/-- A write under the locks `ls` that cover it: of the row itself, and for a new account also of
its organization, its subject and its name. It does not move a row to another owner. -/
def Write.Proper (E : Environment) (ls : List Lock) (d : Database) : Write → Prop
  | .account a _ => .account a.serviceAccountId ∈ ls ∧
    (d.accounts.find a.serviceAccountId = none ∧ .advisory (E.hashtextextended a.organizationId) ∈ ls ∧
        .subject a.subject ∈ ls ∧ .name a.organizationId a.nameKey ∈ ls ∨
      ∃ b, d.accounts.find a.serviceAccountId = some b ∧ b.organizationId = a.organizationId ∧
        b.subject = a.subject ∧ b.nameKey = a.nameKey)
  | .credential c _ => .credential c.credentialId ∈ ls ∧ .account c.serviceAccountId ∈ ls ∧
    ∀ b, d.credentials.find c.credentialId = some b → b.serviceAccountId = c.serviceAccountId
  | .command c _ => .command c.key ∈ ls
  | .limit l _ => .limit l.callerInstance ∈ ls

/-- Writes made one after the other, each under locks that cover it. -/
def ProperWrites (E : Environment) (ls : List Lock) : Database → List Write → Prop
  | _, [] => True
  | d, w :: ws => w.Proper E ls d ∧ ProperWrites E ls (w.apply d) ws

section Covers
variable {E : Environment} {ls ls' : List Lock} {d d' d'' : Database} {lk : Lock} {w : Write}
  {ws us : List Write}

@[simp] theorem Lock.Same.refl (d : Database) (lk : Lock) : lk.Same E d d := by
  cases lk <;> simp [Lock.Same]

theorem Lock.Same.trans (h : lk.Same E d d') (h' : lk.Same E d' d'') : lk.Same E d d'' := by
  cases lk with
  | advisory a => exact fun org ho => (h org ho).trans (h' org ho)
  | account id => exact ⟨h.1.trans h'.1,h.2.trans h'.2⟩
  | subject s => exact Eq.trans h h'
  | name o n => exact Eq.trans h h'
  | credential c => exact Eq.trans h h'
  | command k => exact Eq.trans h h'
  | limit c => exact Eq.trans h h'

lemma Write.Proper.mono (h : w.Proper E ls d) (hs : ls ⊆ ls') : w.Proper E ls' d := by
  cases w with
  | account a _ =>
    refine ⟨hs h.1,h.2.imp ?_ id⟩
    rintro ⟨hn,ha,hsub,hname⟩
    exact ⟨hn,hs ha,hs hsub,hs hname⟩
  | credential c _ => exact ⟨hs h.1,hs h.2.1,h.2.2⟩
  | command c _ => exact hs h
  | limit l _ => exact hs h

lemma ProperWrites.mono (h : ProperWrites E ls d ws) (hs : ls ⊆ ls') : ProperWrites E ls' d ws := by
  induction ws generalizing d with
  | nil => trivial
  | cons w ws ih => exact ⟨h.1.mono hs,ih h.2⟩

lemma ProperWrites.append (h : ProperWrites E ls d ws) (h' : ProperWrites E ls (d.apply ws) us) :
    ProperWrites E ls d (ws ++ us) := by
  induction ws generalizing d with
  | nil => exact h'
  | cons w ws ih => exact ⟨h.1,ih h.2 h'⟩

/-- Two databases in which a locked row is the same still agree on it after the same write. -/
lemma Write.Proper.congr (hw : w.Proper E ls d) (hs : ∀ lk ∈ ls, lk.Same E d d') :
    ∀ lk ∈ ls, lk.Same E (w.apply d) (w.apply d') := by
  intro lk hlk
  have hlk' := hs lk hlk
  cases w with
  | account a h =>
    obtain ⟨hfind,hcreds⟩ := hs _ hw.1
    have hcount : ∀ p : Account → Bool, d.accounts.rows.countP p = d'.accounts.rows.countP p →
        (d.accounts.put a h).rows.countP p = (d'.accounts.put a h).rows.countP p := by
      intro p hp
      have h₁ := d.accounts.countP_put h p
      have h₂ := d'.accounts.countP_put h p
      rw [key_account,hfind] at h₁
      rw [key_account] at h₂
      omega
    cases lk with
    | advisory k => exact fun org ho => hcount _ (hlk' org ho)
    | account id => exact ⟨by simp only [Write.apply,Table.find_put,hlk'.1],hlk'.2⟩
    | subject s => exact hcount _ hlk'
    | name o n => exact hcount _ hlk'
    | _ => exact hlk'
  | credential c h =>
    have hfind : d.credentials.find c.credentialId = d'.credentials.find c.credentialId := hs _ hw.1
    cases lk with
    | account id =>
      refine ⟨hlk'.1,Table.filter_put_congr h hfind hlk'.2 ?_⟩
      intro x hx
      rw [hw.2.2 x hx]
    | credential k =>
      change (d.credentials.put c h).find k = (d'.credentials.put c h).find k
      rw [Table.find_put,Table.find_put,show d.credentials.find k = d'.credentials.find k from hlk']
    | _ => exact hlk'
  | command c h =>
    cases lk with
    | command k =>
      change (d.commands.put c h).find k = (d'.commands.put c h).find k
      rw [Table.find_put,Table.find_put,show d.commands.find k = d'.commands.find k from hlk']
    | _ => exact hlk'
  | limit l h =>
    cases lk with
    | limit k =>
      change (d.limits.put l h).find k = (d'.limits.put l h).find k
      rw [Table.find_put,Table.find_put,show d.limits.find k = d'.limits.find k from hlk']
    | _ => exact hlk'

lemma ProperWrites.congr (hw : ProperWrites E ls d ws) (hs : ∀ lk ∈ ls, lk.Same E d d') :
    ∀ lk ∈ ls, lk.Same E (d.apply ws) (d'.apply ws) := by
  induction ws generalizing d d' with
  | nil => exact hs
  | cons w ws ih => exact ih hw.2 (hw.1.congr hs)

/-- A write leaves everything alone that none of its locks covers. -/
lemma Write.Proper.frame (hw : w.Proper E ls d) (hlk : lk ∉ ls) : lk.Same E d (w.apply d) := by
  cases w with
  | account a h =>
    have hcount : ∀ p : Account → Bool,
        (p a = true → ∃ b, d.accounts.find a.serviceAccountId = some b ∧ p b = true) →
        (p a = false → ∀ b, d.accounts.find a.serviceAccountId = some b → p b = false) →
        d.accounts.rows.countP p = (d.accounts.put a h).rows.countP p := by
      intro p htrue hfalse
      have hput := d.accounts.countP_put h p
      rw [key_account] at hput
      cases hp : p a with
      | true =>
        obtain ⟨b,hb,hpb⟩ := htrue hp
        simp only [hb,Option.toList_some,List.countP_cons,List.countP_nil,hpb,hp,if_true] at hput
        omega
      | false =>
        have hnone : (d.accounts.find a.serviceAccountId).toList.countP p = 0 := by
          rw [List.countP_eq_zero]
          intro b hb
          simpa using hfalse hp b (by simpa using hb)
        simp only [hnone,List.countP_cons,List.countP_nil,hp,Bool.false_eq_true,if_false] at hput
        omega
    cases lk with
    | advisory k =>
      rintro org rfl
      apply hcount
      · intro ho
        obtain rfl : a.organizationId = org := of_decide_eq_true ho
        obtain ⟨-,ha,-⟩ | ⟨b,hb,ho,-,-⟩ := hw.2
        · exact absurd ha hlk
        · exact ⟨b,hb,by simp [ho]⟩
      · intro ho b hb
        obtain ⟨hn,-⟩ | ⟨b',hb',ho',-,-⟩ := hw.2
        · exact absurd (hn.symm.trans hb) (by simp)
        · obtain rfl := Option.some.inj (hb.symm.trans hb')
          simpa [ho'] using ho
    | subject s =>
      apply hcount
      · intro hs
        obtain rfl : a.subject = s := of_decide_eq_true hs
        obtain ⟨-,-,ha,-⟩ | ⟨b,hb,-,hs',-⟩ := hw.2
        · exact absurd ha hlk
        · exact ⟨b,hb,by simp [hs']⟩
      · intro hs b hb
        obtain ⟨hn,-⟩ | ⟨b',hb',-,hs',-⟩ := hw.2
        · exact absurd (hn.symm.trans hb) (by simp)
        · obtain rfl := Option.some.inj (hb.symm.trans hb')
          simpa [hs'] using hs
    | name o n =>
      apply hcount
      · intro hs
        simp only [Bool.and_eq_true,decide_eq_true_eq] at hs
        obtain ⟨rfl,rfl⟩ := hs
        obtain ⟨-,-,-,ha⟩ | ⟨b,hb,ho,-,hn⟩ := hw.2
        · exact absurd ha hlk
        · exact ⟨b,hb,by simp [ho,hn]⟩
      · intro hs b hb
        obtain ⟨hn,-⟩ | ⟨b',hb',ho',-,hn'⟩ := hw.2
        · exact absurd (hn.symm.trans hb) (by simp)
        · obtain rfl := Option.some.inj (hb.symm.trans hb')
          simpa [ho',hn'] using hs
    | account id =>
      have hne : a.serviceAccountId ≠ id := fun he => hlk (he ▸ hw.1)
      exact ⟨(Table.find_put_of_ne _ h hne).symm,rfl⟩
    | _ => simp [Lock.Same,Write.apply]
  | credential c h =>
    cases lk with
    | account id =>
      have hne : c.serviceAccountId ≠ id := fun he => hlk (he ▸ hw.2.1)
      refine ⟨rfl,(Table.filter_put _ h _ (by simpa using hne) ?_).symm⟩
      intro x hx
      simpa [hw.2.2 x hx] using hne
    | credential k =>
      have hne : c.credentialId ≠ k := fun he => hlk (he ▸ hw.1)
      exact (Table.find_put_of_ne _ h hne).symm
    | _ => simp [Lock.Same,Write.apply]
  | command c h =>
    cases lk with
    | command k =>
      have hne : c.key ≠ k := fun he => hlk (he ▸ hw)
      exact (Table.find_put_of_ne _ h hne).symm
    | _ => simp [Lock.Same,Write.apply,Database.credentialsOf]
  | limit l h =>
    cases lk with
    | limit k =>
      have hne : l.callerInstance ≠ k := fun he => hlk (he ▸ hw)
      exact (Table.find_put_of_ne _ h hne).symm
    | _ => simp [Lock.Same,Write.apply,Database.credentialsOf]

lemma ProperWrites.frame (hw : ProperWrites E ls d ws) (hlk : lk ∉ ls) : lk.Same E d (d.apply ws) := by
  induction ws generalizing d with
  | nil => exact Lock.Same.refl d lk
  | cons w ws ih => exact (hw.1.frame hlk).trans (ih hw.2)

lemma RowsStay.refl (d : Database) : RowsStay d d := ⟨fun _ h => h,fun _ h => h⟩

lemma RowsStay.trans (h : RowsStay d d') (h' : RowsStay d' d'') : RowsStay d d'' :=
  ⟨fun caller hc => h'.limits caller (h.limits caller hc),fun id hc => h'.credentials id (h.credentials id hc)⟩

lemma find_put_stays {ρ κ : Type} [DecidableEq κ] [Row ρ κ] {t t' : Table ρ} {k : κ} (r : ρ) (hr : Row.check r = true)
    (h : (t.find k).isSome = true → (t'.find k).isSome = true) (hk : ((t.put r hr).find k).isSome = true) :
    ((t'.put r hr).find k).isSome = true := by
  rw [Table.find_put] at hk ⊢
  split_ifs at hk ⊢
  · rfl
  · exact h hk

lemma isSome_find_put {ρ κ : Type} [DecidableEq κ] [Row ρ κ] {t : Table ρ} {k : κ} (r : ρ) (hr : Row.check r = true)
    (hk : (t.find k).isSome = true) : ((t.put r hr).find k).isSome = true := by
  rw [Table.find_put]
  split_ifs <;> simp [hk]

lemma rowsStay_write (w : Write) (d : Database) : RowsStay d (w.apply d) := by
  cases w with
  | limit l h => exact ⟨fun caller hc => isSome_find_put l h hc,fun _ h => h⟩
  | account a _ => exact ⟨fun _ h => h,fun _ h => h⟩
  | credential c h => exact ⟨fun _ h => h,fun id hc => isSome_find_put c h hc⟩
  | command c _ => exact ⟨fun _ h => h,fun _ h => h⟩

lemma rowsStay_apply (ws : List Write) (d : Database) : RowsStay d (d.apply ws) := by
  induction ws generalizing d with
  | nil => exact .refl d
  | cons w ws ih => exact (rowsStay_write w d).trans (ih (w.apply d))

lemma RowsStay.congr_write (h : RowsStay d d') (w : Write) : RowsStay (w.apply d) (w.apply d') := by
  cases w with
  | limit l hl => exact ⟨fun caller hc => find_put_stays l hl (h.limits caller) hc,h.credentials⟩
  | account a _ => exact ⟨h.limits,h.credentials⟩
  | credential c hc => exact ⟨h.limits,fun id hk => find_put_stays c hc (h.credentials id) hk⟩
  | command c _ => exact ⟨h.limits,h.credentials⟩

lemma RowsStay.congr (h : RowsStay d d') (ws : List Write) : RowsStay (d.apply ws) (d'.apply ws) := by
  induction ws generalizing d d' with
  | nil => exact h
  | cons w ws ih => exact ih (h.congr_write w)

end Covers

/-- What a transaction has locked so far, and which credentials it has found to belong to which
account. -/
structure Holding where
  locks : List Lock
  owners : List (String × String)

inductive TxPhase
  | idle
  | holding (h : Holding)
  | closed

/-- The locks that a statement takes whatever it finds. -/
def TxStatement.acquires (E : Environment) : TxStatement → List Lock
  | .advisoryLock organizationId => [.advisory (E.hashtextextended organizationId)]
  | .insertAccount serviceAccountId organizationId subject _ nameKey =>
    [.account serviceAccountId,.subject subject,.name organizationId nameKey]
  | .lockAccount _ serviceAccountId => [.account serviceAccountId]
  | .lockAccountStatus serviceAccountId => [.account serviceAccountId]
  | _ => []

/-- The locks that a statement relies on without taking them itself. -/
def TxStatement.Guarded (E : Environment) (h : Holding) : TxStatement → Prop
  | .countAccounts organizationId | .insertAccount _ organizationId _ _ _ =>
    .advisory (E.hashtextextended organizationId) ∈ h.locks
  | .insertCredential _ serviceAccountId _ _ _ | .reloadAccount _ serviceAccountId
  | .boundCredentials _ _ serviceAccountId | .revokeCredentials serviceAccountId _
  | .recheckCredential _ serviceAccountId _ => .account serviceAccountId ∈ h.locks
  | .recordUse credentialId _ => ∃ serviceAccountId, (credentialId,serviceAccountId) ∈ h.owners ∧
    .account serviceAccountId ∈ h.locks
  | .markIssuing _ _ credentialId _ => .credential credentialId ∈ h.locks
  | _ => True

/-- What an answered statement adds. -/
def Holding.after (E : Environment) (h : Holding) : (s : TxStatement) → s.Answer → Holding
  | .recheckCredential credentialId serviceAccountId _, some _ =>
    ⟨h.locks ++ [.credential credentialId],(credentialId,serviceAccountId) :: h.owners⟩
  | s, _ => ⟨h.locks ++ s.acquires E,h.owners⟩

/-- The order of a transaction: it begins, makes statements under the locks they rely on, and
asks for nothing more once a statement has failed or the transaction has ended. -/
def TxMove (E : Environment) : TxPhase → (o : TxOp) → o.Ans → TxPhase → Prop
  | .idle, .begin, .ok _, φ => φ = .holding ⟨[],[]⟩
  | .idle, .begin, .error _, φ => φ = .closed
  | .holding h, .nowUtc, _, φ => φ = .holding h
  | .holding h, .getrandom _, _, φ => φ = .holding h
  | .holding h, .execute s, .ok a, φ => s.Guarded E h ∧ φ = .holding (h.after E s a)
  | .holding h, .execute s, .error _, φ => s.Guarded E h ∧ φ = .closed
  | .holding _, .commit, _, φ => φ = .closed
  | .holding _, .rollback, _, φ => φ = .closed
  | _, _, _, _ => False

namespace TxM
variable {E : Environment} {α β : Type}

/-- `p` keeps to the order of a transaction. -/
def Follows (E : Environment) (p : TxM α) (φ : TxPhase)
    (Q : Except ServiceAccountPluginError α → TxPhase → Prop) : Prop :=
  Program.Conforms (fun _ _ => True) (TxMove E) p.run φ Q

variable {φ : TxPhase} {h : Holding} {operation : String}
  {Q : Except ServiceAccountPluginError α → TxPhase → Prop}

theorem follows_bind {p : TxM α} {f : α → TxM β} {R : Except ServiceAccountPluginError β → TxPhase → Prop}
    (hp : Follows E p φ fun r φ' =>
      match r with
      | .ok a => Follows E (f a) φ' R
      | .error e => R (.error e) φ') : Follows E (p >>= f) φ R := by
  refine (Program.conforms_bind_except p f φ R).mpr (hp.mono ?_)
  rintro (e | a) φ' hr <;> exact hr

theorem follows_begin {R : Except ServiceAccountPluginError Unit → TxPhase → Prop}
    (hfail : ∀ e, R (.error e) .closed) (hok : R (.ok ()) (.holding ⟨[],[]⟩)) :
    Follows E (begin operation) .idle R := by
  rintro (e | u) -
  · exact ⟨.closed,rfl,hfail _⟩
  · exact ⟨_,rfl,hok⟩

theorem follows_statement {s : TxStatement}
    {R : Except ServiceAccountPluginError s.Answer → TxPhase → Prop} (hg : s.Guarded E h)
    (hfail : ∀ e, R (.error e) .closed) (hok : ∀ a, R (.ok a) (.holding (h.after E s a))) :
    Follows E (statement operation s) (.holding h) R := by
  rintro (e | a) -
  · exact ⟨.closed,⟨hg,rfl⟩,hfail _⟩
  · exact ⟨_,⟨hg,rfl⟩,hok a⟩

theorem follows_commit {R : Except ServiceAccountPluginError Unit → TxPhase → Prop}
    (hr : ∀ r, R r .closed) : Follows E (commit operation) (.holding h) R :=
  fun _ _ => ⟨.closed,rfl,hr _⟩

theorem follows_rollback {R : Except ServiceAccountPluginError Unit → TxPhase → Prop}
    (hr : ∀ r, R r .closed) : Follows E (rollback operation) (.holding h) R :=
  fun _ _ => ⟨.closed,rfl,hr _⟩

theorem follows_nowUtc {R : Except ServiceAccountPluginError Time → TxPhase → Prop}
    (hr : ∀ t, R (.ok t) (.holding h)) : Follows E nowUtc (.holding h) R :=
  fun t _ => ⟨.holding h,rfl,hr t⟩

theorem follows_entropy {p : Entropy ServiceAccountPluginError α} (hr : ∀ r, Q r (.holding h)) :
    Follows E (entropy p) (.holding h) Q :=
  Program.conforms_translate (fun _ _ => True) (fun _ _ _ => ⟨rfl,trivial⟩) fun r _ => hr r

end TxM

section Bodies
open TxM
variable {E : Environment} {h : Holding}

lemma completeSuccess_follows {key : CommandKey} {nonce ciphertext : Bytes}
    {Q : Except ServiceAccountPluginError Unit → TxPhase → Prop} (hfail : ∀ e φ, Q (.error e) φ)
    (hok : ∀ h', Q (.ok ()) (.holding h')) :
    Follows E (completeSuccess key nonce ciphertext) (.holding h) Q := by
  refine follows_bind (follows_statement trivial (fun _ => hfail _ _) fun changed => ?_)
  dsimp only
  split_ifs
  · exact hfail _ _
  · exact hok _

lemma finish_follows {α : Type} {key : CommandKey} {organizationId serviceAccountId missing : String}
    {result : AccountRow → α} {receipt : Sealing α}
    {Q : Except ServiceAccountPluginError α → TxPhase → Prop}
    (hg : Lock.account serviceAccountId ∈ h.locks) (hfail : ∀ e φ, Q (.error e) φ)
    (hok : ∀ a h', Q (.ok a) (.holding h')) :
    Follows E (finish key organizationId serviceAccountId missing result receipt) (.holding h) Q := by
  refine follows_bind (follows_statement hg (fun _ => hfail _ _) fun row => ?_)
  cases row with
  | none => exact hfail _ _
  | some row =>
    refine follows_bind (follows_entropy ?_)
    rintro (e | ⟨nonce, ciphertext⟩)
    · exact hfail _ _
    · exact follows_bind (completeSuccess_follows hfail (hok _))

/-- A commit or a rollback is the last thing a transaction does. -/
lemma commit_follows {α : Type} {operation : String} {a : α} :
    Follows E (do commit operation; return a) (.holding h) fun _ _ => True :=
  follows_bind (follows_commit fun r => by cases r <;> trivial)

lemma rollback_follows {α : Type} {operation : String} {a : α} :
    Follows E (do rollback operation; return a) (.holding h) fun _ _ => True :=
  follows_bind (follows_rollback fun r => by cases r <;> trivial)

lemma completeSuccessOwned_follows (key : CommandKey) (nonce ciphertext : Bytes) :
    Follows E (completeSuccessOwned key nonce ciphertext) .idle fun _ _ => True := by
  refine follows_bind (follows_begin (fun _ => trivial) ?_)
  refine follows_bind (completeSuccess_follows (fun _ _ => trivial) fun h => ?_)
  exact follows_commit fun _ => trivial

lemma createAccount_follows (r : CreateAccount) :
    Follows E (createAccount r) .idle fun _ _ => True := by
  refine follows_bind (follows_begin (fun _ => trivial) ?_)
  refine follows_bind (follows_statement trivial (fun _ => trivial) fun _ => ?_)
  refine follows_bind (follows_statement (List.mem_cons_self ..) (fun _ => trivial) fun count => ?_)
  dsimp only
  split_ifs
  · exact rollback_follows
  refine follows_bind (follows_statement (List.mem_cons_self ..) (fun _ => trivial) fun _ => ?_)
  refine follows_bind (follows_statement ?_ (fun _ => trivial) fun _ => ?_)
  · simp [TxStatement.Guarded,Holding.after,TxStatement.acquires]
  refine follows_bind (finish_follows ?_ (fun _ _ => trivial) fun row h => commit_follows)
  simp [Holding.after,TxStatement.acquires]

lemma rotateAccount_follows (r : RotateAccount) :
    Follows E (rotateAccount r) .idle fun _ _ => True := by
  refine follows_bind (follows_begin (fun _ => trivial) ?_)
  refine follows_bind (follows_statement trivial (fun _ => trivial) fun row => ?_)
  cases row with
  | none => exact rollback_follows
  | some current =>
    dsimp only
    split_ifs
    · exact rollback_follows
    · exact rollback_follows
    have hlock : Lock.account r.serviceAccountId ∈ ([] ++ [Lock.account r.serviceAccountId]) := by simp
    refine follows_bind (follows_statement hlock (fun _ => trivial) fun _ => ?_)
    refine follows_bind (follows_statement ?_ (fun _ => trivial) fun _ => ?_)
    · simp [TxStatement.Guarded,Holding.after,TxStatement.acquires]
    refine follows_bind (follows_statement trivial (fun _ => trivial) fun _ => ?_)
    refine follows_bind (finish_follows ?_ (fun _ _ => trivial) fun row h => commit_follows)
    simp [Holding.after,TxStatement.acquires]

lemma revokeAccount_follows (r : RevokeAccount) :
    Follows E (revokeAccount r) .idle fun _ _ => True := by
  refine follows_bind (follows_begin (fun _ => trivial) ?_)
  refine follows_bind (follows_statement trivial (fun _ => trivial) fun row => ?_)
  cases row with
  | none => exact rollback_follows
  | some current =>
    dsimp only
    split_ifs
    · exact rollback_follows
    · refine follows_bind (follows_nowUtc fun now => ?_)
      refine follows_bind (follows_statement trivial (fun _ => trivial) fun _ => ?_)
      refine follows_bind (follows_statement ?_ (fun _ => trivial) fun _ => ?_)
      · simp [TxStatement.Guarded,Holding.after,TxStatement.acquires]
      refine follows_bind (finish_follows ?_ (fun _ _ => trivial) fun row h => commit_follows)
      simp [Holding.after,TxStatement.acquires]
    · refine follows_bind (finish_follows ?_ (fun _ _ => trivial) fun row h => commit_follows)
      simp [Holding.after,TxStatement.acquires]

lemma markExchangeIssuing_follows (r : MarkExchangeIssuing) :
    Follows E (markExchangeIssuing r) .idle fun _ _ => True := by
  refine follows_bind (follows_begin (fun _ => trivial) ?_)
  refine follows_bind (follows_statement trivial (fun _ => trivial) fun status => ?_)
  dsimp only
  split_ifs
  · exact rollback_follows
  refine follows_bind (follows_statement ?_ (fun _ => trivial) fun row => ?_)
  · simp [TxStatement.Guarded,Holding.after,TxStatement.acquires]
  cases row with
  | none => exact rollback_follows
  | some credential =>
    refine follows_bind (follows_statement ?_ (fun _ => trivial) fun _ => ?_)
    · exact ⟨r.serviceAccountId,List.mem_cons_self ..,by simp [Holding.after,TxStatement.acquires]⟩
    refine follows_bind (follows_statement ?_ (fun _ => trivial) fun advanced => ?_)
    · simp [TxStatement.Guarded,Holding.after,TxStatement.acquires]
    dsimp only
    split_ifs
    · exact rollback_follows
    · exact commit_follows

lemma reserveRateSlot_follows (r : ReserveRateSlot) :
    Follows E (reserveRateSlot r) .idle fun _ _ => True := by
  refine follows_bind (follows_begin (fun _ => trivial) ?_)
  refine follows_bind (follows_statement trivial (fun _ => trivial) fun _ => ?_)
  refine follows_bind (follows_statement trivial (fun _ => trivial) fun row => ?_)
  dsimp only
  split_ifs
  · exact commit_follows
  all_goals exact follows_bind (follows_statement trivial (fun _ => trivial) fun _ => commit_follows)

/-- Every transaction keeps to the order. -/
theorem Transaction.follows (t : Transaction) :
    t.body.Conforms (fun _ _ => True) (TxMove E) .idle fun _ _ => True := by
  cases t with
  | completeSuccess key nonce ciphertext => exact completeSuccessOwned_follows key nonce ciphertext
  | createAccount r => exact createAccount_follows r
  | rotateAccount r => exact rotateAccount_follows r
  | revokeAccount r => exact revokeAccount_follows r
  | markExchangeIssuing r => exact markExchangeIssuing_follows r
  | reserveRateSlot r => exact reserveRateSlot_follows r

end Bodies
/-- The credential is there and belongs to the account. -/
def Database.Owns (d : Database) (credentialId serviceAccountId : String) : Prop :=
  ∃ c, d.credentials.find credentialId = some c ∧ c.serviceAccountId = serviceAccountId

section Statements
variable {E : Environment} {ls : List Lock} {d d' : Database} {o : Collation} {t : Time} {h : Holding}
  {ws : List Write}

lemma Write.Proper.owns {w : Write} {credentialId serviceAccountId : String} (hw : w.Proper E ls d)
    (ho : d.Owns credentialId serviceAccountId) : (w.apply d).Owns credentialId serviceAccountId := by
  obtain ⟨c,hc,hid⟩ := ho
  cases w with
  | credential x hx =>
    by_cases hk : x.credentialId = credentialId
    · subst hk
      refine ⟨x,Table.find_put_self d.credentials x hx,?_⟩
      rw [← hw.2.2 c hc,hid]
    · exact ⟨c,(Table.find_put_of_ne d.credentials hx hk).trans hc,hid⟩
  | account a _ => exact ⟨c,hc,hid⟩
  | command k _ => exact ⟨c,hc,hid⟩
  | limit l _ => exact ⟨c,hc,hid⟩

lemma ProperWrites.owns {credentialId serviceAccountId : String} (hw : ProperWrites E ls d ws)
    (ho : d.Owns credentialId serviceAccountId) : (d.apply ws).Owns credentialId serviceAccountId := by
  induction ws generalizing d with
  | nil => exact ho
  | cons w ws ih => exact ih hw.2 (hw.1.owns ho)

/-- New versions of credentials of one account. -/
lemma proper_mapM {f : Credential → Credential} {serviceAccountId : String} {cs : List Credential}
    (hf : ∀ c, (f c).credentialId = c.credentialId ∧ (f c).serviceAccountId = c.serviceAccountId)
    (ha : Lock.account serviceAccountId ∈ ls)
    (hcs : ∀ c ∈ cs, c.serviceAccountId = serviceAccountId ∧ Lock.credential c.credentialId ∈ ls)
    (hd : ∀ c ∈ cs, d.Owns c.credentialId serviceAccountId)
    (hm : (cs.mapM fun c => writeRow Write.credential (f c)) = .ok ws) : ProperWrites E ls d ws := by
  induction cs generalizing d ws with
  | nil =>
    simp only [List.mapM_nil,pure,Except.pure,Except.ok.injEq] at hm
    subst hm
    trivial
  | cons c cs ih =>
    simp only [List.mapM_cons] at hm
    cases hw : writeRow Write.credential (f c) with
    | error e => simp [hw,bind,Except.bind] at hm
    | ok w =>
      obtain ⟨hv,rfl⟩ := writeRow_ok.mp hw
      cases hws : cs.mapM fun c => writeRow Write.credential (f c) with
      | error e => simp [hw,hws,bind,Except.bind] at hm
      | ok us =>
        simp only [hw,hws,bind,Except.bind,pure,Except.pure,Except.ok.injEq] at hm
        subst hm
        obtain ⟨hid,hlock⟩ := hcs c (by simp)
        have hproper : (Write.credential (f c) hv).Proper E ls d := by
          refine ⟨by rw [(hf c).1]; exact hlock,by rw [(hf c).2,hid]; exact ha,?_⟩
          intro b hb
          obtain ⟨b',hb',hbid⟩ := hd c (by simp)
          rw [(hf c).1] at hb
          obtain rfl := Option.some.inj (hb.symm.trans hb')
          rw [hbid,(hf c).2,hid]
        refine ⟨hproper,ih (fun x hx => hcs x (List.mem_cons_of_mem _ hx)) (fun x hx => ?_) hws⟩
        exact hproper.owns (hd x (List.mem_cons_of_mem _ hx))

lemma owns_of_credentialsOf {serviceAccountId : String} {c : Credential}
    (hc : c ∈ d.credentialsOf serviceAccountId) : d.Owns c.credentialId serviceAccountId := by
  simp only [Database.credentialsOf,List.mem_filter,decide_eq_true_eq] at hc
  exact ⟨c,Table.find_of_mem hc.1,hc.2⟩

/-- One row version, if it passes its check. -/
lemma proper_writeRow {ρ κ α : Type} [DecidableEq κ] [Row ρ κ]
    {mk : (r : ρ) → Row.check r = true → Write} {r : ρ} {a b : α}
    (hm : (do let w ← writeRow mk r; return (a,[w])) = (Except.ok (b,ws) : Except SqlError _))
    (hp : ∀ hv, (mk r hv).Proper E ls d) : ProperWrites E ls d ws := by
  cases hw : writeRow mk r with
  | error e => simp [hw,bind,Except.bind] at hm
  | ok w =>
    obtain ⟨hv,rfl⟩ := writeRow_ok.mp hw
    simp only [hw,bind,Except.bind,pure,Except.pure,Except.ok.injEq,Prod.mk.injEq] at hm
    obtain ⟨-,rfl⟩ := hm
    exact ⟨hp hv,trivial⟩

/-- A guarded statement writes under the locks of its transaction. -/
theorem TxStatement.proper {s : TxStatement} {a : s.Answer} (hg : s.Guarded E h) (hls : h.locks ⊆ ls)
    (howners : ∀ k ∈ h.owners, d.Owns k.1 k.2) (he : s.execute o t d = .ok (a, ws)) :
    ProperWrites E (ls ++ s.locks E d) d ws := by
  have hleft : ∀ lk ∈ h.locks, lk ∈ ls ++ s.locks E d := fun lk hlk => by simp [hls hlk]
  have hright : ∀ lk ∈ s.locks E d, lk ∈ ls ++ s.locks E d := fun lk hlk => by simp [hlk]
  cases s <;> simp only [TxStatement.execute] at he
  case insertAccount id org subject name nameKey =>
    cases hw : writeRow Write.account (insertedAccount t id org subject name nameKey) with
    | error e => simp [hw,bind,Except.bind] at he
    | ok w =>
      obtain ⟨hv,rfl⟩ := writeRow_ok.mp hw
      simp only [hw,bind,Except.bind] at he
      split_ifs at he with h₁ h₂ h₃
      simp only [pure,Except.pure,Except.ok.injEq,Prod.mk.injEq] at he
      obtain ⟨-,rfl⟩ := he
      refine ⟨⟨hright _ ?_,.inl ⟨by simpa [insertedAccount] using h₁,hleft _ hg,hright _ ?_,hright _ ?_⟩⟩,trivial⟩ <;>
        simp [TxStatement.locks,insertedAccount]
  case insertCredential k id verifier validFrom validUntil =>
    cases hw : writeRow Write.credential (insertedCredential t k id verifier validFrom validUntil) with
    | error e => simp [hw,bind,Except.bind] at he
    | ok w =>
      obtain ⟨hv,rfl⟩ := writeRow_ok.mp hw
      simp only [hw,bind,Except.bind] at he
      split_ifs at he with h₁ h₂
      simp only [pure,Except.pure,Except.ok.injEq,Prod.mk.injEq] at he
      obtain ⟨-,rfl⟩ := he
      refine ⟨⟨hright _ ?_,hleft _ hg,?_⟩,trivial⟩
      · simp [TxStatement.locks,insertedCredential,h₁]
      · intro b hb
        simp only [insertedCredential] at hb
        simp [hb] at h₁
  case completeCommand key nonce ciphertext =>
    cases hf : (d.commands.find key).filter fun c => c.status.completable with
    | none =>
      simp only [hf,Except.ok.injEq,Prod.mk.injEq] at he
      exact he.2 ▸ trivial
    | some c =>
      simp only [hf] at he
      have hkey : c.key = key := Table.key_of_find (Option.filter_eq_some_iff.mp hf).1
      refine proper_writeRow he fun hv => hright _ ?_
      simp [TxStatement.locks,Command.succeed,hkey]
  case boundCredentials validFrom overlapUntil id =>
    cases hm : ((d.credentialsOf id).filter (Credential.live validFrom)).mapM
        fun c => writeRow Write.credential (c.bound validFrom overlapUntil) with
    | error e => simp [hm,bind,Except.bind] at he
    | ok us =>
      simp only [hm,bind,Except.bind,pure,Except.pure,Except.ok.injEq,Prod.mk.injEq] at he
      obtain ⟨-,rfl⟩ := he
      refine proper_mapM (f := Credential.bound validFrom overlapUntil) (fun _ => ⟨rfl,rfl⟩) (hleft _ hg)
        (fun c hc => ⟨?_,hright _ (List.mem_map_of_mem hc)⟩) (fun c hc => ?_) hm
      · simpa [Database.credentialsOf] using (List.mem_filter.mp (List.mem_filter.mp hc).1).2
      · exact owns_of_credentialsOf (List.mem_filter.mp hc).1
  case advanceAccount id validFrom =>
    cases hf : d.accounts.find id with
    | none =>
      simp only [hf,Except.ok.injEq,Prod.mk.injEq] at he
      exact he.2 ▸ trivial
    | some b =>
      simp only [hf] at he
      split_ifs at he
      have hkey : b.serviceAccountId = id := Table.key_of_find hf
      refine proper_writeRow he fun hv => ⟨hright _ ?_,.inr ⟨b,?_,rfl,rfl,rfl⟩⟩
      · simp [TxStatement.locks,Account.rotate,hkey]
      · simp [Account.rotate,hkey,hf]
  case revokeAccount id now =>
    cases hf : d.accounts.find id with
    | none =>
      simp only [hf,Except.ok.injEq,Prod.mk.injEq] at he
      exact he.2 ▸ trivial
    | some b =>
      simp only [hf] at he
      split_ifs at he
      have hkey : b.serviceAccountId = id := Table.key_of_find hf
      refine proper_writeRow he fun hv => ⟨hright _ ?_,.inr ⟨b,?_,rfl,rfl,rfl⟩⟩
      · simp [TxStatement.locks,Account.revoke,hkey]
      · simp [Account.revoke,hkey,hf]
  case revokeCredentials id now =>
    cases hm : (d.credentialsOf id).mapM fun c => writeRow Write.credential (c.revoke now) with
    | error e => simp [hm,bind,Except.bind] at he
    | ok us =>
      simp only [hm,bind,Except.bind,pure,Except.pure,Except.ok.injEq,Prod.mk.injEq] at he
      obtain ⟨-,rfl⟩ := he
      refine proper_mapM (f := Credential.revoke now) (fun _ => ⟨rfl,rfl⟩) (hleft _ hg)
        (fun c hc => ⟨?_,hright _ (List.mem_map_of_mem hc)⟩) (fun c hc => owns_of_credentialsOf hc) hm
      simpa [Database.credentialsOf] using (List.mem_filter.mp hc).2
  case recordUse k now =>
    obtain ⟨id,hown,hlock⟩ := hg
    obtain ⟨c,hc,hid⟩ := howners _ hown
    simp only [hc] at he
    have hkey : c.credentialId = k := Table.key_of_find hc
    refine proper_writeRow he fun hv => ⟨hright _ ?_,?_,?_⟩
    · simp [TxStatement.locks,hkey]
    · simpa [hid] using hleft _ hlock
    · intro b hb
      simp only [hkey] at hb
      obtain rfl := Option.some.inj (hc.symm.trans hb)
      rfl
  case markIssuing caller idempotencyKey k now =>
    cases hf : (d.commands.find ⟨caller,"exchange_secret",idempotencyKey⟩).filter fun c =>
        c.status = .reserved && (d.credentials.find k).isSome with
    | none =>
      simp only [hf,Except.ok.injEq,Prod.mk.injEq] at he
      exact he.2 ▸ trivial
    | some c =>
      simp only [hf] at he
      have hkey : c.key = ⟨caller,"exchange_secret",idempotencyKey⟩ :=
        Table.key_of_find (Option.filter_eq_some_iff.mp hf).1
      refine proper_writeRow he fun hv => hright _ ?_
      simp [TxStatement.locks,Command.issue,hkey]
  case initializeLimit caller now =>
    cases hw : writeRow Write.limit ⟨caller,now,0,none⟩ with
    | error e => simp [hw,bind,Except.bind] at he
    | ok w =>
      obtain ⟨hv,rfl⟩ := writeRow_ok.mp hw
      simp only [hw,bind,Except.bind,pure,Except.pure] at he
      split_ifs at he with hsome <;> simp only [Except.ok.injEq,Prod.mk.injEq] at he
      · exact he.2 ▸ trivial
      · obtain ⟨-,rfl⟩ := he
        refine ⟨hright _ ?_,trivial⟩
        simp only [TxStatement.locks,hsome]
        exact List.mem_cons_self ..
  case lockLimit caller =>
    split at he
    · simp only [Except.ok.injEq,Prod.mk.injEq] at he
      exact he.2 ▸ trivial
    · contradiction
  case lockOut caller windowStartedAt lockedUntil =>
    cases hf : d.limits.find caller with
    | none =>
      simp only [hf,Except.ok.injEq,Prod.mk.injEq] at he
      exact he.2 ▸ trivial
    | some l =>
      simp only [hf] at he
      have hkey : l.callerInstance = caller := Table.key_of_find hf
      refine proper_writeRow he fun hv => hright _ ?_
      simp [TxStatement.locks,hkey]
  case consumeSlot caller windowStartedAt attempts =>
    cases hf : d.limits.find caller with
    | none =>
      simp only [hf,Except.ok.injEq,Prod.mk.injEq] at he
      exact he.2 ▸ trivial
    | some l =>
      simp only [hf] at he
      have hkey : l.callerInstance = caller := Table.key_of_find hf
      refine proper_writeRow he fun hv => hright _ ?_
      simp [TxStatement.locks,hkey]
  all_goals
    simp only [Except.ok.injEq,Prod.mk.injEq] at he
    exact he.2 ▸ trivial

lemma any_eq_of_countP {α : Type} {xs ys : List α} {p : α → Bool} (h : xs.countP p = ys.countP p) :
    xs.any p = ys.any p := by
  rw [Bool.eq_iff_iff,List.any_eq_true,List.any_eq_true,← List.countP_pos_iff,← List.countP_pos_iff,h]

lemma accountRow_same {serviceAccountId : String} {organizationId : String}
    (hs : (Lock.account serviceAccountId).Same E d d') :
    (d'.accountIn organizationId serviceAccountId).map (accountRow o d') =
      (d.accountIn organizationId serviceAccountId).map (accountRow o d) := by
  obtain ⟨hfind,hcreds⟩ := hs
  simp only [Database.accountIn,← hfind]
  cases hf : (d.accounts.find serviceAccountId).filter fun a => a.organizationId = organizationId with
  | none => rfl
  | some a =>
    have hkey : a.serviceAccountId = serviceAccountId :=
      Table.key_of_find (Option.filter_eq_some_iff.mp hf).1
    simp only [Option.map_some,accountRow,hkey,hcreds]

lemma any_eq_isSome_filter {α : Type} {x : Option α} {p : α → Bool} : x.any p = (x.filter p).isSome := by
  cases x with
  | none => rfl
  | some a => cases hp : p a <;> simp [Option.filter,hp]

lemma filter_and {α : Type} {x : Option α} {p q : α → Bool} :
    (x.filter fun a => p a && q a) = (x.filter p).filter q := by
  cases x with
  | none => rfl
  | some a => cases hp : p a <;> simp [Option.filter,hp]

/-- The credentials of an account say which credential is one of them. -/
lemma find_filter_same {serviceAccountId : String} (k : String)
    (h : d.credentialsOf serviceAccountId = d'.credentialsOf serviceAccountId) :
    ((d'.credentials.find k).filter fun c => c.serviceAccountId = serviceAccountId) =
      (d.credentials.find k).filter fun c => c.serviceAccountId = serviceAccountId := by
  ext c
  simp only [Option.filter_eq_some_iff,decide_eq_true_eq]
  have hmem : ∀ d : Database, d.credentials.find k = some c ∧ c.serviceAccountId = serviceAccountId ↔
      c ∈ d.credentialsOf serviceAccountId ∧ c.credentialId = k := by
    intro d
    simp only [Database.credentialsOf,List.mem_filter,decide_eq_true_eq]
    constructor
    · rintro ⟨hf,hid⟩
      exact ⟨⟨Table.mem_of_find hf,hid⟩,Table.key_of_find hf⟩
    · rintro ⟨⟨hm,hid⟩,rfl⟩
      exact ⟨Table.find_of_mem hm,hid⟩
  rw [hmem d,hmem d',h]

/-- A guarded statement reads what is under the locks of its transaction. -/
theorem TxStatement.reads {s : TxStatement} (hg : s.Guarded E h) (hls : h.locks ⊆ ls)
    (hs : ∀ lk ∈ ls ++ s.locks E d, lk.Same E d d') (hl : RowsStay d d') :
    s.execute o t d' = s.execute o t d ∧ s.locks E d' = s.locks E d := by
  have hleft : ∀ lk ∈ h.locks, lk.Same E d d' := fun lk hlk => hs lk (by simp [hls hlk])
  have hright : ∀ lk ∈ s.locks E d, lk.Same E d d' := fun lk hlk => hs lk (by simp [hlk])
  cases s with
  | advisoryLock org => exact ⟨rfl,rfl⟩
  | countAccounts org =>
    have hcount := hleft _ hg org rfl
    simp only [List.countP_eq_length_filter] at hcount
    exact ⟨by simp only [TxStatement.execute,hcount],rfl⟩
  | insertAccount id org subject name nameKey =>
    have hid := (hright (.account id) (by simp [TxStatement.locks])).1
    have hsubject := any_eq_of_countP (hright (.subject subject) (by simp [TxStatement.locks]))
    have hname := any_eq_of_countP (hright (.name org nameKey) (by simp [TxStatement.locks]))
    exact ⟨by simp only [TxStatement.execute,hid,hsubject,hname],rfl⟩
  | insertCredential k id verifier validFrom validUntil =>
    have hsome : (d'.credentials.find k).isSome = (d.credentials.find k).isSome := by
      cases hf : (d.credentials.find k).isSome with
      | true => exact hl.credentials k hf
      | false =>
        have hcredential : d.credentials.find k = d'.credentials.find k :=
          hright (.credential k) (by simp [TxStatement.locks,hf])
        rw [← hcredential,hf]
    have haccount := (hleft _ hg).1
    exact ⟨by simp only [TxStatement.execute,hsome,haccount],by simp only [TxStatement.locks,hsome]⟩
  | reloadAccount org id => exact ⟨by simp only [TxStatement.execute,accountRow_same (hleft _ hg)],rfl⟩
  | completeCommand key nonce ciphertext =>
    have hcommand : d.commands.find key = d'.commands.find key :=
      hright (.command key) (by simp [TxStatement.locks])
    exact ⟨by simp only [TxStatement.execute,hcommand],rfl⟩
  | lockAccount org id =>
    have haccount := hright (.account id) (by simp [TxStatement.locks])
    exact ⟨by simp only [TxStatement.execute,accountRow_same haccount],rfl⟩
  | boundCredentials validFrom overlapUntil id =>
    have hcreds := (hleft _ hg).2
    exact ⟨by simp only [TxStatement.execute,hcreds],by simp only [TxStatement.locks,hcreds]⟩
  | advanceAccount id validFrom =>
    have haccount := (hright (.account id) (by simp [TxStatement.locks])).1
    exact ⟨by simp only [TxStatement.execute,haccount],rfl⟩
  | revokeAccount id now =>
    have haccount := (hright (.account id) (by simp [TxStatement.locks])).1
    exact ⟨by simp only [TxStatement.execute,haccount],rfl⟩
  | revokeCredentials id now =>
    have hcreds := (hleft _ hg).2
    exact ⟨by simp only [TxStatement.execute,hcreds],by simp only [TxStatement.locks,hcreds]⟩
  | lockAccountStatus id =>
    have haccount := (hright (.account id) (by simp [TxStatement.locks])).1
    exact ⟨by simp only [TxStatement.execute,haccount],rfl⟩
  | recheckCredential k id now =>
    obtain ⟨haccount,hcreds⟩ := hleft _ hg
    have hfilter := find_filter_same k hcreds
    have hany : ((d'.credentials.find k).any fun c => c.serviceAccountId = id) =
        (d.credentials.find k).any fun c => c.serviceAccountId = id := by
      rw [any_eq_isSome_filter,any_eq_isSome_filter,hfilter]
    refine ⟨?_,by simp only [TxStatement.locks,hany]⟩
    have hvalid : ((d'.credentials.find k).filter fun c => c.serviceAccountId = id && c.validAt now) =
        (d.credentials.find k).filter fun c => c.serviceAccountId = id && c.validAt now := by
      rw [filter_and,filter_and,hfilter]
    simp only [TxStatement.execute,hvalid]
    cases hf : (d.credentials.find k).filter fun c => c.serviceAccountId = id && c.validAt now with
    | none => rfl
    | some c =>
      have hc := (Option.filter_eq_some_iff.mp hf).2
      simp only [Bool.and_eq_true,decide_eq_true_eq] at hc
      simp only [Option.bind_some,hc.1,haccount]
  | recordUse k now =>
    have hcredential : d.credentials.find k = d'.credentials.find k :=
      hright (.credential k) (by simp [TxStatement.locks])
    exact ⟨by simp only [TxStatement.execute,hcredential],rfl⟩
  | markIssuing caller idempotencyKey k now =>
    have hcredential : d.credentials.find k = d'.credentials.find k := hleft _ hg
    have hcommand : d.commands.find ⟨caller,"exchange_secret",idempotencyKey⟩ =
        d'.commands.find ⟨caller,"exchange_secret",idempotencyKey⟩ :=
      hright (.command ⟨caller,"exchange_secret",idempotencyKey⟩) (by simp [TxStatement.locks])
    exact ⟨by simp only [TxStatement.execute,hcredential,hcommand],rfl⟩
  | initializeLimit caller now =>
    have hsome : (d'.limits.find caller).isSome = (d.limits.find caller).isSome := by
      cases hf : (d.limits.find caller).isSome with
      | true => exact hl.limits caller hf
      | false =>
        have hlimit : d.limits.find caller = d'.limits.find caller :=
          hright (.limit caller) (by simp [TxStatement.locks,hf])
        rw [← hlimit,hf]
    exact ⟨by simp only [TxStatement.execute,hsome],by simp only [TxStatement.locks,hsome]⟩
  | lockLimit caller =>
    have hlimit : d.limits.find caller = d'.limits.find caller :=
      hright (.limit caller) (by simp [TxStatement.locks])
    exact ⟨by simp only [TxStatement.execute,hlimit],rfl⟩
  | lockOut caller windowStartedAt lockedUntil =>
    have hlimit : d.limits.find caller = d'.limits.find caller :=
      hright (.limit caller) (by simp [TxStatement.locks])
    exact ⟨by simp only [TxStatement.execute,hlimit],rfl⟩
  | consumeSlot caller windowStartedAt attempts =>
    have hlimit : d.limits.find caller = d'.limits.find caller :=
      hright (.limit caller) (by simp [TxStatement.locks])
    exact ⟨by simp only [TxStatement.execute,hlimit],rfl⟩

end Statements

/-- What is true of a transaction on `d` in a phase. -/
def Session.Keeps (E : Environment) (d : Database) (l : Session) : TxPhase → Prop
  | .idle => l.writes = [] ∧ l.locks = [] ∧ l.aborted = false
  | .holding h => l.aborted = false ∧ h.locks ⊆ l.locks ∧ ProperWrites E l.locks d l.writes ∧
    ∀ k ∈ h.owners, (l.view d).Owns k.1 k.2
  | .closed => False

/-- `d'` looks like `d` to a transaction: under every lock that it holds. -/
def Session.Agree (E : Environment) (l : Session) (d d' : Database) : Prop :=
  (∀ lk ∈ l.locks, lk.Same E d d') ∧ RowsStay d d'

section Sessions
variable {E : Environment} {l l' : Session} {d d' : Database} {φ φ' : TxPhase} {c : Choice} {o : TxOp}
  {a : o.Ans} {h : Holding}

lemma Session.Agree.mono (h : l'.Agree E d d') (hs : l.locks ⊆ l'.locks) : l.Agree E d d' :=
  ⟨fun lk hlk => h.1 lk (hs hlk),h.2⟩

/-- The locks of a statement cover those that it acquires whatever it finds. -/
lemma TxStatement.acquires_subset (s : TxStatement) (d : Database) : s.acquires E ⊆ s.locks E d := by
  cases s <;> simp [TxStatement.acquires,TxStatement.locks]

/-- What a statement adds to a transaction is true after it. -/
lemma Holding.after_keeps {s : TxStatement} {a : s.Answer} {o : Collation} {t : Time} {us : List Write}
    {ls : List Lock} (hg : s.Guarded E h) (hls : h.locks ⊆ ls) (howners : ∀ k ∈ h.owners, d.Owns k.1 k.2)
    (he : s.execute o t d = .ok (a, us)) :
    (h.after E s a).locks ⊆ ls ++ s.locks E d ∧
      ∀ k ∈ (h.after E s a).owners, (d.apply us).Owns k.1 k.2 := by
  have hproper := TxStatement.proper hg hls howners he
  have hold : ∀ k ∈ h.owners, (d.apply us).Owns k.1 k.2 := fun k hk => hproper.owns (howners k hk)
  have hplain : h.locks ++ s.acquires E ⊆ ls ++ s.locks E d :=
    List.append_subset.mpr ⟨fun lk hlk => List.mem_append_left _ (hls hlk),
      fun lk hlk => List.mem_append_right _ (s.acquires_subset d hlk)⟩
  unfold Holding.after
  split
  · next k id now row =>
    simp only [TxStatement.execute,Except.ok.injEq,Prod.mk.injEq] at he
    obtain ⟨he,rfl⟩ := he
    obtain ⟨c,hc,-⟩ := Option.bind_eq_some_iff.mp he
    obtain ⟨hfind,hc⟩ := Option.filter_eq_some_iff.mp hc
    simp only [Bool.and_eq_true,decide_eq_true_eq] at hc
    refine ⟨?_,?_⟩
    · simp only [TxStatement.locks,hfind,Option.any_some,hc.1,decide_true,if_true]
      exact List.append_subset.mpr ⟨fun lk hlk => List.mem_append_left _ (hls hlk),List.subset_append_right ..⟩
    · intro k' hk'
      rcases List.mem_cons.mp hk' with rfl | hk'
      · exact ⟨c,hfind,hc.1⟩
      · exact hold k' hk'
  · exact ⟨hplain,hold⟩

/-- One operation of a transaction: it ends the transaction, or it leaves the database alone and
keeps what is true of the session. -/
lemma Session.Keeps.step (hk : l.Keeps E d φ) (hm : TxMove E φ o a φ')
    (hh : TxOp.handle E o c (l, d) = some (a, (l', d'))) :
    φ' = .closed ∨ d' = d ∧ l'.Keeps E d φ' ∧ l.locks ⊆ l'.locks := by
  cases φ with
  | closed => exact hk.elim
  | idle =>
    obtain ⟨hw,hl,hab⟩ := hk
    cases o with
    | begin =>
      cases a with
      | error e => exact .inl hm
      | ok u =>
        simp only [TxMove] at hm
        subst hm
        simp only [TxOp.handle] at hh
        split at hh
        · simp at hh
        · simp only [Option.some.injEq,Prod.mk.injEq] at hh
          obtain ⟨-,rfl,rfl⟩ := hh
          refine .inr ⟨rfl,⟨hab,by simp,?_,by simp⟩,fun _ h => h⟩
          simp only [hw]
          trivial
    | nowUtc => exact hm.elim
    | getrandom n => exact hm.elim
    | execute s => exact hm.elim
    | commit => exact hm.elim
    | rollback => exact hm.elim
  | holding h =>
    obtain ⟨hab,hlocks,hproper,howners⟩ := hk
    cases o with
    | begin => exact hm.elim
    | nowUtc =>
      simp only [TxMove] at hm
      simp only [TxOp.handle,Option.some.injEq,Prod.mk.injEq] at hh
      obtain ⟨-,rfl,rfl⟩ := hh
      exact .inr ⟨rfl,hm ▸ ⟨hab,hlocks,hproper,howners⟩,fun _ h => h⟩
    | getrandom n =>
      simp only [TxMove] at hm
      simp only [TxOp.handle,Option.some.injEq,Prod.mk.injEq] at hh
      obtain ⟨-,rfl,rfl⟩ := hh
      exact .inr ⟨rfl,hm ▸ ⟨hab,hlocks,hproper,howners⟩,fun _ h => h⟩
    | execute s =>
      cases a with
      | error e => exact .inl hm.2
      | ok a =>
        obtain ⟨hg,rfl⟩ := hm
        simp only [TxOp.handle] at hh
        split_ifs at hh with hf
        · simp at hh
        · split at hh
          · simp at hh
          · next b us he =>
            simp only [Option.some.injEq,Prod.mk.injEq,Except.ok.injEq] at hh
            obtain ⟨rfl,rfl,rfl⟩ := hh
            obtain ⟨hlocks',howners'⟩ := Holding.after_keeps hg hlocks howners he
            refine .inr ⟨rfl,⟨hab,hlocks',?_,?_⟩,List.subset_append_left ..⟩
            · exact (hproper.mono (List.subset_append_left ..)).append
                (TxStatement.proper hg hlocks howners he)
            · simpa only [Session.view,Database.apply_append] using howners'
    | commit => exact .inl (by simpa [TxMove] using hm)
    | rollback => exact .inl (by simpa [TxMove] using hm)

/-- The same operation on a database that looks the same does the same. -/
lemma Session.Keeps.replay (hk : l.Keeps E d φ) (hm : TxMove E φ o a φ') (hφ : φ' ≠ .closed)
    (hh : TxOp.handle E o c (l, d) = some (a, (l', d))) (ha : l'.Agree E d d') :
    TxOp.handle E o c (l, d') = some (a, (l', d')) := by
  cases φ with
  | closed => exact hk.elim
  | idle =>
    cases o with
    | begin =>
      simp only [TxOp.handle] at hh ⊢
      split at hh <;> simp_all
    | nowUtc => exact hm.elim
    | getrandom n => exact hm.elim
    | execute s => exact hm.elim
    | commit => exact hm.elim
    | rollback => exact hm.elim
  | holding h =>
    obtain ⟨hab,hlocks,hproper,-⟩ := hk
    cases o with
    | begin => exact hm.elim
    | nowUtc =>
      simp only [TxOp.handle,Option.some.injEq,Prod.mk.injEq] at hh ⊢
      exact ⟨hh.1,hh.2.1,trivial⟩
    | getrandom n =>
      simp only [TxOp.handle,Option.some.injEq,Prod.mk.injEq] at hh ⊢
      exact ⟨hh.1,hh.2.1,trivial⟩
    | execute s =>
      cases a with
      | error e => exact absurd hm.2 hφ
      | ok a =>
        simp only [TxOp.handle] at hh ⊢
        split_ifs at hh ⊢ with hf
        · simp at hh
        · split at hh
          · simp at hh
          · next b us he =>
            simp only [Option.some.injEq,Prod.mk.injEq,Except.ok.injEq] at hh
            obtain ⟨rfl,rfl,-⟩ := hh
            -- the statement sees the same under its locks, its own writes included
            have hsame := (hproper.mono (List.subset_append_left _ (s.locks E (l.view d)))).congr ha.1
            obtain ⟨hexec,hls⟩ := TxStatement.reads (o := E.collation) (t := l.startedAt) hm.1 hlocks
              hsame (ha.2.congr l.writes)
            rw [show l.view d' = d'.apply l.writes from rfl,hexec,hls,he]
    | commit => exact absurd (by simpa [TxMove] using hm) hφ
    | rollback => exact absurd (by simpa [TxMove] using hm) hφ

/-- Nothing is asked for in a closed transaction. -/
lemma conforms_closed {α : Type} {p : Program TxOp TxOp.Ans α}
    (h : p.Conforms (fun _ _ => True) (TxMove E) .closed fun _ _ => True) : ∃ r, p = .pure r := by
  cases p with
  | pure r => exact ⟨r,rfl⟩
  | perform o next =>
    have hanswer : Nonempty o.Ans := by
      cases o with
      | nowUtc => exact ⟨(0 : ℤ)⟩
      | getrandom n => exact ⟨none⟩
      | _ => exact ⟨.error .unavailable⟩
    obtain ⟨a⟩ := hanswer
    obtain ⟨φ',hm,-⟩ := h a trivial
    cases o <;> exact hm.elim

/-- A transaction that has not ended: its phase, and that it has only gathered locks. -/
lemma advance_keeps {α : Type} {p : Program TxOp TxOp.Ans α} {cs : List Choice}
    {next : o.Ans → Program TxOp TxOp.Ans α} (hk : l.Keeps E d φ)
    (hc : p.Conforms (fun _ _ => True) (TxMove E) φ fun _ _ => True)
    (ha : p.advance (TxOp.handle E) cs (l, d) = some (.perform o next, (l', d'))) :
    d' = d ∧ l.locks ⊆ l'.locks ∧ ∃ φ', l'.Keeps E d φ' ∧
      (Program.perform o next).Conforms (fun _ _ => True) (TxMove E) φ' fun _ _ => True := by
  induction cs generalizing p l φ with
  | nil =>
    simp only [Program.advance,Option.some.injEq,Prod.mk.injEq] at ha
    obtain ⟨rfl,rfl,rfl⟩ := ha
    exact ⟨rfl,fun _ h => h,φ,hk,hc⟩
  | cons c cs ih =>
    cases p with
    | pure r => simp [Program.advance] at ha
    | perform o₁ next₁ =>
      simp only [Program.advance] at ha
      split at ha
      · contradiction
      · next a s hh =>
        obtain ⟨l₁,d₁⟩ := s
        obtain ⟨φ₁,hm,hnext⟩ := hc a trivial
        rcases hk.step hm hh with rfl | ⟨rfl,hk₁,hls⟩
        · obtain ⟨r,hr⟩ := conforms_closed hnext
          rw [hr] at ha
          cases cs <;> simp [Program.advance] at ha
        · obtain ⟨rfl,hls',hφ⟩ := ih hk₁ hnext ha
          exact ⟨rfl,fun lk hlk => hls' (hls hlk),hφ⟩

/-- An unfinished transaction can be replayed on a database that looks the same to it. -/
lemma advance_replay {α : Type} {p : Program TxOp TxOp.Ans α} {cs : List Choice}
    {next : o.Ans → Program TxOp TxOp.Ans α} (hk : l.Keeps E d φ)
    (hc : p.Conforms (fun _ _ => True) (TxMove E) φ fun _ _ => True)
    (ha : p.advance (TxOp.handle E) cs (l, d) = some (.perform o next, (l', d)))
    (hagree : l'.Agree E d d') :
    p.advance (TxOp.handle E) cs (l, d') = some (.perform o next, (l', d')) := by
  induction cs generalizing p l φ with
  | nil =>
    simp only [Program.advance,Option.some.injEq,Prod.mk.injEq] at ha ⊢
    exact ⟨ha.1,ha.2.1,trivial⟩
  | cons c cs ih =>
    cases p with
    | pure r => simp [Program.advance] at ha
    | perform o₁ next₁ =>
      simp only [Program.advance] at ha ⊢
      split at ha
      · contradiction
      · next a s hh =>
        obtain ⟨l₁,d₁⟩ := s
        obtain ⟨φ₁,hm,hnext⟩ := hc a trivial
        by_cases hclosed : φ₁ = .closed
        · subst hclosed
          obtain ⟨r,hr⟩ := conforms_closed hnext
          rw [hr] at ha
          cases cs <;> simp [Program.advance] at ha
        · obtain ⟨rfl,hk₁,-⟩ := (hk.step hm hh).resolve_left hclosed
          obtain ⟨-,hls,-⟩ := advance_keeps hk₁ hnext ha
          rw [hk.replay hm hclosed hh (hagree.mono hls)]
          exact ih hk₁ hnext ha

lemma keeps_fresh (E : Environment) (d : Database) : Session.fresh.Keeps E d .idle := ⟨rfl,rfl,rfl⟩

/-- Only a commit changes the database, by writes under the locks of its session. -/
lemma Session.Keeps.database (hk : l.Keeps E d φ) (hm : TxMove E φ o a φ')
    (hh : TxOp.handle E o c (l, d) = some (a, (l', d'))) :
    d' = d ∨ d' = d.apply l'.writes ∧ ProperWrites E l'.locks d l'.writes := by
  cases o with
  | begin =>
    simp only [TxOp.handle] at hh
    split at hh <;> simp only [Option.some.injEq,Prod.mk.injEq] at hh <;> exact .inl hh.2.2.symm
  | nowUtc =>
    simp only [TxOp.handle,Option.some.injEq,Prod.mk.injEq] at hh
    exact .inl hh.2.2.symm
  | getrandom n =>
    simp only [TxOp.handle,Option.some.injEq,Prod.mk.injEq] at hh
    exact .inl hh.2.2.symm
  | execute s =>
    simp only [TxOp.handle] at hh
    split_ifs at hh
    · simp only [Option.some.injEq,Prod.mk.injEq] at hh
      exact .inl hh.2.2.symm
    · split at hh <;> simp only [Option.some.injEq,Prod.mk.injEq] at hh <;> exact .inl hh.2.2.symm
  | commit =>
    cases φ with
    | idle => exact hm.elim
    | closed => exact hk.elim
    | holding h =>
      obtain ⟨hab,-,hproper,-⟩ := hk
      simp only [TxOp.handle,hab,Bool.false_eq_true,if_false] at hh
      split at hh <;> simp only [Option.some.injEq,Prod.mk.injEq] at hh <;> obtain ⟨-,rfl,rfl⟩ := hh
      · exact .inr ⟨rfl,hproper⟩
      · exact .inl rfl
      · exact .inr ⟨rfl,hproper⟩
  | rollback =>
    simp only [TxOp.handle] at hh
    split at hh <;> simp only [Option.some.injEq,Prod.mk.injEq] at hh <;> exact .inl hh.2.2.symm

end Sessions

section Pool
variable {E : Environment} {d d' : Database} {c : Choice}

/-- A command table that has changed in some rows only. -/
lemma same_commands {t : Table Command} {ls : List Lock}
    (h : ∀ key, .command key ∈ ls → t.find key = d.commands.find key) :
    (∀ lk ∈ ls, lk.Same E d { d with commands := t }) ∧ RowsStay d { d with commands := t } := by
  refine ⟨fun lk hlk => ?_,⟨fun _ hc => hc,fun _ hc => hc⟩⟩
  cases lk with
  | command key => exact (h key hlk).symm
  | _ => simp [Lock.Same,Database.credentialsOf]

/-- The rows that a statement on the pool changes are those that it waits for. -/
lemma Statement.execute_same {s : Statement} {a : s.Answer} {ls : List Lock}
    (h : s.execute E.collation c.now d = .ok (a, d')) (hls : ls.Disjoint (s.locks c.now d)) :
    (∀ lk ∈ ls, lk.Same E d d') ∧ RowsStay d d' := by
  have hsame : d' = d → (∀ lk ∈ ls, lk.Same E d d') ∧ RowsStay d d' := by
    rintro rfl
    exact ⟨fun lk _ => .refl d' lk,.refl d'⟩
  cases s with
  | prune receiptTtlSeconds =>
    simp only [Statement.execute,Except.ok.injEq,Prod.mk.injEq,true_and] at h
    subst h
    refine same_commands fun key hkey => ?_
    rw [Table.find_delete]
    cases hf : d.commands.find key with
    | none => rfl
    | some k =>
      by_cases he : k.expired c.now receiptTtlSeconds = true
      · have hk : k.key = key := Table.key_of_find hf
        refine absurd ?_ (hls hkey)
        simp only [Statement.locks,List.mem_map,List.mem_filter]
        exact ⟨k,⟨Table.mem_of_find hf,he⟩,by rw [hk]⟩
      · simp [Option.filter,he]
  | reserveCommand key intentHash =>
    simp only [Statement.execute] at h
    cases hw : writeRow Write.command (reservedCommand c.now key intentHash) with
    | error e => simp [hw,bind,Except.bind] at h
    | ok w =>
      obtain ⟨hv,rfl⟩ := writeRow_ok.mp hw
      simp only [hw,bind,Except.bind,pure,Except.pure] at h
      split_ifs at h with hsome <;> simp only [Except.ok.injEq,Prod.mk.injEq] at h
      · exact hsame h.2.symm
      · obtain ⟨-,rfl⟩ := h
        refine same_commands fun key' hkey => Table.find_put_of_ne _ hv ?_
        rintro rfl
        refine absurd ?_ (hls hkey)
        simp [Statement.locks,hsome,reservedCommand]
  | completeFailedCommand key errorCode =>
    simp only [Statement.execute] at h
    cases hf : (d.commands.find key).filter fun c => c.status.completable with
    | none =>
      simp only [hf,Except.ok.injEq,Prod.mk.injEq] at h
      exact hsame h.2.symm
    | some k =>
      simp only [hf] at h
      cases hw : writeRow Write.command (k.fail c.now errorCode) with
      | error e => simp [hw,bind,Except.bind] at h
      | ok w =>
        obtain ⟨hv,rfl⟩ := writeRow_ok.mp hw
        simp only [hw,bind,Except.bind,pure,Except.pure,Except.ok.injEq,Prod.mk.injEq] at h
        obtain ⟨-,rfl⟩ := h
        obtain ⟨hfind,hcomp⟩ := Option.filter_eq_some_iff.mp hf
        have hk : k.key = key := Table.key_of_find hfind
        refine same_commands fun key' hkey => Table.find_put_of_ne _ hv ?_
        rintro rfl
        refine absurd ?_ (hls hkey)
        simp [Statement.locks,Command.fail,hk,hfind,hcomp]
  | loadCommand key =>
    simp only [Statement.execute] at h
    split at h
    · simp only [Except.ok.injEq,Prod.mk.injEq] at h
      exact hsame h.2.symm
    · contradiction
  | loadAccount organizationId serviceAccountId =>
    simp only [Statement.execute,Except.ok.injEq,Prod.mk.injEq] at h
    exact hsame h.2.symm
  | listAccounts organizationId after limitPlusOne =>
    simp only [Statement.execute,Except.ok.injEq,Prod.mk.injEq] at h
    exact hsame h.2.symm
  | loadCredential credentialId =>
    simp only [Statement.execute,Except.ok.injEq,Prod.mk.injEq] at h
    exact hsame h.2.symm
  | inspectCommand key =>
    simp only [Statement.execute,Except.ok.injEq,Prod.mk.injEq] at h
    exact hsame h.2.symm

/-- What an operation outside of a transaction does: nothing, or what its statement does. -/
lemma Op.handle_cases {o : Op} {a : o.Ans} (h : Op.handle E o c d = some (a, d')) :
    d' = d ∨ ∃ s b, o = .execute s ∧ s.execute E.collation c.now d = .ok (b, d') := by
  cases o with
  | execute s =>
    simp only [Op.handle] at h
    split at h <;> simp only [Option.some.injEq,Prod.mk.injEq] at h <;> obtain ⟨-,rfl⟩ := h
    · next b d₁ _ he => exact .inr ⟨s,b,rfl,he⟩
    · exact .inl rfl
    · exact .inl rfl
    · next b d₁ _ he => exact .inr ⟨s,b,rfl,he⟩
    · exact .inl rfl
  | _ =>
    simp only [Op.handle,Option.some.injEq,Prod.mk.injEq] at h
    exact .inl h.2.symm

end Pool

/-- The transactions of the plugin keep to the locking discipline. -/
theorem store_disciplined (E : Environment) : (store E).Disciplined fun l d d' => l.Agree E d d' where
  unlocked := rfl
  same l d := ⟨fun lk _ => .refl d lk,.refl d⟩
  frame ha := (advance_keeps (keeps_fresh E _) (Transaction.follows _) ha).1
  stable ha hagree := advance_replay (keeps_fresh E _) (Transaction.follows _) ha hagree
  statement := by
    intro t cs d o k l c a l' d' m ha hw hdisjoint
    obtain ⟨-,-,φ,hk,hc⟩ := advance_keeps (keeps_fresh E _) (Transaction.follows t) ha
    obtain ⟨φ',hm,-⟩ := hc a trivial
    rcases hk.database hm hw with rfl | ⟨rfl,hproper⟩
    · exact ⟨fun lk _ => .refl d' lk,.refl d'⟩
    · exact ⟨fun lk hlk => hproper.frame (hdisjoint hlk),rowsStay_apply l'.writes d⟩
  pool := by
    intro o c d a d' m ha hdisjoint
    rcases Op.handle_cases ha with rfl | ⟨s,b,rfl,he⟩
    · exact ⟨fun lk _ => .refl d' lk,.refl d'⟩
    · exact Statement.execute_same he hdisjoint

/-- The interleaved runs of calls over the database. -/
abbrev Run (κ ρ : Type) :=
  LockedConfig κ Op Op.Ans Transaction Transaction.Result TxOp TxOp.Ans ρ Database Session

/-- Every run that interleaves the statements of its transactions is a serial run with the same
history. -/
theorem serializable {E : Environment} {κ ρ : Type} {main : κ → Program Effect Effect.Ans ρ}
    {d : Database} {c : Run κ ρ} (hc : LockedConfig.Reachable (store E) main d c) :
    Config.Reachable main (store E).serial d c.serial := (hc.serial (store_disciplined E)).2

end LensoServiceAccount
