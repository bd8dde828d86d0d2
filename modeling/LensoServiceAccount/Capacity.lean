import LensoServiceAccount.Changes

/-! The cap on the accounts of an organization: no interleaving of creations passes it, and no two
accounts of an organization have the same name. -/

namespace LensoServiceAccount
variable {E : Environment}

lemma accountsOf_eq_countP (d : Database) (organizationId : String) :
    d.accountsOf organizationId = d.accounts.rows.countP fun a => a.organizationId = organizationId := by
  rw [Database.accountsOf,List.countP_eq_length_filter]

/-- Accounts of one organization with one name key are the same. -/
def NamesApart (d : Database) : Prop := ∀ a ∈ d.accounts.rows, ∀ b ∈ d.accounts.rows,
  a.organizationId = b.organizationId → a.nameKey = b.nameKey → a = b

/-- The cap is kept, and names are apart. -/
structure Within (N : ℕ) (d : Database) : Prop where
  room : ∀ organizationId, d.accountsOf organizationId ≤ N
  names : NamesApart d

lemma mem_put {t : Table Account} {b x : Account} {hv : Row.check b = true} (h : x ∈ (t.put b hv).rows) :
    x = b ∨ x ∈ t.rows ∧ x.serviceAccountId ≠ b.serviceAccountId := by
  have hx := Table.find_of_mem h
  rw [Table.find_put] at hx
  split_ifs at hx with hk
  · exact .inl (Option.some.inj hx).symm
  · exact .inr ⟨Table.mem_of_find hx,fun he => hk he.symm⟩

lemma Within.step {N : ℕ} {d d' : Database} {t : Option Transaction} (h : Within N d) (hs : AccountsStep E d d' t)
    (hN : ∀ r, t = some (.createAccount r) → r.maxAccounts = N) : Within N d' := by
  cases hs with
  | same _ ha =>
    obtain ⟨hroom,hnames⟩ := h
    refine ⟨fun organizationId => ?_,?_⟩
    · rw [Database.accountsOf,ha]
      exact hroom organizationId
    · unfold NamesApart
      rw [ha]
      exact hnames
  | evolved _ a b hv ha hev hd =>
    refine ⟨fun organizationId => ?_,?_⟩
    · have hcount := Table.countP_put d.accounts hv fun x => x.organizationId = organizationId
      rw [key_account,hev.serviceAccountId,ha,← hd] at hcount
      have hroom := h.room organizationId
      rw [accountsOf_eq_countP] at hroom ⊢
      simp only [Option.toList_some,List.countP_singleton,hev.organizationId] at hcount
      omega
    · have hold : ∀ x, x ∈ d'.accounts.rows → ∃ y ∈ d.accounts.rows, x.organizationId = y.organizationId ∧
          x.nameKey = y.nameKey ∧ x.serviceAccountId = y.serviceAccountId := by
        intro x hx
        rw [hd] at hx
        rcases mem_put hx with rfl | ⟨hx,-⟩
        · exact ⟨a,Table.mem_of_find ha,hev.organizationId,hev.nameKey,hev.serviceAccountId⟩
        · exact ⟨x,hx,rfl,rfl,rfl⟩
      intro x hx y hy horganization hname
      obtain ⟨x',hx',ho,hn,hi⟩ := hold x hx
      obtain ⟨y',hy',ho',hn',hi'⟩ := hold y hy
      obtain rfl := h.names x' hx' y' hy' (by rw [← ho,← ho',horganization]) (by rw [← hn,← hn',hname])
      have hfx := Table.find_of_mem hx
      have hfy := Table.find_of_mem hy
      rw [key_account,hi] at hfx
      rw [key_account,hi',hfx] at hfy
      exact Option.some.inj hfy
  | created r row hc =>
    obtain ⟨t,c,nonce,ciphertext,_,hnew,-,hname,-,-,-,⟨hv,ha⟩,-,-,-,-,hroom⟩ := hc
    refine ⟨fun organizationId => ?_,?_⟩
    · have hcount := Table.countP_put d.accounts hv fun x => x.organizationId = organizationId
      have hrow : (Row.key (insertedAccount t r.serviceAccountId r.organizationId r.subject r.name r.nameKey) : String) =
          r.serviceAccountId := rfl
      rw [hrow,hnew,← ha] at hcount
      have hle := h.room organizationId
      have hN' := hN r rfl
      rw [accountsOf_eq_countP] at hle hroom ⊢
      simp only [Option.toList_none,List.countP_nil,Nat.add_zero,List.countP_singleton,insertedAccount] at hcount
      by_cases ho : r.organizationId = organizationId
      · subst ho
        simp only [decide_true,if_true] at hcount
        omega
      · simp only [ho,decide_false,Bool.false_eq_true,if_false] at hcount
        omega
    · intro x hx y hy horganization hkey
      rw [ha] at hx hy
      rcases mem_put hx with rfl | ⟨hx,-⟩ <;> rcases mem_put hy with rfl | ⟨hy,-⟩
      · rfl
      · exact absurd hkey.symm (hname y hy horganization.symm)
      · exact absurd hkey (hname x hx horganization)
      · exact h.names x hx y hy horganization hkey

/-- All instances that are called have the cap `N`. -/
def SameCap (N : ℕ) (tr : List (CallStep E)) : Prop :=
  ∀ e ∈ tr, ∀ active, e.call.active = some active → active.config.maxAccountsPerOrganization = N

/-- The cap of the creation that a call asks for. -/
lemma Asks.maxAccounts {call : Call E} {φ : Phase E} {h : Held E} {r : CreateAccount} {actor : Option String}
    (ha : Asks call φ h (.createAccount r)) (hacts : Acts actor (some (call, φ))) {N : ℕ}
    (hN : ∀ active, call.active = some active → active.config.maxAccountsPerOrganization = N) : r.maxAccounts = N := by
  cases ha with
  | create hcall hs hr =>
    have hactive := (hacts.presents call _ h rfl rfl).active
    rw [hr.maxAccounts,hN h.active hactive]

lemma Within.empty (N : ℕ) : Within N Database.empty := by
  refine ⟨fun organizationId => Nat.zero_le _,fun a ha => ?_⟩
  simp [Database.empty,EmptyCollection.emptyCollection] at ha

theorem within_cap {c : Run (Call E) Reply} (hc : LockedConfig.Reachable (store E) Call.main Database.empty c)
    {N : ℕ} (hN : SameCap N c.trace) : Within N c.state := by
  have hI := (ownership_invariant E).and (J := fun tr d _ => SameCap N tr → Within N d) (fun _ => .empty N) ?_
  · obtain ⟨p,-,-,h⟩ := hI.reachable (obeyed E) (serializable hc)
    exact h hN
  · intro tr d p e p' ho h hs hcap
    have hstep := (mutates_of_legal hs.legal).accountsStep
    rw [hs.before] at hstep
    refine (h fun x hx => hcap x (List.mem_cons_of_mem e hx)).step hstep fun r hr => ?_
    obtain ⟨φ,held,hp,hask⟩ := step_asks hs hr
    have hacts := ho.acting e.tid
    rw [hp] at hacts
    exact hask.maxAccounts hacts (hcap e (by simp))

/-- The cap over a whole run, and the reasons of the creations that it turns away. -/
structure Capped (N : ℕ) (c : Run (Call E) Reply) : Prop where
  within : Within N c.state
  full : ∀ e ∈ c.trace, ∀ r, e.action = .perform (.transact (.createAccount r)) (.ok none) →
    N ≤ e.before.accountsOf r.organizationId
  taken : ∀ e ∈ c.trace, ∀ r operation, e.action = .perform (.transact (.createAccount r))
      (.error (.database operation (.uniqueViolation "service_accounts_organization_name_unique"))) →
    ∃ plugin context request, e.call = .create plugin context request ∧
      ∃ a ∈ e.before.accounts.rows, a.organizationId = request.organizationId ∧
        a.nameKey = toAsciiLowercase (trim request.name)

/-- The cap holds in every run of instances that agree on it. -/
theorem capped {c : Run (Call E) Reply} (hc : LockedConfig.Reachable (store E) Call.main Database.empty c)
    {N : ℕ} (hN : SameCap N c.trace) : Capped N c where
  within := within_cap hc hN
  full e he r ha := by
    obtain ⟨pre,p,φ,φ',ch,ho,hp,hm,hH,-⟩ := perform_event hc he ha
    obtain ⟨held,hask⟩ := hm.asks
    have hacts := ho.acting e.tid
    rw [hp] at hacts
    have hcap := hask.maxAccounts hacts (hN e he)
    generalize e.after = d' at hH
    cases ch with
    | inl c => simp [Store.serial] at hH
    | inr cs =>
      cases (Transaction.outcome hH : CreateOutcome _ _ _ _ _) with
      | full h =>
        rw [hcap] at h
        exact_mod_cast h
  taken e he r operation ha := by
    obtain ⟨pre,p,φ,φ',ch,ho,hp,hm,hH,-⟩ := perform_event hc he ha
    obtain ⟨held,hask⟩ := hm.asks
    cases hask with
    | @create plugin context request _ _ _ hcall hs hr =>
      refine ⟨plugin,context,request,hcall,?_⟩
      generalize e.after = d' at hH
      cases ch with
      | inl c => simp [Store.serial] at hH
      | inr cs =>
        cases (Transaction.outcome hH : CreateOutcome _ _ _ _ _) with
        | failed _ hf hn =>
          obtain ⟨a,hmem,horganization,hname⟩ | ⟨x,hx⟩ := hn rfl
          · exact ⟨a,hmem,horganization.trans hr.organizationId,hname.trans hr.nameKey⟩
          · rw [hr.receipt] at hx
            obtain hx | ⟨source,hx⟩ := (createReceipt_seals held x).failure hx <;> cases hx

set_option maxRecDepth 4000 in
/-- A creation under a cap of ten. -/
theorem capped_sample : Capped 10 sampleCreateRun := by
  refine capped sampleCreateRun_reachable fun e he active ha => ?_
  have hall : (sampleCreateRun.trace.all fun e => e.call.active.all fun active =>
      active.config.maxAccountsPerOrganization == 10) = true := by decide +kernel
  have hactive := List.all_eq_true.mp hall e he
  rw [ha] at hactive
  exact beq_iff_eq.mp hactive

end LensoServiceAccount
