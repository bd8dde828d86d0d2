import LensoServiceAccount.Ownership

/-! Claiming beside pruning: the two statements of a claim, with everything that other calls may do in
between. -/

namespace LensoServiceAccount
variable {E : Environment}

/-- The step removes the row of the command. -/
def removes {κ ρ : Type} (k : CommandKey) (e : Step κ ρ) : Bool :=
  (e.before.commands.find k).isSome && (e.after.commands.find k).isNone

/-- The INSERT of a claim that has found the row there. -/
structure Misses {κ ρ : Type} (k : CommandKey) (intentHash : Bytes) (e : Step κ ρ) : Prop where
  action : e.action = .perform (.pool (.execute (.reserveCommand k intentHash))) (.ok 0)
  found : (e.before.commands.find k).isSome = true

/-- The SELECT of a claim that has read the row. -/
structure Reads {κ ρ : Type} (k : CommandKey) (row : Command) (e : Step κ ρ) : Prop where
  action : e.action = .perform (.pool (.execute (.loadCommand k))) (.ok row)
  found : e.before.commands.find k = some row

/-- The last step of the call was an INSERT that has found the row there: it has not read it yet. -/
def Waits {κ ρ : Type} (k : CommandKey) (i : ℕ) (tr : List (Step κ ρ)) : Prop :=
  ∃ x intentHash, (tr.find? fun y => decide (y.tid = i)) = some x ∧ Misses k intentHash x

/-- A step removes no row that a claim has found and has not read yet. -/
def Spares {κ ρ : Type} (tr : List (Step κ ρ)) (e : Step κ ρ) : Prop :=
  ∀ k, removes k e = true → ∀ i, ¬Waits k i tr

/-- In none of the steps is the row inserted or removed. -/
def Undisturbed {κ ρ : Type} (k : CommandKey) (tr : List (Step κ ρ)) : Prop :=
  ∀ z ∈ tr, inserts k z = false ∧ removes k z = false

/-- Where a claim is. -/
inductive ClaimPhase
  | begun
  | contested
  | done (result : Except ServiceAccountPluginError CommandClaim)

/-- The two statements of a claim; other calls are free. -/
inductive ClaimMove (call : StorageCall) : ClaimPhase → (o : Effect) → Effect.Ans o → ClaimPhase → Prop
  | free {φ o a} (hcall : ∀ key intentHash, call ≠ .claimCommand key intentHash) : ClaimMove call φ o a φ
  | claimed {key intentHash} (hcall : call = .claimCommand key intentHash) :
      ClaimMove call .begun (.pool (.execute (.reserveCommand key intentHash))) (.ok 1) (.done (.ok .claimed))
  | contested {key intentHash} {n : ℕ} (hcall : call = .claimCommand key intentHash) (hn : n ≠ 1) :
      ClaimMove call .begun (.pool (.execute (.reserveCommand key intentHash))) (.ok n) .contested
  | refused {key intentHash e} (hcall : call = .claimCommand key intentHash) :
      ClaimMove call .begun (.pool (.execute (.reserveCommand key intentHash))) (.error e)
        (.done (.error (.database "reserve service-account command" e)))
  | read {key intentHash row} (hcall : call = .claimCommand key intentHash) :
      ClaimMove call .contested (.pool (.execute (.loadCommand key))) (.ok row)
        (.done (.ok (.ofCommand intentHash row)))
  | lost {key intentHash e} (hcall : call = .claimCommand key intentHash) :
      ClaimMove call .contested (.pool (.execute (.loadCommand key))) (.error e)
        (.done (.error (.database "load service-account command" e)))

inductive ClaimLast (call : StorageCall) : StorageReply → ClaimPhase → Prop
  | free {r φ} (hcall : ∀ key intentHash, call ≠ .claimCommand key intentHash) : ClaimLast call r φ
  | done {result} : ClaimLast call (.claimCommand result) (.done result)

/-- The protocol of claims. -/
def claimProtocol : Protocol StorageCall Effect Effect.Ans StorageReply ClaimPhase where
  first _ := .begun
  move := ClaimMove
  last := ClaimLast

lemma claims_free {ok : (o : Effect) → Effect.Ans o → Prop} {call : StorageCall}
    (hcall : ∀ key intentHash, call ≠ .claimCommand key intentHash) (p : Program Effect Effect.Ans StorageReply)
    (φ : ClaimPhase) : p.Conforms ok (ClaimMove call) φ (ClaimLast call) := by
  induction p with
  | pure r => exact .free hcall
  | perform o next ih => exact fun a _ => ⟨φ,.free hcall,ih a⟩

/-- Every call of the storage module keeps to it. -/
theorem claims_obeyed (E : Environment) : claimProtocol.Obeyed (store E).serial StorageCall.main := by
  intro call
  cases call with
  | claimCommand key intentHash =>
    refine (Program.conforms_bind (claimCommand key intentHash).run _ _ _).mpr ?_
    refine (Program.conforms_bind_except _ _ _ _).mpr fun a _ => ?_
    cases a with
    | error e => exact ⟨_,.refused rfl,.done⟩
    | ok n =>
      by_cases hn : n = 1
      · subst hn
        exact ⟨_,.claimed rfl,.done⟩
      · refine ⟨_,.contested rfl hn,?_⟩
        dsimp only [TxM.database,Program.Conforms]
        rw [if_neg hn]
        refine (Program.conforms_bind_except _ _ _ _).mpr fun a _ => ?_
        cases a with
        | error e => exact ⟨_,.lost rfl,.done⟩
        | ok row => exact ⟨_,.read rfl,.done⟩
  | _ => exact claims_free (fun _ _ h => by cases h) _ _

/-- A claim has found the row there, and it has been the same row ever since. -/
def Found (k : CommandKey) (i : ℕ) (tr : List (Step StorageCall StorageReply)) : Prop :=
  ∃ mid x pre intentHash, tr = mid ++ x :: pre ∧ x.tid = i ∧ Misses k intentHash x ∧ Undisturbed k mid

/-- What the result of a claim rests on. -/
inductive Justified (k : CommandKey) (intentHash : Bytes) (i : ℕ) (tr : List (Step StorageCall StorageReply)) :
    Except ServiceAccountPluginError CommandClaim → Prop
  | claimed (h : ∃ x ∈ tr, x.tid = i ∧ inserts k x = true) : Justified k intentHash i tr (.ok .claimed)
  | answered {post y pre row} (htr : tr = post ++ y :: pre) (hy : y.tid = i) (hr : Reads k row y)
      (hf : Found k i pre) : Justified k intentHash i tr (.ok (.ofCommand intentHash row))
  | unavailable {operation} (h : ∃ x ∈ tr, ∃ s, x.action = .perform (.pool (.execute s)) (.error .unavailable)) :
      Justified k intentHash i tr (.error (.database operation .unavailable))
  | refused {operation e} (h : Row.check (reservedCommand 0 k intentHash) = false) :
      Justified k intentHash i tr (.error (.database operation e))

/-- The claims that run, each with what it has found. -/
structure Claims (tr : List (Step StorageCall StorageReply)) (d : Database)
    (p : Protocol.Phases StorageCall ClaimPhase) : Prop where
  waits : ∀ i key intentHash, p i = some (.claimCommand key intentHash, .contested) →
    (d.commands.find key).isSome = true ∧ Waits key i tr ∧ Found key i tr
  done : ∀ i key intentHash result, p i = some (.claimCommand key intentHash, .done result) →
    Justified key intentHash i tr result

section Statements
variable {c : Choice} {d d' : Database}

lemma reserve_error {key : CommandKey} {intentHash : Bytes} {e : SqlError}
    (h : Op.handle E (.execute (.reserveCommand key intentHash)) c d = some (.error e, d')) :
    e = .unavailable ∨ Row.check (reservedCommand 0 key intentHash) = false := by
  by_cases hv : Row.check (reservedCommand 0 key intentHash) = true
  · have hv' : Row.check (reservedCommand c.now key intentHash) = true := hv
    refine .inl ?_
    by_cases hfind : (d.commands.find key).isSome = true <;>
      simp only [Op.handle,Statement.execute,writeRow,hv',dif_pos,hfind,bind,Except.bind,pure,Except.pure] at h <;>
      cases hf : c.fault with
      | none => simp [hf] at h
      | some f => cases f <;> simp_all
  · exact .inr (by simpa using hv)

lemma load_answer {key : CommandKey} {r : Except SqlError Command}
    (h : Op.handle E (.execute (.loadCommand key)) c d = some (r, d')) (hsome : (d.commands.find key).isSome = true) :
    r = .error .unavailable ∨ ∃ row, r = .ok row ∧ d.commands.find key = some row := by
  obtain ⟨row,hrow⟩ := Option.isSome_iff_exists.mp hsome
  simp only [Op.handle,Statement.execute,hrow] at h
  cases hf : c.fault with
  | none => simp_all
  | some f => cases f <;> simp_all

end Statements

section Steps
variable {tr : List (Step StorageCall StorageReply)} {d : Database} {p p' : Protocol.Phases StorageCall ClaimPhase}
variable {e : Step StorageCall StorageReply}

lemma Justified.cons {k : CommandKey} {intentHash : Bytes} {i : ℕ} {r : Except ServiceAccountPluginError CommandClaim}
    (h : Justified k intentHash i tr r) : Justified k intentHash i (e :: tr) r := by
  cases h with
  | claimed h =>
    obtain ⟨x,hx,h⟩ := h
    exact .claimed ⟨x,List.mem_cons_of_mem e hx,h⟩
  | @answered post y pre row htr hy hr hf => exact .answered (show e :: tr = (e :: post) ++ y :: pre by rw [htr]; rfl) hy hr hf
  | unavailable h =>
    obtain ⟨x,hx,h⟩ := h
    exact .unavailable ⟨x,List.mem_cons_of_mem e hx,h⟩
  | refused h => exact .refused h

/-- The row of a claim that waits is still there after the step of another call that spares it. -/
lemma Claims.keep (h : Claims tr d p) (hs : claimProtocol.Step (store E).serial tr d p e p') (hspares : Spares tr e)
    {j : ℕ} (hj : j ≠ e.tid) {key : CommandKey} {intentHash : Bytes}
    (hp : p j = some (.claimCommand key intentHash, .contested)) :
    (e.after.commands.find key).isSome = true ∧ Waits key j (e :: tr) ∧ Found key j (e :: tr) := by
  obtain ⟨hsome,hwaits,mid,x,pre,hash,htr,hx,hmisses,hquiet⟩ := h.waits j key intentHash hp
  rw [← hs.before] at hsome
  have hremoves : removes key e = false := by
    rw [← Bool.not_eq_true]
    exact fun hr => hspares key hr j hwaits
  have hafter : (e.after.commands.find key).isSome = true := by
    simpa [removes,hsome] using hremoves
  have hinserts : inserts key e = false := by
    rw [inserts]
    cases hf : e.before.commands.find key with
    | none => simp [hf] at hsome
    | some row => rfl
  refine ⟨hafter,?_,e :: mid,x,pre,hash,by rw [htr]; rfl,hx,hmisses,?_⟩
  · obtain ⟨y,hash',hy,hm⟩ := hwaits
    refine ⟨y,hash',?_,hm⟩
    rw [List.find?_cons_of_neg (by simpa using hj.symm)]
    exact hy
  · intro z hz
    rcases List.mem_cons.mp hz with rfl | hz
    · exact ⟨hinserts,hremoves⟩
    · exact hquiet z hz

theorem Claims.step (h : Claims tr d p) (hs : claimProtocol.Step (store E).serial tr d p e p')
    (hspares : Spares tr e) : Claims (e :: tr) e.after p' := by
  refine ⟨fun j key intentHash hj => ?_,fun j key intentHash result hj => ?_⟩ <;> by_cases hje : j = e.tid
  · subst hje
    cases hs with
    | start i call hp hi => simp [claimProtocol] at hj
    | reply i call φ r hp hl => simp at hj
    | stop i call φ hp => simp at hj
    | perform i call φ φ' o choice a s' hp hm hH =>
      simp only [Function.update_self,Option.some.injEq,Prod.mk.injEq] at hj
      obtain ⟨rfl,rfl⟩ := hj
      cases hm with
      | free hcall => exact absurd rfl (hcall key intentHash)
      | @contested key' hash n hcall hn =>
        obtain ⟨rfl,rfl⟩ := StorageCall.claimCommand.inj hcall
        obtain ⟨ch,hx⟩ := Op.handle_of_serial hH
        obtain ⟨m,hm,hx⟩ | ⟨error,herror,-⟩ := execute_answer hx
        swap
        · cases herror
        obtain rfl := Except.ok.inj hm
        obtain ⟨rfl,rfl,hfind⟩ | ⟨hone,-⟩ := reserve_ok hx
        swap
        · exact absurd hone hn
        have hsome := Option.isSome_iff_ne_none.mpr hfind
        have hmisses : Misses key intentHash (⟨i,.claimCommand key intentHash,
          .perform (.pool (.execute (.reserveCommand key intentHash))) (.ok 0),s',s'⟩ : Step StorageCall StorageReply) :=
          ⟨rfl,hsome⟩
        exact ⟨hsome,⟨_,_,List.find?_cons_of_pos (by simp),hmisses⟩,[],_,_,_,rfl,rfl,hmisses,fun z hz => by simp at hz⟩
  · rw [hs.other hje] at hj
    exact h.keep hs hspares hje hj
  · subst hje
    cases hs with
    | start i call hp hi => simp [claimProtocol] at hj
    | reply i call φ r hp hl => simp at hj
    | stop i call φ hp => simp at hj
    | perform i call φ φ' o choice a s' hp hm hH =>
      simp only [Function.update_self,Option.some.injEq,Prod.mk.injEq] at hj
      obtain ⟨rfl,rfl⟩ := hj
      cases hm with
      | free hcall => exact absurd rfl (hcall key intentHash)
      | claimed hcall =>
        obtain ⟨rfl,rfl⟩ := StorageCall.claimCommand.inj hcall
        obtain ⟨ch,hx⟩ := Op.handle_of_serial hH
        obtain ⟨m,hm,hx⟩ | ⟨error,herror,-⟩ := execute_answer hx
        swap
        · cases herror
        obtain rfl := Except.ok.inj hm
        obtain ⟨hzero,-⟩ | ⟨-,hnone,hv,rfl⟩ := reserve_ok hx
        · cases hzero
        refine .claimed ⟨_,List.mem_cons_self,rfl,?_⟩
        have hself : (d.commands.put (reservedCommand ch.now key intentHash) hv).find key = some _ :=
          Table.find_put_self d.commands (reservedCommand ch.now key intentHash) hv
        simp [inserts,hnone,hself]
      | refused hcall =>
        obtain ⟨rfl,rfl⟩ := StorageCall.claimCommand.inj hcall
        obtain ⟨ch,hx⟩ := Op.handle_of_serial hH
        obtain rfl | hv := reserve_error hx
        · exact .unavailable ⟨_,List.mem_cons_self,_,rfl⟩
        · exact .refused hv
      | read hcall =>
        obtain ⟨rfl,rfl⟩ := StorageCall.claimCommand.inj hcall
        obtain ⟨hsome,-,hfound⟩ := h.waits i key intentHash hp
        obtain ⟨ch,hx⟩ := Op.handle_of_serial hH
        obtain hr | ⟨row,hr,hrow⟩ := load_answer hx hsome
        · cases hr
        · obtain rfl := Except.ok.inj hr
          exact .answered (List.nil_append _).symm rfl ⟨rfl,hrow⟩ hfound
      | lost hcall =>
        obtain ⟨rfl,rfl⟩ := StorageCall.claimCommand.inj hcall
        obtain ⟨hsome,-,-⟩ := h.waits i key intentHash hp
        obtain ⟨ch,hx⟩ := Op.handle_of_serial hH
        obtain hr | ⟨row,hr,-⟩ := load_answer hx hsome
        · obtain rfl := Except.error.inj hr
          exact .unavailable ⟨_,List.mem_cons_self,_,rfl⟩
        · cases hr
  · rw [hs.other hje] at hj
    exact (h.done j key intentHash result hj).cons

end Steps

/-- No statement is let down by the database. -/
def Available {κ ρ : Type} (tr : List (Step κ ρ)) : Prop :=
  ∀ e ∈ tr, ∀ s, e.action ≠ .perform (.pool (.execute s)) (.error .unavailable)

/-- No step removes a row between the two statements of a claim that has found it. -/
def SparesClaims {κ ρ : Type} (tr : List (Step κ ρ)) : Prop := ∀ post e pre, tr = post ++ e :: pre → Spares pre e

/-- The row of a command can be stored. -/
def Storable (k : CommandKey) (intentHash : Bytes) : Prop := Row.check (reservedCommand 0 k intentHash) = true

/-- What the claims of a run can rely on. -/
structure ClaimAtomic (c : Run StorageCall StorageReply) : Prop where
  answered : ∀ e ∈ c.trace, ∀ key intentHash r, e.call = .claimCommand key intentHash →
    e.action = .reply (.claimCommand r) → Storable key intentHash → ∃ claim, r = .ok claim
  /-- As long as an inserted row is not removed, no other claim inserts it. -/
  once : ∀ k post mid x pre, c.trace = post ++ (mid ++ x :: pre) → inserts k x = true →
    (∀ z ∈ mid, removes k z = false) → ∀ z ∈ mid, inserts k z = false
  claimed : ∀ e ∈ c.trace, ∀ key intentHash, e.call = .claimCommand key intentHash →
    e.action = .reply (.claimCommand (.ok .claimed)) → ∃ x ∈ c.trace, x.tid = e.tid ∧ inserts key x = true
  /-- Any other answer is about the row that the INSERT has found, as it is when it is read. -/
  described : ∀ e ∈ c.trace, ∀ key intentHash claim, e.call = .claimCommand key intentHash →
    e.action = .reply (.claimCommand (.ok claim)) → claim ≠ .claimed → ∃ post y mid x pre row hash,
      c.trace = post ++ y :: (mid ++ x :: pre) ∧ x.tid = e.tid ∧ y.tid = e.tid ∧ Misses key hash x ∧
      Undisturbed key mid ∧ Reads key row y ∧ claim = .ofCommand intentHash row

section Runs
variable {c : Run StorageCall StorageReply}

/-- A row stays from its insertion to its removal. -/
def Lasts {κ ρ : Type} (k : CommandKey) (tr : List (Step κ ρ)) (d : Database) : Prop :=
  ∀ mid x pre, tr = mid ++ x :: pre → inserts k x = true → (∀ z ∈ mid, removes k z = false) →
    (d.commands.find k).isSome = true ∧ ∀ z ∈ mid, inserts k z = false

lemma Lasts.step {κ ρ : Type} {k : CommandKey} {tr : List (Step κ ρ)} {e : Step κ ρ} (h : Lasts k tr e.before) :
    Lasts k (e :: tr) e.after := by
  intro mid x pre htr hx hno
  cases mid with
  | nil =>
    obtain ⟨rfl,rfl⟩ := List.cons.inj htr
    simp only [inserts,Bool.and_eq_true] at hx
    exact ⟨hx.2,fun z hz => by simp at hz⟩
  | cons z mid =>
    obtain ⟨rfl,htr'⟩ := List.cons.inj htr
    obtain ⟨hsome,hmid⟩ := h mid x pre htr' hx fun y hy => hno y (List.mem_cons_of_mem e hy)
    have hremoves := hno e List.mem_cons_self
    refine ⟨by simpa [removes,hsome] using hremoves,fun y hy => ?_⟩
    rcases List.mem_cons.mp hy with rfl | hy
    · rw [inserts]
      cases hf : y.before.commands.find k with
      | none => simp [hf] at hsome
      | some row => rfl
    · exact hmid y hy

/-- Between two insertions of a row it has been removed. -/
lemma inserted_once {d : Database} (hc : LockedConfig.Reachable (store E) StorageCall.main d c) {k : CommandKey}
    {post mid pre : List (Step StorageCall StorageReply)} {x : Step StorageCall StorageReply}
    (htr : c.trace = post ++ (mid ++ x :: pre)) (hx : inserts k x = true)
    (hno : ∀ z ∈ mid, removes k z = false) : ∀ z ∈ mid, inserts k z = false := by
  obtain ⟨b,hb,htrace⟩ := (serializable hc).earlier htr
  have hlasts : Lasts k b.trace b.state := by
    refine hb.invariant (I := Lasts k) (fun mid x pre htr => ?_) fun tr e h _ => h.step
    simp at htr
  exact (hlasts mid x pre htrace hx hno).2

theorem claims_invariant (E : Environment) (d : Database) : claimProtocol.Invariant (store E).serial d
    fun tr d p => SparesClaims tr → Claims tr d p where
  init _ := ⟨fun _ _ _ h => (by cases h),fun _ _ _ _ h => (by cases h)⟩
  step {tr s p e p'} h hs hspares :=
    (h fun post x pre he => hspares (e :: post) x pre (by rw [he]; rfl)).step hs (hspares [] e tr rfl)

lemma SparesClaims.of_append {κ ρ : Type} {post tr : List (Step κ ρ)} (h : SparesClaims (post ++ tr)) :
    SparesClaims tr := fun post' e pre he => h (post ++ post') e pre (by rw [he,List.append_assoc])

/-- What a claim that has replied rests on. -/
lemma justified_of_reply {d : Database} (hc : LockedConfig.Reachable (store E) StorageCall.main d c)
    (hspares : SparesClaims c.trace) {e : Step StorageCall StorageReply} (he : e ∈ c.trace) {key : CommandKey}
    {intentHash : Bytes} (hcall : e.call = .claimCommand key intentHash)
    {r : Except ServiceAccountPluginError CommandClaim} (hr : e.action = .reply (.claimCommand r)) :
    ∃ post pre, c.trace = post ++ pre ∧ Justified key intentHash e.tid pre r := by
  obtain ⟨post,pre,htr⟩ := List.append_of_mem he
  obtain ⟨p,p',h,hs⟩ := (claims_invariant E d).event (claims_obeyed E) (serializable hc) htr
  have hsp : SparesClaims (e :: pre) := SparesClaims.of_append (by rwa [← htr])
  have hclaims := h (SparesClaims.of_append (show SparesClaims ([e] ++ pre) from hsp))
  refine ⟨post ++ [e],pre,by rw [htr,List.append_assoc]; rfl,?_⟩
  generalize hb : e.before = d' at hs hclaims
  cases hs with
  | start i call hp hi => cases hr
  | perform i call φ φ' o choice a s' hp hm hH => cases hr
  | stop i call φ hp => cases hr
  | reply i call φ r' hp hl =>
    cases hr
    obtain rfl : call = .claimCommand key intentHash := hcall
    cases hl with
    | free hfree => exact absurd rfl (hfree key intentHash)
    | done => exact hclaims.done i key intentHash r hp

/-- In every run in which no row is removed between the two statements of a claim that has found it,
claiming is atomic. -/
theorem claim_atomic {d : Database} (hc : LockedConfig.Reachable (store E) StorageCall.main d c)
    (havailable : Available c.trace) (hspares : SparesClaims c.trace) : ClaimAtomic c where
  answered e he key intentHash r hcall hr hstorable := by
    obtain ⟨post,pre,htr,hj⟩ := justified_of_reply hc hspares he hcall hr
    cases hj with
    | claimed => exact ⟨_,rfl⟩
    | answered => exact ⟨_,rfl⟩
    | unavailable h =>
      obtain ⟨x,hx,s,hs⟩ := h
      exact absurd hs (havailable x (by rw [htr]; exact List.mem_append_right _ hx) s)
    | refused h => exact absurd (hstorable.symm.trans h) (by simp)
  once k post mid x pre htr hx hno := inserted_once hc htr hx hno
  claimed e he key intentHash hcall hr := by
    obtain ⟨post,pre,htr,hj⟩ := justified_of_reply hc hspares he hcall hr
    generalize hres : (Except.ok CommandClaim.claimed : Except ServiceAccountPluginError CommandClaim) = res at hj
    cases hj with
    | claimed h =>
      obtain ⟨x,hx,h⟩ := h
      exact ⟨x,by rw [htr]; exact List.mem_append_right _ hx,h⟩
    | answered =>
      have hclaim := Except.ok.inj hres
      unfold CommandClaim.ofCommand at hclaim
      split_ifs at hclaim
      split at hclaim <;> cases hclaim
    | unavailable => cases hres
    | refused => cases hres
  described e he key intentHash claim hcall hr hne := by
    obtain ⟨post,pre,htr,hj⟩ := justified_of_reply hc hspares he hcall hr
    generalize hres : (Except.ok claim : Except ServiceAccountPluginError CommandClaim) = res at hj
    cases hj with
    | claimed => exact absurd (Except.ok.inj hres) hne
    | @answered post' y pre' row htr' hy hreads hf =>
      obtain ⟨mid,x,pre'',hash,rfl,hx,hmisses,hquiet⟩ := hf
      exact ⟨post ++ post',y,mid,x,pre'',row,hash,by rw [htr,htr',List.append_assoc],hx,hy,hmisses,hquiet,hreads,
        Except.ok.inj hres⟩
    | unavailable => cases hres
    | refused => cases hres

end Runs

/-- A statement fails because the database lets it down. -/
def letDown {κ ρ : Type} (e : Step κ ρ) : Bool :=
  match e.action with
  | .perform (.pool (.execute _)) (.error .unavailable) => true
  | _ => false

lemma available_of_all {κ ρ : Type} {tr : List (Step κ ρ)} (h : tr.all (fun e => !letDown e) = true) :
    Available tr := by
  intro e he s hs
  have hdown := List.all_eq_true.mp h e he
  simp [letDown,hs] at hdown

/-- Rows that all are still there: nothing has been removed. -/
lemma sparesClaims_of_all {κ ρ : Type} {tr : List (Step κ ρ)}
    (h : (tr.all fun e => e.before.commands.rows.all fun row => (e.after.commands.find row.key).isSome) = true) :
    SparesClaims tr := by
  intro post e pre he k hr
  have hrows := List.all_eq_true.mp h e (by rw [he]; simp)
  simp only [removes,Bool.and_eq_true] at hr
  obtain ⟨row,hrow⟩ := Option.isSome_iff_exists.mp hr.1
  have hafter := List.all_eq_true.mp hrows row (Table.mem_of_find hrow)
  rw [show row.key = k from Table.key_of_find hrow] at hafter
  simp [Option.isNone_iff_eq_none.mp hr.2] at hafter

def sampleKey : CommandKey := ⟨"console","create","k1"⟩

/-- Call `0` claims the command and call `1` fails it; the claim of call `2` finds the row. -/
def sampleClaims : List (LockedLabel StorageCall Choice Choice) :=
  [.start (.claimCommand sampleKey (List.replicate 32 0)),.pool 0 {},.reply 0,
    .start (.completeError sampleKey "not_found"),.pool 1 {},.reply 1,
    .start (.claimCommand sampleKey (List.replicate 32 0)),.pool 2 {}]

/-- Call `2` reads the row. -/
noncomputable def sampleReadRun : Run StorageCall StorageReply :=
  ((LockedConfig.init Database.empty).run (store .plain) StorageCall.main
    (sampleClaims ++ [.pool 2 {},.reply 2])).get (by decide)

/-- Call `3` prunes the row before call `2` reads it. -/
noncomputable def samplePruneRun : Run StorageCall StorageReply :=
  ((LockedConfig.init Database.empty).run (store .plain) StorageCall.main (sampleClaims ++
    [.start (.prune 300),.pool 3 { now := seconds 1000 },.reply 3,.pool 2 {},.reply 2])).get (by decide)

/-- A claim fails on the row that another call prunes between its two statements. -/
theorem claim_loses_row :
    LockedConfig.Reachable (store .plain) StorageCall.main Database.empty samplePruneRun ∧
    Available samplePruneRun.trace ∧ Storable sampleKey (List.replicate 32 0) ∧
    (∃ e ∈ samplePruneRun.trace, e.call = .claimCommand sampleKey (List.replicate 32 0) ∧ e.action =
      .reply (.claimCommand (.error (.database "load service-account command" .rowNotFound)))) ∧
    ¬ClaimAtomic samplePruneRun := by
  have hstorable : Storable sampleKey (List.replicate 32 0) := by
    unfold Storable
    decide
  have hreply : ∃ e ∈ samplePruneRun.trace, e.call = .claimCommand sampleKey (List.replicate 32 0) ∧
      e.action = .reply (.claimCommand (.error (.database "load service-account command" .rowNotFound))) :=
    ⟨_,List.mem_cons_self,rfl,rfl⟩
  refine ⟨LockedConfig.leads_of_run (Option.some_get _).symm,available_of_all (by decide),hstorable,hreply,
    fun h => ?_⟩
  obtain ⟨e,he,hcall,hr⟩ := hreply
  obtain ⟨claim,hclaim⟩ := h.answered e he _ _ _ hcall hr hstorable
  cases hclaim

/-- Without the pruning the second claim reports the row that it has found. -/
theorem claim_atomic_sample : (∃ e ∈ sampleReadRun.trace,
      e.call = .claimCommand sampleKey (List.replicate 32 0) ∧
      e.action = .reply (.claimCommand (.ok (.completedError "not_found")))) ∧ ClaimAtomic sampleReadRun :=
  ⟨⟨_,List.mem_cons_self,rfl,rfl⟩,claim_atomic (LockedConfig.leads_of_run (Option.some_get _).symm)
    (available_of_all (by decide)) (sparesClaims_of_all (by decide))⟩

end LensoServiceAccount
