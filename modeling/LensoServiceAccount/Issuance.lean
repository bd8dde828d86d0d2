import LensoServiceAccount.Evidence
import LensoServiceAccount.Guessing

/-! The calls of the issuer: for each lifetime of a command there is at most one, and what is not known to
have failed stays issuing. -/

namespace LensoServiceAccount
variable {E : Environment}

/-- The step calls the issuer for the command. -/
structure Issues (k : CommandKey) (e : CallStep E) : Prop where
  action : ∃ r a, e.action = .perform (.pool (.issue r)) a
  command : e.call.commandKey = some k

/-- The issuer has answered that the account is disabled. -/
def Disables (e : CallStep E) : Prop := ∃ r, e.action = .perform (.pool (.issue r)) (.error (.domain .disabled))

/-- What the row of a command says after the issuer has been called. -/
inductive IssueOutcome (e : CallStep E) (row : Command) : Prop
  | success (hs : row.status = .completedSuccess)
  | disabled (he : Disables e) (hs : row.status = .completedError) (hc : row.errorCode = some "disabled")
  | issuing (hs : row.status = .issuing)

/-- Where a call is after it has called the issuer. -/
def Phase.AfterIssue (e : CallStep E) : Phase E → Prop
  | .issued _ _ _ _ | .settled _ _ | .broken _ => True
  | .refused _ => Disables e
  | _ => False

/-- What holds from the call of the issuer on, as long as the row is not inserted anew. -/
structure Issued (k : CommandKey) (e : CallStep E) (post : List (CallStep E)) (d : Database) (p : CallPhases E) : Prop where
  quiet : ∀ y ∈ post, ¬Issues k y
  phase : ∀ call φ, p e.tid = some (call, φ) → φ.AfterIssue e
  row : ∀ row, d.commands.find k = some row → IssueOutcome e row

section Moves
variable {call : Call E} {φ φ' : Phase E} {o : Effect} {a : Effect.Ans o} {e : CallStep E}

lemma Phase.AfterIssue.move (h : φ.AfterIssue e) (hm : Move call φ o a φ') : φ'.AfterIssue e := by
  cases hm with
  | declined ha hd => cases ha <;> first | exact absurd h id | exact absurd hd id
  | recorded | lost | unrecorded | failed | completed => trivial
  | _ => first | exact h | exact absurd h id

/-- After it the issuer is not called again. -/
lemma Phase.AfterIssue.silent (h : φ.AfterIssue e) (hm : Move call φ o a φ') : ∀ r, o ≠ .pool (.issue r) := by
  cases hm <;> intro r <;> first | exact absurd h id | simp

/-- Only the answer that the account is disabled is recorded as an error. -/
lemma Phase.AfterIssue.records (h : φ.AfterIssue e) {code : String} (hr : φ.records code = true) :
    Disables e ∧ code = "disabled" := by
  cases φ with
  | refused held => exact ⟨h,of_decide_eq_true hr⟩
  | issued | settled | broken => cases hr
  | _ => exact absurd h id

end Moves

section Steps
variable {k : CommandKey} {tr pre post : List (CallStep E)} {d : Database} {p p' : CallPhases E} {e x : CallStep E}

lemma claimant_append (h : ∀ y ∈ post, inserts k y = false) (tr : List (CallStep E)) :
    claimant k (post ++ tr) = claimant k tr := by
  induction post with
  | nil => rfl
  | cons y post ih =>
    rw [List.cons_append,claimant_cons,h y (by simp)]
    exact ih fun z hz => h z (List.mem_cons_of_mem y hz)

/-- A call that holds the command has claimed it. -/
lemma Owned.claimant_of_key (h : Owned tr d p) (ha : Acting tr p) {i : ℕ} {call : Call E} {φ : Phase E} {held : Held E}
    {s : CommandStatus} (hp : p i = some (call, φ)) (hh : φ.holds = some (held, s))
    (hk : call.commandKey = some k) : held.key = k ∧ claimant k tr = some i := by
  obtain ⟨c,-,-,-,hclaim⟩ := h i call φ held s hp hh
  have hpr := (ha i).presents call φ held hp (Phase.presented_of_holds hh)
  obtain rfl : held.key = k := Option.some.inj (hpr.commandKey.symm.trans hk)
  exact ⟨rfl,hclaim⟩

/-- The issuer is called by the claimant of a row that is issuing. -/
lemma Issues.claimed (hx : Issues k e) (ho : Ownership pre e.before p)
    (hs : (protocol E).Step (store E).serial pre e.before p e p') : claimant k pre = some e.tid ∧
      ∃ row, e.before.commands.find k = some row ∧ row.status = .issuing := by
  obtain ⟨⟨r,b,ha⟩,hk⟩ := hx
  generalize e.before = d at ho hs
  cases hs with
  | perform i call φ φ' o choice a s' hp hm hH =>
    cases ha
    have hheld : ∃ held, φ.holds = some (held,.issuing) := by
      have hm' : Move call φ (.pool (.issue r)) b φ' := hm
      cases hm' <;> exact ⟨_,rfl⟩
    obtain ⟨held,hh⟩ := hheld
    obtain ⟨hkey,hclaim⟩ := ho.owned.claimant_of_key ho.acting hp hh hk
    obtain ⟨row,hrow,hstatus,-⟩ := ho.owned i call φ held _ hp hh
    exact ⟨hclaim,row,hkey ▸ hrow,hstatus⟩
  | start i call hp hi => cases ha
  | reply i call φ r hp hl => cases ha
  | stop i call φ hp => cases ha

lemma Issued.start (hx : Issues k e) (ho : Ownership pre e.before p)
    (hs : (protocol E).Step (store E).serial pre e.before p e p') : Issued k e [] e.after p' := by
  obtain ⟨-,row,hrow,hstatus⟩ := hx.claimed ho hs
  obtain ⟨⟨r,b,ha⟩,hk⟩ := hx
  generalize e.before = d at ho hs hrow
  cases hs with
  | perform i call φ φ' o choice a s' hp hm hH =>
    cases ha
    obtain ⟨ch,hH'⟩ := Op.handle_of_serial hH
    have hsame : s' = d := Op.handle_same (by simp) hH'
    refine ⟨fun y hy => (by cases hy),fun call' ψ hψ => ?_,fun row' hrow' => ?_⟩
    · simp only [Function.update_self,Option.some.injEq,Prod.mk.injEq] at hψ
      rw [← hψ.2]
      have hm' : Move call φ (.pool (.issue r)) b φ' := hm
      cases hm' with
      | issued hu he => trivial
      | refused he => exact ⟨_,rfl⟩
      | ambiguous he hf => trivial
    · rw [hsame,hrow] at hrow'
      exact .issuing (Option.some.inj hrow' ▸ hstatus)
  | start i call hp hi => cases ha
  | reply i call φ r hp hl => cases ha
  | stop i call φ hp => cases ha

theorem Issued.step (h : Issued k e post d p) (ho : Ownership (post ++ e :: pre) d p)
    (hclaim : claimant k (post ++ e :: pre) = some e.tid) (hins : inserts k x = false)
    (hs : (protocol E).Step (store E).serial (post ++ e :: pre) d p x p') :
    Issued k e (x :: post) x.after p' := by
  have hmem : e ∈ post ++ e :: pre := by simp
  -- a step that neither changes the rows nor calls the issuer
  have hquiet : x.after = d → (∀ r a, x.action ≠ .perform (.pool (.issue r)) a) →
      (∀ call φ, p' x.tid = some (call, φ) → x.tid ≠ e.tid) → Issued k e (x :: post) x.after p' := by
    intro hd ha hne
    refine ⟨fun y hy hissues => ?_,fun call φ hφ => ?_,fun row hrow => h.row row (hd ▸ hrow)⟩
    · rcases List.mem_cons.mp hy with rfl | hy
      · obtain ⟨r,a,hissue⟩ := hissues.action
        exact ha r a hissue
      · exact h.quiet y hy hissues
    · by_cases hi : e.tid = x.tid
      · rw [hi] at hφ
        exact absurd hi.symm (hne call φ hφ)
      · rw [hs.other hi] at hφ
        exact h.phase call φ hφ
  cases hs with
  | start i call hp hi => exact hquiet rfl (by simp) fun _ _ _ he => hi e hmem he.symm
  | reply i call φ r hp hl => exact hquiet rfl (by simp) (by simp)
  | stop i call φ hp => exact hquiet rfl (by simp) (by simp)
  | perform i call φ φ' o choice a s' hp hm hH =>
    -- whoever holds the command is the call that has called the issuer
    have hown : ∀ {held s}, φ.holds = some (held, s) → held.key = k → i = e.tid ∧ φ.AfterIssue e := by
      intro held s hh hk
      obtain ⟨c,-,-,-,hclaim'⟩ := ho.owned i call φ held s hp hh
      rw [hk,hclaim] at hclaim'
      obtain rfl := Option.some.inj hclaim'
      exact ⟨rfl,h.phase call φ hp⟩
    refine ⟨fun y hy hissues => ?_,fun call' ψ hψ => ?_,fun row hrow => ?_⟩
    · rcases List.mem_cons.mp hy with rfl | hy
      · obtain ⟨⟨r,b,hissue⟩,hk⟩ := hissues
        cases hissue
        have hm' : Move call φ (.pool (.issue r)) b φ' := hm
        have hheld : ∃ held, φ.holds = some (held,.issuing) := by cases hm' <;> exact ⟨_,rfl⟩
        obtain ⟨held,hh⟩ := hheld
        have hkey := (ho.owned.claimant_of_key ho.acting hp hh hk).1
        exact (hown hh hkey).2.silent hm' r rfl
      · exact h.quiet y hy hissues
    · by_cases hi : e.tid = i
      · subst hi
        simp only [Function.update_self,Option.some.injEq,Prod.mk.injEq] at hψ
        rw [← hψ.2]
        exact (h.phase call φ hp).move hm
      · rw [Function.update_of_ne hi] at hψ
        exact h.phase call' ψ hψ
    · have hstep := ho.acting.rowStep hp hm hH k
      rw [show s'.commands.find k = some row from hrow] at hstep
      have hins' : ((d.commands.find k).isNone && (some row).isSome) = false := by
        rw [← show s'.commands.find k = some row from hrow]
        exact hins
      generalize hb : d.commands.find k = row₀ at hstep hins'
      cases hstep with
      | same => exact h.row row hb
      | inserted hpr hk hφ => cases hins'
      | @failed _ held s code c now _ K error hh hr hk hcomp hK he hφ =>
        obtain ⟨hdisables,rfl⟩ := (hown hh hk).2.records hr
        exact .disabled hdisables rfl rfl
      | marked hcall hk hreserved hφ => exact absurd (hown rfl hk).2 id
      | succeeded hask hk hcomp hs hφ => exact .success rfl

end Steps

section Stuck
variable {k : CommandKey} {row : Command} {f x : CallStep E} {pre post : List (CallStep E)} {d : Database}
  {p p' : CallPhases E}

/-- After the step the command is issuing and the call that has claimed it is over. -/
structure Stuck (k : CommandKey) (row : Command) (f : CallStep E) (pre : List (CallStep E)) : Prop where
  there : f.after.commands.find k = some row
  issuing : row.status = .issuing
  ended : ∃ y ∈ f :: pre, claimant k (f :: pre) = some y.tid ∧ y.action.ends = true

/-- The step tries to claim the command. -/
def Tries (k : CommandKey) (intentHash : Bytes) (e : CallStep E) : Prop :=
  ∃ a, e.action = .perform (.pool (.execute (.reserveCommand k intentHash))) a

/-- Where a call is that has tried to claim the command in vain. -/
inductive Phase.Barred (k : CommandKey) (row : Command) (intentHash : Bytes) : Phase E → Prop
  | contested {h} (hk : h.key = k) (hi : h.intentHash = intentHash) : Barred k row intentHash (.contested h)
  | answered {h} (hk : h.key = k) (hi : h.intentHash = intentHash) : Barred k row intentHash (.answered h row)
  | failed {operation e} : Barred k row intentHash (.broken (.pluginFailure (.database operation e)))

/-- The status that an operator sees. -/
def Command.seen (c : Command) : ServiceAccountCommandStatus := ⟨c.status,c.createdAt,c.updatedAt,c.completedAt⟩

/-- The call inspects the command. -/
def Inspects (k : CommandKey) (call : Call E) : Prop := call = .inspectCommand k.callerInstance k.operation k.idempotencyKey

/-- The row stays, and so does the call that has claimed it. -/
structure Frozen (k : CommandKey) (row : Command) (i : ℕ) (tr : List (CallStep E)) (d : Database) (p : CallPhases E) :
    Prop where
  there : d.commands.find k = some row
  claimed : claimant k tr = some i
  gone : p i = none

/-- What becomes of the calls that try to claim the command. -/
structure Barring (k : CommandKey) (row : Command) (post tr : List (CallStep E)) (p : CallPhases E) : Prop where
  phase : ∀ x ∈ post, ∀ intentHash, Tries k intentHash x → ∀ call φ, p x.tid = some (call, φ) →
    φ.Barred k row intentHash
  silent : ∀ x ∈ post, ∀ intentHash, Tries k intentHash x → ∀ z ∈ tr, z.tid = x.tid → ∀ k', ¬Issues k' z
  replies : ∀ x ∈ post, ∀ intentHash, Tries k intentHash x → ∀ z ∈ tr, z.tid = x.tid → ∀ r, z.action = .reply r →
    ∃ φ, φ.Barred k row intentHash ∧ Last z.call r φ

/-- What the calls see that inspect the command. -/
structure Inspecting (k : CommandKey) (row : Command) (post tr : List (CallStep E)) (p : CallPhases E) : Prop where
  phase : ∀ x ∈ post, x.action = .start → ∀ call status, p x.tid = some (call, .inspected status) → Inspects k call →
    status = some row.seen
  replies : ∀ x ∈ post, x.action = .start → ∀ z ∈ tr, z.tid = x.tid → Inspects k z.call → ∀ status,
    z.action = .reply (.inspectCommand (.ok status)) → status = some row.seen

lemma Stuck.frozen (h : Stuck k row f pre) (ho : Ownership (f :: pre) f.after p) :
    ∃ i, Frozen k row i (f :: pre) f.after p := by
  obtain ⟨y,hy,hclaim,hends⟩ := h.ended
  exact ⟨y.tid,h.there,hclaim,ho.orderly.ended y hy hends⟩

theorem Frozen.step {i : ℕ} {tr : List (CallStep E)} (h : Frozen k row i tr d p) (hrow : row.status = .issuing)
    (ho : Ownership tr d p) (hs : (protocol E).Step (store E).serial tr d p x p') (hi : i ∈ tr.map Event.tid) :
    Frozen k row i (x :: tr) x.after p' := by
  have hne : i ≠ x.tid := by
    rintro rfl
    obtain ⟨z,hz,htid⟩ := List.mem_map.mp hi
    cases hs with
    | start j call hp hj => exact hj z hz htid
    | perform j call φ φ' o choice a s' hp hm hH => exact absurd (h.gone.symm.trans hp) (by simp)
    | reply j call φ r hp hl => exact absurd (h.gone.symm.trans hp) (by simp)
    | stop j call φ hp => exact absurd (h.gone.symm.trans hp) (by simp)
  have hafter : x.after.commands.find k = some row := by
    cases hs with
    | perform j call φ φ' o choice a s' hp hm hH =>
      have hstep := ho.acting.rowStep hp hm hH k
      rw [h.there] at hstep
      refine hstep.foreign (Table.check_of_find h.there) (by rw [hrow]; rfl) ?_
      intro held s hh hk
      obtain ⟨c,-,-,-,hclaim⟩ := ho.owned j call φ held s hp hh
      rw [hk,h.claimed] at hclaim
      exact hne (Option.some.inj hclaim)
    | _ => exact h.there
  refine ⟨hafter,?_,by rw [hs.other hne]; exact h.gone⟩
  have hbefore : x.before.commands.find k = some row := by rw [hs.before,h.there]
  have hins : inserts k x = false := by rw [inserts,hbefore]; rfl
  rw [claimant_cons,hins]
  exact h.claimed

section Moves
variable {call : Call E} {φ φ' : Phase E} {o : Effect} {a : Effect.Ans o} {intentHash : Bytes}
  {ch : Choice ⊕ List Choice} {d' : Database}

/-- Trying again is in vain, too: the row is there. -/
lemma Phase.Barred.tried (hd : d.commands.find k = some row) {n : Except SqlError ℕ}
    (ht : (.perform o a : Act Effect Effect.Ans Reply) = .perform (.pool (.execute (.reserveCommand k intentHash))) n)
    (hm : Move call φ o a φ') (hH : (store E).serial o ch d = some (a, d')) : φ'.Barred k row intentHash := by
  cases hm <;> simp only [Act.perform.injEq,Outer.pool.injEq,Op.execute.injEq,Statement.reserveCommand.injEq,
    reduceCtorEq,false_and] at ht
  case lost hp => exact .failed
  case found hp hn => exact .contested ht.1.1 ht.1.2
  case inserted hp =>
    obtain ⟨now,hx⟩ := execute_of_serial hH
    rw [ht.1.1] at hx
    rcases reserve_ok hx with ⟨hn,-⟩ | ⟨-,hnone,-⟩
    · cases hn
    · exact absurd (hd.symm.trans hnone) (by simp)

lemma Phase.Barred.move (h : φ.Barred k row intentHash) (hd : d.commands.find k = some row) (hm : Move call φ o a φ')
    (hH : (store E).serial o ch d = some (a, d')) : φ'.Barred k row intentHash := by
  cases h with
  | @contested held hk hi =>
    cases hm with
    | lost hp => exact .failed
    | random hφ => cases hφ
    | recorded hh | unrecorded hh => cases hh
    | declined ha | failed ha => cases ha
    | read =>
      obtain ⟨now,hx⟩ := execute_of_serial hH
      rw [hk] at hx
      simp only [Statement.execute,hd,Except.ok.injEq,Prod.mk.injEq] at hx
      rw [← hx.1]
      exact .answered hk hi
  | answered hk hi =>
    cases hm with
    | lost hp => exact .failed
    | random hφ => cases hφ
    | recorded hh | unrecorded hh => cases hh
    | declined ha | failed ha => cases ha
  | failed =>
    cases hm with
    | lost hp => exact .failed
    | random hφ => cases hφ
    | recorded hh | unrecorded hh => cases hh
    | declined ha | failed ha => cases ha

lemma Phase.Barred.silent (h : φ.Barred k row intentHash) (hm : Move call φ o a φ') : ∀ r, o ≠ .pool (.issue r) := by
  rintro r rfl
  cases h <;> cases hm

lemma Move.opening_of_tries {n : Except SqlError ℕ}
    (ht : (.perform o a : Act Effect Effect.Ans Reply) = .perform (.pool (.execute (.reserveCommand k intentHash))) n)
    (hm : Move call φ o a φ') : ∃ actor, φ = .opening actor := by
  cases hm <;> simp only [Act.perform.injEq,Outer.pool.injEq,Op.execute.injEq,reduceCtorEq,false_and] at ht
  case lost hp =>
    rw [ht.1] at hp
    cases hp
    exact ⟨_,rfl⟩
  case found hp hn => exact ⟨_,rfl⟩
  case inserted hp => exact ⟨_,rfl⟩

end Moves

/-- A call that has claimed no command has not called the issuer. -/
lemma silent_of_unclaimed {call : Call E} {es : List (CallStep E)} {φ : Phase E}
    (hp : (protocol E).Path (store E).serial call es φ) (hφ : φ.unclaimed = true) : ∀ z ∈ es, ∀ k, ¬Issues k z := by
  induction hp with
  | start hc ha =>
    intro z hz k hissues
    obtain ⟨r,a,hissue⟩ := hissues.action
    rw [List.mem_singleton.mp hz,ha] at hissue
    cases hissue
  | @move es φ φ' o choice a x h hc ha hm hH ih =>
    have hbefore := (Move.unclaimed hm hφ).1
    intro z hz k hissues
    rcases List.mem_cons.mp hz with rfl | hz
    · obtain ⟨r,b,hissue⟩ := hissues.action
      rw [ha] at hissue
      cases hissue
      have hm' : Move call φ (.pool (.issue r)) b φ' := hm
      cases hm' <;> cases hφ
    · exact ih hbefore z hz k hissues

theorem Barring.step {i : ℕ} {tr : List (CallStep E)} (h : Barring k row post tr p) (hf : Frozen k row i tr d p)
    (ho : Ownership tr d p) (ht : Traced tr p) (hs : (protocol E).Step (store E).serial tr d p x p')
    (hpost : ∀ y ∈ post, y ∈ tr) : Barring k row (x :: post) (x :: tr) p' where
  phase y hy intentHash htries call φ hφ := by
    rcases List.mem_cons.mp hy with rfl | hy'
    · obtain ⟨n,ha⟩ := htries
      cases hs with
      | perform j call' ψ ψ' o choice a s' hp hm hH =>
        simp only [Function.update_self,Option.some.injEq,Prod.mk.injEq] at hφ
        rw [← hφ.2]
        exact Phase.Barred.tried hf.there ha hm hH
      | start => cases ha
      | reply => cases ha
      | stop => cases ha
    · by_cases hi : y.tid = x.tid
      · cases hs with
        | start j call' hp hj => exact absurd hi (hj y (hpost y hy'))
        | reply => rw [hi] at hφ; simp at hφ
        | stop => rw [hi] at hφ; simp at hφ
        | perform j call' ψ ψ' o choice a s' hp hm hH =>
          rw [hi] at hφ
          simp only [Function.update_self,Option.some.injEq,Prod.mk.injEq] at hφ
          rw [← hφ.2]
          exact (h.phase y hy' intentHash htries call' ψ (by rw [hi]; exact hp)).move hf.there hm hH
      · rw [hs.other hi] at hφ
        exact h.phase y hy' intentHash htries call φ hφ
  silent y hy intentHash htries z hz htid k' hissues := by
    rcases List.mem_cons.mp hy with rfl | hy'
    · obtain ⟨n,ha⟩ := htries
      cases hs with
      | perform j call' ψ ψ' o choice a s' hp hm hH =>
        obtain ⟨actor,rfl⟩ := Move.opening_of_tries ha hm
        rcases List.mem_cons.mp hz with rfl | hz
        · obtain ⟨r,b,hissue⟩ := hissues.action
          cases ha.symm.trans hissue
        · exact silent_of_unclaimed (ht j call' _ hp) rfl z (Protocol.mem_own.mpr ⟨hz,htid⟩) k' hissues
      | start => cases ha
      | reply => cases ha
      | stop => cases ha
    · rcases List.mem_cons.mp hz with rfl | hz
      · obtain ⟨r,b,hissue⟩ := hissues.action
        cases hs with
        | perform j call' ψ ψ' o choice a s' hp hm hH =>
          cases hissue
          exact (h.phase y hy' intentHash htries call' ψ (by rw [← htid]; exact hp)).silent hm r rfl
        | start => cases hissue
        | reply => cases hissue
        | stop => cases hissue
      · exact h.silent y hy' intentHash htries z hz htid k' hissues
  replies y hy intentHash htries z hz htid r hr := by
    rcases List.mem_cons.mp hy with rfl | hy'
    · obtain ⟨n,ha⟩ := htries
      rcases List.mem_cons.mp hz with rfl | hz
      · cases ha.symm.trans hr
      · have hends : z.action.ends = true := by rw [hr]; rfl
        exact absurd htid (ho.orderly.step_ne hs hz hends)
    · rcases List.mem_cons.mp hz with rfl | hz
      · cases hs with
        | reply j call' ψ r' hp hl =>
          cases hr
          exact ⟨ψ,h.phase y hy' intentHash htries call' ψ (by rw [← htid]; exact hp),hl⟩
        | start => cases hr
        | perform => cases hr
        | stop => cases hr
      · exact h.replies y hy' intentHash htries z hz htid r hr

lemma Inspects.kind {call : Call E} (h : Inspects k call) : call.kind = none := by
  rw [show call = _ from h]
  rfl

lemma Inspects.commandKey {call : Call E} (h : Inspects k call) : call.commandKey = none := by
  rw [show call = _ from h]
  rfl

/-- An inspection replies what it has read. -/
lemma Inspects.replies {call : Call E} (h : Inspects k call) {φ : Phase E} {status : Option ServiceAccountCommandStatus}
    (hpresents : ∀ held, φ.presented = some held → ∃ actor, call.Presents actor held)
    (hl : Last call (.inspectCommand (.ok status)) φ) : φ = .inspected status := by
  obtain ⟨held,command,K,-,hK,-⟩ | ⟨held,rfl⟩ | ⟨rows,-,hr⟩ | ⟨status',rfl,hr⟩ := Last.succeeds hl rfl
  · rw [h.kind] at hK
    cases hK
  · obtain ⟨actor,hp⟩ := hpresents held rfl
    exact absurd (h.commandKey.symm.trans hp.commandKey) (by simp)
  · rw [show call = _ from h] at hr
    exact absurd hr id
  · cases hr
    rfl

theorem Inspecting.step {tr : List (CallStep E)} (h : Inspecting k row post tr p) (hrow : d.commands.find k = some row)
    (ho : Ownership tr d p) (hs : (protocol E).Step (store E).serial tr d p x p') (hpost : ∀ y ∈ post, y ∈ tr) :
    Inspecting k row (x :: post) (x :: tr) p' where
  phase y hy hstart call status hφ hcall := by
    rcases List.mem_cons.mp hy with rfl | hy'
    · cases hs with
      | start i call' hp hi =>
        simp only [Function.update_self,Option.some.injEq,Prod.mk.injEq] at hφ
        cases hφ.2
      | perform => cases hstart
      | reply => cases hstart
      | stop => cases hstart
    · by_cases hi : y.tid = x.tid
      · cases hs with
        | start j call' hp hj => exact absurd hi (hj y (hpost y hy'))
        | reply => rw [hi] at hφ; simp at hφ
        | stop => rw [hi] at hφ; simp at hφ
        | perform j call' ψ ψ' o choice a s' hp hm hH =>
          rw [hi] at hφ
          simp only [Function.update_self,Option.some.injEq,Prod.mk.injEq] at hφ
          obtain ⟨rfl,rfl⟩ := hφ
          have hm' : Move call' ψ o a (.inspected status) := hm
          cases hm' with
          | random hφ => cases hφ
          | @inspected caller operation idempotencyKey _ hcall' =>
            obtain ⟨now,hx⟩ := execute_of_serial hH
            obtain ⟨rfl,rfl,rfl⟩ := Call.inspectCommand.inj (hcall'.symm.trans hcall)
            simp only [Statement.execute,Except.ok.injEq,Prod.mk.injEq] at hx
            rw [← hx.1,show d.commands.find ⟨k.callerInstance,k.operation,k.idempotencyKey⟩ = some row from hrow]
            rfl
      · rw [hs.other hi] at hφ
        exact h.phase y hy' hstart call status hφ hcall
  replies y hy hstart z hz htid hcall status hr := by
    rcases List.mem_cons.mp hz with rfl | hz'
    · cases hs with
      | reply j call' ψ r' hp hl =>
        cases hr
        rcases List.mem_cons.mp hy with rfl | hy'
        · cases hstart
        · have hψ := hcall.replies (fun held hh => ⟨_,(ho.acting j).presents call' ψ held hp hh⟩) hl
          subst hψ
          exact h.phase y hy' hstart call' status (by rw [← htid]; exact hp) hcall
      | start => cases hr
      | perform => cases hr
      | stop => cases hr
    · rcases List.mem_cons.mp hy with rfl | hy'
      · cases hs with
        | start j call' hp hi => exact absurd htid (hi z hz')
        | perform => cases hstart
        | reply => cases hstart
        | stop => cases hstart
      · exact h.replies y hy' hstart z hz' htid hcall status hr

end Stuck

section Entry

/-- What an exchange checks before anything else, and what the calls reply that are of interest here. -/
inductive Replies (call : Call E) : Reply → Prop
  | exchange {plugin context request x} (hcall : call = .exchangeSecret plugin context request) :
      Replies call (.exchangeSecret x)
  | inspection {caller operation idempotencyKey x} (hcall : call = .inspectCommand caller operation idempotencyKey)
      (hx : x = .error .invalidCommandReference →
        (validCaller caller && validAuthority operation 64 && validAuthority idempotencyKey 128) = false) :
      Replies call (.inspectCommand x)
  | other {r} (hexchange : ∀ plugin context request, call ≠ .exchangeSecret plugin context request)
      (hinspect : ∀ caller operation idempotencyKey, call ≠ .inspectCommand caller operation idempotencyKey) :
      Replies call r

/-- An exchange does nothing before it has checked the idempotency key. -/
def entryProtocol (E : Environment) : Protocol (Call E) Effect Effect.Ans Reply Unit where
  first _ := ()
  move call _ _ _ _ := ∀ plugin context request, call = .exchangeSecret plugin context request →
    validIdempotencyKey request.idempotencyKey = true
  last call r _ := Replies call r

section Conformance
variable {ok : (o : Effect) → Effect.Ans o → Prop} {α : Type}

/-- A program that may do what it likes. -/
lemma conforms_entry {call : Call E} {reply : α → Reply} (hmove : ∀ o a, (entryProtocol E).move call () o a ())
    (hlast : ∀ x, Replies call (reply x)) (p : Program Effect Effect.Ans α) :
    p.Conforms ok ((entryProtocol E).move call) () fun x _ => Replies call (reply x) := by
  induction p with
  | pure x => exact hlast x
  | perform o next ih => exact fun a _ => ⟨(),hmove o a,ih a⟩

/-- The instance is asked whether it is active, and goes on if it is. -/
lemma conforms_active {Φ : Type} {move : Φ → (o : Effect) → Effect.Ans o → Φ → Prop} {φ : Φ}
    {Q : Except RuntimeFailure α → Φ → Prop} {plugin : ServiceAccountPlugin E}
    {next : ActiveServiceAccount E → Code RuntimeFailure α} (hfail : ∀ f, Q (.error f) φ)
    (h : ∀ active, Program.Conforms ok move (next active).run φ Q) :
    Program.Conforms ok move (plugin.get >>= next).run φ Q := by
  refine (Program.conforms_bind_except _ _ _ _).mpr ?_
  unfold ServiceAccountPlugin.get
  cases plugin.active with
  | none => exact hfail _
  | some active => exact h active

end Conformance

theorem entered (E : Environment) : (entryProtocol E).Obeyed (store E).serial Call.main := by
  intro call
  cases call with
  | exchangeSecret plugin context request =>
    refine (Program.conforms_bind _ _ _ _).mpr ?_
    by_cases hv : validIdempotencyKey request.idempotencyKey = true
    · refine conforms_entry (fun o a p c r hr => ?_) (fun x => .exchange rfl) _
      cases hr
      exact hv
    · refine conforms_active (fun f => .exchange rfl) fun active => ?_
      cases context.callerIn active.config.authenticationCallers with
      | none => exact .exchange rfl
      | some caller =>
        simp only [hv,Bool.not_false,Bool.true_or,if_true]
        exact .exchange rfl
  | inspectCommand caller operation idempotencyKey =>
    refine (Program.conforms_bind _ _ _ _).mpr ?_
    unfold inspectCommand
    split_ifs with hv
    · exact .inspection rfl fun _ => by grind
    · refine (Program.conforms_bind_except _ _ _ _).mpr fun answer _ => ⟨(),fun p c r hr => (by cases hr),?_⟩
      cases answer with
      | ok status => exact .inspection rfl fun he => by cases he
      | error e => exact .inspection rfl fun he => by cases he
  | _ =>
    refine (Program.conforms_bind _ _ _ _).mpr (conforms_entry (fun o a p c r hr => by cases hr) (fun x => ?_) _)
    exact .other (by simp) (by simp)

end Entry

section Runs
variable {c : Run (Call E) Reply} {k : CommandKey} {row : Command} {post mid pre : List (CallStep E)} {e f x y z : CallStep E}

lemma issued_since {d : Config (Call E) Effect Effect.Ans Reply Database}
    (hd : Config.Reachable Call.main (store E).serial Database.empty d) (he : d.trace = post ++ e :: pre)
    (hx : Issues k e) (hins : ∀ x ∈ post, inserts k x = false) : ∃ p, Issued k e post d.state p := by
  obtain ⟨q,q',ho,hs⟩ := (ownership_invariant E).event (obeyed E) hd he
  obtain ⟨hclaim,row,hrow,-⟩ := hx.claimed ho hs
  have hno : inserts k e = false := by rw [inserts,hrow]; rfl
  obtain ⟨p,-,-,h⟩ := (ownership_invariant E).since (obeyed E)
    (J := fun post d p => (∀ x ∈ post, inserts k x = false) → Issued k e post d p)
    (fun ho hs _ => Issued.start hx ho hs) (fun {post s p x p'} ho h hs hins' => by
      have hpost : ∀ y ∈ post, inserts k y = false := fun y hy => hins' y (List.mem_cons_of_mem x hy)
      refine (h hpost).step ho ?_ (hins' x (by simp)) hs
      rw [claimant_append hpost,claimant_cons,hno]
      exact hclaim) hd he
  exact ⟨p,h hins⟩

/-- Between two calls of the issuer for a command its row is inserted anew. -/
lemma inserts_of_issues (hc : LockedConfig.Reachable (store E) Call.main Database.empty c)
    (htr : c.trace = post ++ y :: (mid ++ e :: pre)) (he : Issues k e) (hy : Issues k y) :
    ∃ x ∈ mid, inserts k x = true := by
  by_contra hno
  have hmid : ∀ x ∈ mid, inserts k x = false := by
    intro x hx
    rw [← Bool.not_eq_true]
    exact fun hi => hno ⟨x,hx,hi⟩
  obtain ⟨q,q',ho,hs⟩ := (ownership_invariant E).event (obeyed E) (serializable hc) htr
  obtain ⟨-,row,hrow,-⟩ := hy.claimed ho hs
  have hins : inserts k y = false := by rw [inserts,hrow]; rfl
  have hpre : (LockedConfig.serial c).trace = post ++ ((y :: mid) ++ e :: pre) := htr
  obtain ⟨d,hd,hdtr⟩ := (serializable hc).earlier hpre
  obtain ⟨p,h⟩ := issued_since hd hdtr he (List.forall_mem_cons.mpr ⟨hins,hmid⟩)
  exact h.quiet y (by simp) hy

/-- What holds after a command is stuck. -/
structure Halted (k : CommandKey) (row : Command) (i : ℕ) (post tr : List (CallStep E)) (d : Database)
    (p : CallPhases E) : Prop where
  frozen : Frozen k row i tr d p
  barring : Barring k row post tr p
  inspecting : Inspecting k row post tr p

lemma halted_since {d : Config (Call E) Effect Effect.Ans Reply Database}
    (hd : Config.Reachable Call.main (store E).serial Database.empty d) (he : d.trace = post ++ f :: pre)
    (hf : Stuck k row f pre) : ∃ i p, Halted k row i post d.trace d.state p := by
  obtain ⟨i,hi⟩ : ∃ i, claimant k (f :: pre) = some i := by
    obtain ⟨y,-,hclaim,-⟩ := hf.ended
    exact ⟨y.tid,hclaim⟩
  have hin : i ∈ (f :: pre).map Event.tid := by
    obtain ⟨y,hy,rfl⟩ := Option.map_eq_some_iff.mp hi
    exact List.mem_map_of_mem (List.mem_of_find?_eq_some hy)
  have hstart : ∀ {p p' : CallPhases E}, Ownership pre f.before p ∧ Traced pre p →
      (protocol E).Step (store E).serial pre f.before p f p' → Halted k row i [] (f :: pre) f.after p' := by
    intro p p' ho hs
    obtain ⟨j,hj⟩ := hf.frozen ((ownership_invariant E).step ho.1 hs)
    obtain rfl := Option.some.inj (hi.symm.trans hj.claimed)
    exact ⟨hj,⟨by simp,by simp,by simp⟩,⟨by simp,by simp⟩⟩
  have hstep : ∀ {post : List (CallStep E)} {s : Database} {p : CallPhases E} {x : CallStep E} {p' : CallPhases E},
      Ownership (post ++ f :: pre) s p ∧ Traced (post ++ f :: pre) p → Halted k row i post (post ++ f :: pre) s p →
      (protocol E).Step (store E).serial (post ++ f :: pre) s p x p' →
      Halted k row i (x :: post) (x :: post ++ f :: pre) x.after p' := by
    intro post s p x p' ho h hs
    have hpost : ∀ y ∈ post, y ∈ post ++ f :: pre := fun y hy => List.mem_append_left _ hy
    refine ⟨h.frozen.step hf.issuing ho.1 hs ?_,h.barring.step h.frozen ho.1 ho.2 hs hpost,
      h.inspecting.step h.frozen.there ho.1 hs hpost⟩
    rw [List.map_append]
    exact List.mem_append_right _ hin
  obtain ⟨p,-,-,h⟩ := (traced_invariant E).since (obeyed E)
    (J := fun post d p => Halted k row i post (post ++ f :: pre) d p) hstart hstep hd he
  rw [← he] at h
  exact ⟨i,p,h⟩

/-- What an exchange or an inspection does has passed its checks. -/
lemma entry_event {d : Config (Call E) Effect Effect.Ans Reply Database}
    (hd : Config.Reachable Call.main (store E).serial Database.empty d) (he : e ∈ d.trace) :
    (∀ o a, e.action = .perform o a → ∀ plugin context request, e.call = .exchangeSecret plugin context request →
      validIdempotencyKey request.idempotencyKey = true) ∧ ∀ r, e.action = .reply r → Replies e.call r := by
  obtain ⟨post,pre,htr⟩ := List.append_of_mem he
  have htrivial : (entryProtocol E).Invariant (store E).serial Database.empty fun _ _ _ => True :=
    ⟨trivial,fun _ _ => trivial⟩
  obtain ⟨p,p',-,hs⟩ := htrivial.event (entered E) hd htr
  generalize e.before = s at hs
  cases hs with
  | start i call hp hi => exact ⟨fun o a h => (by cases h),fun r h => (by cases h)⟩
  | stop i call φ hp => exact ⟨fun o a h => (by cases h),fun r h => (by cases h)⟩
  | perform i call φ φ' o choice a s' hp hm hH => exact ⟨fun _ _ _ => hm,fun r h => (by cases h)⟩
  | reply i call φ r hp hl =>
    refine ⟨fun o a h => (by cases h),fun r' h => ?_⟩
    cases h
    exact hl

/-- The command of an exchange is one that an operator may inspect. -/
lemma inspectable {d : Config (Call E) Effect Effect.Ans Reply Database}
    (hd : Config.Reachable Call.main (store E).serial Database.empty d) (hrow : d.state.commands.find k = some row)
    (hoperation : k.operation = exchangeSecretOperation) :
    (validCaller k.callerInstance && validAuthority k.operation 64 && validAuthority k.idempotencyKey 128) = true := by
  obtain ⟨p,-,ho⟩ := (ownership_invariant E).reachable (obeyed E) hd
  obtain ⟨x,h,hx,hp,hk,-⟩ := ho.accounted.row k row hrow
  have hcommand : x.call.commandKey = some k := by rw [hp.commandKey,hk]
  obtain ⟨plugin,context,request,hcall⟩ := Call.exchange_of_key hcommand hoperation
  have hperform : ∃ o a, x.action = .perform o a := by
    cases ha : x.action with
    | perform o a => exact ⟨o,a,rfl⟩
    | _ =>
      obtain ⟨q,q',-,hs⟩ := (ownership_invariant E).event (obeyed E) hd (List.append_of_mem
        (List.mem_of_find?_eq_some hx)).choose_spec.choose_spec
      have hsame : x.after = x.before := by
        have hl := hs.legal
        simp only [Event.Legal,ha] at hl
        exact hl
      exact absurd (((idle_of_same hsame).inserts k).symm.trans (List.find?_some hx)) (by simp)
  obtain ⟨o,a,ha⟩ := hperform
  have hkey := (entry_event hd (List.mem_of_find?_eq_some hx)).1 o a ha plugin context request hcall
  have hcaller := Call.allowed_of_key hcommand hoperation hp.active
  have hcallers := (ServiceAccountConfig.validate_ok h.active.valid).2.1
  rw [validCaller_of_mem hcallers hcaller,hoperation]
  rw [hcall] at hcommand
  simp only [Call.commandKey,Option.bind_eq_bind,Option.bind_eq_some_iff,pure,Option.some.injEq] at hcommand
  obtain ⟨active,-,caller,-,rfl⟩ := hcommand
  have hoperation' : validAuthority exchangeSecretOperation 64 = true := by decide +kernel
  rw [hoperation',Bool.true_and,Bool.true_and]
  exact hkey

/-- What becomes of a later call that tries to claim a command that is issuing. -/
structure Refused (c : Run (Call E) Reply) (i : ℕ) : Prop where
  silent : ∀ z ∈ c.trace, z.tid = i → ∀ k, ¬Issues k z
  replies : ∀ z ∈ c.trace, z.tid = i → ∀ r, z.action = .reply r →
    r = .exchangeSecret (.ok (.error .operationInProgress)) ∨
      ∃ operation e, r = .exchangeSecret (.error (.pluginFailure (.database operation e)))

/-- A call that finds its command issuing is told so, and does not call the issuer. -/
lemma found_issuing (hc : LockedConfig.Reachable (store E) Call.main Database.empty c) (hy : y ∈ c.trace)
    (hf : Finds y k row) (hrow : row.status = .issuing) {plugin : ServiceAccountPlugin E} {context : InvocationContext}
    {request : ExchangeServiceAccountSecretRequest} (hcall : y.call = .exchangeSecret plugin context request)
    (hintent : row.intentHash = requestIntentHash E request.toJson) (hz : z ∈ c.trace) (htid : z.tid = y.tid) :
    (∀ k', ¬Issues k' z) ∧ ∀ r, z.action = .reply r → r = .exchangeSecret (.ok (.error .operationInProgress)) := by
  obtain ⟨post,pre,htr⟩ := List.append_of_mem hy
  obtain ⟨φ,p,p',hφ,-,-,hends,-⟩ := settled_event hc htr (.inl ⟨k,row,hf⟩)
  obtain ⟨q,-,-,hfinished⟩ := (settled_invariant E).reachable (obeyed E) (serializable hc)
  obtain ⟨ψ,-,-,hrest⟩ := hfinished post y pre htr (.inl ⟨k,row,hf⟩)
  constructor
  · intro k' hissues
    obtain ⟨r,a,hissue⟩ := hissues.action
    have hz' : z ∈ post ++ y :: pre := htr ▸ hz
    rcases List.mem_append.mp hz' with hz' | hz'
    · obtain ⟨-,-,hstop | ⟨r',hr,-⟩⟩ := hrest z hz' htid
      · cases hissue.symm.trans hstop
      · cases hissue.symm.trans hr
    rcases List.mem_cons.mp hz' with rfl | hpre
    · cases hissue.symm.trans hf
    · obtain ⟨q,q',⟨-,ht⟩,hs⟩ := (traced_invariant E).event (obeyed E) (serializable hc) htr
      have ha : y.action = .perform (.pool (.execute (.loadCommand k))) (.ok row) := hf
      generalize y.before = d at hs
      cases hs with
      | perform i call ψ ψ' o choice b s' hp hm hH =>
        cases ha
        have hm' : Move call ψ (.pool (.execute (.loadCommand k))) (.ok row) ψ' := hm
        cases hm' with
        | read => exact silent_of_unclaimed (ht i call _ hp) rfl z (Protocol.mem_own.mpr ⟨hpre,htid⟩) k' hissues
      | start => cases ha
      | reply => cases ha
      | stop => cases ha
  · intro r hr
    have hl := hends z hz htid r hr
    cases hφ with
    | recorded he => exact absurd (hf.symm.trans he) (by simp)
    | @found k' row' h he hk hp hw =>
      obtain ⟨rfl,rfl⟩ : k = k' ∧ row = row' := by simpa using hf.symm.trans he
      obtain ⟨K,hK,rfl⟩ := hl
      have hrequest := hp.intent
      rw [hcall] at hK hrequest
      obtain rfl : exchangeKind = K := Option.some.inj hK
      have hdigest : row.intentHash = h.intentHash := by
        rw [hintent,Held.intentHash,← Option.some.inj hrequest]
        rfl
      have hanswer : exchangeKind.answer h row = .ok (.error .operationInProgress) := by
        simp only [Kind.answer,hdigest,hrow,ne_eq,not_true_eq_false,if_false]
        rfl
      rw [hanswer]
      rfl

/-- What an operator is told of it. -/
inductive Reconciles : Reply → Prop
  | status {status : ServiceAccountCommandStatus} (hs : status.requiresIssuerReconciliation = true) :
      Reconciles (.inspectCommand (.ok (some status)))
  | failed {source : SqlError} : Reconciles (.inspectCommand (.error (.database source)))

/-- What holds of the issuance for the command of an exchange: the issuer is called by the claimant of a row that is
committed as issuing, at most once while the row is there; then the row is a success, an error because the account
is disabled, or issuing. Whoever finds it issuing is told so. Once the claimant is over, a row that is issuing stays,
whoever tries to claim it is refused, and whoever inspects it learns that it has to be reconciled. -/
structure SafeIssuance (c : Run (Call E) Reply) (k : CommandKey) : Prop where
  committed : ∀ post e pre, c.trace = post ++ e :: pre → Issues k e → claimant k pre = some e.tid ∧
    ∃ row, e.before.commands.find k = some row ∧ row.status = .issuing
  once : ∀ post y mid e pre, c.trace = post ++ y :: (mid ++ e :: pre) → Issues k e → Issues k y →
    ∃ x ∈ mid, inserts k x = true
  outcome : ∀ post e pre, c.trace = post ++ e :: pre → Issues k e → (∀ x ∈ post, inserts k x = false) →
    ∀ row, c.state.commands.find k = some row → IssueOutcome e row
  found : ∀ y ∈ c.trace, ∀ row plugin context request, Finds y k row → row.status = .issuing →
    y.call = .exchangeSecret plugin context request → row.intentHash = requestIntentHash E request.toJson →
    ∀ z ∈ c.trace, z.tid = y.tid → (∀ k', ¬Issues k' z) ∧
      ∀ r, z.action = .reply r → r = .exchangeSecret (.ok (.error .operationInProgress))
  stays : ∀ post f pre row, c.trace = post ++ f :: pre → Stuck k row f pre → c.state.commands.find k = some row
  refused : ∀ post f pre row, c.trace = post ++ f :: pre → Stuck k row f pre → ∀ x ∈ post,
    Tries k row.intentHash x → Refused c x.tid
  inspected : ∀ post f pre row, c.trace = post ++ f :: pre → Stuck k row f pre → ∀ x ∈ post, x.action = .start →
    Inspects k x.call → ∀ z ∈ c.trace, z.tid = x.tid → ∀ r, z.action = .reply r → Reconciles r

/-- A call that tries to claim a command presents it. -/
lemma Tries.command {intentHash : Bytes} (ht : Tries k intentHash x) {tr : List (CallStep E)} {d : Database}
    {p p' : CallPhases E} (hs : (protocol E).Step (store E).serial tr d p x p') : x.call.commandKey = some k := by
  obtain ⟨n,ha⟩ := ht
  cases hs with
  | perform i call φ φ' o choice a s' hp hm hH =>
    cases ha
    have hm' : Move call φ (.pool (.execute (.reserveCommand k intentHash))) n φ' := hm
    cases hm' with
    | lost hpermits =>
      cases hpermits with
      | reserve hpr => exact hpr.commandKey
    | inserted hpr => exact hpr.commandKey
    | found hpr hn => exact hpr.commandKey
  | start => cases ha
  | reply => cases ha
  | stop => cases ha

/-- Every claim of a command in vain is answered. -/
lemma refused_of_barring (hc : LockedConfig.Reachable (store E) Call.main Database.empty c)
    (hk : k.operation = exchangeSecretOperation) (hrow : row.status = .issuing) {p : CallPhases E}
    (h : Barring k row post c.trace p) (hx : x ∈ post) (hmem : x ∈ c.trace) (ht : Tries k row.intentHash x) :
    Refused c x.tid where
  silent := h.silent x hx row.intentHash ht
  replies z hz htid r hr := by
    obtain ⟨pre,q,q',-,hs⟩ := orderly_event hc hmem
    obtain ⟨plugin,context,request,hcall⟩ := Call.exchange_of_key (ht.command hs) hk
    obtain ⟨q,-,horderly⟩ := (Protocol.orderly_invariant (protocol E) (store E).serial Database.empty).reachable
      (obeyed E) (serializable hc)
    have hz' : z.call = .exchangeSecret plugin context request := (horderly.same z hz x hmem htid).trans hcall
    obtain ⟨φ,hφ,hl⟩ := h.replies x hx row.intentHash ht z hz htid r hr
    rw [hz'] at hl
    cases hφ with
    | contested hkey hi => exact absurd hl id
    | @answered held hkey hi =>
      obtain ⟨K,hK,rfl⟩ := hl
      obtain rfl : exchangeKind = K := Option.some.inj hK
      have hanswer : exchangeKind.answer held row = .ok (.error .operationInProgress) := by
        simp only [Kind.answer,hi,hrow,ne_eq,not_true_eq_false,if_false]
        rfl
      rw [hanswer]
      exact .inl rfl
    | failed =>
      have hreplies := (entry_event (serializable hc) hz).2 r hr
      rw [hz'] at hreplies
      cases hreplies with
      | @exchange _ _ _ x hcall =>
        cases x with
        | error f =>
          obtain rfl := Option.some.inj hl
          exact .inr ⟨_,_,rfl⟩
        | ok x => cases hl
      | inspection hcall hx => cases hcall
      | other hexchange => exact absurd rfl (hexchange plugin context request)

/-- The issuance of every exchange is safe in every run. -/
theorem issuance_safe (hc : LockedConfig.Reachable (store E) Call.main Database.empty c) (caller idempotencyKey : String) :
    SafeIssuance c ⟨caller,exchangeSecretOperation,idempotencyKey⟩ where
  committed post e pre he hx := by
    obtain ⟨p,p',ho,hs⟩ := (ownership_invariant E).event (obeyed E) (serializable hc) he
    exact hx.claimed ho hs
  once post y mid e pre he hx hy := inserts_of_issues hc he hx hy
  outcome post e pre he hx hins row hrow := by
    obtain ⟨p,h⟩ := issued_since (serializable hc) he hx hins
    exact h.row row hrow
  found y hy row plugin context request hf hrow hcall hintent z hz htid :=
    found_issuing hc hy hf hrow hcall hintent hz htid
  stays post f pre row he hf := by
    obtain ⟨i,p,h⟩ := halted_since (serializable hc) he hf
    exact h.frozen.there
  refused post f pre row he hf x hx ht := by
    obtain ⟨i,p,h⟩ := halted_since (serializable hc) he hf
    have hmem : x ∈ c.trace := by simp [he,hx]
    exact refused_of_barring hc rfl hf.issuing h.barring hx hmem ht
  inspected post f pre row he hf x hx hstart hcall z hz htid r hr := by
    obtain ⟨i,p,h⟩ := halted_since (serializable hc) he hf
    have hmem : x ∈ c.trace := by simp [he,hx]
    obtain ⟨q,-,horderly⟩ := (Protocol.orderly_invariant (protocol E) (store E).serial Database.empty).reachable
      (obeyed E) (serializable hc)
    have hcall' : Inspects _ z.call := (horderly.same z hz x hmem htid).trans hcall
    have hkey := inspectable (serializable hc) h.frozen.there rfl
    have hreplies := (entry_event (serializable hc) hz).2 r hr
    rw [show z.call = _ from hcall'] at hreplies
    cases hreplies with
    | exchange hcall => cases hcall
    | other hexchange hinspect => exact absurd rfl (hinspect _ _ _)
    | @inspection _ _ _ x' hcall hinvalid =>
      cases hcall
      cases x' with
      | ok status =>
        rw [h.inspecting.replies x hx hstart z hz htid hcall' status hr]
        exact .status (by rw [ServiceAccountCommandStatus.requiresIssuerReconciliation,Command.seen,hf.issuing]; rfl)
      | error e =>
        cases e with
        | database source => exact .failed
        | invalidCommandReference => exact absurd (hkey.symm.trans (hinvalid rfl)) (by simp)

end Runs

/-- Call `1` exchanges the secret of the account that call `0` has created, and the answer of the issuer is lost.
Call `2` tries again, and call `3` inspects the command. -/
noncomputable def sampleLost : List (LockedLabel (Call .plain) Choice Choice) :=
  sampleCreate ++ [.start (.exchangeSecret samplePlugin ⟨some "gateway"⟩ ⟨"k2",sampleSecret.wire⟩),.pool 1 {},
    .pool 1 {},.pool 1 { clock := seconds 100 },.enter 1,.within 1 {},.within 1 {},.within 1 {},.within 1 {},
    .within 1 {},.pool 1 {},.pool 1 {},.pool 1 { status := .ok ⟨"subject",.active⟩ },
    .pool 1 { clock := seconds 100 },.enter 1,.within 1 {},.within 1 {},.within 1 {},.within 1 {},.within 1 {},
    .within 1 {},.pool 1 { clock := seconds 100 },.pool 1 { session := .error (.runtime "connection lost") },.reply 1,
    .start (.exchangeSecret samplePlugin ⟨some "gateway"⟩ ⟨"k2",sampleSecret.wire⟩),.pool 2 {},.pool 2 {},.pool 2 {},
    .reply 2,.start (.inspectCommand "gateway" exchangeSecretOperation "k2"),.pool 3 {},.reply 3]

set_option maxRecDepth 4000 in
noncomputable def sampleLostRun : Run (Call .plain) Reply :=
  ((LockedConfig.init Database.empty).run (store .plain) Call.main sampleLost).get (by decide +kernel)

/-- The step calls the issuer. -/
def callsIssuer (e : CallStep E) : Bool :=
  match e.action with
  | .perform (.pool (.issue _)) _ => true
  | _ => false

set_option maxRecDepth 4000 in
theorem issuance_safe_sample : (∃ e ∈ sampleLostRun.trace, Issues ⟨"gateway",exchangeSecretOperation,"k2"⟩ e) ∧
    (∃ row, sampleLostRun.state.commands.find ⟨"gateway",exchangeSecretOperation,"k2"⟩ = some row ∧ row.status = .issuing) ∧
    SafeIssuance sampleLostRun ⟨"gateway",exchangeSecretOperation,"k2"⟩ := by
  have hrun : (sampleLostRun.trace.any fun e => callsIssuer e &&
        e.call.commandKey == some ⟨"gateway",exchangeSecretOperation,"k2"⟩) = true ∧
      (sampleLostRun.state.commands.find ⟨"gateway",exchangeSecretOperation,"k2"⟩).any (fun row =>
        row.status == .issuing) = true := by decide +kernel
  refine ⟨?_,?_,issuance_safe (LockedConfig.leads_of_run (Option.some_get _).symm) "gateway" "k2"⟩
  · obtain ⟨e,he,h⟩ := List.any_eq_true.mp hrun.1
    rw [Bool.and_eq_true,beq_iff_eq] at h
    refine ⟨e,he,?_,h.2⟩
    have hissue := h.1
    unfold callsIssuer at hissue
    split at hissue
    · next r a ha => exact ⟨r,a,ha⟩
    · cases hissue
  · obtain ⟨row,hrow,hstatus⟩ := (Option.any_eq_true _ _).mp hrun.2
    exact ⟨row,hrow,eq_of_beq hstatus⟩

end LensoServiceAccount
