import LensoServiceAccount.Library.Job
import LensoServiceAccount.Claiming
import LensoServiceAccount.Issuance

/-! The life of a command: seen at one key, a run of the plugin is a run of a job. Its claimant takes it and ends
it, the end stays until its time to live is over, and a command that its claimant leaves behind stays for ever. -/

namespace LensoServiceAccount
variable {E : Environment}

/-- How the work on a command begins, goes on and ends. -/
def commandRules (k : CommandKey) : Job.Rules Command Command where
  first row := ∃ now intentHash, row = reservedCommand now k intentHash
  next row row' := row.status = .reserved ∧ k.operation = exchangeSecretOperation ∧ ∃ now, row' = row.issue now
  last row row' := (∃ now code, row' = row.fail now code) ∨ ∃ now nonce ciphertext, row' = row.succeed now nonce ciphertext

/-- The row of a command as a job: who has claimed it, and what has become of it. -/
def jobOf (k : CommandKey) (tr : List (CallStep E)) (d : Database) : Job ℕ Command Command :=
  match d.commands.find k, claimant k tr with
  | some row, some i => if row.status.completable then .taken i row else .done i row
  | _, _ => .vacant

/-- What the steps `post` that follow the history `tr` make of the job. -/
def jobs (k : CommandKey) (tr : List (CallStep E)) : List (CallStep E) → List (ℕ × Job ℕ Command Command)
  | [] => []
  | e :: post => (e.tid,jobOf k (e :: post ++ tr) e.after) :: jobs k tr post

/-- The database that a history has led to. -/
def stateAfter : List (CallStep E) → Database
  | [] => Database.empty
  | e :: _ => e.after

section Steps
variable {k : CommandKey} {tr post pre : List (CallStep E)} {d d' : Database} {p p' : CallPhases E} {e : CallStep E}
  {row : Command} {i : ℕ}

@[simp] lemma latest_jobs (h : Job ℕ Command Command) (e : CallStep E) :
    Job.latest h (jobs k tr (e :: post)) = jobOf k (e :: post ++ tr) e.after := rfl

lemma mem_jobs {x : ℕ × Job ℕ Command Command} (h : x ∈ jobs k tr post) :
    ∃ later y earlier, post = later ++ y :: earlier ∧ x = (y.tid,jobOf k (y :: earlier ++ tr) y.after) := by
  induction post with
  | nil => cases h
  | cons e post ih =>
    rcases List.mem_cons.mp h with rfl | h
    · exact ⟨[],e,post,rfl,rfl⟩
    · obtain ⟨later,y,earlier,rfl,hx⟩ := ih h
      exact ⟨e :: later,y,earlier,rfl,hx⟩

lemma jobOf_none (h : d.commands.find k = none) : jobOf k tr d = .vacant := by
  simp only [jobOf,h]

lemma jobOf_taken (h : d.commands.find k = some row) (hi : claimant k tr = some i)
    (hr : row.status.completable = true) : jobOf k tr d = .taken i row := by
  simp only [jobOf,h,hi,hr,if_true]

lemma jobOf_done (h : d.commands.find k = some row) (hi : claimant k tr = some i)
    (hr : row.status.completable = false) : jobOf k tr d = .done i row := by
  simp only [jobOf,h,hi,hr,Bool.false_eq_true,if_false]

/-- The row of a job that is not vacant. -/
lemma row_of_jobOf (h : (jobOf k tr d).value id id = some row) : d.commands.find k = some row := by
  unfold jobOf at h
  split at h
  · next row' i hrow hi =>
    rw [hrow]
    split_ifs at h <;> exact h
  · cases h

lemma claimant_of_jobOf (h : (jobOf k tr d).owner = some i) : claimant k tr = some i := by
  unfold jobOf at h
  split at h
  · next row' j hrow hj =>
    rw [hj]
    split_ifs at h <;> exact h
  · cases h

/-- The job of a row that is there. -/
lemma jobOf_some (h : d.commands.find k = some row) (hi : claimant k tr = some i) :
    (jobOf k tr d).owner = some i ∧ (jobOf k tr d).value id id = some row := by
  cases hr : row.status.completable with
  | true => rw [jobOf_taken h hi hr]; exact ⟨rfl,rfl⟩
  | false => rw [jobOf_done h hi hr]; exact ⟨rfl,rfl⟩

/-- Every row has a claimant. -/
lemma Ownership.claimed (h : Ownership tr d p) (hrow : d.commands.find k = some row) :
    ∃ i, claimant k tr = some i := by
  obtain ⟨x,-,hx,-⟩ := h.accounted.row k row hrow
  exact ⟨x.tid,by rw [claimant,hx,Option.map_some]⟩

lemma Ownership.vacant_iff (h : Ownership tr d p) : jobOf k tr d = .vacant ↔ d.commands.find k = none := by
  refine ⟨fun hvacant => ?_,jobOf_none⟩
  cases hrow : d.commands.find k with
  | none => rfl
  | some row =>
    obtain ⟨i,hi⟩ := h.claimed hrow
    cases hr : row.status.completable with
    | true => cases hvacant.symm.trans (jobOf_taken hrow hi hr)
    | false => cases hvacant.symm.trans (jobOf_done hrow hi hr)

lemma claimant_of_kept (h : inserts k e = false) : claimant k (e :: tr) = claimant k tr := by
  rw [claimant_cons,h]
  rfl

/-- A step of a run is a step of the job, made by the same call. -/
theorem job_step (h : Ownership tr d p) (hs : (protocol E).Step (store E).serial tr d p e p') :
    (commandRules k).Step e.tid (jobOf k tr d) (jobOf k (e :: tr) e.after) := by
  have hsame : e.after = d → inserts k e = false →
      (commandRules k).Step e.tid (jobOf k tr d) (jobOf k (e :: tr) e.after) := by
    intro hd hi
    have heq : jobOf k (e :: tr) e.after = jobOf k tr d := by simp only [jobOf,hd,claimant_of_kept hi]
    rw [heq]
    exact .idle
  cases hs with
  | start i call hp hi => exact hsame rfl ((idle_of_same rfl).inserts k)
  | reply i call φ r hp hl => exact hsame rfl ((idle_of_same rfl).inserts k)
  | stop i call φ hp => exact hsame rfl ((idle_of_same rfl).inserts k)
  | perform i call φ φ' o choice a s' hp hm hH =>
    have hrow := h.acting.rowStep hp hm hH k
    have hins : inserts k (⟨i,call,.perform o a,d,s'⟩ : CallStep E) =
        ((d.commands.find k).isNone && (s'.commands.find k).isSome) := rfl
    -- the command that the moving call holds is the one it has claimed
    have hown : ∀ {held s}, φ.holds = some (held,s) → held.key = k → claimant k tr = some i := by
      intro held s hh hk
      obtain ⟨c,-,-,-,hclaim⟩ := h.owned i call φ held s hp hh
      rw [← hk]
      exact hclaim
    have hjob : ∀ {row}, d.commands.find k = some row → claimant k (⟨i,call,.perform o a,d,s'⟩ :: tr) = claimant k tr := by
      intro row hd
      apply claimant_of_kept
      rw [hins,hd]
      rfl
    generalize hb : d.commands.find k = row at hrow
    generalize ha : s'.commands.find k = row' at hrow
    cases hrow with
    | same =>
      have hno : inserts k (⟨i,call,.perform o a,d,s'⟩ : CallStep E) = false := by
        rw [hins,hb,ha]
        cases row <;> rfl
      have heq : jobOf k (⟨i,call,.perform o a,d,s'⟩ :: tr) s' = jobOf k tr d := by
        simp only [jobOf,hb,ha,claimant_of_kept hno]
      change (commandRules k).Step i _ (jobOf k _ s')
      rw [heq]
      exact .idle
    | @inserted actor held now _ hpr hk hφ =>
      have hclaim : claimant k (⟨i,call,.perform o a,d,s'⟩ :: tr) = some i := by
        rw [claimant_cons,hins,hb,ha]
        rfl
      rw [jobOf_none hb,jobOf_taken ha hclaim rfl]
      exact .take ⟨now,held.intentHash,rfl⟩
    | @deleted actor c _ hc hφ =>
      obtain ⟨j,hj⟩ := h.claimed hb
      have hcomp : c.status.completable = false := by
        rw [← Bool.not_eq_true]
        intro hcomp
        rw [(Command.check_shape (Table.check_of_find hb) hcomp).2.2.2] at hc
        cases hc
      rw [jobOf_done hb hj hcomp,jobOf_none ha]
      exact .release
    | @failed _ held s code c now _ K error hh hr hk hcomp hK he hφ =>
      have hclaim := hown hh hk
      rw [jobOf_taken hb hclaim hcomp,jobOf_done ha ((hjob hb).trans hclaim) rfl]
      exact .finish (.inl ⟨now,code,rfl⟩)
    | @marked plugin context request held row now c _ hcall hk hc hφ =>
      have hclaim := hown rfl hk
      have hoperation : k.operation = exchangeSecretOperation := by
        have hkey := ((h.acting i).presents call _ held hp rfl).commandKey
        rw [hcall,hk] at hkey
        simp only [Call.commandKey,Option.bind_eq_bind,Option.bind_eq_some_iff,pure,Option.some.injEq] at hkey
        obtain ⟨active,-,caller,-,rfl⟩ := hkey
        rfl
      rw [jobOf_taken hb hclaim (by rw [hc]; rfl),jobOf_taken ha ((hjob hb).trans hclaim) rfl]
      exact .advance ⟨hc,hoperation,now,rfl⟩
    | @succeeded _ held t c now nonce ciphertext reply _ hask hk hcomp hs hφ =>
      have hclaim := hown hask.holds.choose_spec hk
      rw [jobOf_taken hb hclaim hcomp,jobOf_done ha ((hjob hb).trans hclaim) rfl]
      exact .finish (.inr ⟨now,nonce,ciphertext,rfl⟩)

/-- Only a prune deletes a row. -/
lemma Statement.removes {s : Statement} {o : Collation} {now : Time} {a : s.Answer}
    (hx : s.execute o now d = .ok (a, d')) (hrow : d.commands.find k = some row) (hnone : d'.commands.find k = none) :
    ∃ receiptTtlSeconds, s = .prune receiptTtlSeconds := by
  have hkeeps : d' ≠ d := by
    rintro rfl
    cases hrow.symm.trans hnone
  have hput : ∀ {c : Command} (hv : Row.check c = true), d' ≠ { d with commands := d.commands.put c hv } := by
    intro c hv hd
    rw [find_put_command hv hd] at hnone
    split_ifs at hnone
    cases hrow.symm.trans hnone
  cases s with
  | prune receiptTtlSeconds => exact ⟨receiptTtlSeconds,rfl⟩
  | reserveCommand key intentHash =>
    rcases reserve_ok hx with ⟨-,hd,-⟩ | ⟨-,-,hv,hd⟩
    · exact absurd hd hkeeps
    · exact absurd hd (hput hv)
  | completeFailedCommand key errorCode =>
    rcases completeFailed_ok hx with ⟨-,hd,-⟩ | ⟨-,c,-,-,hv,hd⟩
    · exact absurd hd hkeeps
    · exact absurd hd (hput hv)
  | _ => exact absurd (reads_ok rfl hx) hkeeps

/-- The step prunes, by the time to live that its instance is configured with. -/
structure Prunes (e : CallStep E) (active : ActiveServiceAccount E) (now : Time) : Prop where
  running : e.call.active = some active
  action : ∃ a, e.action = .perform (.pool (.execute (.prune active.config.receiptTtlSeconds))) a
  after : e.after = { e.before with
    commands := e.before.commands.delete (Command.expired now active.config.receiptTtlSeconds) }

/-- A row is deleted by a prune, which deletes the rows that were completed long enough ago and no others. -/
lemma prunes_of_removes (h : Ownership tr d p) (hs : (protocol E).Step (store E).serial tr d p e p')
    (hr : removes k e = true) : ∃ active now, Prunes e active now := by
  have hdiff : e.after ≠ e.before := by
    intro hsame
    rw [removes,hsame] at hr
    cases hrow : e.before.commands.find k <;> rw [hrow] at hr <;> cases hr
  cases hs with
  | start | reply | stop => exact absurd rfl hdiff
  | perform i call φ φ' o choice a s' hp hm hH =>
    obtain ⟨hsome,hnone⟩ : (d.commands.find k).isSome = true ∧ (s'.commands.find k).isNone = true := by
      simpa [removes] using hr
    obtain ⟨row,hrow⟩ := Option.isSome_iff_exists.mp hsome
    have hnone' := Option.isNone_iff_eq_none.mp hnone
    have hstep := h.acting.rowStep hp hm hH k
    rw [hrow,hnone'] at hstep
    cases hstep with
    | @deleted actor _ _ hc hφ =>
      cases o with
      | transact t =>
        obtain ⟨held,hask⟩ := hm.asks
        cases hask
      | pool o =>
        cases o with
        | execute s =>
          obtain ⟨ch,hx⟩ := Op.handle_of_serial hH
          have hexecuted : ∃ b, s.execute E.collation ch.now d = .ok (b, s') := by
            rcases execute_answer hx with ⟨b,-,hx⟩ | ⟨x,-,hd | hx⟩
            · exact ⟨b,hx⟩
            · exact absurd hd hdiff
            · exact hx
          obtain ⟨b,hb⟩ := hexecuted
          obtain ⟨receiptTtlSeconds,rfl⟩ := Statement.removes hb hrow hnone'
          have hactive : ∃ active, call.active = some active ∧ receiptTtlSeconds = active.config.receiptTtlSeconds := by
            cases hm with
            | lost hpermits =>
              cases hpermits with
              | prune ha => exact ⟨_,ha,rfl⟩
            | pruned ha => exact ⟨_,ha,rfl⟩
          obtain ⟨active,ha,rfl⟩ := hactive
          exact ⟨active,ch.now,ha,⟨a,rfl⟩,prune_ok hb⟩
        | _ =>
          obtain ⟨ch,hx⟩ := Op.handle_of_serial hH
          exact absurd (Op.handle_same (by simp) hx) hdiff

end Steps

/-- How far a command has come. -/
def CommandStatus.rank : CommandStatus → ℕ
  | .reserved => 0
  | .verifying => 1
  | .issuing => 2
  | .completedSuccess | .completedError => 3

/-- A row goes on from another: it is of the same intent, and has not gone back. -/
structure Command.Follows (row row' : Command) : Prop where
  intentHash : row'.intentHash = row.intentHash
  createdAt : row'.createdAt = row.createdAt
  rank : row.status.rank ≤ row'.status.rank

instance : IsPreorder Command Command.Follows where
  refl _ := ⟨rfl,rfl,le_rfl⟩
  trans _ _ _ h h' := ⟨h'.intentHash.trans h.intentHash,h'.createdAt.trans h.createdAt,h.rank.trans h'.rank⟩

lemma Command.follows_last {k : CommandKey} {row row' : Command} (h : (commandRules k).last row row') : row.Follows row' := by
  rcases h with ⟨now,code,rfl⟩ | ⟨now,nonce,ciphertext,rfl⟩ <;> refine ⟨rfl,rfl,?_⟩ <;>
    cases row.status <;> simp [CommandStatus.rank,Command.fail,Command.succeed]

lemma Command.follows_next {k : CommandKey} {row row' : Command} (h : (commandRules k).next row row') : row.Follows row' := by
  obtain ⟨hs,-,now,rfl⟩ := h
  refine ⟨rfl,rfl,?_⟩
  rw [hs]
  exact Nat.zero_le 2

section Runs
variable {d : Config (Call E) Effect Effect.Ans Reply Database} {c : Run (Call E) Reply} {k : CommandKey} {row : Command}
  {tr post pre : List (CallStep E)} {e : CallStep E}

lemma state_eq (hd : Config.Reachable Call.main (store E).serial Database.empty d) : d.state = stateAfter d.trace :=
  hd.invariant (I := fun tr s => s = stateAfter tr) rfl fun _ _ _ _ => rfl

/-- From any point on, a run is a run of the job from where it is there. -/
theorem commands_refine (hd : Config.Reachable Call.main (store E).serial Database.empty d) (he : d.trace = post ++ tr) :
    (commandRules k).Chain (jobOf k tr (stateAfter tr)) (jobs k tr post) ∧
      Job.latest (jobOf k tr (stateAfter tr)) (jobs k tr post) = jobOf k d.trace d.state := by
  induction post generalizing d with
  | nil =>
    refine ⟨trivial,?_⟩
    rw [state_eq hd,he]
    rfl
  | cons x post ih =>
    have hhead : d.trace = [] ++ x :: (post ++ tr) := he
    obtain ⟨d',hd',htr,hstate,-⟩ := hd.split hhead
    obtain ⟨hchain,hlatest⟩ := ih hd' htr
    obtain ⟨p,p',ho,hs⟩ := (ownership_invariant E).event (obeyed E) hd hhead
    refine ⟨⟨?_,hchain⟩,?_⟩
    · rw [hlatest,htr,hstate]
      exact job_step ho hs
    · rw [latest_jobs,state_eq hd,he]
      rfl

/-- The call that has claimed the row that a step leaves behind. -/
lemma claimed_after (hd : Config.Reachable Call.main (store E).serial Database.empty d) (he : d.trace = post ++ e :: pre)
    (hrow : e.after.commands.find k = some row) : ∃ i, claimant k (e :: pre) = some i := by
  obtain ⟨p,p',ho,hs⟩ := (ownership_invariant E).event (obeyed E) hd he
  exact ((ownership_invariant E).step ho hs).claimed hrow

/-- A row that no step deletes is there. -/
lemma there_of_kept (hd : Config.Reachable Call.main (store E).serial Database.empty d) (he : d.trace = post ++ e :: pre)
    (hrow : (e.after.commands.find k).isSome = true) (hno : ∀ x ∈ post, removes k x = false) :
    (d.state.commands.find k).isSome = true := by
  induction post generalizing d with
  | nil =>
    rw [state_eq hd,he]
    exact hrow
  | cons x post ih =>
    have hhead : d.trace = [] ++ x :: (post ++ e :: pre) := he
    obtain ⟨d',hd',htr,hstate,-⟩ := hd.split hhead
    have hbefore := ih hd' htr fun y hy => hno y (List.mem_cons_of_mem x hy)
    rw [hstate] at hbefore
    have hkept := hno x (by simp)
    rw [removes,hbefore,Bool.true_and] at hkept
    rw [state_eq hd,he]
    change (x.after.commands.find k).isSome = true
    cases hx : x.after.commands.find k with
    | none => rw [hx] at hkept; cases hkept
    | some row => rfl

/-- As long as no step deletes the row, the job is not vacant. -/
lemma occupied_of_kept (hd : Config.Reachable Call.main (store E).serial Database.empty d) (he : d.trace = post ++ e :: pre)
    (hrow : (e.after.commands.find k).isSome = true) (hno : ∀ x ∈ post, removes k x = false) :
    ∀ x ∈ jobs k (e :: pre) post, x.2 ≠ .vacant := by
  intro x hx hvacant
  obtain ⟨later,y,earlier,rfl,rfl⟩ := mem_jobs hx
  rw [List.append_assoc] at he
  obtain ⟨d',hd',htr⟩ := hd.earlier he
  have hthere := there_of_kept hd' htr hrow fun z hz => hno z (List.mem_append_right _ hz)
  obtain ⟨p,-,ho⟩ := (ownership_invariant E).reachable (obeyed E) hd'
  rw [htr,state_eq hd',htr] at ho
  rw [state_eq hd',htr] at hthere
  rw [ho.vacant_iff.mp hvacant] at hthere
  cases hthere

/-- The life of the command `k` in a run, which at this key is a run of a job. A row stays with the call that has
claimed it and is of one intent, its status never goes back, and once it is completed it does not change any more. It
is deleted by a prune, at least five minutes of the database's clock after its completion. -/
structure CommandLife (c : Run (Call E) Reply) (k : CommandKey) : Prop where
  refines : (commandRules k).Chain .vacant (jobs k [] c.trace)
  vacant : jobOf k c.trace c.state = .vacant ↔ c.state.commands.find k = none
  continues : ∀ post e pre row, c.trace = post ++ e :: pre → e.after.commands.find k = some row →
    (∀ x ∈ post, removes k x = false) → claimant k c.trace = claimant k (e :: pre) ∧
      ∃ row', c.state.commands.find k = some row' ∧ row.Follows row'
  completed : ∀ post e pre row, c.trace = post ++ e :: pre → e.after.commands.find k = some row →
    row.status.completable = false → (∀ x ∈ post, removes k x = false) → c.state.commands.find k = some row
  removed : ∀ e ∈ c.trace, removes k e = true → ∃ active now, Prunes e active now ∧
    ∃ row t, e.before.commands.find k = some row ∧ row.completedAt = some t ∧ t + seconds 300 < now

theorem command_life (hc : LockedConfig.Reachable (store E) Call.main Database.empty c) (k : CommandKey) :
    CommandLife c k where
  refines := (commands_refine (serializable hc) (List.append_nil _).symm).1
  vacant := by
    obtain ⟨p,-,ho⟩ := (ownership_invariant E).reachable (obeyed E) (serializable hc)
    exact ho.vacant_iff
  continues post e pre row he hrow hno := by
    obtain ⟨i,hi⟩ := claimed_after (serializable hc) he hrow
    obtain ⟨hchain,hlatest⟩ := commands_refine (k := k) (serializable hc) he
    obtain ⟨howner,hvalue⟩ := jobOf_some hrow hi
    obtain ⟨howner',row',hvalue',hfollows⟩ := hchain.continues (f := id) (g := id) (r := Command.Follows)
      (fun _ _ => Command.follows_next) (fun _ _ => Command.follows_last)
      (occupied_of_kept (serializable hc) he (by rw [hrow]; rfl) hno) howner hvalue
    rw [hlatest] at howner' hvalue'
    exact ⟨(claimant_of_jobOf howner').trans hi.symm,row',row_of_jobOf hvalue',hfollows⟩
  completed post e pre row he hrow hr hno := by
    obtain ⟨i,hi⟩ := claimed_after (serializable hc) he hrow
    obtain ⟨hchain,hlatest⟩ := commands_refine (k := k) (serializable hc) he
    rw [show jobOf k (e :: pre) (stateAfter (e :: pre)) = .done i row from jobOf_done hrow hi hr] at hchain hlatest
    rw [hchain.settled (occupied_of_kept (serializable hc) he (by rw [hrow]; rfl) hno)] at hlatest
    have hjob : jobOf k c.trace c.state = .done i row := hlatest.symm
    have hvalue : (jobOf k c.trace c.state).value id id = some row := by
      rw [hjob]
      rfl
    exact row_of_jobOf hvalue
  removed e he hr := by
    obtain ⟨post,pre,htr⟩ := List.append_of_mem he
    obtain ⟨p,p',ho,hs⟩ := (ownership_invariant E).event (obeyed E) (serializable hc) htr
    obtain ⟨active,now,hp⟩ := prunes_of_removes ho hs hr
    refine ⟨active,now,hp,?_⟩
    obtain ⟨hsome,hnone⟩ : (e.before.commands.find k).isSome = true ∧ (e.after.commands.find k).isNone = true := by
      simpa [removes] using hr
    obtain ⟨row,hrow⟩ := Option.isSome_iff_exists.mp hsome
    rw [hp.after,Table.find_delete,hrow,Option.isNone_iff_eq_none,Option.filter_eq_none_iff] at hnone
    have hexpired : row.expired now active.config.receiptTtlSeconds = true := by simpa using hnone row rfl
    obtain ⟨t,ht,hlt⟩ := (Option.any_eq_true _ _).mp hexpired
    refine ⟨row,t,hrow,ht,?_⟩
    have hlimits := (ServiceAccountConfig.validate_ok active.valid).2.2
    have httl : (300 : ℤ) ≤ active.config.receiptTtlSeconds := by
      simp only [ServiceAccountConfig.validLimits,within,Bool.and_eq_true,decide_eq_true_eq] at hlimits
      omega
    have hlt' : t < now - seconds active.config.receiptTtlSeconds := of_decide_eq_true hlt
    calc t + seconds 300
        ≤ t + seconds active.config.receiptTtlSeconds :=
          Int.add_le_add_left (Int.mul_le_mul_of_nonneg_right httl (by decide)) t
      _ < now := Int.add_lt_of_lt_sub_right hlt'

end Runs

/-- Call `1` prunes the command of the creation of call `0`. -/
noncomputable def samplePruned : List (LockedLabel (Call .plain) Choice Choice) :=
  sampleCreate ++ [.start (.create samplePlugin ⟨some "console"⟩ ⟨"k2","robot","org"⟩),.pool 1 {},
    .pool 1 { assertion := some ⟨"user","bob"⟩ },.pool 1 { membership := .ok ⟨true⟩ },
    .pool 1 { permission := .ok ⟨true⟩ },.pool 1 { now := seconds 1000 }]

set_option maxRecDepth 4000 in
noncomputable def samplePrunedRun : Run (Call .plain) Reply :=
  ((LockedConfig.init Database.empty).run (store .plain) Call.main samplePruned).get (by decide +kernel)

set_option maxRecDepth 4000 in
theorem command_life_sample : samplePrunedRun.trace.any (removes ⟨"console","create","k1"⟩) = true ∧
    CommandLife samplePrunedRun ⟨"console","create","k1"⟩ :=
  ⟨by decide +kernel,command_life (LockedConfig.leads_of_run (Option.some_get _).symm) _⟩

section Abandoned
variable {c : Run (Call E) Reply} {k : CommandKey} {row : Command} {tr post pre : List (CallStep E)} {x f : CallStep E}
  {d d' : Database} {p p' : CallPhases E} {i : ℕ} {intentHash : Bytes}

/-- After the step the command is left behind: it is not completed, and the call that has claimed it is over. -/
structure LeftBehind (k : CommandKey) (row : Command) (f : CallStep E) (pre : List (CallStep E)) : Prop where
  there : f.after.commands.find k = some row
  uncompleted : row.status.completable = true
  ended : ∃ y ∈ f :: pre, claimant k (f :: pre) = some y.tid ∧ y.action.ends = true

lemma Frozen.outlives (h : Frozen k row i tr d p) (hr : row.status.completable = true) (ho : Ownership tr d p)
    (hs : (protocol E).Step (store E).serial tr d p x p') (hi : ∃ y ∈ tr, y.tid = i ∧ y.action.ends = true) :
    Frozen k row i (x :: tr) x.after p' := by
  obtain ⟨y,hy,rfl,hends⟩ := hi
  have hne := ho.orderly.step_ne hs hy hends
  have hafter : x.after.commands.find k = some row := by
    apply (ho.uncompleted_stays hs h.there hr).2
    rw [h.claimed]
    exact fun he => hne (Option.some.inj he)
  have hins : inserts k x = false := by rw [inserts,hs.before,h.there]; rfl
  exact ⟨hafter,(claimant_of_kept hins).trans h.claimed,by rw [hs.other hne]; exact h.gone⟩

/-- A call that has tried in vain to claim a command changes nothing any more. -/
lemma Phase.Barred.same {call : Call E} {φ φ' : Phase E} {o : Effect} {a : Effect.Ans o} {ch : Choice ⊕ List Choice}
    (h : φ.Barred k row intentHash) (hm : Move call φ o a φ') (hH : (store E).serial o ch d = some (a, d')) : d' = d := by
  have hreads : ∀ {s : Statement} {b : Except SqlError s.Answer}, s.reads = true →
      (store E).serial (.pool (.execute s)) ch d = some (b,d') → d' = d := by
    intro s b hs hH
    obtain ⟨ch',hx⟩ := Op.handle_of_serial hH
    rcases execute_answer hx with ⟨b,-,hx⟩ | ⟨e,-,hd | ⟨b,hx⟩⟩
    · exact reads_ok hs hx
    · exact hd
    · exact reads_ok hs hx
  cases h with
  | contested hk hi =>
    cases hm with
    | lost hp =>
      cases hp with
      | load => exact hreads rfl hH
      | record hh => cases hh
    | random hφ => cases hφ
    | recorded hh | unrecorded hh => cases hh
    | declined ha | failed ha => cases ha
    | read => exact hreads rfl hH
  | answered hk hi =>
    cases hm with
    | lost hp =>
      cases hp with
      | record hh => cases hh
    | random hφ => cases hφ
    | recorded hh | unrecorded hh => cases hh
    | declined ha | failed ha => cases ha
  | failed =>
    cases hm with
    | lost hp =>
      cases hp with
      | record hh => cases hh
    | random hφ => cases hφ
    | recorded hh | unrecorded hh => cases hh
    | declined ha | failed ha => cases ha

/-- Nor does the try. -/
lemma Tries.same (hx : Tries k intentHash x) (hrow : d.commands.find k = some row)
    (hs : (protocol E).Step (store E).serial tr d p x p') : x.after = x.before := by
  obtain ⟨n,ha⟩ := hx
  cases hs with
  | perform j call φ φ' o choice a s' hp hm hH =>
    cases ha
    have hreserve : ∀ {t : Time} {m : ℕ}, (Statement.reserveCommand k intentHash).execute E.collation t d = .ok (m,s') →
        s' = d := by
      intro t m hx
      rcases reserve_ok hx with ⟨-,hd,-⟩ | ⟨-,hnone,-⟩
      · exact hd
      · cases hrow.symm.trans hnone
    obtain ⟨ch,hx⟩ := Op.handle_of_serial hH
    rcases execute_answer hx with ⟨m,-,hx⟩ | ⟨e,-,hd | ⟨m,hx⟩⟩
    · exact hreserve hx
    · exact hd
    · exact hreserve hx
  | _ => rfl

/-- The calls that try to claim the command do nothing but prune. -/
def Harmless (k : CommandKey) (post tr : List (CallStep E)) : Prop :=
  ∀ x ∈ post, ∀ intentHash, Tries k intentHash x → ∀ z ∈ tr, z.tid = x.tid → Idle z

lemma Harmless.step (h : Harmless k post tr) (hf : Frozen k row i tr d p) (hb : Barring k row post tr p)
    (ho : Ownership tr d p) (hs : (protocol E).Step (store E).serial tr d p x p') :
    Harmless k (x :: post) (x :: tr) := by
  intro y hy intentHash htries z hz htid
  rcases List.mem_cons.mp hy with rfl | hy'
  · rcases List.mem_cons.mp hz with rfl | hz'
    · exact idle_of_same (htries.same hf.there hs)
    · obtain ⟨n,ha⟩ := htries
      cases hs with
      | perform j call ψ ψ' o choice a s' hp hm hH =>
        obtain ⟨actor,rfl⟩ := Move.opening_of_tries ha hm
        exact ho.waiting j call _ hp rfl z hz' htid
      | start => cases ha
      | reply => cases ha
      | stop => cases ha
  · rcases List.mem_cons.mp hz with rfl | hz'
    · cases hs with
      | perform j call ψ ψ' o choice a s' hp hm hH =>
        have hbarred := hb.phase y hy' intentHash htries call ψ (by rw [← htid]; exact hp)
        exact idle_of_same (hbarred.same hm hH)
      | _ => exact idle_of_same rfl
    · exact h y hy' intentHash htries z hz' htid

/-- What holds after a command is left behind. -/
structure Forsaken (k : CommandKey) (row : Command) (i : ℕ) (post tr : List (CallStep E)) (d : Database)
    (p : CallPhases E) : Prop where
  frozen : Frozen k row i tr d p
  barring : Barring k row post tr p
  harmless : Harmless k post tr

lemma forsaken_since {d : Config (Call E) Effect Effect.Ans Reply Database}
    (hd : Config.Reachable Call.main (store E).serial Database.empty d) (he : d.trace = post ++ f :: pre)
    (hf : LeftBehind k row f pre) : ∃ i p, Forsaken k row i post d.trace d.state p := by
  obtain ⟨y,hy,hclaim,hends⟩ := hf.ended
  have hstart : ∀ {p p' : CallPhases E}, Ownership pre f.before p ∧ Traced pre p →
      (protocol E).Step (store E).serial pre f.before p f p' → Forsaken k row y.tid [] (f :: pre) f.after p' := by
    intro p p' ho hs
    have hgone := ((ownership_invariant E).step ho.1 hs).orderly.ended y hy hends
    exact ⟨⟨hf.there,hclaim,hgone⟩,⟨by simp,by simp,by simp⟩,fun x hx => by cases hx⟩
  have hstep : ∀ {post : List (CallStep E)} {s : Database} {p : CallPhases E} {x : CallStep E} {p' : CallPhases E},
      Ownership (post ++ f :: pre) s p ∧ Traced (post ++ f :: pre) p →
      Forsaken k row y.tid post (post ++ f :: pre) s p →
      (protocol E).Step (store E).serial (post ++ f :: pre) s p x p' →
      Forsaken k row y.tid (x :: post) (x :: post ++ f :: pre) x.after p' := by
    intro post s p x p' ho h hs
    have hpost : ∀ z ∈ post, z ∈ post ++ f :: pre := fun z hz => List.mem_append_left _ hz
    have hover : ∃ z ∈ post ++ f :: pre, z.tid = y.tid ∧ z.action.ends = true :=
      ⟨y,List.mem_append_right _ hy,rfl,hends⟩
    exact ⟨h.frozen.outlives hf.uncompleted ho.1 hs hover,h.barring.step h.frozen ho.1 ho.2 hs hpost,
      h.harmless.step h.frozen h.barring ho.1 hs⟩
  obtain ⟨p,-,-,h⟩ := (traced_invariant E).since (obeyed E)
    (J := fun post d p => Forsaken k row y.tid post (post ++ f :: pre) d p) hstart hstep hd he
  rw [← he] at h
  exact ⟨y.tid,p,h⟩

/-- How a call ends that finds the command `row` in the way of its own intent. -/
def Denied (row : Command) (intentHash : Bytes) (K : Kind) (r : Reply) : Prop :=
  (row.intentHash = intentHash ∧ r = K.reply (.ok (.error K.operationInProgress))) ∨
  (row.intentHash ≠ intentHash ∧ r = K.reply (.ok (.error K.idempotencyConflict))) ∨
  ∃ operation e, r.failure = some (.pluginFailure (.database operation e))

/-- A call that is barred is denied its command. -/
lemma Phase.Barred.denied {call : Call E} {φ : Phase E} {r : Reply} (h : φ.Barred k row intentHash)
    (hr : row.status.completable = true) (hcall : call.commandKey = some k) (hl : Last call r φ) :
    ∃ K, call.kind = some K ∧ Denied row intentHash K r := by
  cases h with
  | contested hk hi => exact absurd hl id
  | @answered held hk hi =>
    obtain ⟨K,hK,rfl⟩ := hl
    refine ⟨K,hK,?_⟩
    unfold Kind.answer
    rw [hi]
    by_cases hintent : row.intentHash = intentHash
    · refine .inl ⟨hintent,?_⟩
      rw [if_neg (not_not.mpr hintent)]
      cases hs : row.status <;> rw [hs] at hr <;> first | rfl | cases hr
    · refine .inr (.inl ⟨hintent,?_⟩)
      rw [if_pos hintent]
  | @failed operation e =>
    obtain ⟨K,hK⟩ : ∃ K, call.kind = some K := by
      cases call <;> first | exact ⟨_,rfl⟩ | cases hcall
    exact ⟨K,hK,.inr (.inr ⟨operation,e,hl⟩)⟩

/-- What becomes of a command that is left behind, of whatever operation: its row stays as it is. Whoever tries to
claim it is told that it is in progress, or that it is of another intent, and does nothing but prune. -/
structure Abandoned (c : Run (Call E) Reply) (k : CommandKey) (row : Command) (post : List (CallStep E)) : Prop where
  stays : c.state.commands.find k = some row
  harmless : ∀ x ∈ post, ∀ intentHash, Tries k intentHash x → ∀ z ∈ c.trace, z.tid = x.tid → Idle z
  denied : ∀ x ∈ post, ∀ intentHash, Tries k intentHash x → ∀ z ∈ c.trace, z.tid = x.tid → ∀ r,
    z.action = .reply r → ∃ K, z.call.kind = some K ∧ Denied row intentHash K r

theorem abandoned_commands_stay (hc : LockedConfig.Reachable (store E) Call.main Database.empty c)
    (he : c.trace = post ++ f :: pre) (hf : LeftBehind k row f pre) : Abandoned c k row post := by
  obtain ⟨i,p,h⟩ := forsaken_since (serializable hc) he hf
  refine ⟨h.frozen.there,h.harmless,fun x hx intentHash htries z hz htid r hr => ?_⟩
  obtain ⟨φ,hφ,hl⟩ := h.barring.replies x hx intentHash htries z hz htid r hr
  have hmem : x ∈ c.trace := by rw [he]; exact List.mem_append_left _ hx
  obtain ⟨pre',q,q',-,hs⟩ := orderly_event hc hmem
  obtain ⟨q,-,horderly⟩ := (Protocol.orderly_invariant (protocol E) (store E).serial Database.empty).reachable
    (obeyed E) (serializable hc)
  have hcall : z.call.commandKey = some k := by
    rw [horderly.same z hz x hmem htid]
    exact htries.command hs
  exact hφ.denied hf.uncompleted hcall hl

end Abandoned

/-- Call `0` stops after its claim, and call `1` makes the same request. -/
noncomputable def sampleStopped : List (LockedLabel (Call .plain) Choice Choice) :=
  sampleClaim ++ [.stop 0,.start (.create samplePlugin ⟨some "console"⟩ ⟨"k1","robot","org"⟩),.pool 1 {},
    .pool 1 { assertion := some ⟨"user","alice"⟩ },.pool 1 { membership := .ok ⟨true⟩ },
    .pool 1 { permission := .ok ⟨true⟩ },.pool 1 { now := seconds 1000 },.pool 1 {},.pool 1 {},.reply 1]

set_option maxRecDepth 4000 in
noncomputable def sampleStoppedRun : Run (Call .plain) Reply :=
  ((LockedConfig.init Database.empty).run (store .plain) Call.main sampleStopped).get (by decide +kernel)

set_option maxRecDepth 4000 in
theorem abandoned_commands_stay_sample : ∃ row, Abandoned sampleStoppedRun ⟨"console","create","k1"⟩ row
    (sampleStoppedRun.trace.take 9) := by
  have hhead : (sampleStoppedRun.trace.drop 9).head?.any (fun f => f.action.ends &&
      claimant ⟨"console","create","k1"⟩ (sampleStoppedRun.trace.drop 9) == some f.tid &&
      (f.after.commands.find ⟨"console","create","k1"⟩).any fun row => row.status.completable) = true := by
    decide +kernel
  have htr := (List.take_append_drop 9 sampleStoppedRun.trace).symm
  cases hdrop : sampleStoppedRun.trace.drop 9 with
  | nil => simp [hdrop] at hhead
  | cons f pre =>
    rw [hdrop] at hhead htr
    simp only [List.head?_cons,Option.any_some,Bool.and_eq_true,beq_iff_eq] at hhead
    obtain ⟨row,hrow,hr⟩ := (Option.any_eq_true _ _).mp hhead.2
    exact ⟨row,abandoned_commands_stay (LockedConfig.leads_of_run (Option.some_get _).symm) htr
      ⟨hrow,hr,f,by simp,hhead.1.2,hhead.1.1⟩⟩

end LensoServiceAccount
