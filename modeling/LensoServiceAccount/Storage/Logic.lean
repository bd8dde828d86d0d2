import LensoServiceAccount.Storage.Transaction

/-! Rules for code inside a transaction: what its operations can lead to. -/

namespace LensoServiceAccount
open TxM

/-- Some admitted choice is a fault of the database. -/
def Faulty (good : TxOp → Choice → Bool) : Prop := ∃ o c, good o c = true ∧ c.fault ≠ none

/-- What a draw of random bytes can be answered. -/
def Draws (good : TxOp → Choice → Bool) (count : ℕ) (answer : Option Bytes) : Prop :=
  ∃ c, good (.getrandom count) c = true ∧ c.fill count = answer

lemma Draws.filled {good : TxOp → Choice → Bool} {count : ℕ} {answer : Option Bytes}
    (h : Draws good count answer) : Filled count answer := by
  obtain ⟨c,-,rfl⟩ := h
  exact fun bytes hb => Choice.length_of_fill hb

/-- How a statement may fail: the database lets it down, or the statement is in error. -/
def StatementFailure (E : Environment) (good : TxOp → Choice → Bool) (t : Time) (d : Database)
    (s : TxStatement) (e : SqlError) : Prop :=
  (e = .unavailable ∧ Faulty good) ∨ s.execute E.collation t d = .error e

namespace TxM
variable {E : Environment} {good : TxOp → Choice → Bool} {α β : Type}

/-- Every run of `p` under admitted choices ends as `Q` says. -/
def wp (E : Environment) (good : TxOp → Choice → Bool) (p : TxM α)
    (Q : Except ServiceAccountPluginError α → Session × Database → Prop) (s : Session × Database) : Prop :=
  Program.wp ((TxOp.handle E).restrict good) p.run Q s

theorem wp_pure {a : α} {Q : Except ServiceAccountPluginError α → Session × Database → Prop}
    {s : Session × Database} (h : Q (.ok a) s) : wp E good (pure a) Q s := h

theorem wp_throw {e : ServiceAccountPluginError}
    {Q : Except ServiceAccountPluginError α → Session × Database → Prop} {s : Session × Database}
    (h : Q (.error e) s) : wp E good (throw e) Q s := h

theorem wp_bind {p : TxM α} {f : α → TxM β}
    {Q : Except ServiceAccountPluginError β → Session × Database → Prop} {s : Session × Database}
    (h : wp E good p (fun r s' =>
      match r with
      | .ok a => wp E good (f a) Q s'
      | .error e => Q (.error e) s') s) : wp E good (p >>= f) Q s := by
  refine (Program.wp_bind_except _ p f Q s).mpr (Program.wp_mono _ h ?_)
  rintro (e | a) s' hr <;> exact hr

variable {t : Time} {ws : List Write} {ls : List Lock} {d : Database} {operation : String}

theorem wp_begin {Q : Except ServiceAccountPluginError Unit → Session × Database → Prop}
    (hfail : ∀ l, Faulty good → Q (.error (.database operation .unavailable)) (l, d))
    (hok : ∀ t', Q (.ok ()) (⟨t',ws,ls,false⟩, d)) :
    wp E good (begin operation) Q (⟨t,ws,ls,false⟩, d) := by
  intro c a s' hc
  simp only [Program.Handler.restrict,TxOp.handle] at hc
  split_ifs at hc with hg
  cases hf : c.fault with
  | none =>
    simp only [hf,Option.some.injEq,Prod.mk.injEq] at hc
    obtain ⟨rfl,rfl⟩ := hc
    exact hok c.now
  | some f =>
    simp only [hf,Option.some.injEq,Prod.mk.injEq] at hc
    obtain ⟨rfl,rfl⟩ := hc
    exact hfail _ ⟨_,c,hg,by simp [hf]⟩

theorem wp_statement {s : TxStatement}
    {Q : Except ServiceAccountPluginError s.Answer → Session × Database → Prop}
    (hfail : ∀ e l, StatementFailure E good t (d.apply ws) s e → Q (.error (.database operation e)) (l, d))
    (hok : ∀ a us ls', s.execute E.collation t (d.apply ws) = .ok (a, us) →
      Q (.ok a) (⟨t,ws ++ us,ls',false⟩, d)) :
    wp E good (statement operation s) Q (⟨t,ws,ls,false⟩, d) := by
  intro c a s' hc
  simp only [Program.Handler.restrict,TxOp.handle] at hc
  split_ifs at hc with hg hf
  · simp only [Option.some.injEq,Prod.mk.injEq] at hc
    obtain ⟨rfl,rfl⟩ := hc
    refine hfail _ _ (.inl ⟨rfl,_,c,hg,?_⟩)
    rintro hn
    simp [hn] at hf
  · simp only [Session.view] at hc
    cases he : s.execute E.collation t (d.apply ws) with
    | error e =>
      simp only [he,Option.some.injEq,Prod.mk.injEq] at hc
      obtain ⟨rfl,rfl⟩ := hc
      exact hfail _ _ (.inr he)
    | ok r =>
      simp only [he,Option.some.injEq,Prod.mk.injEq] at hc
      obtain ⟨rfl,rfl⟩ := hc
      exact hok r.1 r.2 _ he

theorem wp_commit {Q : Except ServiceAccountPluginError Unit → Session × Database → Prop}
    (hlost : Faulty good → Q (.error (.database operation .unavailable)) (⟨t,ws,ls,false⟩, d))
    (hsilent : Faulty good → Q (.error (.database operation .unavailable)) (⟨t,ws,ls,false⟩, d.apply ws))
    (hok : Q (.ok ()) (⟨t,ws,ls,false⟩, d.apply ws)) :
    wp E good (commit operation) Q (⟨t,ws,ls,false⟩, d) := by
  intro c a s' hc
  simp only [Program.Handler.restrict,TxOp.handle,Bool.false_eq_true,if_false,Session.view] at hc
  split_ifs at hc with hg
  cases hf : c.fault with
  | none =>
    simp only [hf,Option.some.injEq,Prod.mk.injEq] at hc
    obtain ⟨rfl,rfl⟩ := hc
    exact hok
  | some f =>
    have hfaulty : Faulty good := ⟨_,c,hg,by simp [hf]⟩
    cases f with
    | lost =>
      simp only [hf,Option.some.injEq,Prod.mk.injEq] at hc
      obtain ⟨rfl,rfl⟩ := hc
      exact hlost hfaulty
    | unacknowledged =>
      simp only [hf,Option.some.injEq,Prod.mk.injEq] at hc
      obtain ⟨rfl,rfl⟩ := hc
      exact hsilent hfaulty

theorem wp_rollback {l : Session} {Q : Except ServiceAccountPluginError Unit → Session × Database → Prop}
    (hfail : Faulty good → Q (.error (.database operation .unavailable)) (l, d))
    (hok : Q (.ok ()) (l, d)) : wp E good (rollback operation) Q (l, d) := by
  intro c a s' hc
  simp only [Program.Handler.restrict,TxOp.handle] at hc
  split_ifs at hc with hg
  cases hf : c.fault with
  | none =>
    simp only [hf,Option.some.injEq,Prod.mk.injEq] at hc
    obtain ⟨rfl,rfl⟩ := hc
    exact hok
  | some f =>
    simp only [hf,Option.some.injEq,Prod.mk.injEq] at hc
    obtain ⟨rfl,rfl⟩ := hc
    exact hfail ⟨_,c,hg,by simp [hf]⟩

theorem wp_nowUtc {Q : Except ServiceAccountPluginError Time → Session × Database → Prop}
    {s : Session × Database} (hok : ∀ now, Q (.ok now) s) : wp E good nowUtc Q s := by
  intro c a s' hc
  simp only [Program.Handler.restrict,TxOp.handle] at hc
  split_ifs at hc with hg
  simp only [Option.some.injEq,Prod.mk.injEq] at hc
  obtain ⟨rfl,rfl⟩ := hc
  exact hok _

theorem wp_entropy {p : Entropy ServiceAccountPluginError α}
    {Q : Except ServiceAccountPluginError α → Session × Database → Prop} {s : Session × Database}
    (h : ∀ a, p.run.Outcome (Draws good) a → Q a s) : wp E good (entropy p) Q s := by
  refine Program.wp_translate (Draws good) _ ?_ h
  intro count c a s' hc
  simp only [Program.Handler.restrict,TxOp.handle] at hc
  split_ifs at hc with hg
  simp only [Option.some.injEq,Prod.mk.injEq] at hc
  obtain ⟨rfl,rfl⟩ := hc
  exact ⟨rfl,c,hg,rfl⟩

end TxM

/-- How completing a transaction may fail before its commit. -/
inductive FinishFailure (E : Environment) (good : TxOp → Choice → Bool) (t : Time) (d : Database) {α : Type}
    (key : CommandKey) (organizationId serviceAccountId missing : String) (result : AccountRow → α)
    (receipt : Sealing α) : ServiceAccountPluginError → Prop
  | unavailable (operation : String) (h : Faulty good) :
      FinishFailure E good t d key organizationId serviceAccountId missing result receipt
        (.database operation .unavailable)
  | missing (h : d.accountIn organizationId serviceAccountId = none) :
      FinishFailure E good t d key organizationId serviceAccountId missing result receipt
        (.invariant missing)
  | receipt (a : Account) (e : ServiceAccountPluginError)
      (ha : d.accountIn organizationId serviceAccountId = some a)
      (hr : (receipt (result (accountRow E.collation d a))).run.Outcome (Draws good) (.error e)) :
      FinishFailure E good t d key organizationId serviceAccountId missing result receipt e
  | notCompletable (h : ∀ c, d.commands.find key = some c → c.status.completable = false) :
      FinishFailure E good t d key organizationId serviceAccountId missing result receipt
        (.invariant "service-account command was not completable")
  | oversize (a : Account) (c : Command) (nonce ciphertext : Bytes)
      (ha : d.accountIn organizationId serviceAccountId = some a)
      (hr : (receipt (result (accountRow E.collation d a))).run.Outcome (Draws good)
        (.ok (nonce, ciphertext)))
      (hc : d.commands.find key = some c) (hcomp : c.status.completable = true)
      (hv : ¬Row.check (c.succeed t nonce ciphertext) = true) :
      FinishFailure E good t d key organizationId serviceAccountId missing result receipt
        (.database "complete service-account command" .checkViolation)

/-- The writes of a statement that completes a command. -/
theorem completeCommand_ok {o : Collation} {t : Time} {d : Database} {key : CommandKey}
    {nonce ciphertext : Bytes} {n : ℕ} {us : List Write}
    (h : (TxStatement.completeCommand key nonce ciphertext).execute o t d = .ok (n, us)) :
    (n = 0 ∧ us = [] ∧ ∀ c, d.commands.find key = some c → c.status.completable = false) ∨
    (n = 1 ∧ ∃ c hc, d.commands.find key = some c ∧ c.status.completable = true ∧
      us = [.command (c.succeed t nonce ciphertext) hc]) := by
  simp only [TxStatement.execute] at h
  cases hf : (d.commands.find key).filter fun c => c.status.completable with
  | none =>
    simp only [hf] at h
    cases h
    refine .inl ⟨rfl,rfl,fun c hc => ?_⟩
    simpa [hc,Option.filter] using hf
  | some c =>
    simp only [hf] at h
    obtain ⟨hfind,hcomp⟩ := Option.filter_eq_some_iff.mp hf
    cases hw : writeRow .command (c.succeed t nonce ciphertext) with
    | error e => simp [hw,bind,Except.bind] at h
    | ok w =>
      obtain ⟨hc,rfl⟩ := writeRow_ok.mp hw
      simp only [hw,bind,Except.bind,pure,Except.pure,Except.ok.injEq,Prod.mk.injEq] at h
      obtain ⟨rfl,rfl⟩ := h
      exact .inr ⟨rfl,c,hc,hfind,hcomp,rfl⟩

theorem completeCommand_error {o : Collation} {t : Time} {d : Database} {key : CommandKey}
    {nonce ciphertext : Bytes} {e : SqlError}
    (h : (TxStatement.completeCommand key nonce ciphertext).execute o t d = .error e) :
    e = .checkViolation ∧ ∃ c, d.commands.find key = some c ∧ c.status.completable = true ∧
      ¬Row.check (c.succeed t nonce ciphertext) = true := by
  simp only [TxStatement.execute] at h
  cases hf : (d.commands.find key).filter fun c => c.status.completable with
  | none => simp [hf] at h
  | some c =>
    simp only [hf] at h
    obtain ⟨hfind,hcomp⟩ := Option.filter_eq_some_iff.mp hf
    by_cases hc : Row.check (c.succeed t nonce ciphertext) = true
    · simp [writeRow,hc,bind,Except.bind,pure,Except.pure] at h
    · simp only [writeRow,hc,bind,Except.bind] at h
      cases h
      exact ⟨rfl,c,hfind,hcomp,hc⟩

variable {E : Environment} {good : TxOp → Choice → Bool} {t : Time} {ws : List Write} {ls : List Lock}
  {d : Database}

theorem wp_completeSuccess {key : CommandKey} {nonce ciphertext : Bytes}
    {Q : Except ServiceAccountPluginError Unit → Session × Database → Prop}
    (hunavailable : ∀ l, Faulty good →
      Q (.error (.database "complete service-account command" .unavailable)) (l, d))
    (hcheck : ∀ l c, (d.apply ws).commands.find key = some c → c.status.completable = true →
      ¬Row.check (c.succeed t nonce ciphertext) = true →
      Q (.error (.database "complete service-account command" .checkViolation)) (l, d))
    (hnot : ∀ l, (∀ c, (d.apply ws).commands.find key = some c → c.status.completable = false) →
      Q (.error (.invariant "service-account command was not completable")) (l, d))
    (hok : ∀ c hc ls', (d.apply ws).commands.find key = some c → c.status.completable = true →
      Q (.ok ()) (⟨t,ws ++ [.command (c.succeed t nonce ciphertext) hc],ls',false⟩, d)) :
    TxM.wp E good (completeSuccess key nonce ciphertext) Q (⟨t,ws,ls,false⟩, d) := by
  refine wp_bind (wp_statement ?_ ?_)
  · rintro e l (⟨rfl,hf⟩ | he)
    · exact hunavailable l hf
    · obtain ⟨rfl,c,hc,hcomp,hv⟩ := completeCommand_error he
      exact hcheck l c hc hcomp hv
  · intro n us ls' he
    obtain ⟨rfl,rfl,hn⟩ | ⟨rfl,c,hc,hfind,hcomp,rfl⟩ := completeCommand_ok he
    · exact hnot _ hn
    · exact hok c hc ls' hfind hcomp

/-- What `finish` leads to: the row as it has become, and the command completed with a receipt
that the closure made of it. -/
theorem wp_finish {α : Type} {key : CommandKey} {organizationId serviceAccountId missing : String}
    {result : AccountRow → α} {receipt : Sealing α}
    {Q : Except ServiceAccountPluginError α → Session × Database → Prop}
    (hfail : ∀ e l, FinishFailure E good t (d.apply ws) key organizationId serviceAccountId missing
      result receipt e → Q (.error e) (l, d))
    (hok : ∀ a c nonce ciphertext hc ls', (d.apply ws).accountIn organizationId serviceAccountId = some a →
      (receipt (result (accountRow E.collation (d.apply ws) a))).run.Outcome Filled
        (.ok (nonce, ciphertext)) →
      (d.apply ws).commands.find key = some c → c.status.completable = true →
      Q (.ok (result (accountRow E.collation (d.apply ws) a)))
        (⟨t,ws ++ [.command (c.succeed t nonce ciphertext) hc],ls',false⟩, d)) :
    TxM.wp E good (finish key organizationId serviceAccountId missing result receipt) Q
      (⟨t,ws,ls,false⟩, d) := by
  refine wp_bind (wp_statement ?_ ?_)
  · rintro e l (⟨rfl,hf⟩ | he)
    · exact hfail _ _ (.unavailable _ hf)
    · simp [TxStatement.execute] at he
  · intro row us ls' he
    simp only [TxStatement.execute,Except.ok.injEq,Prod.mk.injEq] at he
    obtain ⟨rfl,rfl⟩ := he
    rw [List.append_nil]
    cases ha : (d.apply ws).accountIn organizationId serviceAccountId with
    | none => exact hfail _ _ (.missing ha)
    | some a =>
      simp only [Option.map_some]
      refine wp_bind (wp_entropy ?_)
      rintro (e | ⟨nonce, ciphertext⟩) hr
      · exact hfail _ _ (.receipt a e ha hr)
      · refine wp_bind (wp_completeSuccess ?_ ?_ ?_ ?_)
        · intro l hf
          exact hfail _ _ (.unavailable _ hf)
        · intro l c hc hcomp hv
          exact hfail _ _ (.oversize a c nonce ciphertext ha hr hc hcomp hv)
        · intro l hn
          exact hfail _ _ (.notCompletable hn)
        · intro c hc ls'' hfind hcomp
          exact hok a c nonce ciphertext hc ls'' ha (hr.mono fun _ _ h => h.filled) hfind hcomp

end LensoServiceAccount
