import LensoServiceAccount.Storage.Outcome

/-! Effects and receipts are committed together: wherever a transaction stops, all of it has happened or
nothing. -/

namespace LensoServiceAccount
variable {E : Environment}

/-- What a transaction that returns a value has done: everything, or nothing at all. -/
def Transaction.Yields (E : Environment) (d d' : Database) : (t : Transaction) → t.Value → Prop
  | .completeSuccess key nonce ciphertext, _ => Completes key (fun _ : Unit => pure (nonce,ciphertext)) () d d'
  | .createAccount r, some row => CreateCommit E r d row d'
  | .createAccount _, none => d' = d
  | .rotateAccount r, .updated row => RotateCommit E r d row d'
  | .rotateAccount _, _ => d' = d
  | .revokeAccount r, .updated result => RevokeCommit E r d result d'
  | .revokeAccount _, _ => d' = d
  | .markExchangeIssuing r, some row => AdmitCommit r d row d'
  | .markExchangeIssuing _, none => d' = d
  | .reserveRateSlot r, _ => SlotCommit r d d'

/-- The error of a commit that the plugin is not told of. -/
def Transaction.unacknowledged : Transaction → Option ServiceAccountPluginError
  | .completeSuccess _ _ _ => some (.database "commit service-account receipt completion" .unavailable)
  | .createAccount _ => some (.database "commit service-account creation" .unavailable)
  | .rotateAccount _ => some (.database "commit service-account rotation" .unavailable)
  | .revokeAccount _ => some (.database "commit service-account revocation" .unavailable)
  | .markExchangeIssuing _ => some (.database "commit verified service-account exchange" .unavailable)
  | .reserveRateSlot _ => none

/-- Wherever a transaction stops, the database is as it was before or as a whole commit leaves it. -/
structure Transaction.Atomic (E : Environment) (t : Transaction) (d : Database) : Prop where
  stops : ∀ cs rest l d', t.body.advance (TxOp.handle E) cs (Session.fresh, d) = some (rest, (l, d')) →
    d' = d ∨ ∃ v, t.Yields E d d' v
  returns : ∀ cs v l d', t.body.run (TxOp.handle E) cs (Session.fresh, d) = some (.ok v, (l, d')) → t.Yields E d d' v
  /-- An error means that nothing has happened, but for a commit that has not been acknowledged. -/
  fails : ∀ cs error l d', t.body.run (TxOp.handle E) cs (Session.fresh, d) = some (.error error, (l, d')) →
    d' = d ∨ (∃ v, t.Yields E d d' v) ∧ ∀ e, t.unacknowledged = some e → error = e

section Results
variable {good : TxOp → Choice → Bool} {t : Transaction} {d d' : Database}

/-- All or nothing, for each way a transaction may return. -/
def Transaction.AllOrNothing (E : Environment) (t : Transaction) (d d' : Database) : t.Result → Prop
  | .ok v => t.Yields E d d' v
  | .error error => d' = d ∨ (∃ v, t.Yields E d d' v) ∧ ∀ e, t.unacknowledged = some e → error = e

theorem Transaction.Outcome.allOrNothing {res : t.Result} (h : t.Outcome E good d res d') :
    t.AllOrNothing E d d' res := by
  cases t with
  | completeSuccess key nonce ciphertext =>
    cases h with
    | failed e h => exact .inl rfl
    | completed s c hv hc hcomp => exact .mk s c nonce ciphertext hc hcomp ⟨hv,rfl⟩ rfl
    | unacknowledged s c hv hc hcomp =>
      exact .inr ⟨⟨(),.mk s c nonce ciphertext hc hcomp ⟨hv,rfl⟩ rfl⟩,fun e he => Option.some.inj he⟩
  | createAccount r =>
    cases h with
    | failed e h hn => exact .inl rfl
    | full h => exact (rfl : d = d)
    | created row _ h => exact h
    | unacknowledged row _ h => exact .inr ⟨⟨some row,h⟩,fun e he => Option.some.inj he⟩
  | rotateAccount r =>
    cases h with
    | failed e h => exact .inl rfl
    | updated row _ h => exact h
    | unacknowledged row _ h hf => exact .inr ⟨⟨.updated row,h⟩,fun e he => Option.some.inj he⟩
    | _ => exact (rfl : d = d)
  | revokeAccount r =>
    cases h with
    | failed e h => exact .inl rfl
    | updated result _ h => exact h
    | unacknowledged result _ h => exact .inr ⟨⟨.updated result,h⟩,fun e he => Option.some.inj he⟩
    | _ => exact (rfl : d = d)
  | markExchangeIssuing r =>
    cases h with
    | unavailable operation hf => exact .inl rfl
    | refused h => exact (rfl : d = d)
    | admitted row _ h => exact h
    | unacknowledged row _ h hf => exact .inr ⟨⟨some row,h⟩,fun e he => Option.some.inj he⟩
  | reserveRateSlot r =>
    cases h with
    | failed operation e h => exact .inl rfl
    | decided _ h => exact h
    | unacknowledged operation _ h hf => exact .inr ⟨⟨true,h⟩,fun e he => (by cases he)⟩

theorem Transaction.allOrNothing_of_run {cs : List Choice} {res : t.Result} {l : Session}
    (h : t.body.run (TxOp.handle E) cs (Session.fresh, d) = some (res, (l, d'))) : t.AllOrNothing E d d' res := by
  rw [← Program.Handler.restrict_true (TxOp.handle E)] at h
  exact (Transaction.run_outcome h).allOrNothing

/-- From wherever it has stopped, a transaction would come to its end without writing anything more if
the database failed it from then on. -/
lemma exists_run_failing (E : Environment) {α : Type} (p : Program TxOp TxOp.Ans α) (l : Session) (d : Database) :
    ∃ cs a l', p.run (TxOp.handle E) cs (l, d) = some (a, (l', d)) := by
  have hfail : ∀ o (s : Session × Database), s.2 = d → ∃ c a s', TxOp.handle E o c s = some (a, s') ∧ s'.2 = d := by
    rintro o ⟨l,d₁⟩ rfl
    refine ⟨{ fault := some .lost },?_⟩
    cases o with
    | commit => cases hl : l.aborted <;> exact ⟨_,_,by simp only [TxOp.handle,hl]; rfl,rfl⟩
    | execute s => exact ⟨.error .unavailable,(l.abort,d₁),by simp [TxOp.handle],rfl⟩
    | _ => exact ⟨_,_,rfl,rfl⟩
  obtain ⟨cs,a,⟨l',d₁⟩,hrun,rfl⟩ := Program.exists_run_keeping hfail p (s := (l,d)) rfl
  exact ⟨cs,a,l',hrun⟩

end Results

/-- Every transaction is atomic on every database. -/
theorem transaction_atomic (E : Environment) (t : Transaction) (d : Database) : t.Atomic E d where
  stops cs rest l d' h := by
    obtain ⟨ds,res,l',hrun⟩ := exists_run_failing E rest l d'
    have hall := Transaction.allOrNothing_of_run (Program.run_append (TxOp.handle E) h hrun)
    cases res with
    | ok v => exact .inr ⟨v,hall⟩
    | error error => exact hall.imp_right And.left
  returns cs v l d' h := Transaction.allOrNothing_of_run h
  fails cs error l d' h := Transaction.allOrNothing_of_run h

end LensoServiceAccount
