import LensoServiceAccount.Library.Relational
import LensoServiceAccount.Effect

/-! Rules for the same code in two sessions, over databases that are related and answered by the same
choices. -/

namespace LensoServiceAccount
open TxM

/-- Two sessions that began together, over related databases, with related views of them. -/
structure SameSession (R : Database → Database → Prop) (x x' : Session × Database) : Prop where
  startedAt : x.1.startedAt = x'.1.startedAt
  aborted : x.1.aborted = x'.1.aborted
  shared : R x.2 x'.2
  view : R (x.1.view x.2) (x'.1.view x'.2)

/-- Inside a transaction both sides go on together. -/
abbrev Together (E : Environment) {α : Type} (p : TxM α)
    (Q : Except ServiceAccountPluginError α → Except ServiceAccountPluginError α → Session × Database →
      Session × Database → Prop) (x x' : Session × Database) : Prop :=
  Program.Both (TxOp.handle E) (TxOp.handle E) p.run p.run Q x x'

/-- Both sides end alike. -/
def EndAlike (R : Database → Database → Prop) {α : Type} (r r' : α) (x x' : Session × Database) : Prop :=
  r = r' ∧ R x.2 x'.2

section Rules
variable {E : Environment} {R : Database → Database → Prop} {α : Type} {operation : String}
  {x x' : Session × Database}

lemma SameSession.fresh {d d' : Database} (h : R d d') : SameSession R (Session.fresh, d) (Session.fresh, d') :=
  ⟨rfl,rfl,h,h⟩

lemma SameSession.abort (h : SameSession R x x') : SameSession R (x.1.abort, x.2) (x'.1.abort, x'.2) :=
  ⟨h.startedAt,rfl,h.shared,h.view⟩

theorem together_begin
    {Q : Except ServiceAccountPluginError Unit → Except ServiceAccountPluginError Unit → Session × Database →
      Session × Database → Prop} (h : SameSession R x x') (hQ : ∀ r y y', SameSession R y y' → Q r r y y') :
    Together E (begin operation) Q x x' := by
  apply Program.Both.performed
  intro c a t hc
  simp only [TxOp.handle] at hc ⊢
  cases hf : c.fault with
  | some f =>
    simp only [hf,Option.some.injEq,Prod.mk.injEq] at hc ⊢
    obtain ⟨rfl,rfl⟩ := hc
    exact ⟨_,⟨rfl,rfl⟩,hQ _ _ _ h.abort⟩
  | none =>
    simp only [hf,Option.some.injEq,Prod.mk.injEq] at hc ⊢
    obtain ⟨rfl,rfl⟩ := hc
    exact ⟨_,⟨rfl,rfl⟩,hQ _ _ _ ⟨rfl,h.aborted,h.shared,h.view⟩⟩

/-- A statement that the two views answer alike, and whose writes keep them related. -/
theorem together_statement {s : TxStatement}
    {Q : Except ServiceAccountPluginError s.Answer → Except ServiceAccountPluginError s.Answer →
      Session × Database → Session × Database → Prop} (h : SameSession R x x')
    (hs : ∀ t, s.execute E.collation t (x'.1.view x'.2) = s.execute E.collation t (x.1.view x.2))
    (hw : ∀ t a ws, s.execute E.collation t (x.1.view x.2) = .ok (a, ws) →
      R ((x.1.view x.2).apply ws) ((x'.1.view x'.2).apply ws))
    (hfail : ∀ e y y', SameSession R y y' → Q (.error e) (.error e) y y')
    (hok : ∀ a ws y y', SameSession R y y' →
      s.execute E.collation x.1.startedAt (x.1.view x.2) = .ok (a, ws) →
      y.1.view y.2 = (x.1.view x.2).apply ws → Q (.ok a) (.ok a) y y') :
    Together E (statement operation s) Q x x' := by
  apply Program.Both.performed
  intro c a t hc
  simp only [TxOp.handle] at hc ⊢
  by_cases hb : (x.1.aborted || c.fault.isSome) = true
  · rw [if_pos hb] at hc
    rw [if_pos (h.aborted ▸ hb)]
    simp only [Option.some.injEq,Prod.mk.injEq] at hc ⊢
    obtain ⟨rfl,rfl⟩ := hc
    exact ⟨_,⟨rfl,rfl⟩,hfail _ _ _ h.abort⟩
  · rw [if_neg hb] at hc
    rw [if_neg (h.aborted ▸ hb),← h.startedAt,hs]
    cases hx : s.execute E.collation x.1.startedAt (x.1.view x.2) with
    | error e =>
      simp only [hx,Option.some.injEq,Prod.mk.injEq] at hc ⊢
      obtain ⟨rfl,rfl⟩ := hc
      exact ⟨_,⟨rfl,rfl⟩,hfail _ _ _ ⟨rfl,rfl,h.shared,h.view⟩⟩
    | ok r =>
      simp only [hx,Option.some.injEq,Prod.mk.injEq] at hc ⊢
      obtain ⟨rfl,rfl⟩ := hc
      refine ⟨_,⟨rfl,rfl⟩,hok _ _ _ _ ⟨rfl,h.aborted,h.shared,?_⟩ hx ?_⟩
      · simp only [Session.view,Database.apply_append]
        exact hw _ _ _ hx
      · simp only [Session.view,Database.apply_append]

theorem together_commit
    {Q : Except ServiceAccountPluginError Unit → Except ServiceAccountPluginError Unit → Session × Database →
      Session × Database → Prop} (h : SameSession R x x') (hQ : ∀ r y y', R y.2 y'.2 → Q r r y y') :
    Together E (commit operation) Q x x' := by
  apply Program.Both.performed
  intro c a t hc
  simp only [TxOp.handle] at hc ⊢
  by_cases hb : x.1.aborted = true
  · rw [if_pos hb] at hc
    rw [if_pos (h.aborted ▸ hb)]
    simp only [Option.some.injEq,Prod.mk.injEq] at hc ⊢
    obtain ⟨rfl,rfl⟩ := hc
    exact ⟨_,⟨rfl,rfl⟩,hQ _ _ _ h.shared⟩
  · rw [if_neg hb] at hc
    rw [if_neg (h.aborted ▸ hb)]
    rcases hf : c.fault with _ | (_ | _) <;> simp only [hf,Option.some.injEq,Prod.mk.injEq] at hc ⊢ <;>
      obtain ⟨rfl,rfl⟩ := hc
    · exact ⟨_,⟨rfl,rfl⟩,hQ _ _ _ h.view⟩
    · exact ⟨_,⟨rfl,rfl⟩,hQ _ _ _ h.shared⟩
    · exact ⟨_,⟨rfl,rfl⟩,hQ _ _ _ h.view⟩

theorem together_rollback
    {Q : Except ServiceAccountPluginError Unit → Except ServiceAccountPluginError Unit → Session × Database →
      Session × Database → Prop} (hQ : ∀ r, Q r r x x') : Together E (rollback operation) Q x x' := by
  apply Program.Both.performed
  intro c a t hc
  simp only [TxOp.handle] at hc ⊢
  cases hf : c.fault <;> simp only [hf,Option.some.injEq,Prod.mk.injEq] at hc ⊢ <;> obtain ⟨rfl,rfl⟩ := hc <;>
    exact ⟨_,⟨rfl,rfl⟩,hQ _⟩

theorem together_nowUtc
    {Q : Except ServiceAccountPluginError Time → Except ServiceAccountPluginError Time → Session × Database →
      Session × Database → Prop} (hQ : ∀ t, Q (.ok t) (.ok t) x x') : Together E nowUtc Q x x' := by
  apply Program.Both.performed
  intro c a t hc
  simp only [TxOp.handle,Option.some.injEq,Prod.mk.injEq] at hc ⊢
  obtain ⟨rfl,rfl⟩ := hc
  exact ⟨_,⟨rfl,rfl⟩,hQ _⟩

theorem together_entropy {p : Entropy ServiceAccountPluginError α}
    {Q : Except ServiceAccountPluginError α → Except ServiceAccountPluginError α → Session × Database →
      Session × Database → Prop} (hQ : ∀ r, Q r r x x') : Together E (entropy p) Q x x' := by
  refine (Program.Both.translated (R := fun y y' => y = x ∧ y' = x') ?_ p.run ⟨rfl,rfl⟩).mono ?_
  · rintro count c a _ _ t ⟨rfl,rfl⟩ hc
    simp only [TxOp.handle,Option.some.injEq,Prod.mk.injEq] at hc ⊢
    obtain ⟨rfl,rfl⟩ := hc
    exact ⟨_,⟨rfl,rfl⟩,rfl,rfl⟩
  · rintro r _ _ _ ⟨rfl,rfl,rfl⟩
    exact hQ r

end Rules

/-- A transaction whose two sides end alike, as one operation. -/
theorem serial_of_together {E : Environment} {tx : Transaction} {p : TxM tx.Value} (hp : tx.body = p.run)
    {R : Database → Database → Prop} {d d' t : Database}
    (h : Together E p (EndAlike R) (Session.fresh, d) (Session.fresh, d')) {cs : List Choice} {res : tx.Result}
    (hx : (store E).serial (.transact tx) (.inr cs) d = some (res, t)) :
    ∃ t', (store E).serial (.transact tx) (.inr cs) d' = some (res, t') ∧ R t t' := by
  simp only [Store.serial,store,hp] at hx ⊢
  cases hr : p.run.run (TxOp.handle E) cs (Session.fresh, d) with
  | none => simp [hr] at hx
  | some r =>
    obtain ⟨b,y',hr',rfl,hR⟩ := h.run hr
    simp only [hr,Option.some.injEq,Prod.mk.injEq] at hx
    obtain ⟨rfl,rfl⟩ := hx
    exact ⟨y'.2,by simp only [hr'],hR⟩

end LensoServiceAccount
