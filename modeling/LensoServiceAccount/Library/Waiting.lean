import Mathlib.Logic.Function.Basic
import Mathlib.Logic.Relation
import LensoServiceAccount.Library.Locking

/-! Who waits for whom. The interleaved semantics gives a statement all of its locks at once; here
it takes them one after the other and keeps what it has while it waits for the next. If the locks
that are waited for grow along every two waits, then no threads wait for each other in a circle. -/

namespace Waiting
variable {T L : Type} (holds wants : T → L → Prop)

/-- `i` waits for a lock of `j`. -/
structure On (i j : T) (lk : L) : Prop where
  ne : i ≠ j
  wants : wants i lk
  holds : holds j lk

def Waits (i j : T) : Prop := ∃ lk, On holds wants i j lk

variable {holds wants} {rank : L → ℕ}

end Waiting

section
variable {Op : Type} {Ans : Op → Type} {Tx : Type} {Res : Tx → Type} {TxOp : Type}
  {TxAns : TxOp → Type} {C TC σ τ L κ ρ : Type}

/-- How the statements of a store come to their locks: which ones a statement takes, and the
order in which it comes to them. -/
structure Store.Footprint (S : Store Op Ans Tx Res TxOp TxAns C TC σ τ L) where
  needs : TxOp → τ → σ → List L
  turn : L → ℕ
  covers : ∀ {o c l s a l' s'}, S.within o c (l, s) = some (a, (l', s')) → S.held l' ⊆ S.held l ++ needs o l s

/-- An interleaved run, and what every thread has already taken for its next statement. -/
structure Gradual (κ Op : Type) (Ans : Op → Type) (Tx : Type) (Res : Tx → Type) (TxOp : Type)
    (TxAns : TxOp → Type) (ρ σ τ L : Type) where
  config : LockedConfig κ Op Ans Tx Res TxOp TxAns ρ σ τ
  got : ℕ → List L

inductive GradualLabel (κ C TC L : Type) : Type
  | take (tid : ℕ) (lk : L)
  | step (l : LockedLabel κ C TC)

/-- What one step makes of the thread that takes it. -/
inductive LockedThread.Turn (S : Store Op Ans Tx Res TxOp TxAns C TC σ τ L) (s : σ) (i : ℕ) :
    LockedLabel κ C TC → LockedThread κ Op Ans Tx Res TxOp TxAns ρ τ →
      LockedThread κ Op Ans Tx Res TxOp TxAns ρ τ → σ → Prop
  | pool (call : κ) (o : Op) (next : Ans o → Program (Outer Op Tx) (Outer.Ans Ans Res) ρ) (c : C) (a : Ans o) (s' : σ)
      (h : S.pool o c s = some (a, s')) :
      Turn S s i (.pool i c) (.running call (.perform (.pool o) next)) (.running call (next a)) s'
  | enter (call : κ) (t : Tx) (next : Res t → Program (Outer Op Tx) (Outer.Ans Ans Res) ρ) (o : TxOp)
      (k : TxAns o → Program TxOp TxAns (Res t)) (h : S.body t = .perform o k) :
      Turn S s i (.enter i) (.running call (.perform (.transact t) next)) (.within call t next (.perform o k) S.fresh) s
  | within (call : κ) (t : Tx) (next : Res t → Program (Outer Op Tx) (Outer.Ans Ans Res) ρ) (o : TxOp)
      (k : TxAns o → Program TxOp TxAns (Res t)) (l : τ) (c : TC) (a : TxAns o) (l' : τ) (s' : σ) (o' : TxOp)
      (k' : TxAns o' → Program TxOp TxAns (Res t)) (h : S.within o c (l, s) = some (a, (l', s')))
      (ha : k a = .perform o' k') :
      Turn S s i (.within i c) (.within call t next (.perform o k) l) (.within call t next (.perform o' k') l') s'
  | finish (call : κ) (t : Tx) (next : Res t → Program (Outer Op Tx) (Outer.Ans Ans Res) ρ) (o : TxOp)
      (k : TxAns o → Program TxOp TxAns (Res t)) (l : τ) (c : TC) (a : TxAns o) (l' : τ) (s' : σ) (r : Res t)
      (h : S.within o c (l, s) = some (a, (l', s'))) (ha : k a = .pure r) :
      Turn S s i (.within i c) (.within call t next (.perform o k) l) (.running call (next r)) s'
  | reply (call : κ) (r : ρ) : Turn S s i (.reply i) (.running call (.pure r)) (.over call) s
  | stop (th : LockedThread κ Op Ans Tx Res TxOp TxAns ρ τ) (call : κ) : Turn S s i (.stop i) th (.over call) s

/-- A step adds a thread or is the turn of one. -/
theorem LockedConfig.step_turn [DecidableEq L] {S : Store Op Ans Tx Res TxOp TxAns C TC σ τ L}
    {main : κ → Program (Outer Op Tx) (Outer.Ans Ans Res) ρ} {c d : LockedConfig κ Op Ans Tx Res TxOp TxAns ρ σ τ}
    {l : LockedLabel κ C TC} (h : c.step S main l = some d) :
    (∃ call, l = .start call ∧ d.state = c.state ∧ d.threads = c.threads ++ [.running call (main call)]) ∨
      ∃ i th th', c.threads[i]? = some th ∧ d.threads = c.threads.set i th' ∧
        LockedThread.Turn S c.state i l th th' d.state := by
  cases l with
  | start call =>
    simp only [step,Option.some.injEq] at h
    subst h
    exact .inl ⟨call,rfl,rfl,rfl⟩
  | pool i ch =>
    simp only [step] at h
    split at h
    · next call o next hi =>
      split_ifs at h
      split at h
      · next a s hp =>
        simp only [Option.some.injEq] at h
        subst h
        exact .inr ⟨i,_,_,hi,rfl,.pool call o next ch a s hp⟩
      · cases h
    · cases h
  | enter i =>
    simp only [step] at h
    split at h
    · next call t next hi =>
      split at h
      · next o k hb =>
        simp only [Option.some.injEq] at h
        subst h
        exact .inr ⟨i,_,_,hi,rfl,.enter call t next o k hb⟩
      · cases h
    · cases h
  | within i ch =>
    simp only [step] at h
    split at h
    · next call t next o k l hi =>
      split at h
      · next a l' s' hw =>
        split_ifs at h
        split at h
        · next r hr =>
          simp only [Option.some.injEq] at h
          subst h
          exact .inr ⟨i,_,_,hi,rfl,.finish call t next o k l ch a l' s' r hw hr⟩
        · next o' k' hk =>
          simp only [Option.some.injEq] at h
          subst h
          exact .inr ⟨i,_,_,hi,rfl,.within call t next o k l ch a l' s' o' k' hw hk⟩
      · cases h
    · cases h
  | reply i =>
    simp only [step] at h
    split at h
    · next call r hi =>
      simp only [Option.some.injEq] at h
      subst h
      exact .inr ⟨i,_,_,hi,rfl,.reply call r⟩
    · cases h
  | stop i =>
    simp only [step] at h
    split at h
    · next call rest hi =>
      simp only [Option.some.injEq] at h
      subst h
      exact .inr ⟨i,_,_,hi,rfl,.stop _ call⟩
    · next call t next body l hi =>
      simp only [Option.some.injEq] at h
      subst h
      exact .inr ⟨i,_,_,hi,rfl,.stop _ call⟩
    · cases h

namespace Gradual

def init (s : σ) : Gradual κ Op Ans Tx Res TxOp TxAns ρ σ τ L := ⟨.init s,fun _ => []⟩

/-- The locks of a thread, those for its next statement included. -/
def held (f : τ → List L) (c : Gradual κ Op Ans Tx Res TxOp TxAns ρ σ τ L) (i : ℕ) : List L :=
  (c.config.threads[i]?.elim [] (LockedThread.held f)) ++ c.got i

variable [DecidableEq L] {S : Store Op Ans Tx Res TxOp TxAns C TC σ τ L} (F : S.Footprint)
  (main : κ → Program (Outer Op Tx) (Outer.Ans Ans Res) ρ)

/-- The locks that a transaction asks for next. -/
def wanted (c : Gradual κ Op Ans Tx Res TxOp TxAns ρ σ τ L) (i : ℕ) : List L :=
  match c.config.threads[i]? with
  | some (.within _ _ _ (.perform o _) l) =>
    (F.needs o l c.config.state).filter fun lk => !(c.held S.held i).contains lk &&
      (F.needs o l c.config.state).all fun lk' => decide (F.turn lk ≤ F.turn lk') || (c.held S.held i).contains lk'
  | _ => []

/-- No other thread has the lock. -/
def free (f : τ → List L) (c : Gradual κ Op Ans Tx Res TxOp TxAns ρ σ τ L) (i : ℕ) (lk : L) : Bool :=
  (List.range c.config.threads.length).all fun j => j == i || !(c.held f j).contains lk

/-- A statement is executed when it has all of its locks. -/
def ready (c : Gradual κ Op Ans Tx Res TxOp TxAns ρ σ τ L) : LockedLabel κ C TC → Bool
  | .pool i ch =>
    match c.config.threads[i]? with
    | some (.running _ (.perform (.pool o) _)) => (S.touched o ch c.config.state).all (c.free S.held i)
    | _ => true
  | .within i _ =>
    match c.config.threads[i]? with
    | some (.within _ _ _ (.perform o _) l) => (F.needs o l c.config.state).all fun lk => (c.held S.held i).contains lk
    | _ => true
  | _ => true

/-- What is left of the locks for the next statement: it has them now, or needs none any more. -/
def rest (c : Gradual κ Op Ans Tx Res TxOp TxAns ρ σ τ L) : LockedLabel κ C TC → ℕ → List L
  | .within i _ | .stop i => Function.update c.got i []
  | _ => c.got

def step (c : Gradual κ Op Ans Tx Res TxOp TxAns ρ σ τ L) :
    GradualLabel κ C TC L → Option (Gradual κ Op Ans Tx Res TxOp TxAns ρ σ τ L)
  | .take i lk =>
    if (c.wanted F i).contains lk && c.free S.held i lk then
      some { c with got := Function.update c.got i (lk :: c.got i) }
    else none
  | .step l =>
    if c.ready F l then
      match c.config.step S main l with
      | some d => some ⟨d,c.rest l⟩
      | none => none
    else none

def run (c : Gradual κ Op Ans Tx Res TxOp TxAns ρ σ τ L) :
    List (GradualLabel κ C TC L) → Option (Gradual κ Op Ans Tx Res TxOp TxAns ρ σ τ L)
  | [] => some c
  | l :: ls =>
    match c.step F main l with
    | some d => d.run ls
    | none => none

inductive Reachable (s : σ) : Gradual κ Op Ans Tx Res TxOp TxAns ρ σ τ L → Prop
  | init : Reachable s (init s)
  | tail {c d : Gradual κ Op Ans Tx Res TxOp TxAns ρ σ τ L} (l : GradualLabel κ C TC L) (h : Reachable s c)
      (hs : c.step F main l = some d) : Reachable s d

variable {F main} {c d : Gradual κ Op Ans Tx Res TxOp TxAns ρ σ τ L} {s : σ}

theorem Reachable.run {ls : List (GradualLabel κ C TC L)} (hc : Reachable F main s c) (h : c.run F main ls = some d) :
    Reachable F main s d := by
  induction ls generalizing c with
  | nil =>
    simp only [Gradual.run,Option.some.injEq] at h
    exact h ▸ hc
  | cons l ls ih =>
    simp only [Gradual.run] at h
    cases hs : c.step F main l with
    | none => simp [hs] at h
    | some e =>
      simp only [hs] at h
      exact ih (hc.tail l hs) h

omit [DecidableEq L] in
lemma held_of_within {i : ℕ} {call : κ} {t : Tx} {next : Res t → Program (Outer Op Tx) (Outer.Ans Ans Res) ρ}
    {body : Program TxOp TxAns (Res t)} {l : τ} (hi : c.config.threads[i]? = some (.within call t next body l)) :
    c.held S.held i = S.held l ++ c.got i := by
  rw [held,hi]
  rfl

lemma mem_wanted {i : ℕ} {lk : L} : lk ∈ c.wanted F i ↔ ∃ call t next o k l,
    c.config.threads[i]? = some (.within call t next (.perform o k) l) ∧ lk ∈ F.needs o l c.config.state ∧
      lk ∉ c.held S.held i ∧
      ∀ lk' ∈ F.needs o l c.config.state, F.turn lk' < F.turn lk → lk' ∈ c.held S.held i := by
  unfold wanted
  split
  · next call t next o k l hi =>
    simp only [List.mem_filter,Bool.and_eq_true,Bool.not_eq_true',List.contains_eq_mem,decide_eq_false_iff_not,
      List.all_eq_true,Bool.or_eq_true,decide_eq_true_eq]
    constructor
    · rintro ⟨hmem,hnot,hall⟩
      refine ⟨call,t,next,o,k,l,hi,hmem,hnot,fun lk' hlk' hlt => ?_⟩
      exact (hall lk' hlk').resolve_left (by omega)
    · rintro ⟨call',t',next',o',k',l',hi',hmem,hnot,hall⟩
      cases hi.symm.trans hi'
      refine ⟨hmem,hnot,fun lk' hlk' => ?_⟩
      by_cases hle : F.turn lk ≤ F.turn lk'
      · exact .inl hle
      · exact .inr (hall lk' hlk' (by omega))
  · next hno =>
    constructor
    · intro h
      cases h
    · rintro ⟨call,t,next,o,k,l,hi,-⟩
      exact absurd hi (hno call t next o k l)

lemma free_iff {f : τ → List L} {i : ℕ} {lk : L} :
    c.free f i lk = true ↔ ∀ j < c.config.threads.length, j ≠ i → lk ∉ c.held f j := by
  simp only [free,List.all_eq_true,List.mem_range,Bool.or_eq_true,beq_iff_eq,Bool.not_eq_true',List.contains_eq_mem,
    decide_eq_false_iff_not]
  constructor
  · intro h j hj hne
    exact (h j hj).resolve_left hne
  · intro h j hj
    by_cases hji : j = i
    · exact .inl hji
    · exact .inr (h j hj hji)

/-- A lock is taken, or there is a step of the run whose statement has its locks. -/
lemma step_cases {l : GradualLabel κ C TC L} (h : c.step F main l = some d) :
    (∃ i lk, l = .take i lk ∧ lk ∈ c.wanted F i ∧ c.free S.held i lk = true ∧
      d = ⟨c.config,Function.update c.got i (lk :: c.got i)⟩) ∨
      ∃ l', l = .step l' ∧ c.ready F l' = true ∧ c.config.step S main l' = some d.config ∧ d.got = c.rest l' := by
  cases l with
  | take i lk =>
    simp only [step] at h
    split_ifs at h with hw
    simp only [Option.some.injEq] at h
    simp only [Bool.and_eq_true,List.contains_eq_mem,decide_eq_true_eq] at hw
    exact .inl ⟨i,lk,rfl,hw.1,hw.2,h.symm⟩
  | step l' =>
    simp only [step] at h
    split_ifs at h with hr
    split at h
    · next d' hd =>
      simp only [Option.some.injEq] at h
      subst h
      exact .inr ⟨l',rfl,hr,hd,rfl⟩
    · cases h

/-- No lock is taken twice, and only transactions take locks in advance. -/
structure Apart (S : Store Op Ans Tx Res TxOp TxAns C TC σ τ L) (c : Gradual κ Op Ans Tx Res TxOp TxAns ρ σ τ L) :
    Prop where
  idle : ∀ i, c.got i ≠ [] → ∃ call t next body l, c.config.threads[i]? = some (.within call t next body l)
  exclusive : ∀ i j, i ≠ j → (c.held S.held i).Disjoint (c.held S.held j)

/-- A property of a transaction in progress, of its locks and of the shared state that lasts: it is
there at the beginning, the transaction keeps it, and so does whatever the others do while they
leave the locks alone. -/
structure Lasting (F : S.Footprint) (Agree : τ → σ → σ → Prop)
    (I : (t : Tx) → Program TxOp TxAns (Res t) → τ → List L → σ → Prop) : Prop where
  enter : ∀ {t o k s}, S.body t = .perform o k → I t (.perform o k) S.fresh [] s
  take : ∀ {t o k l ls s lk}, I t (.perform o k) l ls s → lk ∈ F.needs o l s → lk ∉ S.held l ++ ls →
    (∀ lk' ∈ F.needs o l s, F.turn lk' < F.turn lk → lk' ∈ S.held l ++ ls) → I t (.perform o k) l (lk :: ls) s
  exec : ∀ {t o k l ls s ch a l' s' o' k'}, I t (.perform o k) l ls s → S.within o ch (l, s) = some (a, (l', s')) →
    k a = .perform o' k' → I t (.perform o' k') l' [] s'
  other : ∀ {t p l ls s s'}, I t p l ls s → (∀ m, S.held m ⊆ S.held l ++ ls → Agree m s s') → I t p l ls s'

/-- What holds between the steps. -/
structure Kept (F : S.Footprint) (I : (t : Tx) → Program TxOp TxAns (Res t) → τ → List L → σ → Prop)
    (c : Gradual κ Op Ans Tx Res TxOp TxAns ρ σ τ L) : Prop where
  consistent : LockedConfig.Consistent S c.config
  apart : Apart S c
  lasting : ∀ (i : ℕ) call t next body l, c.config.threads[i]? = some (.within call t next body l) →
    I t body l (c.got i) c.config.state

section Keeping
variable {Agree : τ → σ → σ → Prop} {I : (t : Tx) → Program TxOp TxAns (Res t) → τ → List L → σ → Prop}

omit [DecidableEq L] in
lemma kept_init (s : σ) : Kept F I (init s : Gradual κ Op Ans Tx Res TxOp TxAns ρ σ τ L) where
  consistent := LockedConfig.consistent_init s
  apart := ⟨fun i h => absurd rfl h,fun i j _ => by simp [held,init,LockedConfig.init]⟩
  lasting i call t next body l h := by simp [init,LockedConfig.init] at h

lemma Kept.take (hI : Lasting F Agree I) (hc : Kept F I c) {i : ℕ} {lk : L} (hw : lk ∈ c.wanted F i)
    (hf : c.free S.held i lk = true) : Kept F I ⟨c.config,Function.update c.got i (lk :: c.got i)⟩ := by
  obtain ⟨call,t,next,o,k,l,hi,hmem,hnew,hturn⟩ := mem_wanted.mp hw
  have hfree : ∀ j, j ≠ i → lk ∉ c.held S.held j := by
    intro j hj hlk
    by_cases hlt : j < c.config.threads.length
    · exact free_iff.mp hf j hlt hj hlk
    · have hgot : c.got j ≠ [] := by
        intro hnil
        rw [held,List.getElem?_eq_none (by omega),hnil] at hlk
        cases hlk
      obtain ⟨_,_,_,_,_,hj'⟩ := hc.apart.idle j hgot
      exact hlt (List.getElem?_eq_some_iff.mp hj').1
  have hsame : ∀ j, j ≠ i → (⟨c.config,Function.update c.got i (lk :: c.got i)⟩ : Gradual ..).held S.held j =
      c.held S.held j := fun j hj => by simp [held,Function.update_of_ne hj]
  have hself : ∀ x, x ∈ (⟨c.config,Function.update c.got i (lk :: c.got i)⟩ : Gradual ..).held S.held i →
      x = lk ∨ x ∈ c.held S.held i := by
    intro x hx
    simp only [held,Function.update_self,List.mem_append,List.mem_cons] at hx ⊢
    tauto
  refine ⟨hc.consistent,⟨fun j hj => ?_,fun j j' hne x hx hx' => ?_⟩,fun j call' t' next' body l' hj => ?_⟩
  · by_cases hji : j = i
    · exact ⟨call,t,next,_,l,hji ▸ hi⟩
    · simp only [Function.update_of_ne hji] at hj
      exact hc.apart.idle j hj
  · by_cases hji : j = i
    · subst hji
      rw [hsame j' hne.symm] at hx'
      rcases hself x hx with rfl | hx
      · exact hfree j' hne.symm hx'
      · exact hc.apart.exclusive j j' hne hx hx'
    · rw [hsame j hji] at hx
      by_cases hji' : j' = i
      · subst hji'
        rcases hself x hx' with rfl | hx'
        · exact hfree j hji hx
        · exact hc.apart.exclusive j j' hne hx hx'
      · rw [hsame j' hji'] at hx'
        exact hc.apart.exclusive j j' hne hx hx'
  · by_cases hji : j = i
    · subst hji
      cases hi.symm.trans hj
      simp only [Function.update_self]
      rw [held_of_within hi] at hnew
      refine hI.take (hc.lasting j call t next _ l hi) hmem hnew ?_
      rw [← held_of_within (S := S) hi]
      exact hturn
    · simp only [Function.update_of_ne hji]
      exact hc.lasting j call' t' next' body l' hj

/-- The locks of a statement that is executed are those of its thread. -/
lemma covered {i : ℕ} {ch : TC} {call : κ} {t : Tx} {next : Res t → Program (Outer Op Tx) (Outer.Ans Ans Res) ρ} {o : TxOp}
    {k : TxAns o → Program TxOp TxAns (Res t)} {l l' : τ} {a : TxAns o} {s' : σ}
    (hr : c.ready F (.within i ch) = true) (hi : c.config.threads[i]? = some (.within call t next (.perform o k) l))
    (h : S.within o ch (l, c.config.state) = some (a, (l', s'))) : S.held l' ⊆ c.held S.held i := by
  intro x hx
  simp only [ready,hi,List.all_eq_true,List.contains_eq_mem,decide_eq_true_eq] at hr
  rcases List.mem_append.mp (F.covers h hx) with hx | hx
  · rw [held_of_within hi]
    exact List.mem_append_left _ hx
  · exact hr x hx

/-- A turn leaves a thread no locks that it has not had. -/
lemma held_turn (hd : S.Disciplined Agree) (l : LockedLabel κ C TC) {i : ℕ}
    {th th' : LockedThread κ Op Ans Tx Res TxOp TxAns ρ τ} (hi : c.config.threads[i]? = some th)
    (hr : c.ready F l = true) {s' : σ} (ht : LockedThread.Turn S c.config.state i l th th' s') :
    th'.held S.held ++ c.rest l i ⊆ c.held S.held i := by
  cases ht with
  | pool call o next ch a s' h => simp [rest,held,hi,LockedThread.held]
  | enter call t next o k h => simp [rest,held,hi,LockedThread.held,hd.unlocked]
  | within call t next o k l ch a l' s' o' k' h ha => simpa [rest,LockedThread.held] using covered hr hi h
  | finish call t next o k l ch a l' s' r h ha => simp [rest,LockedThread.held]
  | reply call r => simp [rest,held,hi,LockedThread.held]
  | stop _ call => simp [rest,LockedThread.held]

omit [DecidableEq L] in
lemma rest_of_ne {l : LockedLabel κ C TC} {i j : ℕ} {th th' : LockedThread κ Op Ans Tx Res TxOp TxAns ρ τ} {s s' : σ}
    (ht : LockedThread.Turn S s i l th th' s') (hj : j ≠ i) : c.rest l j = c.got j := by
  cases ht <;> simp [rest,Function.update_of_ne hj]

/-- The others do not see what a turn does. -/
lemma agree_of_turn (hd : S.Disciplined Agree) (hc : Kept F I c) {l : LockedLabel κ C TC} {i j : ℕ} {m : τ}
    {th th' : LockedThread κ Op Ans Tx Res TxOp TxAns ρ τ} (hi : c.config.threads[i]? = some th)
    (hr : c.ready F l = true) {s' : σ} (ht : LockedThread.Turn S c.config.state i l th th' s') (hj : j ≠ i)
    (hlt : j < c.config.threads.length) (hm : S.held m ⊆ c.held S.held j) : Agree m c.config.state s' := by
  cases ht with
  | pool call o next ch a s' h =>
    refine hd.pool h fun x hx hx' => ?_
    simp only [ready,hi,List.all_eq_true] at hr
    exact free_iff.mp (hr x hx') j hlt hj (hm hx)
  | within call t next o k l ch a l' s' o' k' h ha =>
    obtain ⟨cs,o₁,k₁,hbody,hadv⟩ := hc.consistent.replay i call t next _ l hi
    cases hbody
    exact hd.statement hadv h fun x hx hx' => hc.apart.exclusive j i hj (hm hx) (covered hr hi h hx')
  | finish call t next o k l ch a l' s' r h ha =>
    obtain ⟨cs,o₁,k₁,hbody,hadv⟩ := hc.consistent.replay i call t next _ l hi
    cases hbody
    exact hd.statement hadv h fun x hx hx' => hc.apart.exclusive j i hj (hm hx) (covered hr hi h hx')
  | _ => exact hd.same m _

omit [DecidableEq L] in
lemma Kept.started (hc : Kept F I c) {l : LockedLabel κ C TC} {call : κ} (hl : l = .start call)
    (hcons : LockedConfig.Consistent S d.config) (hs : d.config.state = c.config.state)
    (ht : d.config.threads = c.config.threads ++ [.running call (main call)]) (hg : d.got = c.rest l) : Kept F I d := by
  subst hl
  have hgot : d.got = c.got := hg
  have hheld : ∀ i, d.held S.held i ⊆ c.held S.held i := by
    intro i
    simp only [held,hgot,ht,List.getElem?_append]
    split_ifs with hlt
    · exact fun _ h => h
    · rw [List.getElem?_eq_none (by omega : c.config.threads.length ≤ i)]
      cases i - c.config.threads.length <;> simp [LockedThread.held]
  refine ⟨hcons,⟨fun i hi => ?_,fun i j hne x hx hx' => hc.apart.exclusive i j hne (hheld i hx) (hheld j hx')⟩,?_⟩
  · rw [hgot] at hi
    obtain ⟨call',t,next,body,l,hth⟩ := hc.apart.idle i hi
    refine ⟨call',t,next,body,l,?_⟩
    rw [ht,List.getElem?_append_left (List.getElem?_eq_some_iff.mp hth).1,hth]
  · intro i call' t next body l hi
    rw [ht] at hi
    rw [hs,hgot]
    by_cases hlt : i < c.config.threads.length
    · rw [List.getElem?_append_left hlt] at hi
      exact hc.lasting i call' t next body l hi
    · rw [List.getElem?_append_right (by omega)] at hi
      cases hk : i - c.config.threads.length <;> simp [hk] at hi

lemma Kept.turned (hd : S.Disciplined Agree) (hI : Lasting F Agree I) (hc : Kept F I c) {l : LockedLabel κ C TC} {i : ℕ}
    {th th' : LockedThread κ Op Ans Tx Res TxOp TxAns ρ τ} (hi : c.config.threads[i]? = some th)
    (hr : c.ready F l = true) (hcons : LockedConfig.Consistent S d.config)
    (hset : d.config.threads = c.config.threads.set i th') (hg : d.got = c.rest l)
    (ht : LockedThread.Turn S c.config.state i l th th' d.config.state) : Kept F I d := by
  have hlt : i < c.config.threads.length := (List.getElem?_eq_some_iff.mp hi).1
  have hself : d.config.threads[i]? = some th' := by rw [hset,List.getElem?_set_self hlt]
  have hother : ∀ j, j ≠ i → d.config.threads[j]? = c.config.threads[j]? := fun j hj => by
    rw [hset,List.getElem?_set_ne hj.symm]
  have hgot : ∀ j, j ≠ i → d.got j = c.got j := fun j hj => by rw [hg,rest_of_ne ht hj]
  have hheld : ∀ j, d.held S.held j ⊆ c.held S.held j := by
    intro j
    by_cases hji : j = i
    · subst hji
      rw [held,hself,hg]
      exact held_turn hd l hi hr ht
    · rw [held,hother j hji,hgot j hji]
      exact fun _ h => h
  have hidle : (∀ call t next body l, th ≠ .within call t next body l) → c.got i = [] := by
    intro hno
    by_contra hne
    obtain ⟨call,t,next,body,l,hth⟩ := hc.apart.idle i hne
    exact hno call t next body l (Option.some.inj (hi.symm.trans hth))
  refine ⟨hcons,⟨fun j hj => ?_,fun j j' hne x hx hx' => hc.apart.exclusive j j' hne (hheld j hx) (hheld j' hx')⟩,?_⟩
  · by_cases hji : j = i
    · subst hji
      rw [hg] at hj
      generalize d.config.state = s' at ht
      cases ht with
      | pool call o next ch a s' h => exact absurd (hidle fun _ _ _ _ _ h => by cases h) hj
      | enter call t next o k h => exact ⟨call,t,next,_,_,hself⟩
      | within call t next o k l ch a l' s' o' k' h ha => exact absurd (by simp [rest]) hj
      | finish call t next o k l ch a l' s' r h ha => exact absurd (by simp [rest]) hj
      | reply call r => exact absurd (hidle fun _ _ _ _ _ h => by cases h) hj
      | stop _ call => exact absurd (by simp [rest]) hj
    · rw [hgot j hji] at hj
      rw [hother j hji]
      exact hc.apart.idle j hj
  · intro j call t next body l₁ hj
    by_cases hji : j = i
    · subst hji
      have hth := Option.some.inj (hself.symm.trans hj)
      rw [hg]
      generalize d.config.state = s' at ht ⊢
      cases ht with
      | enter call' t' next' o k h =>
        cases hth
        rw [show c.rest (.enter j : LockedLabel κ C TC) j = [] from hidle fun _ _ _ _ _ h => by cases h]
        exact hI.enter h
      | within call' t' next' o k l ch a l' s' o' k' h ha =>
        cases hth
        rw [show c.rest (.within j ch : LockedLabel κ C TC) j = [] by simp [rest]]
        exact hI.exec (hc.lasting j call t next _ l hi) h ha
      | _ => cases hth
    · rw [hother j hji] at hj
      rw [hgot j hji]
      refine hI.other (hc.lasting j call t next body l₁ hj) fun m hm => ?_
      rw [← held_of_within (S := S) hj] at hm
      exact agree_of_turn hd hc hi hr ht hji (List.getElem?_eq_some_iff.mp hj).1 hm

/-- What lasts in every transaction holds in every state that can be reached. -/
theorem Reachable.kept (hd : S.Disciplined Agree) (hI : Lasting F Agree I) (hc : Reachable F main s c) : Kept F I c := by
  induction hc with
  | init => exact kept_init s
  | tail l _ hs ih =>
    rcases step_cases hs with ⟨i,lk,-,hw,hf,rfl⟩ | ⟨l',-,hr,hstep,hg⟩
    · exact ih.take hI hw hf
    · have hcons := (ih.consistent.step hd hstep).1
      rcases LockedConfig.step_turn hstep with ⟨call,hl,hst,ht⟩ | ⟨i,th,th',hi,hset,ht⟩
      · exact ih.started hl hcons hst ht hg
      · exact ih.turned hd hI hi hr hcons hset hg ht

end Keeping

end Gradual
end
