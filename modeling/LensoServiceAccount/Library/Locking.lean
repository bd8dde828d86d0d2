import Mathlib.Data.List.Lattice
import LensoServiceAccount.Library.Interleaving

/-! Transactions over a shared state. In the serial semantics a transaction is one operation;
in the interleaved semantics its statements are steps of their own, which see the shared
state of that moment and hold locks to the end of the transaction. Under a locking discipline
every interleaved run is a serial run with the same history. -/

/-- An operation of its own, or a whole transaction. -/
inductive Outer (Op Tx : Type) : Type
  | pool (o : Op)
  | transact (t : Tx)

abbrev Outer.Ans {Op Tx : Type} (Ans : Op → Type) (Res : Tx → Type) : Outer Op Tx → Type
  | .pool o => Ans o
  | .transact t => Res t

/-- A shared state with single operations and transactions. The statements of a transaction
work on its locals `τ` and on the shared state, and `held` reads the locks off the locals. -/
structure Store (Op : Type) (Ans : Op → Type) (Tx : Type) (Res : Tx → Type) (TxOp : Type)
    (TxAns : TxOp → Type) (C TC σ τ L : Type) where
  pool : Program.Handler Op Ans C σ
  within : Program.Handler TxOp TxAns TC (τ × σ)
  body : (t : Tx) → Program TxOp TxAns (Res t)
  fresh : τ
  held : τ → List L
  touched : (o : Op) → C → σ → List L

/-- A call between operations, inside a transaction, or over. -/
inductive LockedThread (κ Op : Type) (Ans : Op → Type) (Tx : Type) (Res : Tx → Type)
    (TxOp : Type) (TxAns : TxOp → Type) (ρ τ : Type) : Type
  | running (call : κ) (rest : Program (Outer Op Tx) (Outer.Ans Ans Res) ρ)
  | within (call : κ) (t : Tx) (next : Res t → Program (Outer Op Tx) (Outer.Ans Ans Res) ρ)
      (body : Program TxOp TxAns (Res t)) (locals : τ)
  | over (call : κ)

structure LockedConfig (κ Op : Type) (Ans : Op → Type) (Tx : Type) (Res : Tx → Type)
    (TxOp : Type) (TxAns : TxOp → Type) (ρ σ τ : Type) where
  state : σ
  threads : List (LockedThread κ Op Ans Tx Res TxOp TxAns ρ τ)
  trace : List (Event κ (Outer Op Tx) (Outer.Ans Ans Res) ρ σ)

/-- What the scheduler and the environment decide, statement by statement. -/
inductive LockedLabel (κ C TC : Type) : Type
  | start (call : κ)
  | pool (tid : ℕ) (choice : C)
  | enter (tid : ℕ)
  | within (tid : ℕ) (choice : TC)
  | reply (tid : ℕ)
  | stop (tid : ℕ)

section
variable {Op : Type} {Ans : Op → Type} {Tx : Type} {Res : Tx → Type} {TxOp : Type}
  {TxAns : TxOp → Type} {C TC σ τ L κ ρ : Type}

namespace LockedThread

/-- The locks that a thread holds. -/
def held (f : τ → List L) : LockedThread κ Op Ans Tx Res TxOp TxAns ρ τ → List L
  | .within _ _ _ _ l => f l
  | _ => []

/-- The call of a thread, its transaction not yet begun. -/
def serial : LockedThread κ Op Ans Tx Res TxOp TxAns ρ τ →
    Thread κ (Outer Op Tx) (Outer.Ans Ans Res) ρ
  | .running call rest => .running call rest
  | .within call t next _ _ => .running call (.perform (.transact t) next)
  | .over call => .over call

end LockedThread

namespace Store
variable (S : Store Op Ans Tx Res TxOp TxAns C TC σ τ L)

/-- A transaction as one operation: its body runs to the end without interruption. -/
def serial : Program.Handler (Outer Op Tx) (Outer.Ans Ans Res) (C ⊕ List TC) σ
  | .pool o, .inl c, s => S.pool o c s
  | .transact t, .inr cs, s =>
    match (S.body t).run S.within cs (S.fresh, s) with
    | some (r, (_, s')) => some (r, s')
    | none => none
  | .pool _, .inr _, _ => none
  | .transact _, .inl _, _ => none

end Store

namespace LockedConfig

def init (s : σ) : LockedConfig κ Op Ans Tx Res TxOp TxAns ρ σ τ := ⟨s,[],[]⟩

/-- The serial configuration: every unfinished transaction is still to come. -/
def serial (c : LockedConfig κ Op Ans Tx Res TxOp TxAns ρ σ τ) :
    Config κ (Outer Op Tx) (Outer.Ans Ans Res) ρ σ :=
  ⟨c.state,c.threads.map LockedThread.serial,c.trace⟩

/-- No thread but `tid` holds any of the locks. -/
def unblocked [DecidableEq L] (f : τ → List L)
    (threads : List (LockedThread κ Op Ans Tx Res TxOp TxAns ρ τ)) (tid : ℕ) (ls : List L) : Bool :=
  threads.zipIdx.all fun th => th.2 == tid || (th.1.held f).all fun l => !ls.contains l

def advance (c : LockedConfig κ Op Ans Tx Res TxOp TxAns ρ σ τ) (tid : ℕ) (call : κ)
    (action : Act (Outer Op Tx) (Outer.Ans Ans Res) ρ) (s : σ)
    (t : LockedThread κ Op Ans Tx Res TxOp TxAns ρ τ) :
    LockedConfig κ Op Ans Tx Res TxOp TxAns ρ σ τ where
  state := s
  threads := c.threads.set tid t
  trace := ⟨tid,call,action,c.state,s⟩ :: c.trace

/-- One step of the interleaved semantics. A statement waits for the locks of others, and a
transaction enters the history in the step that ends it. -/
def step [DecidableEq L] (S : Store Op Ans Tx Res TxOp TxAns C TC σ τ L)
    (main : κ → Program (Outer Op Tx) (Outer.Ans Ans Res) ρ)
    (c : LockedConfig κ Op Ans Tx Res TxOp TxAns ρ σ τ) :
    LockedLabel κ C TC → Option (LockedConfig κ Op Ans Tx Res TxOp TxAns ρ σ τ)
  | .start call => some
      { state := c.state
        threads := c.threads ++ [.running call (main call)]
        trace := ⟨c.threads.length,call,.start,c.state,c.state⟩ :: c.trace }
  | .pool tid choice =>
    match c.threads[tid]? with
    | some (.running call (.perform (.pool o) next)) =>
      if unblocked S.held c.threads tid (S.touched o choice c.state) then
        match S.pool o choice c.state with
        | some (a, s) =>
          some (c.advance tid call (.perform (.pool o) a) s (.running call (next a)))
        | none => none
      else none
    | _ => none
  | .enter tid =>
    match c.threads[tid]? with
    | some (.running call (.perform (.transact t) next)) =>
      match S.body t with
      | .perform o k => some { c with
          threads := c.threads.set tid (.within call t next (.perform o k) S.fresh) }
      | .pure _ => none
    | _ => none
  | .within tid choice =>
    match c.threads[tid]? with
    | some (.within call t next (.perform o k) l) =>
      match S.within o choice (l, c.state) with
      | some (a, (l', s')) =>
        if unblocked S.held c.threads tid (S.held l') then
          match k a with
          | .pure r =>
            some (c.advance tid call (.perform (.transact t) r) s' (.running call (next r)))
          | .perform o' k' => some { c with
              state := s'
              threads := c.threads.set tid (.within call t next (.perform o' k') l') }
        else none
      | none => none
    | _ => none
  | .reply tid =>
    match c.threads[tid]? with
    | some (.running call (.pure r)) => some (c.advance tid call (.reply r) c.state (.over call))
    | _ => none
  | .stop tid =>
    match c.threads[tid]? with
    | some (.running call _) => some (c.advance tid call .stop c.state (.over call))
    | some (.within call _ _ _ _) => some (c.advance tid call .stop c.state (.over call))
    | _ => none

def run [DecidableEq L] (S : Store Op Ans Tx Res TxOp TxAns C TC σ τ L)
    (main : κ → Program (Outer Op Tx) (Outer.Ans Ans Res) ρ)
    (c : LockedConfig κ Op Ans Tx Res TxOp TxAns ρ σ τ) :
    List (LockedLabel κ C TC) → Option (LockedConfig κ Op Ans Tx Res TxOp TxAns ρ σ τ)
  | [] => some c
  | l :: ls =>
    match c.step S main l with
    | some d => d.run S main ls
    | none => none

section
variable [DecidableEq L] (S : Store Op Ans Tx Res TxOp TxAns C TC σ τ L)
  (main : κ → Program (Outer Op Tx) (Outer.Ans Ans Res) ρ)

inductive Leads (c : LockedConfig κ Op Ans Tx Res TxOp TxAns ρ σ τ) :
    LockedConfig κ Op Ans Tx Res TxOp TxAns ρ σ τ → Prop
  | refl : Leads c c
  | tail {d e : LockedConfig κ Op Ans Tx Res TxOp TxAns ρ σ τ} (l : LockedLabel κ C TC)
      (h : Leads c d) (hs : d.step S main l = some e) : Leads c e

def Reachable (s : σ) (c : LockedConfig κ Op Ans Tx Res TxOp TxAns ρ σ τ) : Prop :=
  Leads S main (init s) c

variable {S main}

theorem Leads.trans {c d e : LockedConfig κ Op Ans Tx Res TxOp TxAns ρ σ τ}
    (h : Leads S main c d) (h' : Leads S main d e) : Leads S main c e := by
  induction h' with
  | refl => exact h
  | tail l _ hs ih => exact ih.tail l hs

theorem leads_of_run {c d : LockedConfig κ Op Ans Tx Res TxOp TxAns ρ σ τ}
    {ls : List (LockedLabel κ C TC)} (h : c.run S main ls = some d) : Leads S main c d := by
  induction ls generalizing c with
  | nil => cases h; exact .refl
  | cons l ls ih =>
    simp only [run] at h
    cases hs : c.step S main l with
    | none => simp [hs] at h
    | some e =>
      simp only [hs] at h
      exact (Leads.refl.tail l hs).trans (ih h)

end

lemma unblocked_iff [DecidableEq L] {f : τ → List L}
    {threads : List (LockedThread κ Op Ans Tx Res TxOp TxAns ρ τ)} {tid : ℕ} {ls : List L} :
    unblocked f threads tid ls = true ↔
      ∀ j th, threads[j]? = some th → j ≠ tid → (th.held f).Disjoint ls := by
  simp only [unblocked,List.all_eq_true,Bool.or_eq_true,beq_iff_eq,Bool.not_eq_true',
    List.contains_eq_mem,decide_eq_false_iff_not,Prod.forall,List.mk_mem_zipIdx_iff_getElem?]
  constructor
  · intro h j th hj hne l hl
    exact (h th j hj).resolve_left hne l hl
  · intro h th j hj
    by_cases hjt : j = tid
    · exact .inl hjt
    · exact .inr fun l hl hm => h j th hj hjt hl hm

end LockedConfig

/-- The locking discipline. `Agree m s s'` says that `s'` looks like `s` to a transaction with
locals `m`: everything it has read or is going to overwrite is still the same. -/
structure Store.Disciplined (S : Store Op Ans Tx Res TxOp TxAns C TC σ τ L)
    (Agree : τ → σ → σ → Prop) : Prop where
  unlocked : S.held S.fresh = []
  same : ∀ m s, Agree m s s
  frame : ∀ {t cs s o k l s'},
    (S.body t).advance S.within cs (S.fresh, s) = some (.perform o k, (l, s')) → s' = s
  stable : ∀ {t cs s o k l s'},
    (S.body t).advance S.within cs (S.fresh, s) = some (.perform o k, (l, s)) → Agree l s s' →
    (S.body t).advance S.within cs (S.fresh, s') = some (.perform o k, (l, s'))
  statement : ∀ {t cs s o k l c a l' s' m},
    (S.body t).advance S.within cs (S.fresh, s) = some (.perform o k, (l, s)) →
    S.within o c (l, s) = some (a, (l', s')) → (S.held m).Disjoint (S.held l') → Agree m s s'
  pool : ∀ {o c s a s' m}, S.pool o c s = some (a, s') →
    (S.held m).Disjoint (S.touched o c s) → Agree m s s'

namespace LockedConfig

/-- What holds between the steps of an interleaved run: every unfinished transaction could
just as well have run on the shared state of now, and no lock is held twice. -/
structure Consistent (S : Store Op Ans Tx Res TxOp TxAns C TC σ τ L)
    (c : LockedConfig κ Op Ans Tx Res TxOp TxAns ρ σ τ) : Prop where
  replay : ∀ (i : ℕ) call t next body l, c.threads[i]? = some (.within call t next body l) →
    ∃ cs o k, body = .perform o k ∧
      (S.body t).advance S.within cs (S.fresh, c.state) = some (body, (l, c.state))
  exclusive : ∀ (i j : ℕ) ti tj, i ≠ j → c.threads[i]? = some ti → c.threads[j]? = some tj →
    (ti.held S.held).Disjoint (tj.held S.held)

section
variable {S : Store Op Ans Tx Res TxOp TxAns C TC σ τ L} {Agree : τ → σ → σ → Prop}
  {main : κ → Program (Outer Op Tx) (Outer.Ans Ans Res) ρ}

theorem consistent_init (s : σ) :
    Consistent S (init s : LockedConfig κ Op Ans Tx Res TxOp TxAns ρ σ τ) where
  replay i call t next body l h := by simp [init] at h
  exclusive i j ti tj hij h := by simp [init] at h

/-- Replacing one thread and the shared state keeps a configuration consistent when the new
thread is, the other transactions do not see the change and its locks are its own. -/
lemma Consistent.set (hd : S.Disciplined Agree)
    {c : LockedConfig κ Op Ans Tx Res TxOp TxAns ρ σ τ} (hc : Consistent S c) {i : ℕ}
    {old : LockedThread κ Op Ans Tx Res TxOp TxAns ρ τ} (hi : c.threads[i]? = some old) (s : σ)
    (t : LockedThread κ Op Ans Tx Res TxOp TxAns ρ τ)
    (tr : List (Event κ (Outer Op Tx) (Outer.Ans Ans Res) ρ σ))
    (hold : ∀ j th call tx next body l, j ≠ i → c.threads[j]? = some th →
      th = .within call tx next body l → Agree l c.state s)
    (hnew : ∀ call tx next body l, t = .within call tx next body l → ∃ cs o k,
      body = .perform o k ∧ (S.body tx).advance S.within cs (S.fresh, s) = some (body, (l, s)))
    (hlocks : ∀ j th, c.threads[j]? = some th → j ≠ i → (th.held S.held).Disjoint (t.held S.held)) :
    Consistent S ⟨s,c.threads.set i t,tr⟩ where
  replay j call tx next body l hj := by
    have hlt : i < c.threads.length := (List.getElem?_eq_some_iff.mp hi).1
    by_cases hij : i = j
    · subst hij
      simp only [List.getElem?_set_self hlt,Option.some.injEq] at hj
      exact hnew call tx next body l hj
    · simp only [List.getElem?_set_ne hij] at hj
      obtain ⟨cs,o,k,rfl,ha⟩ := hc.replay j call tx next body l hj
      exact ⟨cs,o,k,rfl,hd.stable ha (hold j _ call tx next _ l (Ne.symm hij) hj rfl)⟩
  exclusive j j' tj tj' hjj hj hj' := by
    have hlt : i < c.threads.length := (List.getElem?_eq_some_iff.mp hi).1
    by_cases hij : i = j
    · subst hij
      simp only [List.getElem?_set_self hlt,Option.some.injEq] at hj
      simp only [List.getElem?_set_ne hjj] at hj'
      subst hj
      exact (hlocks j' tj' hj' (Ne.symm hjj)).symm
    · simp only [List.getElem?_set_ne hij] at hj
      by_cases hij' : i = j'
      · subst hij'
        simp only [List.getElem?_set_self hlt,Option.some.injEq] at hj'
        subst hj'
        exact hlocks j tj hj hjj
      · simp only [List.getElem?_set_ne hij'] at hj'
        exact hc.exclusive j j' tj tj' hjj hj hj'

lemma serial_getElem? {c : LockedConfig κ Op Ans Tx Res TxOp TxAns ρ σ τ} {i : ℕ}
    {t : LockedThread κ Op Ans Tx Res TxOp TxAns ρ τ} (h : c.threads[i]? = some t) :
    c.serial.threads[i]? = some t.serial := by
  simp [serial,List.getElem?_map,h]

lemma set_of_getElem? {α : Type} {xs : List α} {i : ℕ} {x : α} (h : xs[i]? = some x) :
    xs.set i x = xs := by
  obtain ⟨hi,rfl⟩ := List.getElem?_eq_some_iff.mp h
  exact List.set_getElem_self hi

/-- The serial step that corresponds to the end of an operation. -/
lemma serial_step {c : LockedConfig κ Op Ans Tx Res TxOp TxAns ρ σ τ} {i : ℕ} {call : κ}
    {o : Outer Op Tx} {next : Outer.Ans Ans Res o → Program (Outer Op Tx) (Outer.Ans Ans Res) ρ}
    {ch : C ⊕ List TC} {a : Outer.Ans Ans Res o} {s : σ}
    (hi : c.serial.threads[i]? = some (.running call (.perform o next)))
    (hs : S.serial o ch c.state = some (a, s)) :
    c.serial.step main S.serial (.perform i ch) =
      some (c.advance i call (.perform o a) s (.running call (next a))).serial := by
  have hs' : S.serial o ch c.serial.state = some (a, s) := hs
  simp only [Config.step,hi,hs',Option.some.injEq]
  simp [Config.advance,advance,serial,LockedThread.serial,List.map_set]

/-- One interleaved step is at most one serial step. -/
theorem Consistent.step [DecidableEq L] (hd : S.Disciplined Agree)
    {c d : LockedConfig κ Op Ans Tx Res TxOp TxAns ρ σ τ} (hc : Consistent S c)
    {l : LockedLabel κ C TC} (h : c.step S main l = some d) :
    Consistent S d ∧ Config.Leads main S.serial c.serial d.serial := by
  have hkeep : ∀ (j : ℕ) th, c.threads[j]? = some th → ∀ i, j ≠ i →
      (th.held S.held).Disjoint ([] : List L) := fun _ _ _ _ _ => List.disjoint_nil_right _
  cases l with
  | start call =>
    simp only [LockedConfig.step,Option.some.injEq] at h
    subst h
    refine ⟨⟨?_,?_⟩,Config.Leads.refl.tail (.start call) ?_⟩
    · intro j call' t next body l hj
      rcases lt_trichotomy j c.threads.length with hlt | rfl | hgt
      · rw [List.getElem?_append_left hlt] at hj
        exact hc.replay j call' t next body l hj
      · simp at hj
      · rw [List.getElem?_eq_none (by simp; omega)] at hj
        contradiction
    · intro j j' tj tj' hjj hj hj'
      rw [List.getElem?_append] at hj hj'
      split_ifs at hj hj' with h₁ h₂
      · exact hc.exclusive j j' tj tj' hjj hj hj'
      · have ht : tj' = .running call (main call) := by
          have := (List.mem_singleton.mp (List.mem_of_getElem? hj'))
          exact this
        subst ht
        exact List.disjoint_nil_right _
      · have ht : tj = .running call (main call) := List.mem_singleton.mp (List.mem_of_getElem? hj)
        subst ht
        exact List.disjoint_nil_left _
      · rename_i h₂
        have h₁' := (List.getElem?_eq_some_iff.mp hj).1
        have h₂' := (List.getElem?_eq_some_iff.mp hj').1
        simp only [List.length_singleton] at h₁' h₂'
        omega
    · simp [Config.step,serial,LockedThread.serial]
  | pool tid choice =>
    simp only [LockedConfig.step] at h
    split at h
    · next call o next hth =>
      split_ifs at h with hfree
      split at h
      · next a s hp =>
        obtain rfl := Option.some.inj h
        refine ⟨?_,Config.Leads.refl.tail (.perform tid (.inl choice)) ?_⟩
        · refine hc.set hd hth s _ _ ?_ (by rintro _ _ _ _ _ ⟨⟩) fun j th hj hne => hkeep j th hj _ hne
          rintro j th call' tx next' body l hne hj rfl
          exact hd.pool hp (unblocked_iff.mp hfree j _ hj hne)
        · exact serial_step (o := .pool o) (serial_getElem? hth) hp
      · contradiction
    · contradiction
  | enter tid =>
    simp only [LockedConfig.step] at h
    split at h
    · next call t next hth =>
      split at h
      · next o k hb =>
        obtain rfl := Option.some.inj h
        refine ⟨?_,?_⟩
        · refine hc.set hd hth _ _ _ ?_ ?_ ?_
          · rintro j th call' tx next' body l - - -
            exact hd.same l c.state
          · rintro call' tx next' body l he
            cases he
            exact ⟨[],o,k,rfl,by rw [hb]; rfl⟩
          · intro j th hj hne
            change (th.held S.held).Disjoint (S.held S.fresh)
            rw [hd.unlocked]
            exact List.disjoint_nil_right _
        · have hsame : (c.threads.set tid (.within call t next (.perform o k) S.fresh)).map
              LockedThread.serial = c.threads.map LockedThread.serial := by
            exact (List.map_set ..).trans (set_of_getElem? (by simp [hth,LockedThread.serial]))
          simp only [serial,hsame]
          exact .refl
      · contradiction
    · contradiction
  | within tid choice =>
    simp only [LockedConfig.step] at h
    split at h
    · next call t next o k l hth =>
      split at h
      · next a l' s' hw =>
        split_ifs at h with hfree
        obtain ⟨cs,o₁,k₁,hbody,hadv⟩ := hc.replay tid call t next _ l hth
        have hsnoc := Program.advance_snoc S.within hadv hw
        have hlocks := unblocked_iff.mp hfree
        have hagree : ∀ j th call' tx next' body m, j ≠ tid → c.threads[j]? = some th →
            th = .within call' tx next' body m → Agree m c.state s' := by
          rintro j th call' tx next' body m hne hj rfl
          exact hd.statement hadv hw (hlocks j _ hj hne)
        split at h
        · next r hr =>
          obtain rfl := Option.some.inj h
          rw [hr] at hsnoc
          refine ⟨?_,Config.Leads.refl.tail (.perform tid (.inr (cs ++ [choice]))) ?_⟩
          · exact hc.set hd hth s' _ _ hagree (by rintro _ _ _ _ _ ⟨⟩)
              fun j th hj hne => hkeep j th hj _ hne
          · refine serial_step (o := .transact t) (serial_getElem? hth) ?_
            simp only [Store.serial,Program.run_of_advance S.within hsnoc]
        · next o' k' hr =>
          obtain rfl := Option.some.inj h
          rw [hr] at hsnoc
          obtain rfl : s' = c.state := hd.frame hsnoc
          refine ⟨?_,?_⟩
          · refine hc.set hd hth c.state _ _ hagree ?_ hlocks
            rintro call' tx next' body m he
            cases he
            exact ⟨_,o',k',rfl,hsnoc⟩
          · have hsame : (c.threads.set tid (.within call t next (.perform o' k') l')).map
                LockedThread.serial = c.threads.map LockedThread.serial := by
              exact (List.map_set ..).trans (set_of_getElem? (by simp [hth,LockedThread.serial]))
            simp only [serial,hsame]
            exact .refl
      · contradiction
    · contradiction
  | reply tid =>
    simp only [LockedConfig.step] at h
    split at h
    · next call r hth =>
      obtain rfl := Option.some.inj h
      refine ⟨?_,Config.Leads.refl.tail (.reply tid) ?_⟩
      · refine hc.set hd hth _ _ _ ?_ (by rintro _ _ _ _ _ ⟨⟩) fun j th hj hne => hkeep j th hj _ hne
        rintro j th call' tx next' body l - - -
        exact hd.same l c.state
      · have hth' := serial_getElem? hth
        simp only [LockedThread.serial] at hth'
        simp only [Config.step,hth']
        simp [LockedThread.serial,Config.advance,advance,serial,List.map_set]
    · contradiction
  | stop tid =>
    have hover : ∀ call rest, c.serial.threads[tid]? = some (.running call rest) →
        c.serial.step main S.serial (.stop tid) =
          some (c.advance tid call .stop c.state (.over call)).serial := by
      intro call rest hth
      simp only [Config.step,hth]
      simp [LockedThread.serial,Config.advance,advance,serial,List.map_set]
    have hgone : ∀ call old, c.threads[tid]? = some old →
        Consistent S (c.advance tid call .stop c.state (.over call)) := by
      intro call old hth
      refine hc.set hd hth _ _ _ ?_ (by rintro _ _ _ _ _ ⟨⟩) fun j th hj hne => hkeep j th hj _ hne
      rintro j th call' tx next' body l - - -
      exact hd.same l c.state
    simp only [LockedConfig.step] at h
    split at h
    · next call rest hth =>
      obtain rfl := Option.some.inj h
      exact ⟨hgone call _ hth,Config.Leads.refl.tail (.stop tid) (hover call rest (serial_getElem? hth))⟩
    · next call t next body l hth =>
      obtain rfl := Option.some.inj h
      exact ⟨hgone call _ hth,Config.Leads.refl.tail (.stop tid) (hover call _ (serial_getElem? hth))⟩
    · contradiction

/-- Every interleaved run is a serial run with the same shared state and the same history. -/
theorem Reachable.serial [DecidableEq L] (hd : S.Disciplined Agree) {s : σ}
    {c : LockedConfig κ Op Ans Tx Res TxOp TxAns ρ σ τ} (hc : Reachable S main s c) :
    Consistent S c ∧ Config.Reachable main S.serial s c.serial := by
  induction hc with
  | refl => exact ⟨consistent_init s,.refl⟩
  | tail l _ hs ih =>
    obtain ⟨hd',hl⟩ := ih.1.step hd hs
    exact ⟨hd',Config.Leads.trans ih.2 hl⟩

end
end LockedConfig
end
