import Mathlib.Logic.Function.Basic
import Mathlib.Order.Nat
import LensoServiceAccount.Library.Program

/-! Calls running concurrently over one shared state, one operation at a time, and the rule
that lifts a protocol obeyed by every single call to an invariant of every run. -/

/-- A call that has been started: its program so far, or nothing any more. -/
inductive Thread (κ Op : Type) (Ans : Op → Type) (ρ : Type) : Type
  | running (call : κ) (rest : Program Op Ans ρ)
  | over (call : κ)

/-- What a call did in one step. -/
inductive Act (Op : Type) (Ans : Op → Type) (ρ : Type) : Type
  | start
  | perform (o : Op) (answer : Ans o)
  | reply (value : ρ)
  | stop

/-- The call is over after it. -/
def Act.ends {Op : Type} {Ans : Op → Type} {ρ : Type} : Act Op Ans ρ → Bool
  | .reply _ | .stop => true
  | _ => false

/-- One step of a run, with the shared state before and after it. -/
structure Event (κ Op : Type) (Ans : Op → Type) (ρ σ : Type) where
  tid : ℕ
  call : κ
  action : Act Op Ans ρ
  before : σ
  after : σ

/-- A shared state, the calls started so far, and the history, newest event first. -/
structure Config (κ Op : Type) (Ans : Op → Type) (ρ σ : Type) where
  state : σ
  threads : List (Thread κ Op Ans ρ)
  trace : List (Event κ Op Ans ρ σ)

/-- What the scheduler and the environment decide. `stop` ends a call anywhere: a crash, a
dropped future or a failure that is reported to nobody. -/
inductive Label (κ C : Type) : Type
  | start (call : κ)
  | perform (tid : ℕ) (choice : C)
  | reply (tid : ℕ)
  | stop (tid : ℕ)

/-- The event is a step that the surroundings allow. -/
def Event.Legal {κ Op : Type} {Ans : Op → Type} {ρ σ C : Type} (H : Program.Handler Op Ans C σ)
    (e : Event κ Op Ans ρ σ) : Prop :=
  match e.action with
  | .perform o a => ∃ c, H o c e.before = some (a, e.after)
  | _ => e.after = e.before

namespace Config
variable {κ Op : Type} {Ans : Op → Type} {ρ σ C Φ : Type}

def init (s : σ) : Config κ Op Ans ρ σ := ⟨s,[],[]⟩

/-- Record one step of a call and what is left of it. -/
def advance (c : Config κ Op Ans ρ σ) (tid : ℕ) (call : κ) (action : Act Op Ans ρ)
    (s : σ) (t : Thread κ Op Ans ρ) : Config κ Op Ans ρ σ where
  state := s
  threads := c.threads.set tid t
  trace := ⟨tid,call,action,c.state,s⟩ :: c.trace

/-- One step under one label; `none` when the label does not fit the configuration. -/
def step (main : κ → Program Op Ans ρ) (H : Program.Handler Op Ans C σ)
    (c : Config κ Op Ans ρ σ) : Label κ C → Option (Config κ Op Ans ρ σ)
  | .start call => some
      { state := c.state
        threads := c.threads ++ [.running call (main call)]
        trace := ⟨c.threads.length,call,.start,c.state,c.state⟩ :: c.trace }
  | .perform tid choice =>
    match c.threads[tid]? with
    | some (.running call (.perform o next)) =>
      match H o choice c.state with
      | some (a, s) => some (c.advance tid call (.perform o a) s (.running call (next a)))
      | none => none
    | _ => none
  | .reply tid =>
    match c.threads[tid]? with
    | some (.running call (.pure r)) => some (c.advance tid call (.reply r) c.state (.over call))
    | _ => none
  | .stop tid =>
    match c.threads[tid]? with
    | some (.running call _) => some (c.advance tid call .stop c.state (.over call))
    | _ => none

/-- Follow a whole schedule. -/
def run (main : κ → Program Op Ans ρ) (H : Program.Handler Op Ans C σ)
    (c : Config κ Op Ans ρ σ) : List (Label κ C) → Option (Config κ Op Ans ρ σ)
  | [] => some c
  | l :: ls =>
    match c.step main H l with
    | some d => d.run main H ls
    | none => none

section
variable (main : κ → Program Op Ans ρ) (H : Program.Handler Op Ans C σ)

/-- `d` follows from `c` by some schedule. -/
inductive Leads (c : Config κ Op Ans ρ σ) : Config κ Op Ans ρ σ → Prop
  | refl : Leads c c
  | tail {d e : Config κ Op Ans ρ σ} (l : Label κ C) (h : Leads c d) (hs : d.step main H l = some e) :
      Leads c e

/-- The configurations of the runs from a shared state in which no call has started. -/
def Reachable (s : σ) (c : Config κ Op Ans ρ σ) : Prop := Leads main H (init s) c

variable {main H}

theorem Leads.trans {c d e : Config κ Op Ans ρ σ} (h : Leads main H c d) (h' : Leads main H d e) :
    Leads main H c e := by
  induction h' with
  | refl => exact h
  | tail l _ hs ih => exact ih.tail l hs

theorem leads_of_run {c d : Config κ Op Ans ρ σ} {ls : List (Label κ C)}
    (h : c.run main H ls = some d) : Leads main H c d := by
  induction ls generalizing c with
  | nil => cases h; exact .refl
  | cons l ls ih =>
    simp only [run] at h
    cases hs : c.step main H l with
    | none => simp [hs] at h
    | some e =>
      simp only [hs] at h
      exact (Leads.refl.tail l hs).trans (ih h)

/-- Everything a step can be, said once. -/
theorem step_cases {c d : Config κ Op Ans ρ σ} {l : Label κ C} (h : c.step main H l = some d) :
    (∃ call, d = ⟨c.state,c.threads ++ [.running call (main call)],
      ⟨c.threads.length,call,.start,c.state,c.state⟩ :: c.trace⟩) ∨
    (∃ tid call o next choice a s, c.threads[tid]? = some (.running call (.perform o next)) ∧
      H o choice c.state = some (a, s) ∧
      d = c.advance tid call (.perform o a) s (.running call (next a))) ∨
    (∃ tid call r, c.threads[tid]? = some (.running call (.pure r)) ∧
      d = c.advance tid call (.reply r) c.state (.over call)) ∨
    (∃ tid call rest, c.threads[tid]? = some (.running call rest) ∧
      d = c.advance tid call .stop c.state (.over call)) := by
  cases l with
  | start call => exact .inl ⟨call,by simpa [step] using h.symm⟩
  | perform tid choice =>
    simp only [step] at h
    split at h
    · next call o next hth =>
      split at h
      · next a s hH => exact .inr (.inl ⟨tid,call,o,next,choice,a,s,hth,hH,(Option.some.inj h).symm⟩)
      · contradiction
    · contradiction
  | reply tid =>
    simp only [step] at h
    split at h
    · next call r hth => exact .inr (.inr (.inl ⟨tid,call,r,hth,(Option.some.inj h).symm⟩))
    · contradiction
  | stop tid =>
    simp only [step] at h
    split at h
    · next call rest hth => exact .inr (.inr (.inr ⟨tid,call,rest,hth,(Option.some.inj h).symm⟩))
    · contradiction

/-- A step adds one event to the history. -/
theorem step_event {c d : Config κ Op Ans ρ σ} {l : Label κ C} (h : c.step main H l = some d) :
    ∃ e, d.trace = e :: c.trace ∧ e.before = c.state ∧ e.after = d.state ∧ e.Legal H := by
  rcases step_cases h with ⟨call,rfl⟩ | ⟨i,call,o,next,choice,a,s,-,hH,rfl⟩ | ⟨i,call,r,-,rfl⟩ |
    ⟨i,call,rest,-,rfl⟩
  · exact ⟨_,rfl,rfl,rfl,rfl⟩
  · exact ⟨_,rfl,rfl,rfl,choice,hH⟩
  · exact ⟨_,rfl,rfl,rfl,rfl⟩
  · exact ⟨_,rfl,rfl,rfl,rfl⟩

/-- An invariant of history and shared state that every allowed step keeps holds in every run,
whatever the calls do. -/
theorem Reachable.invariant {s : σ} {I : List (Event κ Op Ans ρ σ) → σ → Prop} (hinit : I [] s)
    (hstep : ∀ tr e, I tr e.before → e.Legal H → I (e :: tr) e.after) {c : Config κ Op Ans ρ σ}
    (hc : Reachable main H s c) : I c.trace c.state := by
  induction hc with
  | refl => exact hinit
  | tail l _ hs ih =>
    obtain ⟨e,htr,hb,ha,hl⟩ := step_event hs
    rw [htr,← ha]
    exact hstep _ e (hb ▸ ih) hl

/-- Before every event of a run there was a run that led to it. -/
theorem Reachable.split {s : σ} {c : Config κ Op Ans ρ σ} (hc : Reachable main H s c)
    {post pre : List (Event κ Op Ans ρ σ)} {e : Event κ Op Ans ρ σ} (he : c.trace = post ++ e :: pre) :
    ∃ d, Reachable main H s d ∧ d.trace = pre ∧ d.state = e.before ∧ e.Legal H := by
  induction hc generalizing post with
  | refl => simp [init] at he
  | @tail d f l hd hs ih =>
    obtain ⟨e',htr,hb,-,hl⟩ := step_event hs
    rw [htr] at he
    cases post with
    | nil =>
      obtain ⟨rfl,rfl⟩ := List.cons.inj he
      exact ⟨d,hd,rfl,hb.symm,hl⟩
    | cons x xs => exact ih (List.cons.inj he).2

/-- The earlier part of a history is the history of a run. -/
theorem Reachable.earlier {s : σ} {c : Config κ Op Ans ρ σ} (hc : Reachable main H s c)
    {post pre : List (Event κ Op Ans ρ σ)} (he : c.trace = post ++ pre) :
    ∃ d, Reachable main H s d ∧ d.trace = pre := by
  rcases List.eq_nil_or_concat post with rfl | ⟨post',e,rfl⟩
  · exact ⟨c,hc,he⟩
  · obtain ⟨d,hd,htr,-⟩ := hc.split (show c.trace = post' ++ e :: pre by simpa using he)
    exact ⟨d,hd,htr⟩

end
end Config

/-- A protocol for single calls: the phases a call goes through, what each phase allows, and
which replies each phase allows. -/
structure Protocol (κ Op : Type) (Ans : Op → Type) (ρ Φ : Type) where
  first : κ → Φ
  move : κ → Φ → (o : Op) → Ans o → Φ → Prop
  last : κ → ρ → Φ → Prop

namespace Protocol
variable {κ Op : Type} {Ans : Op → Type} {ρ σ C Φ : Type}
variable (P : Protocol κ Op Ans ρ Φ)

/-- The answers that an operation can get in some state. -/
def Possible (H : Program.Handler Op Ans C σ) (o : Op) (a : Ans o) : Prop :=
  ∃ c s s', H o c s = some (a, s')

/-- Every call, whatever it is answered, moves as the protocol allows. -/
def Obeyed (H : Program.Handler Op Ans C σ) (main : κ → Program Op Ans ρ) : Prop :=
  ∀ call, (main call).Conforms (Possible H) (P.move call) (P.first call) (P.last call)

/-- The calls that are running, each with its phase. -/
abbrev Phases (κ Φ : Type) := ℕ → Option (κ × Φ)

/-- What a step may do to the history, the shared state and the phases when all calls obey
the protocol. The programs themselves do not occur any more. -/
inductive Step (H : Program.Handler Op Ans C σ) (tr : List (Event κ Op Ans ρ σ)) (s : σ)
    (p : Phases κ Φ) : Event κ Op Ans ρ σ → Phases κ Φ → Prop
  | start (i : ℕ) (call : κ) (hp : p i = none) (hi : ∀ e ∈ tr, e.tid ≠ i) :
      Step H tr s p ⟨i,call,.start,s,s⟩ (Function.update p i (some (call, P.first call)))
  | perform (i : ℕ) (call : κ) (φ φ' : Φ) (o : Op) (choice : C) (a : Ans o) (s' : σ)
      (hp : p i = some (call, φ)) (hm : P.move call φ o a φ') (hH : H o choice s = some (a, s')) :
      Step H tr s p ⟨i,call,.perform o a,s,s'⟩ (Function.update p i (some (call, φ')))
  | reply (i : ℕ) (call : κ) (φ : Φ) (r : ρ) (hp : p i = some (call, φ)) (hl : P.last call r φ) :
      Step H tr s p ⟨i,call,.reply r,s,s⟩ (Function.update p i none)
  | stop (i : ℕ) (call : κ) (φ : Φ) (hp : p i = some (call, φ)) :
      Step H tr s p ⟨i,call,.stop,s,s⟩ (Function.update p i none)

/-- An invariant of the history, the shared state and the phases. -/
structure Invariant (H : Program.Handler Op Ans C σ) (s₀ : σ)
    (I : List (Event κ Op Ans ρ σ) → σ → Phases κ Φ → Prop) : Prop where
  init : I [] s₀ fun _ => none
  step : ∀ {tr s p e p'}, I tr s p → P.Step H tr s p e p' → I (e :: tr) e.after p'

/-- The phases describe the threads of a configuration. -/
structure Tracks (H : Program.Handler Op Ans C σ) (c : Config κ Op Ans ρ σ) (p : Phases κ Φ) :
    Prop where
  running : ∀ i call rest, c.threads[i]? = some (.running call rest) →
    ∃ φ, p i = some (call, φ) ∧ rest.Conforms (Possible H) (P.move call) φ (P.last call)
  idle : ∀ i, (∀ call rest, c.threads[i]? ≠ some (.running call rest)) → p i = none
  tids : ∀ e ∈ c.trace, e.tid < c.threads.length

variable {P} {main : κ → Program Op Ans ρ} {H : Program.Handler Op Ans C σ}

theorem tracks_init (s : σ) : P.Tracks H (Config.init s) fun _ => none where
  running i call rest h := by simp [Config.init] at h
  idle _ _ := rfl
  tids e he := by simp [Config.init] at he

/-- The thread that moved is described by its new phase, the others as before. -/
lemma Tracks.advance {c : Config κ Op Ans ρ σ} {p : Phases κ Φ} (ht : P.Tracks H c p) {i : ℕ}
    {call : κ} {rest : Program Op Ans ρ} (hi : c.threads[i]? = some (.running call rest))
    (action : Act Op Ans ρ) (s : σ) (t : Thread κ Op Ans ρ) (x : Option (κ × Φ))
    (hrun : ∀ call' rest', t = .running call' rest' →
      ∃ φ, x = some (call', φ) ∧ rest'.Conforms (Possible H) (P.move call') φ (P.last call'))
    (hidle : (∀ call' rest', t ≠ .running call' rest') → x = none) :
    P.Tracks H (c.advance i call action s t) (Function.update p i x) where
  running j call' rest' hj := by
    have hlt : i < c.threads.length := (List.getElem?_eq_some_iff.mp hi).1
    by_cases hij : i = j
    · subst hij
      simp only [Config.advance,List.getElem?_set_self hlt,Option.some.injEq] at hj
      simpa using hrun call' rest' hj
    · simp only [Config.advance,List.getElem?_set_ne hij] at hj
      simpa [Function.update_of_ne (Ne.symm hij)] using ht.running j call' rest' hj
  idle j hj := by
    have hlt : i < c.threads.length := (List.getElem?_eq_some_iff.mp hi).1
    by_cases hij : i = j
    · subst hij
      simp only [Config.advance,List.getElem?_set_self hlt,Option.some.injEq,ne_eq] at hj
      simpa using hidle hj
    · simp only [Config.advance,List.getElem?_set_ne hij] at hj
      simpa [Function.update_of_ne (Ne.symm hij)] using ht.idle j hj
  tids e he := by
    have hlt : i < c.threads.length := (List.getElem?_eq_some_iff.mp hi).1
    simp only [Config.advance,List.length_set,List.mem_cons] at he ⊢
    rcases he with rfl | he
    · exact hlt
    · exact ht.tids e he

/-- A step of the calls is a step of their phases. -/
theorem Tracks.step (ho : P.Obeyed H main) {c d : Config κ Op Ans ρ σ} {p : Phases κ Φ}
    (ht : P.Tracks H c p) {l : Label κ C} (h : c.step main H l = some d) :
    ∃ e p', d.trace = e :: c.trace ∧ d.state = e.after ∧ P.Step H c.trace c.state p e p' ∧
      P.Tracks H d p' := by
  rcases Config.step_cases h with ⟨call,rfl⟩ | ⟨i,call,o,next,choice,a,s,hi,hH,rfl⟩ |
    ⟨i,call,r,hi,rfl⟩ | ⟨i,call,rest,hi,rfl⟩
  · refine ⟨_,_,rfl,rfl,.start c.threads.length call ?_ fun e he => (ht.tids e he).ne,?_⟩
    · exact ht.idle _ (by simp)
    · constructor
      · intro j call' rest' hj
        rcases lt_trichotomy j c.threads.length with hlt | rfl | hgt
        · rw [List.getElem?_append_left hlt] at hj
          simpa [Function.update_of_ne hlt.ne] using ht.running j call' rest' hj
        · simp only [List.getElem?_concat_length,Option.some.injEq,Thread.running.injEq] at hj
          obtain ⟨rfl,rfl⟩ := hj
          exact ⟨P.first call,by simp,ho call⟩
        · rw [List.getElem?_eq_none (by simp; omega)] at hj
          contradiction
      · intro j hj
        rcases lt_trichotomy j c.threads.length with hlt | rfl | hgt
        · rw [Function.update_of_ne hlt.ne]
          exact ht.idle j (by simpa [List.getElem?_append_left hlt] using hj)
        · simp at hj
        · rw [Function.update_of_ne hgt.ne']
          exact ht.idle j (by simp [List.getElem?_eq_none hgt.le])
      · intro e he
        simp only [List.length_append,List.length_singleton,List.mem_cons] at he ⊢
        rcases he with rfl | he
        · simp
        · exact (ht.tids e he).trans (Nat.lt_succ_self _)
  · obtain ⟨φ,hp,hconf⟩ := ht.running i call _ hi
    obtain ⟨φ',hm,hnext⟩ := hconf a ⟨choice,_,s,hH⟩
    refine ⟨_,_,rfl,rfl,.perform i call φ φ' o choice a s hp hm hH,ht.advance hi _ _ _ _ ?_ ?_⟩
    · rintro call' rest' he
      cases he
      exact ⟨φ',rfl,hnext⟩
    · intro hne
      exact absurd rfl (hne _ _)
  · obtain ⟨φ,hp,hl⟩ := ht.running i call _ hi
    exact ⟨_,_,rfl,rfl,.reply i call φ r hp hl,
      ht.advance hi _ _ _ _ (by rintro _ _ ⟨⟩) fun _ => rfl⟩
  · obtain ⟨φ,hp,-⟩ := ht.running i call _ hi
    exact ⟨_,_,rfl,rfl,.stop i call φ hp,
      ht.advance hi _ _ _ _ (by rintro _ _ ⟨⟩) fun _ => rfl⟩

/-- Every run of calls that obey the protocol keeps the invariants of the protocol. -/
theorem Invariant.reachable (ho : P.Obeyed H main) {s₀ : σ}
    {I : List (Event κ Op Ans ρ σ) → σ → Phases κ Φ → Prop} (hI : P.Invariant H s₀ I)
    {c : Config κ Op Ans ρ σ} (hc : Config.Reachable main H s₀ c) :
    ∃ p, P.Tracks H c p ∧ I c.trace c.state p := by
  induction hc with
  | refl => exact ⟨_,tracks_init s₀,hI.init⟩
  | tail l _ hs ih =>
    obtain ⟨p,ht,hi⟩ := ih
    obtain ⟨e,p',htr,hst,hstep,ht'⟩ := ht.step ho hs
    exact ⟨p',ht',by rw [htr,hst]; exact hI.step hi hstep⟩

/-- Every event of a run was a step of the phases from a state that keeps the invariant. -/
theorem Invariant.event (ho : P.Obeyed H main) {s₀ : σ}
    {I : List (Event κ Op Ans ρ σ) → σ → Phases κ Φ → Prop} (hI : P.Invariant H s₀ I)
    {c : Config κ Op Ans ρ σ} (hc : Config.Reachable main H s₀ c)
    {post pre : List (Event κ Op Ans ρ σ)} {e : Event κ Op Ans ρ σ}
    (he : c.trace = post ++ e :: pre) :
    ∃ p p', I pre e.before p ∧ P.Step H pre e.before p e p' := by
  induction hc generalizing post with
  | refl => simp [Config.init] at he
  | @tail d f l hd hs ih =>
    obtain ⟨p,ht,hi⟩ := hI.reachable ho hd
    obtain ⟨e',p',htr,hst,hstep,ht'⟩ := ht.step ho hs
    rw [htr] at he
    cases post with
    | nil =>
      obtain ⟨rfl,rfl⟩ := List.cons.inj he
      refine ⟨p,p',?_,?_⟩ <;> cases hstep <;> first | exact hi | (constructor <;> assumption)
    | cons x xs =>
      obtain ⟨rfl,he'⟩ := List.cons.inj he
      exact ih he'

/-- An invariant may be shown with the help of another. -/
theorem Invariant.and {s₀ : σ} {I J : List (Event κ Op Ans ρ σ) → σ → Phases κ Φ → Prop}
    (hI : P.Invariant H s₀ I) (hinit : J [] s₀ fun _ => none)
    (hstep : ∀ {tr s p e p'}, I tr s p → J tr s p → P.Step H tr s p e p' → J (e :: tr) e.after p') :
    P.Invariant H s₀ fun tr s p => I tr s p ∧ J tr s p where
  init := ⟨hI.init,hinit⟩
  step h hs := ⟨hI.step h.1 hs,hstep h.1 h.2 hs⟩

/-- The state that a step starts from. -/
lemma Step.before {tr : List (Event κ Op Ans ρ σ)} {s : σ} {p p' : Phases κ Φ} {e : Event κ Op Ans ρ σ}
    (h : P.Step H tr s p e p') : e.before = s := by cases h <;> rfl

/-- What an event brings about and every later step keeps holds from then on. -/
theorem Invariant.since (ho : P.Obeyed H main) {s₀ : σ}
    {I J : List (Event κ Op Ans ρ σ) → σ → Phases κ Φ → Prop} (hI : P.Invariant H s₀ I)
    {f : Event κ Op Ans ρ σ} {pre : List (Event κ Op Ans ρ σ)}
    (hstart : ∀ {p p'}, I pre f.before p → P.Step H pre f.before p f p' → J [] f.after p')
    (hstep : ∀ {post s p e p'}, I (post ++ f :: pre) s p → J post s p →
      P.Step H (post ++ f :: pre) s p e p' → J (e :: post) e.after p')
    {c : Config κ Op Ans ρ σ} (hc : Config.Reachable main H s₀ c) {post : List (Event κ Op Ans ρ σ)}
    (he : c.trace = post ++ f :: pre) : ∃ p, P.Tracks H c p ∧ I c.trace c.state p ∧ J post c.state p := by
  have hJ : P.Invariant H s₀ fun tr s p => I tr s p ∧ ∀ post, tr = post ++ f :: pre → J post s p := by
    refine hI.and (J := fun tr s p => ∀ post, tr = post ++ f :: pre → J post s p) (fun post h => by simp at h) ?_
    intro tr s p e p' hi h hs post htr
    cases post with
    | nil =>
      obtain ⟨rfl,rfl⟩ := List.cons.inj htr
      have hb := hs.before
      subst hb
      exact hstart hi hs
    | cons x xs =>
      obtain ⟨rfl,rfl⟩ := List.cons.inj htr
      exact hstep hi (h xs rfl) hs
  obtain ⟨p,ht,hi,h⟩ := hJ.reachable ho hc
  exact ⟨p,ht,hi,h post he⟩

/-- A step is one that the surroundings allow. -/
lemma Step.legal {tr : List (Event κ Op Ans ρ σ)} {s : σ} {p p' : Phases κ Φ} {e : Event κ Op Ans ρ σ}
    (h : P.Step H tr s p e p') : e.Legal H := by
  cases h with
  | perform i call φ φ' o choice a s' hp hm hH => exact ⟨choice,hH⟩
  | _ => rfl

/-- The phases of the other calls stay. -/
lemma Step.other {tr : List (Event κ Op Ans ρ σ)} {s : σ} {p p' : Phases κ Φ} {e : Event κ Op Ans ρ σ}
    (h : P.Step H tr s p e p') {j : ℕ} (hj : j ≠ e.tid) : p' j = p j := by
  cases h <;> exact Function.update_of_ne hj _ _

/-- The events of a call are all of one call, and none comes after its end. -/
structure Orderly (tr : List (Event κ Op Ans ρ σ)) (p : Phases κ Φ) : Prop where
  call : ∀ i call φ, p i = some (call, φ) → ∀ e ∈ tr, e.tid = i → e.call = call
  same : ∀ e ∈ tr, ∀ e' ∈ tr, e.tid = e'.tid → e.call = e'.call
  ended : ∀ e ∈ tr, e.action.ends = true → p e.tid = none

lemma Orderly.cons {tr : List (Event κ Op Ans ρ σ)} {p p' : Phases κ Φ} {e : Event κ Op Ans ρ σ}
    (h : Orderly tr p) (hother : ∀ j, j ≠ e.tid → p' j = p j)
    (hown : ∀ call φ, p' e.tid = some (call, φ) → e.call = call)
    (hcall : ∀ x ∈ tr, x.tid = e.tid → x.call = e.call)
    (hopen : e.action.ends = true → p' e.tid = none)
    (hended : ∀ x ∈ tr, x.action.ends = true → x.tid ≠ e.tid) : Orderly (e :: tr) p' where
  call i call φ hp x hx hi := by
    by_cases he : i = e.tid
    · subst he
      rcases List.mem_cons.mp hx with rfl | hx
      · exact hown call φ hp
      · exact (hcall x hx hi).trans (hown call φ hp)
    · rw [hother i he] at hp
      rcases List.mem_cons.mp hx with rfl | hx
      · exact absurd hi.symm he
      · exact h.call i call φ hp x hx hi
  same x hx y hy hxy := by
    rcases List.mem_cons.mp hx with hx | hx <;> rcases List.mem_cons.mp hy with hy | hy
    · rw [hx,hy]
    · rw [hx] at hxy ⊢
      exact (hcall y hy hxy.symm).symm
    · rw [hy] at hxy ⊢
      exact hcall x hx hxy
    · exact h.same x hx y hy hxy
  ended x hx hends := by
    rcases List.mem_cons.mp hx with rfl | hx
    · exact hopen hends
    · rw [hother x.tid (hended x hx hends)]
      exact h.ended x hx hends

/-- A call that has ended takes no step. -/
lemma Orderly.step_ne {H : Program.Handler Op Ans C σ} {tr : List (Event κ Op Ans ρ σ)} {s : σ}
    {p p' : Phases κ Φ} {e : Event κ Op Ans ρ σ} (h : Orderly tr p) (hs : P.Step H tr s p e p')
    {x : Event κ Op Ans ρ σ} (hx : x ∈ tr) (hends : x.action.ends = true) : x.tid ≠ e.tid := by
  intro he
  have hnone := h.ended x hx hends
  rw [he] at hnone
  cases hs with
  | start i call hp hi => exact hi x hx he
  | perform i call φ φ' o choice a s' hp hm hH => exact absurd (hnone.symm.trans hp) (by simp)
  | reply i call φ r hp hl => exact absurd (hnone.symm.trans hp) (by simp)
  | stop i call φ hp => exact absurd (hnone.symm.trans hp) (by simp)

theorem orderly_invariant (P : Protocol κ Op Ans ρ Φ) (H : Program.Handler Op Ans C σ) (s₀ : σ) :
    P.Invariant H s₀ fun tr _ p => Orderly tr p where
  init := ⟨fun _ _ _ h => by simp at h,fun _ h => by simp at h,fun _ h => by simp at h⟩
  step {tr s p e p'} h hs := by
    have hend : ∀ {i call φ}, p i = some (call, φ) → ∀ x ∈ tr, x.action.ends = true → x.tid ≠ i := by
      rintro i call φ hp x hx hends rfl
      have hnone := h.ended x hx hends
      rw [hp] at hnone
      cases hnone
    have hother := fun j (hj : j ≠ e.tid) => hs.other hj
    cases hs with
    | start i call hp hi =>
      refine h.cons hother (fun call' φ hp' => ?_) (fun x hx hxi => absurd hxi (hi x hx)) (fun h => by cases h)
        fun x hx _ => hi x hx
      simp only [Function.update_self,Option.some.injEq,Prod.mk.injEq] at hp'
      exact hp'.1
    | perform i call φ φ' o choice a s' hp hm hH =>
      refine h.cons hother (fun call' ψ hp' => ?_) (fun x hx hxi => h.call i call φ hp x hx hxi)
        (fun h => by cases h) (hend hp)
      simp only [Function.update_self,Option.some.injEq,Prod.mk.injEq] at hp'
      exact hp'.1
    | reply i call φ r hp hl =>
      exact h.cons hother (fun call' ψ hp' => by simp at hp') (fun x hx hxi => h.call i call φ hp x hx hxi)
        (fun _ => by simp) (hend hp)
    | stop i call φ hp =>
      exact h.cons hother (fun call' ψ hp' => by simp at hp') (fun x hx hxi => h.call i call φ hp x hx hxi)
        (fun _ => by simp) (hend hp)

/-- What happens at most once: it leads from states without a mark to states with it, and no step
takes the mark away. -/
theorem count_le_one {s₀ : σ} {I : List (Event κ Op Ans ρ σ) → σ → Phases κ Φ → Prop} (hI : P.Invariant H s₀ I)
    (ho : P.Obeyed H main) {once : Event κ Op Ans ρ σ → Bool} {D : σ → Prop}
    (hkeep : ∀ {tr s p e p'}, I tr s p → P.Step H tr s p e p' → D s → D e.after)
    (honce : ∀ {tr s p e p'}, I tr s p → P.Step H tr s p e p' → once e = true → ¬D s ∧ D e.after)
    {c : Config κ Op Ans ρ σ} (hc : Config.Reachable main H s₀ c) : c.trace.countP once ≤ 1 := by
  have hJ : P.Invariant H s₀ fun tr s p =>
      I tr s p ∧ tr.countP once ≤ 1 ∧ (0 < tr.countP once → D s) := by
    refine hI.and (J := fun tr s _ => tr.countP once ≤ 1 ∧ (0 < tr.countP once → D s)) ⟨by simp,by simp⟩ ?_
    rintro tr s p e p' hi ⟨hle,hd⟩ hs
    by_cases he : once e = true
    · obtain ⟨hno,hyes⟩ := honce hi hs he
      have hzero : tr.countP once = 0 := by
        by_contra hne
        exact hno (hd (Nat.pos_of_ne_zero hne))
      rw [List.countP_cons_of_pos he,hzero]
      exact ⟨le_rfl,fun _ => hyes⟩
    · rw [List.countP_cons_of_neg he]
      exact ⟨hle,fun hpos => hkeep hi hs (hd hpos)⟩
  obtain ⟨p,-,-,hle,-⟩ := hJ.reachable ho hc
  exact hle

/-- After a marked event its call can only end, as the phase that it has come to allows. -/
def Finished (P : Protocol κ Op Ans ρ Φ) (mark : Event κ Op Ans ρ σ → Prop)
    (T : List (Event κ Op Ans ρ σ) → Event κ Op Ans ρ σ → Φ → Prop) (tr : List (Event κ Op Ans ρ σ))
    (p : Phases κ Φ) : Prop :=
  ∀ post e pre, tr = post ++ e :: pre → mark e → ∃ φ, T pre e φ ∧
    (p e.tid = some (e.call, φ) ∨ p e.tid = none) ∧
    ∀ x ∈ post, x.tid = e.tid → x.call = e.call ∧ x.after = x.before ∧
      (x.action = .stop ∨ ∃ r, x.action = .reply r ∧ P.last e.call r φ)

/-- A call comes to its end in a phase without moves. -/
theorem Invariant.finished {s₀ : σ} {I : List (Event κ Op Ans ρ σ) → σ → Phases κ Φ → Prop}
    (hI : P.Invariant H s₀ I) {mark : Event κ Op Ans ρ σ → Prop}
    {T : List (Event κ Op Ans ρ σ) → Event κ Op Ans ρ σ → Φ → Prop}
    (hmark : ∀ {tr s p e p'}, I tr s p → P.Step H tr s p e p' → mark e →
      ∃ φ, p' e.tid = some (e.call, φ) ∧ T tr e φ)
    (hstuck : ∀ {tr e φ}, T tr e φ → ∀ o a φ', ¬P.move e.call φ o a φ') :
    P.Invariant H s₀ fun tr s p => I tr s p ∧ Finished P mark T tr p := by
  refine hI.and (J := fun tr _ p => Finished P mark T tr p) (fun post e pre he => by simp at he) ?_
  intro tr s p x p' hi h hs post e pre he hm
  cases post with
  | nil =>
    obtain ⟨rfl,rfl⟩ := List.cons.inj he
    obtain ⟨φ,hp,hT⟩ := hmark hi hs hm
    exact ⟨φ,hT,.inl hp,fun y hy => by simp at hy⟩
  | cons y post =>
    obtain ⟨rfl,rfl⟩ := List.cons.inj he
    obtain ⟨φ,hT,hp,hrest⟩ := h post e pre rfl hm
    by_cases hx : x.tid = e.tid
    · have hlast : x.call = e.call ∧ x.after = x.before ∧
          (x.action = .stop ∨ ∃ r, x.action = .reply r ∧ P.last e.call r φ) ∧ p' e.tid = none := by
        rw [← hx] at hp ⊢
        cases hs with
        | start i call hpn hi => exact absurd hx.symm (hi e (by simp))
        | perform i call ψ φ' o choice a s' hpi hmove hH =>
          rcases hp with hp | hp
          · obtain ⟨rfl,rfl⟩ := Prod.mk.inj (Option.some.inj (hpi.symm.trans hp))
            exact absurd hmove (hstuck hT o a φ')
          · exact absurd (hpi.symm.trans hp) (by simp)
        | reply i call ψ r hpi hl =>
          rcases hp with hp | hp
          · obtain ⟨rfl,rfl⟩ := Prod.mk.inj (Option.some.inj (hpi.symm.trans hp))
            exact ⟨rfl,rfl,.inr ⟨r,rfl,hl⟩,by simp⟩
          · exact absurd (hpi.symm.trans hp) (by simp)
        | stop i call ψ hpi =>
          rcases hp with hp | hp
          · obtain ⟨rfl,rfl⟩ := Prod.mk.inj (Option.some.inj (hpi.symm.trans hp))
            exact ⟨rfl,rfl,.inl rfl,by simp⟩
          · exact absurd (hpi.symm.trans hp) (by simp)
      refine ⟨φ,hT,.inr hlast.2.2.2,fun z hz hze => ?_⟩
      rcases List.mem_cons.mp hz with rfl | hz
      · exact ⟨hlast.1,hlast.2.1,hlast.2.2.1⟩
      · exact hrest z hz hze
    · refine ⟨φ,hT,by rwa [hs.other (Ne.symm hx)],fun z hz hze => ?_⟩
      rcases List.mem_cons.mp hz with rfl | hz
      · exact absurd hze hx
      · exact hrest z hz hze

end Protocol
