import LensoServiceAccount.Completion

/-! The four checks before every management operation: what a call may do while they last, and what it
replies when one of them fails. -/

namespace LensoServiceAccount
open Code
variable {E : Environment}

/-- The reasons for which a management operation is refused before it has looked at the store. -/
inductive Refusal
  | invalidRequest
  | forbidden
  | organizationNotFound
  | membershipRequired
  | accessDenied

def Refusal.create : Refusal → CreateError
  | invalidRequest => .invalidRequest
  | forbidden => .forbidden
  | organizationNotFound => .organizationNotFound
  | membershipRequired => .membershipRequired
  | accessDenied => .accessDenied

def Refusal.get : Refusal → GetError
  | invalidRequest => .invalidRequest
  | forbidden => .forbidden
  | organizationNotFound => .organizationNotFound
  | membershipRequired => .membershipRequired
  | accessDenied => .accessDenied

def Refusal.list : Refusal → ListError
  | invalidRequest => .invalidRequest
  | forbidden => .forbidden
  | organizationNotFound => .organizationNotFound
  | membershipRequired => .membershipRequired
  | accessDenied => .accessDenied

def Refusal.rotateSecret : Refusal → RotateSecretError
  | invalidRequest => .invalidRequest
  | forbidden => .forbidden
  | organizationNotFound => .organizationNotFound
  | membershipRequired => .membershipRequired
  | accessDenied => .accessDenied

def Refusal.revoke : Refusal → RevokeError
  | invalidRequest => .invalidRequest
  | forbidden => .forbidden
  | organizationNotFound => .organizationNotFound
  | membershipRequired => .membershipRequired
  | accessDenied => .accessDenied

/-- What guards a management call: the checks that it has to pass, and how it is refused. -/
structure Guarded (E : Environment) where
  plugin : ServiceAccountPlugin E
  context : InvocationContext
  operation : String
  organizationId : String
  permission : String
  /-- The request is one that an instance accepts. -/
  valid : ActiveServiceAccount E → Bool
  refuse : Refusal → Reply
  fail : RuntimeFailure → Reply

/-- The guard of a management operation; exchanges and inspections have none. -/
def Call.guarded : Call E → Option (Guarded E)
  | .create plugin context request => some {
      plugin := plugin
      context := context
      operation := createOperation
      organizationId := request.organizationId
      permission := managePermission
      valid := fun _ => validIdempotencyKey request.idempotencyKey && validToken request.organizationId 256 &&
        validName request.name
      refuse := fun r => .create (.ok (.error r.create))
      fail := fun f => .create (.error f) }
  | .get plugin context request => some {
      plugin := plugin
      context := context
      operation := getOperation
      organizationId := request.organizationId
      permission := readPermission
      valid := fun _ => validToken request.organizationId 256 && validToken request.serviceAccountId 128
      refuse := fun r => .get (.ok (.error r.get))
      fail := fun f => .get (.error f) }
  | .list plugin context request => some {
      plugin := plugin
      context := context
      operation := listOperation
      organizationId := request.organizationId
      permission := readPermission
      valid := fun active => (parsePageLimit request.limit active.config.maxPageSize).isSome &&
        validToken request.organizationId 256 && request.after.all fun cursor => validToken cursor 128
      refuse := fun r => .list (.ok (.error r.list))
      fail := fun f => .list (.error f) }
  | .rotateSecret plugin context request => some {
      plugin := plugin
      context := context
      operation := rotateSecretOperation
      organizationId := request.organizationId
      permission := managePermission
      valid := fun _ => (validRotation request).isSome
      refuse := fun r => .rotateSecret (.ok (.error r.rotateSecret))
      fail := fun f => .rotateSecret (.error f) }
  | .revoke plugin context request => some {
      plugin := plugin
      context := context
      operation := revokeOperation
      organizationId := request.organizationId
      permission := managePermission
      valid := fun _ => (validRevocation request).isSome
      refuse := fun r => .revoke (.ok (.error r.revoke))
      fail := fun f => .revoke (.error f) }
  | _ => none

/-- The user that a projected assertion is about. -/
def subjectOf (assertion : Option ActorAssertion) : Option String := (assertion.bind userActor).filter validSubject

/-- How far the checks of a call have come. -/
inductive CheckPhase
  | outset
  | timed (now : Time)
  | projected (assertion : Option ActorAssertion)
  | member (subject : String) (answer : Except (InvocationError CheckMembershipError) CheckMembershipResponse)
  | decided (subject : String) (answer : Except (InvocationError CheckPermissionError) CheckPermissionResponse)

/-- The instance is active, the request valid and the caller on the list. -/
structure Listed (g : Guarded E) (active : ActiveServiceAccount E) : Prop where
  here : g.plugin.active = some active
  valid : g.valid active = true
  caller : (g.context.callerIn active.config.managementCallers).isSome = true

/-- The checks in their order; whatever comes when all of them are passed is free. -/
inductive CheckMove (call : Call E) : CheckPhase → (o : Effect) → Effect.Ans o → CheckPhase → Prop
  | free {φ o a} (hg : call.guarded = none) : CheckMove call φ o a φ
  | clock {g active t} (hg : call.guarded = some g) (hl : Listed g active) :
      CheckMove call .outset (.pool .nowUtc) t (.timed t)
  | project {g t a} (hg : call.guarded = some g) :
      CheckMove call (.timed t) (.pool (.projectContext capabilityId g.operation t)) a (.projected a)
  | membership {g assertion subject a} (hg : call.guarded = some g) (hs : subjectOf assertion = some subject) :
      CheckMove call (.projected assertion) (.pool (.checkMembership ⟨g.organizationId,subject⟩)) a
        (.member subject a)
  | permission {g subject a} (hg : call.guarded = some g) :
      CheckMove call (.member subject (.ok ⟨true⟩))
        (.pool (.checkPermission ⟨subject,⟨"organization",g.organizationId⟩,g.permission⟩)) a (.decided subject a)
  | allowed {subject o a} : CheckMove call (.decided subject (.ok ⟨true⟩)) o a (.decided subject (.ok ⟨true⟩))

/-- The replies to the answers of Organization Membership that refuse. -/
inductive MembershipRefuses (g : Guarded E) :
    Except (InvocationError CheckMembershipError) CheckMembershipResponse → Reply → Prop
  | required : MembershipRefuses g (.ok ⟨false⟩) (g.refuse .membershipRequired)
  | unknown : MembershipRefuses g (.error (.domain .organizationNotFound)) (g.refuse .organizationNotFound)
  | failed {e f} (he : e ≠ .domain .organizationNotFound) : MembershipRefuses g (.error e) (g.fail f)

/-- The replies to the answers of Access Control that refuse. -/
inductive PermissionRefuses (g : Guarded E) :
    Except (InvocationError CheckPermissionError) CheckPermissionResponse → Reply → Prop
  | denied : PermissionRefuses g (.ok ⟨false⟩) (g.refuse .accessDenied)
  | failed {e f} : PermissionRefuses g (.error e) (g.fail f)

/-- The replies that each phase of the checks allows. -/
inductive CheckLast (call : Call E) : Reply → CheckPhase → Prop
  | free {r φ} (hg : call.guarded = none) : CheckLast call r φ
  | inactive {g f} (hg : call.guarded = some g) (ha : g.plugin.active = none) : CheckLast call (g.fail f) .outset
  | invalid {g active} (hg : call.guarded = some g) (ha : g.plugin.active = some active)
      (hv : g.valid active = false) : CheckLast call (g.refuse .invalidRequest) .outset
  | caller {g active} (hg : call.guarded = some g) (ha : g.plugin.active = some active)
      (hv : g.valid active = true) (hc : g.context.callerIn active.config.managementCallers = none) :
      CheckLast call (g.refuse .forbidden) .outset
  | actor {g assertion} (hg : call.guarded = some g) (hs : subjectOf assertion = none) :
      CheckLast call (g.refuse .forbidden) (.projected assertion)
  | membership {g subject a r} (hg : call.guarded = some g) (hr : MembershipRefuses g a r) :
      CheckLast call r (.member subject a)
  | permission {g subject a r} (hg : call.guarded = some g) (hr : PermissionRefuses g a r) :
      CheckLast call r (.decided subject a)
  | allowed {subject r} : CheckLast call r (.decided subject (.ok ⟨true⟩))

/-- The protocol of the checks. -/
def checkProtocol (E : Environment) : Protocol (Call E) Effect Effect.Ans Reply CheckPhase where
  first _ := .outset
  move := CheckMove
  last := CheckLast

section Conformance
variable {call : Call E} {g : Guarded E} {active : ActiveServiceAccount E}
variable {ok : (o : Effect) → Effect.Ans o → Prop}

section Rules
variable {ε α : Type} {φ : CheckPhase} {Q : Except ε α → CheckPhase → Prop}

lemma conforms_throw {e : ε} (h : Q (.error e) φ) :
    Program.Conforms ok (CheckMove call) (throw e : Code ε α).run φ Q := h

lemma conforms_return {a : α} (h : Q (.ok a) φ) :
    Program.Conforms ok (CheckMove call) (pure a : Code ε α).run φ Q := h

lemma conforms_ask {o : Op} {f : o.Ans → Code ε α} (h : ∀ a, ∃ φ', CheckMove call φ (.pool o) a φ' ∧
    Program.Conforms ok (CheckMove call) (f a).run φ' Q) :
    Program.Conforms ok (CheckMove call) (ask o >>= f).run φ Q :=
  (Program.conforms_bind_except _ _ _ _).mpr fun a _ => h a

end Rules

/-- What a call replies when its authorization has failed. -/
def Guarded.answer (g : Guarded E) : AuthorizationError → Reply
  | .forbidden => g.refuse .forbidden
  | .organizationNotFound => g.refuse .organizationNotFound
  | .membershipRequired => g.refuse .membershipRequired
  | .accessDenied => g.refuse .accessDenied
  | .runtime f => g.fail f

/-- How the authorization of a call ends. -/
inductive Judged (call : Call E) (g : Guarded E) :
    Except AuthorizationError AuthorizedManagement → CheckPhase → Prop
  | passed {a subject} : Judged call g (.ok a) (.decided subject (.ok ⟨true⟩))
  | refused {e φ} (h : CheckLast call (g.answer e) φ) : Judged call g (.error e) φ

lemma membershipRefuses_error (g : Guarded E) (e : InvocationError CheckMembershipError) :
    MembershipRefuses g (.error e) (g.answer (mapMembershipError e)) := by
  rcases e with (_ | _ | code) | detail
  · exact .unknown
  · exact .failed (by simp)
  · exact .failed (by simp)
  · exact .failed (by simp)

lemma permissionRefuses_error (g : Guarded E) (e : InvocationError CheckPermissionError) :
    PermissionRefuses g (.error e) (g.answer (mapPermissionError e)) := by
  rcases e with (_ | code) | detail <;> exact .failed

theorem conforms_authorizeManagement (hg : call.guarded = some g) (ha : g.plugin.active = some active)
    (hv : g.valid active = true) :
    Program.Conforms ok (CheckMove call) (authorizeManagement active g.context capabilityId g.operation
      g.organizationId g.permission).run .outset (Judged call g) := by
  unfold authorizeManagement
  cases hc : g.context.callerIn active.config.managementCallers with
  | none => exact conforms_throw (.refused (.caller hg ha hv hc))
  | some caller =>
    have hl : Listed g active := ⟨ha,hv,by rw [hc]; rfl⟩
    refine conforms_ask fun now => ⟨_,.clock hg hl,conforms_ask fun assertion => ⟨_,.project hg,?_⟩⟩
    cases hu : assertion.bind userActor with
    | none => exact conforms_throw (.refused (.actor hg (by rw [subjectOf,hu]; rfl)))
    | some subject =>
      dsimp only
      split_ifs with hs
      · exact conforms_throw (.refused (.actor hg (by simp_all [subjectOf,Option.filter])))
      have hsubject : subjectOf assertion = some subject := by simp_all [subjectOf,Option.filter]
      refine conforms_ask fun membership => ⟨_,.membership hg hsubject,?_⟩
      cases membership with
      | error e => exact conforms_throw (.refused (.membership hg (membershipRefuses_error g e)))
      | ok membership =>
        obtain ⟨_ | _⟩ := membership
        · exact conforms_throw (.refused (.membership hg .required))
        refine conforms_ask fun decision => ⟨_,.permission hg,?_⟩
        cases decision with
        | error e => exact conforms_throw (.refused (.permission hg (permissionRefuses_error g e)))
        | ok decision =>
          obtain ⟨_ | _⟩ := decision
          · exact conforms_throw (.refused (.permission hg .denied))
          · exact conforms_return .passed

/-- When all checks are passed there is nothing left to keep to. -/
lemma conforms_passed {α : Type} (p : Program Effect Effect.Ans α) (reply : α → Reply) (subject : String) :
    p.Conforms ok (CheckMove call) (.decided subject (.ok ⟨true⟩)) fun r φ => CheckLast call (reply r) φ := by
  induction p with
  | pure r => exact .allowed
  | perform o next ih => exact fun a _ => ⟨_,.allowed,ih a⟩

lemma conforms_free (hg : call.guarded = none) (p : Program Effect Effect.Ans Reply) (φ : CheckPhase) :
    p.Conforms ok (CheckMove call) φ (CheckLast call) := by
  induction p with
  | pure r => exact .free hg
  | perform o next ih => exact fun a _ => ⟨_,.free hg,ih a⟩

theorem conforms_authorized {ε α : Type} {reply : Except RuntimeFailure (Except ε α) → Reply}
    {mapError : AuthorizationError → Except RuntimeFailure ε}
    (hmap : ∀ e, g.answer e = reply ((mapError e).map .error)) (hg : call.guarded = some g)
    (ha : g.plugin.active = some active) (hv : g.valid active = true)
    (next : AuthorizedManagement → Code RuntimeFailure (Except ε α)) :
    Program.Conforms ok (CheckMove call)
      (authorized active g.context g.operation g.organizationId g.permission mapError next).run .outset
      fun r φ => CheckLast call (reply r) φ := by
  refine (Program.conforms_bind_except _ _ _ _).mpr ((Program.conforms_bind _ _ _ _).mpr ?_)
  refine Program.Conforms.mono (conforms_authorizeManagement hg ha hv) ?_
  rintro r φ (_ | ⟨h⟩)
  · exact conforms_passed _ reply _
  · next e =>
    rw [hmap e] at h
    cases hr : mapError e with
    | ok error =>
      rw [hr] at h
      simp only [pure,Program.Conforms,hr]
      exact h
    | error f =>
      rw [hr] at h
      simp only [pure,Program.Conforms,hr]
      exact h

lemma conforms_reply {α : Type} {p : Code RuntimeFailure α} {reply : Except RuntimeFailure α → Reply} {φ : CheckPhase}
    (h : Program.Conforms ok (CheckMove call) p.run φ fun r φ' => CheckLast call (reply r) φ') :
    Program.Conforms ok (CheckMove call) (reply <$> p.run) φ (CheckLast call) :=
  (Program.conforms_bind p.run _ φ _).mpr h

/-- The instance is asked whether it is active before anything else. -/
lemma conforms_get {α : Type} {reply : Except RuntimeFailure α → Reply} (hg : call.guarded = some g)
    (hfail : ∀ f, g.fail f = reply (.error f)) {next : ActiveServiceAccount E → Code RuntimeFailure α}
    (h : ∀ active, g.plugin.active = some active → Program.Conforms ok (CheckMove call) (next active).run .outset
      fun r φ => CheckLast call (reply r) φ) :
    Program.Conforms ok (CheckMove call) (g.plugin.get >>= next).run .outset
      fun r φ => CheckLast call (reply r) φ := by
  refine (Program.conforms_bind_except _ _ _ _).mpr ?_
  unfold ServiceAccountPlugin.get
  cases ha : g.plugin.active with
  | none =>
    have hlast : CheckLast call (g.fail (.failure "Service Account Plugin is not active")) .outset := .inactive hg ha
    rw [hfail] at hlast
    exact hlast
  | some active => exact h active ha

end Conformance

/-- Every call keeps to the checks. -/
theorem checked (E : Environment) : (checkProtocol E).Obeyed (store E).serial Call.main := by
  intro call
  cases hcall : call with
  | create plugin context request =>
    have hg : (Call.create plugin context request).guarded = some _ := rfl
    refine conforms_reply (conforms_get hg (fun _ => rfl) fun active ha => ?_)
    split_ifs with hv
    · exact .invalid hg ha (by grind)
    · exact conforms_authorized (fun e => by cases e <;> rfl) hg ha (by grind) _
  | get plugin context request =>
    have hg : (Call.get plugin context request).guarded = some _ := rfl
    refine conforms_reply (conforms_get hg (fun _ => rfl) fun active ha => ?_)
    split_ifs with hv
    · exact .invalid hg ha (by grind)
    · exact conforms_authorized (fun e => by cases e <;> rfl) hg ha (by grind) _
  | list plugin context request =>
    have hg : (Call.list plugin context request).guarded = some _ := rfl
    have hcursor : (request.after.all fun cursor => validToken cursor 128) =
        !request.after.any fun cursor => !validToken cursor 128 := by cases request.after <;> simp
    refine conforms_reply (conforms_get hg (fun _ => rfl) fun active ha => ?_)
    cases hl : parsePageLimit request.limit active.config.maxPageSize with
    | none => exact .invalid hg ha (by simp [hl])
    | some limit =>
      dsimp only
      split_ifs with hv
      · exact .invalid hg ha (by grind)
      · exact conforms_authorized (fun e => by cases e <;> rfl) hg ha (by grind) _
  | rotateSecret plugin context request =>
    have hg : (Call.rotateSecret plugin context request).guarded = some _ := rfl
    refine conforms_reply (conforms_get hg (fun _ => rfl) fun active ha => ?_)
    cases hv : validRotation request with
    | none => exact .invalid hg ha (by simp [hv])
    | some revision => exact conforms_authorized (fun e => by cases e <;> rfl) hg ha (by simp [hv]) _
  | revoke plugin context request =>
    have hg : (Call.revoke plugin context request).guarded = some _ := rfl
    refine conforms_reply (conforms_get hg (fun _ => rfl) fun active ha => ?_)
    cases hv : validRevocation request with
    | none => exact .invalid hg ha (by simp [hv])
    | some revision => exact conforms_authorized (fun e => by cases e <;> rfl) hg ha (by simp [hv]) _
  | exchangeSecret plugin context request => exact conforms_free rfl _ _
  | inspectCommand caller operation idempotencyKey => exact conforms_free rfl _ _

/-- The call has performed the operation and got the answer. -/
def Asked (i : ℕ) (tr : List (CallStep E)) (o : Op) (a : o.Ans) : Prop :=
  ∃ x ∈ tr, x.tid = i ∧ x.action = .perform (.pool o) a

/-- The assertion of the context has been projected for this capability and this operation, onto a user. -/
def Projected (g : Guarded E) (i : ℕ) (tr : List (CallStep E)) (subject : String) : Prop :=
  ∃ now assertion, Asked i tr (.projectContext capabilityId g.operation now) assertion ∧
    subjectOf assertion = some subject

/-- All four checks of a call are passed. -/
structure Passed (g : Guarded E) (i : ℕ) (tr : List (CallStep E)) : Prop where
  listed : ∃ active, Listed g active
  checks : ∃ subject, Projected g i tr subject ∧
    Asked i tr (.checkMembership ⟨g.organizationId,subject⟩) (.ok ⟨true⟩) ∧
    Asked i tr (.checkPermission ⟨subject,⟨"organization",g.organizationId⟩,g.permission⟩) (.ok ⟨true⟩)

/-- The reply that the first failing check makes. -/
inductive Refuses (g : Guarded E) (i : ℕ) (tr : List (CallStep E)) : Reply → Prop
  | inactive {f} (ha : g.plugin.active = none) : Refuses g i tr (g.fail f)
  | invalid {active} (ha : g.plugin.active = some active) (hv : g.valid active = false) :
      Refuses g i tr (g.refuse .invalidRequest)
  | caller {active} (ha : g.plugin.active = some active) (hv : g.valid active = true)
      (hc : g.context.callerIn active.config.managementCallers = none) : Refuses g i tr (g.refuse .forbidden)
  | actor {active now assertion} (hl : Listed g active)
      (hp : Asked i tr (.projectContext capabilityId g.operation now) assertion)
      (hs : subjectOf assertion = none) : Refuses g i tr (g.refuse .forbidden)
  | membership {active subject a r} (hl : Listed g active) (hp : Projected g i tr subject)
      (ha : Asked i tr (.checkMembership ⟨g.organizationId,subject⟩) a) (hr : MembershipRefuses g a r) :
      Refuses g i tr r
  | permission {active subject a r} (hl : Listed g active) (hp : Projected g i tr subject)
      (hm : Asked i tr (.checkMembership ⟨g.organizationId,subject⟩) (.ok ⟨true⟩))
      (ha : Asked i tr (.checkPermission ⟨subject,⟨"organization",g.organizationId⟩,g.permission⟩) a)
      (hr : PermissionRefuses g a r) : Refuses g i tr r

/-- The operations of the checks themselves. -/
def Effect.checks : Effect → Bool
  | .pool .nowUtc | .pool (.projectContext _ _ _) | .pool (.checkMembership _) | .pool (.checkPermission _) => true
  | _ => false

/-- The step does something else than checking: it reads or writes the store, or it asks the directory
or the issuer. -/
def acts (e : CallStep E) : Bool :=
  match e.action with
  | .perform o _ => !o.checks
  | _ => false

/-- What a call has done in a phase of its checks. -/
def CheckPhase.Evidence (g : Guarded E) (i : ℕ) (tr : List (CallStep E)) : CheckPhase → Prop
  | .outset => True
  | .timed _ => ∃ active, Listed g active
  | .projected a => (∃ active, Listed g active) ∧
      ∃ now, Asked i tr (.projectContext capabilityId g.operation now) a
  | .member subject a => (∃ active, Listed g active) ∧ Projected g i tr subject ∧
      Asked i tr (.checkMembership ⟨g.organizationId,subject⟩) a
  | .decided subject a => (∃ active, Listed g active) ∧ Projected g i tr subject ∧
      Asked i tr (.checkMembership ⟨g.organizationId,subject⟩) (.ok ⟨true⟩) ∧
      Asked i tr (.checkPermission ⟨subject,⟨"organization",g.organizationId⟩,g.permission⟩) a

section Steps
variable {tr : List (CallStep E)} {d : Database} {p p' : Protocol.Phases (Call E) CheckPhase} {e : CallStep E}
variable {g : Guarded E} {i : ℕ}

lemma Asked.cons {o : Op} {a : o.Ans} (h : Asked i tr o a) : Asked i (e :: tr) o a := by
  obtain ⟨x,hx,hi,ha⟩ := h
  exact ⟨x,List.mem_cons_of_mem e hx,hi,ha⟩

lemma asked_self {call : Call E} {o : Op} {a : o.Ans} {d' : Database} :
    Asked i (⟨i,call,.perform (.pool o) a,d,d'⟩ :: tr) o a := ⟨_,List.mem_cons_self,rfl,rfl⟩

lemma Projected.cons {subject : String} (h : Projected g i tr subject) : Projected g i (e :: tr) subject := by
  obtain ⟨now,assertion,ha,hs⟩ := h
  exact ⟨now,assertion,ha.cons,hs⟩

lemma CheckPhase.Evidence.cons {φ : CheckPhase} (h : φ.Evidence g i tr) : φ.Evidence g i (e :: tr) := by
  cases φ with
  | outset => exact h
  | timed now => exact h
  | projected a => exact ⟨h.1,h.2.choose,h.2.choose_spec.cons⟩
  | member subject a => exact ⟨h.1,h.2.1.cons,h.2.2.cons⟩
  | decided subject a => exact ⟨h.1,h.2.1.cons,h.2.2.1.cons,h.2.2.2.cons⟩

/-- The phases of guarded calls have their evidence. -/
def Evident (tr : List (CallStep E)) (p : Protocol.Phases (Call E) CheckPhase) : Prop :=
  ∀ i call φ g, p i = some (call, φ) → call.guarded = some g → φ.Evidence g i tr

lemma CheckMove.evidence {call : Call E} {φ φ' : CheckPhase} {o : Effect} {a : Effect.Ans o} {d' : Database}
    (hm : CheckMove call φ o a φ') (hg : call.guarded = some g) (h : φ.Evidence g i tr) :
    φ'.Evidence g i (⟨i,call,.perform o a,d,d'⟩ :: tr) := by
  cases hm with
  | free hn => exact h.cons
  | clock hg' hl =>
    obtain rfl := Option.some.inj (hg.symm.trans hg')
    exact ⟨_,hl⟩
  | project hg' =>
    obtain rfl := Option.some.inj (hg.symm.trans hg')
    exact ⟨h,_,asked_self⟩
  | membership hg' hs =>
    obtain rfl := Option.some.inj (hg.symm.trans hg')
    obtain ⟨hl,now,hp⟩ := h
    exact ⟨hl,⟨now,_,hp.cons,hs⟩,asked_self⟩
  | permission hg' =>
    obtain rfl := Option.some.inj (hg.symm.trans hg')
    obtain ⟨hl,hp,hm⟩ := h
    exact ⟨hl,hp.cons,hm.cons,asked_self⟩
  | allowed => exact h.cons

theorem evident_invariant (E : Environment) (d₀ : Database) :
    (checkProtocol E).Invariant (store E).serial d₀ fun tr _ p => Evident tr p where
  init _ _ _ _ h := by cases h
  step {tr s p e p'} h hs := by
    intro j call φ g hj hg
    by_cases hje : j = e.tid
    · subst hje
      cases hs with
      | start i call' hp hi =>
        simp only [Function.update_self,Option.some.injEq,Prod.mk.injEq] at hj
        rw [← hj.2]
        trivial
      | reply i call' ψ r hp hl => simp at hj
      | stop i call' ψ hp => simp at hj
      | perform i call' ψ φ' o choice a s' hp hm hH =>
        simp only [Function.update_self,Option.some.injEq,Prod.mk.injEq] at hj
        obtain ⟨rfl,rfl⟩ := hj
        exact hm.evidence hg (h i call' ψ g hp hg)
    · rw [hs.other hje] at hj
      exact (h j call φ g hj hg).cons

/-- The checks in the phases that are free of them. -/
lemma CheckPhase.Evidence.passed {subject : String} (h : (CheckPhase.decided subject (.ok ⟨true⟩)).Evidence g i tr) :
    Passed g i tr := ⟨h.1,subject,h.2⟩

/-- A step that does something else than checking comes after all checks. -/
lemma passed_of_acts (h : Evident tr p) (hs : (checkProtocol E).Step (store E).serial tr d p e p')
    (hg : e.call.guarded = some g) (ha : acts e = true) : Passed g e.tid tr := by
  cases hs with
  | start i call hp hi => cases ha
  | reply i call φ r hp hl => cases ha
  | stop i call φ hp => cases ha
  | perform i call φ φ' o choice a s' hp hm hH =>
    cases hm with
    | free hn => exact absurd (hg.symm.trans hn) (by simp)
    | allowed => exact (h i call _ g hp hg).passed
    | _ => cases ha

lemma after_eq_of_not_acts (hs : (checkProtocol E).Step (store E).serial tr d p e p') (ha : acts e = false) :
    e.after = e.before := by
  cases hs with
  | perform i call φ φ' o choice a s' hp hm hH =>
    cases o with
    | transact t => cases ha
    | pool o =>
      obtain ⟨ch,hx⟩ := Op.handle_of_serial hH
      exact Op.handle_same (fun s hs => by subst hs; cases ha) hx
  | _ => rfl

lemma refuses_of_last (h : Evident tr p) (hs : (checkProtocol E).Step (store E).serial tr d p e p')
    (hg : e.call.guarded = some g) {r : Reply} (hr : e.action = .reply r) (hn : ¬Passed g e.tid tr) :
    Refuses g e.tid tr r := by
  cases hs with
  | start i call hp hi => cases hr
  | perform i call φ φ' o choice a s' hp hm hH => cases hr
  | stop i call φ hp => cases hr
  | reply i call φ r' hp hl =>
    cases hr
    have hev := h i call φ g hp hg
    cases hl with
    | free hf => exact absurd (hg.symm.trans hf) (by simp)
    | inactive hg' ha =>
      obtain rfl := Option.some.inj (hg.symm.trans hg')
      exact .inactive ha
    | invalid hg' ha hv =>
      obtain rfl := Option.some.inj (hg.symm.trans hg')
      exact .invalid ha hv
    | caller hg' ha hv hc =>
      obtain rfl := Option.some.inj (hg.symm.trans hg')
      exact .caller ha hv hc
    | actor hg' hs =>
      obtain rfl := Option.some.inj (hg.symm.trans hg')
      obtain ⟨⟨active,hl⟩,now,hp⟩ := hev
      exact .actor hl hp hs
    | membership hg' hr =>
      obtain rfl := Option.some.inj (hg.symm.trans hg')
      obtain ⟨⟨active,hl⟩,hp,ha⟩ := hev
      exact .membership hl hp ha hr
    | permission hg' hr =>
      obtain rfl := Option.some.inj (hg.symm.trans hg')
      obtain ⟨⟨active,hl⟩,hp,hm,ha⟩ := hev
      exact .permission hl hp hm ha hr
    | allowed => exact absurd hev.passed hn

end Steps

/-- The checks of management calls over a whole run. -/
structure Gated (c : Run (Call E) Reply) : Prop where
  /-- What looks at the store or at the directory has passed all checks. -/
  acts : ∀ post e pre g, c.trace = post ++ e :: pre → e.call.guarded = some g → acts e = true → Passed g e.tid pre
  idle : ∀ post e pre g, c.trace = post ++ e :: pre → e.call.guarded = some g → ¬Passed g e.tid pre →
    e.after = e.before
  refused : ∀ post e pre g, c.trace = post ++ e :: pre → e.call.guarded = some g → ¬Passed g e.tid pre →
    ∀ r, e.action = .reply r → Refuses g e.tid pre r ∧ r.succeeds = false

lemma Guarded.succeeds {call : Call E} {g : Guarded E} (h : call.guarded = some g) :
    (∀ r, (g.refuse r).succeeds = false) ∧ ∀ f, (g.fail f).succeeds = false := by
  cases call <;> simp only [Call.guarded,Option.some.injEq,reduceCtorEq] at h <;> subst h <;>
    exact ⟨fun _ => rfl,fun _ => rfl⟩

lemma Refuses.unsuccessful {call : Call E} {g : Guarded E} (hg : call.guarded = some g) {i : ℕ}
    {tr : List (CallStep E)} {r : Reply} (h : Refuses g i tr r) : r.succeeds = false := by
  obtain ⟨hrefuse,hfail⟩ := Guarded.succeeds hg
  cases h with
  | inactive ha => exact hfail _
  | membership hl hp ha hr => cases hr <;> first | exact hrefuse _ | exact hfail _
  | permission hl hp hm ha hr => cases hr <;> first | exact hrefuse _ | exact hfail _
  | _ => exact hrefuse _

/-- No management call does anything before its checks are passed, in every run from every database. -/
theorem gated {d : Database} {c : Run (Call E) Reply} (hc : LockedConfig.Reachable (store E) Call.main d c) :
    Gated c := by
  have hevent := fun {post : List (CallStep E)} {e pre} (he : c.trace = post ++ e :: pre) =>
    (evident_invariant E d).event (checked E) (serializable hc) he
  refine ⟨fun post e pre g he hg ha => ?_,fun post e pre g he hg hn => ?_,fun post e pre g he hg hn r hr => ?_⟩
  · obtain ⟨p,p',h,hs⟩ := hevent he
    exact passed_of_acts h hs hg ha
  · obtain ⟨p,p',h,hs⟩ := hevent he
    cases ha : acts e with
    | true => exact absurd (passed_of_acts h hs hg ha) hn
    | false => exact after_eq_of_not_acts hs ha
  · obtain ⟨p,p',h,hs⟩ := hevent he
    have hrefuses := refuses_of_last h hs hg hr hn
    exact ⟨hrefuses,hrefuses.unsuccessful hg⟩

set_option maxRecDepth 4000 in
/-- A creation that has passed its checks. -/
theorem gated_sample : sampleClaimRun.trace.any acts = true ∧ Gated sampleClaimRun :=
  ⟨by decide +kernel,gated sampleClaimRun_reachable⟩

end LensoServiceAccount
