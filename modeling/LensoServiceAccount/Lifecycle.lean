import LensoServiceAccount.Library.Interleaving
import LensoServiceAccount.Library.Owners
import LensoServiceAccount.Rotation

/-! Activation and deactivation of an instance, run by its host in any order and dropped
anywhere: the secrets they resolve, the pools they open and close, and the two cells that all
clones of the instance share. -/

namespace LensoServiceAccount

/-- A pool of connections, told apart from all others by its number. -/
structure OwnedPostgres where
  pool : ℕ
  schema : String
  deriving DecidableEq,Repr

structure ActorAssertionVerifier where
  issuer : String
  publicKey : String
  deriving DecidableEq,Repr

/-- What `activate` puts into the cell `active`, field by field. -/
structure Installed where
  postgres : OwnedPostgres
  config : ServiceAccountConfig
  pepper : Bytes
  receiptCipher : ReceiptCipher
  actorVerifier : ActorAssertionVerifier
  dummyVerifier : String
  deriving DecidableEq

/-- The cells of an instance, and the pools that were opened and closed for it. -/
structure Cells where
  postgres : Option OwnedPostgres
  active : Option Installed
  opened : ℕ
  closed : List ℕ

def Cells.empty : Cells := ⟨none,none,0,[]⟩

/-- `install` replaces both cells, `take` empties both: nothing is awaited in between. -/
inductive LifecycleOp
  | resolve (reference : String)
  | prepare (databaseUrl schema : String)
  | getrandom (count : ℕ)
  | install (value : Installed)
  | take
  | close (postgres : OwnedPostgres)
  deriving DecidableEq

abbrev LifecycleOp.Ans : LifecycleOp → Type
  | .resolve _ => Except (InvocationError String) String
  | .prepare _ _ => Except String OwnedPostgres
  | .getrandom _ => Option Bytes
  | .install _ => Unit
  | .take => Option OwnedPostgres
  | .close _ => Unit

/-- What the surroundings answer in one step. -/
structure LifecycleChoice where
  secret : Except (InvocationError String) String := .error (.runtime "")
  refused : Option String := none
  entropy : Option Bytes := none

def LifecycleOp.handle : Program.Handler LifecycleOp LifecycleOp.Ans LifecycleChoice Cells
  | .resolve _, c, s => some (c.secret,s)
  | .prepare _ schema, c, s =>
    match c.refused with
    | some detail => some (.error detail,s)
    | none => some (.ok ⟨s.opened,schema⟩,{ s with opened := s.opened + 1 })
  | .getrandom count, c, s => some (c.entropy.filter fun bytes => bytes.length = count,s)
  | .install value, _, s => some ((),{ s with postgres := some value.postgres, active := some value })
  | .take, _, s => some (s.postgres,{ s with postgres := none, active := none })
  | .close postgres, _, s => some ((),{ s with closed := postgres.pool :: s.closed })

/-- The failures of activation: those of every other call, and a plan that cannot be carried out. -/
inductive ActivateFailure
  | runtime (failure : RuntimeFailure)
  | invalidResolvedPlan (detail : String)
  deriving DecidableEq,Repr

/-- The text of the error. -/
def ServiceAccountConfigError.message : ServiceAccountConfigError → String
  | .invalidSchema => "invalid owned PostgreSQL schema"
  | .invalidSecretReferences =>
    "database, credential pepper, and receipt encryption need distinct secret references"
  | .invalidAuthorities => "invalid Identity Directory provider or Auth issuer"
  | .invalidAuthPublicKey => "invalid Auth actor assertion public key"
  | .invalidAuthoritySet => "caller or audience sets must contain unique exact Instance keys"
  | .invalidLimits => "invalid credential, token, receipt, rate, page, or organization limit"

/-- The check that the host makes before it activates an instance. -/
def validateConfig (E : Environment) (config : ServiceAccountConfig) : Except ActivateFailure Unit :=
  (config.validate E).mapError fun error =>
    .invalidResolvedPlan ("Service Account configuration is invalid: " ++ error.message)

abbrev LifecycleCode (α : Type) := ExceptT ActivateFailure (Program LifecycleOp LifecycleOp.Ans) α

def secretError (label : String) : InvocationError String → ActivateFailure
  | .domain _ => .runtime (.failure ("Service Account " ++ label ++ " secret was rejected"))
  | .runtime detail => .runtime (.dependency detail)

/-- `secrets.resolve_with_context`, its failure labelled. A context that cannot be made for the
invocation fails as the invocation itself does. -/
def resolveSecret (reference label : String) : LifecycleCode String :=
  ExceptT.mk (.perform (.resolve reference) fun r => .pure (r.mapError (secretError label)))

/-- `OwnedPostgres::prepare`. -/
def OwnedPostgres.prepare (databaseUrl schema : String) : LifecycleCode OwnedPostgres :=
  ExceptT.mk (.perform (.prepare databaseUrl schema) fun r =>
    .pure (r.mapError fun detail => .runtime (.failure detail)))

def dummySecret : String := "invalid service-account credential"

/-- `hash_secret` of the secret that stands in for a missing credential. -/
def hashDummy (E : Environment) (pepper : Bytes) : LifecycleCode String :=
  ExceptT.mk (((hashSecret E dummySecret pepper).mapError fun e =>
    ActivateFailure.runtime (.pluginFailure (.crypto e))).run.translate .getrandom fun _ a => a)

/-- `activate`. `planError` is the text of the `PlanError` for a schema name. -/
def activate (E : Environment) (planError : String → String) (config : ServiceAccountConfig) :
    LifecycleCode Unit := do
  let databaseUrl ← resolveSecret config.databaseUrlSecret "database URL"
  let pepper ← resolveSecret config.credentialPepperSecret "credential pepper"
  let receiptKey ← resolveSecret config.receiptEncryptionKeySecret "receipt encryption key"
  if (asBytes pepper).length < 32 || (asBytes receiptKey).length < 32 then
    throw (.runtime (.failure
      "Service Account pepper and receipt encryption key must each contain at least 32 bytes"))
  else if !E.schemaPlan config.schema then throw (.invalidResolvedPlan (planError config.schema))
  else
    let postgres ← OwnedPostgres.prepare databaseUrl config.schema
    if !E.actorVerifier config.authIssuer config.authPublicKey then
      throw (.invalidResolvedPlan "invalid Service Account Auth verification key")
    else
      let dummyVerifier ← hashDummy E (asBytes pepper)
      ExceptT.mk (.perform
        (.install
          { postgres := postgres
            config := config
            pepper := asBytes pepper
            receiptCipher := ReceiptCipher.derive E (asBytes receiptKey)
            actorVerifier := ⟨config.authIssuer,config.authPublicKey⟩
            dummyVerifier := dummyVerifier })
        fun _ => .pure (.ok ()))

/-- `deactivate`. -/
def deactivate : Program LifecycleOp LifecycleOp.Ans Unit :=
  .perform .take fun
    | some postgres => .perform (.close postgres) fun _ => .pure ()
    | none => .pure ()

inductive LifecycleCall
  | activate
  | deactivate
  deriving DecidableEq,Repr

inductive LifecycleReply
  | activate (r : Except ActivateFailure Unit)
  | deactivate
  deriving DecidableEq

def LifecycleCall.main (E : Environment) (planError : String → String) (config : ServiceAccountConfig) :
    LifecycleCall → Program LifecycleOp LifecycleOp.Ans LifecycleReply
  | .activate => LifecycleReply.activate <$> (LensoServiceAccount.activate E planError config).run
  | .deactivate => (fun _ => LifecycleReply.deactivate) <$> LensoServiceAccount.deactivate

abbrev LifecycleEvent := Event LifecycleCall LifecycleOp LifecycleOp.Ans LifecycleReply Cells

/-- Activations and deactivations of one instance, running concurrently. -/
abbrev Lifecycle := Config LifecycleCall LifecycleOp LifecycleOp.Ans LifecycleReply Cells

abbrev Lifecycle.Reachable (E : Environment) (planError : String → String) (config : ServiceAccountConfig)
    (c : Lifecycle) : Prop :=
  Config.Reachable (LifecycleCall.main E planError config) LifecycleOp.handle Cells.empty c

section Phases
variable {E : Environment} {planError : String → String} {config : ServiceAccountConfig}

/-- The value made of three secrets, a pool and a salt. -/
structure Installed.Made (E : Environment) (c : ServiceAccountConfig) (secret receiptKey : String)
    (opened : OwnedPostgres) (salt : Bytes) (v : Installed) : Prop where
  postgres : v.postgres = opened
  config : v.config = c
  pepper : v.pepper = asBytes secret
  longPepper : 32 ≤ (asBytes secret).length
  longKey : 32 ≤ (asBytes receiptKey).length
  receiptCipher : v.receiptCipher = ReceiptCipher.derive E (asBytes receiptKey)
  actorVerifier : v.actorVerifier = ⟨c.authIssuer,c.authPublicKey⟩
  dummyVerifier : E.hashPassword (peppered dummySecret (asBytes secret)) salt = some v.dummyVerifier

/-- How far a call has come. -/
inductive Progress
  | asked (secrets : List String)
  | opened (databaseUrl pepper receiptKey : String) (postgres : OwnedPostgres)
  | salted (databaseUrl pepper receiptKey : String) (postgres : OwnedPostgres) (salt : Bytes)
  | live (value : Installed)
  | leaving
  | found (postgres : OwnedPostgres)
  | gone

/-- The pool that the call alone knows. -/
def Progress.hand : Progress → Option OwnedPostgres
  | opened _ _ _ postgres | salted _ _ _ postgres _ | found postgres => some postgres
  | _ => none

/-- An activation that has installed nothing. -/
def Progress.unfinished : Progress → Bool
  | asked _ | opened _ _ _ _ | salted _ _ _ _ _ => true
  | _ => false

/-- The operations of a call and what they are answered. -/
inductive Progress.Move (E : Environment) (config : ServiceAccountConfig) :
    Progress → (o : LifecycleOp) → o.Ans → Progress → Prop
  | resolved {secrets : List String} {reference value : String}
      (h : config.secretReferences[secrets.length]? = some reference) :
      Move E config (asked secrets) (.resolve reference) (.ok value) (asked (secrets ++ [value]))
  | unresolved {secrets : List String} {reference : String} {error : InvocationError String} :
      Move E config (asked secrets) (.resolve reference) (.error error) (asked secrets)
  | prepared {databaseUrl pepper receiptKey : String} {postgres : OwnedPostgres} :
      Move E config (asked [databaseUrl,pepper,receiptKey]) (.prepare databaseUrl config.schema) (.ok postgres)
        (opened databaseUrl pepper receiptKey postgres)
  | unprepared {databaseUrl pepper receiptKey detail : String} :
      Move E config (asked [databaseUrl,pepper,receiptKey]) (.prepare databaseUrl config.schema) (.error detail)
        (asked [databaseUrl,pepper,receiptKey])
  | salted {databaseUrl pepper receiptKey : String} {postgres : OwnedPostgres} {salt : Bytes}
      (h : salt.length = 16) :
      Move E config (opened databaseUrl pepper receiptKey postgres) (.getrandom 16) (some salt)
        (salted databaseUrl pepper receiptKey postgres salt)
  | unsalted {databaseUrl pepper receiptKey : String} {postgres : OwnedPostgres} :
      Move E config (opened databaseUrl pepper receiptKey postgres) (.getrandom 16) none
        (opened databaseUrl pepper receiptKey postgres)
  | installed {databaseUrl pepper receiptKey : String} {postgres : OwnedPostgres} {salt : Bytes}
      {value : Installed} (h : value.Made E config pepper receiptKey postgres salt) :
      Move E config (salted databaseUrl pepper receiptKey postgres salt) (.install value) () (live value)
  | found {postgres : OwnedPostgres} : Move E config leaving .take (some postgres) (found postgres)
  | vacant : Move E config leaving .take none gone
  | closed {postgres : OwnedPostgres} : Move E config (found postgres) (.close postgres) () gone

/-- The replies of a call. A validated configuration is never refused as a plan. -/
def Progress.Last : LifecycleReply → Progress → Prop
  | .activate (.ok _), φ => ∃ value, φ = live value
  | .activate (.error failure), φ => φ.unfinished = true ∧ ∃ f, failure = .runtime f
  | .deactivate, φ => φ = gone

def LifecycleCall.first : LifecycleCall → Progress
  | .activate => .asked []
  | .deactivate => .leaving

def lifecycleProtocol (E : Environment) (config : ServiceAccountConfig) :
    Protocol LifecycleCall LifecycleOp LifecycleOp.Ans LifecycleReply Progress where
  first := LifecycleCall.first
  move _ := Progress.Move E config
  last _ := Progress.Last

/-- From `φ` on the code keeps to the protocol and ends as `Q` says. -/
def Abides (E : Environment) (config : ServiceAccountConfig) {α : Type} (p : LifecycleCode α) (φ : Progress)
    (Q : Except ActivateFailure α → Progress → Prop) : Prop :=
  Program.Conforms (Protocol.Possible LifecycleOp.handle) (Progress.Move E config) p.run φ Q

lemma abides_bind {α β : Type} {p : LifecycleCode β} {f : β → LifecycleCode α} {φ : Progress}
    {Q : Except ActivateFailure α → Progress → Prop}
    (h : Abides E config p φ fun r φ' =>
      match r with
      | .ok b => Abides E config (f b) φ' Q
      | .error e => Q (.error e) φ') : Abides E config (p >>= f) φ Q := by
  refine (Program.conforms_bind_except p f φ Q).mpr (Program.Conforms.mono h ?_)
  rintro (e | b) φ' hr <;> exact hr

/-- The next secret of the configuration is asked for. -/
lemma abides_resolveSecret {secrets : List String} {reference label : String}
    {Q : Except ActivateFailure String → Progress → Prop}
    (h : config.secretReferences[secrets.length]? = some reference)
    (hok : ∀ value, Q (.ok value) (.asked (secrets ++ [value])))
    (herror : ∀ e, Q (.error (.runtime e)) (.asked secrets)) :
    Abides E config (resolveSecret reference label) (.asked secrets) Q := by
  intro r _
  rcases r with (e | detail) | value
  · exact ⟨_,.unresolved,herror _⟩
  · exact ⟨_,.unresolved,herror _⟩
  · exact ⟨_,.resolved h,hok value⟩

lemma abides_prepare {databaseUrl pepper receiptKey : String}
    {Q : Except ActivateFailure OwnedPostgres → Progress → Prop}
    (hok : ∀ postgres, Q (.ok postgres) (.opened databaseUrl pepper receiptKey postgres))
    (herror : ∀ e, Q (.error (.runtime e)) (.asked [databaseUrl,pepper,receiptKey])) :
    Abides E config (OwnedPostgres.prepare databaseUrl config.schema)
      (.asked [databaseUrl,pepper,receiptKey]) Q := by
  intro r _
  rcases r with detail | postgres
  · exact ⟨_,.unprepared,herror _⟩
  · exact ⟨_,.prepared,hok postgres⟩

/-- `hash_secret` draws its salt and computes. -/
lemma hashDummy_eq {pepper : Bytes} : (hashDummy E pepper).run = .perform (.getrandom 16) fun answer =>
    .pure (match answer with
      | none => .error (.runtime (.pluginFailure (.crypto .random)))
      | some salt =>
        match E.hashPassword (peppered dummySecret pepper) salt with
        | some verifier => .ok verifier
        | none => .error (.runtime (.pluginFailure (.crypto .passwordHash)))) := by
  change Program.perform _ _ = _
  congr 1
  funext answer
  cases answer with
  | none => rfl
  | some salt =>
    change Program.translate _ _ (Program.bind (ExceptT.run
      (match E.hashPassword (peppered dummySecret pepper) salt with
      | some verifier => (pure verifier : Entropy CryptoError String)
      | none => throw CryptoError.passwordHash)) _) = _
    dsimp only
    cases E.hashPassword (peppered dummySecret pepper) salt <;> rfl

lemma abides_hashDummy {databaseUrl pepper receiptKey : String} {postgres : OwnedPostgres}
    {Q : Except ActivateFailure String → Progress → Prop}
    (hok : ∀ salt verifier, E.hashPassword (peppered dummySecret (asBytes pepper)) salt = some verifier →
      Q (.ok verifier) (.salted databaseUrl pepper receiptKey postgres salt))
    (herror : ∀ e φ, φ.unfinished = true → Q (.error (.runtime e)) φ) :
    Abides E config (hashDummy E (asBytes pepper)) (.opened databaseUrl pepper receiptKey postgres) Q := by
  rw [Abides,hashDummy_eq]
  rintro answer ⟨c,s,s',hc⟩
  simp only [LifecycleOp.handle,Option.some.injEq,Prod.mk.injEq] at hc
  cases answer with
  | none => exact ⟨_,.unsalted,herror _ _ rfl⟩
  | some salt =>
    refine ⟨_,.salted (of_decide_eq_true (Option.filter_eq_some_iff.mp hc.1).2),?_⟩
    cases hv : E.hashPassword (peppered dummySecret (asBytes pepper)) salt with
    | none =>
      simp only [hv]
      exact herror _ (.salted databaseUrl pepper receiptKey postgres salt) rfl
    | some verifier =>
      simp only [hv]
      exact hok salt verifier hv

lemma validate_of_validateConfig (h : validateConfig E config = .ok ()) : config.validate E = .ok () := by
  unfold validateConfig at h
  cases hv : config.validate E with
  | ok u => rfl
  | error e => simp [hv,Except.mapError] at h

/-- A validated configuration names a schema and a key that are accepted. -/
lemma validateConfig_plan (hvalid : validateConfig E config = .ok ()) :
    E.schemaPlan config.schema = true ∧ E.actorVerifier config.authIssuer config.authPublicKey = true := by
  have h := validate_of_validateConfig hvalid
  unfold ServiceAccountConfig.validate at h
  split_ifs at h with h₁ h₂ h₃ h₄ h₅
  exact ⟨by simpa using h₁,by simpa using h₅⟩

lemma abides_activate (h : validateConfig E config = .ok ()) :
    Abides E config (activate E planError config) (.asked []) fun r φ => φ.Last (.activate r) := by
  obtain ⟨hschema,hkey⟩ := validateConfig_plan h
  refine abides_bind (abides_resolveSecret rfl (fun databaseUrl => ?_) fun e => ⟨rfl,e,rfl⟩)
  refine abides_bind (abides_resolveSecret rfl (fun pepper => ?_) fun e => ⟨rfl,e,rfl⟩)
  refine abides_bind (abides_resolveSecret rfl (fun receiptKey => ?_) fun e => ⟨rfl,e,rfl⟩)
  dsimp only [List.nil_append,List.cons_append]
  by_cases hshort : ((asBytes pepper).length < 32 || (asBytes receiptKey).length < 32) = true
  · rw [if_pos hshort]
    exact ⟨rfl,_,rfl⟩
  rw [if_neg hshort,if_neg (by simp [hschema])]
  simp only [Bool.or_eq_true,decide_eq_true_eq,not_or,not_lt] at hshort
  refine abides_bind (abides_prepare (fun postgres => ?_) fun e => ⟨rfl,e,rfl⟩)
  dsimp only
  rw [if_neg (by simp [hkey])]
  refine abides_bind (abides_hashDummy (fun salt verifier hv => ?_) fun e φ hφ => ⟨hφ,e,rfl⟩)
  rintro answer -
  exact ⟨_,.installed ⟨rfl,rfl,rfl,hshort.1,hshort.2,rfl,rfl,hv⟩,_,rfl⟩

theorem lifecycle_obeyed (h : validateConfig E config = .ok ()) :
    (lifecycleProtocol E config).Obeyed LifecycleOp.handle (LifecycleCall.main E planError config) := by
  rintro (_ | _)
  · exact (Program.conforms_bind _ _ _ _).mpr (abides_activate h)
  · rintro answer -
    cases answer with
    | none => exact ⟨_,.vacant,rfl⟩
    | some postgres => exact ⟨_,.found,fun _ _ => ⟨_,.closed,rfl⟩⟩

end Phases

section Invariants
variable {E : Environment} {planError : String → String} {config : ServiceAccountConfig}
variable {tr : List LifecycleEvent} {e : LifecycleEvent} {i : ℕ} {o : LifecycleOp} {a : o.Ans} {φ φ' : Progress}

/-- A call did the operation and was answered so. -/
def Did (tr : List LifecycleEvent) (i : ℕ) (o : LifecycleOp) (a : o.Ans) : Prop :=
  ∃ e ∈ tr, e.tid = i ∧ e.action = .perform o a

lemma Did.cons (h : Did tr i o a) : Did (e :: tr) i o a := by
  obtain ⟨x,hx,hxe⟩ := h
  exact ⟨x,List.mem_cons_of_mem e hx,hxe⟩

lemma Did.head (hi : e.tid = i) (ha : e.action = .perform o a) : Did (e :: tr) i o a :=
  ⟨e,List.mem_cons_self,hi,ha⟩

/-- What an activation needs before it can install: the three secrets it asked for, and a pool
opened with the first of them. -/
structure Equipped (config : ServiceAccountConfig) (tr : List LifecycleEvent) (i : ℕ)
    (url secret key : String) (opened : OwnedPostgres) : Prop where
  databaseUrl : Did tr i (.resolve config.databaseUrlSecret) (.ok url)
  pepper : Did tr i (.resolve config.credentialPepperSecret) (.ok secret)
  receiptKey : Did tr i (.resolve config.receiptEncryptionKeySecret) (.ok key)
  postgres : Did tr i (.prepare url config.schema) (.ok opened)

lemma Equipped.cons {databaseUrl pepper receiptKey : String} {postgres : OwnedPostgres}
    (h : Equipped config tr i databaseUrl pepper receiptKey postgres) :
    Equipped config (e :: tr) i databaseUrl pepper receiptKey postgres :=
  ⟨h.databaseUrl.cons,h.pepper.cons,h.receiptKey.cons,h.postgres.cons⟩

/-- Everything in the value is what one activation was given or computed from it. -/
def Installed.From (E : Environment) (config : ServiceAccountConfig) (tr : List LifecycleEvent) (i : ℕ)
    (v : Installed) : Prop :=
  ∃ databaseUrl pepper receiptKey salt, Equipped config tr i databaseUrl pepper receiptKey v.postgres ∧
    Did tr i (.getrandom 16) (some salt) ∧ v.Made E config pepper receiptKey v.postgres salt

lemma Installed.From.cons {v : Installed} (h : v.From E config tr i) : v.From E config (e :: tr) i := by
  obtain ⟨databaseUrl,pepper,receiptKey,salt,heq,hsalt,hmade⟩ := h
  exact ⟨databaseUrl,pepper,receiptKey,salt,heq.cons,hsalt.cons,hmade⟩

namespace Progress

/-- The call was given what its progress says. -/
def Sourced (E : Environment) (config : ServiceAccountConfig) (tr : List LifecycleEvent) (i : ℕ) :
    Progress → Prop
  | asked secrets => ∀ (k : ℕ) (value : String), secrets[k]? = some value →
    ∃ reference, config.secretReferences[k]? = some reference ∧ Did tr i (.resolve reference) (.ok value)
  | opened databaseUrl pepper receiptKey postgres =>
    Equipped config tr i databaseUrl pepper receiptKey postgres
  | salted databaseUrl pepper receiptKey postgres salt =>
    Equipped config tr i databaseUrl pepper receiptKey postgres ∧ Did tr i (.getrandom 16) (some salt)
  | live value => value.From E config tr i ∧ Did tr i (.install value) ()
  | leaving => True
  | found postgres => Did tr i .take (some postgres)
  | gone => Did tr i .take none ∨
    ∃ postgres, Did tr i .take (some postgres) ∧ Did tr i (.close postgres) ()

lemma Sourced.cons (h : φ.Sourced E config tr i) : φ.Sourced E config (e :: tr) i := by
  cases φ with
  | asked secrets =>
    intro k value hk
    obtain ⟨reference,href,hdid⟩ := h k value hk
    exact ⟨reference,href,hdid.cons⟩
  | opened databaseUrl pepper receiptKey postgres => exact Equipped.cons h
  | salted databaseUrl pepper receiptKey postgres salt => exact ⟨h.1.cons,h.2.cons⟩
  | live value => exact ⟨h.1.cons,h.2.cons⟩
  | leaving => trivial
  | found postgres => exact Did.cons h
  | gone =>
    rcases h with h | ⟨postgres,htake,hclose⟩
    · exact .inl h.cons
    · exact .inr ⟨postgres,htake.cons,hclose.cons⟩

/-- Three secrets in order are the three that the configuration names. -/
lemma Sourced.secrets {databaseUrl pepper receiptKey : String}
    (h : (asked [databaseUrl,pepper,receiptKey]).Sourced E config tr i) :
    Did tr i (.resolve config.databaseUrlSecret) (.ok databaseUrl) ∧
      Did tr i (.resolve config.credentialPepperSecret) (.ok pepper) ∧
        Did tr i (.resolve config.receiptEncryptionKeySecret) (.ok receiptKey) := by
  obtain ⟨_,⟨⟩,h₀⟩ := h 0 databaseUrl rfl
  obtain ⟨_,⟨⟩,h₁⟩ := h 1 pepper rfl
  obtain ⟨_,⟨⟩,h₂⟩ := h 2 receiptKey rfl
  exact ⟨h₀,h₁,h₂⟩

lemma Sourced.move (h : φ.Sourced E config tr i) (hm : Move E config φ o a φ') (hi : e.tid = i)
    (ha : e.action = .perform o a) : φ'.Sourced E config (e :: tr) i := by
  have hold := h.cons (e := e)
  have hnew : Did (e :: tr) i o a := .head hi ha
  cases hm with
  | @resolved secrets reference value href =>
    intro k v hk
    by_cases hlt : k < secrets.length
    · rw [List.getElem?_append_left hlt] at hk
      exact hold k v hk
    · obtain ⟨rfl,rfl⟩ : k = secrets.length ∧ v = value := by
        rw [List.getElem?_append_right (not_lt.mp hlt),List.getElem?_singleton] at hk
        split_ifs at hk with h0
        exact ⟨by omega,(Option.some.inj hk).symm⟩
      exact ⟨reference,href,hnew⟩
  | unresolved => exact hold
  | prepared =>
    obtain ⟨h₀,h₁,h₂⟩ := hold.secrets
    exact ⟨h₀,h₁,h₂,hnew⟩
  | unprepared => exact hold
  | salted hlen => exact ⟨hold,hnew⟩
  | unsalted => exact hold
  | installed hmade =>
    obtain rfl := hmade.postgres
    exact ⟨⟨_,_,_,_,hold.1,hold.2,hmade⟩,hnew⟩
  | found => exact hnew
  | vacant => exact .inl hnew
  | closed => exact .inr ⟨_,hold,hnew⟩

end Progress

/-- What a call can look back on: all it was given, and nothing installed while it is unfinished. -/
structure Lookback (E : Environment) (config : ServiceAccountConfig) (tr : List LifecycleEvent) (i : ℕ)
    (φ : Progress) : Prop where
  sourced : φ.Sourced E config tr i
  silent : φ.unfinished = true → ∀ value, ¬ Did tr i (.install value) ()

lemma lookback_invariant (E : Environment) (config : ServiceAccountConfig) :
    (lifecycleProtocol E config).Invariant LifecycleOp.handle Cells.empty fun tr _ p =>
      ∀ i call φ, p i = some (call, φ) → Lookback E config tr i φ where
  init _ _ _ h := by simp at h
  step {tr s p e p'} h hs j call φ hp := by
    by_cases hj : j = e.tid
    · subst hj
      cases hs with
      | start i call' hpi hfresh =>
        simp only [Function.update_self,Option.some.injEq,Prod.mk.injEq] at hp
        obtain ⟨rfl,rfl⟩ := hp
        constructor
        · cases call' with
          | activate => intro k value hk; simp at hk
          | deactivate => trivial
        · rintro - value ⟨x,hx,hxi,hxa⟩
          rcases List.mem_cons.mp hx with rfl | hx
          · cases hxa
          · exact hfresh x hx hxi
      | perform i call' φ₀ φ₁ o choice a s' hpi hm hH =>
        simp only [Function.update_self,Option.some.injEq,Prod.mk.injEq] at hp
        obtain ⟨rfl,rfl⟩ := hp
        have hback := h i _ φ₀ hpi
        refine ⟨hback.sourced.move hm rfl rfl,?_⟩
        rintro hun value ⟨x,hx,hxi,hxa⟩
        rcases List.mem_cons.mp hx with rfl | hx
        · cases hxa
          cases hm
          simp [Progress.unfinished] at hun
        · refine hback.silent ?_ value ⟨x,hx,hxi,hxa⟩
          cases hm <;> first | rfl | simp [Progress.unfinished] at hun
      | reply i call' φ₀ r hpi hl => simp at hp
      | stop i call' φ₀ hpi => simp at hp
    · rw [hs.other hj] at hp
      have hback := h j call φ hp
      refine ⟨hback.sourced.cons,?_⟩
      rintro hun value ⟨x,hx,hxi,hxa⟩
      rcases List.mem_cons.mp hx with rfl | hx
      · exact hj hxi.symm
      · exact hback.silent hun value ⟨x,hx,hxi,hxa⟩

/-- Where a pool may be: with a call, in the cells, or among the closed ones. -/
inductive Keeper
  | call (i : ℕ)
  | cell
  | drain

/-- Who has the pool of this number. -/
def Keeper.Has (s : Cells) (p : Protocol.Phases LifecycleCall Progress) : Keeper → ℕ → Prop
  | .call i, n => ∃ call φ postgres, p i = some (call, φ) ∧ φ.hand = some postgres ∧ postgres.pool = n
  | .cell, n => ∃ postgres, s.postgres = some postgres ∧ postgres.pool = n
  | .drain, n => n ∈ s.closed

section
variable {s s' : Cells} {p : Protocol.Phases LifecycleCall Progress} {call : LifecycleCall} {k : Keeper} {n : ℕ}

/-- A call that has moved has what its progress says, the others what they had. -/
lemma Keeper.has_update {x : Option (LifecycleCall × Progress)} {j : ℕ}
    (h : (Keeper.call j).Has s' (Function.update p i x) n) :
    j ≠ i ∧ (Keeper.call j).Has s p n ∨
      j = i ∧ ∃ call φ postgres, x = some (call, φ) ∧ φ.hand = some postgres ∧ postgres.pool = n := by
  obtain ⟨call,φ,postgres,hp,hrest⟩ := h
  by_cases hj : j = i
  · subst hj
    rw [Function.update_self] at hp
    exact .inr ⟨rfl,call,φ,postgres,hp,hrest⟩
  · rw [Function.update_of_ne hj] at hp
    exact .inl ⟨hj,call,φ,postgres,hp,hrest⟩

/-- A call that ends or moves without a new pool takes nothing from anybody. -/
lemma Keeper.has_quiet {x : Option (LifecycleCall × Progress)}
    (hx : ∀ call φ, x = some (call, φ) → ∀ postgres, φ.hand = some postgres →
      ∃ call' φ', p i = some (call', φ') ∧ φ'.hand = some postgres)
    (h : k.Has s (Function.update p i x) n) : k.Has s p n := by
  cases k with
  | call j =>
    obtain ⟨-,hold⟩ | ⟨rfl,call,φ,postgres,rfl,hhand,hn⟩ := Keeper.has_update (s := s) h
    · exact hold
    · obtain ⟨call',φ',hp,hhand'⟩ := hx call φ rfl postgres hhand
      exact ⟨call',φ',postgres,hp,hhand',hn⟩
  | cell => exact h
  | drain => exact h

end

/-- No pool is in two places, and none is closed twice. -/
structure Custody (s : Cells) (p : Protocol.Phases LifecycleCall Progress) : Prop where
  owners : Owners (Keeper.Has s p) {n | n < s.opened}
  once : s.closed.Nodup

lemma custody_move {s s' : Cells} {p : Protocol.Phases LifecycleCall Progress} {call : LifecycleCall}
    {choice : LifecycleChoice} (h : Custody s p) (hp : p i = some (call, φ))
    (hm : φ.Move E config o a φ') (hH : o.handle choice s = some (a, s')) :
    Custody s' (Function.update p i (some (call, φ'))) := by
  have hquiet : ∀ {ψ : Progress}, (∀ postgres, ψ.hand = some postgres → φ.hand = some postgres) →
      Custody s (Function.update p i (some (call, ψ))) := by
    intro ψ hψ
    refine ⟨h.owners.shrink fun k n hk => Keeper.has_quiet ?_ hk,h.once⟩
    rintro _ _ ⟨⟩ postgres hhand
    exact ⟨call,φ,hp,hψ postgres hhand⟩
  cases hm with
  | resolved | unresolved | salted | unsalted =>
    simp only [LifecycleOp.handle,Option.some.injEq,Prod.mk.injEq] at hH
    obtain ⟨-,rfl⟩ := hH
    exact hquiet (by simp [Progress.hand])
  | prepared =>
    cases hr : choice.refused with
    | some detail => simp [LifecycleOp.handle,hr] at hH
    | none =>
      simp only [LifecycleOp.handle,hr,Option.some.injEq,Prod.mk.injEq,Except.ok.injEq] at hH
      obtain ⟨rfl,rfl⟩ := hH
      have hset : insert s.opened {n | n < s.opened} = {n | n < s.opened + 1} := by
        ext n
        simp only [Set.mem_insert_iff,Set.mem_ofPred_eq]
        omega
      refine ⟨hset ▸ h.owners.acquire (g := .call i) (by simp) fun k n hk => ?_,h.once⟩
      cases k with
      | call j =>
        obtain ⟨-,hold⟩ | ⟨rfl,_,_,_,⟨⟩,⟨⟩,rfl⟩ := Keeper.has_update (s := s) hk
        · exact .inl hold
        · exact .inr ⟨rfl,rfl⟩
      | cell => exact .inl hk
      | drain => exact .inl hk
  | unprepared =>
    cases hr : choice.refused with
    | none => simp [LifecycleOp.handle,hr] at hH
    | some detail =>
      simp only [LifecycleOp.handle,hr,Option.some.injEq,Prod.mk.injEq] at hH
      obtain ⟨-,rfl⟩ := hH
      exact hquiet (by simp [Progress.hand])
  | @installed databaseUrl pepper receiptKey postgres salt value hmade =>
    simp only [LifecycleOp.handle,Option.some.injEq,Prod.mk.injEq] at hH
    obtain ⟨-,rfl⟩ := hH
    have hmine : (Keeper.call i).Has s p postgres.pool := ⟨call,_,postgres,hp,rfl,rfl⟩
    refine ⟨h.owners.transfer (g := .cell) hmine fun k n hk => ?_,h.once⟩
    cases k with
    | call j =>
      obtain ⟨hj,hold⟩ | ⟨rfl,_,_,_,⟨⟩,⟨⟩,-⟩ := Keeper.has_update (s := s) hk
      exact .inl ⟨hold,by simpa using hj⟩
    | cell =>
      obtain ⟨_,⟨⟩,rfl⟩ := hk
      exact .inr ⟨rfl,by rw [hmade.postgres]⟩
    | drain => exact .inl ⟨hk,by simp⟩
  | @found postgres =>
    simp only [LifecycleOp.handle,Option.some.injEq,Prod.mk.injEq] at hH
    obtain ⟨hfound,rfl⟩ := hH
    have hcell : Keeper.cell.Has s p postgres.pool := ⟨postgres,hfound,rfl⟩
    refine ⟨h.owners.transfer (g := .call i) hcell fun k n hk => ?_,h.once⟩
    cases k with
    | call j =>
      obtain ⟨-,hold⟩ | ⟨rfl,_,_,_,⟨⟩,⟨⟩,rfl⟩ := Keeper.has_update (s := s) hk
      · exact .inl ⟨hold,by simp⟩
      · exact .inr ⟨rfl,rfl⟩
    | cell =>
      obtain ⟨_,⟨⟩,-⟩ := hk
    | drain => exact .inl ⟨hk,by simp⟩
  | vacant =>
    simp only [LifecycleOp.handle,Option.some.injEq,Prod.mk.injEq] at hH
    obtain ⟨hnone,rfl⟩ := hH
    have hgone : Custody s (Function.update p i (some (call, .gone))) := hquiet (by simp [Progress.hand])
    refine ⟨hgone.owners.shrink fun k n hk => ?_,h.once⟩
    cases k with
    | call j => exact hk
    | cell => obtain ⟨_,⟨⟩,-⟩ := hk
    | drain => exact hk
  | @closed postgres =>
    simp only [LifecycleOp.handle,Option.some.injEq,Prod.mk.injEq] at hH
    obtain ⟨-,rfl⟩ := hH
    have hmine : (Keeper.call i).Has s p postgres.pool := ⟨call,_,postgres,hp,rfl,rfl⟩
    have hopen : postgres.pool ∉ s.closed := by
      intro hmem
      have hdrain : Keeper.drain.Has s p postgres.pool := hmem
      cases h.owners.unique hmine hdrain
    refine ⟨h.owners.transfer (g := .drain) hmine fun k n hk => ?_,List.nodup_cons.mpr ⟨hopen,h.once⟩⟩
    cases k with
    | call j =>
      obtain ⟨hj,hold⟩ | ⟨rfl,_,_,_,⟨⟩,⟨⟩,-⟩ := Keeper.has_update (s := s) hk
      exact .inl ⟨hold,by simpa using hj⟩
    | cell => exact .inl ⟨hk,by simp⟩
    | drain =>
      rcases List.mem_cons.mp hk with rfl | hk
      · exact .inr ⟨rfl,rfl⟩
      · exact .inl ⟨hk,by simp⟩

lemma custody_invariant (E : Environment) (config : ServiceAccountConfig) :
    (lifecycleProtocol E config).Invariant LifecycleOp.handle Cells.empty fun _ s p => Custody s p where
  init := by
    refine ⟨⟨fun {k k' n} h _ => ?_,fun {k n} h => ?_⟩,List.nodup_nil⟩ <;>
      cases k <;> simp [Keeper.Has,Cells.empty] at h
  step {tr s p e p'} h hs := by
    cases hs with
    | start i call hpi hfresh =>
      refine ⟨h.owners.shrink fun k n hk => Keeper.has_quiet ?_ hk,h.once⟩
      rintro _ _ ⟨⟩ postgres hhand
      cases call <;> cases hhand
    | perform i call φ φ' o choice a s' hpi hm hH => exact custody_move h hpi hm hH
    | reply i call φ r hpi hl =>
      exact ⟨h.owners.shrink fun k n hk => Keeper.has_quiet (by simp) hk,h.once⟩
    | stop i call φ hpi =>
      exact ⟨h.owners.shrink fun k n hk => Keeper.has_quiet (by simp) hk,h.once⟩

/-- What the newest of the installations and removals has left. -/
def lastInstalled : List LifecycleEvent → Option Installed
  | [] => none
  | e :: tr =>
    match e.action with
    | .perform (.install value) _ => some value
    | .perform .take _ => none
    | _ => lastInstalled tr

/-- The cells hold what the history says, made by one activation. -/
structure Truthful (E : Environment) (config : ServiceAccountConfig) (tr : List LifecycleEvent) (s : Cells) :
    Prop where
  active : s.active = lastInstalled tr
  postgres : s.postgres = s.active.map Installed.postgres
  made : ∀ value, s.active = some value → ∃ i, value.From E config tr i

lemma Truthful.quiet {s s' : Cells} (h : Truthful E config tr s) (hcurrent : lastInstalled (e :: tr) = lastInstalled tr)
    (hactive : s'.active = s.active) (hpostgres : s'.postgres = s.postgres) :
    Truthful E config (e :: tr) s' where
  active := by rw [hactive,hcurrent,h.active]
  postgres := by rw [hactive,hpostgres,h.postgres]
  made value hv := by
    obtain ⟨i,hfrom⟩ := h.made value (hactive ▸ hv)
    exact ⟨i,hfrom.cons⟩

lemma truthful_move {s s' : Cells} {choice : LifecycleChoice} (h : Truthful E config tr s)
    (hb : φ.Sourced E config tr i) (hm : φ.Move E config o a φ') (hH : o.handle choice s = some (a, s'))
    (hi : e.tid = i) (ha : e.action = .perform o a) : Truthful E config (e :: tr) s' := by
  have hafter := hb.move hm hi ha
  cases hm with
  | resolved | unresolved | salted | unsalted | closed =>
    simp only [LifecycleOp.handle,Option.some.injEq,Prod.mk.injEq] at hH
    obtain ⟨-,rfl⟩ := hH
    exact h.quiet (by simp [lastInstalled,ha]) rfl rfl
  | prepared | unprepared =>
    cases hr : choice.refused with
    | none =>
      simp only [LifecycleOp.handle,hr,Option.some.injEq,Prod.mk.injEq] at hH
      obtain ⟨-,rfl⟩ := hH
      exact h.quiet (by simp [lastInstalled,ha]) rfl rfl
    | some detail =>
      simp only [LifecycleOp.handle,hr,Option.some.injEq,Prod.mk.injEq] at hH
      obtain ⟨-,rfl⟩ := hH
      exact h.quiet (by simp [lastInstalled,ha]) rfl rfl
  | @installed databaseUrl pepper receiptKey postgres salt value hmade =>
    simp only [LifecycleOp.handle,Option.some.injEq,Prod.mk.injEq] at hH
    obtain ⟨-,rfl⟩ := hH
    refine ⟨by simp [lastInstalled,ha],rfl,?_⟩
    rintro _ ⟨⟩
    exact ⟨i,hafter.1⟩
  | found | vacant =>
    simp only [LifecycleOp.handle,Option.some.injEq,Prod.mk.injEq] at hH
    obtain ⟨-,rfl⟩ := hH
    exact ⟨by simp [lastInstalled,ha],rfl,fun _ hv => by cases hv⟩

/-- The invariant of an instance: what its calls can look back on, where its pools are, and what
its cells hold. -/
structure Grounded (E : Environment) (config : ServiceAccountConfig) (tr : List LifecycleEvent) (s : Cells)
    (p : Protocol.Phases LifecycleCall Progress) : Prop where
  lookback : ∀ i call φ, p i = some (call, φ) → Lookback E config tr i φ
  custody : Custody s p
  truthful : Truthful E config tr s

lemma grounded_invariant (E : Environment) (config : ServiceAccountConfig) :
    (lifecycleProtocol E config).Invariant LifecycleOp.handle Cells.empty (Grounded E config) where
  init := ⟨(lookback_invariant E config).init,(custody_invariant E config).init,rfl,rfl,fun _ h => by cases h⟩
  step {tr s p e p'} h hs := by
    refine ⟨(lookback_invariant E config).step h.lookback hs,(custody_invariant E config).step h.custody hs,?_⟩
    cases hs with
    | perform i call φ φ' o choice a s' hpi hm hH =>
      exact truthful_move h.truthful (h.lookback i call φ hpi).sourced hm hH rfl rfl
    | start i call hpi hfresh => exact h.truthful.quiet rfl rfl rfl
    | reply i call φ r hpi hl => exact h.truthful.quiet rfl rfl rfl
    | stop i call φ hpi => exact h.truthful.quiet rfl rfl rfl

/-- The value in the cell `active`, as the calls of the instance see it. -/
structure Installed.Describes (v : Installed) (active : ActiveServiceAccount E) : Prop where
  config : active.config = v.config
  pepper : active.pepper = v.pepper
  receiptCipher : active.receiptCipher = v.receiptCipher
  dummyVerifier : active.dummyVerifier = v.dummyVerifier

/-- What is installed has everything that the calls rely on. -/
lemma Installed.From.describes {v : Installed} (h : v.From E config tr i) (hvalid : validateConfig E config = .ok ()) :
    ∃ active : ActiveServiceAccount E, v.Describes active := by
  obtain ⟨databaseUrl,pepper,receiptKey,salt,heq,hsalt,hmade⟩ := h
  exact ⟨⟨v.config,v.pepper,v.receiptCipher,v.dummyVerifier,by rw [hmade.config,validate_of_validateConfig hvalid],
    hmade.pepper ▸ hmade.longPepper,salt,hmade.pepper ▸ hmade.dummyVerifier⟩,rfl,rfl,rfl,rfl⟩

/-- What a reply says about the earlier steps of its call. -/
def LifecycleReply.Earned (tr : List LifecycleEvent) (i : ℕ) : LifecycleReply → Prop
  | .activate (.ok _) => ∃ value, Did tr i (.install value) ()
  | .activate (.error failure) => (∃ f, failure = .runtime f) ∧ ∀ value, ¬ Did tr i (.install value) ()
  | .deactivate => Did tr i .take none ∨
    ∃ postgres, Did tr i .take (some postgres) ∧ Did tr i (.close postgres) ()

lemma Lookback.earned {r : LifecycleReply} (h : Lookback E config tr i φ) (hl : φ.Last r) : r.Earned tr i := by
  rcases r with (failure | _) | _
  · exact ⟨hl.2,h.silent hl.1⟩
  · obtain ⟨value,rfl⟩ := hl
    exact ⟨value,h.sourced.2⟩
  · obtain rfl : φ = .gone := hl
    exact h.sourced

lemma earned_of_reply (hvalid : validateConfig E config = .ok ()) {c : Lifecycle}
    (hc : c.Reachable E planError config) {post pre : List LifecycleEvent} (he : c.trace = post ++ e :: pre)
    {r : LifecycleReply} (ha : e.action = .reply r) : r.Earned pre e.tid := by
  obtain ⟨p,p',hI,hs⟩ := (grounded_invariant E config).event (lifecycle_obeyed hvalid) hc he
  generalize e.before = s at hI hs
  cases hs with
  | start i call hp hi => cases ha
  | perform i call φ φ' o choice a s' hp hm hH => cases ha
  | stop i call φ hp => cases ha
  | reply i call φ r' hp hl =>
    cases ha
    exact (hI.lookback i call φ hp).earned hl

/-- The state of an instance after any activations and deactivations: the calls see an active
instance exactly when the newest change was an installation, all of it made by one activation,
and its pool is open; no pool is closed twice; and every reply is what its call has done. -/
structure SoundLifecycle (E : Environment) (config : ServiceAccountConfig) (c : Lifecycle) : Prop where
  active : c.state.active = lastInstalled c.trace
  postgres : c.state.postgres = c.state.active.map Installed.postgres
  made : ∀ value, c.state.active = some value →
    (∃ i, value.From E config c.trace i) ∧ ∃ active : ActiveServiceAccount E, value.Describes active
  usable : ∀ value, c.state.active = some value →
    value.postgres.pool < c.state.opened ∧ value.postgres.pool ∉ c.state.closed
  closedOnce : c.state.closed.Nodup ∧ ∀ n ∈ c.state.closed, n < c.state.opened
  earned : ∀ post pre e r, c.trace = post ++ e :: pre → e.action = .reply r → r.Earned pre e.tid

theorem lifecycle_sound (hvalid : validateConfig E config = .ok ()) {c : Lifecycle}
    (hc : c.Reachable E planError config) : SoundLifecycle E config c := by
  obtain ⟨p,-,hI⟩ := (grounded_invariant E config).reachable (lifecycle_obeyed hvalid) hc
  have howners := hI.custody.owners
  constructor
  · exact hI.truthful.active
  · exact hI.truthful.postgres
  · intro value hv
    obtain ⟨i,hfrom⟩ := hI.truthful.made value hv
    exact ⟨⟨i,hfrom⟩,hfrom.describes hvalid⟩
  · intro value hv
    have hcell : Keeper.cell.Has c.state p value.postgres.pool :=
      ⟨value.postgres,by rw [hI.truthful.postgres,hv]; rfl,rfl⟩
    refine ⟨howners.known hcell,fun hmem => ?_⟩
    have hdrain : Keeper.drain.Has c.state p value.postgres.pool := hmem
    cases howners.unique hcell hdrain
  · exact ⟨hI.custody.once,fun n hn => howners.known (h := .drain) hn⟩
  · intro post pre e r he ha
    exact earned_of_reply hvalid hc he ha

end Invariants
/-- The steps of an activation that is given secrets of 32 bytes. -/
def sampleActivate (i : ℕ) : List (Label LifecycleCall LifecycleChoice) :=
  [.start .activate,.perform i { secret := .ok "postgres://db" },
    .perform i { secret := .ok "0123456789abcdef0123456789abcdef" },
    .perform i { secret := .ok "fedcba9876543210fedcba9876543210" },.perform i {},
    .perform i { entropy := some (List.replicate 16 0) },.perform i {},.reply i]

/-- An instance is activated, deactivated and activated again. -/
noncomputable def sampleLifecycle : Lifecycle :=
  ((Config.init Cells.empty).run (LifecycleCall.main .plain (fun _ => "") sampleConfig) LifecycleOp.handle
    (sampleActivate 0 ++ [.start .deactivate,.perform 1 {},.perform 1 {},.reply 1] ++ sampleActivate 2)).get
      (by decide +kernel)

theorem lifecycle_sound_sample : sampleLifecycle.state.closed = [0] ∧
    sampleLifecycle.state.active.isSome = true ∧ SoundLifecycle .plain sampleConfig sampleLifecycle :=
  ⟨by decide +kernel,by decide +kernel,lifecycle_sound rfl (Config.leads_of_run (Option.some_get _).symm)⟩

end LensoServiceAccount
