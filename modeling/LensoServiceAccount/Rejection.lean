import LensoServiceAccount.Library.Lockstep
import LensoServiceAccount.Storage.Together
import LensoServiceAccount.Guessing

/-! A secret that is not accepted reveals nothing about the accounts and credentials of the store: the
exchange runs the same way whatever they are. -/

namespace LensoServiceAccount
open Code TxM
variable {E : Environment} {D D' d d' : Database}

/-- The credential that a secret names, joined with its account. -/
def Database.named (d : Database) (secret : String) : Option CredentialRow :=
  (credentialId secret).bind fun id =>
    (d.credentials.find id).bind fun c => (d.accounts.find c.serviceAccountId).map (credentialRow c)

/-- The local check: the secret matches the verifier of the credential it names, which is usable. -/
def Database.accepts (d : Database) (E : Environment) (pepper : Bytes) (secret : String) (now : Time) : Bool :=
  (d.named secret).any fun row => verifySecretResult E secret pepper row.verifier && row.usableAt now

/-- All stored verifiers are Argon2id texts. -/
def Database.Argon2id (E : Environment) (d : Database) : Prop :=
  ∀ c ∈ d.credentials.rows, wellFormedVerifier E c.verifier = true

/-- The accounts and credentials are those of `D` and `D'`, everything else is the same. -/
def Unseen (D D' d d' : Database) : Prop :=
  ∃ commands limits, d = { D with commands := commands,limits := limits } ∧
    d' = { D' with commands := commands,limits := limits }

/-- Statements on command rows. -/
def Statement.onCommands : Statement → Bool
  | .loadAccount _ _ | .listAccounts _ _ _ | .loadCredential _ => false
  | _ => true

/-- A statement on command rows reads and writes nothing else. -/
theorem Statement.execute_onCommands {s : Statement} (hs : s.onCommands = true) (o : Collation) (now : Time)
    (k : Table Command) : ∃ r : Except SqlError (s.Answer × Table Command), ∀ d : Database, d.commands = k →
      s.execute o now d = r.map fun x => (x.1,{ d with commands := x.2 }) := by
  refine ⟨(s.execute o now { Database.empty with commands := k }).map fun x => (x.1,x.2.commands),?_⟩
  rintro d rfl
  cases s with
  | prune ttl => rfl
  | reserveCommand key intentHash =>
    simp only [Statement.execute]
    cases hw : writeRow Write.command (reservedCommand now key intentHash) with
    | error e => rfl
    | ok w =>
      obtain ⟨hcheck,rfl⟩ := writeRow_ok.mp hw
      simp only [bind,Except.bind]
      split_ifs <;> rfl
  | loadCommand key =>
    simp only [Statement.execute]
    cases d.commands.find key <;> rfl
  | completeFailedCommand key errorCode =>
    simp only [Statement.execute]
    cases (d.commands.find key).filter fun c => c.status.completable with
    | none => rfl
    | some c =>
      dsimp only
      cases hw : writeRow Write.command (c.fail now errorCode) with
      | error e => rfl
      | ok w =>
        obtain ⟨hcheck,rfl⟩ := writeRow_ok.mp hw
        rfl
  | inspectCommand key => rfl
  | loadAccount organizationId id => cases hs
  | listAccounts organizationId after n => cases hs
  | loadCredential id => cases hs

/-- Statements on rate rows. -/
def TxStatement.onLimits : TxStatement → Bool
  | .initializeLimit _ _ | .lockLimit _ | .lockOut _ _ _ | .consumeSlot _ _ _ => true
  | _ => false

def Write.onLimits : Write → Bool
  | .limit _ _ => true
  | _ => false

/-- A statement on rate rows writes rate rows. -/
lemma TxStatement.writes_onLimits {s : TxStatement} (hs : s.onLimits = true) {o : Collation} {t : Time} {d : Database}
    {a : s.Answer} {ws : List Write} (hx : s.execute o t d = .ok (a, ws)) : ∀ w ∈ ws, w.onLimits = true := by
  have hwritten : ∀ (l : ExchangeLimit) (w : Write), writeRow Write.limit l = .ok w → w.onLimits = true := by
    intro l w hw
    obtain ⟨hcheck,rfl⟩ := writeRow_ok.mp hw
    rfl
  cases s with
  | initializeLimit caller now =>
    simp only [TxStatement.execute] at hx
    cases hw : writeRow Write.limit ⟨caller,now,0,none⟩ with
    | error e =>
      rw [hw] at hx
      cases hx
    | ok w =>
      simp only [hw,bind,Except.bind] at hx
      split_ifs at hx <;> cases hx
      · simp
      · simpa using hwritten _ w hw
  | lockLimit caller =>
    simp only [TxStatement.execute] at hx
    cases hl : d.limits.find caller with
    | none =>
      rw [hl] at hx
      cases hx
    | some l =>
      rw [hl] at hx
      cases hx
      simp
  | lockOut caller windowStartedAt lockedUntil =>
    simp only [TxStatement.execute] at hx
    cases hl : d.limits.find caller with
    | none =>
      rw [hl] at hx
      cases hx
      simp
    | some l =>
      simp only [hl] at hx
      cases hw : writeRow Write.limit { l with windowStartedAt := windowStartedAt,lockedUntil := some lockedUntil } with
      | error e =>
        rw [hw] at hx
        cases hx
      | ok w =>
        rw [hw] at hx
        cases hx
        simpa using hwritten _ w hw
  | consumeSlot caller windowStartedAt attempts =>
    simp only [TxStatement.execute] at hx
    cases hl : d.limits.find caller with
    | none =>
      rw [hl] at hx
      cases hx
      simp
    | some l =>
      simp only [hl] at hx
      cases hw : writeRow Write.limit
          { l with windowStartedAt := windowStartedAt,attempts := attempts,lockedUntil := none } with
      | error e =>
        rw [hw] at hx
        cases hx
      | ok w =>
        rw [hw] at hx
        cases hx
        simpa using hwritten _ w hw
  | _ => cases hs

lemma Unseen.apply (h : Unseen D D' d d') {ws : List Write} (hws : ∀ w ∈ ws, w.onLimits = true) :
    Unseen D D' (d.apply ws) (d'.apply ws) := by
  induction ws generalizing d d' with
  | nil => exact h
  | cons w ws ih =>
    have hw := hws w (List.mem_cons_self ..)
    obtain ⟨k,l,rfl,rfl⟩ := h
    cases w with
    | limit row hrow =>
      exact ih ⟨k,l.put row hrow,rfl,rfl⟩ fun w hw => hws w (List.mem_cons_of_mem _ hw)
    | _ => cases hw

section Sessions
variable {operation : String} {x x' : Session × Database}

theorem together_limits {s : TxStatement} (hs : s.onLimits = true)
    {Q : Except ServiceAccountPluginError s.Answer → Except ServiceAccountPluginError s.Answer →
      Session × Database → Session × Database → Prop} (h : SameSession (Unseen D D') x x')
    (hQ : ∀ r y y', SameSession (Unseen D D') y y' → Q r r y y') : Together E (statement operation s) Q x x' := by
  apply together_statement h
  · intro t
    obtain ⟨k,l,hx,hx'⟩ := h.view
    rw [hx,hx']
    cases s with
    | initializeLimit caller now => rfl
    | lockLimit caller => rfl
    | lockOut caller windowStartedAt lockedUntil => rfl
    | consumeSlot caller windowStartedAt attempts => rfl
    | _ => cases hs
  · intro t a ws hx
    exact h.view.apply (TxStatement.writes_onLimits hs hx)
  · exact fun e y y' hy => hQ _ y y' hy
  · exact fun a ws y y' hy hx hview => hQ _ y y' hy

/-- The rate limiter does not look at accounts and credentials. -/
theorem together_reserveRateSlot {r : ReserveRateSlot} (h : SameSession (Unseen D D') x x') :
    Together E (reserveRateSlot r) (EndAlike (Unseen D D')) x x' := by
  have hend : ∀ {β : Type} (res : β) y y', SameSession (Unseen D D') y y' →
      EndAlike (Unseen D D') res res y y' := fun _ _ _ hy => ⟨rfl,hy.shared⟩
  have hcommit : ∀ (operation : String) (granted : Bool) y y', SameSession (Unseen D D') y y' →
      Together E (do commit operation; return granted) (EndAlike (Unseen D D')) y y' := by
    intro operation granted y y' hy
    refine Program.Both.bindExcept (together_commit hy fun res z z' hz => ?_)
    cases res <;> exact ⟨rfl,hz⟩
  refine Program.Both.bindExcept (together_begin h fun res y y' hy => ?_)
  cases res with
  | error e => exact hend _ y y' hy
  | ok u =>
  refine Program.Both.bindExcept (together_limits rfl hy fun res z z' hz => ?_)
  cases res with
  | error e => exact hend _ z z' hz
  | ok u' =>
  refine Program.Both.bindExcept (together_limits rfl hz fun res a a' ha => ?_)
  cases res with
  | error e => exact hend _ a a' ha
  | ok row =>
  dsimp only [Program.Onward]
  split_ifs with hlocked hrenewed hfull
  · exact hcommit _ false a a' ha
  all_goals
    refine Program.Both.bindExcept (together_limits rfl ha fun res b b' hb => ?_)
    cases res with
    | error e => exact hend _ b b' hb
    | ok u'' => exact hcommit _ _ b b' hb

end Sessions

/-- The secret that the call presents does not pass the local check. -/
def Call.rejected (d : Database) (now : Time) : Call E → Bool
  | .exchangeSecret plugin _ request =>
    plugin.active.all fun active => !d.accepts E active.pepper request.secret now
  | .inspectCommand _ _ _ => true
  | _ => false

def Call.exchanges : Call E → Bool
  | .exchangeSecret _ _ _ | .inspectCommand _ _ _ => true
  | _ => false

/-- When the call reads the clock, its secret is rejected on both sides. -/
def Call.Rejected (D D' : Database) (call : Call E) : (o : Effect) → Effect.Ans o → Prop
  | .pool .nowUtc, now => call.rejected D now = true ∧ call.rejected D' now = true
  | _, _ => call.exchanges = true

/-- What a call does by itself: it asks no other plugin, and admits no credential. -/
def Effect.unassisted : Effect → Bool
  | .pool .nowUtc | .pool (.verifyPassword _ _) | .pool (.execute _) | .transact (.reserveRateSlot _) => true
  | _ => false

/-- Operations that match: the same ones with the same answers, but for the rows that are loaded and
the verifiers that are checked. -/
inductive Resembles : (o : Effect) → Effect.Ans o → (o' : Effect) → Effect.Ans o' → Prop
  | same {o : Effect} {a : Effect.Ans o} (ho : o.unassisted = true) : Resembles o a o a
  | loaded {credentialId : String} {row row' : Option CredentialRow} :
      Resembles (.pool (.execute (.loadCredential credentialId))) (.ok row)
        (.pool (.execute (.loadCredential credentialId))) (.ok row')
  | verified {input : Bytes} {verifier verifier' : String} {a a' : Bool} :
      Resembles (.pool (.verifyPassword input verifier)) a (.pool (.verifyPassword input verifier')) a'

/-- The operations that are answered the same. -/
abbrev Alike (E : Environment) (D D' : Database) : Effect → Prop :=
  Program.Agrees (store E).serial (store E).serial (Unseen D D')

lemma alike_transact {t : Transaction} {p : TxM t.Value} (hp : t.body = p.run)
    (h : ∀ d d', Unseen D D' d d' → Together E p (EndAlike (Unseen D D')) (Session.fresh, d) (Session.fresh, d')) :
    Alike E D D' (.transact t) := by
  intro ch s s' a u hR hc
  cases ch with
  | inl c => simp [Store.serial] at hc
  | inr cs => exact serial_of_together hp (h s s' hR) hc

lemma alike_execute {s : Statement} (hs : s.onCommands = true) : Alike E D D' (.pool (.execute s)) := by
  rintro ch _ _ a u ⟨k,l,rfl,rfl⟩ hc
  cases ch with
  | inr cs => simp [Store.serial] at hc
  | inl c =>
    obtain ⟨r,hr⟩ := Statement.execute_onCommands hs E.collation c.now k
    simp only [Store.serial,store,Op.handle] at hc ⊢
    rw [hr _ rfl] at hc ⊢
    rcases hf : c.fault with _ | (_ | _) <;> rcases r with e | ⟨a',k'⟩ <;>
      simp only [hf,Except.map,Option.some.injEq,Prod.mk.injEq] at hc ⊢ <;> obtain ⟨rfl,rfl⟩ := hc
    · exact ⟨_,⟨rfl,rfl⟩,k,l,rfl,rfl⟩
    · exact ⟨_,⟨rfl,rfl⟩,k',l,rfl,rfl⟩
    · exact ⟨_,⟨rfl,rfl⟩,k,l,rfl,rfl⟩
    · exact ⟨_,⟨rfl,rfl⟩,k,l,rfl,rfl⟩
    · exact ⟨_,⟨rfl,rfl⟩,k,l,rfl,rfl⟩
    · exact ⟨_,⟨rfl,rfl⟩,k',l,rfl,rfl⟩

/-- What does not touch the database does not look at it. -/
lemma alike_pool {o : Op} (ho : ∀ s, o ≠ .execute s) : Alike E D D' (.pool o) := by
  intro ch s s' a u hR hc
  cases ch with
  | inr cs => simp [Store.serial] at hc
  | inl c =>
    cases o with
    | execute s => exact absurd rfl (ho s)
    | _ =>
      simp only [Store.serial,store,Op.handle,Option.some.injEq,Prod.mk.injEq] at hc ⊢
      obtain ⟨rfl,rfl⟩ := hc
      exact ⟨_,⟨rfl,rfl⟩,hR⟩

section Exchange
variable {call : Call E} {ε α β γ : Type}

/-- The two sides of a call, in lockstep. -/
abbrev Sides (D D' : Database) (call : Call E) (p : Code ε α) (q : Code ε β)
    (Q : Except ε α → Except ε β → Prop) : Prop :=
  Program.Lockstep (store E).serial (store E).serial (Unseen D D') (call.Rejected D D') Resembles p.run q.run Q

lemma sides_bind {p : Code ε α} {f g : α → Code ε γ} (h : Sides D D' call p p Eq)
    (hf : ∀ a, Sides D D' call (f a) (g a) Eq) : Sides D D' call (p >>= f) (p >>= g) Eq := by
  refine Program.Lockstep.bindExcept (S := Eq) (h.mono ?_) ?_
  · rintro (e | a) _ rfl
    · exact .error e
    · exact .ok rfl
  · rintro a _ rfl
    exact hf a

lemma sides_runtime {p q : Code ServiceAccountPluginError α} {S : α → α → Prop}
    (h : Sides D D' call p q (Program.Outcomes S)) :
    Sides D D' call (runtime p) (runtime q) (Program.Outcomes S) := by
  refine Program.Lockstep.bind (h.mono ?_)
  rintro r r' (hab | e)
  · exact .ok hab
  · exact .error _

lemma sides_runtime_same {p : Code ServiceAccountPluginError α} (h : Sides D D' call p p Eq) :
    Sides D D' call (runtime p) (runtime p) Eq := by
  refine Program.Lockstep.bind (h.mono ?_)
  rintro (e | a) _ rfl <;> rfl

lemma sides_statement {operation : String} {s : Statement} (hs : s.onCommands = true) :
    Sides D D' call (Code.statement operation s) (Code.statement operation s) Eq :=
  .performed (alike_execute hs) (fun _ => .same rfl) fun _ _ => rfl

lemma sides_fallible {r : Except ε α} : Sides D D' call (fallible r) (fallible r) Eq := by
  cases r <;> rfl

lemma sides_claimCommand {key : CommandKey} {intentHash : Bytes} :
    Sides D D' call (claimCommand key intentHash) (claimCommand key intentHash) Eq := by
  refine sides_bind (sides_statement rfl) fun inserted => ?_
  split_ifs
  · rfl
  · exact sides_bind (sides_statement rfl) fun row => rfl

lemma sides_recordError {key : CommandKey} {code : String} {error : ε} :
    Sides D D' call (recordError (α := α) key code error) (recordError key code error) Eq := by
  refine sides_bind (sides_runtime_same (sides_bind (sides_statement rfl) fun changed => ?_)) fun u => rfl
  split_ifs <;> rfl

/-- Both sides load what the secret names in their own database. -/
lemma sides_loadCredential {secret id : String} (hid : credentialId secret = some id) :
    Sides D D' call (loadCredential id) (loadCredential id)
      (Program.Outcomes fun row row' => row = D.named secret ∧ row' = D'.named secret) := by
  rintro ch _ _ a u ⟨k,l,rfl,rfl⟩ hc hg
  cases ch with
  | inr cs => simp [Store.serial] at hc
  | inl c =>
    simp only [Store.serial,store,Op.handle] at hc ⊢
    rcases hf : c.fault with _ | (_ | _) <;> simp only [hf,Statement.execute,Option.some.injEq,Prod.mk.injEq] at hc ⊢ <;>
      obtain ⟨rfl,rfl⟩ := hc
    · refine ⟨_,_,⟨rfl,rfl⟩,⟨k,l,rfl,rfl⟩,.loaded,.ok ⟨?_,?_⟩⟩ <;> simp only [Database.named,hid,Option.bind_some]
    · exact ⟨_,_,⟨rfl,rfl⟩,⟨k,l,rfl,rfl⟩,.same rfl,.error _⟩
    · exact ⟨_,_,⟨rfl,rfl⟩,⟨k,l,rfl,rfl⟩,.same rfl,.error _⟩

/-- Both sides verify once, whatever the verifiers are. -/
lemma sides_verifySecret {secret : String} {pepper : Bytes} {verifier verifier' : String}
    (hv : wellFormedVerifier E verifier = true) (hv' : wellFormedVerifier E verifier' = true) :
    Sides D D' call (ε := ε) (verifySecret E secret pepper verifier) (verifySecret E secret pepper verifier')
      (Program.Outcomes fun b b' => b = verifySecretResult E secret pepper verifier ∧
        b' = verifySecretResult E secret pepper verifier') := by
  unfold verifySecret
  rw [if_pos hv,if_pos hv']
  intro ch s s' a u hR hc hg
  cases ch with
  | inr cs => simp [Store.serial] at hc
  | inl c =>
    simp only [Store.serial,store,Op.handle,Option.some.injEq,Prod.mk.injEq] at hc ⊢
    obtain ⟨rfl,rfl⟩ := hc
    refine ⟨_,_,⟨rfl,rfl⟩,hR,.verified,.ok ⟨?_,?_⟩⟩ <;> simp only [verifySecretResult,hv,hv',Bool.true_and]

/-- The verifier that a secret is checked against is an Argon2id text, with a credential or without. -/
lemma wellFormed_named (hphc : ∀ input salt v, E.hashPassword input salt = some v → wellFormedVerifier E v = true)
    {d : Database} (hd : d.Argon2id E) (active : ActiveServiceAccount E) (secret : String) :
    wellFormedVerifier E (((d.named secret).map CredentialRow.verifier).getD active.dummyVerifier) = true := by
  cases hrow : d.named secret with
  | none =>
    obtain ⟨salt,hs⟩ := active.dummy
    exact hphc _ _ _ hs
  | some row =>
    simp only [Database.named,Option.bind_eq_some_iff,Option.map_eq_some_iff] at hrow
    obtain ⟨id,-,c,hc,a,-,rfl⟩ := hrow
    exact hd c (Table.mem_of_find hc)

/-- A rejected secret admits no credential. -/
lemma filter_rejected {d : Database} {pepper : Bytes} {secret : String} {now : Time} {dummy : String}
    (h : d.accepts E pepper secret now = false) : ((d.named secret).filter fun row =>
      verifySecretResult E secret pepper (((d.named secret).map CredentialRow.verifier).getD dummy) &&
        row.usableAt now) = none := by
  cases hrow : d.named secret with
  | none => rfl
  | some row =>
    rw [Database.accepts,hrow,Option.any_some] at h
    rw [Option.filter_eq_none_iff]
    intro row' hrow'
    cases hrow'
    simpa using h

variable {plugin : ServiceAccountPlugin E} {context : InvocationContext} {request : ExchangeServiceAccountSecretRequest}

/-- What follows the lookup: both sides verify once and record the same error. -/
lemma sides_exchangeVerified (hphc : ∀ input salt v, E.hashPassword input salt = some v → wellFormedVerifier E v = true)
    (hD : D.Argon2id E) (hD' : D'.Argon2id E) (call : Call E) (key : CommandKey) (aad : Bytes)
    {active : ActiveServiceAccount E} {now : Time} (h : D.accepts E active.pepper request.secret now = false)
    (h' : D'.accepts E active.pepper request.secret now = false) :
    Sides D D' call (do
      let verifier := ((D.named request.secret).map CredentialRow.verifier).getD active.dummyVerifier
      let secretMatches ← verifySecret E request.secret active.pepper verifier
      match (D.named request.secret).filter fun row => secretMatches && row.usableAt now with
      | none => recordError key "invalid_credentials" .invalidCredentials
      | some credential => admitCredential active key aad credential) (do
      let verifier := ((D'.named request.secret).map CredentialRow.verifier).getD active.dummyVerifier
      let secretMatches ← verifySecret E request.secret active.pepper verifier
      match (D'.named request.secret).filter fun row => secretMatches && row.usableAt now with
      | none => recordError key "invalid_credentials" .invalidCredentials
      | some credential => admitCredential active key aad credential) Eq := by
  refine Program.Lockstep.bindExcept (sides_verifySecret (wellFormed_named hphc hD active _)
    (wellFormed_named hphc hD' active _)) ?_
  rintro _ _ ⟨rfl,rfl⟩
  rw [filter_rejected h,filter_rejected h']
  exact sides_recordError

lemma sides_exchangeClaimed (hphc : ∀ input salt v, E.hashPassword input salt = some v → wellFormedVerifier E v = true)
    (hD : D.Argon2id E) (hD' : D'.Argon2id E) {active : ActiveServiceAccount E} (hactive : plugin.active = some active)
    (key : CommandKey) (aad : Bytes) :
    Sides D D' (.exchangeSecret plugin context request) (exchangeClaimed active request key aad)
      (exchangeClaimed active request key aad) Eq := by
  refine Program.Lockstep.performed (alike_pool (by simp)) (fun _ => .same rfl) fun now hnow => ?_
  have hrejected : D.accepts E active.pepper request.secret now = false := by
    simpa [Call.rejected,hactive] using hnow.1
  have hrejected' : D'.accepts E active.pepper request.secret now = false := by
    simpa [Call.rejected,hactive] using hnow.2
  have hslot : Alike E D D' (.transact (.reserveRateSlot ⟨key.callerInstance,now,active.config.exchangeWindowSeconds,
      active.config.maxExchangesPerWindow,active.config.exchangeLockoutSeconds⟩)) :=
    alike_transact rfl fun d d' h => together_reserveRateSlot (.fresh h)
  refine sides_bind (sides_runtime_same (.performed hslot (fun _ => .same rfl) fun _ _ => rfl)) fun granted => ?_
  split_ifs
  · exact sides_recordError
  have hverified := sides_exchangeVerified hphc hD hD' (.exchangeSecret plugin context request) key aad hrejected
    hrejected'
  -- the named credentials differ, what follows does not
  cases hid : credentialId request.secret with
  | some id =>
    refine Program.Lockstep.bindExcept (sides_runtime (sides_loadCredential hid)) ?_
    rintro _ _ ⟨rfl,rfl⟩
    exact hverified
  | none =>
    have hnone : ∀ d : Database, d.named request.secret = none := fun d => by simp [Database.named,hid]
    rw [hnone,hnone] at hverified
    exact hverified

theorem sides_exchangeSecret (hphc : ∀ input salt v, E.hashPassword input salt = some v → wellFormedVerifier E v = true)
    (hD : D.Argon2id E) (hD' : D'.Argon2id E) :
    Sides D D' (.exchangeSecret plugin context request) (exchangeSecret plugin context request)
      (exchangeSecret plugin context request) Eq := by
  unfold exchangeSecret ServiceAccountPlugin.get
  cases hactive : plugin.active with
  | none => exact rfl
  | some active =>
    refine Program.Lockstep.bindExcept (S := fun a b => active = a ∧ active = b) (.ok ⟨rfl,rfl⟩) ?_
    rintro _ _ ⟨rfl,rfl⟩
    cases context.callerIn active.config.authenticationCallers with
    | none => exact rfl
    | some caller =>
      dsimp only
      split_ifs
      · exact rfl
      refine sides_bind (sides_runtime_same (sides_statement rfl)) fun u => ?_
      refine sides_bind (sides_runtime_same sides_claimCommand) fun claim => ?_
      cases claim with
      | claimed => exact sides_exchangeClaimed hphc hD hD' hactive _ _
      | completedSuccess nonce ciphertext =>
        exact sides_bind (sides_runtime_same sides_fallible) fun response => rfl
      | completedError code => exact sides_bind (sides_runtime_same sides_fallible) fun error => rfl
      | conflict => exact rfl
      | inProgress => exact rfl

lemma sides_inspectCommand {caller operation idempotencyKey : String} :
    Sides D D' call (inspectCommand caller operation idempotencyKey) (inspectCommand caller operation idempotencyKey)
      Eq := by
  unfold inspectCommand
  split_ifs
  · rfl
  refine sides_bind (.performed (alike_execute rfl) (fun _ => .same rfl) fun _ _ => rfl) fun r => ?_
  cases r <;> rfl

end Exchange

section Runs

lemma not_rejected {call : Call E} (h : call.exchanges = false) (o : Effect) (a : Effect.Ans o) :
    ¬call.Rejected D D' o a := by
  intro hr
  have hexchanges : call.exchanges = true := by
    unfold Call.Rejected at hr
    split at hr
    · have hrejected := hr.1
      cases call <;> first | rfl | cases hrejected
    · exact hr
  simp [h] at hexchanges

/-- Every call stays in lockstep with itself for as long as its secret is rejected. -/
theorem sides_main (hphc : ∀ input salt v, E.hashPassword input salt = some v → wellFormedVerifier E v = true)
    (hD : D.Argon2id E) (hD' : D'.Argon2id E) (call : Call E) :
    call.main.Lockstep (store E).serial (store E).serial (Unseen D D') (call.Rejected D D') Resembles call.main Eq := by
  cases call with
  | exchangeSecret plugin context request =>
    refine Program.Lockstep.bind ((sides_exchangeSecret hphc hD hD').mono ?_)
    rintro r _ rfl
    rfl
  | inspectCommand caller operation idempotencyKey =>
    refine Program.Lockstep.bind (sides_inspectCommand.mono ?_)
    rintro r _ rfl
    rfl
  | create plugin context request => exact .never (not_rejected rfl) _
  | get plugin context request => exact .never (not_rejected rfl) _
  | list plugin context request => exact .never (not_rejected rfl) _
  | rotateSecret plugin context request => exact .never (not_rejected rfl) _
  | revoke plugin context request => exact .never (not_rejected rfl) _

lemma Resembles.verifies {o o' : Effect} {a : Effect.Ans o} {a' : Effect.Ans o'} (h : Resembles o a o' a') :
    o'.verifies = o.verifies := by
  cases h <;> rfl

lemma Resembles.unassisted {o o' : Effect} {a : Effect.Ans o} {a' : Effect.Ans o'} (h : Resembles o a o' a') :
    o.unassisted = true := by
  cases h with
  | same ho => exact ho
  | loaded => rfl
  | verified => rfl

/-- Matching histories verify equally often. -/
lemma steps_verifies {tr tr' : List (CallStep E)} (h : List.Forall₂ (Config.MatchedEvent Resembles) tr tr') (i : ℕ) :
    steps verifies i tr' = steps verifies i tr := by
  induction h with
  | nil => rfl
  | @cons e e' tr tr' he htr ih =>
    have hverifies : verifies e' = verifies e := by
      have ha := he.action
      unfold verifies
      generalize e.action = x at ha
      generalize e'.action = x' at ha
      cases ha with
      | perform hA => exact hA.verifies
      | _ => rfl
    simp only [steps,List.countP_cons] at ih ⊢
    rw [ih,hverifies,he.tid]

lemma matched_unassisted {tr tr' : List (CallStep E)} (h : List.Forall₂ (Config.MatchedEvent Resembles) tr tr') :
    ∀ e ∈ tr, ∀ (o : Effect) a, e.action = .perform o a → o.unassisted = true := by
  induction h with
  | nil => simp
  | @cons e e' tr tr' he htr ih =>
    intro x hx o a ha
    rcases List.mem_cons.mp hx with rfl | hx
    · have hmatched := he.action
      rw [ha] at hmatched
      generalize e'.action = x' at hmatched
      cases hmatched with
      | perform hA => exact hA.unassisted
    · exact ih x hx o a ha

/-- A secret that is rejected reveals nothing about the store. -/
theorem rejected_secrets_reveal_nothing
    (hphc : ∀ input salt v, E.hashPassword input salt = some v → wellFormedVerifier E v = true)
    (hd : d.Argon2id E) (hd' : d'.Argon2id E) (hcommands : d'.commands = d.commands) (hlimits : d'.limits = d.limits)
    {ls : List (Label (Call E) (Choice ⊕ List Choice))} {c : Config (Call E) Effect Effect.Ans Reply Database}
    (hrun : (Config.init d).run Call.main (store E).serial ls = some c)
    (hcalls : ∀ e ∈ c.trace, e.call.exchanges = true)
    (hrejected : ∀ e ∈ c.trace, ∀ now, e.action = .perform (.pool .nowUtc) now →
      e.call.rejected d now = true ∧ e.call.rejected d' now = true) :
    (∃ c', (Config.init d').run Call.main (store E).serial ls = some c' ∧
      List.Forall₂ (Config.MatchedEvent Resembles) c.trace c'.trace ∧
      (∀ i, steps verifies i c'.trace = steps verifies i c.trace) ∧
      c'.state = { d' with commands := c.state.commands,limits := c.state.limits }) ∧
    c.state = { d with commands := c.state.commands,limits := c.state.limits } ∧
    ∀ e ∈ c.trace, ∀ (o : Effect) a, e.action = .perform o a → o.unassisted = true := by
  have hinit : Config.Abreast (store E).serial (Unseen d d') (Call.Rejected d d') Resembles (Config.init d)
      (Config.init d' : Config (Call E) Effect Effect.Ans Reply Database) := by
    refine ⟨⟨d.commands,d.limits,rfl,?_⟩,.nil,.nil⟩
    rw [← hcommands,← hlimits]
    rfl
  have hgood : ∀ e ∈ c.trace, ∀ o a, e.action = .perform o a → e.call.Rejected d d' o a := by
    intro e he o a ha
    unfold Call.Rejected
    split
    · exact hrejected e he _ ha
    · exact hcalls e he
  obtain ⟨c',hrun',habreast⟩ := hinit.run (sides_main hphc hd hd') hrun hgood
  obtain ⟨k,l,hstate,hstate'⟩ := habreast.state
  have hk : c.state.commands = k := by rw [hstate]
  have hl : c.state.limits = l := by rw [hstate]
  refine ⟨⟨c',hrun',habreast.trace,steps_verifies habreast.trace,by rw [hk,hl,hstate']⟩,by rw [hk,hl]; exact hstate,?_⟩
  exact matched_unassisted habreast.trace

end Runs

/-- The sample store without its account and credential. -/
def sampleVacant : Database where
  accounts := ∅
  credentials := ∅
  commands := sampleStore.commands
  limits := ∅

/-- A secret of the sample credential is presented after it has expired. -/
noncomputable def sampleAttempt : List (Label (Call .plain) (Choice ⊕ List Choice)) :=
  [.start (.exchangeSecret samplePlugin ⟨some "gateway"⟩
      ⟨"k9","lenso_sa_sac_1.AAAAAAAAAAAAAAAAAAAAAAAAAAAAAAAA"⟩),
    .perform 0 (.inl {}),.perform 0 (.inl {}),.perform 0 (.inl { clock := seconds 500 }),
    .perform 0 (.inr [{},{},{},{},{}]),.perform 0 (.inl {}),.perform 0 (.inl {}),.perform 0 (.inl {}),.reply 0]

set_option maxRecDepth 4000 in
noncomputable def sampleAttempted : Config (Call .plain) Effect Effect.Ans Reply Database :=
  ((Config.init sampleStore).run Call.main (store .plain).serial sampleAttempt).get (by decide +kernel)

lemma sampleAttempted_run :
    (Config.init sampleStore).run Call.main (store .plain).serial sampleAttempt = some sampleAttempted :=
  (Option.some_get _).symm

/-- In both stores the sample secret is rejected at every reading of the clock. -/
noncomputable def sampleRejects (e : CallStep .plain) : Bool :=
  match e.action with
  | .perform (.pool .nowUtc) now => e.call.rejected sampleStore now && e.call.rejected sampleVacant now
  | _ => true

set_option maxRecDepth 4000 in
lemma sampleAttempted_rejects : ∀ e ∈ sampleAttempted.trace, sampleRejects e = true := by decide +kernel

set_option maxRecDepth 4000 in
lemma sampleAttempted_exchanges : ∀ e ∈ sampleAttempted.trace, e.call.exchanges = true := by decide +kernel

set_option maxRecDepth 4000 in
lemma sampleAttempted_verifies : steps verifies 0 sampleAttempted.trace = 1 := by decide +kernel

/-- Without the credential the attempt goes the same way, and costs the same. -/
theorem rejected_secrets_reveal_nothing_sample : ∃ c',
    (Config.init sampleVacant).run Call.main (store .plain).serial sampleAttempt = some c' ∧
      List.Forall₂ (Config.MatchedEvent Resembles) sampleAttempted.trace c'.trace ∧
      steps verifies 0 c'.trace = 1 := by
  have hrejected : ∀ e ∈ sampleAttempted.trace, ∀ now, e.action = .perform (.pool .nowUtc) now →
      e.call.rejected sampleStore now = true ∧ e.call.rejected sampleVacant now = true := by
    intro e he now ha
    have hr := sampleAttempted_rejects e he
    rw [sampleRejects,ha,Bool.and_eq_true] at hr
    exact hr
  have hstore : sampleStore.Argon2id .plain := fun _ _ => rfl
  have hvacant : sampleVacant.Argon2id .plain := fun _ _ => rfl
  obtain ⟨⟨c',hrun,hmatched,hsteps,-⟩,-,-⟩ := rejected_secrets_reveal_nothing (fun _ _ _ _ => rfl)
    hstore hvacant rfl rfl sampleAttempted_run sampleAttempted_exchanges hrejected
  exact ⟨c',hrun,hmatched,(hsteps 0).trans sampleAttempted_verifies⟩

end LensoServiceAccount
