import LensoServiceAccount.Evidence
import LensoServiceAccount.Guessing
import LensoServiceAccount.Identities

/-! What a successful exchange rests on: the steps that lead to its admission, and the clock that
bounds the session. -/

namespace LensoServiceAccount
variable {E : Environment}

/-- The request of an exchange. -/
def Call.exchangeRequest : Call E → Option ExchangeServiceAccountSecretRequest
  | .exchangeSecret _ _ request => some request
  | _ => none

/-- The secret that a call presents. -/
def Call.presentedSecret (call : Call E) : Option String :=
  call.exchangeRequest.map ExchangeServiceAccountSecretRequest.secret

/-- What a step reads from the clock. -/
def clockOf (e : CallStep E) : Option Time :=
  match e.action with
  | .perform (.pool .nowUtc) t => some t
  | _ => none

/-- The readings of the clock in the steps of a call, the oldest first. -/
def readings (es : List (CallStep E)) : List Time := es.reverse.filterMap clockOf

/-- The step has found the credential of the row. -/
def Displays (e : CallStep E) (row : CredentialRow) : Prop :=
  ∃ c a, e.before.credentials.find row.credentialId = some c ∧
    e.before.accounts.find row.serviceAccountId = some a ∧ row = credentialRow c a

/-- The presented secret has been checked against the verifier of the row. -/
def Verified (call : Call E) (es : List (CallStep E)) (h : Held E) (row : CredentialRow) : Prop :=
  ∃ v ∈ es, ∃ secret, call.presentedSecret = some secret ∧
    v.action = .perform (.pool (.verifyPassword (peppered secret h.active.pepper) row.verifier)) true

/-- The three things that a call makes sure of before it asks for an admission. -/
structure Vetted (call : Call E) (es : List (CallStep E)) (h : Held E) (row : CredentialRow) : Prop where
  loaded : ∃ l ∈ es, Displays l row
  verified : Verified call es h row
  alive : ∃ s ∈ es, s.action = .perform (.pool (.readStatus ⟨row.subject⟩)) (.ok ⟨row.subject,.active⟩)

/-- The step commits the admission of a vetted credential. -/
structure Admits (x : CallStep E) (earlier : List (CallStep E)) (h : Held E) (row : CredentialRow) : Prop where
  admission : ∃ vetted now, Vetted x.call earlier h vetted ∧
    x.action = .perform (.transact (.markExchangeIssuing (h.mark vetted now))) (.ok (some row)) ∧
    AdmitCommit (h.mark vetted now) x.before row x.after

/-- The call has been admitted, and the first reading of the clock since, if there is one, is `now`. -/
def Admitted (call : Call E) (es : List (CallStep E)) (h : Held E) (row : CredentialRow) (now : Option Time) :
    Prop :=
  ∃ later x earlier, es = later ++ x :: earlier ∧ x.call = call ∧ Admits x earlier h row ∧
    (readings later).head? = now

/-- What the steps of an exchange have established in each phase. -/
def Established (call : Call E) (es : List (CallStep E)) : Phase E → Prop
  | .loaded _ _ row => ∀ r, row = some r → ∃ l ∈ es, Displays l r
  | .verified h row => (∃ l ∈ es, Displays l row) ∧ Verified call es h row
  | .alive h row | .deciding h row _ => Vetted call es h row
  | .admitted h row => Admitted call es h row none
  | .dated h row now | .issued h row now _ => Admitted call es h row (some now)
  | .settled h reply => ∀ response, reply = .exchangeSecret (.ok (.ok response)) → ∃ row now session,
      response = session.response row ∧ Bounded h row now session ∧ Admitted call es h row (some now)
  | _ => True

section Cons
variable {call : Call E} {es : List (CallStep E)} {e : CallStep E} {h : Held E} {row : CredentialRow} {φ φ' : Phase E}

lemma Verified.cons (hv : Verified call es h row) (e : CallStep E) : Verified call (e :: es) h row := by
  obtain ⟨v,hv,secret⟩ := hv
  exact ⟨v,List.mem_cons_of_mem _ hv,secret⟩

lemma Vetted.cons (hv : Vetted call es h row) (e : CallStep E) : Vetted call (e :: es) h row where
  loaded := by
    obtain ⟨l,hl,hx⟩ := hv.loaded
    exact ⟨l,List.mem_cons_of_mem _ hl,hx⟩
  verified := hv.verified.cons e
  alive := by
    obtain ⟨s,hs,hx⟩ := hv.alive
    exact ⟨s,List.mem_cons_of_mem _ hs,hx⟩

lemma readings_cons (e : CallStep E) (es : List (CallStep E)) : readings (e :: es) = readings es ++ (clockOf e).toList := by
  rw [readings,List.reverse_cons,List.filterMap_append,readings]
  cases hc : clockOf e <;> simp [hc]

lemma readings_append (es es' : List (CallStep E)) : readings (es ++ es') = readings es' ++ readings es := by
  rw [readings,List.reverse_append,List.filterMap_append,readings,readings]

lemma own_append {i : ℕ} (es es' : List (CallStep E)) :
    Protocol.own i (es ++ es') = Protocol.own i es ++ Protocol.own i es' := List.filter_append _ _

lemma Admitted.cons {now : Option Time} (ha : Admitted call es h row now)
    (he : clockOf e = none ∨ now.isSome = true) : Admitted call (e :: es) h row now := by
  obtain ⟨later,x,earlier,rfl,hcall,hx,hnow⟩ := ha
  refine ⟨e :: later,x,earlier,rfl,hcall,hx,?_⟩
  rw [readings_cons]
  obtain he | hsome := he
  · rw [he,Option.toList_none,List.append_nil,hnow]
  · rw [← hnow] at hsome ⊢
    cases hr : readings later with
    | nil =>
      rw [hr] at hsome
      cases hsome
    | cons t ts => rfl

lemma Admitted.read {t : Time} (ha : Admitted call es h row none) (he : clockOf e = some t) :
    Admitted call (e :: es) h row (some t) := by
  obtain ⟨later,x,earlier,rfl,hcall,hx,hnow⟩ := ha
  refine ⟨e :: later,x,earlier,rfl,hcall,hx,?_⟩
  rw [readings_cons,List.head?_eq_none_iff.mp hnow,he]
  rfl

lemma Established.cons (hφ : Established call es φ) (he : clockOf e = none) : Established call (e :: es) φ := by
  cases φ with
  | loaded held now row =>
    intro r hr
    obtain ⟨l,hl,hx⟩ := hφ r hr
    exact ⟨l,List.mem_cons_of_mem _ hl,hx⟩
  | verified held row =>
    obtain ⟨⟨l,hl,hx⟩,hv⟩ := hφ
    exact ⟨⟨l,List.mem_cons_of_mem _ hl,hx⟩,hv.cons e⟩
  | alive held row => exact Vetted.cons hφ e
  | deciding held row now => exact Vetted.cons hφ e
  | admitted held row => exact Admitted.cons hφ (.inl he)
  | dated held row now => exact Admitted.cons hφ (.inl he)
  | issued held row now session => exact Admitted.cons hφ (.inl he)
  | settled held reply =>
    intro response hr
    obtain ⟨row,now,session,hresponse,hb,hd⟩ := hφ response hr
    exact ⟨row,now,session,hresponse,hb,hd.cons (.inl he)⟩
  | _ => trivial

lemma displays_of_load {credentialId : String} {o : Collation} {t : Time} {d : Database}
    (hx : (Statement.loadCredential credentialId).execute o t e.before = .ok (some row,d)) : Displays e row := by
  simp only [Statement.execute,Except.ok.injEq,Prod.mk.injEq,Option.bind_eq_some_iff,Option.map_eq_some_iff] at hx
  obtain ⟨⟨c,hc,a,ha,rfl⟩,-⟩ := hx
  have hid : c.credentialId = credentialId := Table.key_of_find hc
  exact ⟨c,a,by rw [credentialRow,hid]; exact hc,ha,rfl⟩

/-- One move of an exchange establishes what its next phase says. -/
theorem Established.move (hφ : Established call es φ) {o : Effect} {a : Effect.Ans o} (hm : Move call φ o a φ')
    (hcall : e.call = call) (ha : e.action = .perform o a) (hl : e.Legal (store E).serial) :
    Established call (e :: es) φ' := by
  have hquiet : o ≠ .pool .nowUtc → clockOf e = none := by
    intro hno
    rw [clockOf,ha]
    split
    · next t ht =>
      cases ht
      exact absurd rfl hno
    · rfl
  cases hm with
  | random hφ' => exact hφ.cons (hquiet (by simp))
  | slotted => intro r hr; cases hr
  | credential hcall' hi =>
    intro r hr
    subst hr
    simp only [Event.Legal,ha] at hl
    obtain ⟨ch,hH⟩ := hl
    obtain ⟨now,hx⟩ := execute_of_serial hH
    exact ⟨e,by simp,displays_of_load hx⟩
  | verified hcall' hv hverifier hu =>
    obtain ⟨l,hl,hx⟩ := hφ _ rfl
    refine ⟨⟨l,List.mem_cons_of_mem _ hl,hx⟩,e,by simp,_,?_,by rw [ha,hverifier]⟩
    rw [hcall']
    rfl
  | alive =>
    obtain ⟨⟨l,hl,hx⟩,hv⟩ := hφ
    exact ⟨⟨l,List.mem_cons_of_mem _ hl,hx⟩,hv.cons e,e,by simp,ha⟩
  | deciding => exact Vetted.cons hφ e
  | marked hcall' =>
    have ho := outcome_of_legal hl ha
    cases ho with
    | admitted _ _ hcommit =>
      exact ⟨[],e,es,rfl,hcall,⟨_,_,hcall.symm ▸ hφ,ha,hcommit⟩,rfl⟩
  | dated => exact Admitted.read hφ (by rw [clockOf,ha])
  | issued hu he => exact Admitted.cons hφ (.inr rfl)
  | checked => exact Admitted.cons hφ (.inr rfl)
  | completed hcall' hb hs =>
    intro response hr
    cases hr
    exact ⟨_,_,_,rfl,hb,Admitted.cons hφ (.inr rfl)⟩
  | recorded hh hr hK he =>
    intro response hr
    have hsucceeds := congrArg Reply.succeeds hr
    rw [Kind.unsuccessful hK (by simp)] at hsucceeds
    cases hsucceeds
  | created | rotated | revoked => intro response hr; cases hr
  | _ => trivial

end Cons

theorem established_of_path {call : Call E} {es : List (CallStep E)} {φ : Phase E}
    (hp : (protocol E).Path (store E).serial call es φ) : Established call es φ := by
  induction hp with
  | start hc ha => exact True.intro
  | move h hc ha hm hH ih =>
    refine ih.move hm hc ha ?_
    simp only [Event.Legal,ha]
    exact ⟨_,hH⟩

/-- The row keeps the receipt of a response that its claimant has come to. -/
def Voucher (tr : List (CallStep E)) (k : CommandKey) (c : Command) : Prop :=
  ∃ y h row now session nonce ciphertext, tr.find? (inserts k) = some y ∧ h.key = k ∧
    y.call.active = some h.active ∧ c.responseNonce = some nonce ∧ c.responseCiphertext = some ciphertext ∧
    h.Sealed (Receipt.toJson (session.response row)) nonce ciphertext ∧ Bounded h row now session ∧
    Admitted y.call (Protocol.own y.tid tr) h row (some now)

/-- The rows of all completed exchanges do. -/
def Vouched (tr : List (CallStep E)) (d : Database) : Prop :=
  ∀ k c, d.commands.find k = some c → k.operation = exchangeSecretOperation → c.status = .completedSuccess →
    Voucher tr k c

section Steps
variable {tr : List (CallStep E)} {d : Database} {p p' : CallPhases E} {e : CallStep E}

lemma Voucher.cons {k : CommandKey} {c : Command} (h : Voucher tr k c) (hi : inserts k e = false) :
    Voucher (e :: tr) k c := by
  obtain ⟨y,held,row,now,session,nonce,ciphertext,hy,hkey,hactive,hn,hx,hsealed,hb,ha⟩ := h
  refine ⟨y,held,row,now,session,nonce,ciphertext,?_,hkey,hactive,hn,hx,hsealed,hb,?_⟩
  · rw [List.find?_cons_of_neg (by simp [hi])]
    exact hy
  · by_cases he : e.tid = y.tid
    · rw [Protocol.own_cons_self he]
      exact ha.cons (.inr rfl)
    · rw [Protocol.own_cons_ne he]
      exact ha

theorem Vouched.step (h : Vouched tr d) (ho : Ownership tr d p)
    (hpath : Traced tr p) (hs : (protocol E).Step (store E).serial tr d p e p') : Vouched (e :: tr) e.after := by
  intro k c hc hoperation hstatus
  have hold : d.commands.find k = some c → inserts k e = false → Voucher (e :: tr) k c := fun hd hi =>
    (h k c hd hoperation hstatus).cons hi
  cases hs with
  | start i call hp hi => exact hold hc ((idle_of_same rfl).inserts k)
  | reply i call φ r hp hl => exact hold hc ((idle_of_same rfl).inserts k)
  | stop i call φ hp => exact hold hc ((idle_of_same rfl).inserts k)
  | perform i call φ φ' o choice a s' hp hm hH =>
    have hrow := ho.acting.rowStep hp hm hH k
    have hc' : s'.commands.find k = some c := hc
    have hins : (d.commands.find k).isNone = false → inserts k (⟨i,call,.perform o a,d,s'⟩ : CallStep E) = false := by
      intro hn
      simp [inserts,hn]
    rw [hc'] at hrow
    generalize hb : d.commands.find k = row at hrow hins
    cases hrow with
    | same => exact hold hb (hins rfl)
    | inserted hpr hk hφ => cases hstatus
    | failed hh hr hk hcomp hK he hφ => cases hstatus
    | marked hcall hk hreserved hφ => cases hstatus
    | @succeeded φ held t x now nonce ciphertext reply φ' hask hk hcomp hs hφ =>
      obtain ⟨s,hh⟩ := hask.holds
      obtain ⟨x',y,hx',-,-,hy,hi,hcall,hpr⟩ := ho.owned.claim ho.orderly ho.acting hp hh
      obtain ⟨plugin,context,request,hexchange⟩ := Call.exchange_of_key hpr.commandKey (hk ▸ hoperation)
      obtain ⟨credential,n,session,rfl,hbounded,hreply⟩ := hs.exchange plugin context request hexchange
      obtain ⟨K,r,hK,hreply',hsealed⟩ := hs.sealed
      rw [hexchange] at hK
      obtain rfl : exchangeKind = K := Option.some.inj hK
      have hr : r = session.response credential := by
        rw [hreply] at hreply'
        exact (Except.ok.inj (Except.ok.inj (Reply.exchangeSecret.inj hreply'))).symm
      rw [hr] at hsealed
      have ha : Admitted call (Protocol.own i tr) held credential (some n) := established_of_path (hpath i call _ hp)
      refine ⟨y,held,credential,n,session,nonce,ciphertext,?_,hk,?_,rfl,rfl,hsealed,hbounded,?_⟩
      · rw [List.find?_cons_of_neg (by simp [hins rfl]),← hk]
        exact hy
      · rw [hcall]
        exact hpr.active
      · rw [hcall,hi,show Protocol.own i (⟨i,call,.perform o a,d,s'⟩ :: tr) = _ from Protocol.own_cons_self rfl]
        exact ha.cons (.inr rfl)

/-- The receipts of exchanges are vouched for in every run. -/
theorem vouched_invariant (E : Environment) : (protocol E).Invariant (store E).serial Database.empty fun tr d p =>
    ((Ownership tr d p ∧ Traced tr p) ∧ Vouched tr d) := by
  refine (traced_invariant E).and ?_ fun h hv hs => hv.step h.1 h.2 hs
  intro k c hc
  simp [Database.empty] at hc

end Steps

/-- The clock reading that follows the admission. -/
def readingAfter (later _ : List (CallStep E)) : Option Time := (readings later).head?

/-- The second clock reading of a call. -/
def secondReading (later earlier : List (CallStep E)) : Option Time := (readings earlier ++ readings later)[1]?

/-- What justifies the response of an exchange: the committed admission of a call that presented the same
secret under the same key. `reading` says which clock reading of that call bounds the session, from its steps
after and before the admission. -/
inductive Warranted (reading : List (CallStep E) → List (CallStep E) → Option Time) (tr : List (CallStep E))
    (call : Call E) (response : ExchangeServiceAccountSecretResponse) : Prop
  | mk {later earlier : List (CallStep E)} {x : CallStep E} {h : Held E} {m : MarkExchangeIssuing}
      {row : CredentialRow} {secret : String} {now actual : Time}
      (hsteps : Protocol.own x.tid tr = later ++ x :: earlier)
      (hadmission : x.action = .perform (.transact (.markExchangeIssuing m)) (.ok (some row)))
      (hcommit : AdmitCommit m x.before row x.after)
      (hcaller : m.caller = h.key.callerInstance) (hidempotency : m.idempotencyKey = h.key.idempotencyKey)
      (hkey : call.commandKey = some h.key) (hadmitted : x.call.commandKey = some h.key)
      (hsecret : call.presentedSecret = some secret) (hpresented : x.call.presentedSecret = some secret)
      (hactive : x.call.active = some h.active)
      (hallowed : h.key.callerInstance ∈ h.active.config.authenticationCallers)
      (hverified : ∃ v ∈ earlier, v.action =
        .perform (.pool (.verifyPassword (peppered secret h.active.pepper) row.verifier)) true)
      (halive : ∃ s ∈ earlier, s.action =
        .perform (.pool (.readStatus ⟨row.subject⟩)) (.ok ⟨row.subject,.active⟩))
      (hid : response.serviceAccountId = row.serviceAccountId)
      (horganization : response.organizationId = row.organizationId) (hsubject : response.subject = row.subject)
      (hnow : reading later earlier = some now) (hexpiry : E.parseRfc3339 response.expiresAt = some actual)
      (hbound : actual ≤ min (now + seconds h.active.config.tokenTtlSeconds) row.validUntil) :
      Warranted reading tr call response

section Runs
variable {d : Config (Call E) Effect Effect.Ans Reply Database} {call : Call E} {h : Held E} {row : CredentialRow}
  {now : Time} {i : ℕ}

/-- The credential that is admitted is the one that was vetted: neither its verifier nor its subject change. -/
lemma vetted_row (hd : Config.Reachable Call.main (store E).serial Database.empty d)
    {post pre : List (CallStep E)} {x : CallStep E} (htr : d.trace = post ++ x :: pre) {vetted : CredentialRow}
    {t : Time} (hv : ∃ l ∈ Protocol.own x.tid pre, Displays l vetted)
    (hc : AdmitCommit (h.mark vetted t) x.before row x.after) :
    vetted.verifier = row.verifier ∧ vetted.subject = row.subject := by
  obtain ⟨f,hf,hpre,hstate,-⟩ := hd.split htr
  obtain ⟨l,hl,c,a,hfc,hfa,rfl⟩ := hv
  have hmem : l ∈ f.trace := by
    rw [hpre]
    exact (Protocol.mem_own.mp hl).1
  obtain ⟨c',hc',hev⟩ := credentials_evolved hf l hmem _ c hfc
  obtain ⟨a',ha',hev'⟩ := evolved hf l hmem _ a (.inl hfa)
  rw [hstate] at hc' ha'
  obtain ⟨b,x',k,_,hb,-,hx,-⟩ := hc
  obtain rfl := Option.some.inj (hc'.symm.trans hx)
  obtain rfl := Option.some.inj (ha'.symm.trans hb)
  exact ⟨hev.verifier.symm,hev'.subject.symm⟩

/-- An admission justifies the response that its call has come to. -/
lemma Admitted.warranted (hd : Config.Reachable Call.main (store E).serial Database.empty d)
    (ha : Admitted call (Protocol.own i d.trace) h row (some now)) {other : Call E}
    (hkey : other.commandKey = some h.key) (hkey' : call.commandKey = some h.key)
    (hoperation : h.key.operation = exchangeSecretOperation) (hactive : call.active = some h.active)
    (hsecret : other.presentedSecret = call.presentedSecret) {session : IssueResponse}
    (hb : Bounded h row now session) : Warranted readingAfter d.trace other (session.response row) := by
  obtain ⟨later,x,earlier,hown,rfl,⟨vetted,t,hvetted,haction,hcommit⟩,hnow⟩ := ha
  have hi : i = x.tid := by
    have hmem : x ∈ Protocol.own i d.trace := by
      rw [hown]
      simp
    exact (Protocol.mem_own.mp hmem).2.symm
  subst hi
  obtain ⟨post,pre,htr,-,hpre⟩ := Protocol.own_split hown
  obtain ⟨hverifier,hsubject⟩ := vetted_row hd htr (by rw [hpre]; exact hvetted.loaded) hcommit
  obtain ⟨v,hv,secret,hpresented,hvaction⟩ := hvetted.verified
  obtain ⟨s,hs,hsaction⟩ := hvetted.alive
  rw [hverifier] at hvaction
  rw [hsubject] at hsaction
  obtain ⟨actual,hexpiry,hbound⟩ := hb.expiry
  exact .mk hown haction hcommit rfl rfl hkey hkey' (hsecret.trans hpresented) hpresented hactive
    (Call.allowed_of_key hkey' hoperation hactive) ⟨v,hv,hvaction⟩ ⟨s,hs,hsaction⟩ rfl rfl rfl hnow hexpiry hbound

end Runs

/-- What opens a ciphertext opens what was sealed in it. -/
def Environment.Binds (E : Environment) : Prop := ∀ key key' nonce aad plain plain' ciphertext,
  E.aeadEncrypt key nonce aad plain = some ciphertext → E.aeadDecrypt key' nonce aad ciphertext = some plain' →
    plain' = plain

/-- No two exchanges of the run have different requests with one digest. -/
def DistinctRequests (tr : List (CallStep E)) : Prop :=
  ∀ x ∈ tr, ∀ y ∈ tr, ∀ request request', x.call.exchangeRequest = some request →
    y.call.exchangeRequest = some request' → E.TellsApart (Json.toVec request.toJson) (Json.toVec request'.toJson)

section Replays
variable {h held : Held E} {nonce ciphertext : Bytes}

/-- A receipt that is opened with any key gives what was sealed in it. -/
lemma Held.Sealed.opened (hE : E.Faithful) (hB : E.Binds) {ρ : Type} [Receipt ρ] {r r' : ρ}
    (hs : held.Sealed (Receipt.toJson r) nonce ciphertext) (hkey : h.key = held.key)
    (hd : h.active.receiptCipher.decrypt E ρ nonce ciphertext h.aad = .ok r') : r' = r := by
  obtain ⟨hn,hc⟩ := hs
  have haad : h.aad = held.aad := by rw [Held.aad,Held.aad,hkey]
  simp only [ReceiptCipher.decrypt,if_pos hn,haad] at hd
  cases hopen : E.aeadDecrypt h.active.receiptCipher.key nonce held.aad ciphertext with
  | none =>
    rw [hopen] at hd
    cases hd
  | some plain =>
    obtain rfl := hB _ _ _ _ _ _ _ hc hopen
    simp only [hopen,hE.fromSlice,Option.bind_some,Receipt.fromJson_toJson,Except.ok.injEq] at hd
    exact hd.symm

/-- A replay opens a completed row. -/
lemma Kind.answer_ok {K : Kind} {command : Command} {response : K.Response}
    (ha : K.answer h command = .ok (.ok response)) : command.status = .completedSuccess ∧
      command.intentHash = h.intentHash ∧ ∃ r, response = K.replayed r ∧
        h.active.receiptCipher.decrypt E K.Response (command.responseNonce.getD [])
          (command.responseCiphertext.getD []) h.aad = .ok r := by
  by_cases hi : command.intentHash = h.intentHash
  · cases hs : command.status with
    | completedSuccess =>
      cases hd : h.active.receiptCipher.decrypt E K.Response (command.responseNonce.getD [])
          (command.responseCiphertext.getD []) h.aad with
      | ok r =>
        simp only [Kind.answer,hi,hs,hd,ne_eq,not_true_eq_false,if_false,Except.ok.injEq] at ha
        exact ⟨rfl,hi,r,ha.symm,rfl⟩
      | error e => simp [Kind.answer,hi,hs,hd] at ha
    | completedError => cases he : K.errorOfCode (command.errorCode.getD "") <;> simp [Kind.answer,hi,hs,he] at ha
    | _ => simp [Kind.answer,hi,hs] at ha
  · simp [Kind.answer,hi] at ha

end Replays

/-- A success of an exchange: it is justified by the steps before it, and when the command was found there
its call has done nothing else, and nobody has replied anything else for the command. -/
structure ExchangeSucceeds (c : Run (Call E) Reply) (pre : List (CallStep E)) (e : CallStep E)
    (response : ExchangeServiceAccountSecretResponse) : Prop where
  warranted : Warranted readingAfter pre e.call response
  replay : ∀ post f before, c.trace = post ++ f :: before → f.tid = e.tid → ∀ k command, Finds f k command →
    (∀ x ∈ c.trace, x.tid = e.tid → Idle x) ∧ ∀ y ∈ before, claimant k before = some y.tid →
      ∀ reply, y.action = .reply reply → reply.failure = none → reply = .exchangeSecret (.ok (.ok response))

section Successes
variable {c : Run (Call E) Reply} {post before pre : List (CallStep E)} {e f : CallStep E} {k : CommandKey}
  {command : Command} {response : ExchangeServiceAccountSecretResponse}

lemma Kind.exchange_of_reply {call : Call E} {K : Kind} (hK : call.kind = some K)
    {x : Except RuntimeFailure (Except K.Error K.Response)} (hr : .exchangeSecret (.ok (.ok response)) = K.reply x) :
    (∃ plugin context request, call = .exchangeSecret plugin context request) := by
  cases call <;> simp only [Call.kind,Option.some.injEq,reduceCtorEq] at hK <;> subst hK
  case exchangeSecret plugin context request => exact ⟨plugin,context,request,rfl⟩
  all_goals cases hr

/-- What a call that finds its command there and succeeds has gone through. -/
lemma replayed (hc : LockedConfig.Reachable (store E) Call.main Database.empty c)
    (htr : c.trace = post ++ f :: before) (hf : Finds f k command) (he : e ∈ c.trace) (htid : e.tid = f.tid)
    (ha : e.action = .reply (.exchangeSecret (.ok (.ok response)))) : ∃ h : Held E,
      f.call.Presents (actorOf f.tid before) h ∧ h.key = k ∧ f.before.commands.find k = some command ∧
      exchangeKind.answer h command = .ok (.ok response) ∧
      (∃ plugin context request, f.call = .exchangeSecret plugin context request) ∧
      ∀ x ∈ c.trace, x.tid = f.tid → Idle x := by
  obtain ⟨φ,p,p',hφ,ho,hstep,hends,hlater⟩ := settled_event hc htr (.inl ⟨k,command,hf⟩)
  obtain ⟨hrow,hsame⟩ := hf.row hstep.legal
  have hlast := hends e he htid _ ha
  cases hφ with
  | recorded he' => exact absurd (hf.symm.trans he') (by simp)
  | @found k' command' h he' hk hp hw =>
    obtain ⟨rfl,rfl⟩ : k = k' ∧ command = command' := by simpa using hf.symm.trans he'
    obtain ⟨K,hK,hr⟩ := hlast
    obtain ⟨plugin,context,request,hcall⟩ := Kind.exchange_of_reply hK hr
    rw [hcall] at hK
    obtain rfl : exchangeKind = K := Option.some.inj hK
    refine ⟨h,hp,hk,hrow,(Reply.exchangeSecret.inj hr).symm,⟨plugin,context,request,hcall⟩,fun x hx hi => ?_⟩
    rw [htr] at hx
    rcases List.mem_append.mp hx with hx | hx
    · exact idle_of_same (hlater x hx hi)
    rcases List.mem_cons.mp hx with rfl | hx
    · exact idle_of_same hsame
    · exact hw x hx hi

/-- What the claimant of a row has replied is what the row says. -/
lemma replayed_same (hE : E.Faithful) (hB : E.Binds) {tr : List (CallStep E)} {d : Database} {p : CallPhases E}
    (ho : Ownership tr d p) (hrow : d.commands.find k = some command) {h : Held E} (hkey : h.key = k)
    (hoperation : k.operation = exchangeSecretOperation)
    (hanswer : exchangeKind.answer h command = .ok (.ok response)) {y : CallStep E} (hy : y ∈ tr)
    (hclaim : claimant k tr = some y.tid) {reply : Reply} (hreply : y.action = .reply reply)
    (hdomain : reply.failure = none) : reply = .exchangeSecret (.ok (.ok response)) := by
  obtain ⟨hstatus,-,r,hr,hd⟩ := Kind.answer_ok hanswer
  obtain ⟨held,hheld,hp,-,hrec⟩ := ho.recorded hrow hy hclaim hreply hdomain
  obtain ⟨plugin,context,request,hcall⟩ := Call.exchange_of_key hp.commandKey (hheld ▸ hoperation)
  cases hrec with
  | error hK hs => exact absurd (hstatus.symm.trans hs) (by simp)
  | @success K r' nonce ciphertext hK hs hn hx hsealed =>
    rw [hcall] at hK
    obtain rfl : exchangeKind = K := Option.some.inj hK
    rw [hn,hx,Option.getD_some,Option.getD_some] at hd
    have heq : r = r' := hsealed.opened hE hB (hkey.trans hheld.symm) hd
    rw [← heq,hr]
    rfl

/-- The secret of a request, as its digest tells. -/
lemma presentedSecret_of_digest (hE : E.Faithful) {x y : CallStep E} {tr : List (CallStep E)}
    (hdistinct : DistinctRequests tr) (hx : x ∈ tr) (hy : y ∈ tr) {h held : Held E} {actor actor' : Option String}
    (hp : x.call.Presents actor h) (hp' : y.call.Presents actor' held)
    (hcall : ∃ plugin context request, x.call = .exchangeSecret plugin context request)
    (hcall' : ∃ plugin context request, y.call = .exchangeSecret plugin context request)
    (hdigest : h.intentHash = held.intentHash) : x.call.presentedSecret = y.call.presentedSecret := by
  obtain ⟨plugin,context,request,hcall⟩ := hcall
  obtain ⟨plugin',context',request',hcall'⟩ := hcall'
  have hintent := hp.intent
  have hintent' := hp'.intent
  rw [hcall] at hintent ⊢
  rw [hcall'] at hintent' ⊢
  simp only [Call.intent,Option.some.injEq] at hintent hintent'
  rw [Held.intentHash,Held.intentHash,← hintent,← hintent'] at hdigest
  have hbytes := hdistinct x hx y hy request request' (by rw [hcall]; rfl) (by rw [hcall']; rfl) hdigest
  have hjson : request.toJson = request'.toJson := by
    have hslice := hE.fromSlice request.toJson
    rw [hbytes,hE.fromSlice] at hslice
    exact (Option.some.inj hslice).symm
  have hsecret : request.secret = request'.secret := by
    simp only [ExchangeServiceAccountSecretRequest.toJson] at hjson
    simp_all
  simp only [Call.presentedSecret,Call.exchangeRequest,Option.map_some,hsecret]

/-- A call that has been admitted is an exchange. -/
lemma Admitted.exchange {call : Call E} {es : List (CallStep E)} {h : Held E} {row : CredentialRow}
    {now : Option Time} (ha : Admitted call es h row now) :
    ∃ plugin context request, call = .exchangeSecret plugin context request := by
  obtain ⟨later,x,earlier,-,rfl,⟨vetted,t,hvetted,-⟩,-⟩ := ha
  obtain ⟨v,-,secret,hsecret,-⟩ := hvetted.verified
  cases hcall : x.call <;> rw [hcall] at hsecret <;> simp only [Call.presentedSecret,
    Call.exchangeRequest,Option.map_none,reduceCtorEq] at hsecret
  exact ⟨_,_,_,rfl⟩

lemma Admitted.append {call : Call E} {es : List (CallStep E)} {h : Held E} {row : CredentialRow} {now : Time}
    (ha : Admitted call es h row (some now)) (later : List (CallStep E)) :
    Admitted call (later ++ es) h row (some now) := by
  induction later with
  | nil => exact ha
  | cons x later ih => exact ih.cons (.inr rfl)

/-- The response of a replay is justified by the call that has claimed the command. -/
lemma warranted_of_finds (hE : E.Faithful) (hB : E.Binds)
    (hc : LockedConfig.Reachable (store E) Call.main Database.empty c) (hdistinct : DistinctRequests c.trace)
    (he : c.trace = post ++ e :: pre) (ha : e.action = .reply (.exchangeSecret (.ok (.ok response))))
    (hf : Finds f k command) (hmem : f ∈ pre) (htid : f.tid = e.tid) :
    Warranted readingAfter pre e.call response := by
  obtain ⟨mid,before,rfl⟩ := List.append_of_mem hmem
  have htr : c.trace = (post ++ e :: mid) ++ f :: before := by simp [he]
  have hein : e ∈ c.trace := by simp [he]
  obtain ⟨h,hp,hkey,hrow,hanswer,hcall,-⟩ := replayed hc htr hf hein htid.symm ha
  obtain ⟨p,p',⟨⟨ho,-⟩,hv⟩,-⟩ := (vouched_invariant E).event (obeyed E) (serializable hc) htr
  obtain ⟨hstatus,hintent,r,hr,hd⟩ := Kind.answer_ok hanswer
  have hoperation : k.operation = exchangeSecretOperation := by
    obtain ⟨plugin,context,request,hcall⟩ := hcall
    rw [← hkey]
    exact Call.operation_of_commandKey hcall hp.commandKey
  obtain ⟨y,held,row,now,session,nonce,ciphertext,hy,hheld,hactive,hn,hx,hsealed,hb,hadmitted⟩ :=
    hv k command hrow hoperation hstatus
  obtain ⟨z,held',hz,hpz,hkz,hintentz,-⟩ := ho.accounted.row k command hrow
  obtain rfl := Option.some.inj (hy.symm.trans hz)
  have hcally := Call.exchange_of_key hpz.commandKey (hkz ▸ hoperation)
  -- the call that answers is the one that has found the row
  have hsame : e.call = f.call := by
    obtain ⟨q,-,horderly⟩ := (Protocol.orderly_invariant (protocol E) (store E).serial Database.empty).reachable
      (obeyed E) (serializable hc)
    have hfin : f ∈ c.trace := by simp [htr]
    exact horderly.same e hein f hfin htid.symm
  have hyin : y ∈ c.trace := by
    rw [htr]
    exact List.mem_append_right _ (List.mem_cons_of_mem _ (List.mem_of_find?_eq_some hy))
  have hsecret : e.call.presentedSecret = y.call.presentedSecret := by
    rw [hsame]
    exact presentedSecret_of_digest hE hdistinct (by rw [htr]; simp) hyin hp hpz hcall hcally
      (hintent.symm.trans hintentz)
  rw [hn,hx,Option.getD_some,Option.getD_some] at hd
  have hopened : r = session.response row := hsealed.opened hE hB (hkey.trans hheld.symm) hd
  rw [hr,hopened]
  obtain ⟨d,hd',hdtr,-⟩ := (serializable hc).split he
  have hown : Admitted y.call (Protocol.own y.tid d.trace) held row (some now) := by
    rw [hdtr,Protocol.own,List.filter_append]
    refine Admitted.append ?_ _
    rw [← List.singleton_append,List.filter_append]
    exact hadmitted.append _
  rw [← hdtr]
  exact hown.warranted hd' (by rw [hsame,hp.commandKey,hkey,hheld]) (by rw [hpz.commandKey,hkz,hheld])
    (hheld ▸ hoperation) hactive hsecret hb

/-- Every success of an exchange is justified and bounded. -/
theorem exchange_succeeds (hE : E.Faithful) (hB : E.Binds)
    (hc : LockedConfig.Reachable (store E) Call.main Database.empty c) (hdistinct : DistinctRequests c.trace)
    (he : c.trace = post ++ e :: pre) (ha : e.action = .reply (.exchangeSecret (.ok (.ok response)))) :
    ExchangeSucceeds c pre e response where
  warranted := by
    obtain ⟨p,φ,ho,hp,hpath,hlast⟩ := reply_path hc he ha
    obtain ⟨held,command,K,rfl,hK,hr⟩ | ⟨held,rfl⟩ | ⟨rows,-,hr⟩ | ⟨status,-,hr⟩ := Last.succeeds hlast rfl
    · obtain ⟨f,hf,hfinds⟩ := finds_of_path hpath
      obtain ⟨hmem,htid⟩ := Protocol.mem_own.mp hf
      exact warranted_of_finds hE hB hc hdistinct he ha hfinds hmem htid
    · obtain ⟨row,now,session,rfl,hb,hadmitted⟩ := established_of_path hpath response rfl
      have hpr := (ho.acting e.tid).presents _ _ held hp rfl
      obtain ⟨plugin,context,request,hcall⟩ := hadmitted.exchange
      obtain ⟨d,hd,rfl,-⟩ := (serializable hc).split he
      exact hadmitted.warranted hd hpr.commandKey hpr.commandKey (Call.operation_of_commandKey hcall hpr.commandKey)
        hpr.active rfl hb
    · cases hcall : e.call <;> rw [hcall] at hr <;> simp only [Call.shows,reduceCtorEq] at hr
      obtain ⟨active,limit,-,-,hr⟩ := hr
      cases hr
    · cases hr
  replay post' f before htr htid k command hf := by
    obtain ⟨h,hp,hkey,hrow,hanswer,hcall,hidle⟩ := replayed hc htr hf (by rw [he]; simp) htid.symm ha
    obtain ⟨p,p',⟨ho,-⟩,-⟩ := sound_event hc htr
    have hoperation : k.operation = exchangeSecretOperation := by
      obtain ⟨plugin,context,request,hcall⟩ := hcall
      rw [← hkey]
      exact Call.operation_of_commandKey hcall hp.commandKey
    refine ⟨fun x hx hi => hidle x hx (hi.trans htid.symm),fun y hy hclaim reply hreply hdomain => ?_⟩
    exact replayed_same hE hB ho hrow hkey hoperation hanswer hy hclaim hreply hdomain

end Successes

lemma plain_binds : Environment.plain.Binds := by
  intro key key' nonce aad plain plain' ciphertext hseal hopen
  simp only [Environment.plain,Option.some.injEq] at hseal hopen
  subst hseal
  split_ifs at hopen with hprefix
  obtain ⟨r,hr⟩ := List.isPrefixOf_iff_prefix.mp hprefix
  simp only [List.append_assoc] at hr
  obtain ⟨rfl,-⟩ := frame_inj hr
  rw [← Option.some.inj hopen]
  have happend : frame key' ++ (frame nonce ++ (frame aad ++ plain)) =
      (frame key' ++ (frame nonce ++ frame aad)) ++ plain := by simp only [List.append_assoc]
  rw [happend,List.drop_left]

/-- An instance whose sessions end after a minute. -/
noncomputable def sampleBrief : ServiceAccountPlugin .plain :=
  ⟨some { sampleActive with config := { sampleConfig with tokenTtlSeconds := 60 },valid := rfl }⟩

/-- Call `1` exchanges the secret of the account that call `0` has created. Its clock reads 200 s, 230 s before the
admission and 240 s after it, and the session ends after 300 s. -/
noncomputable def sampleDated : List (LockedLabel (Call .plain) Choice Choice) :=
  sampleCreate ++ [.start (.exchangeSecret sampleBrief ⟨some "gateway"⟩ ⟨"k2",sampleSecret.wire⟩),.pool 1 {},
    .pool 1 {},.pool 1 { clock := seconds 200 },.enter 1,.within 1 {},.within 1 {},.within 1 {},.within 1 {},
    .within 1 {},.pool 1 {},.pool 1 {},.pool 1 { status := .ok ⟨"subject",.active⟩ },
    .pool 1 { clock := seconds 230 },.enter 1,.within 1 {},.within 1 {},.within 1 {},.within 1 {},.within 1 {},
    .within 1 {},.pool 1 { clock := seconds 240 },
    .pool 1 { session := .ok ⟨"session","token","1970-01-01T00:05:00Z"⟩ },.pool 1 { clock := seconds 250 },
    .pool 1 { entropy := some (List.replicate 12 0) },.enter 1,.within 1 {},.within 1 {},.within 1 {},.reply 1]

set_option maxRecDepth 4000 in
noncomputable def sampleDatedRun : Run (Call .plain) Reply :=
  ((LockedConfig.init Database.empty).run (store .plain) Call.main sampleDated).get (by decide +kernel)

lemma sampleDatedRun_reachable :
    LockedConfig.Reachable (store .plain) Call.main Database.empty sampleDatedRun :=
  LockedConfig.leads_of_run (Option.some_get _).symm

/-- The response of an exchange that has succeeded. -/
def Reply.session : Reply → Option ExchangeServiceAccountSecretResponse
  | .exchangeSecret (.ok (.ok response)) => some response
  | _ => none

lemma Reply.eq_of_session {r : Reply} {response : ExchangeServiceAccountSecretResponse}
    (h : r.session = some response) : r = .exchangeSecret (.ok (.ok response)) := by
  cases r <;> try cases h
  case exchangeSecret x =>
    cases x with
    | error e => cases h
    | ok x =>
      cases x with
      | error e => cases h
      | ok x => cases h; rfl

/-- The step asks for an admission. -/
def marks (e : CallStep E) : Bool :=
  match e.action with
  | .perform (.transact (.markExchangeIssuing _)) _ => true
  | _ => false

set_option maxRecDepth 4000 in
/-- Only call `1` asks for an admission, it reads 230 s first, and the session it returns ends after 300 s. -/
lemma sampleDatedRun_checks :
    (sampleDatedRun.trace.any fun e => ((replied e).bind Reply.session).any
      fun response => response.expiresAt == "1970-01-01T00:05:00Z") = true ∧
    (sampleDatedRun.trace.all fun e => (!marks e || e.tid == 1 &&
      e.call.active.map (·.config.tokenTtlSeconds) == some 60) &&
      e.call.exchangeRequest.all (· == ⟨"k2",sampleSecret.wire⟩)) = true ∧
    (readings (Protocol.own 1 sampleDatedRun.trace))[1]? = some (seconds 230) := by
  decide +kernel

/-- The session is returned in the run. -/
lemma sampleDatedRun_replies : ∃ post e pre response, sampleDatedRun.trace = post ++ e :: pre ∧
    e.action = .reply (.exchangeSecret (.ok (.ok response))) ∧ response.expiresAt = "1970-01-01T00:05:00Z" := by
  obtain ⟨e,he,h⟩ := List.any_eq_true.mp sampleDatedRun_checks.1
  simp only [Option.any_eq_true,Option.bind_eq_some_iff,beq_iff_eq] at h
  obtain ⟨response,⟨r,hr,hresponse⟩,hexpires⟩ := h
  have ha := action_of_replied hr
  rw [Reply.eq_of_session hresponse] at ha
  have htr : e ∈ sampleDatedRun.trace := he
  obtain ⟨post,pre,hsplit⟩ := List.append_of_mem htr
  exact ⟨post,e,pre,response,hsplit,ha,hexpires⟩

lemma sampleDatedRun_distinct : DistinctRequests sampleDatedRun.trace := by
  have hone : ∀ e ∈ sampleDatedRun.trace, ∀ request, e.call.exchangeRequest = some request →
      request = ⟨"k2",sampleSecret.wire⟩ := by
    intro e he request hrequest
    have hall := List.all_eq_true.mp sampleDatedRun_checks.2.1 e he
    rw [hrequest,Option.all_some,Bool.and_eq_true] at hall
    exact eq_of_beq hall.2
  intro x hx y hy request request' hr hr' _
  rw [hone x hx request hr,hone y hy request' hr']

theorem exchange_succeeds_sample : ∃ post e pre response, sampleDatedRun.trace = post ++ e :: pre ∧
    e.action = .reply (.exchangeSecret (.ok (.ok response))) ∧ ExchangeSucceeds sampleDatedRun pre e response := by
  obtain ⟨post,e,pre,response,he,ha,-⟩ := sampleDatedRun_replies
  exact ⟨post,e,pre,response,he,ha,
    exchange_succeeds plain_faithful plain_binds sampleDatedRun_reachable sampleDatedRun_distinct he ha⟩

/-- The second clock reading bounds no session: the plugin adds the lifetime to the third one. -/
theorem second_reading_exceeded : LockedConfig.Reachable (store .plain) Call.main Database.empty sampleDatedRun ∧
    DistinctRequests sampleDatedRun.trace ∧ ∃ post e pre response, sampleDatedRun.trace = post ++ e :: pre ∧
      e.action = .reply (.exchangeSecret (.ok (.ok response))) ∧ ¬Warranted secondReading pre e.call response := by
  refine ⟨sampleDatedRun_reachable,sampleDatedRun_distinct,?_⟩
  obtain ⟨post,e,pre,response,he,ha,hexpires⟩ := sampleDatedRun_replies
  refine ⟨post,e,pre,response,he,ha,fun hwarranted => ?_⟩
  obtain ⟨-,hall,hsecond⟩ := sampleDatedRun_checks
  cases hwarranted with
  | @mk later earlier x h m row secret now actual hsteps hadmission _ _ _ _ _ _ _ hactive _ _ _ _ _ _ hnow hexpiry
      hbound =>
    have hx : x ∈ sampleDatedRun.trace := by
      have hmem : x ∈ Protocol.own x.tid pre := by
        rw [hsteps]
        simp
      rw [he]
      exact List.mem_append_right _ (List.mem_cons_of_mem _ (Protocol.mem_own.mp hmem).1)
    have hcheck := List.all_eq_true.mp hall x hx
    have hmarks : marks x = true := by rw [marks,hadmission]
    rw [hmarks,hactive] at hcheck
    obtain ⟨htid,httl⟩ : x.tid = 1 ∧ h.active.config.tokenTtlSeconds = 60 := by
      simpa using (Bool.and_eq_true_iff.mp hcheck).1
    have hreads : readings (Protocol.own 1 pre) = readings earlier ++ readings later := by
      rw [← htid,hsteps,readings_append,readings_cons,clockOf,hadmission]
      simp
    have hnow' : now = seconds 230 := by
      rw [he,← List.singleton_append,own_append,own_append,readings_append,readings_append] at hsecond
      have hpre : (readings (Protocol.own 1 pre))[1]? = some now := by
        rw [hreads]
        exact hnow
      obtain ⟨hlt,-⟩ := List.getElem?_eq_some_iff.mp hpre
      rw [List.append_assoc,List.getElem?_append_left hlt] at hsecond
      exact Option.some.inj (hpre.symm.trans hsecond)
    have hparse : Environment.plain.parseRfc3339 "1970-01-01T00:05:00Z" = some (seconds 300) := by decide +kernel
    rw [hexpires,hparse] at hexpiry
    rw [← Option.some.inj hexpiry,hnow',httl] at hbound
    exact absurd (le_trans hbound (min_le_left _ _)) (by decide)

end LensoServiceAccount
