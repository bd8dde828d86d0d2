import LensoServiceAccount.Conformance
import LensoServiceAccount.History

/-! What one step of a call does to the row of a command: said once, for every phase. -/

namespace LensoServiceAccount
variable {E : Environment} {o : Collation} {now : Time} {d d' : Database}

section Statements

lemma reserve_ok {key : CommandKey} {intentHash : Bytes} {n : ℕ}
    (h : (Statement.reserveCommand key intentHash).execute o now d = .ok (n, d')) :
    (n = 0 ∧ d' = d ∧ d.commands.find key ≠ none) ∨
    (n = 1 ∧ d.commands.find key = none ∧
      ∃ hv, d' = { d with commands := d.commands.put (reservedCommand now key intentHash) hv }) := by
  simp only [Statement.execute] at h
  cases hw : writeRow Write.command (reservedCommand now key intentHash) with
  | error e => simp [hw,bind,Except.bind] at h
  | ok w =>
    obtain ⟨hv,rfl⟩ := writeRow_ok.mp hw
    simp only [hw,bind,Except.bind,pure,Except.pure] at h
    split_ifs at h with hf <;> simp only [Except.ok.injEq,Prod.mk.injEq] at h <;> obtain ⟨rfl,rfl⟩ := h
    · exact .inl ⟨rfl,rfl,Option.isSome_iff_ne_none.mp hf⟩
    · exact .inr ⟨rfl,by simpa using hf,hv,rfl⟩

lemma completeFailed_ok {key : CommandKey} {errorCode : String} {n : ℕ}
    (h : (Statement.completeFailedCommand key errorCode).execute o now d = .ok (n, d')) :
    (n = 0 ∧ d' = d ∧ ∀ c, d.commands.find key = some c → c.status.completable = false) ∨
    (n = 1 ∧ ∃ c, d.commands.find key = some c ∧ c.status.completable = true ∧
      ∃ hv, d' = { d with commands := d.commands.put (c.fail now errorCode) hv }) := by
  simp only [Statement.execute] at h
  cases hf : (d.commands.find key).filter fun c => c.status.completable with
  | none =>
    simp only [hf,Except.ok.injEq,Prod.mk.injEq] at h
    obtain ⟨rfl,rfl⟩ := h
    refine .inl ⟨rfl,rfl,fun c hc => ?_⟩
    simpa [hc,Option.filter] using hf
  | some c =>
    obtain ⟨hc,hcomp⟩ := Option.filter_eq_some_iff.mp hf
    simp only [hf] at h
    cases hw : writeRow Write.command (c.fail now errorCode) with
    | error e => simp [hw,bind,Except.bind] at h
    | ok w =>
      obtain ⟨hv,rfl⟩ := writeRow_ok.mp hw
      simp only [hw,bind,Except.bind,pure,Except.pure,Except.ok.injEq,Prod.mk.injEq] at h
      obtain ⟨rfl,rfl⟩ := h
      exact .inr ⟨rfl,c,hc,hcomp,hv,rfl⟩

lemma prune_ok {receiptTtlSeconds : ℤ} {u : Unit}
    (h : (Statement.prune receiptTtlSeconds).execute o now d = .ok (u, d')) :
    d' = { d with commands := d.commands.delete (Command.expired now receiptTtlSeconds) } := by
  simp only [Statement.execute,Except.ok.injEq,Prod.mk.injEq] at h
  exact h.2.symm

/-- The statements that only read. -/
def Statement.reads : Statement → Bool
  | .loadCommand _ | .loadAccount _ _ | .listAccounts _ _ _ | .loadCredential _ | .inspectCommand _ => true
  | _ => false

lemma reads_ok {s : Statement} (hs : s.reads = true) {a : s.Answer} (h : s.execute o now d = .ok (a, d')) :
    d' = d := by
  cases s <;> simp only [Statement.reads,Bool.false_eq_true] at hs
  case loadCommand key =>
    simp only [Statement.execute] at h
    split at h
    · simp only [Except.ok.injEq,Prod.mk.injEq] at h
      exact h.2.symm
    · cases h
  all_goals
    simp only [Statement.execute,Except.ok.injEq,Prod.mk.injEq] at h
    exact h.2.symm

/-- What an answered statement has done. -/
lemma execute_answer {s : Statement} {c : Choice} {r : Except SqlError s.Answer}
    (h : Op.handle E (.execute s) c d = some (r, d')) :
    (∃ a, r = .ok a ∧ s.execute E.collation c.now d = .ok (a, d')) ∨
    ∃ e, r = .error e ∧ (d' = d ∨ ∃ a, s.execute E.collation c.now d = .ok (a, d')) := by
  simp only [Op.handle] at h
  split at h <;> simp only [Option.some.injEq,Prod.mk.injEq] at h <;> obtain ⟨rfl,rfl⟩ := h
  · next a d₁ _ he => exact .inl ⟨a,rfl,he⟩
  · exact .inr ⟨_,rfl,.inl rfl⟩
  · exact .inr ⟨_,rfl,.inl rfl⟩
  · next a d₁ _ he => exact .inr ⟨_,rfl,.inr ⟨a,he⟩⟩
  · exact .inr ⟨_,rfl,.inl rfl⟩

end Statements

/-- The success that the completion of a command by this call stands for. -/
structure Succeeds (call : Call E) (φ : Phase E) (h : Held E) (reply : Reply) (nonce ciphertext : Bytes) :
    Prop where
  sealed : ∃ K r, call.kind = some K ∧ reply = K.reply (.ok (.ok r)) ∧
    h.Sealed (Receipt.toJson (K.kept r)) nonce ciphertext
  exchange : ∀ plugin context request, call = .exchangeSecret plugin context request →
    ∃ row now session, φ = .issued h row now session ∧ Bounded h row now session ∧
      reply = .exchangeSecret (.ok (.ok (session.response row)))

/-- What a step of a call does to the row of the command `k`. -/
inductive RowStep (call : Call E) (k : CommandKey) : Phase E → Phase E → Option Command → Option Command → Prop
  | same {φ φ' row} (hh : ∀ h s, φ'.holds = some (h, s) → h.key = k → φ.holds = some (h, s))
      (hs : ∀ h reply, φ' = .settled h reply → h.key ≠ k) : RowStep call k φ φ' row row
  | inserted {actor h now φ'} (hp : call.Presents actor h) (hk : h.key = k)
      (hφ : φ' = .claimed h ∨ ∃ f, φ' = .broken f) :
      RowStep call k (.opening actor) φ' none (some (reservedCommand now k h.intentHash))
  | deleted {actor c φ'} (hc : c.completedAt.isSome = true)
      (hφ : φ' = .opening actor ∨ ∃ f, φ' = .broken f) :
      RowStep call k (.opening actor) φ' (some c) none
  | failed {φ h s code c now φ' K error} (hh : φ.holds = some (h, s)) (hr : φ.records code = true)
      (hk : h.key = k) (hcomp : c.status.completable = true)
      (hK : call.kind = some K) (he : K.errorOfCode code = .ok error)
      (hφ : φ' = .settled h (K.reply (.ok (.error error))) ∨ ∃ f, φ' = .broken f) :
      RowStep call k φ φ' (some c) (some (c.fail now code))
  | marked {plugin context request h row now c φ'} (hcall : call = .exchangeSecret plugin context request)
      (hk : h.key = k) (hc : c.status = .reserved)
      (hφ : (∃ admitted, φ' = .admitted h admitted) ∨ ∃ f, φ' = .broken f) :
      RowStep call k (.deciding h row now) φ' (some c) (some (c.issue now))
  | succeeded {φ h t c now nonce ciphertext reply φ'} (ha : Asks call φ h t) (hk : h.key = k)
      (hcomp : c.status.completable = true) (hs : Succeeds call φ h reply nonce ciphertext)
      (hφ : φ' = .settled h reply ∨ ∃ f, φ' = .broken f) :
      RowStep call k φ φ' (some c) (some (c.succeed now nonce ciphertext))

section Moves
variable {call : Call E} {k : CommandKey} {φ φ' : Phase E}

lemma Op.handle_of_serial {o : Op} {ch : Choice ⊕ List Choice} {a : o.Ans}
    (h : (store E).serial (.pool o) ch d = some (a, d')) : ∃ c, Op.handle E o c d = some (a, d') := by
  cases ch with
  | inl c => exact ⟨c,h⟩
  | inr cs => simp [Store.serial] at h

lemma execute_of_serial {s : Statement} {a : s.Answer} {ch : Choice ⊕ List Choice}
    (h : (store E).serial (.pool (.execute s)) ch d = some (.ok a, d')) :
    ∃ now, s.execute E.collation now d = .ok (a, d') := by
  obtain ⟨c,hc⟩ := Op.handle_of_serial h
  rcases execute_answer hc with ⟨a',ha',he⟩ | ⟨e,he,-⟩
  · obtain rfl := Except.ok.inj ha'
    exact ⟨c.now,he⟩
  · cases he

/-- Only statements change the database. -/
lemma Op.handle_same {o : Op} {c : Choice} {a : o.Ans} (ho : ∀ s, o ≠ .execute s)
    (h : Op.handle E o c d = some (a, d')) : d' = d := by
  cases o with
  | execute s => exact absurd rfl (ho s)
  | _ =>
    simp only [Op.handle,Option.some.injEq,Prod.mk.injEq] at h
    exact h.2.symm

lemma find_put_command {c : Command} (hv : Row.check c = true) (h : d' = { d with commands := d.commands.put c hv }) :
    d'.commands.find k = if c.key = k then some c else d.commands.find k := by
  rw [h]
  exact Table.find_put d.commands c hv k

/-- The database is as before and the call holds nothing new. -/
lemma RowStep.unchanged (hd : d' = d) (hh : ∀ h s, φ'.holds = some (h, s) → φ.holds = some (h, s))
    (hs : ∀ h reply, φ' ≠ .settled h reply) :
    RowStep call k φ φ' (d.commands.find k) (d'.commands.find k) := by
  rw [hd]
  exact .same (fun h s hh' _ => hh h s hh') fun h reply he => absurd he (hs h reply)

lemma RowStep.prune {actor : Option String} {receiptTtlSeconds : ℤ} {o : Collation} {now : Time} {u : Unit}
    (he : (Statement.prune receiptTtlSeconds).execute o now d = .ok (u, d'))
    (hφ : φ' = .opening actor ∨ ∃ f, φ' = .broken f) :
    RowStep call k (.opening actor) φ' (d.commands.find k) (d'.commands.find k) := by
  rw [prune_ok he,Table.find_delete]
  have hsame : ∀ row : Option Command, RowStep call k (.opening actor) φ' row row := by
    intro row
    obtain rfl | ⟨f,rfl⟩ := hφ <;> exact .same (fun h s hh _ => by cases hh) fun h reply hs => by cases hs
  cases hk : d.commands.find k with
  | none => exact hsame none
  | some c =>
    cases hx : c.expired now receiptTtlSeconds with
    | false =>
      rw [Option.filter_some,if_pos (by simp [hx])]
      exact hsame (some c)
    | true =>
      rw [Option.filter_some,if_neg (by simp [hx])]
      refine .deleted ?_ hφ
      simp only [Command.expired] at hx
      obtain ⟨t,ht,-⟩ := Option.any_eq_true _ _ |>.mp hx
      simp [ht]

lemma RowStep.reserve {actor : Option String} {h : Held E} (hp : call.Presents actor h) {o : Collation}
    {now : Time} {n : ℕ} (he : (Statement.reserveCommand h.key h.intentHash).execute o now d = .ok (n, d'))
    (hφ : (n = 1 ∧ φ' = .claimed h) ∨ (n ≠ 1 ∧ φ' = .contested h) ∨ ∃ f, φ' = .broken f) :
    RowStep call k (.opening actor) φ' (d.commands.find k) (d'.commands.find k) := by
  rcases reserve_ok he with ⟨rfl,hd,-⟩ | ⟨rfl,hnone,hv,hd⟩
  · obtain ⟨hn,-⟩ | ⟨-,rfl⟩ | ⟨f,rfl⟩ := hφ
    · cases hn
    all_goals exact .unchanged hd (fun h s hh => by cases hh) fun h reply hs => by cases hs
  · have hφ' : φ' = .claimed h ∨ ∃ f, φ' = .broken f := by
      obtain ⟨-,hφ⟩ | ⟨hn,-⟩ | hφ := hφ
      · exact .inl hφ
      · exact absurd rfl hn
      · exact .inr hφ
    rw [find_put_command hv hd]
    split_ifs with hk
    · have hk' : h.key = k := hk
      rw [← hk',hnone]
      exact .inserted hp rfl hφ'
    · have hk' : h.key ≠ k := hk
      refine .same (fun h' s hh he => ?_) fun h' reply hs => ?_
      · obtain rfl | ⟨f,rfl⟩ := hφ'
        · simp only [Phase.holds,Option.some.injEq,Prod.mk.injEq] at hh
          obtain ⟨rfl,-⟩ := hh
          exact absurd he hk'
        · cases hh
      · obtain rfl | ⟨f,rfl⟩ := hφ' <;> cases hs

lemma RowStep.record {h : Held E} {K : Kind} {s : CommandStatus} {code : String} {error : K.Error}
    (hh : φ.holds = some (h, s)) (hr : φ.records code = true) (hK : call.kind = some K)
    (herror : K.errorOfCode code = .ok error) {o : Collation} {now : Time} {n : ℕ}
    (he : (Statement.completeFailedCommand h.key code).execute o now d = .ok (n, d'))
    (hφ : (n = 1 ∧ φ' = .settled h (K.reply (.ok (.error error)))) ∨ ∃ f, φ' = .broken f) :
    RowStep call k φ φ' (d.commands.find k) (d'.commands.find k) := by
  rcases completeFailed_ok he with ⟨rfl,hd,-⟩ | ⟨rfl,c,hc,hcomp,hv,hd⟩
  · obtain ⟨hn,-⟩ | ⟨f,rfl⟩ := hφ
    · cases hn
    · exact .unchanged hd (fun h s hh => by cases hh) fun h reply hs => by cases hs
  · have hkey : (c.fail now code).key = h.key := Table.key_of_find hc
    have hφ' : φ' = .settled h (K.reply (.ok (.error error))) ∨ ∃ f, φ' = .broken f := hφ.imp And.right id
    rw [find_put_command hv hd,hkey]
    split_ifs with hk
    · rw [← hk,hc]
      exact .failed hh hr rfl hcomp hK herror hφ'
    · refine .same (fun h' s hh' he => ?_) fun h' reply hs => ?_
      · obtain rfl | ⟨f,rfl⟩ := hφ' <;> cases hh'
      · obtain rfl | ⟨f,rfl⟩ := hφ' <;> cases hs
        exact hk

/-- A committed completion of the command that the call holds. -/
lemma RowStep.complete {α : Type} {h : Held E} {t : Transaction} {receipt : Sealing α} {x : α} {r : Reply}
    (ha : Asks call φ h t) (hc : Completes h.key receipt x d d')
    (hs : ∀ nonce ciphertext, (receipt x).run.Outcome Filled (.ok (nonce, ciphertext)) →
      Succeeds call φ h r nonce ciphertext)
    (hφ : φ' = .settled h r ∨ ∃ f, φ' = .broken f) :
    RowStep call k φ φ' (d.commands.find k) (d'.commands.find k) := by
  obtain ⟨now,c,nonce,ciphertext,hc,hcomp,⟨hv,hd⟩,hr⟩ := hc
  have hkey : (c.succeed now nonce ciphertext).key = h.key := Table.key_of_find hc
  rw [hd,Table.find_put,key_command,hkey]
  split_ifs with hk
  · rw [← hk,hc]
    exact .succeeded ha rfl hcomp (hs nonce ciphertext hr) hφ
  · refine .same (fun h' s hh' he => ?_) fun h' reply hs => ?_
    · obtain rfl | ⟨f,rfl⟩ := hφ <;> cases hh'
    · obtain rfl | ⟨f,rfl⟩ := hφ <;> cases hs
      exact hk

/-- The closure seals the value `f` for the account that it is given, if that has a summary. -/
structure Seals (h : Held E) (row : AccountRow) {ρ : Type} [Receipt ρ] (f : ServiceAccountSummary → ρ)
    (p : Entropy ServiceAccountPluginError (Bytes × Bytes)) : Prop where
  ok : ∀ account, summary E row = .ok account → p = crypto (h.active.receiptCipher.encrypt E (f account) h.aad)
  error : ∀ e, summary E row = .error e → p = throw e

lemma Seals.sealed {h : Held E} {row : AccountRow} {ρ : Type} [Receipt ρ] {f : ServiceAccountSummary → ρ}
    {p : Entropy ServiceAccountPluginError (Bytes × Bytes)} (hp : Seals h row f p) {nonce ciphertext : Bytes}
    (ho : p.run.Outcome Filled (.ok (nonce, ciphertext))) :
    ∃ account, summary E row = .ok account ∧ h.Sealed (Receipt.toJson (f account)) nonce ciphertext := by
  cases hs : summary E row with
  | error e =>
    rw [hp.error e hs] at ho
    have he : (Except.error e : Except ServiceAccountPluginError (Bytes × Bytes)) = .ok (nonce,ciphertext) := ho
    cases he
  | ok account =>
    rw [hp.ok account hs] at ho
    obtain ⟨x,hx,he⟩ := Entropy.mapError_outcome ho
    obtain ⟨n,c,hn,hc,rfl⟩ | rfl | rfl := ReceiptCipher.encrypt_outcome hx <;> cases he
    exact ⟨account,rfl,hn,hc⟩

/-- The ways in which the closure fails. -/
lemma Seals.failure {h : Held E} {row : AccountRow} {ρ : Type} [Receipt ρ] {f : ServiceAccountSummary → ρ}
    {p : Entropy ServiceAccountPluginError (Bytes × Bytes)} (hp : Seals h row f p) {e : ServiceAccountPluginError}
    (ho : p.run.Outcome Filled (.error e)) : e = .formatTime ∨ ∃ source, e = .crypto source := by
  cases hs : summary E row with
  | error e' =>
    rw [hp.error e' hs] at ho
    have he : (Except.error e' : Except ServiceAccountPluginError (Bytes × Bytes)) = .error e := ho
    rw [← Except.error.inj he]
    exact .inl (summary_error hs)
  | ok account =>
    rw [hp.ok account hs] at ho
    obtain ⟨x,hx,he⟩ := Entropy.mapError_outcome ho
    obtain ⟨n,c,hn,hc,rfl⟩ | rfl | rfl := ReceiptCipher.encrypt_outcome hx <;> cases he
    · exact .inr ⟨_,rfl⟩
    · exact .inr ⟨_,rfl⟩

lemma Seals.benign {h : Held E} {row : AccountRow} {ρ : Type} [Receipt ρ] {f : ServiceAccountSummary → ρ}
    {p : Entropy ServiceAccountPluginError (Bytes × Bytes)} (hp : Seals h row f p) {e : ServiceAccountPluginError}
    (ho : p.run.Outcome Filled (.error e)) (detail : String) : e ≠ .invariant detail := by
  obtain rfl | ⟨source,rfl⟩ := hp.failure ho <;> simp

lemma createReceipt_seals (h : Held E) (row : AccountRow) :
    Seals h row (fun account => (⟨account,true,none⟩ : CreateServiceAccountResponse))
      (createReceipt h.active h.aad row) where
  ok account ha := by simp only [createReceipt,ha]
  error e he := by simp only [createReceipt,he]

lemma rotateReceipt_seals (h : Held E) (row : AccountRow) :
    Seals h row (fun account => (⟨account,true,none⟩ : RotateServiceAccountSecretResponse))
      (rotateReceipt h.active h.aad row) where
  ok account ha := by simp only [rotateReceipt,ha]
  error e he := by simp only [rotateReceipt,he]

lemma revokeReceipt_seals (h : Held E) (result : AccountRow × Bool) :
    Seals h result.1 (fun account => (⟨account,result.2⟩ : RevokeServiceAccountResponse))
      (revokeReceipt h.active h.aad result) where
  ok account ha := by simp only [revokeReceipt,ha]
  error e he := by simp only [revokeReceipt,he]

/-- A committed management operation, whose receipt is its response without the secret. -/
lemma RowStep.manage {α : Type} {h : Held E} {t : Transaction} {receipt : Sealing α} {x : α} {K : Kind}
    {row : AccountRow} {g : ServiceAccountSummary → K.Response} (ha : Asks call (.claimed h) h t)
    (hc : Completes h.key receipt x d d') (hK : call.kind = some K)
    (hcall : ∀ plugin context request, call ≠ .exchangeSecret plugin context request)
    (hreceipt : Seals h row (fun account => K.kept (g account)) (receipt x))
    (hφ : (∃ account, summary E row = .ok account ∧ φ' = .settled h (K.reply (.ok (.ok (g account))))) ∨
      ∃ f, φ' = .broken f) : RowStep call k (.claimed h) φ' (d.commands.find k) (d'.commands.find k) := by
  obtain ⟨account,hsummary⟩ : ∃ account, summary E row = .ok account := by
    obtain ⟨now,c,nonce,ciphertext,-,-,-,ho⟩ := hc
    obtain ⟨account,hsummary,-⟩ := hreceipt.sealed ho
    exact ⟨account,hsummary⟩
  refine .complete (r := K.reply (.ok (.ok (g account)))) ha hc
    (fun nonce ciphertext ho => ⟨⟨K,g account,hK,rfl,?_⟩,fun p c r he => absurd he (hcall p c r)⟩) ?_
  · obtain ⟨account',hsummary',hsealed⟩ := hreceipt.sealed ho
    obtain rfl := Except.ok.inj (hsummary.symm.trans hsummary')
    exact hsealed
  · refine hφ.imp_left ?_
    rintro ⟨account',hsummary',rfl⟩
    obtain rfl := Except.ok.inj (hsummary.symm.trans hsummary')
    rfl

lemma RowStep.create {plugin : ServiceAccountPlugin E} {context : InvocationContext}
    {request : CreateServiceAccountRequest} {secret : CredentialSecret} {h : Held E} {r : CreateAccount}
    (hcall : call = .create plugin context request) (hs : secret.Generated) (hr : r.For h request secret)
    {row : AccountRow} (hc : CreateCommit E r d row d')
    (hφ : (∃ account, summary E row = .ok account ∧
      φ' = .settled h (.create (.ok (.ok ⟨account,true,some secret.wire⟩)))) ∨ ∃ f, φ' = .broken f) :
    RowStep call k (.claimed h) φ' (d.commands.find k) (d'.commands.find k) := by
  have hcomp := hc.completes
  rw [hr.key,hr.receipt] at hcomp
  exact .manage (K := createKind) (g := fun account => ⟨account,true,some secret.wire⟩) (.create hcall hs hr) hcomp
    (by rw [hcall]; rfl) (by rw [hcall]; simp) (createReceipt_seals h row) hφ

lemma RowStep.rotate {plugin : ServiceAccountPlugin E} {context : InvocationContext}
    {request : RotateServiceAccountSecretRequest} {secret : CredentialSecret} {h : Held E} {r : RotateAccount}
    (hcall : call = .rotateSecret plugin context request) (hs : secret.Generated) (hr : r.For h request secret)
    {row : AccountRow} (hc : RotateCommit E r d row d')
    (hφ : (∃ account, summary E row = .ok account ∧
      φ' = .settled h (.rotateSecret (.ok (.ok ⟨account,true,some secret.wire⟩)))) ∨ ∃ f, φ' = .broken f) :
    RowStep call k (.claimed h) φ' (d.commands.find k) (d'.commands.find k) := by
  have hcomp := hc.completes
  rw [hr.key,hr.receipt] at hcomp
  exact .manage (K := rotateKind) (g := fun account => ⟨account,true,some secret.wire⟩) (.rotate hcall hs hr) hcomp
    (by rw [hcall]; rfl) (by rw [hcall]; simp) (rotateReceipt_seals h row) hφ

lemma RowStep.revoke {plugin : ServiceAccountPlugin E} {context : InvocationContext}
    {request : RevokeServiceAccountRequest} {h : Held E} {r : RevokeAccount}
    (hcall : call = .revoke plugin context request) (hr : r.For h request)
    {result : AccountRow × Bool} (hc : RevokeCommit E r d result d')
    (hφ : (∃ account, summary E result.1 = .ok account ∧
      φ' = .settled h (.revoke (.ok (.ok ⟨account,result.2⟩)))) ∨ ∃ f, φ' = .broken f) :
    RowStep call k (.claimed h) φ' (d.commands.find k) (d'.commands.find k) := by
  have hcomp := hc.completes
  rw [hr.key,hr.receipt] at hcomp
  exact .manage (K := revokeKind) (g := fun account => ⟨account,result.2⟩) (.revoke hcall hr) hcomp
    (by rw [hcall]; rfl) (by rw [hcall]; simp) (revokeReceipt_seals h result) hφ

/-- The command of an admission is the one that the call holds. -/
lemma Held.mark_key {h : Held E} (hkey : h.key.operation = exchangeSecretOperation) (row : CredentialRow)
    (now : Time) : (⟨(h.mark row now).caller,"exchange_secret",(h.mark row now).idempotencyKey⟩ : CommandKey) = h.key := by
  obtain ⟨_,⟨caller,operation,idempotencyKey⟩,_⟩ := h
  obtain rfl : operation = "exchange_secret" := hkey
  rfl

lemma RowStep.mark {plugin : ServiceAccountPlugin E} {context : InvocationContext}
    {request : ExchangeServiceAccountSecretRequest} {h : Held E} {row : CredentialRow} {now : Time}
    (hcall : call = .exchangeSecret plugin context request) (hkey : h.key.operation = exchangeSecretOperation)
    {admitted : CredentialRow} (hc : AdmitCommit (h.mark row now) d admitted d')
    (hφ : (∃ admitted, φ' = .admitted h admitted) ∨ ∃ f, φ' = .broken f) :
    RowStep call k (.deciding h row now) φ' (d.commands.find k) (d'.commands.find k) := by
  obtain ⟨a,x,c,_,-,-,-,-,-,hc,hreserved,-,-,⟨hv,hd⟩,-⟩ := hc
  rw [Held.mark_key hkey] at hc
  have hkey' : (c.issue (h.mark row now).now).key = h.key := Table.key_of_find hc
  rw [hd,Table.find_put,key_command,hkey']
  split_ifs with hk
  · rw [← hk,hc]
    exact .marked hcall rfl hreserved hφ
  · refine .same (fun h' s hh he => ?_) fun h' reply hs => ?_
    · obtain ⟨admitted,rfl⟩ | ⟨f,rfl⟩ := hφ
      · simp only [Phase.holds,Option.some.injEq,Prod.mk.injEq] at hh
        obtain ⟨rfl,-⟩ := hh
        exact absurd he hk
      · cases hh
    · obtain ⟨admitted,rfl⟩ | ⟨f,rfl⟩ := hφ <;> cases hs

lemma Call.operation_of_commandKey {plugin : ServiceAccountPlugin E} {context : InvocationContext}
    {request : ExchangeServiceAccountSecretRequest} (hcall : call = .exchangeSecret plugin context request)
    {key : CommandKey} (hk : call.commandKey = some key) : key.operation = exchangeSecretOperation := by
  rw [hcall] at hk
  simp only [Call.commandKey,Option.bind_eq_bind,Option.bind_eq_some_iff,pure,Option.some.injEq] at hk
  obtain ⟨active,-,caller,-,rfl⟩ := hk
  rfl

lemma RowStep.receipt {plugin : ServiceAccountPlugin E} {context : InvocationContext}
    {request : ExchangeServiceAccountSecretRequest} {h : Held E} {row : CredentialRow} {now : Time}
    {session : IssueResponse} {nonce ciphertext : Bytes} (hcall : call = .exchangeSecret plugin context request)
    (hb : Bounded h row now session) (hs : h.Sealed (Receipt.toJson (session.response row)) nonce ciphertext)
    {t : Time} {c : Command} (hv : Row.check (c.succeed t nonce ciphertext) = true)
    (hc : d.commands.find h.key = some c) (hcomp : c.status.completable = true)
    (hφ : φ' = .settled h (.exchangeSecret (.ok (.ok (session.response row)))) ∨ ∃ f, φ' = .broken f) :
    RowStep call k (.issued h row now session) φ' (d.commands.find k)
      ((d.commands.put (c.succeed t nonce ciphertext) hv).find k) := by
  have hcompletes : Completes h.key (fun _ : Unit => pure (nonce,ciphertext)) () d
      { d with commands := d.commands.put (c.succeed t nonce ciphertext) hv } :=
    .mk t c nonce ciphertext hc hcomp ⟨hv,rfl⟩ rfl
  refine .complete (.complete hcall hb hs) hcompletes (fun n x ho => ?_) hφ
  have he : (Except.ok (nonce,ciphertext) : Except ServiceAccountPluginError (Bytes × Bytes)) = .ok (n,x) := ho
  obtain ⟨rfl,rfl⟩ := Prod.mk.inj (Except.ok.inj he)
  refine ⟨⟨exchangeKind,session.response row,by rw [hcall]; rfl,rfl,hs⟩,fun _ _ _ _ => ?_⟩
  exact ⟨row,now,session,rfl,hb,rfl⟩

/-- A call asks for the transactions of the command that it holds. -/
lemma Asks.holds {h : Held E} {t : Transaction} (ha : Asks call φ h t) : ∃ s, φ.holds = some (h, s) := by
  cases ha <;> exact ⟨_,rfl⟩

lemma Asks.deciding {h : Held E} {r : MarkExchangeIssuing} (ha : Asks call φ h (.markExchangeIssuing r)) :
    ∃ row now plugin context request, φ = .deciding h row now ∧ r = h.mark row now ∧
      call = .exchangeSecret plugin context request := by
  cases ha with
  | mark hcall => exact ⟨_,_,_,_,_,rfl,rfl,hcall⟩

/-- The outcome of a transaction that declines or fails, for the row of a command. -/
lemma RowStep.ask {h : Held E} {t : Transaction} {res : t.Result} (ha : Asks call φ h t)
    (hkey : call.commandKey = some h.key) (ho : t.Outcome E (fun _ _ => true) d res d')
    (hres : t.declines res ∧ φ' = .declined h ∨ (∃ e, res = .error e) ∧ ∃ f, φ' = .broken f) :
    RowStep call k φ φ' (d.commands.find k) (d'.commands.find k) := by
  have hholds : t.declines res → ∃ s, φ.holds = some (h, s) ∧ s = .reserved := by
    intro hd
    cases ha <;> first | exact ⟨_,rfl,rfl⟩ | (cases res <;> exact absurd hd id)
  have hsame : d'.commands = d.commands → RowStep call k φ φ' (d.commands.find k) (d'.commands.find k) := by
    intro he
    rw [he]
    refine .same (fun h' s hh hk => ?_) fun h' reply hs => ?_
    · obtain ⟨hd,rfl⟩ | ⟨-,f,rfl⟩ := hres
      · obtain ⟨s',hφ,rfl⟩ := hholds hd
        exact hφ.trans hh
      · cases hh
    · obtain ⟨-,rfl⟩ | ⟨-,f,rfl⟩ := hres <;> cases hs
  have hbroken : ¬t.declines res → ∃ f, φ' = .broken f := fun hn => hres.elim (fun h => absurd h.1 hn) And.right
  cases ha with
  | create hcall hs hr =>
    cases ho with
    | failed e h => exact hsame rfl
    | full h => exact hsame rfl
    | created row _ hc => exact .create hcall hs hr hc (.inr (hbroken id))
    | unacknowledged row _ hc =>
      exact .create hcall hs hr hc (.inr (hbroken (by simp [Transaction.declines,uniqueConstraint])))
  | rotate hcall hs hr =>
    cases ho with
    | updated row _ hc => exact .rotate hcall hs hr hc (.inr (hbroken id))
    | unacknowledged row _ hc hf => exact .rotate hcall hs hr hc (.inr (hbroken id))
    | _ => exact hsame rfl
  | revoke hcall hr =>
    cases ho with
    | updated result _ hc => exact .revoke hcall hr hc (.inr (hbroken id))
    | unacknowledged result _ hc => exact .revoke hcall hr hc (.inr (hbroken id))
    | _ => exact hsame rfl
  | slot hcall => exact hsame ho.tables.2.2
  | mark hcall =>
    have hoperation := Call.operation_of_commandKey hcall hkey
    cases ho with
    | admitted row _ hc => exact .mark hcall hoperation hc (.inr (hbroken id))
    | unacknowledged row _ hc hf => exact .mark hcall hoperation hc (.inr (hbroken id))
    | _ => exact hsame rfl
  | complete hcall hb hs =>
    cases ho with
    | failed e h => exact hsame rfl
    | completed t c hv hc hcomp => exact .receipt hcall hb hs hv hc hcomp (.inr (hbroken id))
    | unacknowledged t c hv hc hcomp => exact .receipt hcall hb hs hv hc hcomp (.inr (hbroken id))

/-- What a step of a call does to a command, whichever it is. -/
theorem rowStep_of_move {o : Effect} {a : Effect.Ans o} {ch : Choice ⊕ List Choice} (hm : Move call φ o a φ')
    (hkey : ∀ h s, φ.holds = some (h, s) → call.commandKey = some h.key)
    (hs : (store E).serial o ch d = some (a, d')) (k : CommandKey) :
    RowStep call k φ φ' (d.commands.find k) (d'.commands.find k) := by
  have hpool : ∀ {o : Op} {a : o.Ans} {ch : Choice ⊕ List Choice}, (∀ s, o ≠ .execute s) →
      (store E).serial (.pool o) ch d = some (a,d') → d' = d := fun ho h => by
    obtain ⟨c,hc⟩ := Op.handle_of_serial h
    exact Op.handle_same ho hc
  have houtcome : ∀ {t : Transaction} {res : t.Result} {ch : Choice ⊕ List Choice},
      (store E).serial (.transact t) ch d = some (res,d') → t.Outcome E (fun _ _ => true) d res d' := fun h => by
    rename_i ch
    cases ch with
    | inl c => simp [Store.serial] at h
    | inr cs => exact Transaction.outcome h
  have hlost : ∀ {s : Statement} {e : SqlError} {ch : Choice ⊕ List Choice},
      (store E).serial (.pool (.execute s)) ch d = some (.error e,d') →
      d' = d ∨ ∃ now a, s.execute E.collation now d = .ok (a,d') := fun h => by
    obtain ⟨c,hc⟩ := Op.handle_of_serial h
    rcases execute_answer hc with ⟨a,ha,-⟩ | ⟨e,he,hd | ⟨a,hx⟩⟩
    · cases ha
    · exact .inl hd
    · exact .inr ⟨c.now,a,hx⟩
  have hbroken : ∀ {f : RuntimeFailure}, d' = d →
      RowStep call k φ (.broken f) (d.commands.find k) (d'.commands.find k) := fun hd =>
    .unchanged hd (fun h s hh => by cases hh) fun h reply hs => by cases hs
  cases hm with
  | lost hp =>
    rcases hlost hs with hd | ⟨now,a,hx⟩
    · exact hbroken hd
    · cases hp with
      | prune ha => exact .prune hx (.inr ⟨_,rfl⟩)
      | reserve hp => exact .reserve hp hx (.inr (.inr ⟨_,rfl⟩))
      | record hh hr hK herror => exact .record hh hr hK herror hx (.inr ⟨_,rfl⟩)
      | _ => exact hbroken (reads_ok rfl hx)
  | pruned ha =>
    obtain ⟨now,hx⟩ := execute_of_serial hs
    exact .prune hx (.inl rfl)
  | inserted hp =>
    obtain ⟨now,hx⟩ := execute_of_serial hs
    exact .reserve hp hx (.inl ⟨rfl,rfl⟩)
  | found hp hn =>
    obtain ⟨now,hx⟩ := execute_of_serial hs
    exact .reserve hp hx (.inr (.inl ⟨hn,rfl⟩))
  | recorded hh hr hK herror =>
    obtain ⟨now,hx⟩ := execute_of_serial hs
    exact .record hh hr hK herror hx (.inl ⟨rfl,rfl⟩)
  | unrecorded hh hr hn =>
    obtain ⟨now,hx⟩ := execute_of_serial hs
    rcases completeFailed_ok hx with ⟨-,hd,-⟩ | ⟨rfl,-⟩
    · exact hbroken hd
    · exact absurd rfl hn
  | uninspected hcall =>
    rcases hlost hs with hd | ⟨now,a,hx⟩
    · exact .unchanged hd (fun h s hh => by cases hh) fun h reply hs => by cases hs
    · exact .unchanged (reads_ok rfl hx) (fun h s hh => by cases hh) fun h reply hs => by cases hs
  | read | account | accounts | inspected =>
    obtain ⟨now,hx⟩ := execute_of_serial hs
    exact .unchanged (reads_ok rfl hx) (fun h s hh => by cases hh) fun h reply hs => by cases hs
  | credential =>
    obtain ⟨now,hx⟩ := execute_of_serial hs
    exact .unchanged (reads_ok rfl hx) (fun h s hh => hh) fun h reply hs => by cases hs
  | created hcall hgen hr ha =>
    cases houtcome hs with
    | created row _ hc => exact .create hcall hgen hr hc (.inl ⟨_,ha,rfl⟩)
  | rotated hcall hgen hr ha =>
    cases houtcome hs with
    | updated row _ hc => exact .rotate hcall hgen hr hc (.inl ⟨_,ha,rfl⟩)
  | revoked hcall hr ha =>
    cases houtcome hs with
    | updated row _ hc => exact .revoke hcall hr hc (.inl ⟨_,ha,rfl⟩)
  | marked hcall =>
    cases houtcome hs with
    | admitted row _ hc => exact .mark hcall (Call.operation_of_commandKey hcall (hkey _ _ rfl)) hc (.inl ⟨_,rfl⟩)
  | completed hcall hb hsealed =>
    cases houtcome hs with
    | completed t c hv hc hcomp => exact .receipt hcall hb hsealed hv hc hcomp (.inl rfl)
  | slotted hcall =>
    obtain ⟨-,-,hd⟩ := (houtcome hs : SlotOutcome _ _ d _ d').tables
    rw [hd]
    exact .same (fun h s hh _ => hh) fun h reply hs => by cases hs
  | declined ha hd => exact .ask ha (hkey _ _ (ha.holds).choose_spec) (houtcome hs) (.inl ⟨hd,rfl⟩)
  | failed ha => exact .ask ha (hkey _ _ (ha.holds).choose_spec) (houtcome hs) (.inr ⟨⟨_,rfl⟩,_,rfl⟩)
  | random hφ =>
    refine .unchanged (hpool (by simp) hs) (fun h s hh => hh) fun h reply he => ?_
    rw [he] at hφ
    cases hφ
  | statusFailed | ambiguous => exact hbroken (hpool (by simp) hs)
  | clock | project | membership | permission =>
    exact .unchanged (hpool (by simp) hs) (fun h s hh => by cases hh) fun h reply hs => by cases hs
  | _ => exact .unchanged (hpool (by simp) hs) (fun h s hh => hh) fun h reply hs => by cases hs

end Moves
end LensoServiceAccount
