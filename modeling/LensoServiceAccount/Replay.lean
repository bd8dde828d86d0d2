import LensoServiceAccount.Changes

/-! Replay: what a later call makes of a command that is already there. -/

namespace LensoServiceAccount
variable {E : Environment}

/-- The same request of one operation, for management on behalf of the same actor. -/
def Call.Agrees : Call E → Option String → Call E → Option String → Prop
  | .create _ _ request, actor, .create _ _ request', actor' => request = request' ∧ actor = actor'
  | .rotateSecret _ _ request, actor, .rotateSecret _ _ request', actor' => request = request' ∧ actor = actor'
  | .revoke _ _ request, actor, .revoke _ _ request', actor' => request = request' ∧ actor = actor'
  | .exchangeSecret _ _ request, _, .exchangeSecret _ _ request', _ => request = request'
  | _, _, _, _ => False

/-- A reply with `created`, `rotated` or `revoked` turned to false and the secret taken out. -/
def Reply.replayed : Reply → Reply
  | .create (.ok (.ok r)) => .create (.ok (.ok { r with created := false,secret := none }))
  | .rotateSecret (.ok (.ok r)) => .rotateSecret (.ok (.ok { r with rotated := false,secret := none }))
  | .revoke (.ok (.ok r)) => .revoke (.ok (.ok { r with revoked := false }))
  | r => r

/-- The idempotency conflict of the operation. -/
def Call.conflict : Call E → Option Reply
  | .create _ _ _ => some (.create (.ok (.error .idempotencyConflict)))
  | .rotateSecret _ _ _ => some (.rotateSecret (.ok (.error .idempotencyConflict)))
  | .revoke _ _ _ => some (.revoke (.ok (.error .idempotencyConflict)))
  | .exchangeSecret _ _ _ => some (.exchangeSecret (.ok (.error .idempotencyConflict)))
  | _ => none

/-- What is sealed is opened again with the same key, and what is written as JSON is read back. -/
structure Environment.Faithful (E : Environment) : Prop where
  decrypt : ∀ key nonce aad plain ciphertext, E.aeadEncrypt key nonce aad plain = some ciphertext →
    E.aeadDecrypt key nonce aad ciphertext = some plain
  fromSlice : ∀ j, E.fromSlice (Json.toVec j) = some j

section Intents
variable {call call' : Call E} {actor actor' : Option String}

/-- The operation of a command. -/
def Call.operation : Call E → Option String
  | .create _ _ _ => some createOperation
  | .rotateSecret _ _ _ => some rotateSecretOperation
  | .revoke _ _ _ => some revokeOperation
  | .exchangeSecret _ _ _ => some exchangeSecretOperation
  | _ => none

lemma Kind.reply_replayed {K : Kind} (hK : call.kind = some K) (r : K.Response) :
    (K.reply (.ok (.ok r))).replayed = K.reply (.ok (.ok (K.replayed (K.kept r)))) := by
  cases call <;> simp only [Call.kind,Option.some.injEq,reduceCtorEq] at hK <;> subst hK <;> rfl

lemma Kind.error_replayed {K : Kind} (hK : call.kind = some K) (e : K.Error) :
    (K.reply (.ok (.error e))).replayed = K.reply (.ok (.error e)) := by
  cases call <;> simp only [Call.kind,Option.some.injEq,reduceCtorEq] at hK <;> subst hK <;> rfl

lemma Kind.conflict {K : Kind} (hK : call.kind = some K) :
    call.conflict = some (K.reply (.ok (.error K.idempotencyConflict))) := by
  cases call <;> simp only [Call.kind,Option.some.injEq,reduceCtorEq] at hK <;> subst hK <;> rfl

/-- The sealed receipt of a command is opened by every call that holds the same key. -/
lemma Held.Sealed.decrypt (hE : E.Faithful) {ρ : Type} [Receipt ρ] {h held : Held E} {r : ρ}
    {nonce ciphertext : Bytes} (hs : held.Sealed (Receipt.toJson r) nonce ciphertext) (hkey : h.key = held.key)
    (hcipher : h.active.receiptCipher = held.active.receiptCipher) :
    h.active.receiptCipher.decrypt E ρ nonce ciphertext h.aad = .ok r := by
  obtain ⟨hn,hc⟩ := hs
  have haad : h.aad = held.aad := by rw [Held.aad,Held.aad,hkey]
  simp only [ReceiptCipher.decrypt,if_pos hn,hcipher,haad,hE.decrypt _ _ _ _ _ hc,hE.fromSlice,Option.bind_some,
    Receipt.fromJson_toJson]

/-- What is recorded is what a later call with the same intent replies. -/
lemma Recorded.answer (hE : E.Faithful) {h held : Held E} {row : Command} {reply : Reply} {K : Kind}
    (hr : Recorded call' held row reply) (hK : call'.kind = some K) (hkey : h.key = held.key)
    (hcipher : h.active.receiptCipher = held.active.receiptCipher) (hintent : row.intentHash = h.intentHash) :
    K.reply (K.answer h row) = reply.replayed := by
  cases hr with
  | error hK' hs hc he =>
    obtain rfl := Option.some.inj (hK.symm.trans hK')
    simp only [Kind.answer,hintent,ne_eq,not_true_eq_false,if_false,hs,hc,Option.getD_some,he]
    exact (Kind.error_replayed hK _).symm
  | success hK' hs hn hc hsealed =>
    obtain rfl := Option.some.inj (hK.symm.trans hK')
    simp only [Kind.answer,hintent,ne_eq,not_true_eq_false,if_false,hs,hn,hc,Option.getD_some,
      hsealed.decrypt hE hkey hcipher]
    exact (Kind.reply_replayed hK _).symm

end Intents

/-- The step finds the row of a command. -/
def Finds (e : CallStep E) (k : CommandKey) (row : Command) : Prop :=
  e.action = .perform (.pool (.execute (.loadCommand k))) (.ok row)

/-- The step records an error for a command. -/
def Records (e : CallStep E) (k : CommandKey) (code : String) : Prop :=
  e.action = .perform (.pool (.execute (.completeFailedCommand k code))) (.ok 1)

/-- The step settles what its call replies. -/
def Settles (e : CallStep E) : Prop := (∃ k row, Finds e k row) ∨ ∃ k code, Records e k code

/-- The phase that a call has come to when its reply is settled. -/
inductive Settled (tr : List (CallStep E)) (e : CallStep E) : Phase E → Prop
  | found {k row h} (he : Finds e k row) (hk : h.key = k) (hp : e.call.Presents (actorOf e.tid tr) h)
      (hw : ∀ x ∈ tr, x.tid = e.tid → Idle x) : Settled tr e (.answered h row)
  | recorded {k code h K error} (he : Records e k code) (hK : e.call.kind = some K)
      (hc : K.errorOfCode code = .ok error) : Settled tr e (.settled h (K.reply (.ok (.error error))))

section Steps
variable {tr : List (CallStep E)} {d : Database} {p p' : CallPhases E} {e : CallStep E}

lemma settled_of_step (ho : Ownership tr d p) (hs : (protocol E).Step (store E).serial tr d p e p')
    (he : Settles e) : ∃ φ, p' e.tid = some (e.call, φ) ∧ Settled tr e φ := by
  obtain ⟨k,row,he⟩ | ⟨k,code,he⟩ := he
  · have hx := he
    unfold Finds at hx
    cases hs with
    | start i call hp hi => cases hx
    | reply i call φ r hp hl => cases hx
    | stop i call φ hp => cases hx
    | perform i call φ φ' o choice a s' hp hm hH =>
      cases hx
      cases hm with
      | @read h =>
        exact ⟨_,Function.update_self _ _ _,.found he rfl ((ho.acting i).presents call _ h hp rfl) (ho.waiting i call _ hp rfl)⟩
  · have hx := he
    unfold Records at hx
    cases hs with
    | start i call hp hi => cases hx
    | reply i call φ r hp hl => cases hx
    | stop i call φ hp => cases hx
    | perform i call φ φ' o choice a s' hp hm hH =>
      cases hx
      cases hm with
      | recorded hh hr hK hc => exact ⟨_,Function.update_self _ _ _,.recorded he hK hc⟩
      | unrecorded hh hr hn => exact absurd rfl hn

lemma Settled.stuck {φ φ' : Phase E} (h : Settled tr e φ) (o : Effect) (a : Effect.Ans o) :
    ¬Move e.call φ o a φ' := by
  intro hm
  cases h <;> cases hm with
  | lost hp => cases hp; contradiction
  | random hφ => cases hφ
  | recorded hh => cases hh
  | unrecorded hh => cases hh
  | declined ha => cases ha
  | failed ha => cases ha

/-- The invariant of the commands, and the calls whose reply is settled. -/
theorem settled_invariant (E : Environment) : (protocol E).Invariant (store E).serial Database.empty fun tr d p =>
    (Ownership tr d p ∧ Sound p) ∧ Protocol.Finished (protocol E) Settles Settled tr p :=
  (sound_invariant E).finished (fun h hs he => settled_of_step h.1 hs he) fun h o a _ => h.stuck o a

end Steps

section Runs
variable {c : Run (Call E) Reply}

/-- How a call ends whose reply is settled. -/
theorem settled_event (hc : LockedConfig.Reachable (store E) Call.main Database.empty c)
    {post pre : List (CallStep E)} {e : CallStep E} (he : c.trace = post ++ e :: pre) (hs : Settles e) :
    ∃ φ p p', Settled pre e φ ∧ Ownership pre e.before p ∧ (protocol E).Step (store E).serial pre e.before p e p' ∧
      (∀ x ∈ c.trace, x.tid = e.tid → ∀ r, x.action = .reply r → Last e.call r φ) ∧
      ∀ x ∈ post, x.tid = e.tid → x.after = x.before := by
  obtain ⟨q,-,-,hf⟩ := (settled_invariant E).reachable (obeyed E) (serializable hc)
  obtain ⟨φ,hφ,-,hrest⟩ := hf post e pre he hs
  obtain ⟨p,p',⟨ho,-⟩,hstep⟩ := sound_event hc he
  refine ⟨φ,p,p',hφ,ho,hstep,fun x hx hi r hr => ?_,fun x hx hi => (hrest x hx hi).2.1⟩
  rw [he] at hx
  rcases List.mem_append.mp hx with hx | hx
  · obtain ⟨-,-,hstop | ⟨r',hr',hl⟩⟩ := hrest x hx hi
    · exact absurd (hr.symm.trans hstop) (by simp)
    · obtain rfl := Act.reply.inj (hr.symm.trans hr')
      exact hl
  rcases List.mem_cons.mp hx with rfl | hx
  · obtain ⟨k,row,hx⟩ | ⟨k,code,hx⟩ := hs <;> exact absurd (hr.symm.trans hx) (by simp)
  · exact absurd hi (ho.orderly.step_ne hstep hx (by rw [hr]; rfl))

lemma Call.Presents.unique {call : Call E} {actor : Option String} {h held : Held E} (hp : call.Presents actor h)
    (hp' : call.Presents actor held) : h = held := by
  obtain ⟨a,key,intent⟩ := h
  obtain ⟨a',key',intent'⟩ := held
  have ha : a = a' := Option.some.inj (hp.active.symm.trans hp'.active)
  have hkey : key = key' := Option.some.inj (hp.commandKey.symm.trans hp'.commandKey)
  have hintent : intent = intent' := Option.some.inj (hp.intent.symm.trans hp'.intent)
  rw [ha,hkey,hintent]

/-- The row that a step has found. -/
lemma Finds.row {e : CallStep E} {k : CommandKey} {row : Command} (h : Finds e k row)
    (hl : e.Legal (store E).serial) : e.before.commands.find k = some row ∧ e.after = e.before := by
  simp only [Event.Legal,show e.action = _ from h] at hl
  obtain ⟨ch,hH⟩ := hl
  obtain ⟨ch',hx⟩ := Op.handle_of_serial hH
  rcases execute_answer hx with ⟨row',hrow,hx⟩ | ⟨error,herror,-⟩
  · obtain rfl := Except.ok.inj hrow
    refine ⟨?_,reads_ok rfl hx⟩
    simp only [Statement.execute] at hx
    split at hx
    · next c hc =>
      obtain ⟨rfl,-⟩ := Prod.mk.inj (Except.ok.inj hx)
      exact hc
    · cases hx
  · cases herror

/-- What a row keeps of a call that has replied. -/
lemma Ownership.recorded {tr : List (CallStep E)} {d : Database} {p : CallPhases E} (ho : Ownership tr d p)
    {k : CommandKey} {row : Command} (hrow : d.commands.find k = some row) {y : CallStep E} (hy : y ∈ tr)
    (hclaim : claimant k tr = some y.tid) {reply : Reply} (hreply : y.action = .reply reply)
    (hdomain : reply.failure = none) : ∃ held, held.key = k ∧ y.call.Presents (actorOf y.tid tr) held ∧
      row.intentHash = held.intentHash ∧ Recorded y.call held row reply := by
  obtain ⟨held,hkey,hp,hrec⟩ := ho.accounted.replied y hy reply hreply hdomain k row hrow hclaim
  obtain ⟨z,held',hz,hp',-,hintent,-⟩ := ho.accounted.row k row hrow
  have hzy : z.tid = y.tid := by
    rw [claimant,hz,Option.map_some] at hclaim
    exact Option.some.inj hclaim
  have hcall : z.call = y.call := ho.orderly.same z (List.mem_of_find?_eq_some hz) y hy hzy
  rw [hcall,hzy] at hp'
  obtain rfl := hp.unique hp'
  exact ⟨held,hkey,hp,hintent,hrec⟩

end Runs

lemma plain_faithful : Environment.plain.Faithful where
  decrypt key nonce aad plain ciphertext h := by
    simp only [Environment.plain,Option.some.injEq] at h
    subst h
    have happend : frame key ++ (frame nonce ++ (frame aad ++ plain)) =
        (frame key ++ (frame nonce ++ frame aad)) ++ plain := by simp only [List.append_assoc]
    simp only [Environment.plain]
    rw [happend,if_pos (List.isPrefixOf_iff_prefix.mpr (List.prefix_append _ _)),List.drop_left]
  fromSlice := Json.ofVec_toVec

end LensoServiceAccount
