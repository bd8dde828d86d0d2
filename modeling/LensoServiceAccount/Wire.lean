import Mathlib.Data.List.Nodup
import Mathlib.Tactic.Common
import LensoServiceAccount.Contract

/-! Domain errors on the wire. An error that the contract names is a bare string, any other one an object with its
code; what a party cannot name it passes on as it is. -/

namespace LensoServiceAccount

/-- What is asked of `serde_json::Value`: which values are strings, and how a value is displayed. -/
class JsonValue (V : Type) where
  string : String → V
  asStr : V → Option String
  display : V → String
  asStr_string : ∀ s, asStr (string s) = some s

instance : JsonValue Json where
  string := .string
  asStr := Json.asString
  display j := String.ofList j.print
  asStr_string _ := rfl

/-- `BTreeMap<String,Value>`, and `serde_json::Map` as well. -/
abbrev Fields (V : Type) := Std.ExtTreeMap String V

/-- What a serializer writes and a deserializer reads: a string, the entries of an object in their order, or
another value. -/
inductive Encoded (V : Type)
  | string (s : String)
  | object (entries : List (String × V))
  | other (value : V)

/-- An error that the receiver cannot name. -/
structure UnknownDomainError (V : Type) where
  code : String
  payload : Option V
  extra : Fields V

/-- The errors of a contract: those that it names, and all others. -/
inductive DomainError (ε V : Type)
  | known (error : ε)
  | unknown (error : UnknownDomainError V)

/-- The codes of the errors that a contract names. -/
class DomainCodes (ε : Type) where
  code : ε → String
  ofCode : String → Option ε
  ofCode_iff : ∀ s e, ofCode s = some e ↔ code e = s

/-- The two matches of a generated error type, which go through the same table in opposite directions. -/
@[reducible] def DomainCodes.ofTable {ε : Type} [DecidableEq ε] (table : List (String × ε)) (hcodes : (table.map Prod.fst).Nodup)
    (herrors : (table.map Prod.snd).Nodup) (hall : ∀ e, e ∈ table.map Prod.snd) : DomainCodes ε where
  code e := ((table.find? fun row => row.2 = e).map Prod.fst).getD ""
  ofCode s := (table.find? fun row => row.1 = s).map Prod.snd
  ofCode_iff s e := by
    have hcode : (table.find? fun row => row.1 = s).map Prod.snd = some e ↔ (s,e) ∈ table := by
      constructor
      · intro h
        obtain ⟨row,hrow,rfl⟩ := Option.map_eq_some_iff.mp h
        obtain rfl : row.1 = s := by simpa using List.find?_some hrow
        exact List.mem_of_find?_eq_some hrow
      · intro h
        cases hrow : table.find? fun row => row.1 = s with
        | none => exact absurd (List.find?_eq_none.mp hrow (s,e) h) (by simp)
        | some row =>
          have hs : row.1 = s := by simpa using List.find?_some hrow
          rw [Option.map_some,List.inj_on_of_nodup_map hcodes (List.mem_of_find?_eq_some hrow) h hs]
    rw [hcode]
    cases hrow : table.find? fun row => row.2 = e with
    | none =>
      obtain ⟨row,hmem,rfl⟩ := List.mem_map.mp (hall e)
      exact absurd (List.find?_eq_none.mp hrow row hmem) (by simp)
    | some row =>
      obtain rfl : row.2 = e := by simpa using List.find?_some hrow
      have hmem := List.mem_of_find?_eq_some hrow
      refine ⟨fun h => ?_,?_⟩
      · rw [← List.inj_on_of_nodup_map herrors h hmem rfl]
        rfl
      · rintro rfl
        exact hmem

instance : DomainCodes CreateError := .ofTable [("access_denied",.accessDenied),
  ("directory_rejected",.directoryRejected),("forbidden",.forbidden),("idempotency_conflict",.idempotencyConflict),
  ("invalid_request",.invalidRequest),("membership_required",.membershipRequired),("name_conflict",.nameConflict),
  ("operation_in_progress",.operationInProgress),("organization_not_found",.organizationNotFound),
  ("too_many_service_accounts",.tooManyServiceAccounts)] (by decide) (by decide) fun e => by cases e <;> decide

instance : DomainCodes GetError := .ofTable [("access_denied",.accessDenied),("forbidden",.forbidden),
  ("invalid_request",.invalidRequest),("membership_required",.membershipRequired),("not_found",.notFound),
  ("organization_not_found",.organizationNotFound)] (by decide) (by decide) fun e => by cases e <;> decide

instance : DomainCodes ListError := .ofTable [("access_denied",.accessDenied),("forbidden",.forbidden),
  ("invalid_request",.invalidRequest),("membership_required",.membershipRequired),
  ("organization_not_found",.organizationNotFound)] (by decide) (by decide) fun e => by cases e <;> decide

instance : DomainCodes RevokeError := .ofTable [("access_denied",.accessDenied),("forbidden",.forbidden),
  ("idempotency_conflict",.idempotencyConflict),("invalid_request",.invalidRequest),
  ("membership_required",.membershipRequired),("not_found",.notFound),("operation_in_progress",.operationInProgress),
  ("organization_not_found",.organizationNotFound),("revision_conflict",.revisionConflict)] (by decide) (by decide)
  fun e => by cases e <;> decide

instance : DomainCodes RotateSecretError := .ofTable [("access_denied",.accessDenied),("forbidden",.forbidden),
  ("idempotency_conflict",.idempotencyConflict),("invalid_request",.invalidRequest),
  ("membership_required",.membershipRequired),("not_found",.notFound),("operation_in_progress",.operationInProgress),
  ("organization_not_found",.organizationNotFound),("revision_conflict",.revisionConflict),("revoked",.revoked)]
  (by decide) (by decide) fun e => by cases e <;> decide

instance : DomainCodes ExchangeSecretError := .ofTable [("disabled",.disabled),("forbidden",.forbidden),
  ("idempotency_conflict",.idempotencyConflict),("invalid_credentials",.invalidCredentials),
  ("invalid_request",.invalidRequest),("operation_in_progress",.operationInProgress),("rate_limited",.rateLimited)]
  (by decide) (by decide) fun e => by cases e <;> decide

/-- The object that the entries make: a later entry replaces an earlier one of the same name. -/
def fields {V : Type} (entries : List (String × V)) : Fields V := (∅ : Fields V).insertMany entries

section Codec
variable {ε V : Type} [JsonValue V] [DomainCodes ε]

/-- The entries of an error that is not named, in the order in which they are written. -/
def UnknownDomainError.entries (u : UnknownDomainError V) : List (String × V) :=
  ("code",JsonValue.string u.code) :: (u.payload.toList.map fun payload => ("payload",payload)) ++ u.extra.toList

def DomainError.serialize : DomainError ε V → Encoded V
  | .known e => .string (DomainCodes.code e)
  | .unknown u => .object u.entries

/-- What is read from an object. -/
def UnknownDomainError.ofFields (object : Fields V) : Except String (UnknownDomainError V) :=
  match object["code"]?.bind JsonValue.asStr with
  | none => .error "Domain Error object is missing a string code"
  | some code =>
    let object := object.erase "code"
    .ok ⟨code,object["payload"]?,object.erase "payload"⟩

def DomainError.deserialize : Encoded V → Except String (DomainError ε V)
  | .string s =>
    match DomainCodes.ofCode s with
    | some e => .ok (.known e)
    | none => .ok (.unknown ⟨s,none,∅⟩)
  | .object entries => (UnknownDomainError.ofFields (fields entries)).map .unknown
  | .other value => .error ("Domain Error must be a string or object, got " ++ JsonValue.display value)

/-- The deserializer has taken the code and the payload out of the other fields. -/
def UnknownDomainError.Canonical (u : UnknownDomainError V) : Prop :=
  u.extra["code"]? = none ∧ u.extra["payload"]? = none

def DomainError.Canonical : DomainError ε V → Prop
  | .known _ => True
  | .unknown u => u.Canonical

omit [JsonValue V] in
/-- The entries of one object put over another object. -/
lemma get_insertMany (object extra : Fields V) (k : String) :
    (object.insertMany extra.toList)[k]? = extra[k]?.or object[k]? := by
  cases h : extra[k]? with
  | none =>
    rw [Option.none_or]
    apply Std.ExtTreeMap.getElem?_insertMany_list_of_contains_eq_false
    rw [Std.ExtTreeMap.map_fst_toList_eq_keys]
    grind
  | some v =>
    rw [Option.some_or]
    exact Std.ExtTreeMap.getElem?_insertMany_list_of_mem (k := k) Std.ReflCmp.compare_self
      Std.ExtTreeMap.distinct_keys_toList (Std.ExtTreeMap.mem_toList_iff_getElem?_eq_some.mpr h)

/-- Where the entries of an error lead: the other fields come last and win. -/
lemma get_entries (u : UnknownDomainError V) (k : String) : (fields u.entries)[k]? = u.extra[k]?.or
    (if "payload" = k then u.payload else if "code" = k then some (JsonValue.string u.code) else none) := by
  have hsplit : fields u.entries = (fields (("code",JsonValue.string u.code) ::
      u.payload.toList.map fun payload => ("payload",payload))).insertMany u.extra.toList := by
    simp only [fields,UnknownDomainError.entries,Std.ExtTreeMap.insertMany_list_eq_foldl,List.foldl_append]
  rw [hsplit,get_insertMany]
  congr 1
  cases hp : u.payload with
  | none =>
    simp only [fields,Option.toList_none,List.map_nil,Std.ExtTreeMap.insertMany_list_singleton,
      Std.ExtTreeMap.getElem?_insert]
    grind
  | some payload =>
    simp only [fields,Option.toList_some,List.map_cons,List.map_nil,Std.ExtTreeMap.insertMany_cons]
    grind

/-- What is read from an object has neither code nor payload among its other fields. -/
lemma UnknownDomainError.canonical_of_fields {object : Fields V} {u : UnknownDomainError V}
    (h : ofFields object = .ok u) : u.Canonical := by
  unfold ofFields at h
  split at h
  · cases h
  · obtain rfl := Except.ok.inj h
    exact ⟨by simp,by simp⟩

/-- An object is read as the error that has been written, unless one of its other fields takes the place of its code
or payload. -/
theorem UnknownDomainError.ofFields_entries {u : UnknownDomainError V} :
    ofFields (fields u.entries) = .ok u ↔ u.Canonical := by
  refine ⟨canonical_of_fields,fun h => ?_⟩
  have hcode : (fields u.entries)["code"]?.bind JsonValue.asStr = some u.code := by
    rw [get_entries,h.1]
    simp [JsonValue.asStr_string]
  have hpayload : ((fields u.entries).erase "code")["payload"]? = u.payload := by
    rw [Std.ExtTreeMap.getElem?_erase,get_entries,h.2]
    simp
  have hextra : ((fields u.entries).erase "code").erase "payload" = u.extra := by
    apply Std.ExtTreeMap.ext_getElem?
    intro k
    simp only [Std.ExtTreeMap.getElem?_erase,get_entries,Std.LawfulEqCmp.compare_eq_iff_eq]
    by_cases hp : "payload" = k
    · rw [if_pos hp,← hp,h.2]
    · by_cases hc : "code" = k
      · rw [if_neg hp,if_pos hc,← hc,h.1]
      · simp only [if_neg hp,if_neg hc,Option.or_none]
  unfold ofFields
  rw [hcode]
  simp only [hpayload,hextra]

theorem DomainError.deserialize_serialize {e : DomainError ε V} : deserialize e.serialize = .ok e ↔ e.Canonical := by
  cases e with
  | known e =>
    have hcode : DomainCodes.ofCode (DomainCodes.code e) = some e := (DomainCodes.ofCode_iff _ _).mpr rfl
    simp only [serialize,deserialize,hcode,Canonical]
  | unknown u =>
    simp only [serialize,deserialize,Canonical]
    rw [← UnknownDomainError.ofFields_entries]
    cases UnknownDomainError.ofFields (fields u.entries) with
    | error text => simp [Except.map]
    | ok u' => simp [Except.map]

lemma DomainError.canonical_of_deserialize {w : Encoded V} {e : DomainError ε V} (h : deserialize w = .ok e) :
    e.Canonical := by
  cases w with
  | string s =>
    simp only [deserialize] at h
    split at h <;> obtain rfl := Except.ok.inj h
    · trivial
    · exact ⟨by simp,by simp⟩
  | object entries =>
    simp only [deserialize] at h
    cases hu : UnknownDomainError.ofFields (fields entries) with
    | error text => simp [hu,Except.map] at h
    | ok u =>
      simp only [hu,Except.map,Except.ok.injEq] at h
      obtain rfl := h
      exact UnknownDomainError.canonical_of_fields hu
  | other value => cases h

/-- What an error says, to whoever. -/
def DomainError.message : DomainError ε V → UnknownDomainError V
  | .known e => ⟨DomainCodes.code e,none,∅⟩
  | .unknown u => u

/-- What is on the wire says, to whoever. -/
def Encoded.message : Encoded V → Except String (UnknownDomainError V)
  | .string s => .ok ⟨s,none,∅⟩
  | .object entries => UnknownDomainError.ofFields (fields entries)
  | .other value => .error ("Domain Error must be a string or object, got " ++ JsonValue.display value)

/-- Every contract reads the same from the wire. -/
lemma DomainError.message_deserialize (w : Encoded V) :
    (deserialize w : Except String (DomainError ε V)).map message = w.message := by
  cases w with
  | string s =>
    simp only [deserialize]
    cases hs : (DomainCodes.ofCode s : Option ε) with
    | none => rfl
    | some e =>
      obtain rfl := (DomainCodes.ofCode_iff s e).mp hs
      rfl
  | object entries =>
    simp only [deserialize,Encoded.message]
    cases UnknownDomainError.ofFields (fields entries) <;> rfl
  | other value => rfl

lemma DomainError.message_serialize {e : DomainError ε V} (h : e.Canonical) :
    e.serialize.message = .ok e.message := by
  cases e with
  | known e => rfl
  | unknown u => exact UnknownDomainError.ofFields_entries.mpr h

lemma DomainError.deserialize_known {w : Encoded V} {e : ε} :
    deserialize w = .ok (.known e) ↔ w = .string (DomainCodes.code e) := by
  constructor
  · intro h
    cases w with
    | string s =>
      simp only [deserialize] at h
      split at h
      · next e' he =>
        obtain rfl := DomainError.known.inj (Except.ok.inj h)
        rw [(DomainCodes.ofCode_iff s e').mp he]
      · cases h
    | object entries =>
      simp only [deserialize] at h
      cases hu : UnknownDomainError.ofFields (fields entries) <;> rw [hu] at h <;> cases h
    | other value => cases h
  · rintro rfl
    exact (deserialize_serialize (e := .known e)).mpr trivial

end Codec

/-- A party that reads and writes errors, with the codes that it can name. -/
structure Party where
  Error : Type
  [codes : DomainCodes Error]

attribute [instance] Party.codes

namespace Party
variable {V : Type} [JsonValue V] (P : Party)

/-- The party can name the code. -/
def Knows (s : String) : Prop := ∃ e : P.Error, DomainCodes.code e = s

/-- `decode_…_error`, once the text is parsed. -/
def receive (w : Encoded V) : Except String (DomainError P.Error V) := DomainError.deserialize w

/-- The party reads an error and writes it again. -/
def passOn (w : Encoded V) : Except String (Encoded V) := (P.receive w).map DomainError.serialize

end Party

section Relay
variable {V : Type} [JsonValue V] {P : Party} {w w' : Encoded V}

/-- An error goes from one party to the next. -/
def relay : List Party → Encoded V → Except String (Encoded V)
  | [], w => .ok w
  | P :: Ps, w => P.passOn w >>= relay Ps

lemma message_passOn (P : Party) (w : Encoded V) : P.passOn w >>= Encoded.message = w.message := by
  rw [← DomainError.message_deserialize (ε := P.Error) w]
  unfold Party.passOn Party.receive
  cases h : (DomainError.deserialize w : Except String (DomainError P.Error V)) with
  | error text => rfl
  | ok e => exact DomainError.message_serialize (DomainError.canonical_of_deserialize h)

/-- A party passes on a bare string only if it knows it, and then as it is. -/
lemma passOn_string {s : String} : P.passOn w = .ok (.string s) ↔ w = .string s ∧ P.Knows s := by
  unfold Party.passOn Party.receive
  constructor
  · intro h
    cases hw : (DomainError.deserialize w : Except String (DomainError P.Error V)) with
    | error text => rw [hw] at h; cases h
    | ok e =>
      cases e with
      | known e =>
        rw [hw] at h
        obtain rfl : DomainCodes.code e = s := by
          have hs : Encoded.string (DomainCodes.code e) = .string s := Except.ok.inj h
          cases hs
          rfl
        exact ⟨DomainError.deserialize_known.mp hw,e,rfl⟩
      | unknown u => rw [hw] at h; cases h
  · rintro ⟨rfl,e,rfl⟩
    rw [DomainError.deserialize_known.mpr rfl]
    rfl

lemma relay_string {Ps : List Party} {s : String} :
    relay Ps w = .ok (.string s) ↔ w = .string s ∧ ∀ P ∈ Ps, P.Knows s := by
  induction Ps generalizing w with
  | nil => simp [relay]
  | cons P Ps ih =>
    rw [List.forall_mem_cons,← and_assoc,← passOn_string]
    unfold relay
    cases hp : P.passOn w with
    | error text =>
      refine ⟨fun h => ?_,fun h => ?_⟩
      · cases h
      · cases h.1
    | ok w' =>
      rw [Except.ok.injEq]
      exact ih

/-- How errors travel from party to party, whatever codes these can name: the last one reads the same message as
the first one, or both refuse it. It can name the error if it knows the code, the code has been sent as a bare string,
and no party on the way did not know it. -/
structure ErrorsTravel (V : Type) [JsonValue V] : Prop where
  message : ∀ (Ps : List Party) (w : Encoded V) (P : Party),
    (relay Ps w >>= P.receive).map DomainError.message = w.message
  named : ∀ (Ps : List Party) (w : Encoded V) (P : Party) (e : P.Error), relay Ps w >>= P.receive = .ok (.known e) ↔
    w = .string (DomainCodes.code e) ∧ ∀ Q ∈ Ps, Q.Knows (DomainCodes.code e)
  exact : ∀ (P : Party) (e : DomainError P.Error V), P.receive e.serialize = .ok e ↔ e.Canonical
  canonical : ∀ (P : Party) (w : Encoded V) (e : DomainError P.Error V), P.receive w = .ok e → e.Canonical

theorem errors_travel (V : Type) [JsonValue V] : ErrorsTravel V where
  message Ps w P := by
    induction Ps generalizing w with
    | nil => exact DomainError.message_deserialize w
    | cons Q Ps ih =>
      rw [← message_passOn Q w]
      unfold relay
      cases Q.passOn w with
      | error text => rfl
      | ok w' => exact ih w'
  named Ps w P e := by
    rw [← relay_string]
    cases relay Ps w with
    | error text =>
      refine ⟨fun h => ?_,fun h => ?_⟩ <;> cases h
    | ok w' =>
      rw [Except.ok.injEq]
      exact DomainError.deserialize_known
  exact P e := DomainError.deserialize_serialize
  canonical P w e h := DomainError.canonical_of_deserialize h

end Relay
end LensoServiceAccount
