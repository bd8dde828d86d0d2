import LensoServiceAccount.Storage.Locks
import LensoServiceAccount.Replay

/-! Identities of commands: the associated data of receipts and the intents that are hashed tell all
commands and all requests apart. -/

namespace LensoServiceAccount
variable {E : Environment}

section Bytes

end Bytes

/-- No two of these byte strings have one digest. -/
def Environment.TellsApart (E : Environment) (xs ys : Bytes) : Prop := E.sha256 xs = E.sha256 ys → xs = ys

/-- What is hashed for a command. -/
inductive CommandIntent
  | create (actor : String) (request : CreateServiceAccountRequest)
  | rotateSecret (actor : String) (request : RotateServiceAccountSecretRequest)
  | revoke (actor : String) (request : RevokeServiceAccountRequest)
  | exchangeSecret (request : ExchangeServiceAccountSecretRequest)
  deriving DecidableEq

namespace CommandIntent

def operation : CommandIntent → String
  | .create _ _ => createOperation
  | .rotateSecret _ _ => rotateSecretOperation
  | .revoke _ _ => revokeOperation
  | .exchangeSecret _ => exchangeSecretOperation

/-- The byte string that is hashed. -/
def bytes : CommandIntent → Bytes
  | .create actor request => Json.toVec (.array [.string actor,request.toJson])
  | .rotateSecret actor request => Json.toVec (.array [.string actor,request.toJson])
  | .revoke actor request => Json.toVec (.array [.string actor,request.toJson])
  | .exchangeSecret request => Json.toVec request.toJson

/-- The intent hash that the operation computes. -/
def hash (E : Environment) : CommandIntent → Bytes
  | .create actor request => actorIntentHash E actor request.toJson
  | .rotateSecret actor request => actorIntentHash E actor request.toJson
  | .revoke actor request => actorIntentHash E actor request.toJson
  | .exchangeSecret request => requestIntentHash E request.toJson

end CommandIntent

lemma frame_inj {xs ys r r' : Bytes} (h : frame xs ++ r = frame ys ++ r') : xs = ys ∧ r = r' := by
  have hone : ∀ zs : Bytes, (0 : UInt8) ∉ zs.map fun _ => (1 : UInt8) := by simp
  simp only [frame,List.append_assoc,List.cons_append] at h
  obtain ⟨hlength,h⟩ := Text.append_cons_inj (hone xs) (hone ys) h
  have hlength' := congrArg List.length hlength
  rw [List.length_map,List.length_map] at hlength'
  exact List.append_inj h hlength'

end LensoServiceAccount
