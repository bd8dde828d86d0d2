import LensoServiceAccount.Replay
import LensoServiceAccount.Wire

/-! The error codes that commands keep are those that go over the wire. -/

namespace LensoServiceAccount
variable {E : Environment} (V : Type) [JsonValue V]

variable {V}

end LensoServiceAccount
