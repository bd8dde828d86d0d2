import LensoServiceAccount.Effect

/-! The functions of the storage module that work on the pool. -/

namespace LensoServiceAccount
open Code

inductive CommandClaim
  | claimed
  | completedSuccess (nonce ciphertext : Bytes)
  | completedError (code : String)
  | conflict
  | inProgress
  deriving DecidableEq,Repr

/-- What an existing row means for a call with this intent. -/
def CommandClaim.ofCommand (intentHash : Bytes) (row : Command) : CommandClaim :=
  if row.intentHash ≠ intentHash then .conflict
  else
    match row.status with
    | .completedSuccess => .completedSuccess (row.responseNonce.getD []) (row.responseCiphertext.getD [])
    | .completedError => .completedError (row.errorCode.getD "")
    | .reserved | .verifying | .issuing => .inProgress

def prune (receiptTtlSeconds : ℤ) : Code ServiceAccountPluginError Unit :=
  statement "prune service-account receipts" (.prune receiptTtlSeconds)

def claimCommand (key : CommandKey) (intentHash : Bytes) :
    Code ServiceAccountPluginError CommandClaim := do
  let inserted ← statement "reserve service-account command" (.reserveCommand key intentHash)
  if inserted = 1 then return .claimed
  else
    let row ← statement "load service-account command" (.loadCommand key)
    return .ofCommand intentHash row

def completeError (key : CommandKey) (errorCode : String) : Code ServiceAccountPluginError Unit := do
  let changed ← statement "complete failed service-account command"
    (.completeFailedCommand key errorCode)
  if changed ≠ 1 then throw (.invariant "service-account command error was not completable")
  else pure ()

def loadAccount (organizationId serviceAccountId : String) :
    Code ServiceAccountPluginError (Option AccountRow) :=
  statement "load service account" (.loadAccount organizationId serviceAccountId)

def listAccounts (organizationId : String) (after : Option String) (limitPlusOne : ℤ) :
    Code ServiceAccountPluginError (List AccountRow) :=
  statement "list service accounts" (.listAccounts organizationId after limitPlusOne)

def loadCredential (credentialId : String) : Code ServiceAccountPluginError (Option CredentialRow) :=
  statement "load service-account credential" (.loadCredential credentialId)

end LensoServiceAccount
