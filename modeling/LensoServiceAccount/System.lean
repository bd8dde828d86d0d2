import LensoServiceAccount.Authentication

/-! The calls that instances of the plugin and operators make, and their concurrent runs over
one database. -/

namespace LensoServiceAccount
open Code

inductive ServiceAccountOperatorError
  | invalidCommandReference
  | database (source : SqlError)
  deriving DecidableEq,Repr

/-- `ServiceAccountOperator::inspect_command`, its connection established. -/
def inspectCommand (caller operation idempotencyKey : String) :
    Code ServiceAccountOperatorError (Option ServiceAccountCommandStatus) := do
  if !validCaller caller || !validAuthority operation 64 || !validAuthority idempotencyKey 128 then
    throw .invalidCommandReference
  else
    match ← ask (.execute (.inspectCommand ⟨caller,operation,idempotencyKey⟩)) with
    | .ok status => return status
    | .error e => throw (.database e)

/-- An invocation of one instance, or an inspection by an operator. -/
inductive Call (E : Environment)
  | create (plugin : ServiceAccountPlugin E) (context : InvocationContext)
      (request : CreateServiceAccountRequest)
  | get (plugin : ServiceAccountPlugin E) (context : InvocationContext)
      (request : GetServiceAccountRequest)
  | list (plugin : ServiceAccountPlugin E) (context : InvocationContext)
      (request : ListServiceAccountsRequest)
  | rotateSecret (plugin : ServiceAccountPlugin E) (context : InvocationContext)
      (request : RotateServiceAccountSecretRequest)
  | revoke (plugin : ServiceAccountPlugin E) (context : InvocationContext)
      (request : RevokeServiceAccountRequest)
  | exchangeSecret (plugin : ServiceAccountPlugin E) (context : InvocationContext)
      (request : ExchangeServiceAccountSecretRequest)
  | inspectCommand (caller operation idempotencyKey : String)

inductive Reply
  | create (r : Except RuntimeFailure (Except CreateError CreateServiceAccountResponse))
  | get (r : Except RuntimeFailure (Except GetError GetServiceAccountResponse))
  | list (r : Except RuntimeFailure (Except ListError ListServiceAccountsResponse))
  | rotateSecret (r : Except RuntimeFailure (Except RotateSecretError RotateServiceAccountSecretResponse))
  | revoke (r : Except RuntimeFailure (Except RevokeError RevokeServiceAccountResponse))
  | exchangeSecret
      (r : Except RuntimeFailure (Except ExchangeSecretError ExchangeServiceAccountSecretResponse))
  | inspectCommand (r : Except ServiceAccountOperatorError (Option ServiceAccountCommandStatus))

/-- The code of a call. -/
def Call.main {E : Environment} : Call E → Program Effect Effect.Ans Reply
  | .create plugin context request => Reply.create <$> (LensoServiceAccount.create plugin context request).run
  | .get plugin context request => Reply.get <$> (LensoServiceAccount.get plugin context request).run
  | .list plugin context request => Reply.list <$> (LensoServiceAccount.list plugin context request).run
  | .rotateSecret plugin context request =>
    Reply.rotateSecret <$> (LensoServiceAccount.rotateSecret plugin context request).run
  | .revoke plugin context request => Reply.revoke <$> (LensoServiceAccount.revoke plugin context request).run
  | .exchangeSecret plugin context request =>
    Reply.exchangeSecret <$> (LensoServiceAccount.exchangeSecret plugin context request).run
  | .inspectCommand caller operation idempotencyKey =>
    Reply.inspectCommand <$> (LensoServiceAccount.inspectCommand caller operation idempotencyKey).run

/-- A call of one function of the storage module, with arbitrary arguments. -/
inductive StorageCall
  | prune (receiptTtlSeconds : ℤ)
  | claimCommand (key : CommandKey) (intentHash : Bytes)
  | completeError (key : CommandKey) (errorCode : String)
  | transact (t : Transaction)

inductive StorageReply
  | prune (r : Except ServiceAccountPluginError Unit)
  | claimCommand (r : Except ServiceAccountPluginError CommandClaim)
  | completeError (r : Except ServiceAccountPluginError Unit)
  | transact (t : Transaction) (r : t.Result)

def StorageCall.main : StorageCall → Program Effect Effect.Ans StorageReply
  | .prune receiptTtlSeconds => StorageReply.prune <$> (LensoServiceAccount.prune receiptTtlSeconds).run
  | .claimCommand key intentHash =>
    StorageReply.claimCommand <$> (LensoServiceAccount.claimCommand key intentHash).run
  | .completeError key errorCode =>
    StorageReply.completeError <$> (LensoServiceAccount.completeError key errorCode).run
  | .transact t => StorageReply.transact t <$> (Code.transact t).run

end LensoServiceAccount
