import LensoServiceAccount.Configuration
import LensoServiceAccount.Effect

/-! The four checks before any management operation. -/

namespace LensoServiceAccount
open Code

def readPermission : String := "service-account.read"
def managePermission : String := "service-account.manage"

structure AuthorizedManagement where
  caller : String
  actorSubject : String
  deriving DecidableEq,Repr

/-- `UserActor::from_assertion`: only users are actors of management operations. -/
def userActor (assertion : ActorAssertion) : Option String :=
  if assertion.actorKind = "user" then some assertion.subject else none

inductive AuthorizationError
  | forbidden
  | organizationNotFound
  | membershipRequired
  | accessDenied
  | runtime (error : RuntimeFailure)
  deriving DecidableEq,Repr

def validSubject (value : String) : Bool := validBytes ['-','_','.',':'] 256 value

def mapMembershipError : InvocationError CheckMembershipError → AuthorizationError
  | .domain .organizationNotFound => .organizationNotFound
  | .domain .invalidRequest =>
    .runtime (.failure "Organization Membership rejected a valid service-account request")
  | .domain (.unknown _) =>
    .runtime (.failure "Organization Membership returned an unknown service-account error")
  | .runtime detail => .runtime (.dependency detail)

def mapPermissionError : InvocationError CheckPermissionError → AuthorizationError
  | .domain .invalidRequest =>
    .runtime (.failure "Access Control rejected a valid service-account permission request")
  | .domain (.unknown _) =>
    .runtime (.failure "Access Control returned an unknown service-account error")
  | .runtime detail => .runtime (.dependency detail)

/-- The caller of a context, if it is on the list. -/
def InvocationContext.callerIn (context : InvocationContext) (allowed : List String) : Option String :=
  context.callerInstance.filter fun caller => allowed.contains caller

def authorizeManagement {E : Environment} (active : ActiveServiceAccount E) (context : InvocationContext)
    (capability operation organizationId permission : String) :
    Code AuthorizationError AuthorizedManagement := do
  match context.callerIn active.config.managementCallers with
  | none => throw .forbidden
  | some caller =>
    let now ← ask .nowUtc
    match (← ask (.projectContext capability operation now)).bind userActor with
    | none => throw .forbidden
    | some subject =>
      if !validSubject subject then throw .forbidden
      else
        match ← ask (.checkMembership ⟨organizationId,subject⟩) with
        | .error e => throw (mapMembershipError e)
        | .ok membership =>
          if !membership.active then throw .membershipRequired
          else
            match ← ask (.checkPermission ⟨subject,⟨"organization",organizationId⟩,permission⟩) with
            | .error e => throw (mapPermissionError e)
            | .ok decision =>
              if !decision.allowed then throw .accessDenied
              else return ⟨caller,subject⟩

end LensoServiceAccount
