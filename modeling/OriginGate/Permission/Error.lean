import OriginGate.Caveat.Evaluation
import OriginGate.Permission.Request
import OriginGate.Rpc.Response
import OriginGate.Store.Backend

/-!
# Why an operation fails

* `PermissionError` : the causes;
* `PermissionError.message` : the text of each; `PermissionError.code` : its error code;
* `PermissionError.toRpc` : the error object that a caller sees;
* `Except.toOutcome` : the outcome of an operation as that of a call.
-/

namespace OriginGate

/-- Why an operation on permissions fails. -/
inductive PermissionError where
  | unauthorized (origin : Origin) (method : String)
  | caveatRejected (origin : Origin) (method : String) (caveat : Caveat.Kind)
      (reason : Caveat.Refusal)
  | requestAlreadyPending (origin : Origin)
  | userRejected (text : String)
  | noSuchPendingApproval (id : RequestId)
  | unknownPermission (method : String)
  | invalidParams (text : String)
  | invalidAccounts (text : String)
  | store (error : StoreError)
  | provider (error : Rpc.Error)
  | internal (text : String)

namespace PermissionError

/-- The rejection of a user who gives no reason. -/
def rejected : PermissionError := userRejected "User rejected the request."

def message : PermissionError → String
  | unauthorized _ _ =>
    "Unauthorized to perform action. Try requesting the required permission(s) first. " ++
      "For more information, see: https://eips.ethereum.org/EIPS/eip-2255"
  | caveatRejected _ method caveat reason =>
    "Unauthorized to perform action: caveat `" ++ caveat.name ++ "` rejected `" ++ method ++
      "`: " ++ reason.message
  | requestAlreadyPending origin =>
    "Request of type 'wallet_requestPermissions' already pending for origin " ++ origin.name ++
      ". Please wait."
  | userRejected text => text
  | noSuchPendingApproval id => "No pending permissions request with id " ++ id.text
  | unknownPermission method => "Unknown permission: " ++ method
  | invalidParams text => "Invalid params: " ++ text
  | invalidAccounts text => "Invalid accounts: " ++ text
  | store error => error.message
  | provider error => "Provider error: " ++ error.display
  | internal text => "Internal error: " ++ text

def code : PermissionError → Rpc.ErrorCode
  | unauthorized _ _ | caveatRejected _ _ _ _ => .unauthorized
  | requestAlreadyPending _ => .resourceUnavailable
  | userRejected _ => .userRejectedRequest
  | noSuchPendingApproval _ => .resourceNotFound
  | unknownPermission _ | invalidParams _ | invalidAccounts _ => .invalidParams
  | store _ | internal _ => .internalError
  | provider error => error.code

/-- The error object for a caller; that of a provider is passed on as it is. -/
def toRpc (e : PermissionError) : Rpc.Error :=
  match e with
  | provider error => error
  | unauthorized origin method =>
    (Rpc.Error.unauthorized e.message).withData
      (.obj [("method", .str method), ("origin", origin.json)])
  | caveatRejected origin method caveat reason =>
    (Rpc.Error.unauthorized e.message).withData
      (.obj [("caveat", caveat.json), ("method", .str method), ("origin", origin.json),
        ("reason", .str reason.message)])
  | requestAlreadyPending _ => .resourceUnavailable e.message
  | userRejected _ => .userRejected e.message
  | noSuchPendingApproval _ => .resourceNotFound e.message
  | unknownPermission _ | invalidParams _ | invalidAccounts _ => .invalidParams e.message
  | store _ | internal _ => .internalErrorWith e.message

end PermissionError

/-- The outcome of an operation as that of a call, a success written as a value. -/
def Rpc.Outcome.ofResult {α : Type} (toJson : α → Json) :
    Except PermissionError α → Rpc.Outcome
  | .ok a => .success (toJson a).normalize
  | .error e => .failure e.toRpc

end OriginGate
