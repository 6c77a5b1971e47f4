import OriginGate.Dispatch.WalletMethod
import OriginGate.Gate.Execution
import OriginGate.Gate.Requests

/-!
# Handling a call

* `Caller` : who a call comes from;
* `Dispatch` : a call was answered, or is passed on unchanged;
* `System.handle` : methods of the gate are answered, restricted methods are executed, all others
  are passed on;
* `Handling` : what a call waits with, and `Handling.poll`.
-/

namespace OriginGate

/-- Who a call comes from. -/
structure Caller where
  origin : Origin
  /-- The id of the calling browser extension, if it is one. -/
  extensionId : Option String
deriving DecidableEq

/-- What becomes of a call. -/
inductive Dispatch where
  | answered (outcome : Rpc.Outcome)
  | passedOn (call : Rpc.MethodCall)

/-- What the handling of a call waits with. -/
inductive Handling where
  | permissions (a : Awaiting)
  | accounts (a : AwaitingAccounts)
  | execution (e : Executing)

/-! ## Parameters -/

namespace Rpc.Params

/-- The first positional parameter, read as something. -/
def first? {α : Type} (read? : Document → Option α) (params : Params) :
    Except PermissionError α :=
  match params.get? 0 with
  | Option.none => .error (.invalidParams "expected a single object param")
  | some j =>
    match read? j.document with
    | some a => .ok a
    | Option.none => .error (.invalidParams "malformed param")

/-- What a site reports about itself, in the parameters by name or in the first by position. -/
def siteReport? : Params → Option SiteReport
  | none => Option.none
  | object fields => SiteReport.ofDocument? (Json.obj fields).document
  | array items => items.head?.bind fun j => SiteReport.ofDocument? j.document

end Rpc.Params

/-! ## Answers -/

namespace Dispatch

/-- The permissions of a decision as an answer. -/
def permissions (d : Decision) : Dispatch :=
  answered (.ofResult (fun ps => .arr (ps.map Permission.json)) d)

/-- A list of accounts as an answer. -/
def accounts (r : Except PermissionError (List Account)) : Dispatch :=
  answered (.ofResult (fun as => .arr (as.map Account.json)) r)

/-- The answer `true` to a report. -/
def acknowledged (r : Except PermissionError Unit) : Dispatch :=
  answered (.ofResult (fun _ => .bool true) r)

/-- A result as an answer, as it is. -/
def value : Except PermissionError Json → Dispatch
  | .ok j => answered (.success j)
  | .error e => answered (.failure e.toRpc)

end Dispatch

namespace Handling

/-- Whether the call can be answered now. -/
def poll (h : Handling) (s : System) : Progress Handling Dispatch :=
  match h with
  | permissions a => ((a.poll s).map Dispatch.permissions).mapWaiting permissions
  | accounts a => ((a.poll s).map Dispatch.accounts).mapWaiting accounts
  | execution e => ((e.poll s).map Dispatch.value).mapWaiting execution

end Handling

namespace System

/-- Serves a method of the gate. -/
def serve (method : WalletMethod) (caller : Caller) (params : Rpc.Params) (s : System) :
    System × Progress Handling Dispatch :=
  match method with
  | .requestPermissions =>
    match params.first? RequestedPermissions.ofDocument? with
    | .error e => (s, .done (.permissions (.error e)))
    | .ok requested =>
      let (s, progress) := s.requestPermissions caller.origin requested
      (s, (progress.map Dispatch.permissions).mapWaiting .permissions)
  | .getPermissions => (s, .done (.permissions (.ok (s.gate.state.permissions caller.origin))))
  | .requestAccounts =>
    let (s, progress) := s.requestAccounts caller.origin
    (s, (progress.map Dispatch.accounts).mapWaiting .accounts)
  | .accounts => (s, .done (.accounts (.ok (s.accounts caller.origin))))
  | .sendSiteMetadata =>
    let (s, result) := s.recordMetadata caller.origin params.siteReport? caller.extensionId
    (s, .done (.acknowledged result))
  | .logUsage =>
    match params.first? UsageEvent.ofDocument? with
    | .error e => (s, .done (.acknowledged (.error e)))
    | .ok event => (s.logUsage caller.origin event, .done (.acknowledged (.ok ())))

/-- Handles a call of a caller. -/
def handle (caller : Caller) (call : Rpc.MethodCall) (s : System) :
    System × Progress Handling Dispatch :=
  match WalletMethod.ofName? call.method with
  | some method => s.serve method caller call.params
  | none =>
    if s.gate.registry.isRestricted call.method then
      let (s, progress) := s.execute caller.origin call.method call.params.json
      (s, (progress.map Dispatch.value).mapWaiting .execution)
    else (s, .done (.passedOn call))

end System

end OriginGate
