import OriginGate.Gate.Basic

/-!
# Asking the user

* `System.register` : a new request, announced to the user; an origin may have one at a time;
* `System.take` : removes a request, for whoever decides it; `System.deliver` : hands the decision
  to the caller;
* `System.resolve`, `reject`, `rejectOrigin` : a decision that needs no more checks;
* `Awaiting` : a caller who waits for the decision on a request;
* `System.requestPermissions`, `System.requestAccounts` : what callers ask for.
-/

namespace OriginGate

namespace System

/-! ## Registering and deciding -/

/-- Registers a request of an origin that has none, and announces it. -/
def register (o : Origin) (permissions : RequestedPermissions) (metadata : Option SiteMetadata)
    (s : System) : System × Except PermissionError (RequestId × Ticket) :=
  match s.gate.pending.idFor? o with
  | some _ => (s, .error (.requestAlreadyPending o))
  | none =>
    let (id, supply) := s.world.supply.drawRequestId
    let (ticket, tickets) := s.world.tickets.issue
    let request : PermissionsRequest := ⟨id, o, permissions, metadata⟩
    (⟨{ s.gate with pending := s.gate.pending.add ⟨request, ticket⟩ },
      { s.world with
        supply := supply
        tickets := tickets
        announcements := s.world.announcements.announce request }⟩,
      .ok (id, ticket))

/-- Removes a request, so that it can be decided. -/
def take (id : RequestId) (s : System) : System × Except PermissionError PendingRequest :=
  match s.gate.pending.remove? id with
  | some (entry, pending) => ({ s with gate := { s.gate with pending := pending } }, .ok entry)
  | none => (s, .error (.noSuchPendingApproval id))

end System

namespace World

/-- Hands a decision to the caller of a request that was taken. -/
def deliver (entry : PendingRequest) (d : Decision) (w : World) : World × Bool :=
  let (tickets, delivered) := w.tickets.deliver entry.ticket d
  ({ w with tickets := tickets }, delivered)

/-- Nobody will decide a request that was taken. -/
def lose (ticket : Ticket) (w : World) : World := { w with tickets := w.tickets.lose ticket }

/-- A caller stops waiting. -/
def abandon (ticket : Ticket) (w : World) : World :=
  { w with tickets := w.tickets.abandon ticket }

end World

namespace System

/-- Hands a decision to the caller of a request that was taken. -/
def deliver (entry : PendingRequest) (d : Decision) (s : System) : System :=
  { s with world := (s.world.deliver entry d).1 }

/-- Takes a request and hands its caller a decision. -/
def resolve (id : RequestId) (d : Decision) (s : System) : System × Except PermissionError Unit :=
  match s.take id with
  | (s, .ok entry) => (s.deliver entry d, .ok ())
  | (s, .error e) => (s, .error e)

/-- Takes a request and fails its caller, as rejected by the user unless a reason is given. -/
def reject (id : RequestId) (reason : Option PermissionError) (s : System) :
    System × Except PermissionError Unit :=
  s.resolve id (.error (reason.getD .rejected))

/-- Rejects the request of an origin, if it has one, and tells its id. -/
def rejectOrigin (o : Origin) (reason : Option PermissionError) (s : System) :
    System × Option RequestId :=
  match s.gate.pending.idFor? o with
  | none => (s, none)
  | some id =>
    match s.reject id reason with
    | (s, .ok ()) => (s, some id)
    | (s, .error _) => (s, none)

end System

/-! ## Waiting for a decision -/

/-- A caller who waits for the decision on a request. -/
structure Awaiting where
  id : RequestId
  ticket : Ticket

namespace Awaiting

/-- Whether the decision has come. -/
def poll (a : Awaiting) (s : System) : Progress Awaiting Decision :=
  match s.world.tickets.status a.ticket with
  | .unsettled => .waiting a
  | .decided d => .done d
  | .abandoned | .lost =>
    .done (.error (.internal ("permissions request " ++ a.id.text ++ " was dropped")))

end Awaiting

/-- A caller who waits for the accounts of its origin. -/
structure AwaitingAccounts where
  origin : Origin
  decision : Awaiting

namespace AwaitingAccounts

/-- The accounts that an origin may see after a decision. -/
def finish (o : Origin) (s : System) : Decision → Except PermissionError (List Account)
  | .error e => .error e
  | .ok _ =>
    match s.accounts o with
    | [] => .error (.internal "accounts unavailable after permissions approval")
    | accounts => .ok accounts

def poll (a : AwaitingAccounts) (s : System) :
    Progress AwaitingAccounts (Except PermissionError (List Account)) :=
  ((a.decision.poll s).map (finish a.origin s)).mapWaiting fun decision => { a with decision }

end AwaitingAccounts

namespace System

/-- Asks the user for permissions; the caller waits for the decision. -/
def requestPermissions (o : Origin) (requested : RequestedPermissions) (s : System) :
    System × Progress Awaiting Decision :=
  match s.gate.validate requested with
  | .error e => (s, .done (.error e))
  | .ok () =>
    match s.register o requested (s.gate.state.siteMetadata? o) with
    | (s, .error e) => (s, .done (.error e))
    | (s, .ok (id, ticket)) => (s, .waiting ⟨id, ticket⟩)

/-- The accounts of an origin; one that has none asks the user first. -/
def requestAccounts (o : Origin) (s : System) :
    System × Progress AwaitingAccounts (Except PermissionError (List Account)) :=
  match s.accounts o with
  | [] =>
    let (s, progress) := s.requestPermissions o (.single accountsMethod)
    (s, (progress.map (AwaitingAccounts.finish o s)).mapWaiting fun decision => ⟨o, decision⟩)
  | accounts => (s, .done (.ok accounts))

end System

end OriginGate
