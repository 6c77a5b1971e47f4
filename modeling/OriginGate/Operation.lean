import OriginGate.Dispatch.Serving
import OriginGate.Gate.Approval

/-!
# Operations that may wait

* `Operation` : what can be asked of a gate that it may not answer at once;
* `Operation.begin` : begins one; `Waiter` : what it waits with; `Waiter.poll` : takes it up again;
* `Result` : what it ends with.
-/

namespace OriginGate

/-- An operation that may have to wait. -/
inductive Operation where
  | call (caller : Caller) (call : Rpc.MethodCall)
  | request (caller : Caller) (request : Rpc.Request)
  | requestAccounts (origin : Origin)
  | requestPermissions (origin : Origin) (requested : RequestedPermissions)
  | approve (approved : ApprovedRequest) (accounts : List Account)
  | execute (origin : Origin) (method : String) (params : Json)

/-- What an operation ends with. -/
inductive Result where
  | dispatch (d : Dispatch)
  | reply (r : Option Rpc.Reply)
  | accounts (r : Except PermissionError (List Account))
  | decision (d : Decision)
  | value (r : Except PermissionError Json)
  /-- Nobody is left who could decide. -/
  | canceled

/-- What an operation waits with. -/
inductive Waiter where
  | call (h : Handling)
  | request (a : Answering)
  | requestAccounts (a : AwaitingAccounts)
  | requestPermissions (a : Awaiting)
  | approve (a : Approving)
  | execute (e : Executing)
  /-- A ticket alone, without a gate. -/
  | ticket (t : Ticket)

namespace Operation

def begin (op : Operation) (s : System) : System × Progress Waiter Result :=
  match op with
  | call caller c =>
    let (s, progress) := s.handle caller c
    (s, (progress.map .dispatch).mapWaiting .call)
  | request caller r =>
    let (s, progress) := s.answer caller r
    (s, (progress.map .reply).mapWaiting .request)
  | requestAccounts o =>
    let (s, progress) := s.requestAccounts o
    (s, (progress.map .accounts).mapWaiting .requestAccounts)
  | requestPermissions o requested =>
    let (s, progress) := s.requestPermissions o requested
    (s, (progress.map .decision).mapWaiting .requestPermissions)
  | approve approved accounts =>
    let (s, progress) := s.approve approved accounts
    (s, (progress.map .decision).mapWaiting .approve)
  | execute o method params =>
    let (s, progress) := s.execute o method params
    (s, (progress.map .value).mapWaiting .execute)

end Operation

namespace Serving

/-- The tickets that a waiting call holds. -/
def tickets (c : Serving) : List Ticket :=
  match c.stage with
  | .handling (.permissions a) => [a.ticket]
  | .handling (.accounts a) => [a.decision.ticket]
  | _ => []

end Serving

namespace Waiter

/-- How a ticket stands, for one who has nothing but the ticket. -/
def pollTicket (t : Ticket) (s : System) : Progress Waiter Result :=
  match s.world.tickets.status t with
  | .unsettled => .waiting (ticket t)
  | .decided d => .done (.decision d)
  | .abandoned | .lost => .done .canceled

/-- Goes on with an operation as far as it goes. -/
def poll (w : Waiter) (s : System) : System × Progress Waiter Result :=
  match w with
  | call h => (s, ((h.poll s).map .dispatch).mapWaiting call)
  | request a =>
    let (s, progress) := a.poll s
    (s, (progress.map .reply).mapWaiting request)
  | requestAccounts a => (s, ((a.poll s).map .accounts).mapWaiting requestAccounts)
  | requestPermissions a => (s, ((a.poll s).map .decision).mapWaiting requestPermissions)
  | approve a =>
    let (s, progress) := a.poll s
    (s, (progress.map .decision).mapWaiting approve)
  | execute e => (s, ((e.poll s).map .value).mapWaiting execute)
  | ticket t => (s, pollTicket t s)

/-- The tickets that a waiting operation holds. -/
def tickets : Waiter → List Ticket
  | call (.permissions a) => [a.ticket]
  | call (.accounts a) => [a.decision.ticket]
  | call (.execution _) => []
  | request (.single c) => c.tickets
  | request (.batch slots) =>
    slots.flatMap fun slot : Slot =>
      match slot with
      | .waiting c => c.tickets
      | .done _ => []
  | requestAccounts a => [a.decision.ticket]
  | requestPermissions a => [a.ticket]
  | approve _ => []
  | execute _ => []
  | ticket t => [t]

/-- Whether the operation keeps its gate in being. -/
def holdsGate : Waiter → Bool
  | ticket _ => false
  | _ => true

end Waiter

end OriginGate
