import OriginGate.Dispatch.Handling

/-!
# Serving requests

* `Serving` : one call of a request that waits; `System.serveCall`, `Serving.poll`;
* `Answering` : a request that waits; `System.answer`, `Answering.poll`.

A call that is passed on is sent to the wallet. Notifications are handled like calls, and their
outcome is dropped. The calls of a batch are begun in order, each as far as it goes, and the batch
is answered when all of them are.
-/

namespace OriginGate

/-- How far a call has come. -/
inductive Serving.Stage where
  | handling (h : Handling)
  /-- Passed on, it has reached the wallet. -/
  | sent (call : Rpc.MethodCall)

/-- A call that waits. -/
structure Serving where
  /-- The id to respond with; none for a notification. -/
  id : Option Rpc.Id
  stage : Serving.Stage

namespace Serving

/-- The response to a call, unless it is a notification. -/
def respond (id : Option Rpc.Id) (outcome : Rpc.Outcome) : Option Rpc.Response :=
  id.map fun id => .create id outcome

/-- Waits for the wallet to answer a call that it received. -/
def awaitWallet (id : Option Rpc.Id) (call : Rpc.MethodCall) (s : System) :
    Progress Serving (Option Rpc.Response) :=
  if s.world.wallet.busy then .waiting ⟨id, .sent call⟩
  else .done (respond id (s.world.wallet.answer call))

/-- Goes on after the handling of a call: it is answered, or sent to the wallet. -/
def afterHandling (id : Option Rpc.Id) (s : System) :
    Progress Handling Dispatch → System × Progress Serving (Option Rpc.Response)
  | .waiting h => (s, .waiting ⟨id, .handling h⟩)
  | .done (.answered outcome) => (s, .done (respond id outcome))
  | .done (.passedOn call) =>
    let s := s.send call
    (s, awaitWallet id call s)

/-- Goes on with a call that waits. -/
def poll (c : Serving) (s : System) : System × Progress Serving (Option Rpc.Response) :=
  match c.stage with
  | .handling h => afterHandling c.id s (h.poll s)
  | .sent call => (s, awaitWallet c.id call s)

end Serving

namespace System

/-- Begins a method call or notification. -/
def beginCall (caller : Caller) (id : Option Rpc.Id) (call : Rpc.MethodCall) (s : System) :
    System × Progress Serving (Option Rpc.Response) :=
  let (s, progress) := s.handle caller call
  Serving.afterHandling id s progress

/-- Begins one call of a request. -/
def serveCall (caller : Caller) (call : Rpc.Call) (s : System) :
    System × Progress Serving (Option Rpc.Response) :=
  match call with
  | .method c => s.beginCall caller (some c.id) c
  | .notification n => s.beginCall caller none (.create .null n.method n.params)
  | .invalid id => (s, .done (some (.invalidRequest id)))

end System

/-! ## Requests -/

/-- A call of a batch: its response, or what it waits with. -/
abbrev Slot := Progress Serving (Option Rpc.Response)

/-- A request that waits. -/
inductive Answering where
  | single (c : Serving)
  | batch (slots : List Slot)

namespace Slot

/-- Goes on with a call of a batch, if it waits. -/
def poll (slot : Slot) (s : System) : System × Slot :=
  match slot with
  | .done r => (s, .done r)
  | .waiting c => c.poll s

end Slot

/-- Takes a system through a list of steps, and lists what they give. -/
def System.thread {α β : Type} (step : α → System → System × β) :
    List α → System → System × List β
  | [], s => (s, [])
  | a :: rest, s =>
    let (s, b) := step a s
    let (s, bs) := System.thread step rest s
    (s, b :: bs)

namespace Answering

/-- The responses of a batch whose calls are all done. -/
def responses? (slots : List Slot) : Option (List Rpc.Response) :=
  (slots.mapM (fun slot : Slot => slot.done?)).map (·.filterMap id)

/-- The reply to a batch; there is none if no call of it has a response. -/
def reply (responses : List Rpc.Response) : Option Rpc.Reply :=
  if responses.isEmpty then none else some (.batch responses)

/-- Whether a batch is done. -/
def ofSlots (slots : List Slot) : Progress Answering (Option Rpc.Reply) :=
  match responses? slots with
  | some responses => .done (reply responses)
  | none => .waiting (.batch slots)

/-- How a request of one call stands. -/
def ofSingle (slot : Slot) : Progress Answering (Option Rpc.Reply) :=
  (slot.map fun r => r.map .single).mapWaiting single

/-- Goes on with a request that waits. -/
def poll (a : Answering) (s : System) : System × Progress Answering (Option Rpc.Reply) :=
  match a with
  | single c =>
    let (s, slot) := c.poll s
    (s, ofSingle slot)
  | batch slots =>
    let (s, slots) := System.thread Slot.poll slots s
    (s, ofSlots slots)

end Answering

/-- Begins to answer a request. -/
def System.answer (caller : Caller) (request : Rpc.Request) (s : System) :
    System × Progress Answering (Option Rpc.Reply) :=
  match request with
  | .single call =>
    let (s, slot) := s.serveCall caller call
    (s, Answering.ofSingle slot)
  | .batch calls =>
    let (s, slots) := System.thread (System.serveCall caller) calls s
    (s, Answering.ofSlots slots)

end OriginGate
