import OriginGate.Operation

/-!
# Sessions

* `Session` : a gate with the operations that wait, by number;
* `Session.start` : begins an operation; `Session.settle` : takes up all that wait, in the order in
  which they began, again and again until none of them ends;
* `Session.drop` : a caller gives up;
* `Session.reopen` : a new gate on the same backend. A former gate stays in being while an operation
  on it waits; when it goes, its requests can be decided no more.
-/

namespace OriginGate

/-- An operation that waits. -/
structure Suspended where
  number : Nat
  /-- The generation of the gate on which it began. -/
  generation : Nat
  waiter : Waiter

/-- A gate with the operations that wait. -/
structure Session where
  settings : Settings
  world : World
  gate : Gate
  /-- How often a gate was opened before this one. -/
  generation : Nat
  /-- Former gates with waiting operations, by generation. -/
  former : List (Nat × Gate)
  /-- What waits, in the order in which it began. -/
  waiting : List Suspended
  /-- How many numbers were given to operations. -/
  begun : Nat
  /-- Requests that were taken and not decided yet. -/
  taken : List PendingRequest

namespace Session

/-- A session with a new gate. -/
def create (settings : Settings) (w : World) : Except PermissionError Session :=
  match System.create settings w with
  | .ok s => .ok ⟨settings, s.world, s.gate, 0, [], [], 0, []⟩
  | .error e => .error e

/-! ## Acting on a gate -/

/-- The gate of a generation. -/
def gateOf (generation : Nat) (s : Session) : Gate :=
  if generation = s.generation then s.gate
  else
    match s.former.find? (·.1 = generation) with
    | some (_, gate) => gate
    | none => s.gate

/-- The session with another gate of a generation. -/
def withGate (generation : Nat) (gate : Gate) (s : Session) : Session :=
  if generation = s.generation then { s with gate }
  else { s with former := s.former.map fun f => if f.1 = generation then (f.1, gate) else f }

/-- Acts on the gate of a generation. -/
def within {α : Type} (generation : Nat) (act : System → System × α) (s : Session) :
    Session × α :=
  let (t, a) := act ⟨s.gateOf generation, s.world⟩
  ({ s with world := t.world }.withGate generation t.gate, a)

/-- The gate in force, in its world. -/
def system (s : Session) : System := ⟨s.gate, s.world⟩

/-- Acts on the gate in force. -/
def act {α : Type} (act : System → System × α) (s : Session) : Session × α :=
  let (t, a) := act s.system
  ({ s with world := t.world, gate := t.gate }, a)

/-! ## Former gates -/

/-- Whether an operation waits that keeps a gate in being. -/
def isHeld (generation : Nat) (s : Session) : Bool :=
  s.waiting.any fun w => w.generation = generation && w.waiter.holdsGate

/-- Lets go of the former gates that nothing holds; nobody will decide their requests. -/
def release (s : Session) : Session :=
  let (held, gone) := s.former.partition fun f => s.isHeld f.1
  let tickets := gone.flatMap fun f => f.2.pending.entries.map (·.ticket)
  { s with former := held, world := tickets.foldl (fun w t => w.lose t) s.world }

/-- A new gate on the same backend; the one in force becomes a former one. -/
def reopen (s : Session) : Except PermissionError Session :=
  match System.create s.settings s.world with
  | .ok t =>
    .ok { s with
      world := t.world
      gate := t.gate
      generation := s.generation + 1
      former := s.former ++ [(s.generation, s.gate)] }.release
  | .error e => .error e

/-! ## Waiting -/

/-- Keeps an operation waiting under the next number. -/
def await (w : Waiter) (s : Session) : Session × Nat :=
  let number := s.begun + 1
  ({ s with
    begun := number
    waiting := s.waiting ++ [⟨number, s.generation, w⟩] }, number)

/-- Begins an operation; it takes a number also if it ends at once. -/
def start (op : Operation) (s : Session) : Session × Progress Nat Result :=
  let (s, progress) := s.act op.begin
  match progress with
  | .done r => ({ s with begun := s.begun + 1 }, .done r)
  | .waiting w =>
    let (s, number) := s.await w
    (s, .waiting number)

/-- Puts a waiting operation in the place of the one with its number. -/
def keep (w : Suspended) (s : Session) : Session :=
  { s with waiting := s.waiting.map fun v => if v.number = w.number then w else v }

/-- Forgets a waiting operation, and with it a former gate that only it held. -/
def forget (number : Nat) (s : Session) : Session :=
  { s with waiting := s.waiting.filter (·.number ≠ number) }.release

/-- Goes on with a waiting operation in the given way. -/
def resume (go : Waiter → System → System × Progress Waiter Result) (number : Nat)
    (s : Session) : Session × Option Result :=
  match s.waiting.find? (·.number = number) with
  | none => (s, none)
  | some w =>
    let (s, progress) := s.within w.generation (go w.waiter)
    match progress with
    | .waiting waiter => (s.keep { w with waiter }, none)
    | .done r => (s.forget number, some r)

/-- Takes up a waiting operation. -/
def poll (number : Nat) (s : Session) : Session × Option Result := s.resume Waiter.poll number

/-- Takes up operations in order, and lists those that end with their results. -/
def pollEach : List Nat → Session → Session × List (Nat × Result)
  | [], s => (s, [])
  | number :: rest, s =>
    let (s, result) := s.poll number
    let (s, ended) := pollEach rest s
    (s, match result with
      | some r => (number, r) :: ended
      | none => ended)

/-- Takes up all that wait, once each. -/
def pass (s : Session) : Session × List (Nat × Result) := pollEach (s.waiting.map (·.number)) s

/-- At most so many passes, until in one of them nothing ends. -/
def settleWithin : (passes : Nat) → Session → Session × List (Nat × Result)
  | 0, s => (s, [])
  | passes + 1, s =>
    let (s, ended) := s.pass
    if ended.isEmpty then (s, [])
    else
      let (s, more) := settleWithin passes s
      (s, ended ++ more)

/-- Takes up all that wait until nothing ends; each pass but the last ends one of them. -/
def settle (s : Session) : Session × List (Nat × Result) := settleWithin (s.waiting.length + 1) s

/-- The caller of a waiting operation gives up; whether there was one. -/
def drop (number : Nat) (s : Session) : Session × Bool :=
  match s.waiting.find? (·.number = number) with
  | none => (s, false)
  | some w =>
    ({ s with world := w.waiter.tickets.foldl (fun world t => world.abandon t) s.world }.forget
      number, true)

/-! ## Deciding by hand -/

/-- Registers a request whose caller waits with nothing but its ticket. -/
def register (o : Origin) (permissions : RequestedPermissions) (metadata : Option SiteMetadata)
    (s : Session) : Session × Except PermissionError (RequestId × Nat) :=
  match s.act (·.register o permissions metadata) with
  | (s, .error e) => (s, .error e)
  | (s, .ok (id, ticket)) =>
    let (s, number) := s.await (.ticket ticket)
    (s, .ok (id, number))

/-- Takes a request out of the gate and keeps it. -/
def take (id : RequestId) (s : Session) : Session × Except PermissionError PendingRequest :=
  match s.act (·.take id) with
  | (s, .error e) => (s, .error e)
  | (s, .ok entry) => ({ s with taken := s.taken ++ [entry] }, .ok entry)

/-- The request with an id that was taken and not decided. -/
def taken? (id : RequestId) (s : Session) : Option PendingRequest := s.taken.find? (·.id = id)

/-- Decides a request that was taken; whether its caller still waited. -/
def deliver (entry : PendingRequest) (d : Decision) (s : Session) : Session × Bool :=
  let (world, delivered) := s.world.deliver entry d
  ({ s with world, taken := s.taken.filter (·.id ≠ entry.id) }, delivered)

/-- Drops a request that was taken, so that nobody will decide it; whether there was one. -/
def dropTaken (id : RequestId) (s : Session) : Session × Bool :=
  match s.taken? id with
  | none => (s, false)
  | some entry =>
    ({ s with world := s.world.lose entry.ticket, taken := s.taken.filter (·.id ≠ id) }, true)

end Session

end OriginGate
