import OriginGate.Session.Basic

/-!
# What happens around a session

* `Session.draw` : the permissions of some grants, fresh ones drawn from the supply;
* `Session.changeWallet`, `changeBackend` : changes from outside;
* `Session.restart` : a new gate on an empty backend in memory;
* `Subscribers`, `subscribe`, `unsubscribe`, `receive` : subscribers to announcements, by name.
-/

namespace OriginGate

/-- The numbers of subscriptions by the names of the subscribers. -/
abbrev Subscribers := SortedMap String Nat

namespace Session

/-- The permissions of some grants to an origin. -/
def draw (invoker : Origin) (grants : List Grant) (s : Session) : Session × List Permission :=
  let (ps, supply) := s.world.supply.drawGrants invoker grants
  ({ s with world := { s.world with supply } }, ps)

def changeWallet (change : Wallet → Wallet) (s : Session) : Session :=
  { s with world := { s.world with wallet := change s.world.wallet } }

def changeBackend (change : Backend → Backend) (s : Session) : Session :=
  { s with world := { s.world with backend := change s.world.backend } }

/-- Opens a new gate on an empty backend in memory, where nothing outlasts a gate. -/
def restart (s : Session) : Except PermissionError Session :=
  (s.changeBackend fun _ => .memory .empty).reopen

/-- Changes the announcements. -/
def onAnnouncements {α : Type} (change : Announcements → α × Announcements) (s : Session) :
    Session × α :=
  let (a, announcements) := change s.world.announcements
  ({ s with world := { s.world with announcements } }, a)

/-- A subscriber with a name; an earlier one with the name goes. -/
def subscribe (name : String) (subscribers : Subscribers) (s : Session) :
    Session × Subscribers :=
  let (s, number) := s.onAnnouncements (·.subscribe)
  let (s, ()) := s.onAnnouncements fun a =>
    ((), match subscribers.find? name with
      | some earlier => a.close earlier
      | none => a)
  (s, subscribers.insert name number)

/-- The subscriber with a name goes; whether there was one. -/
def unsubscribe (name : String) (subscribers : Subscribers) (s : Session) :
    Session × Subscribers × Bool :=
  match subscribers.find? name with
  | none => (s, subscribers, false)
  | some number =>
    let (s, ()) := s.onAnnouncements fun a => ((), a.close number)
    (s, subscribers.erase name, true)

/-- The requests that wait for the subscriber with a name. -/
def receive (name : String) (subscribers : Subscribers) (s : Session) :
    Session × Option (List PermissionsRequest) :=
  match subscribers.find? name with
  | none => (s, none)
  | some number =>
    let (s, requests) := s.onAnnouncements (·.drain number)
    (s, some requests)

end Session

end OriginGate
