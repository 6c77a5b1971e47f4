import OriginGate.Permission.Request

/-!
# Announcing requests to the user

* `Subscription` : the requests that wait for one subscriber;
* `Announcements` : all subscriptions by number, and every request that was announced;
* `announce` : a request reaches all who still listen, and strikes out those who do not;
* `subscribe`, `close`, `drain`, `listeners`.
-/

namespace OriginGate

/-- What one subscriber has not read yet. -/
structure Subscription where
  inbox : List PermissionsRequest
  /-- Whether the subscriber is still there. -/
  alive : Bool
  /-- Whether requests are still sent to the subscriber. -/
  listed : Bool

/-- The subscriptions by number, and the requests that were announced, in order. -/
structure Announcements where
  announced : List PermissionsRequest
  subscriptions : List Subscription

namespace Subscription

/-- Receives a request, or is struck out when the subscriber is gone. -/
def receive (r : PermissionsRequest) (s : Subscription) : Subscription :=
  if s.listed then
    if s.alive then { s with inbox := s.inbox ++ [r] } else { s with listed := false }
  else s

end Subscription

namespace Announcements

def empty : Announcements := ⟨[], []⟩

/-- A new subscription and its number; it receives what is announced from now on. -/
def subscribe (a : Announcements) : Nat × Announcements :=
  (a.subscriptions.length, { a with subscriptions := a.subscriptions ++ [⟨[], true, true⟩] })

/-- The subscriber goes. -/
def close (n : Nat) (a : Announcements) : Announcements :=
  { a with subscriptions := a.subscriptions.modify n fun s => { s with alive := false } }

/-- The requests that wait for a subscriber, who has read them then. -/
def drain (n : Nat) (a : Announcements) : List PermissionsRequest × Announcements :=
  ((a.subscriptions[n]?).elim [] (·.inbox),
    { a with subscriptions := a.subscriptions.modify n fun s => { s with inbox := [] } })

/-- How many subscribers are listed; those who went are struck out by the next announcement. -/
def listeners (a : Announcements) : Nat := (a.subscriptions.filter (·.listed)).length

def announce (r : PermissionsRequest) (a : Announcements) : Announcements :=
  ⟨a.announced ++ [r], a.subscriptions.map (·.receive r)⟩

end Announcements

end OriginGate
