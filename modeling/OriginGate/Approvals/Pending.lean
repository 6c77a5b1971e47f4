import OriginGate.Approvals.Ticket

/-!
# Requests that await a decision

* `PendingRequest` : a request with the ticket of its caller;
* `Pending` : the requests by id, and the id of the request of each origin;
* `Pending.find?`, `idFor?`, `requests`, `size` : queries;
* `Pending.add`, `Pending.remove?` : changes of both at once.
-/

namespace OriginGate

/-- A request with the ticket of the caller who waits for its decision. -/
structure PendingRequest where
  request : PermissionsRequest
  ticket : Ticket

namespace PendingRequest

def id (p : PendingRequest) : RequestId := p.request.id

def origin (p : PendingRequest) : Origin := p.request.origin

end PendingRequest

/-- The requests in order of creation, and the id of the one request that an origin may have. -/
structure Pending where
  entries : List PendingRequest
  byOrigin : SortedMap Origin RequestId

namespace Pending

def empty : Pending := ⟨[], .empty⟩

/-! ## Queries -/

def lookUp? (id : RequestId) (p : Pending) : Option PendingRequest :=
  p.entries.find? (·.id = id)

/-- The request with an id. -/
def find? (id : RequestId) (p : Pending) : Option PermissionsRequest :=
  (p.lookUp? id).map (·.request)

/-- The id of the request of an origin. -/
def idFor? (o : Origin) (p : Pending) : Option RequestId := p.byOrigin.find? o

def requests (p : Pending) : List PermissionsRequest := p.entries.map (·.request)

def ids (p : Pending) : List RequestId := p.entries.map (·.id)

def size (p : Pending) : Nat := p.entries.length

/-! ## Changes -/

/-- Adds a request under its id and its origin. -/
def add (e : PendingRequest) (p : Pending) : Pending :=
  ⟨p.entries.filter (·.id ≠ e.id) ++ [e], p.byOrigin.insert e.origin e.id⟩

/-- Removes the request with an id; this is the only way to get hold of its ticket. -/
def remove? (id : RequestId) (p : Pending) : Option (PendingRequest × Pending) :=
  match p.lookUp? id with
  | some e => some (e, ⟨p.entries.filter (·.id ≠ id), p.byOrigin.erase e.origin⟩)
  | none => none

end Pending

end OriginGate
