import OriginGate.Permission.Error

/-!
# Tickets

* `Decision` : what a caller who asked for permissions is told;
* `Ticket` : the claim of one caller on one decision; `Ticket.Status` : how it stands;
* `Tickets` : all tickets that were issued, with `issue`, `deliver`, `abandon` and `lose`.

A ticket is settled once. From then on it stays as it is.
-/

namespace OriginGate

/-- The permissions that were granted, or why there are none. -/
abbrev Decision := Except PermissionError (List Permission)

/-- The number of a ticket. -/
abbrev Ticket := Nat

/-- How a ticket stands. -/
inductive Ticket.Status where
  /-- The caller waits, and somebody can decide. -/
  | unsettled
  | decided (d : Decision)
  /-- The caller waits no longer. -/
  | abandoned
  /-- Nobody is left who could decide. -/
  | lost

/-- The tickets that were issued, by number. -/
structure Tickets where
  statuses : List Ticket.Status

namespace Tickets

def empty : Tickets := ⟨[]⟩

/-- How a ticket stands; one that was never issued is lost. -/
def status (t : Ticket) (ts : Tickets) : Ticket.Status := (ts.statuses[t]?).getD .lost

/-- A new ticket. -/
def issue (ts : Tickets) : Ticket × Tickets := (ts.statuses.length, ⟨ts.statuses ++ [.unsettled]⟩)

/-- Settles a ticket that is not settled yet. -/
def settle (t : Ticket) (status : Ticket.Status) (ts : Tickets) : Tickets :=
  match ts.status t with
  | .unsettled => ⟨ts.statuses.set t status⟩
  | _ => ts

/-- Hands a decision to the caller, and tells whether the caller still waited. -/
def deliver (t : Ticket) (d : Decision) (ts : Tickets) : Tickets × Bool :=
  match ts.status t with
  | .unsettled => (ts.settle t (.decided d), true)
  | _ => (ts, false)

/-- The caller stops waiting. -/
def abandon (t : Ticket) (ts : Tickets) : Tickets := ts.settle t .abandoned

/-- Whoever could decide is gone. -/
def lose (t : Ticket) (ts : Tickets) : Tickets := ts.settle t .lost

end Tickets

end OriginGate
