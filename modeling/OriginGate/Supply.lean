import OriginGate.Permission.Request

/-!
# Fresh identifiers and times

* `Supply` : the identifiers and times that are drawn one after the other;
* `Supply.drawRequestId` : the id of a new request;
* `Supply.drawPermission`, `Supply.drawPermissions` : new permissions, granted now;
* `Grant`, `Supply.drawGrants` : permissions of which some are given.
-/

namespace OriginGate

/-- The identifiers and times to come. -/
structure Supply where
  id : Nat → Uuid
  time : Nat → Int64
  /-- How many draws there were. -/
  drawn : Nat

namespace Supply

def drawRequestId (s : Supply) : RequestId × Supply :=
  (⟨s.id s.drawn⟩, { s with drawn := s.drawn + 1 })

/-- A permission for a method, granted now. -/
def drawPermission (invoker : Origin) (capability : String) (caveats : List Caveat) (s : Supply) :
    Permission × Supply :=
  (⟨s.id s.drawn, capability, invoker, caveats, s.time s.drawn⟩, { s with drawn := s.drawn + 1 })

/-- Permissions for several methods, drawn in order. -/
def drawPermissions (invoker : Origin) :
    List (String × List Caveat) → Supply → List Permission × Supply
  | [], s => ([], s)
  | (capability, caveats) :: rest, s =>
    let (p, s) := s.drawPermission invoker capability caveats
    let (ps, s) := drawPermissions invoker rest s
    (p :: ps, s)

end Supply

/-- A permission as it is, or one for a method to be granted now. -/
inductive Grant where
  | given (p : Permission)
  | fresh (capability : String) (caveats : List Caveat)

/-- The permissions of some grants to an origin. -/
def Supply.drawGrants (invoker : Origin) : List Grant → Supply → List Permission × Supply
  | [], s => ([], s)
  | .given p :: rest, s =>
    let (ps, s) := drawGrants invoker rest s
    (p :: ps, s)
  | .fresh capability caveats :: rest, s =>
    let (p, s) := s.drawPermission invoker capability caveats
    let (ps, s) := drawGrants invoker rest s
    (p :: ps, s)

end OriginGate
