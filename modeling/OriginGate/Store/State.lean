import OriginGate.Permission.Basic

/-!
# The granted state

* `State` : the permissions of every origin and what is recorded about the sites;
* `State.permissions`, `State.permission?`, `State.origins`, `State.siteMetadata?` : queries;
* `State.setPermissions`, `State.grant`, `State.revoke`, `State.clear`, `State.setMetadata` :
  changes.
-/

namespace OriginGate

/-- The permissions of one origin, in the order in which they were granted. -/
structure Domain where
  permissions : List Permission

/-- All that is granted and recorded. -/
structure State where
  domains : SortedMap Origin Domain
  metadata : SortedMap Origin SiteMetadata

instance : BEq Domain := ⟨fun d e => d.permissions == e.permissions⟩

instance : BEq State := ⟨fun s t => s.domains == t.domains && s.metadata == t.metadata⟩

namespace State

/-- Nothing granted and nothing recorded. -/
def empty : State := ⟨.empty, .empty⟩

/-! ## Queries -/

/-- The permissions of an origin, in the order in which they were granted. -/
def permissions (o : Origin) (s : State) : List Permission :=
  match s.domains.find? o with
  | some d => d.permissions
  | none => []

/-- The permission of an origin for a method. -/
def permission? (o : Origin) (method : String) (s : State) : Option Permission :=
  (s.permissions o).find? (·.capability = method)

/-- The origins that have an entry, in order. -/
def origins (s : State) : List Origin := s.domains.keys

def siteMetadata? (o : Origin) (s : State) : Option SiteMetadata := s.metadata.find? o

/-! ## Changes -/

/-- Gives an origin exactly these permissions; with none its entry goes. -/
def setPermissions (o : Origin) (ps : List Permission) (s : State) : State :=
  { s with domains := if ps.isEmpty then s.domains.erase o else s.domains.insert o ⟨ps⟩ }

/-- Whether one of some permissions is for the method of `p`. -/
def regranted (ps : List Permission) (p : Permission) : Bool :=
  ps.any (·.capability = p.capability)

/-- Adds permissions at the end, in place of those for the same methods. -/
def grant (o : Origin) (ps : List Permission) (s : State) : State :=
  { s with
    domains := s.domains.insert o ⟨(s.permissions o).filter (!regranted ps ·) ++ ps⟩ }

/-- The permissions that a revocation of methods takes from an origin. -/
def revoked (o : Origin) (methods : List String) (s : State) : List Permission :=
  (s.permissions o).filter (·.capability ∈ methods)

/-- Takes the permissions for some methods; an origin that keeps none loses its entry. -/
def revoke (o : Origin) (methods : List String) (s : State) : State :=
  s.setPermissions o ((s.permissions o).filter (·.capability ∉ methods))

/-- Takes every permission of every origin. -/
def clear (s : State) : State := { s with domains := .empty }

def setMetadata (o : Origin) (m : SiteMetadata) (s : State) : State :=
  { s with metadata := s.metadata.insert o m }

end State

/-! ## JSON -/

/-- A map by origins as an object. -/
def SortedMap.jsonByOrigin {α : Type} (toJson : α → Json) (m : SortedMap Origin α) : Json :=
  .obj (m.entries.map fun e => (e.1.name, toJson e.2))

/-- An object as a map by origins. -/
def Document.byOrigin? {α : Type} (read? : Document → Option α) (d : Document) :
    Option (SortedMap Origin α) :=
  (d.entries? read?).map fun entries => SortedMap.ofList (entries.map fun e => (⟨e.1⟩, e.2))

namespace Domain

def json (d : Domain) : Json := .obj [("permissions", .arr (d.permissions.map Permission.json))]

def shape : Shape := ⟨["permissions"], 1, false⟩

def ofDocument? (d : Document) : Option Domain := do
  let r ← shape.read? d
  let permissions ← r.required? "permissions" (Document.list? Permission.ofDocument?)
  pure ⟨permissions⟩

def outline : Outline := shape.outline [("permissions", .list Permission.outline)]

end Domain

namespace State

def json (s : State) : Json :=
  .obj [("domains", s.domains.jsonByOrigin Domain.json),
    ("domainMetadata", s.metadata.jsonByOrigin SiteMetadata.json)]

def shape : Shape := ⟨["domains", "domainMetadata"], 0, false⟩

def ofDocument? (d : Document) : Option State := do
  let r ← shape.read? d
  let domains ← r.orDefault? "domains" .empty (Document.byOrigin? Domain.ofDocument?)
  let metadata ← r.orDefault? "domainMetadata" .empty (Document.byOrigin? SiteMetadata.ofDocument?)
  pure ⟨domains, metadata⟩

def outline : Outline := shape.outline [("domains", .table Domain.outline)]

end State

end OriginGate
