import OriginGate.Permission.Basic

/-!
# Requests for permissions

* `RequestedPermissions` : methods with the caveats asked for or approved, one entry a method;
* `PermissionsRequest` : an origin's request that awaits a decision, by its `RequestId`;
* `ApprovedRequest` : the answer to a request; it need not name the methods that were asked for.
-/

namespace OriginGate

/-- The identifier of a request that awaits a decision. -/
structure RequestId where
  uuid : Uuid
deriving DecidableEq

/-- The caveats asked for, or approved, with one method. -/
structure RequestedPermission where
  caveats : List Caveat

/-- Methods with what is asked for each, in order of the names. -/
abbrev RequestedPermissions := SortedMap String RequestedPermission

/-- A request that awaits a decision. -/
structure PermissionsRequest where
  id : RequestId
  origin : Origin
  permissions : RequestedPermissions
  /-- What was recorded about the origin when it asked. -/
  metadata : Option SiteMetadata

/-- A decision in favour of a request. -/
structure ApprovedRequest where
  id : RequestId
  permissions : RequestedPermissions

namespace RequestId

def text (id : RequestId) : String := id.uuid.text

def json (id : RequestId) : Json := id.uuid.json

def ofDocument? (d : Document) : Option RequestId := (Uuid.ofDocument? d).map mk

end RequestId

namespace RequestedPermission

/-- An empty list of caveats is left out. -/
def json (p : RequestedPermission) : Json :=
  .obj (if p.caveats.isEmpty then [] else [("caveats", .arr (p.caveats.map Caveat.json))])

def shape : Shape := ⟨["caveats"], 0, false⟩

def ofDocument? (d : Document) : Option RequestedPermission := do
  let r ← shape.read? d
  let caveats ← r.orDefault? "caveats" [] (Document.list? Caveat.ofDocument?)
  pure ⟨caveats⟩

def outline : Outline := shape.outline [("caveats", .list Caveat.outline)]

end RequestedPermission

namespace RequestedPermissions

/-- A request for one method without caveats. -/
def single (method : String) : RequestedPermissions := SortedMap.empty.insert method ⟨[]⟩

def json (p : RequestedPermissions) : Json := .obj (p.entries.map fun e => (e.1, e.2.json))

def ofDocument? (d : Document) : Option RequestedPermissions :=
  d.table? RequestedPermission.ofDocument?

def outline : Outline := .table RequestedPermission.outline

end RequestedPermissions

namespace PermissionsRequest

def json (p : PermissionsRequest) : Json :=
  .obj (("id", p.id.json) :: ("origin", p.origin.json) ::
    ("permissions", RequestedPermissions.json p.permissions) ::
    match p.metadata with
    | some m => [("metadata", m.json)]
    | none => [])

def shape : Shape := ⟨["id", "origin", "permissions", "metadata"], 3, false⟩

def ofDocument? (d : Document) : Option PermissionsRequest := do
  let r ← shape.read? d
  let id ← r.required? "id" RequestId.ofDocument?
  let origin ← r.required? "origin" Origin.ofDocument?
  let permissions ← r.required? "permissions" RequestedPermissions.ofDocument?
  let metadata ← r.optional? "metadata" SiteMetadata.ofDocument?
  pure ⟨id, origin, permissions, metadata⟩

def outline : Outline := shape.outline [("permissions", RequestedPermissions.outline)]

end PermissionsRequest

namespace ApprovedRequest

def json (a : ApprovedRequest) : Json :=
  .obj [("id", a.id.json), ("permissions", RequestedPermissions.json a.permissions)]

def shape : Shape := ⟨["id", "permissions"], 2, false⟩

def ofDocument? (d : Document) : Option ApprovedRequest := do
  let r ← shape.read? d
  let id ← r.required? "id" RequestId.ofDocument?
  let permissions ← r.required? "permissions" RequestedPermissions.ofDocument?
  pure ⟨id, permissions⟩

def outline : Outline := shape.outline [("permissions", RequestedPermissions.outline)]

end ApprovedRequest

end OriginGate
