import OriginGate.Json.Record

/-!
# Sites

* `Origin` : the web context that a call comes from;
* `SiteMetadata` : what is recorded about it; `SiteReport` : what it says about itself;
* `UsageEvent` : a use of the wallet's page interface that it reports.
-/

namespace OriginGate

/-- The web context of a call: a site or a connected application. -/
structure Origin where
  name : String
deriving DecidableEq, Inhabited

/-- What is recorded about a site. It implies no permission. -/
structure SiteMetadata where
  name : String
  /-- The id of the calling browser extension, if the site is one. -/
  extensionId : Option String
deriving DecidableEq

/-- What a site reports about itself. -/
structure SiteReport where
  name : Option String
deriving DecidableEq

/-- A use of the page interface. -/
structure UsageEvent where
  action : String
  name : String
deriving DecidableEq

namespace Origin

/-- Origins are ordered by the code points of their names. -/
instance : Ord Origin := ⟨fun a b => compare a.name b.name⟩

/-- The order of the names. -/
theorem compare_eq (a b : Origin) : compare a b = compare a.name b.name := rfl

instance : Std.TransOrd Origin where
  eq_swap {a b} := by
    rw [compare_eq, compare_eq]; exact Std.OrientedCmp.eq_swap
  isLE_trans {a b c} := by
    rw [compare_eq, compare_eq, compare_eq]; exact Std.TransCmp.isLE_trans

instance : Std.LawfulEqOrd Origin where
  compare_self {a} := by
    rw [compare_eq]; exact Std.ReflCmp.compare_self
  eq_of_compare {a b} h := by
    rw [compare_eq] at h
    have := Std.LawfulEqCmp.eq_of_compare h
    cases a; cases b; simp_all

def json (o : Origin) : Json := .str o.name

def ofDocument? (d : Document) : Option Origin := d.text?.map mk

end Origin

namespace SiteMetadata

def json (m : SiteMetadata) : Json :=
  .obj (("name", .str m.name) ::
    match m.extensionId with
    | some id => [("extensionId", .str id)]
    | none => [])

def shape : Shape := ⟨["name", "extensionId"], 1, false⟩

def ofDocument? (d : Document) : Option SiteMetadata := do
  let r ← shape.read? d
  let name ← r.required? "name" Document.text?
  let extensionId ← r.optional? "extensionId" Document.text?
  pure ⟨name, extensionId⟩

end SiteMetadata

namespace SiteReport

def json (p : SiteReport) : Json := .obj [("name", Json.ofOption (p.name.map .str))]

def shape : Shape := ⟨["name"], 0, false⟩

def ofDocument? (d : Document) : Option SiteReport := do
  let r ← shape.read? d
  let name ← r.optional? "name" Document.text?
  pure ⟨name⟩

end SiteReport

namespace UsageEvent

def json (e : UsageEvent) : Json := .obj [("action", .str e.action), ("name", .str e.name)]

def shape : Shape := ⟨["action", "name"], 2, false⟩

def ofDocument? (d : Document) : Option UsageEvent := do
  let r ← shape.read? d
  let action ← r.required? "action" Document.text?
  let name ← r.required? "name" Document.text?
  pure ⟨action, name⟩

end UsageEvent

end OriginGate
