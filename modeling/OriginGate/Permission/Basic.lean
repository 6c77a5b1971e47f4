import OriginGate.Caveat.Basic
import OriginGate.Site
import OriginGate.Uuid

/-!
# Permissions

* `Permission` : that an origin may call a method, with caveats;
* `Permission.caveat?` : its first caveat of a kind.

A permission is never changed: granting a method again replaces it.
-/

namespace OriginGate

/-- A grant of one restricted method to an origin. -/
structure Permission where
  id : Uuid
  /-- The method. -/
  capability : String
  /-- Who holds the permission. -/
  invoker : Origin
  /-- What restricts the calls, applied in this order. -/
  caveats : List Caveat
  /-- When it was granted, in milliseconds. -/
  date : Int64

namespace Uuid

def json (u : Uuid) : Json := .str u.text

def ofDocument? (d : Document) : Option Uuid := d.text?.bind read?

end Uuid

namespace Permission

/-- Equal in all fields, free values compared as values. -/
instance : BEq Permission := ⟨fun p q =>
  p.id == q.id && p.capability == q.capability && p.invoker == q.invoker &&
    p.caveats == q.caveats && p.date == q.date⟩

/-- The first caveat of a kind. -/
def caveat? (kind : Caveat.Kind) (p : Permission) : Option Caveat :=
  p.caveats.find? (·.kind = kind)

def json (p : Permission) : Json :=
  .obj [("id", p.id.json), ("parentCapability", .str p.capability), ("invoker", p.invoker.json),
    ("caveats", .arr (p.caveats.map Caveat.json)), ("date", .int p.date.toInt)]

def shape : Shape := ⟨["id", "parentCapability", "invoker", "caveats", "date"], 5, false⟩

def ofDocument? (d : Document) : Option Permission := do
  let r ← shape.read? d
  let id ← r.required? "id" Uuid.ofDocument?
  let capability ← r.required? "parentCapability" Document.text?
  let invoker ← r.required? "invoker" Origin.ofDocument?
  let caveats ← r.orDefault? "caveats" [] (Document.list? Caveat.ofDocument?)
  let date ← r.required? "date" Document.int64?
  pure ⟨id, capability, invoker, caveats, date⟩

def outline : Outline := shape.outline [("caveats", .list Caveat.outline)]

end Permission

end OriginGate
