import OriginGate.Json.Document

/-!
# Records in JSON

* `Shape` : the field names of a record in order, how many of them its positional form needs at
  least, and whether other names are refused;
* `Shape.read?` : the named fields of a document that is a record, written as an object or as the
  array of its fields;
* `Record.required?`, `Record.optional?`, `Record.orDefault?` : one field;
* `Document.text?`, `int64?`, `uint64?`, `byte?`, `list?`, `entries?`, `table?`, `name?` : contents of other kinds.
-/

namespace OriginGate

/-- The named parts of a record. -/
abbrev Record := List (String × Document)

namespace Record

def get? (name : String) (r : Record) : Option Document :=
  (r.find? (·.1 = name)).map (·.2)

variable {α : Type}

/-- A field that has to be there. -/
def required? (name : String) (read? : Document → Option α) (r : Record) : Option α :=
  match r.get? name with
  | some d => read? d
  | none => none

/-- A field that may be absent or null. -/
def optional? (name : String) (read? : Document → Option α) (r : Record) : Option (Option α) :=
  match r.get? name with
  | none => some none
  | some .null => some none
  | some d => (read? d).map some

/-- A field that may be absent, but not null. -/
def orDefault? (name : String) (default : α) (read? : Document → Option α) (r : Record) :
    Option α :=
  match r.get? name with
  | none => some default
  | some d => read? d

end Record

/-- The form of a record in JSON. -/
structure Shape where
  /-- The names of the fields, in the order of the positional form. -/
  names : List String
  /-- The least length of the positional form. -/
  fewest : Nat
  /-- Whether an object may have no other fields. -/
  closed : Bool

namespace Shape

/-- The fields of an object that the shape names: each at most once, and all if it is closed. -/
def readFields? (shape : Shape) (fields : List (String × Document)) : Option Record :=
  let named := fields.filter (·.1 ∈ shape.names)
  if (named.map (·.1)).Nodup ∧ (shape.closed → named.length = fields.length) then some named
  else none

/-- The fields of a record, given by name or by position. -/
def read? (shape : Shape) : Document → Option Record
  | .obj fields => shape.readFields? fields
  | .arr items =>
    if shape.fewest ≤ items.length ∧ items.length ≤ shape.names.length then
      some (shape.names.zip items)
    else none
  | _ => none

end Shape

namespace Document

variable {α : Type}

def text? : Document → Option String
  | str s => some s
  | _ => none

def bool? : Document → Option Bool
  | bool b => some b
  | _ => none

/-- An integer that fits 64 bits with a sign. -/
def int64? : Document → Option Int64
  | int n => if -Int.pow 2 63 ≤ n ∧ n < Int.pow 2 63 then some (Int64.ofInt n) else none
  | _ => none

/-- An integer that fits 64 bits without a sign. -/
def uint64? : Document → Option UInt64
  | int n => if 0 ≤ n ∧ n < Int.pow 2 64 then some (UInt64.ofNat n.toNat) else none
  | _ => none

/-- An integer that fits eight bits without a sign. -/
def byte? : Document → Option Nat
  | int n => if 0 ≤ n ∧ n < 256 then some n.toNat else none
  | _ => none

/-- An array of things that are read alike. -/
def list? (read? : Document → Option α) : Document → Option (List α)
  | arr items => items.mapM read?
  | _ => none

/-- The fields of an object, all read alike. -/
def entries? (read? : Document → Option α) : Document → Option (List (String × α))
  | obj fields => fields.mapM fun f => (read? f.2).map (f.1, ·)
  | _ => none

/-- An object as a map; of two fields with one key the later stays, but both have to be read. -/
def table? (read? : Document → Option α) (d : Document) : Option (SortedMap String α) :=
  (d.entries? read?).map SortedMap.ofList

/-- One of a set of names, as a string or as the only key of an object with a null in it. -/
def name? : Document → Option String
  | str s => some s
  | obj [(key, null)] => some key
  | _ => none

end Document

end OriginGate
