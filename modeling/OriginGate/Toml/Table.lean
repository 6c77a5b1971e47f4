import OriginGate.Json.Document

/-!
# The tables of a TOML text

* `Toml.Node` : what a key of a table holds while the text is read;
* `Toml.addPair?` : stores a value under a key with dots;
* `Toml.openTable?`, `Toml.openNext?` : open the table of a header, or one more of a list;
* `Toml.within?` : a change to the table under a path;
* `Toml.fieldsDocument` : the document of a table.

A table may be opened by one header only. Tables that came about on the way to another one may
still be opened; those that a key with dots made may not, but may be extended by such keys. On its
way such a key may pass tables that were passed before, and the last table of a list.
-/

namespace OriginGate.Toml

/-- How a table came about. -/
inductive Opening where
  /-- On the way to a table in a header. -/
  | passed
  /-- By its own header, or as the table of the whole text. -/
  | opened
  /-- By a key with dots. -/
  | dotted
deriving DecidableEq

/-- What a key holds. -/
inductive Node where
  | value (d : Document)
  | table (opening : Opening) (fields : List (String × Node))
  /-- The tables of a list, the last one first. -/
  | tables (items : List (List (String × Node)))

/-- The fields of a table. -/
abbrev Fields := List (String × Node)

/-! ## Changing tables -/

def lookup? (key : String) (fields : Fields) : Option Node :=
  (fields.find? (·.1 = key)).map (·.2)

/-- Stores a node under a key, in place of one that is there. -/
def store (key : String) (node : Node) (fields : Fields) : Fields :=
  if fields.any (·.1 = key) then fields.map fun f => if f.1 = key then (key, node) else f
  else fields ++ [(key, node)]

/-- Changes the table under a path of headers, the last one of a list of tables. -/
def within? (change? : Fields → Option Fields) : List String → Fields → Option Fields
  | [], fields => change? fields
  | key :: path, fields =>
    match lookup? key fields with
    | none => (within? change? path []).map fun inner => store key (.table .passed inner) fields
    | some (.table opening inner) =>
      (within? change? path inner).map fun inner => store key (.table opening inner) fields
    | some (.tables (last :: before)) =>
      (within? change? path last).map fun last => store key (.tables (last :: before)) fields
    | some _ => none

/-- Opens the table of a header. -/
def openTable? (key : String) (fields : Fields) : Option Fields :=
  match lookup? key fields with
  | none => some (store key (.table .opened []) fields)
  | some (.table .passed inner) => some (store key (.table .opened inner) fields)
  | some _ => none

/-- Opens one more table of a list. -/
def openNext? (key : String) (fields : Fields) : Option Fields :=
  match lookup? key fields with
  | none => some (store key (.tables [[]]) fields)
  | some (.tables items) => some (store key (.tables ([] :: items)) fields)
  | some _ => none

/-- Stores a value under a key, given by its parts; nothing is stored twice. -/
def addPair? (value : Document) : List String → Fields → Option Fields
  | [], _ => none
  | [key], fields =>
    match lookup? key fields with
    | none => some (store key (.value value) fields)
    | some _ => none
  | key :: path, fields =>
    match lookup? key fields with
    | none => (addPair? value path []).map fun inner => store key (.table .dotted inner) fields
    | some (.table .dotted inner) =>
      (addPair? value path inner).map fun inner => store key (.table .dotted inner) fields
    | some (.table .passed inner) =>
      -- A table that was passed may be walked through, but its own fields come by its header.
      if path.length < 2 then none
      else (addPair? value path inner).map fun inner => store key (.table .passed inner) fields
    | some (.tables (last :: before)) =>
      -- So may the last table of a list.
      if path.length < 2 then none
      else (addPair? value path last).map fun last => store key (.tables (last :: before)) fields
    | some _ => none

mutual

/-- The document of a node. -/
def Node.document : Node → Document
  | .value d => d
  | .table _ fields => .obj (fieldsDocument fields)
  | .tables items => .arr (itemsDocument items).reverse

def fieldsDocument : List (String × Node) → List (String × Document)
  | [] => []
  | (key, node) :: rest => (key, node.document) :: fieldsDocument rest

def itemsDocument : List (List (String × Node)) → List Document
  | [] => []
  | fields :: rest => .obj (fieldsDocument fields) :: itemsDocument rest

end

end OriginGate.Toml
