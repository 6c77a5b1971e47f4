import OriginGate.Toml.Value

/-!
# Reading TOML text

* `Toml.Statement` : a header, a header of a list of tables, or a pair of key and value;
* `Toml.effect?` : the effect of a statement on the tables so far;
* `Toml.read?` : the document of a text.
-/

namespace OriginGate.Toml

/-- One statement of a text. -/
inductive Statement where
  | header (path : List String)
  | listHeader (path : List String)
  | pair (path : List String) (value : Document)

/-- The root table and the path of the header in force. -/
abbrev Tables := Fields × List String

/-- The effect of a statement. -/
def effect? (statement : Statement) (tables : Tables) : Option Tables :=
  match statement with
  | .header path => do
    let key ← path.getLast?
    let fields ← within? (openTable? key) path.dropLast tables.1
    pure (fields, path)
  | .listHeader path => do
    let key ← path.getLast?
    let fields ← within? (openNext? key) path.dropLast tables.1
    pure (fields, path)
  | .pair path value => do
    let fields ← within? (addPair? value path) tables.2 tables.1
    pure (fields, tables.2)

/-- A statement from its first character. -/
def readStatement? (cs : List Char) : Option (Statement × List Char) :=
  match cs with
  | '[' :: '[' :: rest => do
    let (path, rest) ← readPath? rest
    match rest with
    | ']' :: ']' :: rest => pure (.listHeader path, rest)
    | _ => none
  | '[' :: rest => do
    let (path, rest) ← readPath? rest
    match rest with
    | ']' :: rest => pure (.header path, rest)
    | _ => none
  | cs => do
    let (path, rest) ← readPath? cs
    match rest with
    | '=' :: rest =>
      let (value, rest) ← readValue? (rest.length + 1) depthLimit (skipBlanks rest)
      pure (.pair path value, rest)
    | _ => none

/-- The statements of a text, each on lines of its own. -/
def readStatements? : (fuel : Nat) → List Char → Option (List Statement)
  | 0, _ => none
  | fuel + 1, cs => do
    match ← skipLines? cs.length cs with
    | [] => pure []
    | cs =>
      let (statement, rest) ← readStatement? cs
      match ← skipToLineEnd? rest with
      | [] => pure [statement]
      | rest =>
        let rest ← afterNewline? rest
        let statements ← readStatements? fuel rest
        pure (statement :: statements)

/-- What follows a byte order mark, if one stands first. -/
def skipMark : List Char → List Char
  | '\uFEFF' :: rest => rest
  | cs => cs

/-- The document that a text writes. -/
def read? (text : String) : Option Document := do
  let cs := skipMark text.toList
  let statements ← readStatements? (cs.length + 1) cs
  let tables ← statements.foldlM (fun tables s => effect? s tables) (([], []) : Tables)
  pure (.obj (fieldsDocument tables.1))

end OriginGate.Toml
