import OriginGate.Json.Basic

/-!
# JSON documents

* `Document` : JSON as it is written: fields in order and possibly repeated, and `unreadable` where the
  text is well formed but stands for no value (a number beyond the doubles, half a surrogate pair,
  nesting below the limit);
* `Document.readable` : every part stands for a value;
* `Document.value?` : the canonical value of a document;
* `Json.document` : the document of a value; `Document.setAside?` : the same of a document.

A reader of records looks at the parts that it needs. Parts that it skips may be unreadable, and
that a key is written twice is an error for a record but not for a free value.
-/

namespace OriginGate

/-- JSON as it is written. -/
inductive Document where
  | null
  | bool (value : Bool)
  | int (value : Int)
  | double (value : Json.Double)
  | str (value : String)
  | arr (items : List Document)
  | obj (fields : List (String × Document))
  | unreadable

namespace Document

instance : Inhabited Document := ⟨.null⟩

mutual

/-- The tree of a document as a value, fields in the order of the text. -/
def tree? : Document → Option Json
  | null => some .null
  | bool b => some (.bool b)
  | int n => some (.int n)
  | double d => some (.double d)
  | str s => some (.str s)
  | arr items => (treeItems? items).map .arr
  | obj fields => (treeFields? fields).map .obj
  | unreadable => none

def treeItems? : List Document → Option (List Json)
  | [] => some []
  | d :: ds => do
    let x ← tree? d
    let xs ← treeItems? ds
    pure (x :: xs)

def treeFields? : List (String × Document) → Option (List (String × Json))
  | [] => some []
  | (k, d) :: fs => do
    let x ← tree? d
    let xs ← treeFields? fs
    pure ((k, x) :: xs)

end

/-- The value of a document, if every part of it stands for one. -/
def value? (d : Document) : Option Json := d.tree?.map Json.normalize

/-- Whether every part of the document can be read. -/
def readable (d : Document) : Bool := d.tree?.isSome

/-- The fields of an object, with their values. -/
def valueFields? (fields : List (String × Document)) : Option (List (String × Json)) :=
  match value? (.obj fields) with
  | some (.obj values) => some values
  | _ => none

end Document

namespace Json

mutual

/-- The document of a value. -/
def document : Json → Document
  | null => .null
  | bool b => .bool b
  | int n => .int n
  | double d => .double d
  | str s => .str s
  | arr items => .arr (documentItems items)
  | obj fields => .obj (documentFields fields)

def documentItems : List Json → List Document
  | [] => []
  | x :: xs => document x :: documentItems xs

def documentFields : List (String × Json) → List (String × Document)
  | [] => []
  | (k, x) :: fs => (k, document x) :: documentFields fs

end

end Json

namespace Document

/-- The document as a value that was read whole and set aside. -/
def setAside? (d : Document) : Option Document := d.value?.map Json.document

end Document

end OriginGate
