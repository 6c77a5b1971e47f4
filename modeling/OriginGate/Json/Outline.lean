import OriginGate.Json.Record

/-!
# Outlines of documents

* `Outline` : what is expected of a text, as far as the reader has to know it: where byte arrays of a
  fixed count stand, which may hold one item more;
* `Outline.head`, `Outline.tail` : of the next item of an array, and of the items after it;
* `Outline.field`, `Outline.after` : of a field of an object, and of the fields after it;
* `Shape.outline` : of a record.

An outline does not restrict what is read; whether the document is the expected thing is decided when
it is decoded.
-/

namespace OriginGate

/-- What is expected of a text. -/
inductive Outline where
  /-- Any value. -/
  | any
  /-- An array in which so many bytes are to come. -/
  | bytes (count : Nat)
  /-- An array of items that are alike. -/
  | list (item : Outline)
  /-- An object with fields that are alike. -/
  | table (entry : Outline)
  /-- A record, by name or in this order. -/
  | record (fields : List (String × Outline))
  /-- A record of a tag and of a content that depends on the tag. -/
  | tagged (tag content : String) (variants : List (String × Outline))

namespace Outline

/-- The fields of a tagged record after its tag. -/
def ofVariant (content : String) (variants : List (String × Outline)) (name : Option String) :
    Outline :=
  match name.bind fun name => variants.lookup name with
  | some o => record [(content, o)]
  | none => any

/-! ## Arrays -/

/-- The outline of the next item. -/
def head : Outline → Outline
  | list item => item
  | record ((_, o) :: _) => o
  | _ => any

/-- The outline of the array after an item. -/
def tail (item : Document) : Outline → Outline
  | bytes (n + 1) => if item.byte?.isSome then bytes n else any
  | list o => list o
  | record (_ :: fields) => record fields
  | tagged _ content variants => ofVariant content variants item.text?
  | _ => any

/-- Whether all bytes of an array have come. -/
def isFull : Outline → Bool
  | bytes 0 => true
  | _ => false

/-! ## Objects -/

/-- The outline of the field of a key. -/
def field (key : Option String) : Outline → Outline
  | table entry => entry
  | record fields => (key.bind fun key => fields.lookup key).getD any
  | _ => any

/-- The outline of the object after a field. -/
def after (key : Option String) (d : Document) : Outline → Outline
  | tagged tag content variants =>
    if key = some tag then ofVariant content variants d.name? else tagged tag content variants
  | o => o

end Outline

/-- The outline of a record, given those of some of its fields. -/
def Shape.outline (shape : Shape) (fields : List (String × Outline)) : Outline :=
  .record (shape.names.map fun name => (name, (fields.lookup name).getD .any))

end OriginGate
