import OriginGate.Json.Outline
import OriginGate.Json.Surplus

/-!
# Reading JSON text

* `Document.read?` : the document of a text that is one JSON value with optional blanks around
  it; `none` if the text is malformed anywhere. The text is read along an outline of what is expected;
* `Json.read?` : the value of a text of which nothing is expected;
* `Document.nestingLimit` : arrays and objects below this many levels are unreadable.

Each production takes the characters from its start and gives what it read and what is left. A
literal, number, key or bracket takes at least one character, so the length of the text is fuel
enough for the productions that call each other.
-/

namespace OriginGate.Document

/-- How many arrays and objects may enclose a readable part, itself included. -/
def nestingLimit : Nat := 127

/-- What a key names: the field, or an unreadable one when the key itself is unreadable. -/
abbrev Member := Option String × Document

/-- An array, unless it stands below the nesting limit. -/
def ofItems (room : Nat) (items : List Document) : Document :=
  if room = 0 then unreadable else arr items

/-- An object, unless it stands below the nesting limit or one of its keys is unreadable. -/
def ofMembers (room : Nat) (members : List Member) : Document :=
  match room, members.mapM (fun m => m.1.map (·, m.2)) with
  | _ + 1, some fields => obj fields
  | _, _ => unreadable

mutual

/-- A value from its first character, with `room` levels of nesting left. -/
def readValue? : (fuel room : Nat) → Outline → List Char → Option (Document × List Char)
  | 0, _, _, _ => none
  | fuel + 1, room, o, cs =>
    match cs with
    | 'n' :: 'u' :: 'l' :: 'l' :: rest => some (null, rest)
    | 't' :: 'r' :: 'u' :: 'e' :: rest => some (bool true, rest)
    | 'f' :: 'a' :: 'l' :: 's' :: 'e' :: rest => some (bool false, rest)
    | '"' :: rest => do
      let (text, rest) ← readString? rest
      pure (text.elim unreadable str, rest)
    | '[' :: rest =>
      match skipBlanks rest with
      | ']' :: rest => some (ofItems room [], rest)
      | rest => do
        let (items, rest) ← readItems? fuel (room - 1) o rest
        pure (ofItems room items, rest)
    | '\x7b' :: rest =>
      match skipBlanks rest with
      | '\x7d' :: rest => some (ofMembers room [], rest)
      | rest => do
        let (members, rest) ← readMembers? fuel (room - 1) o rest
        pure (ofMembers room members, rest)
    | cs => readNumber? cs

/--
The items of an array from the first character of one, up to the closing bracket. What follows the
last byte of a byte array is no item.
-/
def readItems? : (fuel room : Nat) → Outline → List Char → Option (List Document × List Char)
  | 0, _, _, _ => none
  | fuel + 1, room, o, cs => do
    let (item, rest) ← readValue? fuel room o.head cs
    let o := o.tail item
    match skipBlanks rest with
    | ']' :: rest => pure ([item], rest)
    | ',' :: rest =>
      if o.isFull then
        let rest ← Surplus.close? rest
        pure ([item], rest)
      else
        let (items, rest) ← readItems? fuel room o (skipBlanks rest)
        pure (item :: items, rest)
    | _ => none

/-- The members of an object from the quote of a key, up to the closing brace. -/
def readMembers? : (fuel room : Nat) → Outline → List Char → Option (List Member × List Char)
  | 0, _, _, _ => none
  | fuel + 1, room, o, cs =>
    match cs with
    | '"' :: rest => do
      let (key, rest) ← readString? rest
      match skipBlanks rest with
      | ':' :: rest =>
        let (value, rest) ← readValue? fuel room (o.field key) (skipBlanks rest)
        match skipBlanks rest with
        | '\x7d' :: rest => pure ([(key, value)], rest)
        | ',' :: rest =>
          let (members, rest) ← readMembers? fuel room (o.after key value) (skipBlanks rest)
          pure ((key, value) :: members, rest)
        | _ => none
      | _ => none
    | _ => none

end

/-- The document of a list of characters that is one value with blanks around it. -/
def readChars? (o : Outline) (cs : List Char) : Option Document :=
  match readValue? (cs.length + 1) nestingLimit o (skipBlanks cs) with
  | some (document, rest) => if (skipBlanks rest).isEmpty then some document else none
  | none => none

/-- The document that a text writes. -/
def read? (o : Outline) (text : String) : Option Document := readChars? o text.toList

end OriginGate.Document

namespace OriginGate.Json

/-- The value that a text writes. -/
def read? (text : String) : Option Json := (Document.read? .any text).bind Document.value?

end OriginGate.Json
