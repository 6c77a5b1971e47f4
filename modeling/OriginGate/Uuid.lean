import OriginGate.Hex

/-!
# Universally unique identifiers

* `Uuid` : a number of 128 bits;
* `Uuid.text` : 32 lower-case hex digits in groups of 8, 4, 4, 4 and 12;
* `Uuid.read?` : the grouped form, alone, in braces or after `urn:uuid:`, or the digits without
  hyphens; letters may have either case.
-/

namespace OriginGate

/-- A universally unique identifier. -/
structure Uuid where
  number : BitVec 128
deriving DecidableEq, Inhabited

namespace Uuid

/-- The digits with hyphens before the 9th, 13th, 17th and 21st. -/
def group (digits : List Char) : List Char :=
  digits.take 8 ++ '-' :: ((digits.drop 8).take 4 ++ '-' :: ((digits.drop 12).take 4 ++
    '-' :: ((digits.drop 16).take 4 ++ '-' :: digits.drop 20)))

/-- The grouped form in lower case. -/
def text (u : Uuid) : String := String.ofList (group (Hex.encode 32 u.number.toNat))

/-- An identifier written as 32 hex digits. -/
def ofDigits? (digits : List Char) : Option Uuid :=
  if digits.length = 32 then (Hex.decode? digits).map fun n => ⟨BitVec.ofNat 128 n⟩ else none

/-- An identifier written in groups. -/
def ofGroups? (cs : List Char) : Option Uuid :=
  let digits := cs.filter (· ≠ '-')
  if cs = group digits then ofDigits? digits else none

/-- The characters between braces. -/
def inBraces? : List Char → Option (List Char)
  | '\x7b' :: rest => if rest.getLast? = some '\x7d' then some rest.dropLast else none
  | _ => none

/-- The characters after `urn:uuid:` in any case. -/
def afterUrn? (cs : List Char) : Option (List Char) :=
  if (cs.take 9).map Char.toLower = "urn:uuid:".toList then some (cs.drop 9) else none

/-- The identifier that a text writes in one of the accepted forms. -/
def read? (text : String) : Option Uuid :=
  let cs := text.toList
  match ofDigits? cs, ofGroups? cs with
  | some u, _ => some u
  | none, some u => some u
  | none, none =>
    match inBraces? cs with
    | some inner => ofGroups? inner
    | none => (afterUrn? cs).bind ofGroups?

end Uuid

end OriginGate
