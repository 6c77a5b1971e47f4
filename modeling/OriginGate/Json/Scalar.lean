import OriginGate.Hex
import OriginGate.Json.Document

/-!
# Strings and numbers in JSON text

* `Document.skipBlanks` : what follows the blanks between the parts of a text;
* `Document.readString?` : a string from after its opening quote, and what is left;
* `Document.readNumber?` : a number, and what is left.

A well-formed string or number need not stand for a value: half a surrogate pair and a number beyond
the doubles are unreadable.
-/

namespace OriginGate.Document

/-! ## Blanks -/

def isBlank (c : Char) : Bool := c = ' ' || c = '\t' || c = '\n' || c = '\r'

def skipBlanks (cs : List Char) : List Char := cs.dropWhile isBlank

/-! ## Strings -/

/-- One unit of a string: a character, or a sixteen-bit unit given by its number. -/
inductive StringUnit where
  | char (c : Char)
  | unit (n : Nat)
deriving DecidableEq

/-- The character that stands for itself after a backslash or by its letter. -/
def escape? : Char → Option Char
  | '"' => some '"'
  | '\\' => some '\\'
  | '/' => some '/'
  | 'b' => some '\x08'
  | 'f' => some '\x0c'
  | 'n' => some '\n'
  | 'r' => some '\r'
  | 't' => some '\t'
  | _ => none

/-- The units of a string after its opening quote, up to the closing one, and the rest. -/
def readUnits? : List Char → Option (List StringUnit × List Char)
  | '"' :: rest => some ([], rest)
  | '\\' :: 'u' :: a :: b :: c :: d :: rest =>
    match Hex.decode? [a, b, c, d], readUnits? rest with
    | some n, some (units, rest) => some (.unit n :: units, rest)
    | _, _ => none
  | '\\' :: c :: rest =>
    match escape? c, readUnits? rest with
    | some e, some (units, rest) => some (.char e :: units, rest)
    | _, _ => none
  | c :: rest =>
    if c.toNat < 0x20 then none
    else
      match readUnits? rest with
      | some (units, rest) => some (.char c :: units, rest)
      | none => none
  | [] => none

def isHighSurrogate (n : Nat) : Bool := 0xD800 ≤ n && n < 0xDC00
def isLowSurrogate (n : Nat) : Bool := 0xDC00 ≤ n && n < 0xE000

/-- The characters of units; a surrogate unit counts only in a pair, the high one first. -/
def decodeUnits? : List StringUnit → Option (List Char)
  | [] => some []
  | .char c :: units => (decodeUnits? units).map (c :: ·)
  | .unit n :: units =>
    if isLowSurrogate n then none
    else if isHighSurrogate n then
      match units with
      | .unit m :: units =>
        if isLowSurrogate m then
          let point := 0x10000 + (n - 0xD800) * 0x400 + (m - 0xDC00)
          (decodeUnits? units).map (Char.ofNat point :: ·)
        else none
      | _ => none
    else (decodeUnits? units).map (Char.ofNat n :: ·)

/-- The text of a string after its opening quote, `none` inside if it holds half a pair. -/
def readString? (cs : List Char) : Option (Option String × List Char) :=
  (readUnits? cs).map fun (units, rest) => ((decodeUnits? units).map String.ofList, rest)

/-! ## Numbers -/

def digitValue (c : Char) : Nat := c.toNat - 48

def digitsValue (cs : List Char) : Nat := cs.foldl (fun n c => 10 * n + digitValue c) 0

/-- The digits at the start, and the rest. -/
def spanDigits (cs : List Char) : List Char × List Char :=
  (cs.takeWhile Char.isDigit, cs.dropWhile Char.isDigit)

/-- The digits before the point: one or more, without a leading zero. -/
def readWhole? (cs : List Char) : Option (List Char × List Char) :=
  match spanDigits cs with
  | ([], _) => none
  | ('0' :: _ :: _, _) => none
  | found => some found

/-- The digits after a point, if there is one. -/
def readFraction? : List Char → Option (Option (List Char) × List Char)
  | '.' :: rest =>
    match spanDigits rest with
    | ([], _) => none
    | (digits, rest) => some (some digits, rest)
  | rest => some (none, rest)

/-- The digits of an exponent after its sign. -/
def readExponentDigits? (negative : Bool) (cs : List Char) : Option (Option Int × List Char) :=
  match spanDigits cs with
  | ([], _) => none
  | (digits, rest) =>
    let n : Int := digitsValue digits
    some (some (if negative then -n else n), rest)

/-- The exponent after `e` or `E`, if there is one. -/
def readExponent? : List Char → Option (Option Int × List Char)
  | c :: rest =>
    if c = 'e' || c = 'E' then
      match rest with
      | '-' :: rest => readExponentDigits? true rest
      | '+' :: rest => readExponentDigits? false rest
      | rest => readExponentDigits? false rest
    else some (none, c :: rest)
  | [] => some (none, [])

/--
Appends digits to a number as long as it fits 64 bits: the number, and the digits from the first
that would not fit.
-/
def appendDigits (n : Nat) : List Char → Nat × List Char
  | [] => (n, [])
  | c :: cs =>
    let next := 10 * n + digitValue c
    if next < Nat.pow 2 64 then appendDigits next cs else (n, c :: cs)

/-- The double of a decimal. -/
def ofDecimal (negative : Bool) (x : Json.Decimal) : Document :=
  match Json.Double.ofDecimal? negative x with
  | some d => double d
  | none => unreadable

/--
A number by its parts. Without fraction and exponent it is an integer when it fits 64 bits, signed
or unsigned; minus zero and all others are doubles. Of the digits of a double those count that fit
64 bits: a further digit before the point only raises the exponent, one after it is lost.
-/
def ofNumber (negative : Bool) (whole : List Char) (fraction : Option (List Char))
    (exponent : Option Int) : Document :=
  let (n, surplus) := appendDigits 0 whole
  match fraction, exponent, surplus with
  | none, none, [] =>
    if negative then
      if 0 < n ∧ n ≤ Nat.pow 2 63 then int (-(n : Int)) else ofDecimal true ⟨n, 0⟩
    else int n
  | _, _, _ =>
    let places := fraction.getD []
    let (m, lost) := appendDigits n places
    let shift : Int := (surplus.length : Int) + lost.length - places.length
    ofDecimal negative ⟨m, exponent.getD 0 + shift⟩

def readUnsigned? (negative : Bool) (cs : List Char) : Option (Document × List Char) := do
  let (whole, rest) ← readWhole? cs
  let (fraction, rest) ← readFraction? rest
  let (exponent, rest) ← readExponent? rest
  pure (ofNumber negative whole fraction exponent, rest)

def readNumber? : List Char → Option (Document × List Char)
  | '-' :: rest => readUnsigned? true rest
  | cs => readUnsigned? false cs

end OriginGate.Document
