import OriginGate.Json.Scalar

/-!
# The item after the last byte

An array of bytes whose count is fixed may hold one item more, as long as no byte can be read there.
The array goes on where the attempt to read one is given up, and has to close at that place: after
`1.` or `"\ud800"` it does, within `1e99999999999` it does not.

* `Surplus.afterNoByte?` : what is left where the attempt is given up, `none` if it succeeds;
* `Surplus.close?` : what follows the bracket that closes the array.

Where the attempt cannot be followed by a bracket, because the text ends or a character is cut,
nothing is left.
-/

namespace OriginGate.Document.Surplus

/-- What is left after some bytes, which is nothing if they end within a character. -/
def dropBytes : Nat → List Char → List Char
  | 0, cs => cs
  | _ + 1, [] => []
  | n + 1, c :: cs => if c.utf8Size ≤ n + 1 then dropBytes (n + 1 - c.utf8Size) cs else []

/-! ## Words -/

/-- A word is given up after the first character that differs. -/
def afterWord : (word cs : List Char) → List Char
  | [], cs => cs
  | _ :: _, [] => []
  | w :: ws, c :: cs => if c = w then afterWord ws cs else dropBytes 1 (c :: cs)

/-! ## Strings -/

/-- The low half of a surrogate pair: whether it is there, and what is left. -/
def lowHalf : List Char → Bool × List Char
  | '\\' :: 'u' :: cs => ((Hex.decode? (cs.take 4)).any isLowSurrogate, dropBytes 4 cs)
  | '\\' :: cs => (false, dropBytes 1 cs)
  | cs => (false, dropBytes 1 cs)

/-- An escape from after its backslash: whether it is whole, and what is left. -/
def afterEscape : List Char → Bool × List Char
  | 'u' :: cs =>
    match Hex.decode? (cs.take 4) with
    | some n =>
      if isLowSurrogate n then (false, dropBytes 4 cs)
      else if isHighSurrogate n then lowHalf (dropBytes 4 cs)
      else (true, dropBytes 4 cs)
    | none => (false, dropBytes 4 cs)
  | c :: cs => if (escape? c).isSome then (true, cs) else (false, dropBytes 1 (c :: cs))
  | [] => (false, [])

/--
A string from after its opening quote is given up after its closing one, after a control character,
or within an escape that is not whole.
-/
def afterString : (fuel : Nat) → List Char → List Char
  | 0, _ => []
  | _ + 1, [] => []
  | _ + 1, '"' :: cs => cs
  | fuel + 1, '\\' :: cs =>
    match afterEscape cs with
    | (true, rest) => afterString fuel rest
    | (false, rest) => rest
  | fuel + 1, c :: cs => if c.toNat < 0x20 then cs else afterString fuel cs

/-! ## Numbers -/

/-- The greatest exponent that is read. -/
def greatestExponent : Nat := 2147483647

/-- The digits of an exponent, continued from `n`, are given up after the one that makes it too great. -/
def afterExponentDigits (n : Nat) : List Char → List Char
  | [] => []
  | c :: cs =>
    if c.isDigit then
      let n := 10 * n + digitValue c
      if greatestExponent < n then cs else afterExponentDigits n cs
    else c :: cs

/-- An exponent from after its letter. None is too great for zero, or below zero. -/
def afterExponent (zero : Bool) (cs : List Char) : List Char :=
  let (negative, digits) : Bool × List Char :=
    match cs with
    | '-' :: cs => (true, cs)
    | '+' :: cs => (false, cs)
    | cs => (false, cs)
  if !digits.head?.any Char.isDigit then dropBytes 1 digits
  else if zero || negative then digits.dropWhile Char.isDigit
  else afterExponentDigits 0 digits

/-- The digits after a point, of which there have to be some, and an exponent if there is one. -/
def afterFraction (zero : Bool) (cs : List Char) : List Char :=
  match spanDigits cs with
  | ([], _) => cs
  | (places, rest) =>
    match rest with
    | 'e' :: rest | 'E' :: rest => afterExponent (zero && places.all (· = '0')) rest
    | rest => rest

/-- A number after its sign; one that is a byte is not given up. -/
def afterNumber? (negative : Bool) (cs : List Char) : Option (List Char) :=
  match spanDigits cs with
  | ([], _) => some (dropBytes 1 cs)
  | ('0' :: _ :: _, _) => some (cs.drop 1)
  | (whole, rest) =>
    match rest with
    | '.' :: rest => some (afterFraction (whole = ['0']) rest)
    | 'e' :: rest | 'E' :: rest => some (afterExponent (whole = ['0']) rest)
    | rest => if negative || 255 < digitsValue whole then some rest else none

/-! ## Items -/

/-- What is left where an attempt to read a byte is given up, `none` if it succeeds. -/
def afterNoByte? : List Char → Option (List Char)
  | 'n' :: cs => some (afterWord ['u', 'l', 'l'] cs)
  | 't' :: cs => some (afterWord ['r', 'u', 'e'] cs)
  | 'f' :: cs => some (afterWord ['a', 'l', 's', 'e'] cs)
  | '"' :: cs => some (afterString cs.length cs)
  | '-' :: cs => afterNumber? true cs
  | c :: cs => if c.isDigit then afterNumber? false (c :: cs) else some (c :: cs)
  | [] => some []

/-- What follows a byte array, from the comma after its last byte. -/
def close? (cs : List Char) : Option (List Char) :=
  match (afterNoByte? (skipBlanks cs)).map skipBlanks with
  | some (']' :: rest) => some rest
  | _ => none

end OriginGate.Document.Surplus
