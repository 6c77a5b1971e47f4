/-!
# Hexadecimal digits

* `Hex.digit?` : the value of a hex digit of either case; `Hex.digit` : the lower-case digit;
* `Hex.decode?` : the number written by a list of hex digits, the first digit the highest;
* `Hex.encode` : a number in a fixed count of lower-case digits.
-/

namespace OriginGate.Hex

/-- The value of a hex digit, of either case. -/
def digit? (c : Char) : Option Nat :=
  let n := c.toNat
  if 48 ≤ n ∧ n ≤ 57 then some (n - 48)
  else if 97 ≤ n ∧ n ≤ 102 then some (n - 87)
  else if 65 ≤ n ∧ n ≤ 70 then some (n - 55)
  else none

/-- The lower-case digit of a number below sixteen. -/
def digit (n : Nat) : Char :=
  if n < 10 then Char.ofNat (48 + n) else Char.ofNat (87 + n)

/-- The number that a list of digits writes, continued from `high`. -/
def decodeFrom? (high : Nat) : List Char → Option Nat
  | [] => some high
  | c :: cs =>
    match digit? c with
    | some n => decodeFrom? (16 * high + n) cs
    | none => none

/-- The number that a list of digits writes; `none` if one of them is no hex digit. -/
def decode? (cs : List Char) : Option Nat := decodeFrom? 0 cs

/-- The lowest `width` digits of a number, the highest first. -/
def encode : (width n : Nat) → List Char
  | 0, _ => []
  | width + 1, n => encode width (n / 16) ++ [digit (n % 16)]

end OriginGate.Hex
