/-!
# Binary64 numbers and their decimal text

* `Double` : a binary64 number by its 64 bits; `Double.same` compares as IEEE does (both zeros
  are the same);
* `Double.ofRatio?` : the nearest double to a ratio of naturals, ties to the even one;
* `Double.times?`, `Double.dividedBy?` : product and quotient of magnitudes, rounded so;
* `Decimal` : a decimal `digits · 10^exponent`; `Double.nearest?` : the nearest double to it;
* `Double.ofDecimal?` : the double that a decimal in a JSON text stands for, which is rounded more
  than once and may miss the nearest one;
* `Double.shortest` : the fewest digits to which the number is nearest, of those the nearest to it;
* `Double.text` : the JSON text of a number.

All arithmetic is exact, on naturals: a double is `mantissa · 2^scale`. Powers are written
`Nat.pow`, because what `^` stands for depends on the imports.
-/

namespace OriginGate.Json

/-- A binary64 number, by its bits: sign, eleven bits of exponent, 52 bits of fraction. -/
structure Double where
  bits : UInt64
deriving DecidableEq, Inhabited

namespace Double

def negative (d : Double) : Bool := d.bits.toNat ≥ Nat.pow 2 63

/-- The bits without the sign. -/
def magnitude (d : Double) : Nat := d.bits.toNat % Nat.pow 2 63

def isZero (d : Double) : Bool := d.magnitude = 0

/-- Infinities and not-a-numbers have all bits of the exponent set. -/
def isFinite (d : Double) : Bool := d.magnitude < 0x7FF0000000000000

/-- Equality of finite numbers: the same bits, or two zeros of any sign. -/
def same (a b : Double) : Bool := a = b || (a.isZero && b.isZero)

instance : BEq Double := ⟨same⟩

def zero (negative : Bool) : Double := ⟨if negative then 0x8000000000000000 else 0⟩

/-- The number of the given sign and magnitude bits. -/
def ofMagnitude (negative : Bool) (magnitude : Nat) : Double :=
  ⟨UInt64.ofNat (magnitude + if negative then Nat.pow 2 63 else 0)⟩

/-! ## Reading -/

/-- `num / den` rounded to the nearest natural, a half to the even neighbour. -/
def roundDiv (num den : Nat) : Nat :=
  let low := num / den
  let twice := 2 * (num % den)
  if twice < den then low
  else if den < twice then low + 1
  else low + low % 2

/-- The ratio `num / den · 2^(-scale)` as a numerator and a denominator. -/
def unscale (num den : Nat) (scale : Int) : Nat × Nat :=
  if 0 ≤ scale then (num, den * Nat.pow 2 scale.toNat) else (num * Nat.pow 2 (-scale).toNat, den)

/-- The scale at which `num / den` has a mantissa of 53 bits, or the least scale there is. -/
def scaleOf (num den : Nat) : Int :=
  let guess : Int := max ((num.log2 : Int) - den.log2 - 53) (-1074)
  let (n, d) := unscale num den guess
  if n / d < Nat.pow 2 53 then guess else guess + 1

/--
The double nearest to `num / den`, ties to the even one; `none` when that is beyond the greatest
finite number. A mantissa that rounds up to `2^53` carries into the exponent by itself, because
exponent and fraction are adjacent fields of one number.
-/
def ofRatio? (negative : Bool) (num den : Nat) : Option Double :=
  if num = 0 then some (zero negative)
  else
    let scale := scaleOf num den
    let (n, d) := unscale num den scale
    let magnitude := (scale + 1074).toNat * Nat.pow 2 52 + roundDiv n d
    if magnitude < 0x7FF0000000000000 then some (ofMagnitude negative magnitude) else none

end Double

/-- The decimal number `digits · 10^exponent`. -/
structure Decimal where
  digits : Nat
  exponent : Int
deriving DecidableEq

namespace Double

/--
The double nearest to a decimal. Exponents far outside the range are decided without computing the
power: from `10^310` on nothing is finite, and below `10^(-326)` everything rounds to zero.
-/
def nearest? (negative : Bool) (x : Decimal) : Option Double :=
  if x.digits = 0 then some (zero negative)
  else
    let places : Int := Int.ofNat (x.digits.log2 / 3)
    if 310 < x.exponent then none
    else if x.exponent + places < -326 then some (zero negative)
    else if 0 ≤ x.exponent then ofRatio? negative (x.digits * Nat.pow 10 x.exponent.toNat) 1
    else ofRatio? negative x.digits (Nat.pow 10 (-x.exponent).toNat)

/-! ### Decimals in a text -/

/-- The mantissa and scale of the magnitude: it is `mantissa · 2^scale`. -/
def parts (d : Double) : Nat × Int :=
  let exponent : Nat := d.magnitude / Nat.pow 2 52
  let fraction : Nat := d.magnitude % Nat.pow 2 52
  if exponent = 0 then (fraction, -1074) else (fraction + Nat.pow 2 52, (exponent : Int) - 1075)

/-- `n · 2^p · 10^q` as a numerator and a denominator. -/
def product (n : Nat) (p q : Int) : Nat × Nat :=
  (n * Nat.pow 2 p.toNat * Nat.pow 10 q.toNat, Nat.pow 2 (-p).toNat * Nat.pow 10 (-q).toNat)

/-- The product of two magnitudes, rounded. -/
def times? (a b : Double) : Option Double :=
  let (m, p) := a.parts
  let (n, q) := b.parts
  let (num, den) := product (m * n) (p + q) 0
  ofRatio? false num den

/-- The quotient of two magnitudes, rounded. -/
def dividedBy? (a b : Double) : Option Double :=
  let (m, p) := a.parts
  let (n, q) := b.parts
  let (num, den) := product m (p - q) 0
  ofRatio? false num (den * n)

/-- The double nearest to a power of ten, up to `10^308`. -/
def powerOfTen? (k : Nat) : Option Double := ofRatio? false (Nat.pow 10 k) 1

/--
A magnitude times a power of ten, where the power is a double of its own. A negative exponent
divides, below `-308` first by the greatest power; two such divisions leave nothing of a magnitude
under `2^64`.
-/
def shift? (d : Double) (exponent : Int) : Option Double :=
  if d.isZero then some d
  else if 308 < exponent then none
  else if 0 ≤ exponent then do d.times? (← powerOfTen? exponent.toNat)
  else if -308 ≤ exponent then do d.dividedBy? (← powerOfTen? (-exponent).toNat)
  else if -616 ≤ exponent then do
    let low ← d.dividedBy? (← powerOfTen? 308)
    low.dividedBy? (← powerOfTen? (-exponent - 308).toNat)
  else some (zero false)

/--
The double that a decimal in a text stands for, its digits a number of 64 bits at most. The digits
are rounded first, and then their product with the power of ten, so that the result may lie beside
the nearest double.
-/
def ofDecimal? (negative : Bool) (x : Decimal) : Option Double := do
  let digits ← ofRatio? false x.digits 1
  let d ← digits.shift? x.exponent
  pure (ofMagnitude negative d.magnitude)

/-! ## Shortest digits -/

/-- Whether `digits · 10^exponent` rounds to the double with the given parts. -/
def roundsTo (mantissa : Nat) (scale : Int) (x : Decimal) : Bool :=
  -- Bounds of the interval in quarters of the last place; below a power of two it is half as wide.
  let low := if mantissa = Nat.pow 2 52 ∧ -1074 < scale then 4 * mantissa - 1 else 4 * mantissa - 2
  let high := 4 * mantissa + 2
  let (n, d) := product x.digits (2 - scale) x.exponent
  if mantissa % 2 = 0 then low * d ≤ n && n ≤ high * d else low * d < n && n < high * d

/-- The distance of a decimal to `mantissa · 2^scale`, in units that depend on the exponent only. -/
def distance (mantissa : Nat) (scale : Int) (x : Decimal) : Nat :=
  let (n, d) := product x.digits (-scale) x.exponent
  (n - mantissa * d) + (mantissa * d - n)

/-- The least `e` with `mantissa · 2^scale < 10^e`, found upwards from a lower bound. -/
def decimalExponent (mantissa : Nat) (scale : Int) : Nat → Int → Int
  | 0, e => e
  | fuel + 1, e =>
    let (n, d) := product mantissa scale (-e)
    if n < d then e else decimalExponent mantissa scale fuel (e + 1)

/--
The candidate with `count` digits that rounds to the number: one of the two neighbours of the number on the
grid of its decimals with so many digits, the nearer one when both do, the even one on a tie.
-/
def candidate? (mantissa : Nat) (scale : Int) (top : Int) (count : Nat) : Option Decimal :=
  let exponent := top - count
  let (n, d) := product mantissa scale (-exponent)
  let below : Decimal := ⟨n / d, exponent⟩
  let above : Decimal := ⟨n / d + 1, exponent⟩
  match roundsTo mantissa scale below, roundsTo mantissa scale above with
  | true, true =>
    let b := distance mantissa scale below
    let a := distance mantissa scale above
    if b < a then some below
    else if a < b then some above
    else if below.digits % 2 = 0 then some below else some above
  | true, false => some below
  | false, true => some above
  | false, false => none

/-- Drops trailing zeros of the digits. -/
def trim : Nat → Decimal → Decimal
  | 0, x => x
  | fuel + 1, x =>
    if x.digits % 10 = 0 ∧ x.digits ≠ 0 then trim fuel ⟨x.digits / 10, x.exponent + 1⟩ else x

/-- The shortest decimal to which the magnitude of a finite number other than zero is nearest. -/
def shortest (d : Double) : Decimal :=
  let (mantissa, scale) := d.parts
  let bits : Int := mantissa.log2 + scale
  -- `bits · 3/10` rounded down is at most the decimal exponent, and at most 32 below it.
  let top := decimalExponent mantissa scale 64 (if 0 ≤ bits then bits * 3 / 10 else bits * 31 / 100 - 1)
  let found := (List.range 17).findSome? (fun i => candidate? mantissa scale top (i + 1))
  trim 20 (found.getD ⟨mantissa, scale⟩)

/-! ## Text -/

/--
The layout of a number in JSON text: positional with at least one decimal place while the point
stands at most sixteen digits to the right or four zeros to the left, otherwise with an exponent,
which always has a sign.
-/
def layout (x : Decimal) : List Char :=
  let digits := Nat.toDigits 10 x.digits
  let point : Int := digits.length + x.exponent
  if 0 ≤ x.exponent ∧ point ≤ 16 then
    digits ++ List.replicate x.exponent.toNat '0' ++ ['.', '0']
  else if 0 < point ∧ point ≤ 16 then
    digits.take point.toNat ++ '.' :: digits.drop point.toNat
  else if -5 < point ∧ point ≤ 0 then
    '0' :: '.' :: List.replicate (-point).toNat '0' ++ digits
  else
    let sign := if 0 < point then ['+'] else []
    let exponent := 'e' :: sign ++ (toString (point - 1)).toList
    match digits with
    | [digit] => digit :: exponent
    | first :: rest => first :: '.' :: rest ++ exponent
    | [] => exponent

/-- The JSON text of a finite number. -/
def text (d : Double) : List Char :=
  let magnitude := if d.isZero then ['0', '.', '0'] else layout d.shortest
  if d.negative then '-' :: magnitude else magnitude

end Double

end OriginGate.Json
