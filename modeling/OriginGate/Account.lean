import OriginGate.Hex
import OriginGate.Keccak
import OriginGate.Json.Outline

/-!
# Accounts

* `Account` : the address of an account, a number of 160 bits;
* `Account.text` : `0x` and 40 lower-case hex digits; `Account.checksummed` : the same with the
  letters in upper case where the digest of the digits says so;
* `Account.read?` : 40 hex digits of any case, with or without `0x` or `0X`;
* `Account.prefixed?` : the same where the prefix has to be there, of a JSON value;
* `Account.ofDocument?` : a text, or the array of the twenty bytes, after which one item that is no
  byte is passed over; `Account.outline` : that array in a text.
-/

namespace OriginGate

/-- The address of an account. -/
structure Account where
  number : BitVec 160
deriving DecidableEq, Inhabited

namespace Account

/-- The 40 digits of an address, in lower case. -/
def digits (a : Account) : List Char := Hex.encode 40 a.number.toNat

/-- The address in lower case. -/
def text (a : Account) : String := String.ofList ('0' :: 'x' :: a.digits)

/-- The hex digits of a list of bytes, each as a number. -/
def nibbles (bytes : List UInt8) : List Nat :=
  bytes.flatMap fun byte => [byte.toNat / 16, byte.toNat % 16]

/--
The address with a checksum in the case of its letters: a letter is in upper case if the digit at
its place in the digest of the lower-case digits is eight or more.
-/
def checksummed (a : Account) : String :=
  let digest := nibbles (Keccak.hash (a.digits.map (·.toUInt8)))
  String.ofList ('0' :: 'x' :: List.zipWith (fun c n => if 8 ≤ n then c.toUpper else c) a.digits digest)

/-- The address that 40 hex digits write. -/
def ofDigits? (digits : List Char) : Option Account :=
  if digits.length = 40 then (Hex.decode? digits).map fun n => ⟨BitVec.ofNat 160 n⟩ else none

/-- What follows `0x` or `0X`. -/
def afterPrefix? : List Char → Option (List Char)
  | '0' :: c :: rest => if c = 'x' || c = 'X' then some rest else none
  | _ => none

/-- The address that a text writes, with or without prefix. -/
def read? (text : String) : Option Account :=
  ofDigits? ((afterPrefix? text.toList).getD text.toList)

/-- The address that a value writes with its prefix. -/
def prefixed? : Json → Option Account
  | .str s => (afterPrefix? s.toList).bind ofDigits?
  | _ => none

/-- The address of twenty bytes, the highest first. -/
def ofBytes? (bytes : List Nat) : Option Account :=
  if bytes.length = 20 then some ⟨BitVec.ofNat 160 (bytes.foldl (fun n b => 256 * n + b) 0)⟩
  else none

/-- The address of an array of twenty bytes, with at most one item more, which is no byte. -/
def ofItems? (items : List Document) : Option Account :=
  let more := items.drop 20
  if more.length ≤ 1 ∧ more.all (·.byte?.isNone) then
    ((items.take 20).mapM Document.byte?).bind ofBytes?
  else none

def ofDocument? : Document → Option Account
  | .str s => read? s
  | .arr items => ofItems? items
  | _ => none

def outline : Outline := .bytes 20

def json (a : Account) : Json := .str a.text

end Account

end OriginGate
