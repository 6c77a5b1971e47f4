/-!
# Keccak-256

* `Keccak.permute` : the permutation of 25 lanes of 64 bits, 24 rounds of `theta`, `rhoPi`, `chi`
  and `iota`; lane `(x, y)` has the index `x + 5 y`;
* `Keccak.hash` : the 256-bit digest of a message, padded with the byte 1, zeros and the bit 7 of
  the last byte of a block of 136 bytes.
-/

namespace OriginGate.Keccak

/-- The 25 lanes. -/
abbrev State := Vector UInt64 25

/-- Rotation of a lane to the left, by less than 64. -/
def rotate (lane : UInt64) (n : Nat) : UInt64 :=
  if n = 0 then lane else (lane <<< UInt64.ofNat n) ||| (lane >>> UInt64.ofNat (64 - n))

/-- Lane `(x, y)`, both taken modulo five. -/
def lane (s : State) (x y : Nat) : UInt64 := s.get ⟨x % 5 + 5 * (y % 5), by omega⟩

/-- The state whose lane `(x, y)` is `f x y`. -/
def ofLanes (f : Nat → Nat → UInt64) : State := Vector.ofFn fun i => f (i.val % 5) (i.val / 5)

def theta (s : State) : State :=
  let parity x := lane s x 0 ^^^ lane s x 1 ^^^ lane s x 2 ^^^ lane s x 3 ^^^ lane s x 4
  ofLanes fun x y => lane s x y ^^^ parity (x + 4) ^^^ rotate (parity (x + 1)) 1

/-- The rotation of each lane, by index. -/
def offsets : Vector Nat 25 :=
  #v[0, 1, 62, 28, 27, 36, 44, 6, 55, 20, 3, 10, 43, 25, 39, 41, 45, 15, 21, 8, 18, 2, 61, 56, 14]

/-- Lane `(x, y)` moves to `(y, 2x + 3y)`, so lane `(x, y)` comes from `(x + 3y, x)`. -/
def rhoPi (s : State) : State :=
  ofLanes fun x y =>
    rotate (lane s (x + 3 * y) x) (offsets.get ⟨(x + 3 * y) % 5 + 5 * (x % 5), by omega⟩)

def chi (s : State) : State :=
  ofLanes fun x y => lane s x y ^^^ (~~~ lane s (x + 1) y &&& lane s (x + 2) y)

def roundConstants : List UInt64 :=
  [0x0000000000000001, 0x0000000000008082, 0x800000000000808A, 0x8000000080008000,
   0x000000000000808B, 0x0000000080000001, 0x8000000080008081, 0x8000000000008009,
   0x000000000000008A, 0x0000000000000088, 0x0000000080008009, 0x000000008000000A,
   0x000000008000808B, 0x800000000000008B, 0x8000000000008089, 0x8000000000008003,
   0x8000000000008002, 0x8000000000000080, 0x000000000000800A, 0x800000008000000A,
   0x8000000080008081, 0x8000000000008080, 0x0000000080000001, 0x8000000080008008]

def iota (constant : UInt64) (s : State) : State := s.set 0 (s[0] ^^^ constant)

def permute (s : State) : State :=
  roundConstants.foldl (fun s constant => iota constant (chi (rhoPi (theta s)))) s

/-! ## Sponge -/

/-- Bytes per block. -/
def rate : Nat := 136

/-- The message followed by its padding, a multiple of the rate. -/
def pad (message : List UInt8) : List UInt8 :=
  let room := rate - message.length % rate
  if room = 1 then message ++ [0x81]
  else message ++ 0x01 :: (List.replicate (room - 2) 0 ++ [0x80])

/-- Eight bytes as a lane, the lowest first. -/
def laneOfBytes (bytes : List UInt8) : UInt64 :=
  bytes.foldr (fun byte high => high <<< 8 ||| byte.toUInt64) 0

/-- Adds a block to the first lanes and permutes. -/
def absorb (s : State) (block : List UInt8) : State :=
  permute (Vector.ofFn fun i =>
    s[i.val] ^^^ if i.val < rate / 8 then laneOfBytes ((block.drop (8 * i.val)).take 8) else 0)

/-- Absorbs the next `blocks` blocks. -/
def absorbAll : (blocks : Nat) → State → List UInt8 → State
  | 0, s, _ => s
  | blocks + 1, s, bytes => absorbAll blocks (absorb s (bytes.take rate)) (bytes.drop rate)

/-- The eight bytes of a lane, the lowest first. -/
def bytesOfLane (lane : UInt64) : List UInt8 :=
  (List.range 8).map fun i => (lane >>> UInt64.ofNat (8 * i)).toUInt8

/-- The digest of a message, 32 bytes. -/
def hash (message : List UInt8) : List UInt8 :=
  let padded := pad message
  let s := absorbAll (padded.length / rate) (Vector.replicate 25 0) padded
  (List.range 4).flatMap fun x => bytesOfLane (lane s x 0)

end OriginGate.Keccak
