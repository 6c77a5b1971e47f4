import OriginGate.SortedMap
import OriginGate.Json.Double

/-!
# JSON values

* `Json` : a JSON value; an object is the list of its fields;
* `Json.same` : the equality the gate itself decides by: an integer is never a double, two zeros
  are the same double;
* `Json.Canonical` : every object lists its keys in strictly ascending order;
* `Json.normalize` : the canonical value of a tree; of two fields with one key the later stays;
* `Json.field?`, `Json.asString?`, `Json.asArray?`, `Json.asObject?` : parts of a value.
-/

namespace OriginGate

/-- A JSON value. Integers are those that fit 64 bits, signed or not; all others are doubles. -/
inductive Json where
  | null
  | bool (value : Bool)
  | int (value : Int)
  | double (value : Json.Double)
  | str (value : String)
  | arr (items : List Json)
  | obj (fields : List (String × Json))

namespace Json

instance : Inhabited Json := ⟨.null⟩

/-! ## Equality -/

mutual

/-- Equal kind and equal content, where doubles compare as numbers. -/
def same : Json → Json → Bool
  | null, null => true
  | bool a, bool b => a == b
  | int a, int b => a == b
  | double a, double b => a.same b
  | str a, str b => a == b
  | arr xs, arr ys => sameItems xs ys
  | obj fs, obj gs => sameFields fs gs
  | _, _ => false

/-- Pairwise the same, and equally many. -/
def sameItems : List Json → List Json → Bool
  | [], [] => true
  | x :: xs, y :: ys => same x y && sameItems xs ys
  | _, _ => false

/-- Pairwise equal keys with the same values, and equally many. -/
def sameFields : List (String × Json) → List (String × Json) → Bool
  | [], [] => true
  | (k, x) :: fs, (l, y) :: gs => k == l && same x y && sameFields fs gs
  | _, _ => false

end

/-- Values compare by content, doubles as numbers. -/
instance : BEq Json := ⟨same⟩

/-! ## Canonical values -/

mutual

/-- Every object of the value lists its keys in strictly ascending order. -/
def Canonical : Json → Prop
  | arr items => CanonicalItems items
  | obj fields => Ascending fields ∧ CanonicalFields fields
  | _ => True

def CanonicalItems : List Json → Prop
  | [] => True
  | x :: xs => Canonical x ∧ CanonicalItems xs

def CanonicalFields : List (String × Json) → Prop
  | [] => True
  | (_, x) :: fs => Canonical x ∧ CanonicalFields fs

end

mutual

/-- Orders the fields of every object by key; of two fields with one key the later stays. -/
def normalize : Json → Json
  | arr items => arr (normalizeItems items)
  | obj fields => obj (SortedMap.ofList (normalizeFields fields)).entries
  | j => j

def normalizeItems : List Json → List Json
  | [] => []
  | x :: xs => normalize x :: normalizeItems xs

def normalizeFields : List (String × Json) → List (String × Json)
  | [] => []
  | (k, x) :: fs => (k, normalize x) :: normalizeFields fs

end

/-! ## Parts -/

/-- The first value listed under `key`. -/
def lookup? (key : String) (fields : List (String × Json)) : Option Json :=
  (fields.find? (·.1 = key)).map (·.2)

/-- The value of a field of an object. -/
def field? (key : String) : Json → Option Json
  | obj fields => lookup? key fields
  | _ => none

def asString? : Json → Option String
  | str s => some s
  | _ => none

def asArray? : Json → Option (List Json)
  | arr items => some items
  | _ => none

def asObject? : Json → Option (List (String × Json))
  | obj fields => some fields
  | _ => none

/-- The null of an absent value. -/
def ofOption : Option Json → Json
  | some j => j
  | none => null

/-- An array of strings. -/
def strings (xs : List String) : Json := arr (xs.map str)

end Json

end OriginGate
