import OriginGate.Account

/-!
# Caveats

* `Caveat` : a restriction that a permission carries; `Caveat.Kind` : its kind;
* `Caveat.json`, `Caveat.ofDocument?` : the record of kind and value; `Caveat.outline` : in a text.

The kinds are a closed set. What a caveat does to a call is in `Caveat.Evaluation`.
-/

namespace OriginGate

/-- A restriction on the calls that a permission allows. -/
inductive Caveat where
  /-- Only these accounts may be named by the call or seen in its result. -/
  | accounts (allowed : List Account)
  /-- The call is made with these parameters, whatever was asked. -/
  | forceParams (params : Json)
  /-- Every parameter by name has to be among these, with an equal value. -/
  | requireSubset (allowed : List (String × Json))
  /-- A list in the result is cut to this length. -/
  | limitLength (limit : UInt64)

namespace Caveat

/-- The kind of a caveat. -/
inductive Kind where
  | accounts
  | forceParams
  | requireSubset
  | limitLength
deriving DecidableEq

namespace Kind

/-- All kinds, in the order in which they are listed. -/
def all : List Kind := [accounts, forceParams, requireSubset, limitLength]

def name : Kind → String
  | accounts => "eth_accounts"
  | forceParams => "forceParams"
  | requireSubset => "requireParamsIsSubset"
  | limitLength => "limitResponseLength"

def ofName? (name : String) : Option Kind := all.find? (·.name = name)

def json (k : Kind) : Json := .str k.name

def ofDocument? (d : Document) : Option Kind := d.name?.bind ofName?

end Kind

def kind : Caveat → Kind
  | accounts _ => .accounts
  | forceParams _ => .forceParams
  | requireSubset _ => .requireSubset
  | limitLength _ => .limitLength

/-! ## Equality -/

/-- Equal kind and content; free values compare as values do. -/
def same : Caveat → Caveat → Bool
  | accounts xs, accounts ys => xs == ys
  | forceParams x, forceParams y => x.same y
  | requireSubset fs, requireSubset gs => Json.sameFields fs gs
  | limitLength m, limitLength n => m == n
  | _, _ => false

instance : BEq Caveat := ⟨same⟩

/-! ## JSON -/

/-- The value in the record of a caveat. -/
def content : Caveat → Json
  | accounts allowed => .arr (allowed.map Account.json)
  | forceParams params => params
  | requireSubset allowed => .obj allowed
  | limitLength limit => .int limit.toNat

def json (c : Caveat) : Json := .obj [("type", c.kind.json), ("value", c.content)]

/-- The caveat of a kind with a value. -/
def ofContent? (d : Document) : Kind → Option Caveat
  | .accounts => (d.list? Account.ofDocument?).map accounts
  | .forceParams => d.value?.map forceParams
  | .requireSubset =>
    match d with
    | .obj fields => (Document.valueFields? fields).map requireSubset
    | _ => none
  | .limitLength => d.uint64?.map limitLength

/-- Both fields have to be there; others are skipped. -/
def shape : Shape := ⟨["type", "value"], 2, false⟩

/-- The kind in a record; without field names it has to be a string. -/
def readKind? : Document → Document → Option Kind
  | .arr _, kind => kind.text?.bind Kind.ofName?
  | _, kind => Kind.ofDocument? kind

/-- A value that stands before its kind is set aside until the kind is known. -/
def ofDocument? (d : Document) : Option Caveat := do
  let r ← shape.read? d
  let kind ← r.required? "type" (readKind? d)
  match r with
  | ("value", content) :: _ => ofContent? (← content.setAside?) kind
  | _ => r.required? "value" (ofContent? · kind)

/-- Only the accounts of a caveat are byte arrays. -/
def outline : Outline := .tagged "type" "value" [(Kind.accounts.name, .list Account.outline)]

end Caveat

end OriginGate
