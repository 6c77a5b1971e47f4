import OriginGate.Json.Record

/-!
# Requests

* `Version`, `Id`, `Params` : the parts of a call;
* `MethodCall` (with an id), `Notification` (without), `Call` (these two or an invalid object),
  `Request` (one call or a batch);
* `json` writes each of them, `ofDocument?` reads it: a call is first tried as a method call, then
  as a notification, then as any object; a request first as one call, then as an array of calls.

Calls and requests are read only from documents all of whose parts are readable.
-/

namespace OriginGate.Rpc

/-- The version of the protocol. -/
inductive Version where
  | v2
deriving DecidableEq

/-- The identifier by which a caller matches a response to its call. -/
inductive Id where
  | string (value : String)
  | number (value : Int64)
  | null
deriving DecidableEq

/-- The parameters of a call. -/
inductive Params where
  | none
  | array (items : List Json)
  | object (fields : List (String × Json))

/-- A call that expects a response. -/
structure MethodCall where
  version : Version
  method : String
  params : Params
  id : Id

/-- A call that expects no response. -/
structure Notification where
  version : Option Version
  method : String
  params : Params

/-- One element of a request. -/
inductive Call where
  | method (call : MethodCall)
  | notification (notification : Notification)
  | invalid (id : Id)

/-- What a caller sends: one call or a batch. -/
inductive Request where
  | single (call : Call)
  | batch (calls : List Call)

namespace Version

def text : Version → String
  | v2 => "2.0"

def json (v : Version) : Json := .str v.text

def ofDocument? (d : Document) : Option Version :=
  match d.name? with
  | some "2.0" => some v2
  | _ => none

end Version

namespace Id

def display : Id → String
  | string s => s
  | number n => toString n.toInt
  | null => "null"

def json : Id → Json
  | string s => .str s
  | number n => .int n.toInt
  | null => .null

def ofDocument? : Document → Option Id
  | .str s => some (string s)
  | .null => some null
  | d => d.int64?.map number

end Id

namespace Params

/-- The parameter at a position, if they are given by position. -/
def get? (index : Nat) : Params → Option Json
  | array items => items[index]?
  | _ => Option.none

/-- The parameters that a value stands for: a single scalar is a list of one. -/
def ofJson : Json → Params
  | .null => none
  | .arr items => array items
  | .obj fields => object fields
  | j => array [j]

def json : Params → Json
  | none => .null
  | array items => .arr items
  | object fields => .obj fields

/-- Arrays, objects and null; other kinds of values are no parameters. -/
def ofDocument? (d : Document) : Option Params :=
  match d.value? with
  | some .null => some none
  | some (.arr items) => some (array items)
  | some (.obj fields) => some (object fields)
  | _ => Option.none

end Params

namespace MethodCall

/-- A call of the current version. -/
def create (id : Id) (method : String) (params : Params) : MethodCall := ⟨.v2, method, params, id⟩

def withParams (params : Params) (c : MethodCall) : MethodCall := { c with params := params }

def json (c : MethodCall) : Json :=
  .obj [("jsonrpc", c.version.json), ("method", .str c.method), ("params", c.params.json),
    ("id", c.id.json)]

/-- No other fields are allowed, and `id` has to be there. -/
def shape : Shape := ⟨["jsonrpc", "method", "params", "id"], 4, true⟩

def ofDocument? (d : Document) : Option MethodCall := do
  let r ← shape.read? d
  let version ← r.required? "jsonrpc" Version.ofDocument?
  let method ← r.required? "method" Document.text?
  let params ← r.orDefault? "params" .none Params.ofDocument?
  let id ← r.required? "id" Id.ofDocument?
  pure ⟨version, method, params, id⟩

end MethodCall

namespace Notification

def json (n : Notification) : Json :=
  .obj [("jsonrpc", Json.ofOption (n.version.map Version.json)), ("method", .str n.method),
    ("params", n.params.json)]

/-- No other fields are allowed, `id` among them. -/
def shape : Shape := ⟨["jsonrpc", "method", "params"], 2, true⟩

def ofDocument? (d : Document) : Option Notification := do
  let r ← shape.read? d
  let version ← r.optional? "jsonrpc" Version.ofDocument?
  let method ← r.required? "method" Document.text?
  let params ← r.orDefault? "params" .none Params.ofDocument?
  pure ⟨version, method, params⟩

end Notification

namespace Call

def json : Call → Json
  | method c => c.json
  | notification n => n.json
  | invalid id => .obj [("id", id.json)]

/-- Any other fields may stand beside the id of an invalid call. -/
def invalidShape : Shape := ⟨["id"], 0, false⟩

/-- The id of an object that is no call; null if it has none. -/
def invalidId? : Document → Option Id
  | .obj fields => do
    let r ← invalidShape.readFields? fields
    r.orDefault? "id" .null Id.ofDocument?
  | _ => none

/-- The first of the three readings that fits. -/
def ofDocument? (d : Document) : Option Call :=
  if d.readable then
    match MethodCall.ofDocument? d, Notification.ofDocument? d with
    | some c, _ => some (method c)
    | none, some n => some (notification n)
    | none, none => (invalidId? d).map invalid
  else none

end Call

namespace Request

def json : Request → Json
  | single call => call.json
  | batch calls => .arr (calls.map Call.json)

/-- One call if it reads as one, else an array of calls. -/
def ofDocument? (d : Document) : Option Request :=
  if d.readable then
    match Call.ofDocument? d with
    | some call => some (single call)
    | none => (d.list? Call.ofDocument?).map batch
  else none

end Request

end OriginGate.Rpc
