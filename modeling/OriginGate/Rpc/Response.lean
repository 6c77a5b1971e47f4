import OriginGate.Rpc.Error
import OriginGate.Rpc.Request

/-!
# Responses

* `Outcome` : the result of a call, a value or an error;
* `Response` : an outcome with the id of its call, if it is known;
* `Reply` : one response or those of a batch.
-/

namespace OriginGate.Rpc

/-- The outcome of a call. -/
inductive Outcome where
  | success (value : Json)
  | failure (error : Error)

/-- The response to one call. -/
structure Response where
  version : Version
  id : Option Id
  outcome : Outcome

/-- The response to a request. -/
inductive Reply where
  | single (response : Response)
  | batch (responses : List Response)

namespace Outcome

def isSuccess : Outcome → Bool
  | success _ => true
  | failure _ => false

def value? : Outcome → Option Json
  | success value => some value
  | failure _ => none

def error? : Outcome → Option Error
  | success _ => none
  | failure error => some error

def toExcept : Outcome → Except Error Json
  | success value => .ok value
  | failure error => .error error

/-- The only field of an outcome. -/
def field : Outcome → String × Json
  | success value => ("result", value)
  | failure error => ("error", error.json)

def json (o : Outcome) : Json := .obj [o.field]

/-- An object with one field, `result` or `error`. -/
def ofDocument? : Document → Option Outcome
  | .obj [(key, d)] =>
    if key = "result" then d.value?.map success
    else if key = "error" then (Error.ofDocument? d).map failure
    else none
  | _ => none

end Outcome

namespace Response

/-- The response to the call with an id. -/
def create (id : Id) (outcome : Outcome) : Response := ⟨.v2, some id, outcome⟩

def invalidRequest (id : Id) : Response := create id (.failure .invalidRequest)

/-- The response to a call whose id is not known. -/
def ofError (error : Error) : Response := ⟨.v2, none, .failure error⟩

/-- The id is left out only when it is absent. -/
def json (r : Response) : Json :=
  .obj (("jsonrpc", r.version.json) ::
    match r.id with
    | some id => [("id", id.json), r.outcome.field]
    | none => [r.outcome.field])

/-- A response has no other fields, and exactly one of the last two. -/
def shape : Shape := ⟨["jsonrpc", "id", "result", "error"], 4, true⟩

/-- The outcome among the fields of a response. -/
def outcome? (r : Record) : Option Outcome :=
  match r.get? "result", r.get? "error" with
  | some d, none => d.value?.map .success
  | none, some d => (Error.ofDocument? d).map .failure
  | _, _ => none

/-- Responses are objects; an id of null is read as absent. -/
def ofDocument? : Document → Option Response
  | .obj fields =>
    if (Document.obj fields).readable then do
      let r ← shape.readFields? fields
      let version ← r.required? "jsonrpc" Version.ofDocument?
      let id ← r.optional? "id" Id.ofDocument?
      let outcome ← outcome? r
      pure ⟨version, id, outcome⟩
    else none
  | _ => none

end Response

namespace Reply

/-- The reply with a single error and a null id. -/
def ofError (error : Error) : Reply := .single (.create .null (.failure error))

def json : Reply → Json
  | single response => response.json
  | batch responses => .arr (responses.map Response.json)

/-- One response if it reads as one, else an array of responses. -/
def ofDocument? (d : Document) : Option Reply :=
  if d.readable then
    match Response.ofDocument? d with
    | some response => some (single response)
    | none => (d.list? Response.ofDocument?).map batch
  else none

end Reply

end OriginGate.Rpc
