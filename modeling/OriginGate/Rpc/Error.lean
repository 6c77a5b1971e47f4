import OriginGate.Rpc.ErrorCode

/-!
# Error objects

* `Rpc.Error` : code, message and optional data;
* one constructor function per kind of error;
* `Rpc.Error.display`, `json`, `ofDocument?`.
-/

namespace OriginGate.Rpc

/-- The error object of a response. -/
structure Error where
  code : ErrorCode
  message : String
  data : Option Json

namespace Error

/-- The error of a code, with the standard text of the code. -/
def ofErrorCode (code : ErrorCode) : Error := ⟨code, code.message, none⟩

def parseError : Error := ofErrorCode .parseError
def methodNotFound : Error := ofErrorCode .methodNotFound
def invalidRequest : Error := ofErrorCode .invalidRequest
def internalError : Error := ofErrorCode .internalError

def invalidParams (message : String) : Error := ⟨.invalidParams, message, none⟩
def internalErrorWith (message : String) : Error := ⟨.internalError, message, none⟩
def userRejected (message : String) : Error := ⟨.userRejectedRequest, message, none⟩
def unauthorized (message : String) : Error := ⟨.unauthorized, message, none⟩
def resourceUnavailable (message : String) : Error := ⟨.resourceUnavailable, message, none⟩
def resourceNotFound (message : String) : Error := ⟨.resourceNotFound, message, none⟩

/-- The error with diagnostic data, in place of what it had. -/
def withData (data : Json) (e : Error) : Error := { e with data := some data }

/-- The standard text of the code and the message. -/
def display (e : Error) : String := e.code.message ++ ": " ++ e.message

/-- The error object; `data` is left out when there is none. -/
def json (e : Error) : Json :=
  .obj (("code", e.code.json) :: ("message", .str e.message) ::
    match e.data with
    | some data => [("data", data)]
    | none => [])

/-- No other fields are allowed, and by position all three have to be given. -/
def shape : Shape := ⟨["code", "message", "data"], 3, true⟩

def ofDocument? (d : Document) : Option Error := do
  let r ← shape.read? d
  let code ← r.required? "code" ErrorCode.ofDocument?
  let message ← r.required? "message" Document.text?
  let data ← r.optional? "data" Document.value?
  pure ⟨code, message, data⟩

end Error

end OriginGate.Rpc
