import OriginGate.Json.Record

/-!
# Error codes

* `ErrorCode` : the codes of JSON-RPC and of the wallet provider interface, and all others;
* `ErrorCode.code`, `ErrorCode.ofCode` : the number of a code, and the code of a number;
* `ErrorCode.message` : the standard text of a code.
-/

namespace OriginGate.Rpc

/-- The code of an error. -/
inductive ErrorCode where
  | parseError
  | invalidRequest
  | methodNotFound
  | invalidParams
  | internalError
  | userRejectedRequest
  | unauthorized
  | resourceNotFound
  | resourceUnavailable
  | serverError (code : Int64)
deriving DecidableEq

namespace ErrorCode

def code : ErrorCode → Int64
  | parseError => -32700
  | invalidRequest => -32600
  | methodNotFound => -32601
  | invalidParams => -32602
  | internalError => -32603
  | userRejectedRequest => 4001
  | unauthorized => 4100
  | resourceNotFound => -32001
  | resourceUnavailable => -32002
  | serverError code => code

/-- The code with a number: a named one if there is one, else a server error. -/
def ofCode (code : Int64) : ErrorCode :=
  if code = -32700 then parseError
  else if code = -32600 then invalidRequest
  else if code = -32601 then methodNotFound
  else if code = -32602 then invalidParams
  else if code = -32603 then internalError
  else if code = 4001 then userRejectedRequest
  else if code = 4100 then unauthorized
  else if code = -32001 then resourceNotFound
  else if code = -32002 then resourceUnavailable
  else serverError code

def message : ErrorCode → String
  | parseError => "Parse error"
  | invalidRequest => "Invalid request"
  | methodNotFound => "Method not found"
  | invalidParams => "Invalid params"
  | internalError => "Internal error"
  | userRejectedRequest => "User rejected the request"
  | unauthorized => "Unauthorized"
  | resourceNotFound => "Resource not found"
  | resourceUnavailable => "Resource unavailable"
  | serverError _ => "Server error"

def json (c : ErrorCode) : Json := .int c.code.toInt

def ofDocument? (d : Document) : Option ErrorCode := d.int64?.map ofCode

end ErrorCode

end OriginGate.Rpc
