import PushHub.Http.Message
/-!
The one form of every failure that the routes report: a status, a code in capitals that goes with it,
and a message.
-/
namespace PushHub.Http

inductive ApiError
  | unauthorized (reason : String)
  | badRequest (reason : String)
  | unavailable (reason : String)
  | internal (reason : String)
deriving DecidableEq, Repr

namespace ApiError

def status : ApiError → Nat
  | .unauthorized _ => 401
  | .badRequest _ => 400
  | .unavailable _ => 503
  | .internal _ => 500

def code : ApiError → String
  | .unauthorized _ => "UNAUTHORIZED"
  | .badRequest _ => "BAD_REQUEST"
  | .unavailable _ => "SERVICE_UNAVAILABLE"
  | .internal _ => "INTERNAL_ERROR"

def message : ApiError → String
  | .unauthorized reason => "Authentication failed: " ++ reason
  | .badRequest reason => "Bad request: " ++ reason
  | .unavailable reason => "Service unavailable: " ++ reason
  | .internal reason => "Internal server error: " ++ reason

def body (e : ApiError) : Json :=
  .object [("status", .text "error"), ("code", .text e.code), ("message", .text e.message)]

def response (e : ApiError) : Response := .json e.status e.body

end ApiError

end PushHub.Http
