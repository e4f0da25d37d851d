import PushHub.Hub.Requests
import PushHub.Http.Broadcast
import PushHub.Http.Query
import PushHub.Http.Upgrade
/-!
The routes of a hub: two that become WebSocket connections, one that tells its status, one that
publishes, and one that tells whether the daemon is alive.
-/
namespace PushHub.Http

structure Site where
  hub : Hub
  adminToken : Option String

inductive Route
  | socket
  | socketWithToken
  | status
  | broadcast
  | health
deriving DecidableEq, Repr

namespace Route

def ofPath? (path : String) : Option Route :=
  match path with
  | "/ws" => some .socket
  | "/ws/connect" => some .socketWithToken
  | "/api/ws/status" => some .status
  | "/api/ws/broadcast" => some .broadcast
  | "/healthz" => some .health
  | _ => none

def method : Route → String
  | .broadcast => "POST"
  | _ => "GET"

end Route

inductive Reply
  | response (r : Response)
  | upgrade (user : Option UserId)
deriving DecidableEq, Repr

namespace Reply

def ofError (e : ApiError) : Reply := .response e.response

def head : Reply → Response
  | .response r => r
  | .upgrade _ => ⟨101, "", ""⟩

end Reply

namespace Site

/-- An empty admin token is none. -/
def create (hub : Hub) (adminToken : Option String) : Site :=
  ⟨hub, adminToken.filter fun t => !t.isEmpty⟩

def healthy : Json := .object [("status", .text "ok")]

def queued : Json := .ofMembers [("status", .text "ok"), ("queued", .bool true)]

def statusBody (s : HubStatus) : Json := .object (("status", .text "ok") :: s.members)

def duplicateToken : Response :=
  ⟨400, "text/plain; charset=utf-8",
    "Failed to deserialize query string: " ++ (Mismatch.duplicateField "token").message⟩

def upgrade (r : Request) (user : Option UserId) : Reply :=
  match r.upgradeRefusal? with
  | some e => .ofError (.badRequest e.message)
  | none => .upgrade user

/-- Takes the token of the query, which is looked at before the request is. -/
def connect (s : Site) (r : Request) : Reply :=
  match ((formPairs r.query).filter fun p => p.1 == "token").map Prod.snd with
  | [] => .ofError (.unauthorized "missing token")
  | [token] =>
    if token.isEmpty then .ofError (.unauthorized "missing token")
    else match s.hub.verify token with
      | .ok u => upgrade r (some u)
      | .error e => .ofError (.unauthorized e.message)
  | _ => .response duplicateToken

def requested (s : Site) (r : Request) : Except ApiError DispatchRequest := do
  r.authorize s.adminToken
  let body ← (r.jsonBody BroadcastBody.decode).mapError fun e => .badRequest e.message
  body.request

def dispatchError (e : DispatchError) : ApiError :=
  match e with
  | .encode _ => .internal e.message
  | _ => .unavailable e.message

def broadcast (s : Site) (r : Request) : Site × Response :=
  match s.requested r with
  | .error e => (s, e.response)
  | .ok d =>
    let (hub, result) := s.hub.dispatch d
    ({ s with hub := hub }, match result with
      | .ok _ => .json 202 queued
      | .error e => (dispatchError e).response)

def status (s : Site) : Site × Response :=
  let (hub, result) := s.hub.status
  ({ s with hub := hub }, match result with
    | .ok t => .json 200 (statusBody t)
    | .error e => (ApiError.unavailable e.message).response)

def take (s : Site) (r : Request) : Route → Site × Reply
  | .socket => (s, upgrade r none)
  | .socketWithToken => (s, s.connect r)
  | .status => let (s, a) := s.status; (s, .response a)
  | .broadcast => let (s, a) := s.broadcast r; (s, .response a)
  | .health => (s, .response (.json 200 healthy))

/-- Handles a request. Asking for the head alone is the same as asking for all, less the body. -/
def handle (s : Site) (r : Request) : Site × Reply :=
  match Route.ofPath? r.path with
  | none => (s, .response .notFound)
  | some route =>
    if r.method = route.method then s.take r route
    else if r.method = "HEAD" ∧ route.method = "GET" then
      let (s, reply) := s.take r route
      (s, .response reply.head.withoutBody)
    else (s, .response .methodNotAllowed)

def respond (s : Site) (r : Request) : Site × Response :=
  let (s, reply) := s.handle { r with upgradable := false }
  (s, reply.head)

def openSocket (s : Site) (target : String) : Site × Response × Option Nat :=
  match s.handle (.webSocket target) with
  | (s, .response r) => (s, r, none)
  | (s, .upgrade user) =>
    let line : Line := ⟨.socket (.create s.hub.settings.maxTransportBytes), {}⟩
    let (hub, i) := match user with
      | none => s.hub.accept line
      | some u => s.hub.register u line
    ({ s with hub := hub }, (Reply.upgrade user).head, some i)

end Site

end PushHub.Http
