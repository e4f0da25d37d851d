import PushHub.Dispatch
import PushHub.Digest.Sha256
import PushHub.Http.ApiError
import PushHub.Http.MediaType
import PushHub.Text.Blank
/-!
The body of a broadcast over HTTP, and the token that guards it. A body has to be declared as JSON,
has to fit a limit, and has to name the type of the event.
-/
namespace PushHub.Http

inductive BodyRefusal
  | mediaType
  | tooLong
  | malformed
  | unsuited (flaw : Json.Flaw)
deriving Repr

namespace BodyRefusal

def ofFlaw (f : Json.Flaw) : BodyRefusal :=
  match f.cause with
  | .malformed => .malformed
  | _ => .unsuited f

def message : BodyRefusal → String
  | .mediaType => "Expected request with `Content-Type: application/json`"
  | .tooLong => "Failed to buffer the request body: length limit exceeded"
  | .malformed =>
    "Failed to parse the request body as JSON: " ++ Mismatch.malformed.message
  | .unsuited f =>
    "Failed to deserialize the JSON body into the target type: " ++ f.placedMessage

end BodyRefusal

namespace Request

/-- The longest body that is read, in bytes. -/
def bodyLimit : Nat := 2097152

def hasJsonType (r : Request) : Bool :=
  match (r.headerText? "content-type").bind MediaType.parse? with
  | some m => m.isJson
  | none => false

/-- Put in place of what is no UTF-8, which fails wherever it is read but may pass unread within a
text. The half of an escaped pair is no text; the character before it ends an escape that the body
broke off, so that the half does not complete one. -/
def unreadable : List Char := Text.replacement :: ['\\', 'u', 'd', 'f', 'f', 'f']

def bodyText (r : Request) : String :=
  match Text.ofUtf8? r.body with
  | some s => s
  | none => Text.markedUtf8 unreadable r.body

def jsonBody (r : Request) (read : Json.Outline → Json.Decoded α) : Except BodyRefusal α :=
  if !r.hasJsonType then .error .mediaType
  else if bodyLimit < r.body.length then .error .tooLong
  else (Json.decodeText read r.bodyText).mapError .ofFlaw

end Request

structure BroadcastBody where
  messageType : String
  data : Json := .null
  channels : List String := []
deriving Repr

namespace BroadcastBody

open Json (Field)

def readData : Json.Outline → Json.Decoded Json := Json.Outline.asJson (Json.depthLimit - 1)

def readChannels : Json.Outline → Json.Decoded (List String) :=
  Json.Outline.asList Json.Outline.asText

def fields : List Field :=
  [.of "type" Json.Outline.asText, .defaulted "data" readData, .defaulted "channels" readChannels]

def decode (v : Json.Outline) : Json.Decoded BroadcastBody := do
  let row ← v.record "struct BroadcastRequest" fields
  .ok ⟨← row.get "type" Json.Outline.asText, ← row.getD "data" readData .null,
    ← row.getD "channels" readChannels []⟩

def request (b : BroadcastBody) : Except ApiError DispatchRequest :=
  if (Text.trim b.messageType.toList).isEmpty then .error (.badRequest "type must not be empty")
  else match ChannelName.parseAll b.channels with
    | .ok channels => .ok ((DispatchRequest.broadcast b.messageType b.data).withChannels channels)
    | .error e => .error (.badRequest e.message)

end BroadcastBody

/-- Compares two secrets by their digests, so that the time it takes tells nothing of either. -/
def sameSecret (a b : List UInt8) : Bool :=
  ((Digest.sha256 a).zip (Digest.sha256 b)).foldl (fun diff (x, y) => diff ||| (x ^^^ y)) 0 == 0

namespace Request

def bearerOpening : List Char := "Bearer ".toList

def bearer? (r : Request) : Option (List Char) := do
  let text ← r.headerText? "authorization"
  if bearerOpening.isPrefixOf text then some (text.drop bearerOpening.length) else none

/-- Lets a request pass that presents the admin token, or any if there is none. -/
def authorize (r : Request) (adminToken : Option String) : Except ApiError Unit :=
  match adminToken with
  | none => .ok ()
  | some expected =>
    match r.bearer? with
    | none => .error (.unauthorized "missing admin token")
    | some token =>
      if sameSecret (Text.utf8 (String.ofList token)) (Text.utf8 expected) then .ok ()
      else .error (.unauthorized "invalid admin token")

end Request

end PushHub.Http
