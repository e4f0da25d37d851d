import PushHub.Identity
import PushHub.Channel
/-!
What the hub says about a session: prompts, acknowledgements and refusals, each a type with its
data.
-/
namespace PushHub

open Json (Outline Decoded Field Members)

inductive ServerFrame
  | authRequired (message : String) (timeoutSecs : UInt64)
  | authSuccess (user : UserId)
  | authFailed (message : String)
  | subscribed (channels : List ChannelName)
  | unsubscribed (channels : List ChannelName)
  | pong (timestamp : Int64)
  | error (message : String)
deriving DecidableEq, Repr

namespace ServerFrame

def prompt (timeoutSecs : UInt64) : ServerFrame :=
  .authRequired "authentication required" timeoutSecs

def kind : ServerFrame → String
  | .authRequired .. => "auth_required"
  | .authSuccess _ => "auth_success"
  | .authFailed _ => "auth_failed"
  | .subscribed _ => "subscribed"
  | .unsubscribed _ => "unsubscribed"
  | .pong _ => "pong"
  | .error _ => "error"

def kinds : List String :=
  ["auth_required", "auth_success", "auth_failed", "subscribed", "unsubscribed", "pong", "error"]

def members : ServerFrame → List (String × Json)
  | .authRequired message secs => [("message", .text message), ("timeout_secs", .nat secs)]
  | .authSuccess user => [("user_id", user.toJson)]
  | .authFailed message => [("message", .text message)]
  | .subscribed channels => [("channels", .list (channels.map ChannelName.toJson))]
  | .unsubscribed channels => [("channels", .list (channels.map ChannelName.toJson))]
  | .pong timestamp => [("timestamp", .number (.integer (.ofInt64 timestamp)))]
  | .error message => [("message", .text message)]

def toJson (f : ServerFrame) : Json :=
  .object [("type", .text f.kind), ("data", .object f.members)]

def render (f : ServerFrame) : String := f.toJson.render

/-- The members of a frame's data, which is never given as a list. -/
def dataRow (variant : String) (fields : List Field) : Outline → Decoded Json.Row
  | .object members => Json.Members.row fields [] members
  | v => v.unexpected ("struct variant ServerMessage::" ++ variant)

def readMessage (variant : String) (v : Outline) : Decoded String := do
  (← dataRow variant [.of "message" Outline.asText] v).get "message" Outline.asText

def readChannels (variant : String) (v : Outline) : Decoded (List ChannelName) := do
  let read := Outline.asList ChannelName.decode
  (← dataRow variant [.of "channels" read] v).get "channels" read

def ofData (kind : String) (v : Outline) : Decoded ServerFrame :=
  match kind with
  | "auth_required" => do
    let row ← dataRow "AuthRequired"
      [.of "message" Outline.asText, .of "timeout_secs" Outline.asUInt64] v
    .ok (.authRequired (← row.get "message" Outline.asText)
      (← row.get "timeout_secs" Outline.asUInt64))
  | "auth_success" => do
    let row ← dataRow "AuthSuccess" [.of "user_id" UserId.decode] v
    .ok (.authSuccess (← row.get "user_id" UserId.decode))
  | "auth_failed" => do .ok (.authFailed (← readMessage "AuthFailed" v))
  | "subscribed" => do .ok (.subscribed (← readChannels "Subscribed" v))
  | "unsubscribed" => do .ok (.unsubscribed (← readChannels "Unsubscribed" v))
  | "pong" => do
    let row ← dataRow "Pong" [.of "timestamp" Outline.asInt64] v
    .ok (.pong (← row.get "timestamp" Outline.asInt64))
  | _ => do .ok (.error (← readMessage "Error" v))

def rest : Members → Decoded Unit
  | .closed => .ok ()
  | .fault => Json.fail .malformed
  | .cons none _ _ => Json.fail .malformed
  | .cons (some name) v others =>
    if name = "type" ∨ name = "data" then Json.fail (.duplicateField name)
    else do
      v.skipped
      rest others

def afterKind (kind : String) : Members → Decoded ServerFrame
  | .closed => Json.fail (.missingField "data")
  | .fault => Json.fail .malformed
  | .cons none _ _ => Json.fail .malformed
  | .cons (some name) v others =>
    if name = "type" then Json.fail (.duplicateField name)
    else if name = "data" then do
      let f ← ofData kind v
      rest others
      .ok f
    else do
      v.skipped
      afterKind kind others

def afterData (data : Outline) : Members → Decoded ServerFrame
  | .closed => Json.fail (.missingField "type")
  | .fault => Json.fail .malformed
  | .cons none _ _ => Json.fail .malformed
  | .cons (some name) v others =>
    if name = "data" then Json.fail (.duplicateField name)
    else if name = "type" then do
      let f ← ofData (← v.asName kinds) data
      rest others
      .ok f
    else do
      v.skipped
      afterData data others

/-- Reads the members in either order. Data that comes before its type is read whole first. -/
def ofMembers : Members → Decoded ServerFrame
  | .closed => Json.fail (.missingField "type")
  | .fault => Json.fail .malformed
  | .cons none _ _ => Json.fail .malformed
  | .cons (some name) v others =>
    if name = "type" then do afterKind (← v.asName kinds) others
    else if name = "data" then do
      let _ ← v.asJson (Json.depthLimit - 1)
      afterData v others
    else do
      v.skipped
      ofMembers others

def expectation : String := "adjacently tagged enum ServerMessage"

def decode : Outline → Decoded ServerFrame
  | .object members => ofMembers members
  | .list .closed => Json.fail (.invalidLength 0 expectation)
  | .list .fault => Json.fail .malformed
  | .list (.cons kind others) => do
    let kind ← kind.asName kinds
    match others with
    | .closed => Json.fail (.invalidLength 1 expectation)
    | .fault => Json.fail .malformed
    | .cons data others =>
      let f ← ofData kind data
      match others with
      | .closed => .ok f
      | _ => Json.fail .malformed
  | v => v.unexpected expectation

def parse (text : String) : Decoded ServerFrame := Json.decodeText decode text

end ServerFrame

end PushHub
