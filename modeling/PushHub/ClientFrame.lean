import PushHub.Envelope
import PushHub.Channel
/-!
What a client may say in a text frame. A frame of an unknown type is told apart from a known one
with bad data, and neither is fatal.
-/
namespace PushHub

open Json (Outline Decoded Field)

inductive ClientFrame
  | auth (token : String)
  | subscribe (channels : List ChannelName)
  | unsubscribe (channels : List ChannelName)
  | ping
deriving DecidableEq, Repr

inductive ClientFrameError
  | tooLarge (size max : Nat)
  | malformed (flaw : Json.Flaw)
  | badChannel (refusal : InvalidChannel)
  | unknownType (name : String)
deriving Repr

def ClientFrameError.message : ClientFrameError → String
  | .tooLarge size max =>
    "frame too large: " ++ toString size ++ " bytes (max: " ++ toString max ++ ")"
  | .malformed flaw => "malformed frame: " ++ flaw.message
  | .badChannel e => "malformed frame: " ++ e.message
  | .unknownType name => "unknown frame type: " ++ name

def ClientFrameError.tag : ClientFrameError → String
  | .tooLarge .. => "TooLarge"
  | .malformed _ => "Malformed"
  | .badChannel _ => "Malformed"
  | .unknownType _ => "UnknownType"

instance : Failure ClientFrameError := ⟨ClientFrameError.tag, ClientFrameError.message⟩

namespace ClientFrame

def defaultMaxBytes : Nat := 64 * 1024

def kind : ClientFrame → String
  | .auth _ => "auth"
  | .subscribe _ => "subscribe"
  | .unsubscribe _ => "unsubscribe"
  | .ping => "ping"

def readLoose (v : Outline) : Decoded (String × Json) := do
  let row ← v.record "struct RawFrame"
    [.of "type" Outline.asText, .defaulted "data" Envelope.readData]
  .ok (← row.get "type" Outline.asText, ← row.getD "data" Envelope.readData .null)

def readToken (v : Outline) : Decoded String := do
  let row ← v.record "struct AuthData" [.of "token" Outline.asText]
  row.get "token" Outline.asText

def readNames (v : Outline) : Decoded (List String) := do
  let row ← v.record "struct ChannelsData" [.defaulted "channels" (Outline.asList Outline.asText)]
  row.getD "channels" (Outline.asList Outline.asText) []

def channels (data : Json) : Except ClientFrameError (List ChannelName) := do
  let names ← (Json.decodeValue readNames data).mapError .malformed
  (ChannelName.parseAll names).mapError .badChannel

def ofData (kind : String) (data : Json) : Except ClientFrameError ClientFrame :=
  match kind with
  | "auth" => do
    .ok (.auth (← (Json.decodeValue readToken data).mapError .malformed))
  | "subscribe" => do .ok (.subscribe (← channels data))
  | "unsubscribe" => do .ok (.unsubscribe (← channels data))
  | "ping" => .ok .ping
  | other => .error (.unknownType other)

def parse (text : String) (maxBytes : Nat) : Except ClientFrameError ClientFrame := do
  if maxBytes < text.utf8ByteSize then .error (.tooLarge text.utf8ByteSize maxBytes)
  let (kind, data) ← (Json.decodeText readLoose text).mapError .malformed
  ofData kind data

end ClientFrame

end PushHub
