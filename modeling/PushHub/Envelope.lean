import PushHub.Json.Decode
/-!
The envelope of every event: a type and its data.
-/
namespace PushHub

open Json (Outline Decoded Field)

structure Envelope where
  eventType : String
  data : Json
deriving Repr

namespace Envelope

def toJson (e : Envelope) : Json := .object [("type", .text e.eventType), ("data", e.data)]

def render (e : Envelope) : String := e.toJson.render

/-- Data lies inside the envelope and may nest one level less than a text. -/
def readData (v : Outline) : Decoded Json := v.asJson (Json.depthLimit - 1)

def decode (v : Outline) : Decoded Envelope := do
  let row ← v.record "struct EventEnvelope"
    [.of "type" Outline.asText, .defaulted "data" readData]
  .ok ⟨← row.get "type" Outline.asText, ← row.getD "data" readData .null⟩

def parse (text : String) : Decoded Envelope := Json.decodeText decode text

end Envelope

end PushHub
