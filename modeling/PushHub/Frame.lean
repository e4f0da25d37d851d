import PushHub.Failure
import PushHub.Json.Basic
/-!
The messages of a transport, and how delivering one can fail.
-/
namespace PushHub

inductive Frame
  | text (s : String)
  | binary (bytes : List UInt8)
  | ping (bytes : List UInt8)
  | pong (bytes : List UInt8)
  | close
deriving DecidableEq, Repr

def Frame.kind : Frame → String
  | .text _ => "text"
  | .binary _ => "binary"
  | .ping _ => "ping"
  | .pong _ => "pong"
  | .close => "close"

def Frame.toJson (f : Frame) : Json :=
  let bytes (bs : List UInt8) : Json := .list (bs.map fun b => .nat b.toUInt64)
  .list <| .text f.kind :: match f with
    | .text s => [.text s]
    | .binary bs => [bytes bs]
    | .ping bs => [bytes bs]
    | .pong bs => [bytes bs]
    | .close => []

inductive DeliveryError
  | full
  | closed
deriving DecidableEq, Repr

def DeliveryError.message : DeliveryError → String
  | .full => "mailbox full"
  | .closed => "mailbox closed"

def DeliveryError.tag : DeliveryError → String
  | .full => "Full"
  | .closed => "Closed"

instance : Failure DeliveryError := ⟨DeliveryError.tag, DeliveryError.message⟩

inductive TransportError
  | closed
  | io (reason : String)
  | writeTimeout
deriving DecidableEq, Repr

def TransportError.message : TransportError → String
  | .closed => "transport closed"
  | .io reason => "I/O error: " ++ reason
  | .writeTimeout => "write timed out"

def TransportError.tag : TransportError → String
  | .closed => "Closed"
  | .io _ => "Io"
  | .writeTimeout => "WriteTimeout"

instance : Failure TransportError := ⟨TransportError.tag, TransportError.message⟩

inductive Sending
  | sent
  | failed (e : TransportError)
  | waiting
deriving DecidableEq, Repr

inductive Receiving
  | frame (f : Frame)
  | failed (e : TransportError)
  | waiting
deriving DecidableEq, Repr

inductive Reading
  | frame (f : Frame)
  | ended
  | waiting
deriving DecidableEq, Repr

end PushHub
