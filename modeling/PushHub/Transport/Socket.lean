import PushHub.Frame
/-!
WebSocket connections: the server answers pings and a close by itself, the client answers the pings it
reads, and a message above the limit is a read error.
-/
namespace PushHub

structure Socket where
  limit : Nat
  toClient : List Frame
  fromClient : List Frame
  closing : Bool
  /-- The client has sent a close frame, or has read one. -/
  clientClosing : Bool
  clientGone : Bool
  sinkHeld : Bool
  sourceHeld : Bool
deriving DecidableEq, Repr

namespace Socket

def create (limit : Nat) : Socket := ⟨limit, [], [], false, false, false, true, true⟩

def reset : TransportError := .io "WebSocket protocol error: Connection reset without closing handshake"

def tooLong (size limit : Nat) : TransportError :=
  .io ("Space limit exceeded: Message too long: " ++ toString size ++ " > " ++ toString limit)

/-! ## The server's side -/

def send (s : Socket) (f : Frame) : Socket × Sending :=
  if s.closing || s.clientGone then (s, .failed (.io "Trying to work with closed connection"))
  else ({ s with toClient := s.toClient ++ [f], closing := f = .close }, .sent)

def close (s : Socket) : Socket :=
  if s.closing || s.clientGone then s
  else { s with toClient := s.toClient ++ [.close], closing := true }

/-- Messages count by their bytes; other frames are never too long. -/
def messageSize : Frame → Nat
  | .text t => t.utf8ByteSize
  | .binary bytes => bytes.length
  | _ => 0

def answer (s : Socket) : Frame → Socket
  | .ping bytes =>
    if s.closing then s else { s with toClient := s.toClient ++ [.pong bytes] }
  | .close => s.close
  | _ => s

def receive (s : Socket) : Socket × Receiving :=
  match s.fromClient with
  | f :: rest =>
    let s := { s with fromClient := rest }
    if s.limit < messageSize f then (s, .failed (tooLong (messageSize f) s.limit))
    else (s.answer f, .frame f)
  | [] => if s.clientGone then (s, .failed reset) else (s, .waiting)

def dropSink (s : Socket) : Socket := { s with sinkHeld := false }
def dropSource (s : Socket) : Socket := { s with sourceHeld := false }

/-! ## The client's side -/

def clientSend (s : Socket) (f : Frame) : Socket × Except TransportError Unit :=
  if s.clientClosing || s.clientGone then (s, .error .closed)
  else ({ s with fromClient := s.fromClient ++ [f], clientClosing := f = .close }, .ok ())

def clientRead (s : Socket) : Socket × Reading :=
  match s.toClient with
  | f :: rest =>
    let s := { s with toClient := rest }
    match f with
    | .ping bytes =>
      if s.clientClosing then (s, .frame f)
      else ({ s with fromClient := s.fromClient ++ [.pong bytes] }, .frame f)
    | .close => ({ s with clientClosing := true }, .frame f)
    | f => (s, .frame f)
  | [] => if s.closing || (!s.sinkHeld && !s.sourceHeld) then (s, .ended) else (s, .waiting)

def dropClient (s : Socket) : Socket := { s with toClient := [], clientClosing := true, clientGone := true }

end Socket

end PushHub
