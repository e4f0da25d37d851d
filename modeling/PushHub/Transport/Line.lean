import PushHub.Transport.Pipe
import PushHub.Transport.Socket
/-!
The transport of a session: an in-memory pipe or a WebSocket, either of which may begin to fail after
a number of calls.
-/
namespace PushHub

inductive Wire
  | pipe (p : Pipe)
  | socket (s : Socket)
deriving DecidableEq, Repr

namespace Wire

def send (w : Wire) (f : Frame) : Wire × Sending :=
  match w with
  | .pipe p => let (p, r) := p.send f; (.pipe p, r)
  | .socket s => let (s, r) := s.send f; (.socket s, r)

def receive (w : Wire) : Wire × Receiving :=
  match w with
  | .pipe p => let (p, r) := p.receive; (.pipe p, r)
  | .socket s => let (s, r) := s.receive; (.socket s, r)

def close : Wire → Wire
  | .pipe p => .pipe p.close
  | .socket s => .socket s.close

def dropSink : Wire → Wire
  | .pipe p => .pipe p.dropSink
  | .socket s => .socket s.dropSink

def dropSource : Wire → Wire
  | .pipe p => .pipe p.dropSource
  | .socket s => .socket s.dropSource

/-! The other end of a wire is the client. -/

def clientSend (w : Wire) (f : Frame) : Wire × Except TransportError Unit :=
  match w with
  | .pipe p => let (p, r) := p.peerSend f; (.pipe p, r)
  | .socket s => let (s, r) := s.clientSend f; (.socket s, r)

def clientRead : Wire → Wire × Reading
  | .pipe p => let (p, r) := p.peerRead; (.pipe p, r)
  | .socket s => let (s, r) := s.clientRead; (.socket s, r)

/-- The client stops sending: a pipe is cut in that direction, a WebSocket is left as it is. -/
def disconnect : Wire → Wire
  | .pipe p => .pipe p.disconnect
  | .socket s => .socket s

def dropClient : Wire → Wire
  | .pipe p => .pipe p.dropPeer
  | .socket s => .socket s.dropClient

def unread : Wire → Nat
  | .pipe p => p.fromPeer.length
  | .socket s => s.fromClient.length

def unseen : Wire → Nat
  | .pipe p => p.toPeer.length
  | .socket s => s.toClient.length

end Wire

/-- How many more calls succeed before every further one fails; none for a sound transport. -/
structure Faults where
  sends : Option Nat := none
  receives : Option Nat := none
deriving DecidableEq, Repr

structure Line where
  wire : Wire
  faults : Faults := {}
deriving DecidableEq, Repr

namespace Line

def countSend (l : Line) : Line := { l with faults.sends := l.faults.sends.map (· - 1) }
def countReceive (l : Line) : Line := { l with faults.receives := l.faults.receives.map (· - 1) }

def send (l : Line) (f : Frame) : Line × Sending :=
  if l.faults.sends = some 0 then (l, .failed (.io "send failed"))
  else match l.wire.send f with
    | (_, .waiting) => (l, .waiting)
    | (w, r) => ({ l with wire := w }.countSend, r)

def cancelSend (l : Line) : Line := l.countSend

def receive (l : Line) : Line × Receiving :=
  if l.faults.receives = some 0 then (l, .failed (.io "recv failed"))
  else match l.wire.receive with
    | (w, .waiting) => ({ l with wire := w }, .waiting)
    | (w, r) => ({ l with wire := w }.countReceive, r)

def close (l : Line) : Line := { l with wire := l.wire.close }

def dropSink (l : Line) : Line := { l with wire := l.wire.dropSink }
def dropSource (l : Line) : Line := { l with wire := l.wire.dropSource }

end Line

end PushHub
