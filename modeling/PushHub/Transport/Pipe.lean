import PushHub.Frame
/-!
In-memory transports: a sink and a source on the server's side, and a peer. What the server sends
waits in a bounded queue until the peer reads it; what the peer sends is never held back. The source
answers pings by itself.
-/
namespace PushHub

structure Pipe where
  capacity : Nat
  toPeer : List Frame
  fromPeer : List Frame
  closed : Bool
  closeCalls : Nat
  peerSends : Bool
  peerGone : Bool
  sinkHeld : Bool
  sourceHeld : Bool
deriving DecidableEq, Repr

namespace Pipe

def defaultBuffer : Nat := 1024

def create (buffer : Nat) : Pipe := ⟨max buffer 1, [], [], false, 0, true, false, true, true⟩

/-! ## The server's side -/

def send (p : Pipe) (f : Frame) : Pipe × Sending :=
  if p.closed || p.peerGone then (p, .failed .closed)
  else if p.capacity ≤ p.toPeer.length then (p, .waiting)
  else ({ p with toPeer := p.toPeer ++ [f] }, .sent)

def close (p : Pipe) : Pipe := { p with closed := true, closeCalls := p.closeCalls + 1 }

def answer (p : Pipe) : Frame → Pipe
  | .ping bytes =>
    if p.peerGone || p.capacity ≤ p.toPeer.length then p
    else { p with toPeer := p.toPeer ++ [.pong bytes] }
  | _ => p

def receive (p : Pipe) : Pipe × Receiving :=
  if p.closed then (p, .failed .closed)
  else match p.fromPeer with
    | f :: rest => (answer { p with fromPeer := rest } f, .frame f)
    | [] => if p.peerSends then (p, .waiting) else (p, .failed .closed)

def dropSink (p : Pipe) : Pipe := { p with sinkHeld := false }

def dropSource (p : Pipe) : Pipe := { p with sourceHeld := false, fromPeer := [] }

/-! ## The peer's side -/

def peerSend (p : Pipe) (f : Frame) : Pipe × Except TransportError Unit :=
  if p.closed || !p.peerSends || !p.sourceHeld then (p, .error .closed)
  else ({ p with fromPeer := p.fromPeer ++ [f] }, .ok ())

/-- The peer reads a frame; what was sent before a close is still there to be read. -/
def peerRead (p : Pipe) : Pipe × Reading :=
  match p.toPeer with
  | f :: rest => ({ p with toPeer := rest }, .frame f)
  | [] => if p.closed || (!p.sinkHeld && !p.sourceHeld) then (p, .ended) else (p, .waiting)

def disconnect (p : Pipe) : Pipe := { p with peerSends := false }

def dropPeer (p : Pipe) : Pipe := { p with toPeer := [], peerSends := false, peerGone := true }

end Pipe

end PushHub
