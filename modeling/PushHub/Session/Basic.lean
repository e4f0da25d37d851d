import PushHub.Registry.Service
import PushHub.Transport.Line
import PushHub.ServerFrame
import PushHub.Auth.Verifier
/-!
A session is what becomes of a transport handed to the hub: a handshake, an admission, and two loops,
or a refusal.
-/
namespace PushHub

open Registry (Handle Service RegistryError)

inductive HandshakeError
  /-- No credential came in time, given in milliseconds. -/
  | timeout (after : Nat)
  | transportClosed
  | transport (e : TransportError)
deriving DecidableEq, Repr

namespace HandshakeError

def ofTransport : TransportError → HandshakeError
  | .closed => .transportClosed
  | e => .transport e

def message : HandshakeError → String
  | .timeout after => "authentication timed out after " ++ toString (after / 1000) ++ "s"
  | .transportClosed => "connection closed during authentication"
  | .transport e => "transport error during authentication: " ++ e.message

def tag : HandshakeError → String
  | .timeout _ => "Handshake.Timeout"
  | .transportClosed => "Handshake.TransportClosed"
  | .transport _ => "Handshake.Transport"

end HandshakeError

instance : Failure HandshakeError := ⟨HandshakeError.tag, HandshakeError.message⟩

inductive AdmitError
  | handshake (e : HandshakeError)
  | registry (e : RegistryError)
  | transport (e : TransportError)
deriving DecidableEq, Repr

namespace AdmitError

def message : AdmitError → String
  | .handshake e => e.message
  | .registry e => "registration refused: " ++ e.message
  | .transport e => "transport failed during admission: " ++ e.message

def reason : AdmitError → String
  | .handshake e => e.message
  | .registry e => e.message
  | .transport e => e.message

def tag : AdmitError → String
  | .handshake e => e.tag
  | .registry _ => "Registry"
  | .transport _ => "Transport"

end AdmitError

instance : Failure AdmitError := ⟨AdmitError.tag, AdmitError.message⟩

inductive InboundExit
  | peerClosed
  | transport (e : TransportError)
  | livenessTimeout
  | mailboxClosed
deriving DecidableEq, Repr

def TransportError.label : TransportError → String
  | .closed => "Closed"
  | .writeTimeout => "WriteTimeout"
  | .io reason => "Io(\"" ++ String.ofList (reason.toList.flatMap debugChar) ++ "\")"

def InboundExit.label : InboundExit → String
  | .peerClosed => "PeerClosed"
  | .transport e => "Transport(" ++ e.label ++ ")"
  | .livenessTimeout => "LivenessTimeout"
  | .mailboxClosed => "MailboxClosed"

inductive Inbound
  | running (deadline : Nat) (followed : SubscriptionSet)
  | leaving (exit : InboundExit)
  | ended (exit : InboundExit)
  | absent
deriving DecidableEq, Repr

inductive OutboundExit
  | mailboxClosed
  | writeFailed (e : TransportError)
  | pingFailed (e : TransportError)
deriving DecidableEq, Repr

def OutboundExit.label : OutboundExit → String
  | .mailboxClosed => "MailboxClosed"
  | .writeFailed e => "WriteFailed(" ++ e.label ++ ")"
  | .pingFailed e => "PingFailed(" ++ e.label ++ ")"

inductive Outbound
  | idle (keepalive : Registry.Ticker)
  | writing (frame : Frame) (keeping : Bool) (deadline : Nat) (keepalive : Registry.Ticker)
  /-- The mailbox is closed, and the transport is about to be. -/
  | closing (exit : OutboundExit)
  | ended (exit : OutboundExit)
  | absent
deriving DecidableEq, Repr

inductive Phase
  | prompting (deadline : Nat)
  | awaiting (deadline : Nat)
  /-- The client is being told that it is refused; its endpoint, if it has one, goes with it. -/
  | rejecting (why : AdmitError) (deadline : Nat) (endpoint : Option Nat)
  | registering (h : Handle) (asked : Bool)
  | greeting (h : Handle) (deadline : Nat)
  /-- The greeting failed, and the connection is about to be unregistered. -/
  | withdrawing (h : Handle) (e : TransportError)
  | admitted (h : Handle) (inbound : Inbound) (outbound : Outbound)
  | refused (why : AdmitError)
deriving DecidableEq, Repr

structure Session where
  line : Line
  phase : Phase
deriving DecidableEq, Repr

/-- What every session works with: settings, the verifier, the wall clock in seconds and the time that
has passed in milliseconds. -/
structure Surroundings where
  settings : ConnectionSettings
  verifier : Auth.Verifier
  clock : UInt64
  now : Nat

namespace Surroundings

def writeDeadline (e : Surroundings) : Nat := e.now + e.settings.writeWait

def stamp (e : Surroundings) : Int64 := e.clock.toInt64

end Surroundings

def ServerFrame.frame (f : ServerFrame) : Frame := .text f.render

namespace Session

def result? (s : Session) : Option (Except AdmitError ConnectionId) :=
  match s.phase with
  | .admitted h _ _ => some (.ok h.id)
  | .refused why => some (.error why)
  | _ => none

def due? (s : Session) : List Nat :=
  match s.phase with
  | .prompting t => [t]
  | .awaiting t => [t]
  | .rejecting _ t _ => [t]
  | .greeting _ t => [t]
  | .admitted _ inbound outbound =>
    (match inbound with
      | .running t _ => [t]
      | _ => []) ++
    (match outbound with
      | .idle k => [k.next]
      | .writing _ _ t _ => [t]
      | _ => [])
  | _ => []

end Session

end PushHub
