import PushHub.Session.Inbound
import PushHub.Session.Outbound
/-!
From a transport to a connection. The handshake prompts the client and waits for a credential that the
verifier accepts; whatever else comes is passed over. A connection is registered before the client is
greeted, and the greeting is written before anything else goes to the client.
-/
namespace PushHub

open Registry (Service Handle)

/-- What admissions share: the registry, and the number of the next connection. -/
structure Desk where
  service : Service
  nextId : Nat

namespace Admission

inductive Verdict
  | accepted (u : UserId)
  | closed
  | ignored
deriving DecidableEq, Repr

def judge (e : Surroundings) : Frame → Verdict
  | .text t =>
    match ClientFrame.parse t e.settings.maxMessageBytes with
    | .ok (.auth token) =>
      match e.verifier e.clock token with
      | .ok u => .accepted u
      | .error _ => .ignored
    | _ => .ignored
  | .close => .closed
  | _ => .ignored

def prompt (e : Surroundings) : Frame :=
  (ServerFrame.prompt (UInt64.ofNat (e.settings.authTimeout / 1000))).frame

def assign (e : Surroundings) (d : Desk) (u : UserId) : Desk × Phase :=
  let (service, endpoint) := d.service.addEndpoint e.settings.mailboxCapacity
  (⟨service, d.nextId + 1⟩, .registering ⟨⟨UInt64.ofNat d.nextId⟩, u, endpoint⟩ false)

def reject (e : Surroundings) (why : AdmitError) (endpoint : Option Nat) : Phase :=
  .rejecting why e.writeDeadline endpoint

/-- Closes the transport of a client that is refused, and forgets its endpoint. -/
def refuse (d : Desk) (line : Line) (why : AdmitError) (endpoint : Option Nat) : Desk × Session :=
  let service := match endpoint with
    | some n => d.service.withRoom fun room => room.abandon n
    | none => d.service
  ({ d with service := service }, ⟨line.close.dropSink.dropSource, .refused why⟩)

def loops (e : Surroundings) : Inbound × Outbound :=
  (.running (e.now + e.settings.pongWait) (.empty (some e.settings.maxSubscriptions)), .start e)

def connected (e : Surroundings) (h : Handle) : Phase := .admitted h (loops e).1 (loops e).2

/-- One step of the admission of a session, none while it waits. Replies are kept under `ticket`. -/
def step (e : Surroundings) (ticket : Nat) (d : Desk) (s : Session) : Option (Desk × Session) :=
  match s.phase with
  | .prompting deadline =>
    match s.line.send (prompt e) with
    | (line, .sent) => some (d, ⟨line, .awaiting (e.now + e.settings.authTimeout)⟩)
    | (line, .failed err) => some (d, ⟨line, reject e (.handshake (.ofTransport err)) none⟩)
    | (line, .waiting) =>
      if deadline ≤ e.now then
        some (d, ⟨line.cancelSend, reject e (.handshake (.ofTransport .writeTimeout)) none⟩)
      else none
  | .awaiting deadline =>
    match s.line.receive with
    | (line, .frame f) =>
      match judge e f with
      | .accepted u =>
        let (d, phase) := assign e d u
        some (d, ⟨line, phase⟩)
      | .closed => some (d, ⟨line, reject e (.handshake .transportClosed) none⟩)
      | .ignored => some (d, ⟨line, s.phase⟩)
    | (line, .failed err) => some (d, ⟨line, reject e (.handshake (.ofTransport err)) none⟩)
    | (line, .waiting) =>
      if deadline ≤ e.now then
        some (d, ⟨line, reject e (.handshake (.timeout e.settings.authTimeout)) none⟩)
      else none
  | .rejecting why deadline endpoint =>
    match s.line.send (ServerFrame.authFailed why.reason).frame with
    | (line, .waiting) => if deadline ≤ e.now then some (refuse d line why endpoint) else none
    | (line, _) => some (refuse d line why endpoint)
  | .registering h false =>
    if !d.service.running then
      some (d, { s with phase := reject e (.registry .channelClosed) (some h.endpoint) })
    else if d.service.hasRoom then
      some ({ d with service := d.service.enqueue (.register h) (some ticket) },
        { s with phase := .registering h true })
    else none
  | .registering h true =>
    match d.service.collect ticket with
    | (service, some (.registered (.ok _))) =>
      some ({ d with service := service }, { s with phase := .greeting h e.writeDeadline })
    | (service, some (.registered (.error err))) =>
      some ({ d with service := service },
        { s with phase := reject e (.registry err) (some h.endpoint) })
    | _ =>
      if d.service.running then none
      else some (d, { s with phase := reject e (.registry .channelClosed) (some h.endpoint) })
  | .greeting h deadline =>
    match s.line.send (ServerFrame.authSuccess h.user).frame with
    | (line, .sent) => some (d, ⟨line, connected e h⟩)
    | (line, .failed err) => some (d, ⟨line, .withdrawing h err⟩)
    | (line, .waiting) =>
      if deadline ≤ e.now then some (d, ⟨line.cancelSend, .withdrawing h .writeTimeout⟩) else none
  | .withdrawing h err =>
    if d.service.running && !d.service.hasRoom then none
    else
      let service := if d.service.running then d.service.enqueue (.unregister h) none
        else d.service.withRoom fun room => room.close h.endpoint
      some (refuse { d with service := service } s.line (.transport err) (some h.endpoint))
  | .admitted .. => none
  | .refused _ => none

end Admission

end PushHub
