import PushHub.Session.Admission
/-!
The hub: a registry and the sessions of every transport handed to it. Its parts move one at a time;
what they do does not depend on who decides their order.
-/
namespace PushHub

open Registry (Service)

structure Hub where
  settings : ConnectionSettings
  verifier : Auth.Verifier
  channels : List ChannelName
  /-- The wall clock in seconds since 1970. -/
  clock : UInt64
  /-- Milliseconds since the hub was started. -/
  now : Nat
  nextId : Nat
  service : Service
  sessions : List Session

inductive Move
  | serve
  | sweep
  | admission (session : Nat)
  | inbound (session : Nat)
  | outbound (session : Nat)
  /-- An outbound loop takes up a ping that is due, though frames may wait. -/
  | keepalive (session : Nat)
deriving DecidableEq, Repr

namespace Hub

def start (settings : ConnectionSettings) (registry : RegistrySettings) (verifier : Auth.Verifier)
    (channels : List ChannelName) (clock : UInt64) : Hub :=
  ⟨settings, verifier, channels, clock, 0, 1, .start registry 0, []⟩

def surroundings (h : Hub) : Surroundings := ⟨h.settings, h.verifier, h.clock, h.now⟩

def desk (h : Hub) : Desk := ⟨h.service, h.nextId⟩

def setSession (h : Hub) (i : Nat) (s : Session) : Hub := { h with sessions := h.sessions.set i s }

/-- Moves one part; none when it has to wait. -/
def move (h : Hub) : Move → Option Hub
  | .serve => if h.service.queue.isEmpty then none else some { h with service := h.service.serve }
  | .sweep =>
    if h.service.sweepDue h.now then some { h with service := h.service.sweep h.now } else none
  | .admission i => do
    let s ← h.sessions[i]?
    let (d, s) ← Admission.step h.surroundings i h.desk s
    some ({ h with service := d.service, nextId := d.nextId }.setSession i s)
  | .inbound i => do
    let s ← h.sessions[i]?
    match s.phase with
    | .admitted c inbound outbound =>
      let (line, service, inbound) ← inbound.step h.surroundings c s.line h.service
      some ({ h with service := service }.setSession i ⟨line, .admitted c inbound outbound⟩)
    | _ => none
  | .outbound i => do
    let s ← h.sessions[i]?
    match s.phase with
    | .admitted c inbound outbound =>
      let (line, service, outbound) ← outbound.step h.surroundings c s.line h.service
      some ({ h with service := service }.setSession i ⟨line, .admitted c inbound outbound⟩)
    | _ => none
  | .keepalive i => do
    let s ← h.sessions[i]?
    match s.phase with
    | .admitted c inbound outbound =>
      let (line, service, outbound) ← outbound.keepAlive h.surroundings s.line h.service
      some ({ h with service := service }.setSession i ⟨line, .admitted c inbound outbound⟩)
    | _ => none

def accept (h : Hub) (line : Line) : Hub × Nat :=
  ({ h with sessions := h.sessions ++ [⟨line, .prompting h.surroundings.writeDeadline⟩] },
    h.sessions.length)

def register (h : Hub) (u : UserId) (line : Line) : Hub × Nat :=
  let (d, phase) := Admission.assign h.surroundings h.desk u
  ({ h with
      service := d.service
      nextId := d.nextId
      sessions := h.sessions ++ [⟨line, phase⟩] }, h.sessions.length)

/-- Takes a transport of a user who is a connection already, the first one of this hub; either loop may
be left out, and the registry need not know. -/
def attach (h : Hub) (u : UserId) (line : Line) (reads writes registered : Bool) : Hub × Nat :=
  let (service, endpoint) := h.service.addEndpoint h.settings.mailboxCapacity
  let c : Registry.Handle := ⟨⟨1⟩, u, endpoint⟩
  let service := if registered then (service.register c).1 else service
  let (inbound, outbound) := Admission.loops h.surroundings
  let phase := Phase.admitted c (if reads then inbound else .absent) (if writes then outbound else .absent)
  ({ h with service := service, sessions := h.sessions ++ [⟨line, phase⟩] }, h.sessions.length)

/-! ## Running -/

/-- Every part, in the order in which they get to move: the registry, then what reads, then what
writes. A ping waits until its loop has nothing else to write. -/
def moves (h : Hub) : List Move :=
  let n := h.sessions.length
  .serve :: .sweep :: ((List.range n).map .admission ++ (List.range n).map .inbound ++
    (List.range n).map .outbound)

def advanceOne (h : Hub) : Option Hub := h.moves.findSome? h.move

def run : Nat → Hub → Hub
  | 0, h => h
  | fuel + 1, h =>
    match h.advanceOne with
    | some h => run fuel h
    | none => h

/-- An upper bound on the moves until every part waits. -/
def work (h : Hub) : Nat :=
  let n := h.sessions.length + 1
  let unread := h.sessions.foldl (fun n s => n + s.line.wire.unread) 0
  let frames := h.service.members.room.foldl (fun n e => n + e.mailbox.size) unread
  20 * n + 8 * frames + (4 * n + 4) * h.service.queue.length

def settle (h : Hub) : Hub := run h.work h

def nextDue? (h : Hub) : Option Nat :=
  let times := (h.service.sweeper.map Registry.Ticker.next).toList ++ h.sessions.flatMap Session.due?
  (times.filter (h.now < ·)).min?

/-- Lets time pass up to `target`, at most `fuel` parts of it at which something falls due. -/
def passUntil (target : Nat) : Nat → Hub → Hub
  | 0, h => h
  | fuel + 1, h =>
    match h.nextDue? with
    | some t =>
      if t ≤ target then passUntil target fuel { h with now := t }.settle
      else { h with now := target }
    | none => { h with now := target }

def pass (h : Hub) (ms : Nat) : Hub := passUntil (h.now + ms) (ms + 1) h

end Hub

end PushHub
