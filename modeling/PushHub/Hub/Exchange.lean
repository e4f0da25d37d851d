import PushHub.Hub.Basic
/-!
A hub and its clients: whatever the hub writes, clients that read by themselves take at once, until
neither side has anything left to do.
-/
namespace PushHub

namespace Session

def clientReads (s : Session) : Nat → Session × List Frame
  | 0 => (s, [])
  | limit + 1 =>
    match s.line.wire.clientRead with
    | (wire, .frame f) =>
      let (s, frames) := clientReads { s with line.wire := wire } limit
      (s, f :: frames)
    | _ => (s, [])

abbrev Received := List (Nat × List Frame)

def framesOf (r : Received) (session : Nat) : List Frame :=
  (r.filter fun e => e.1 = session).flatMap Prod.snd

end Session

namespace Hub

open Session (Received)

def onClient (h : Hub) (i : Nat) (f : Wire → Wire) : Hub :=
  match h.sessions[i]? with
  | some s => h.setSession i { s with line.wire := f s.line.wire }
  | none => h

def clientSend (h : Hub) (i : Nat) (f : Frame) : Hub × Except TransportError Unit :=
  match h.sessions[i]? with
  | some s =>
    let (wire, result) := s.line.wire.clientSend f
    (h.setSession i { s with line.wire := wire }, result)
  | none => (h, .error .closed)

def clientRead (h : Hub) (i limit : Nat) : Hub × List Frame :=
  match h.sessions[i]? with
  | some s =>
    let (s, frames) := s.clientReads (min limit s.line.wire.unseen)
    (h.setSession i s, frames)
  | none => (h, [])

def readRound (h : Hub) : List Nat → Hub × Received
  | [] => (h, [])
  | i :: rest =>
    let (h, frames) := match h.sessions[i]? with
      | some s => h.clientRead i s.line.wire.unseen
      | none => (h, [])
    let (h, others) := readRound h rest
    (h, if frames.isEmpty then others else (i, frames) :: others)

def rounds (readers : List Nat) : Nat → Hub → Hub × Received
  | 0, h => (h.settle, [])
  | fuel + 1, h =>
    match h.settle.readRound readers with
    | (h, []) => (h, [])
    | (h, received) =>
      let (h, later) := rounds readers fuel h
      (h, received ++ later)

/-- Lets the hub and the readers take turns until nothing moves. Every turn has something to read
that was not there before, so the work that is left bounds the turns. -/
def exchange (h : Hub) (readers : List Nat) : Hub × Received := rounds readers (h.work + 1) h

end Hub

end PushHub
