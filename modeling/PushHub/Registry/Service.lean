import PushHub.Registry.Membership
import PushHub.Settings
/-!
The registry at work: a bounded queue of commands, a clock that asks for sweeps, and a window of
events for an observer that reads them now and then.
-/
namespace PushHub.Registry

/-- A command that waits to be handled, with the number under which its reply is kept. -/
structure Queued where
  command : Command
  ticket : Option Nat
deriving Repr

structure Ticker where
  period : Nat
  next : Nat
deriving DecidableEq, Repr

namespace Ticker

/-- How late a tick may be without moving those after it. -/
def tolerance : Nat := 5

def isDue (t : Ticker) (now : Nat) : Bool := t.next ≤ now

/-- The ticker after the tick that is due; a tick that comes too late moves the later ones. -/
def advance (t : Ticker) (now : Nat) : Ticker :=
  { t with next := if t.next + tolerance < now then now + t.period else t.next + t.period }

end Ticker

/-- Events an observer has not read yet; of more than there is room for, the oldest are lost. -/
structure Window where
  capacity : Nat
  unread : List Event
  lost : Nat
deriving DecidableEq, Repr

namespace Window

def roundUp (n : Nat) : Nat := if n ≤ 1 then 1 else 1 <<< (Nat.log2 (n - 1) + 1)

def create (capacity : Nat) : Window := ⟨roundUp capacity, [], 0⟩

def push (w : Window) (events : List Event) : Window :=
  let all := w.unread ++ events
  let excess := all.length - w.capacity
  ⟨w.capacity, all.drop excess, w.lost + excess⟩

def drain (w : Window) : Window × Nat × List Event := ({ w with unread := [], lost := 0 }, w.lost, w.unread)

end Window

structure Service where
  members : Membership
  queue : List Queued
  capacity : Nat
  running : Bool
  sweeper : Option Ticker
  replies : List (Nat × Reply)
  window : Window
deriving Repr

namespace Service

def start (s : RegistrySettings) (now : Nat) : Service where
  members := .empty s.maxConnections
  queue := []
  capacity := max s.commandBuffer 1
  running := true
  sweeper := some ⟨max s.sweepInterval 1, now + max s.sweepInterval 1⟩
  replies := []
  window := .create s.eventBuffer

def hasRoom (s : Service) : Bool := s.queue.length < s.capacity

def enqueue (s : Service) (c : Command) (ticket : Option Nat) : Service :=
  { s with queue := s.queue ++ [⟨c, ticket⟩] }

def tryDispatch (s : Service) (r : DispatchRequest) : Service × Except RegistryError Unit :=
  if !s.running then (s, .error .channelClosed)
  else if s.hasRoom then (s.enqueue (.dispatch r) none, .ok ())
  else (s, .error .queueFull)

def serve (s : Service) : Service :=
  match s.queue with
  | [] => s
  | q :: rest =>
    let o := s.members.handle q.command
    let replies := match q.ticket, o.reply with
      | some t, some r => s.replies ++ [(t, r)]
      | _, _ => s.replies
    { s with members := o.state, queue := rest, replies := replies, window := s.window.push o.events }

def sweepDue (s : Service) (now : Nat) : Bool :=
  match s.sweeper with
  | some t => t.isDue now && (s.hasRoom || !s.running)
  | none => false

/-- Queues the sweep that is due; there are no more once the registry has stopped. -/
def sweep (s : Service) (now : Nat) : Service :=
  if !s.running then { s with sweeper := none }
  else match s.sweeper with
    | some t => { s.enqueue .sweep none with sweeper := some (t.advance now) }
    | none => s

def collect (s : Service) (ticket : Nat) : Service × Option Reply :=
  ({ s with replies := s.replies.filter fun r => r.1 ≠ ticket }, s.replies.lookup ticket)

/-- Stops at once, forgetting every entry without closing it. -/
def abort (s : Service) : Service :=
  { s with running := false, queue := [], members := { s.members with entries := [] } }

def stop (s : Service) : Service :=
  let room := s.members.entries.foldl (fun room h => room.close h.endpoint) s.members.room
  { s with running := false, members := { s.members with entries := [], room := room } }

def settle (s : Service) : Service := Nat.repeat serve s.queue.length s

def advance (target : Nat) : Nat → Service → Service
  | 0, s => s
  | fuel + 1, s =>
    match s.sweeper with
    | some t =>
      if t.next ≤ target then advance target fuel (s.sweep t.next).settle else s
    | none => s

/-- Queues a command, has it handled and takes its reply; none when the registry has stopped. -/
def call (s : Service) (c : Command) : Service × Option Reply :=
  if !s.running then (s, none)
  else (((s.enqueue c (some 0)).settle).collect 0)

def register (s : Service) (h : Handle) : Service × Except RegistryError Registration :=
  match s.call (.register h) with
  | (s, some (.registered r)) => (s, r)
  | (s, _) => (s, .error .channelClosed)

/-- Has a connection removed; a stopped registry leaves it to the caller to close it. -/
def unregister (s : Service) (h : Handle) : Service :=
  if s.running then (s.call (.unregister h)).1 else { s with members := s.members.close h }

def stats (s : Service) : Service × Except RegistryError Stats :=
  match s.call .stats with
  | (s, some (.stats r)) => (s, .ok r)
  | (s, _) => (s, .error .channelClosed)

def online (s : Service) (u : UserId) : Service × Bool :=
  match s.call (.online u) with
  | (s, some (.online b)) => (s, b)
  | (s, _) => (s, false)

def shutdown (s : Service) : Service × Nat :=
  match s.call .shutdown with
  | (s, some (.closed n)) => (s, n)
  | (s, _) => (s, 0)

def addEndpoint (s : Service) (capacity : Nat) : Service × Nat :=
  ({ s with members := { s.members with
      room := s.members.room ++ [⟨.create capacity, .empty none⟩] } }, s.members.room.length)

def withRoom (s : Service) (f : Mailroom → Mailroom) : Service :=
  { s with members := { s.members with room := f s.members.room } }

end Service

end PushHub.Registry
