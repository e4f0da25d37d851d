import PushHub.Dispatch
import PushHub.Envelope
import PushHub.Mailbox
import PushHub.Subscription
/-!
Membership: which connection stands for which user. Every connection has a mailbox and a published set
of subscriptions; the registry admits connections, fans events out to them, and tells of every change.
At most one connection stands for a user.
-/
namespace PushHub.Registry

/-- A connection as the registry knows it. Its mailbox and its published subscriptions are found
under its number. -/
structure Handle where
  id : ConnectionId
  user : UserId
  endpoint : Nat
deriving DecidableEq, Repr

structure Endpoint where
  mailbox : Mailbox
  published : SubscriptionSet
deriving DecidableEq, Repr

/-- All endpoints there ever were, by number. -/
abbrev Mailroom := List Endpoint

namespace Mailroom

/-- The mailbox under a number that was never given out. -/
def nowhere : Endpoint := ⟨⟨1, [], true, true⟩, .empty none⟩

def get (room : Mailroom) (n : Nat) : Endpoint := room[n]?.getD nowhere

def update (room : Mailroom) (n : Nat) (f : Endpoint → Endpoint) : Mailroom := room.modify n f

def mailbox (room : Mailroom) (n : Nat) : Mailbox := (room.get n).mailbox

def setMailbox (room : Mailroom) (n : Nat) (m : Mailbox) : Mailroom :=
  room.update n fun e => { e with mailbox := m }

def close (room : Mailroom) (n : Nat) : Mailroom :=
  room.update n fun e => { e with mailbox := e.mailbox.close }

def abandon (room : Mailroom) (n : Nat) : Mailroom :=
  room.update n fun e => { e with mailbox := e.mailbox.abandon }

def publish (room : Mailroom) (n : Nat) (s : SubscriptionSet) : Mailroom :=
  room.update n fun e => { e with published := s }

def deliver (room : Mailroom) (n : Nat) (f : Frame) : Mailroom × Except DeliveryError Unit :=
  let (m, r) := (room.mailbox n).deliver f
  (room.setMailbox n m, r)

end Mailroom

inductive DisconnectReason
  | closed
  | superseded
  | shutdown
deriving DecidableEq, Repr

def DisconnectReason.message : DisconnectReason → String
  | .closed => "connection closed"
  | .superseded => "superseded by a newer connection"
  | .shutdown => "hub shutting down"

inductive Event
  | connected (user : UserId) (id : ConnectionId)
  | disconnected (user : UserId) (id : ConnectionId) (reason : DisconnectReason)
  | dropped (user : UserId) (id : ConnectionId) (messageType : String)
deriving DecidableEq, Repr

inductive Registration
  | new
  | superseded (id : ConnectionId)
deriving DecidableEq, Repr

inductive RegistryError
  | full (max : Nat)
  | shuttingDown
  | queueFull
  | channelClosed
deriving DecidableEq, Repr

def RegistryError.message : RegistryError → String
  | .full max => "registry is full (max: " ++ toString max ++ " connections)"
  | .shuttingDown => "registry is shutting down"
  | .queueFull => "registry command queue is full"
  | .channelClosed => "response channel closed"

def RegistryError.tag : RegistryError → String
  | .full _ => "RegistryFull"
  | .shuttingDown => "ShuttingDown"
  | .queueFull => "QueueFull"
  | .channelClosed => "ChannelClosed"

instance : Failure RegistryError := ⟨RegistryError.tag, RegistryError.message⟩

structure Counters where
  dispatched : Nat := 0
  delivered : Nat := 0
  dropped : Nat := 0
  filtered : Nat := 0
deriving DecidableEq, Repr

structure Stats where
  active : Nat
  counters : Counters
deriving DecidableEq, Repr

inductive Command
  | register (h : Handle)
  | unregister (h : Handle)
  | dispatch (r : DispatchRequest)
  | stats
  | online (u : UserId)
  | sweep
  | shutdown
deriving Repr

inductive Reply
  | registered (r : Except RegistryError Registration)
  | stats (s : Stats)
  | online (b : Bool)
  | closed (count : Nat)
deriving Repr

structure Membership where
  entries : List Handle
  counters : Counters
  shuttingDown : Bool
  maxConnections : Nat
  room : Mailroom
deriving DecidableEq, Repr

structure Outcome where
  state : Membership
  events : List Event := []
  reply : Option Reply := none
deriving Repr

namespace Membership

def empty (maxConnections : Nat) : Membership := ⟨[], {}, false, maxConnections, []⟩

def find? (m : Membership) (u : UserId) : Option Handle := m.entries.find? fun h => h.user = u

def stats (m : Membership) : Stats := ⟨m.entries.length, m.counters⟩

def isClosed (m : Membership) (h : Handle) : Bool := (m.room.mailbox h.endpoint).isClosed

def close (m : Membership) (h : Handle) : Membership := { m with room := m.room.close h.endpoint }

def insert (m : Membership) (h : Handle) : Membership :=
  { m with entries := m.entries.filter (fun g => g.user ≠ h.user) ++ [h] }

def erase (m : Membership) (u : UserId) : Membership :=
  { m with entries := m.entries.filter fun g => g.user ≠ u }

/-- Admits a connection. One that is the entry of its user already stays; another one of the same
user makes way, whether or not there is room for more users. -/
def register (m : Membership) (h : Handle) : Outcome :=
  if m.shuttingDown then
    ⟨m.close h, [], some (.registered (.error .shuttingDown))⟩
  else match m.find? h.user with
    | some current =>
      if current.id = h.id then ⟨m, [], some (.registered (.ok .new))⟩
      else
        ⟨(m.insert h).close current,
          [.connected h.user h.id, .disconnected h.user current.id .superseded],
          some (.registered (.ok (.superseded current.id)))⟩
    | none =>
      if m.maxConnections ≤ m.entries.length then
        ⟨m, [], some (.registered (.error (.full m.maxConnections)))⟩
      else ⟨m.insert h, [.connected h.user h.id], some (.registered (.ok .new))⟩

/-- Closes a connection, and removes it if it is still the entry of its user. -/
def unregister (m : Membership) (h : Handle) : Outcome :=
  let m := m.close h
  match m.find? h.user with
  | some current =>
    if current.id = h.id then ⟨m.erase h.user, [.disconnected h.user h.id .closed], none⟩ else ⟨m, [], none⟩
  | none => ⟨m, [], none⟩

def recipients (m : Membership) : Target → List Handle
  | .user u => (m.find? u).toList
  | .all => m.entries

def admits (m : Membership) (h : Handle) (filter : List ChannelName) : Bool :=
  filter.isEmpty || (m.room.get h.endpoint).published.admits filter

def deliver (m : Membership) (h : Handle) (messageType : String) (f : Frame) : Outcome :=
  let (room, r) := m.room.deliver h.endpoint f
  let m := { m with room := room }
  match r with
  | .ok _ => ⟨{ m with counters.delivered := m.counters.delivered + 1 }, [], none⟩
  | .error .full =>
    ⟨{ m with counters.dropped := m.counters.dropped + 1 }, [.dropped h.user h.id messageType], none⟩
  | .error .closed => ⟨{ m with counters.dropped := m.counters.dropped + 1 }, [], none⟩

def offer (m : Membership) (r : DispatchRequest) (f : Frame) (h : Handle) : Outcome :=
  if m.admits h r.channels then m.deliver h r.messageType f
  else ⟨{ m with counters.filtered := m.counters.filtered + 1 }, [], none⟩

def offerAll (m : Membership) (r : DispatchRequest) (f : Frame) : List Handle → Outcome
  | [] => ⟨m, [], none⟩
  | h :: rest =>
    let first := m.offer r f h
    let others := first.state.offerAll r f rest
    ⟨others.state, first.events ++ others.events, none⟩

def frameOf (r : DispatchRequest) : Frame := .text (Envelope.mk r.messageType r.payload).render

def dispatch (m : Membership) (r : DispatchRequest) : Outcome :=
  let m := { m with counters.dispatched := m.counters.dispatched + 1 }
  m.offerAll r (frameOf r) (m.recipients r.target)

def sweep (m : Membership) : Outcome :=
  let (gone, stay) := m.entries.partition m.isClosed
  ⟨{ m with entries := stay }, gone.map fun h => .disconnected h.user h.id .closed, none⟩

def shutdown (m : Membership) : Outcome :=
  let room := m.entries.foldl (fun room h => room.close h.endpoint) m.room
  ⟨{ m with entries := [], shuttingDown := true, room := room },
    m.entries.map fun h => .disconnected h.user h.id .shutdown,
    some (.closed m.entries.length)⟩

def handle (m : Membership) : Command → Outcome
  | .register h => m.register h
  | .unregister h => m.unregister h
  | .dispatch r => m.dispatch r
  | .stats => ⟨m, [], some (.stats m.stats)⟩
  | .online u => ⟨m, [], some (.online (m.find? u).isSome)⟩
  | .sweep => m.sweep
  | .shutdown => m.shutdown

end Membership

end PushHub.Registry
