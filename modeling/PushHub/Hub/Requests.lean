import PushHub.Auth.Policy
import PushHub.Event
import PushHub.Hub.Basic
/-!
What publishers and operators ask of a hub. A dispatch is queued or refused at once; the registry
handles it when it gets to move. The other requests let the hub move until it waits.
-/
namespace PushHub

inductive DispatchError
  | queueFull
  | hubStopped
  | encode (reason : String)
deriving DecidableEq, Repr

namespace DispatchError

def message : DispatchError → String
  | .queueFull => "hub queue is full, notification dropped"
  | .hubStopped => "hub is stopped"
  | .encode reason => "failed to encode payload: " ++ reason

def ofRegistry : Registry.RegistryError → DispatchError
  | .queueFull => .queueFull
  | _ => .hubStopped

def tag : DispatchError → String
  | .queueFull => "QueueFull"
  | .hubStopped => "HubStopped"
  | .encode _ => "Encode"

end DispatchError

instance : Failure DispatchError := ⟨DispatchError.tag, DispatchError.message⟩

structure HubStatus where
  channels : List ChannelName
  stats : Registry.Stats
deriving DecidableEq, Repr

namespace HubStatus

def statsMembers (s : Registry.Stats) : List (String × Json) :=
  [("active_connections", .nat (UInt64.ofNat s.active)),
    ("dispatched", .nat (UInt64.ofNat s.counters.dispatched)),
    ("delivered", .nat (UInt64.ofNat s.counters.delivered)),
    ("dropped", .nat (UInt64.ofNat s.counters.dropped)),
    ("filtered", .nat (UInt64.ofNat s.counters.filtered))]

def members (s : HubStatus) : List (String × Json) :=
  [("active_connections", .nat (UInt64.ofNat s.stats.active)),
    ("channels", .list (s.channels.map ChannelName.toJson)),
    ("stats", .object (statsMembers s.stats))]

def render (s : HubStatus) : String := (Json.object s.members).render

end HubStatus

namespace DispatchRequest

def taskUpdate (u : UserId) (t : TaskUpdate) : DispatchRequest :=
  (toUser u TaskUpdate.eventType (.ofMembers t.members)).withChannels [taskUpdates]

def accountStatusChange (u : UserId) (a : AccountStatusChange) : DispatchRequest :=
  (toUser u AccountStatusChange.eventType (.ofMembers a.members)).withChannels [accountStatus]

def systemNotice (n : SystemNotice) : DispatchRequest :=
  (broadcast SystemNotice.eventType (.ofMembers n.members)).withChannels [systemNotices]

end DispatchRequest

inductive HubError
  | invalid (f : ConfigFault)
  /-- The machine gives no queue of that length, and asking for it ends the program. -/
  | queueTooLong (capacity : Nat)
deriving DecidableEq, Repr

namespace Hub

open Registry (Service RegistryError)

def ofConfig (c : Config) (clock : UInt64) : Except HubError Hub := do
  let verifier ← (Auth.policy c.auth).mapError fun e => .invalid (.credentials e)
  let channels ← c.channelNames.mapError .invalid
  let hub := start c.connectionSettings c.registrySettings verifier channels clock
  if longestQueue < hub.service.capacity then .error (.queueTooLong hub.service.capacity)
  else .ok hub

def verify (h : Hub) (token : String) : Except Auth.AuthError UserId := h.verifier h.clock token

def dispatch (h : Hub) (r : DispatchRequest) : Hub × Except DispatchError Unit :=
  let (service, result) := h.service.tryDispatch r
  ({ h with service := service }, result.mapError .ofRegistry)

def status (h : Hub) : Hub × Except RegistryError HubStatus :=
  let h := h.settle
  let (service, result) := h.service.stats
  ({ h with service := service }, result.map fun s => ⟨h.channels, s⟩)

def online (h : Hub) (u : UserId) : Hub × Bool :=
  let h := h.settle
  let (service, result) := h.service.online u
  ({ h with service := service }, result)

def shutdown (h : Hub) : Hub × Nat :=
  let h := h.settle
  let (service, n) := h.service.shutdown
  ({ h with service := service }, n)

end Hub

end PushHub
