import PushHub.Registry.Membership
/-!
Events as an observer writes them down. The registry makes no promise on the order of like events that
come of one cause, so a journal puts them in the order of users and connections.
-/
namespace PushHub.Registry.Event

def user : Event → UserId
  | .connected u _ => u
  | .disconnected u _ _ => u
  | .dropped u _ _ => u

def connection : Event → ConnectionId
  | .connected _ c => c
  | .disconnected _ c _ => c
  | .dropped _ c _ => c

def alike : Event → Event → Bool
  | .connected .., .connected .. => true
  | .disconnected _ _ r, .disconnected _ _ s => r = s
  | .dropped .., .dropped .. => true
  | _, _ => false

def before (a b : Event) : Bool :=
  a.user.value < b.user.value || (a.user = b.user && a.connection.value ≤ b.connection.value)

def tidy (events : List Event) : List Event :=
  (events.splitBy alike).flatMap fun run => run.mergeSort before

def toJson : Event → Json
  | .connected u c => .list [.text "connected", u.toJson, c.toJson]
  | .disconnected u c r => .list [.text "disconnected", u.toJson, c.toJson, .text r.message]
  | .dropped u c t => .list [.text "dropped", u.toJson, c.toJson, .text t]

end PushHub.Registry.Event
