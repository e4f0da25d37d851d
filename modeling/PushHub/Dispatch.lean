import PushHub.Identity
import PushHub.Channel
/-!
What a publisher asks of the hub: an event for one user or for all, and the channels of which a
recipient must follow at least one.
-/
namespace PushHub

inductive Target
  | user (u : UserId)
  | all
deriving DecidableEq, Repr

structure DispatchRequest where
  target : Target
  messageType : String
  payload : Json
  /-- Recipients follow one of these; when there are none, every recipient is meant. -/
  channels : List ChannelName := []
deriving Repr

namespace DispatchRequest

def toUser (u : UserId) (messageType : String) (payload : Json) : DispatchRequest :=
  ⟨.user u, messageType, payload, []⟩

def broadcast (messageType : String) (payload : Json) : DispatchRequest :=
  ⟨.all, messageType, payload, []⟩

def withChannels (r : DispatchRequest) (channels : List ChannelName) : DispatchRequest :=
  { r with channels := channels }

def isFiltered (r : DispatchRequest) : Bool := !r.channels.isEmpty

end DispatchRequest

end PushHub
