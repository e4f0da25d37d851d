import PushHub.Session.Basic
import PushHub.ClientFrame
/-!
The inbound loop: it handles one frame after the other until the client goes, falls silent, or the
mailbox is closed, which is looked at first. A change of subscriptions is published before it is
acknowledged.
-/
namespace PushHub

open Registry (Mailroom Service Handle)

/-- What handling a frame does beyond the loop itself, in order. -/
inductive Reaction
  | publish (s : SubscriptionSet)
  | reply (f : ServerFrame)
deriving DecidableEq, Repr

namespace Inbound

def acknowledged (s : SubscriptionSet) (names : List ChannelName) : List ChannelName :=
  names.filter s.contains

/-- Handles what a client says; a set that reaches its limit keeps what was added before. -/
def react (stamp : Int64) (followed : SubscriptionSet) : ClientFrame → SubscriptionSet × List Reaction
  | .subscribe names =>
    match followed.subscribe names with
    | (s, none) => (s, [.publish s, .reply (.subscribed names)])
    | (s, some e) =>
      (s, [.reply (.error e.message), .publish s, .reply (.subscribed (acknowledged s names))])
  | .unsubscribe names =>
    let s := followed.unsubscribe names
    (s, [.publish s, .reply (.unsubscribed names)])
  | .ping => (followed, [.reply (.pong stamp)])
  | .auth _ => (followed, [])

/-- Handles a frame; all but well-formed texts pass without effect. -/
def handleFrame (e : Surroundings) (followed : SubscriptionSet) : Frame → SubscriptionSet × List Reaction
  | .text t =>
    match ClientFrame.parse t e.settings.maxMessageBytes with
    | .ok c => react e.stamp followed c
    | .error _ => (followed, [])
  | _ => (followed, [])

/-- Carries out one reaction; a reply that the mailbox refuses is lost. -/
def perform (endpoint : Nat) (room : Mailroom) : Reaction → Mailroom
  | .publish s => room.publish endpoint s
  | .reply f => (room.deliver endpoint f.frame).1

def exitOf : TransportError → InboundExit
  | .closed => .peerClosed
  | e => .transport e

def step (e : Surroundings) (h : Handle) (line : Line) (service : Service) :
    Inbound → Option (Line × Service × Inbound)
  | .running deadline followed =>
    if (service.members.room.mailbox h.endpoint).signalled then
      some (line, service, .leaving .mailboxClosed)
    else match line.receive with
      | (line, .frame .close) => some (line, service, .leaving .peerClosed)
      | (line, .frame f) =>
        let (followed, reactions) := handleFrame e followed f
        let service := service.withRoom fun room => reactions.foldl (perform h.endpoint) room
        some (line, service, .running (e.now + e.settings.pongWait) followed)
      | (line, .failed err) => some (line, service, .leaving (exitOf err))
      | (line, .waiting) =>
        if deadline ≤ e.now then some (line, service, .leaving .livenessTimeout) else none
  | .leaving exit =>
    if service.running && !service.hasRoom then none
    else
      let service := if service.running then service.enqueue (.unregister h) none else service
      let service := service.withRoom fun room => room.close h.endpoint
      some (line.dropSource, service, .ended exit)
  | .ended _ => none
  | .absent => none

end Inbound

end PushHub
