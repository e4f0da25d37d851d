import PushHub.Session.Basic
/-!
The outbound loop: it writes what the mailbox holds, and a ping whenever one falls due. When the
mailbox is closed or a write fails it closes both the mailbox and the transport, the latter once.
-/
namespace PushHub

open Registry (Mailroom Service Handle Ticker)

namespace Outbound

def minPeriod : Nat := 1

def start (e : Surroundings) : Outbound :=
  let period := max e.settings.pingPeriod minPeriod
  .idle ⟨period, e.now + period⟩

def failure (keeping : Bool) (err : TransportError) : OutboundExit :=
  if keeping then .pingFailed err else .writeFailed err

def stop (h : Handle) (line : Line) (service : Service) (exit : OutboundExit) :
    Option (Line × Service × Outbound) :=
  some (line, service.withRoom fun room => room.close h.endpoint, .closing exit)

def keepAlive (e : Surroundings) (line : Line) (service : Service) :
    Outbound → Option (Line × Service × Outbound)
  | .idle keepalive =>
    if keepalive.isDue e.now then
      some (line, service, .writing (.ping []) true e.writeDeadline (keepalive.advance e.now))
    else none
  | _ => none

/-- One step of the loop of a connection, none while it waits. Between a frame and a ping that is due
the loop may choose; here the frame comes first. -/
def step (e : Surroundings) (h : Handle) (line : Line) (service : Service) :
    Outbound → Option (Line × Service × Outbound)
  | .idle keepalive =>
    match (service.members.room.mailbox h.endpoint).take with
    | (mailbox, .frame f) =>
      some (line, service.withRoom fun room => room.setMailbox h.endpoint mailbox,
        .writing f false e.writeDeadline keepalive)
    | (_, .ended) => stop h line service .mailboxClosed
    | (_, .waiting) => keepAlive e line service (.idle keepalive)
  | .writing f keeping deadline keepalive =>
    match line.send f with
    | (line, .sent) => some (line, service, .idle keepalive)
    | (line, .failed err) => stop h line service (failure keeping err)
    | (line, .waiting) =>
      if deadline ≤ e.now then stop h line.cancelSend service (failure keeping .writeTimeout) else none
  | .closing exit =>
    some (line.close.dropSink, service.withRoom fun room => room.abandon h.endpoint, .ended exit)
  | .ended _ => none
  | .absent => none

end Outbound

end PushHub
