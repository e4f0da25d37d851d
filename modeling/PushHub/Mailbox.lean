import PushHub.Frame
/-!
Mailboxes: a bounded queue of frames with any number of senders and one receiver. Closing is a signal
that either side gives; once it is given nothing is accepted and nothing is handed out, even if
frames are still queued.
-/
namespace PushHub

structure Mailbox where
  capacity : Nat
  queue : List Frame
  signalled : Bool
  /-- The receiver is gone, with or without a signal. -/
  abandoned : Bool
deriving DecidableEq, Repr

namespace Mailbox

def create (capacity : Nat) : Mailbox := ⟨max capacity 1, [], false, false⟩

def size (m : Mailbox) : Nat := m.queue.length

def isFull (m : Mailbox) : Bool := m.capacity ≤ m.size

def isClosed (m : Mailbox) : Bool := m.signalled || m.abandoned

def refusal? (m : Mailbox) : Option DeliveryError :=
  if m.isClosed then some .closed else if m.isFull then some .full else none

def deliver (m : Mailbox) (f : Frame) : Mailbox × Except DeliveryError Unit :=
  match m.refusal? with
  | some e => (m, .error e)
  | none => ({ m with queue := m.queue ++ [f] }, .ok ())

inductive Taken
  | frame (f : Frame)
  | ended
  | waiting
deriving DecidableEq, Repr

def take (m : Mailbox) : Mailbox × Taken :=
  if m.signalled then (m, .ended)
  else match m.queue with
    | [] => (m, .waiting)
    | f :: rest => ({ m with queue := rest }, .frame f)

inductive Stop
  | limit
  | ended
  | waiting
deriving DecidableEq, Repr

def takeMany (m : Mailbox) : Nat → Mailbox × List Frame × Stop
  | 0 => (m, [], .limit)
  | limit + 1 =>
    match m.take with
    | (m, .frame f) =>
      let (m, frames, stop) := takeMany m limit
      (m, f :: frames, stop)
    | (m, .ended) => (m, [], .ended)
    | (m, .waiting) => (m, [], .waiting)

def close (m : Mailbox) : Mailbox := { m with signalled := true }

def abandon (m : Mailbox) : Mailbox := { m with queue := [], abandoned := true }

end Mailbox

end PushHub
