import PushHub.Transport.Pipe

/-! An in-memory transport in use: what its sink, its source and its peer do to it, call by call, with
the send that waits for room, and what is seen of these calls. -/
namespace PushHub

def Receiving.frames : Receiving → List Frame
  | .frame f => [f]
  | _ => []

def Reading.frames : Reading → List Frame
  | .frame f => [f]
  | _ => []

namespace Pipe

/-! ## Calls -/

/-- A pipe with the frame of the send that waits for room in it, if one does. A receive or a read that
waits leaves nothing behind: to wait on, to begin again and to give up come to the same. -/
structure InUse where
  pipe : Pipe
  waiting : Option Frame
deriving DecidableEq, Repr

namespace InUse

def fresh (b : Nat) : InUse := ⟨create b, none⟩

def send (s : InUse) (f : Frame) : InUse × Sending :=
  let (p, r) := s.pipe.send f
  (⟨p, if r = .waiting then some f else none⟩, r)

/-- The places in the queue that are spoken for. Room is given out in the order in which it is asked
for: a place that comes free while a send waits is kept for that send. -/
def promised (s : InUse) : Nat := s.waiting.toList.length

/-- The pipe as the source finds it, which is never the first to ask while a send waits. -/
def narrowed (s : InUse) : Pipe := { s.pipe with capacity := s.pipe.capacity - s.promised }

def receive (s : InUse) : InUse × Receiving :=
  (⟨{ s.narrowed.receive.1 with capacity := s.pipe.capacity }, s.waiting⟩, s.narrowed.receive.2)

/-- What becomes of a send that gets its turn, if that is its end. -/
def outcome (s : InUse) (f : Frame) : List (Frame × Sending) :=
  if (s.send f).2 = .waiting then [] else [(f, (s.send f).2)]

def givenUp (s : InUse) : List (Frame × Sending) := s.waiting.toList.map fun f => (f, .waiting)

end InUse

/-- What is done to a pipe. The sink is at one call at a time: to begin another one, or to let go of
the sink, is to give up the send that waits. -/
inductive Call
  | send (f : Frame)
  | resume
  | cancel
  | close
  | receive
  | dropSink
  | dropSource
  | peerSend (f : Frame)
  | peerRead
  | disconnect
  | dropPeer
deriving DecidableEq, Repr

namespace Call

def on (s : InUse) : Call → InUse
  | .send f => (s.send f).1
  | .resume => s.waiting.elim s fun f => (s.send f).1
  | .cancel => ⟨s.pipe, none⟩
  | .close => ⟨s.pipe.close, none⟩
  | .receive => s.receive.1
  | .dropSink => ⟨s.pipe.dropSink, none⟩
  | .dropSource => ⟨s.pipe.dropSource, s.waiting⟩
  | .peerSend f => ⟨(s.pipe.peerSend f).1, s.waiting⟩
  | .peerRead => ⟨s.pipe.peerRead.1, s.waiting⟩
  | .disconnect => ⟨s.pipe.disconnect, s.waiting⟩
  | .dropPeer => ⟨s.pipe.dropPeer, s.waiting⟩

def begins : Call → List Frame
  | .send f => [f]
  | _ => []

def ends (s : InUse) : Call → List (Frame × Sending)
  | .send f => s.givenUp ++ s.outcome f
  | .resume => s.waiting.toList.flatMap s.outcome
  | .cancel => s.givenUp
  | .close => s.givenUp
  | .dropSink => s.givenUp
  | _ => []

/-- What the source puts into the queue of the peer. -/
def answers (s : InUse) : Call → List Frame
  | .receive => s.receive.1.pipe.toPeer.drop s.pipe.toPeer.length
  | _ => []

def reads (s : InUse) : Call → List Frame
  | .peerRead => s.pipe.peerRead.2.frames
  | _ => []

def posts (s : InUse) : Call → List Frame
  | .peerSend f => ((s.pipe.peerSend f).2.toOption.map fun _ => f).toList
  | _ => []

def hands (s : InUse) : Call → List Frame
  | .receive => s.receive.2.frames
  | _ => []

end Call

inductive Writer
  | sink
  | source
deriving DecidableEq, Repr

def share (w : Writer) (written : List (Writer × Frame)) : List Frame :=
  (written.filter fun e => e.1 = w).map Prod.snd

def delivered (ends : List (Frame × Sending)) : List Frame :=
  (ends.filter fun e => e.2 = .sent).map Prod.fst

/-- What is seen of the calls on a pipe, each list in the order of time. -/
structure Log where
  begun : List Frame := []
  ended : List (Frame × Sending) := []
  /-- The frames that the sink has sent and the pongs of the source. -/
  written : List (Writer × Frame) := []
  read : List Frame := []
  posted : List Frame := []
  handed : List Frame := []
deriving DecidableEq, Repr

namespace Log

def note (l : Log) (s : InUse) (c : Call) : Log where
  begun := l.begun ++ c.begins
  ended := l.ended ++ c.ends s
  written := l.written ++ (delivered (c.ends s)).map (.sink, ·) ++ (c.answers s).map (.source, ·)
  read := l.read ++ c.reads s
  posted := l.posted ++ c.posts s
  handed := l.handed ++ c.hands s

end Log

/-- A pipe with room for `b` frames, or for one if that is none, after some calls. -/
def run (b : Nat) (calls : List Call) : InUse × Log :=
  calls.foldl (fun x c => (c.on x.1, x.2.note x.1 c)) (.fresh b, {})

theorem run_snoc (b : Nat) (calls : List Call) (c : Call) :
    run b (calls ++ [c]) = (c.on (run b calls).1, (run b calls).2.note (run b calls).1 c) := by
  unfold run
  rw [List.foldl_append, List.foldl_cons, List.foldl_nil]

/-! ## What one call does -/

def pongs (p : Pipe) : Frame → List Frame
  | .ping bytes =>
    if p.peerGone = false ∧ p.toPeer.length < p.capacity then [.pong bytes] else []
  | _ => []

theorem answer_eq (p : Pipe) (f : Frame) :
    p.answer f = { p with toPeer := p.toPeer ++ p.pongs f } := by
  cases f with
  | ping bytes =>
    unfold answer pongs
    dsimp only
    by_cases hroom : p.peerGone = false ∧ p.toPeer.length < p.capacity
    · rw [if_pos hroom, if_neg]
      simpa [hroom.1] using hroom.2
    · rw [if_neg hroom, List.append_nil, if_pos]
      cases hgone : p.peerGone <;> simp_all
  | _ => simp [answer, pongs]

theorem pongs_cases (p : Pipe) (f : Frame) : p.pongs f = [] ∨ p.peerGone = false ∧
    p.toPeer.length < p.capacity ∧ ∃ bytes, f = .ping bytes ∧ p.pongs f = [.pong bytes] := by
  cases f with
  | ping bytes =>
    unfold pongs
    by_cases hroom : p.peerGone = false ∧ p.toPeer.length < p.capacity
    · exact .inr ⟨hroom.1, hroom.2, bytes, rfl, if_pos hroom⟩
    · exact .inl (if_neg hroom)
  | _ => exact .inl rfl

theorem receive_of_closed {p : Pipe} (h : p.closed = true) : p.receive = (p, .failed .closed) :=
  if_pos h

theorem receive_of_cons {p : Pipe} {f : Frame} {rest : List Frame} (hopen : p.closed = false)
    (h : p.fromPeer = f :: rest) : p.receive =
      ({ p with fromPeer := rest, toPeer := p.toPeer ++ p.pongs f }, .frame f) := by
  unfold receive
  rw [hopen, h, if_neg (by decide)]
  dsimp only
  rw [answer_eq, ← hopen]
  rfl

theorem receive_of_nil {p : Pipe} (hopen : p.closed = false) (h : p.fromPeer = []) :
    p.receive = (p, if p.peerSends then .waiting else .failed .closed) := by
  unfold receive
  rw [hopen, h, if_neg (by decide)]
  dsimp only
  split <;> rfl

theorem capacity_receive (p : Pipe) : p.receive.1.capacity = p.capacity := by
  by_cases hclosed : p.closed = true
  · rw [receive_of_closed hclosed]
  · have hopen := Bool.eq_false_iff.mpr hclosed
    cases hfrom : p.fromPeer with
    | nil => rw [receive_of_nil hopen hfrom]
    | cons f rest => rw [receive_of_cons hopen hfrom]

theorem peerRead_of_cons {p : Pipe} {f : Frame} {rest : List Frame} (h : p.toPeer = f :: rest) :
    p.peerRead = ({ p with toPeer := rest }, .frame f) := by
  unfold peerRead
  rw [h]

theorem peerRead_of_nil {p : Pipe} (h : p.toPeer = []) : p.peerRead =
    (p, if p.closed || (!p.sinkHeld && !p.sourceHeld) then .ended else .waiting) := by
  unfold peerRead
  rw [h]
  dsimp only
  split <;> rfl

theorem peerSend_of_over {p : Pipe} (f : Frame)
    (h : p.closed = true ∨ p.peerSends = false ∨ p.sourceHeld = false) :
    p.peerSend f = (p, .error .closed) :=
  if_pos (by simpa [or_assoc] using h)

theorem peerSend_of_open {p : Pipe} (f : Frame) (hopen : p.closed = false)
    (hsends : p.peerSends = true) (hheld : p.sourceHeld = true) :
    p.peerSend f = ({ p with fromPeer := p.fromPeer ++ [f] }, .ok ()) :=
  if_neg (by simp [hopen, hsends, hheld])

inductive Sends (p : Pipe) (f : Frame) : Pipe × Sending → Prop
  | refused (h : p.closed = true ∨ p.peerGone = true) : Sends p f (p, .failed .closed)
  | full (hopen : p.closed = false) (hthere : p.peerGone = false)
    (h : p.capacity ≤ p.toPeer.length) : Sends p f (p, .waiting)
  | room (hopen : p.closed = false) (hthere : p.peerGone = false)
    (h : p.toPeer.length < p.capacity) : Sends p f ({ p with toPeer := p.toPeer ++ [f] }, .sent)

theorem sends (p : Pipe) (f : Frame) : p.Sends f (p.send f) := by
  unfold send
  by_cases hover : p.closed = true ∨ p.peerGone = true
  · rw [if_pos (by simpa using hover)]
    exact .refused hover
  · obtain ⟨hopen, hthere⟩ : p.closed = false ∧ p.peerGone = false := by simpa using hover
    rw [if_neg (by simp [hopen, hthere])]
    by_cases hfull : p.capacity ≤ p.toPeer.length
    · rw [if_pos hfull]
      exact .full hopen hthere hfull
    · rw [if_neg hfull]
      exact .room hopen hthere (Nat.lt_of_not_le hfull)

namespace InUse

variable {s : InUse}

theorem pongs_ping (s : InUse) (bytes : List UInt8) : s.narrowed.pongs (.ping bytes) =
    if s.pipe.peerGone = false ∧ s.pipe.toPeer.length + s.promised < s.pipe.capacity then
      [.pong bytes] else [] := by
  have hroom : s.pipe.toPeer.length < s.pipe.capacity - s.promised ↔
      s.pipe.toPeer.length + s.promised < s.pipe.capacity := by omega
  unfold narrowed pongs
  simp only [hroom]

theorem receive_of_closed (h : s.pipe.closed = true) : s.receive = (s, .failed .closed) := by
  unfold receive
  rw [Pipe.receive_of_closed (p := s.narrowed) h]
  rfl

theorem receive_of_cons {f : Frame} {rest : List Frame} (hopen : s.pipe.closed = false)
    (h : s.pipe.fromPeer = f :: rest) : s.receive =
      (⟨{ s.pipe with
        fromPeer := rest
        toPeer := s.pipe.toPeer ++ s.narrowed.pongs f }, s.waiting⟩, .frame f) := by
  unfold receive
  rw [Pipe.receive_of_cons (p := s.narrowed) hopen h]
  rfl

theorem receive_of_nil (hopen : s.pipe.closed = false) (h : s.pipe.fromPeer = []) :
    s.receive = (s, if s.pipe.peerSends then .waiting else .failed .closed) := by
  unfold receive
  rw [Pipe.receive_of_nil (p := s.narrowed) hopen h]
  rfl

theorem receive_of_idle (h : s.waiting = none) :
    s.receive = (⟨s.pipe.receive.1, none⟩, s.pipe.receive.2) := by
  have hcapacity : s.pipe.receive.1.capacity = s.pipe.capacity := capacity_receive s.pipe
  have hnarrowed : s.narrowed = s.pipe := by
    unfold narrowed promised
    rw [h]
    rfl
  unfold receive
  rw [hnarrowed, h, ← hcapacity]

theorem exists_of_received {f : Frame} (h : s.receive.2 = .frame f) :
    s.pipe.closed = false ∧ ∃ rest, s.pipe.fromPeer = f :: rest := by
  by_cases hclosed : s.pipe.closed = true
  · rw [receive_of_closed hclosed] at h
    cases h
  · have hopen := Bool.eq_false_iff.mpr hclosed
    refine ⟨hopen, ?_⟩
    cases hfrom : s.pipe.fromPeer with
    | nil =>
      rw [receive_of_nil hopen hfrom] at h
      split at h <;> cases h
    | cons g rest =>
      rw [receive_of_cons hopen hfrom] at h
      cases h
      exact ⟨rest, rfl⟩

end InUse

end Pipe

end PushHub
