import PushHub.Proofs.Pipe.Calls
import Mathlib.Data.List.Induction

/-! What an in-memory transport keeps to, however its sink, its source and its peer take turns. What
the peer reads is what the sink has sent and what the source has answered, in the order in which they
were written; what the source hands up is what the peer has sent. A close ends both directions, but
leaves what was written to be read. -/
namespace PushHub

namespace Pipe

/-! ## The account -/

/-- One direction of a pipe: what went in has come out or is queued, unless the queue is lost. -/
structure Flow (ins outs queue : List Frame) (whole : Prop) : Prop where
  kept : whole → ins = outs ++ queue
  lost : ¬ whole → queue = []
  ordered : outs <+: ins

namespace Flow

variable {ins outs queue : List Frame} {whole : Prop}

theorem push (h : Flow ins outs queue whole) (hw : whole) (fs : List Frame) :
    Flow (ins ++ fs) outs (queue ++ fs) whole where
  kept _ := by rw [h.kept hw, List.append_assoc]
  lost hnot := absurd hw hnot
  ordered := h.ordered.trans (List.prefix_append _ _)

theorem pop {f : Frame} (h : Flow ins outs (f :: queue) whole) :
    Flow ins (outs ++ [f]) queue whole := by
  have hw : whole := by
    by_contra hnot
    cases h.lost hnot
  have hins : ins = outs ++ [f] ++ queue := by rw [h.kept hw, List.append_assoc]; rfl
  exact ⟨fun _ => hins, fun hnot => absurd hw hnot, ⟨queue, hins.symm⟩⟩

theorem cut (h : Flow ins outs queue whole) {cut : Prop} (hcut : ¬ cut) : Flow ins outs [] cut where
  kept hw := absurd hw hcut
  lost _ := rfl
  ordered := h.ordered

end Flow

theorem share_append (w : Writer) (written more : List (Writer × Frame)) :
    share w (written ++ more) = share w written ++ share w more := by
  simp [share]

theorem share_map (w v : Writer) (fs : List Frame) :
    share w (fs.map (v, ·)) = if v = w then fs else [] := by
  induction fs with
  | nil => simp [share]
  | cons f fs ih =>
    have hcons : share w ((f :: fs).map (v, ·)) = share w [(v, f)] ++ share w (fs.map (v, ·)) :=
      share_append w [(v, f)] _
    rw [hcons, ih]
    by_cases hv : v = w <;> simp [share, hv]

theorem map_snd_map (w : Writer) (fs : List Frame) : (fs.map (w, ·)).map Prod.snd = fs := by
  rw [List.map_map]
  exact List.map_id _

theorem delivered_append (ends more : List (Frame × Sending)) :
    delivered (ends ++ more) = delivered ends ++ delivered more := by
  simp [delivered]

theorem delivered_givenUp (s : InUse) : delivered s.givenUp = [] := by
  simp [delivered, InUse.givenUp]

theorem map_fst_givenUp (s : InUse) : s.givenUp.map Prod.fst = s.waiting.toList := by
  rw [InUse.givenUp, List.map_map]
  exact List.map_id _

theorem note_send (l : Log) (s : InUse) (f : Frame) : l.note s (.send f) = { l with
    begun := l.begun ++ [f]
    ended := l.ended ++ s.givenUp ++ s.outcome f
    written := l.written ++ (delivered (s.outcome f)).map (.sink, ·) } := by
  simp [Log.note, Call.begins, Call.ends, Call.answers, Call.reads, Call.posts, Call.hands,
    delivered_append, delivered_givenUp]

theorem note_resume (l : Log) (s : InUse) : l.note s .resume = { l with
    ended := l.ended ++ s.waiting.toList.flatMap s.outcome
    written := l.written ++ (delivered (s.waiting.toList.flatMap s.outcome)).map (.sink, ·) } := by
  simp [Log.note, Call.begins, Call.ends, Call.answers, Call.reads, Call.posts, Call.hands]

theorem note_receive {l : Log} {s s' : InUse} {r : Receiving} (h : s.receive = (s', r)) :
    l.note s .receive = { l with
      written := l.written ++ (s'.pipe.toPeer.drop s.pipe.toPeer.length).map (.source, ·)
      handed := l.handed ++ r.frames } := by
  simp [Log.note, Call.begins, Call.ends, Call.answers, Call.reads, Call.posts, Call.hands,
    delivered, h]

theorem note_peerRead {l : Log} {s : InUse} {p : Pipe} {r : Reading} (h : s.pipe.peerRead = (p, r)) :
    l.note s .peerRead = { l with read := l.read ++ r.frames } := by
  simp [Log.note, Call.begins, Call.ends, Call.answers, Call.reads, Call.posts, Call.hands,
    delivered, h]

theorem note_peerSend {l : Log} {s : InUse} {f : Frame} {p : Pipe} {r : Except TransportError Unit}
    (h : s.pipe.peerSend f = (p, r)) : l.note s (.peerSend f) =
      { l with posted := l.posted ++ (r.toOption.map fun _ => f).toList } := by
  simp [Log.note, Call.begins, Call.ends, Call.answers, Call.reads, Call.posts, Call.hands,
    delivered, h]

theorem note_of_givenUp {l : Log} {s : InUse} {c : Call} (hc : c ∈ [.cancel, .close, .dropSink]) :
    l.note s c = { l with ended := l.ended ++ s.givenUp } := by
  simp only [List.mem_cons, List.not_mem_nil, or_false] at hc
  rcases hc with rfl | rfl | rfl <;>
    simp [Log.note, Call.begins, Call.ends, Call.answers, Call.reads, Call.posts, Call.hands,
      delivered_givenUp]

theorem note_of_quiet {l : Log} {s : InUse} {c : Call}
    (hc : c ∈ [.dropSource, .disconnect, .dropPeer]) : l.note s c = l := by
  simp only [List.mem_cons, List.not_mem_nil, or_false] at hc
  rcases hc with rfl | rfl | rfl <;>
    simp [Log.note, Call.begins, Call.ends, Call.answers, Call.reads, Call.posts, Call.hands,
      delivered]

structure Accounts (b : Nat) (s : InUse) (l : Log) : Prop where
  capacity : s.pipe.capacity = max b 1
  bounded : s.pipe.toPeer.length ≤ max b 1
  sends : l.begun = l.ended.map Prod.fst ++ s.waiting.toList
  sent : share .sink l.written = delivered l.ended
  outward : Flow (l.written.map Prod.snd) l.read s.pipe.toPeer (s.pipe.peerGone = false)
  inward : Flow l.posted l.handed s.pipe.fromPeer (s.pipe.sourceHeld = true)

namespace Accounts

variable {b : Nat} {s : InUse} {l : Log}

theorem fresh (b : Nat) : Accounts b (.fresh b) {} where
  capacity := rfl
  bounded := Nat.zero_le _
  sends := rfl
  sent := rfl
  outward := ⟨fun _ => rfl, fun _ => rfl, List.prefix_refl _⟩
  inward := ⟨fun _ => rfl, fun _ => rfl, List.prefix_refl _⟩

theorem giveUp (hm : Accounts b s l) :
    Accounts b ⟨s.pipe, none⟩ { l with ended := l.ended ++ s.givenUp } := by
  refine ⟨hm.capacity, hm.bounded, ?_, ?_, hm.outward, hm.inward⟩
  · show l.begun = (l.ended ++ s.givenUp).map Prod.fst ++ []
    rw [List.map_append, map_fst_givenUp, List.append_nil, hm.sends]
  · show share .sink l.written = delivered (l.ended ++ s.givenUp)
    rw [delivered_append, delivered_givenUp, List.append_nil, hm.sent]

theorem begins (hm : Accounts b s l) (f : Frame) : Accounts b ⟨s.pipe, some f⟩
    { l with begun := l.begun ++ [f], ended := l.ended ++ s.givenUp } := by
  refine ⟨hm.capacity, hm.bounded, ?_, hm.giveUp.sent, hm.outward, hm.inward⟩
  have hended := hm.giveUp.sends
  simp only [Option.toList_none, List.append_nil] at hended
  simp only [Option.toList_some]
  rw [hended]

theorem attempt (hm : Accounts b s l) {f : Frame} (hf : s.waiting = some f) :
    Accounts b (s.send f).1 { l with
      ended := l.ended ++ s.outcome f
      written := l.written ++ (delivered (s.outcome f)).map (.sink, ·) } := by
  have hbegun : l.begun = l.ended.map Prod.fst ++ [f] := by rw [hm.sends, hf]; rfl
  have h := s.pipe.sends f
  unfold InUse.outcome InUse.send
  generalize s.pipe.send f = o at h
  cases h with
  | refused h =>
    exact ⟨hm.capacity, hm.bounded, by simpa using hbegun, by simpa [delivered] using hm.sent,
      by simpa [delivered] using hm.outward, hm.inward⟩
  | full hopen hthere h =>
    exact ⟨hm.capacity, hm.bounded, by simpa using hbegun, by simpa [delivered] using hm.sent,
      by simpa [delivered] using hm.outward, hm.inward⟩
  | room hopen hthere h =>
    have hlength : (s.pipe.toPeer ++ [f]).length ≤ max b 1 := by
      rw [← hm.capacity, List.length_append]
      exact h
    have hsent : share .sink (l.written ++ [(.sink, f)]) = delivered (l.ended ++ [(f, .sent)]) := by
      rw [share_append, delivered_append, hm.sent]
      rfl
    exact ⟨hm.capacity, hlength, by simpa using hbegun, by simpa [delivered] using hsent,
      by simpa [delivered] using hm.outward.push hthere [f], hm.inward⟩

theorem receive (hm : Accounts b s l) : Accounts b s.receive.1 (l.note s .receive) := by
  by_cases hclosed : s.pipe.closed = true
  · rw [note_receive (InUse.receive_of_closed hclosed), InUse.receive_of_closed hclosed]
    simpa [Receiving.frames] using hm
  · have hopen := Bool.eq_false_iff.mpr hclosed
    cases hfrom : s.pipe.fromPeer with
    | nil =>
      have heq := InUse.receive_of_nil hopen hfrom
      rw [note_receive heq, heq]
      cases s.pipe.peerSends <;> simpa [Receiving.frames] using hm
    | cons f rest =>
      have heq := InUse.receive_of_cons hopen hfrom
      have hin := hm.inward
      rw [hfrom] at hin
      have hbounded : (s.pipe.toPeer ++ s.narrowed.pongs f).length ≤ max b 1 := by
        rcases s.narrowed.pongs_cases f with hnone | ⟨-, hroom, bytes, -, hpong⟩
        · rw [hnone, List.append_nil]
          exact hm.bounded
        · have hcapacity := hm.capacity
          have hroom : s.pipe.toPeer.length < s.pipe.capacity - s.promised := hroom
          rw [hpong, List.length_append, List.length_singleton]
          omega
      have hsent : share .sink (l.written ++ (s.narrowed.pongs f).map (.source, ·)) =
          delivered l.ended := by
        rw [share_append, share_map, if_neg nofun, List.append_nil, hm.sent]
      have houtward : Flow ((l.written ++ (s.narrowed.pongs f).map (Writer.source, ·)).map Prod.snd)
          l.read (s.pipe.toPeer ++ s.narrowed.pongs f) (s.pipe.peerGone = false) := by
        rcases s.narrowed.pongs_cases f with hnone | ⟨hthere, -⟩
        · simpa [hnone] using hm.outward
        · rw [List.map_append, map_snd_map]
          exact hm.outward.push hthere (s.narrowed.pongs f)
      rw [note_receive heq, heq]
      dsimp only
      rw [List.drop_left]
      exact ⟨hm.capacity, hbounded, hm.sends, hsent, houtward, hin.pop⟩

theorem peerRead (hm : Accounts b s l) : Accounts b (Call.peerRead.on s) (l.note s .peerRead) := by
  cases hto : s.pipe.toPeer with
  | nil =>
    have heq := peerRead_of_nil hto
    rw [note_peerRead heq, Call.on, heq]
    split <;> simpa [Reading.frames] using hm
  | cons f rest =>
    have heq := peerRead_of_cons hto
    have hout := hm.outward
    have hbounded := hm.bounded
    rw [hto] at hout hbounded
    rw [note_peerRead heq, Call.on, heq]
    exact ⟨hm.capacity, Nat.le_of_succ_le hbounded, hm.sends, hm.sent, hout.pop, hm.inward⟩

theorem peerSend (hm : Accounts b s l) (f : Frame) :
    Accounts b ((Call.peerSend f).on s) (l.note s (.peerSend f)) := by
  by_cases hover : s.pipe.closed = true ∨ s.pipe.peerSends = false ∨ s.pipe.sourceHeld = false
  · have heq := peerSend_of_over f hover
    rw [note_peerSend heq, Call.on, heq]
    simpa [Except.toOption] using hm
  · obtain ⟨hopen, hsends, hheld⟩ : s.pipe.closed = false ∧ s.pipe.peerSends = true ∧
        s.pipe.sourceHeld = true := by simpa using hover
    have heq := peerSend_of_open f hopen hsends hheld
    rw [note_peerSend heq, Call.on, heq]
    exact ⟨hm.capacity, hm.bounded, hm.sends, hm.sent, hm.outward, hm.inward.push hheld [f]⟩

/-- A pipe that differs in its marks alone is in the same accounts, as long as no party has gone with
what it has not read. -/
theorem marked {p q : Pipe} {waiting : Option Frame} (hm : Accounts b ⟨p, waiting⟩ l)
    (hq : q = { p with
      closed := q.closed
      closeCalls := q.closeCalls
      peerSends := q.peerSends
      sinkHeld := q.sinkHeld }) : Accounts b ⟨q, waiting⟩ l := by
  rw [hq]
  exact ⟨hm.capacity, hm.bounded, hm.sends, hm.sent, hm.outward, hm.inward⟩

theorem step (hm : Accounts b s l) (c : Call) : Accounts b (c.on s) (l.note s c) := by
  cases c with
  | send f =>
    -- A send that begins waits, if only for its first turn.
    rw [note_send]
    exact (hm.begins f).attempt rfl
  | resume =>
    rw [note_resume]
    cases hf : s.waiting with
    | none => simpa [Call.on, hf, delivered] using hm
    | some f => simpa [Call.on, hf] using hm.attempt hf
  | cancel =>
    rw [note_of_givenUp (by simp)]
    exact hm.giveUp
  | close =>
    rw [note_of_givenUp (by simp)]
    exact hm.giveUp.marked rfl
  | receive => exact hm.receive
  | dropSink =>
    rw [note_of_givenUp (by simp)]
    exact hm.giveUp.marked rfl
  | dropSource =>
    rw [note_of_quiet (by simp)]
    exact ⟨hm.capacity, hm.bounded, hm.sends, hm.sent, hm.outward, hm.inward.cut nofun⟩
  | peerSend f => exact hm.peerSend f
  | peerRead => exact hm.peerRead
  | disconnect =>
    rw [note_of_quiet (by simp)]
    exact hm.marked rfl
  | dropPeer =>
    rw [note_of_quiet (by simp)]
    exact ⟨hm.capacity, Nat.zero_le _, hm.sends, hm.sent, hm.outward.cut nofun, hm.inward⟩

end Accounts

theorem accounts (b : Nat) (calls : List Call) : Accounts b (run b calls).1 (run b calls).2 := by
  induction calls using List.reverseRecOn with
  | nil => exact .fresh b
  | append_singleton calls c ih =>
    rw [run_snoc]
    exact ih.step c

/-! ## Who is there -/

/-- What a pipe keeps in mind of the calls. -/
structure Marks (calls : List Call) (p : Pipe) : Prop where
  closed : p.closed = true ↔ .close ∈ calls
  peerSends : p.peerSends = true ↔ .disconnect ∉ calls ∧ .dropPeer ∉ calls
  peerGone : p.peerGone = true ↔ .dropPeer ∈ calls
  sinkHeld : p.sinkHeld = true ↔ .dropSink ∉ calls
  sourceHeld : p.sourceHeld = true ↔ .dropSource ∉ calls

namespace Marks

variable {calls : List Call} {s : InUse}

theorem quiet {p q : Pipe} (hm : Marks calls p)
    (hq : q = { p with toPeer := q.toPeer, fromPeer := q.fromPeer }) {c : Call}
    (hc : c ∉ [.close, .disconnect, .dropPeer, .dropSink, .dropSource]) :
    Marks (calls ++ [c]) q := by
  obtain ⟨hclosed, hsends, hgone, hsink, hsource⟩ := hm
  simp only [List.mem_cons, List.not_mem_nil, or_false, not_or] at hc
  obtain ⟨hclose, hdisconnect, hpeer, hsinks, hsources⟩ := hc
  rw [hq]
  constructor <;> simp [*, Ne.symm]

theorem send (hm : Marks calls s.pipe) (f : Frame) {c : Call}
    (hc : c ∉ [.close, .disconnect, .dropPeer, .dropSink, .dropSource]) :
    Marks (calls ++ [c]) (s.send f).1.pipe := by
  have h := s.pipe.sends f
  unfold InUse.send
  generalize s.pipe.send f = o at h
  cases h <;> exact hm.quiet rfl hc

theorem receive (hm : Marks calls s.pipe) : Marks (calls ++ [.receive]) s.receive.1.pipe := by
  by_cases hclosed : s.pipe.closed = true
  · rw [InUse.receive_of_closed hclosed]
    exact hm.quiet rfl (by decide)
  · have hopen := Bool.eq_false_iff.mpr hclosed
    cases hfrom : s.pipe.fromPeer with
    | nil =>
      rw [InUse.receive_of_nil hopen hfrom]
      exact hm.quiet rfl (by decide)
    | cons f rest =>
      rw [InUse.receive_of_cons hopen hfrom]
      exact hm.quiet rfl (by decide)

theorem peerRead (hm : Marks calls s.pipe) : Marks (calls ++ [.peerRead]) s.pipe.peerRead.1 := by
  cases hto : s.pipe.toPeer with
  | nil =>
    rw [peerRead_of_nil hto]
    exact hm.quiet rfl (by decide)
  | cons f rest =>
    rw [peerRead_of_cons hto]
    exact hm.quiet rfl (by decide)

theorem peerSend (hm : Marks calls s.pipe) (f : Frame) :
    Marks (calls ++ [.peerSend f]) (s.pipe.peerSend f).1 := by
  unfold Pipe.peerSend
  split <;> exact hm.quiet rfl (by simp)

theorem step (hm : Marks calls s.pipe) (c : Call) : Marks (calls ++ [c]) (c.on s).pipe := by
  have hidle : Marks (calls ++ [.resume]) s.pipe := hm.quiet rfl (by decide)
  have ⟨hclosed, hsends, hgone, hsink, hsource⟩ := hm
  cases c with
  | send f => exact hm.send f (by simp)
  | resume =>
    cases hf : s.waiting with
    | none => simpa [Call.on, hf] using hidle
    | some f => simpa [Call.on, hf] using hm.send f (by decide)
  | cancel => exact hm.quiet rfl (by decide)
  | close => constructor <;> simp [*, Call.on, Pipe.close]
  | receive => exact hm.receive
  | dropSink => constructor <;> simp [*, Call.on, Pipe.dropSink]
  | dropSource => constructor <;> simp [*, Call.on, Pipe.dropSource]
  | peerSend f => exact hm.peerSend f
  | peerRead => exact hm.peerRead
  | disconnect => constructor <;> simp [*, Call.on, Pipe.disconnect]
  | dropPeer => constructor <;> simp [*, Call.on, Pipe.dropPeer]

end Marks

theorem marks (b : Nat) (calls : List Call) : Marks calls (run b calls).1.pipe := by
  induction calls using List.reverseRecOn with
  | nil => constructor <;> simp [run, InUse.fresh, create]
  | append_singleton calls c ih =>
    rw [run_snoc]
    exact ih.step c

/-! ## What a pipe keeps to -/

/-- A pipe with room for `b` frames, or for one if that is none, after any calls. -/
structure Conducts (b : Nat) (calls : List Call) (s : InUse) (l : Log) : Prop where
  ordered : l.read <+: l.written.map Prod.snd
  kept : .dropPeer ∉ calls → l.written.map Prod.snd = l.read ++ s.pipe.toPeer
  bounded : s.pipe.toPeer.length ≤ max b 1
  /-- Every send ends once, in the order in which they begin, and the sink has written what was sent. -/
  ends : l.begun = l.ended.map Prod.fst ++ s.waiting.toList
  sent : share .sink l.written = delivered l.ended
  takes : ∀ f, (s.send f).2 = if .close ∈ calls ∨ .dropPeer ∈ calls then .failed .closed
    else if s.pipe.toPeer.length = max b 1 then .waiting else .sent
  /-- A send that waits until it is given up has written nothing. -/
  cancelled : ∀ f during, (∀ c ∈ during, c.begins = []) →
    (run b (calls ++ .send f :: during)).1.waiting = some f →
    share .sink (run b (calls ++ .send f :: during ++ [.cancel])).2.written =
      share .sink l.written
  /-- What waits leaves nothing behind but the frame of a send. -/
  waits : (∀ f, (s.send f).2 = .waiting → (s.send f).1 = ⟨s.pipe, some f⟩) ∧
    (s.receive.2 = .waiting → s.receive.1 = s) ∧
    (s.pipe.peerRead.2 = .waiting → s.pipe.peerRead.1 = s.pipe)
  /-- A send that waits is all that stands between the source and the pipe. -/
  alone : s.waiting = none → s.receive = (⟨s.pipe.receive.1, none⟩, s.pipe.receive.2)
  /-- A ping that the source hands up is answered once, if there is room besides what is kept for the
  send that waits; and nothing else is. -/
  answers : ∀ bytes, s.receive.2 = .frame (.ping bytes) →
    (run b (calls ++ [.receive])).2.written = l.written ++
      if .dropPeer ∉ calls ∧ s.pipe.toPeer.length + s.promised < max b 1 then
        [(.source, .pong bytes)]
      else []
  silent : (∀ bytes, s.receive.2 ≠ .frame (.ping bytes)) →
    (run b (calls ++ [.receive])).2.written = l.written
  handed : l.handed <+: l.posted
  next : .close ∉ calls → .dropSource ∉ calls → ∀ f rest,
    l.posted = l.handed ++ f :: rest → s.receive.2 = .frame f
  rests : .close ∉ calls → l.posted = l.handed → s.receive.2 =
    if .disconnect ∈ calls ∨ .dropPeer ∈ calls then .failed .closed else .waiting
  posts : ∀ f, (s.pipe.peerSend f).2 =
    if .close ∈ calls ∨ .disconnect ∈ calls ∨ .dropPeer ∈ calls ∨ .dropSource ∈ calls then
      .error .closed
    else .ok ()
  closed : .close ∈ calls → s.receive = (s, .failed .closed) ∧
    ∀ later, (run b (calls ++ later)).2.written = l.written ∧
      (run b (calls ++ later)).2.posted = l.posted ∧ (run b (calls ++ later)).2.handed = l.handed
  reads : .dropPeer ∉ calls → ∀ f rest,
    l.written.map Prod.snd = l.read ++ f :: rest → s.pipe.peerRead.2 = .frame f
  finished : .dropPeer ∉ calls → (s.pipe.peerRead.2 = .ended ↔ l.read = l.written.map Prod.snd ∧
    (.close ∈ calls ∨ .dropSink ∈ calls ∧ .dropSource ∈ calls))

namespace Accounts

variable {b : Nat} {calls : List Call} {s : InUse} {l : Log}

theorem takes (hm : Accounts b s l) (hk : Marks calls s.pipe) (f : Frame) : (s.send f).2 =
    if .close ∈ calls ∨ .dropPeer ∈ calls then .failed .closed
    else if s.pipe.toPeer.length = max b 1 then .waiting else .sent := by
  have hfull : s.pipe.capacity ≤ s.pipe.toPeer.length ↔ s.pipe.toPeer.length = max b 1 := by
    rw [hm.capacity]
    exact ⟨fun hle => Nat.le_antisymm hm.bounded hle, fun heq => Nat.le_of_eq heq.symm⟩
  have h := s.pipe.sends f
  simp only [← hk.closed, ← hk.peerGone, ← hfull]
  unfold InUse.send
  generalize s.pipe.send f = o at h
  cases h with
  | refused h => rw [if_pos h]
  | full hopen hthere h => rw [if_neg (by simp [hopen, hthere]), if_pos h]
  | room hopen hthere h => rw [if_neg (by simp [hopen, hthere]), if_neg (Nat.not_le_of_lt h)]

theorem kept (hm : Accounts b s l) (hk : Marks calls s.pipe) (h : .dropPeer ∉ calls) :
    l.written.map Prod.snd = l.read ++ s.pipe.toPeer := by
  exact hm.outward.kept (Bool.eq_false_iff.mpr fun hgone => h (hk.peerGone.mp hgone))

theorem posted (hm : Accounts b s l) (hk : Marks calls s.pipe) (h : .dropSource ∉ calls) :
    l.posted = l.handed ++ s.pipe.fromPeer :=
  hm.inward.kept (hk.sourceHeld.mpr h)

theorem fromPeer_eq_nil (hm : Accounts b s l) (hk : Marks calls s.pipe) (h : l.posted = l.handed) :
    s.pipe.fromPeer = [] := by
  by_cases hheld : .dropSource ∈ calls
  · exact hm.inward.lost fun hs => hk.sourceHeld.mp hs hheld
  · have heq := hm.posted hk hheld
    rw [h] at heq
    simpa using heq

theorem receive_eq (hm : Accounts b s l) (hk : Marks calls s.pipe) (hopen : .close ∉ calls)
    (h : l.posted = l.handed) : s.receive =
      (s, if .disconnect ∈ calls ∨ .dropPeer ∈ calls then .failed .closed else .waiting) := by
  have hopen : s.pipe.closed = false := Bool.eq_false_iff.mpr (mt hk.closed.mp hopen)
  have hsends : s.pipe.peerSends = true ↔ ¬ (.disconnect ∈ calls ∨ .dropPeer ∈ calls) := by
    rw [hk.peerSends, not_or]
  rw [InUse.receive_of_nil hopen (hm.fromPeer_eq_nil hk h)]
  simp only [hsends]
  split <;> simp_all

theorem written_receive (hm : Accounts b s l) (hk : Marks calls s.pipe) (bytes : List UInt8)
    (h : s.receive.2 = .frame (.ping bytes)) : (l.note s .receive).written = l.written ++
      if .dropPeer ∉ calls ∧ s.pipe.toPeer.length + s.promised < max b 1 then
        [(.source, .pong bytes)]
      else [] := by
  have hthere : s.pipe.peerGone = false ↔ .dropPeer ∉ calls := by
    rw [← hk.peerGone, Bool.not_eq_true]
  obtain ⟨hopen, rest, hfrom⟩ := InUse.exists_of_received h
  have heq := InUse.receive_of_cons hopen hfrom
  rw [note_receive heq]
  dsimp only
  rw [List.drop_left, InUse.pongs_ping, hm.capacity]
  simp only [hthere]
  split <;> rfl

theorem written_receive_other (h : ∀ bytes, s.receive.2 ≠ .frame (.ping bytes)) :
    (l.note s .receive).written = l.written := by
  by_cases hclosed : s.pipe.closed = true
  · rw [note_receive (InUse.receive_of_closed hclosed)]
    simp
  · have hopen := Bool.eq_false_iff.mpr hclosed
    cases hfrom : s.pipe.fromPeer with
    | nil =>
      rw [note_receive (InUse.receive_of_nil hopen hfrom)]
      simp
    | cons f rest =>
      have heq := InUse.receive_of_cons hopen hfrom
      rcases s.narrowed.pongs_cases f with hnone | ⟨-, -, bytes, rfl, -⟩
      · rw [note_receive heq]
        simp [hnone]
      · exact absurd (congrArg Prod.snd heq) (h bytes)

theorem peerRead_eq_ended (hm : Accounts b s l) (hk : Marks calls s.pipe) (h : .dropPeer ∉ calls) :
    s.pipe.peerRead.2 = .ended ↔ l.read = l.written.map Prod.snd ∧
      (.close ∈ calls ∨ .dropSink ∈ calls ∧ .dropSource ∈ calls) := by
  rw [hm.kept hk h, List.self_eq_append_right]
  cases hto : s.pipe.toPeer with
  | cons f rest =>
    rw [peerRead_of_cons hto]
    exact ⟨nofun, nofun⟩
  | nil =>
    have hover : (s.pipe.closed || (!s.pipe.sinkHeld && !s.pipe.sourceHeld)) = true ↔
        .close ∈ calls ∨ .dropSink ∈ calls ∧ .dropSource ∈ calls := by
      simp [hk.closed, ← Bool.not_eq_true, hk.sinkHeld, hk.sourceHeld]
    rw [peerRead_of_nil hto, ← hover]
    split <;> simp [*]

end Accounts

namespace Marks

variable {calls : List Call} {s : InUse}

theorem posts (hk : Marks calls s.pipe) (f : Frame) : (s.pipe.peerSend f).2 =
    if .close ∈ calls ∨ .disconnect ∈ calls ∨ .dropPeer ∈ calls ∨ .dropSource ∈ calls then
      .error .closed
    else .ok () := by
  have hover : s.pipe.closed = true ∨ s.pipe.peerSends = false ∨ s.pipe.sourceHeld = false ↔
      .close ∈ calls ∨ .disconnect ∈ calls ∨ .dropPeer ∈ calls ∨ .dropSource ∈ calls := by
    rw [← Bool.not_eq_true, ← Bool.not_eq_true, hk.closed, hk.peerSends, hk.sourceHeld]
    grind
  simp only [← hover]
  split
  · rw [peerSend_of_over f ‹_›]
  · rename_i hopen
    obtain ⟨hopen, hsends, hheld⟩ : s.pipe.closed = false ∧ s.pipe.peerSends = true ∧
        s.pipe.sourceHeld = true := by simpa using hopen
    rw [peerSend_of_open f hopen hsends hheld]

end Marks

/-! ## Longer stretches -/

theorem ended_prefix (b : Nat) (calls later : List Call) :
    (run b calls).2.ended <+: (run b (calls ++ later)).2.ended := by
  induction later using List.reverseRecOn with
  | nil => simp
  | append_singleton later c ih =>
    rw [← List.append_assoc, run_snoc]
    exact ih.trans (List.prefix_append _ _)

theorem begun_append (b : Nat) (calls : List Call) {later : List Call}
    (h : ∀ c ∈ later, c.begins = []) : (run b (calls ++ later)).2.begun = (run b calls).2.begun := by
  induction later using List.reverseRecOn with
  | nil => rw [List.append_nil]
  | append_singleton later c ih =>
    rw [List.forall_mem_append] at h
    rw [← List.append_assoc, run_snoc, ← ih h.1]
    show _ ++ c.begins = _
    rw [h.2 c List.mem_cons_self, List.append_nil]

theorem ended_of_waiting (b : Nat) (calls : List Call) {f : Frame} {during : List Call}
    (hduring : ∀ c ∈ during, c.begins = [])
    (hf : (run b (calls ++ .send f :: during)).1.waiting = some f) :
    (run b (calls ++ .send f :: during)).2.ended =
      (run b calls).2.ended ++ (run b calls).1.givenUp := by
  have hsplit : calls ++ .send f :: during = calls ++ [.send f] ++ during := by simp
  have hbegun : (run b (calls ++ .send f :: during)).2.begun = (run b calls).2.begun ++ [f] := by
    rw [hsplit, begun_append b _ hduring, run_snoc]
    rfl
  -- Sends end in the order in which they begin, and none has begun since: so it is known which have ended.
  have hends := (accounts b (calls ++ .send f :: during)).sends
  rw [hbegun, (accounts b calls).sends, hf] at hends
  have hfirsts := List.append_cancel_right hends
  have hstart : (run b calls).2.ended ++ (run b calls).1.givenUp <+:
      (run b (calls ++ .send f :: during)).2.ended := by
    refine List.IsPrefix.trans ?_ (hsplit ▸ ended_prefix b (calls ++ [Call.send f]) during)
    rw [run_snoc, note_send]
    exact List.prefix_append _ _
  refine (hstart.eq_of_length ?_).symm
  have hlength := congrArg List.length hfirsts
  rw [← map_fst_givenUp] at hlength
  simpa using hlength

theorem cancelled (b : Nat) (calls : List Call) {f : Frame} {during : List Call}
    (hduring : ∀ c ∈ during, c.begins = [])
    (hf : (run b (calls ++ .send f :: during)).1.waiting = some f) :
    share .sink (run b (calls ++ .send f :: during ++ [.cancel])).2.written =
      share .sink (run b calls).2.written := by
  rw [run_snoc, note_of_givenUp (by decide)]
  show share .sink (run b (calls ++ .send f :: during)).2.written = _
  rw [(accounts b _).sent, (accounts b _).sent, ended_of_waiting b calls hduring hf,
    delivered_append, delivered_givenUp, List.append_nil]

theorem delivered_outcome {s : InUse} (h : s.pipe.closed = true) (f : Frame) :
    delivered (s.outcome f) = [] := by
  have hsend : s.pipe.send f = (s.pipe, .failed .closed) := if_pos (by simp [h])
  simp [delivered, InUse.outcome, InUse.send, hsend]

theorem note_of_closed {l : Log} {s : InUse} (h : s.pipe.closed = true) (c : Call) :
    (l.note s c).written = l.written ∧ (l.note s c).posted = l.posted ∧
      (l.note s c).handed = l.handed := by
  cases c with
  | send f =>
    rw [note_send, delivered_outcome h]
    simp
  | resume =>
    rw [note_resume]
    cases s.waiting with
    | none => simp [delivered]
    | some f => simp [delivered_outcome h]
  | receive =>
    rw [note_receive (InUse.receive_of_closed h)]
    simp [Receiving.frames]
  | peerSend f =>
    rw [note_peerSend (peerSend_of_over f (.inl h))]
    simp [Except.toOption]
  | peerRead =>
    rw [note_peerRead (p := s.pipe.peerRead.1) (r := s.pipe.peerRead.2) rfl]
    simp
  | cancel => simp [note_of_givenUp]
  | close => simp [note_of_givenUp]
  | dropSink => simp [note_of_givenUp]
  | dropSource => simp [note_of_quiet]
  | disconnect => simp [note_of_quiet]
  | dropPeer => simp [note_of_quiet]

theorem closed_append (b : Nat) {calls : List Call} (h : .close ∈ calls) (later : List Call) :
    (run b (calls ++ later)).2.written = (run b calls).2.written ∧
      (run b (calls ++ later)).2.posted = (run b calls).2.posted ∧
      (run b (calls ++ later)).2.handed = (run b calls).2.handed := by
  induction later using List.reverseRecOn with
  | nil => simp
  | append_singleton later c ih =>
    have hclosed := (marks b (calls ++ later)).closed.mpr (List.mem_append_left _ h)
    obtain ⟨hwritten, hposted, hhanded⟩ := note_of_closed (l := (run b (calls ++ later)).2) hclosed c
    rw [← List.append_assoc, run_snoc]
    exact ⟨hwritten.trans ih.1, hposted.trans ih.2.1, hhanded.trans ih.2.2⟩

theorem waits (s : InUse) : (∀ f, (s.send f).2 = .waiting → (s.send f).1 = ⟨s.pipe, some f⟩) ∧
    (s.receive.2 = .waiting → s.receive.1 = s) ∧
    (s.pipe.peerRead.2 = .waiting → s.pipe.peerRead.1 = s.pipe) := by
  refine ⟨fun f hwaits => ?_, fun hwaits => ?_, fun hwaits => ?_⟩
  · have h := s.pipe.sends f
    unfold InUse.send at hwaits ⊢
    generalize s.pipe.send f = o at h hwaits
    cases h <;> simp_all
  · by_cases hclosed : s.pipe.closed = true
    · rw [InUse.receive_of_closed hclosed]
    · have hopen := Bool.eq_false_iff.mpr hclosed
      cases hfrom : s.pipe.fromPeer with
      | nil => rw [InUse.receive_of_nil hopen hfrom]
      | cons f rest =>
        rw [InUse.receive_of_cons hopen hfrom] at hwaits
        cases hwaits
  · cases hto : s.pipe.toPeer with
    | nil => rw [peerRead_of_nil hto]
    | cons f rest =>
      rw [peerRead_of_cons hto] at hwaits
      cases hwaits

theorem run_conducts (b : Nat) (calls : List Call) :
    Conducts b calls (run b calls).1 (run b calls).2 := by
  have hm := accounts b calls
  have hk := marks b calls
  constructor
  case ordered => exact hm.outward.ordered
  case kept => exact hm.kept hk
  case bounded => exact hm.bounded
  case ends => exact hm.sends
  case sent => exact hm.sent
  case takes => exact hm.takes hk
  case cancelled => exact fun f during => cancelled b calls
  case waits => exact waits _
  case alone => exact InUse.receive_of_idle
  case answers =>
    rw [run_snoc]
    exact hm.written_receive hk
  case silent =>
    rw [run_snoc]
    exact Accounts.written_receive_other
  case handed => exact hm.inward.ordered
  case next =>
    intro hopen hheld f rest hrest
    have hfrom := List.append_cancel_left ((hm.posted hk hheld).symm.trans hrest)
    have hopen := Bool.eq_false_iff.mpr (mt hk.closed.mp hopen)
    rw [InUse.receive_of_cons hopen hfrom]
  case rests => exact fun hopen heq => congrArg Prod.snd (hm.receive_eq hk hopen heq)
  case posts => exact hk.posts
  case closed => exact fun hclose =>
    ⟨InUse.receive_of_closed (hk.closed.mpr hclose), closed_append b hclose⟩
  case reads =>
    intro hthere f rest hrest
    have hto := List.append_cancel_left ((hm.kept hk hthere).symm.trans hrest)
    rw [peerRead_of_cons hto]
  case finished => exact hm.peerRead_eq_ended hk

/-- With room for one frame, a ping is left unanswered while the place that came free is kept. -/
example : (run 1 [.send (.text "a"), .send (.text "b"), .peerSend (.ping []), .peerRead, .receive,
    .resume]).2.written = [(.sink, .text "a"), (.sink, .text "b")] := by decide

end Pipe

end PushHub
