import PushHub.Hub.Exchange
import PushHub.Hub.Requests
import PushHub.Proofs.Session.Confined

/-! Runs of a hub. Its parts move, transports are handed to it, clients, publishers and operators act,
and time passes, one thing after the other in whatever order. -/
namespace PushHub

open Registry (Handle Service Command Ticker)

inductive ClientAct
  | send (f : Frame)
  | read
  | disconnect
  | leave

def ClientAct.on (w : Wire) : ClientAct → Wire
  | .send f => (w.clientSend f).1
  | .read => w.clientRead.1
  | .disconnect => w.disconnect
  | .leave => w.dropClient

inductive Inquiry
  | stats
  | online (u : UserId)
  | sweep
  | shutdown

def Inquiry.command : Inquiry → Command
  | .stats => .stats
  | .online u => .online u
  | .sweep => .sweep
  | .shutdown => .shutdown

namespace Hub

inductive Action
  | move (m : Move)
  | accept (line : Line)
  | register (u : UserId) (line : Line)
  | dispatch (r : DispatchRequest)
  | ask (q : Inquiry)
  | client (i : Nat) (a : ClientAct)
  | pass (ms : Nat) (clock : UInt64)

def act (h : Hub) : Action → Option Hub
  | .move m => h.move m
  | .accept line => some (h.accept line).1
  | .register u line => some (h.register u line).1
  | .dispatch r => some (h.dispatch r).1
  | .ask q =>
    if h.service.hasRoom then some { h with service := h.service.enqueue q.command none } else none
  | .client i a => some (h.onClient i fun w => a.on w)
  | .pass ms clock => some { h with now := h.now + ms, clock := clock }

structure Moment where
  before : Hub
  action : Action
  after : Hub

/-- What happened from the start of a hub on, and where it led. -/
inductive Run (start : Hub) : List Moment → Hub → Prop
  | nil : Run start [] start
  | snoc {ms : List Moment} {h h' : Hub} {a : Action} (hr : Run start ms h)
      (ha : h.act a = some h') : Run start (ms ++ [⟨h, a, h'⟩]) h'

/-- The run that a list of actions leads to, unless one of them has to wait. -/
def trace (h : Hub) : List Action → Option (List Moment × Hub)
  | [] => some ([], h)
  | a :: rest =>
    match h.act a with
    | some h' => (h'.trace rest).map fun (ms, last) => (⟨h, a, h'⟩ :: ms, last)
    | none => none

theorem run_append_trace {start h last : Hub} {ms more : List Moment} {as : List Action}
    (hr : Run start ms h) (ht : h.trace as = some (more, last)) : Run start (ms ++ more) last := by
  induction as generalizing h ms more with
  | nil =>
    cases ht
    rw [List.append_nil]
    exact hr
  | cons a rest ih =>
    unfold trace at ht
    split at ht
    · rename_i h' ha
      obtain ⟨⟨later, last'⟩, hrest, heq⟩ := Option.map_eq_some_iff.mp ht
      cases heq
      have := ih (hr.snoc ha) hrest
      rw [List.append_assoc] at this
      exact this
    · cases ht

theorem run_of_trace {start last : Hub} {ms : List Moment} {as : List Action}
    (ht : start.trace as = some (ms, last)) : Run start ms last :=
  run_append_trace .nil ht

theorem run_trace {start : Hub} {as : List Action} {p : List Moment × Hub}
    (ht : start.trace as = some p) : Run start p.1 p.2 := by
  obtain ⟨ms, last⟩ := p
  exact run_of_trace ht

theorem map_action_trace {h last : Hub} {ms : List Moment} {as : List Action}
    (ht : h.trace as = some (ms, last)) : ms.map Moment.action = as := by
  induction as generalizing h ms with
  | nil =>
    cases ht
    rfl
  | cons a rest ih =>
    unfold trace at ht
    split at ht
    · obtain ⟨⟨later, last'⟩, hrest, heq⟩ := Option.map_eq_some_iff.mp ht
      cases heq
      rw [List.map_cons, ih hrest]
    · cases ht

/-- The connection that is given a number at a moment, with the number of its session. -/
def Moment.allotted? (t : Moment) : Option (Nat × Handle) :=
  let i? := match t.action with
    | .move (.admission i) => some i
    | .register _ _ => some t.before.sessions.length
    | _ => none
  i?.bind fun i =>
    match (t.after.sessions[i]?).map Session.phase with
    | some (.registering c false) => some (i, c)
    | _ => none

def connections (ms : List Moment) : List (Nat × Handle) := ms.filterMap Moment.allotted?

theorem filterMap_snoc {α β : Type} (f : α → Option β) (as : List α) (a : α) :
    (as ++ [a]).filterMap f = as.filterMap f ++ (f a).toList := by
  rw [List.filterMap_append]
  cases ha : f a <;> simp [ha]

theorem connections_snoc (ms : List Moment) (t : Moment) :
    connections (ms ++ [t]) = connections ms ++ t.allotted?.toList :=
  filterMap_snoc _ ms t

theorem connections_append (ms more : List Moment) :
    connections (ms ++ more) = connections ms ++ connections more :=
  List.filterMap_append

theorem mem_connections_append {ms : List Moment} {p : Nat × Handle} (hp : p ∈ connections ms)
    (more : List Moment) : p ∈ connections (ms ++ more) := by
  rw [connections_append]
  exact List.mem_append_left _ hp

/-! ## Everything that can happen -/

def next (h : Hub) (u : UserId) : Handle :=
  ⟨⟨UInt64.ofNat h.nextId⟩, u, h.service.members.room.length⟩

def allot (h : Hub) : Hub :=
  { h with
    service := (h.service.addEndpoint h.settings.mailboxCapacity).1
    nextId := h.nextId + 1 }

/-- What an action comes to while the registry runs. -/
inductive Acts (h : Hub) : Action → Hub → Prop
  | served (q : Registry.Queued) (rest : List Registry.Queued) (hq : h.service.queue = q :: rest) :
      Acts h (.move .serve) { h with service := h.service.serve }
  | swept (t : Ticker) :
      Acts h (.move .sweep) { h with service := { h.service.enqueue .sweep none with sweeper := some t } }
  | worked (i : Nat) (m : Move) (s s' : Session) (v : Service) (hs : h.sessions[i]? = some s)
      (hw : s.Works i h.service m v s') :
      Acts h (.move m) ({ h with service := v }.setSession i s')
  | proved (i : Nat) (line line' : Line) (deadline : Nat) (u : UserId)
      (hs : h.sessions[i]? = some ⟨line, .awaiting deadline⟩)
      (hl : line'.closeCalls? = line.closeCalls?) :
      Acts h (.move (.admission i)) (h.allot.setSession i ⟨line', .registering (h.next u) false⟩)
  | accepted (line : Line) (deadline : Nat) :
      Acts h (.accept line) { h with sessions := h.sessions ++ [⟨line, .prompting deadline⟩] }
  | registered (u : UserId) (line : Line) :
      Acts h (.register u line)
        { h.allot with sessions := h.sessions ++ [⟨line, .registering (h.next u) false⟩] }
  | dispatched (r : DispatchRequest) (hr : h.service.hasRoom = true) :
      Acts h (.dispatch r) { h with service := h.service.enqueue (.dispatch r) none }
  | turnedAway (r : DispatchRequest) (hr : h.service.hasRoom = false) : Acts h (.dispatch r) h
  | asked (q : Inquiry) (hr : h.service.hasRoom = true) :
      Acts h (.ask q) { h with service := h.service.enqueue q.command none }
  | client (i : Nat) (a : ClientAct) (s : Session) (hs : h.sessions[i]? = some s) :
      Acts h (.client i a) (h.setSession i { s with line.wire := a.on s.line.wire })
  | nobody (i : Nat) (a : ClientAct) (hs : h.sessions[i]? = none) : Acts h (.client i a) h
  | passed (ms : Nat) (clock : UInt64) :
      Acts h (.pass ms clock) { h with now := h.now + ms, clock := clock }

theorem acts_of_move {h h' : Hub} {m : Move} (hv : h.service.running = true)
    (hm : h.move m = some h') : h.Acts (.move m) h' := by
  cases m with
  | serve =>
    simp only [move] at hm
    cases hq : h.service.queue with
    | nil => simp [hq] at hm
    | cons q rest =>
      rw [hq] at hm
      cases hm
      exact .served q rest hq
  | sweep =>
    simp only [move] at hm
    split at hm
    · rename_i hdue
      cases hm
      unfold Service.sweepDue at hdue
      unfold Service.sweep
      rw [if_neg (by simp [hv])]
      -- A sweep that is due has a ticker.
      cases ht : h.service.sweeper with
      | none => simp [ht] at hdue
      | some t => exact .swept _
    · cases hm
  | admission i =>
    simp only [move, Option.bind_eq_bind, Option.bind_eq_some_iff] at hm
    obtain ⟨s, hs, ⟨d, s'⟩, hstep, hm⟩ := hm
    cases hm
    rcases Session.works_of_admission hv hstep with ⟨hw, hn⟩ | ⟨line, line', deadline, u, rfl, hd, hl⟩
    · have := Acts.worked i _ s s' d.service hs hw
      simpa [hn] using this
    · cases hd
      exact .proved i line line' deadline u hs hl
  | inbound i =>
    simp only [move, Option.bind_eq_bind, Option.bind_eq_some_iff] at hm
    obtain ⟨⟨line, phase⟩, hs, hm⟩ := hm
    cases phase with
    | admitted c inbound outbound =>
      simp only [Option.bind_eq_some_iff] at hm
      obtain ⟨⟨line', v, inbound'⟩, hstep, hm⟩ := hm
      cases hm
      exact .worked i _ _ _ v hs (Session.works_of_inbound hv hstep)
    | _ => cases hm
  | outbound i =>
    simp only [move, Option.bind_eq_bind, Option.bind_eq_some_iff] at hm
    obtain ⟨⟨line, phase⟩, hs, hm⟩ := hm
    cases phase with
    | admitted c inbound outbound =>
      simp only [Option.bind_eq_some_iff] at hm
      obtain ⟨⟨line', v, outbound'⟩, hstep, hm⟩ := hm
      cases hm
      exact .worked i _ _ _ v hs (Session.works_of_outbound hstep)
    | _ => cases hm
  | keepalive i =>
    simp only [move, Option.bind_eq_bind, Option.bind_eq_some_iff] at hm
    obtain ⟨⟨line, phase⟩, hs, hm⟩ := hm
    cases phase with
    | admitted c inbound outbound =>
      simp only [Option.bind_eq_some_iff] at hm
      obtain ⟨⟨line', v, outbound'⟩, hstep, hm⟩ := hm
      cases hm
      exact .worked i _ _ _ v hs (Session.works_of_keepAlive (.inr rfl) hstep)
    | _ => cases hm

theorem acts_of_act {h h' : Hub} {a : Action} (hv : h.service.running = true)
    (ha : h.act a = some h') : h.Acts a h' := by
  cases a with
  | move m => exact acts_of_move hv ha
  | accept line =>
    cases ha
    exact .accepted line _
  | register u line =>
    cases ha
    exact .registered u line
  | dispatch r =>
    simp only [act, dispatch, Service.tryDispatch, hv, Bool.not_true, Bool.false_eq_true,
      if_false] at ha
    cases hr : h.service.hasRoom with
    | true =>
      simp only [hr, if_true] at ha
      cases ha
      exact .dispatched r hr
    | false =>
      simp only [hr] at ha
      cases ha
      exact .turnedAway r hr
  | ask q =>
    simp only [act] at ha
    split at ha
    · rename_i hr
      cases ha
      exact .asked q hr
    · cases ha
  | client i a =>
    cases ha
    unfold onClient
    cases hs : h.sessions[i]? with
    | none => exact .nobody i a hs
    | some s => exact .client i a s hs
  | pass ms clock =>
    cases ha
    exact .passed ms clock

theorem getElem?_setSession (h : Hub) {i : Nat} {s : Session} (s' : Session)
    (hs : h.sessions[i]? = some s) (j : Nat) :
    (h.setSession i s').sessions[j]? = if j = i then some s' else h.sessions[j]? := by
  have hi := (List.getElem?_eq_some_iff.mp hs).1
  unfold setSession
  rw [List.getElem?_set]
  split
  · rename_i heq
    subst heq
    simp
  · rename_i hne
    rw [if_neg fun heq => hne heq.symm]

theorem getElem?_concat_ne (sessions : List Session) (s : Session) {j : Nat}
    (hj : j ≠ sessions.length) : (sessions ++ [s])[j]? = sessions[j]? := by
  rw [List.getElem?_append]
  split
  · rfl
  · rename_i hnot
    rw [List.getElem?_eq_none (Nat.le_of_not_lt hnot), List.getElem?_eq_none]
    rw [List.length_singleton]
    omega

theorem allotted?_worked {h : Hub} {i : Nat} {m : Move} {s s' : Session} {v : Service}
    (hs : h.sessions[i]? = some s) (hw : s.Works i h.service m v s') :
    Moment.allotted? ⟨h, .move m, { h with service := v }.setSession i s'⟩ = none := by
  have hget := getElem?_setSession { h with service := v } s' hs i
  rw [if_pos rfl] at hget
  cases hw with
  | pinging line c inbound keepalive keepalive' f deadline m hm =>
    rcases hm with rfl | rfl <;> rfl
  | _ => simp [Moment.allotted?, hget]

theorem allotted?_proved {h : Hub} {i : Nat} {line line' : Line} {deadline : Nat} (u : UserId)
    (hs : h.sessions[i]? = some ⟨line, .awaiting deadline⟩) :
    Moment.allotted? ⟨h, .move (.admission i),
      h.allot.setSession i ⟨line', .registering (h.next u) false⟩⟩ = some (i, h.next u) := by
  have hget := getElem?_setSession h.allot ⟨line', .registering (h.next u) false⟩ hs i
  rw [if_pos rfl] at hget
  simp [Moment.allotted?, hget]

theorem allotted?_registered (h : Hub) (u : UserId) (line : Line) :
    Moment.allotted? ⟨h, .register u line,
      { h.allot with sessions := h.sessions ++ [⟨line, .registering (h.next u) false⟩] }⟩ =
      some (h.sessions.length, h.next u) := by
  simp [Moment.allotted?]

/-! ## A run -/

def plain : Hub := .start {} {} (fun _ _ => .error .invalidToken) [] 0

def known : UserId := ⟨5, by decide⟩

/-- A client that reads nothing is superseded while the second of two frames is written to it. -/
def takeover : List Action :=
  let note : DispatchRequest := ⟨.all, "note", .null, []⟩
  let narrow : Line := ⟨.pipe (.create 2), {}⟩
  let wide : Line := ⟨.pipe (.create 4), {}⟩
  [.register known narrow, .move (.admission 0), .move .serve, .move (.admission 0),
    .move (.admission 0), .dispatch note, .dispatch note, .move .serve, .move .serve,
    .move (.outbound 0), .move (.outbound 0), .move (.outbound 0),
    .register known wide, .move (.admission 1), .move .serve, .move (.admission 1),
    .move (.admission 1), .move (.inbound 0), .move (.inbound 0), .move .serve]

theorem takeover_runs : (plain.trace takeover).isSome = true := by decide +kernel

def tookOver : List Moment × Hub := (plain.trace takeover).get takeover_runs

theorem trace_takeover : plain.trace takeover = some tookOver :=
  (Option.some_get takeover_runs).symm

end Hub

end PushHub
