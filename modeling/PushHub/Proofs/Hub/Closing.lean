import PushHub.Proofs.Hub.Speech

/-! What becomes of a transport that is handed to the hub, and how often its sink is closed on the
way. This is so of every transport, also of one that keeps no count of it. -/
namespace PushHub

open Registry (Handle Service)

/-- What may become of a transport in the hands of a session and a client while its sink is closed
`n` times. -/
inductive Line.Comes (l : Line) : Nat → Line → Prop
  | handed : Comes l 0 l
  | send {n : Nat} {k : Line} (hc : Comes l n k) (f : Frame) : Comes l n (k.send f).1
  | cancelSend {n : Nat} {k : Line} (hc : Comes l n k) : Comes l n k.cancelSend
  | receive {n : Nat} {k : Line} (hc : Comes l n k) : Comes l n k.receive.1
  | dropSink {n : Nat} {k : Line} (hc : Comes l n k) : Comes l n k.dropSink
  | dropSource {n : Nat} {k : Line} (hc : Comes l n k) : Comes l n k.dropSource
  | client {n : Nat} {k : Line} (hc : Comes l n k) (a : ClientAct) :
      Comes l n { k with wire := a.on k.wire }
  | close {n : Nat} {k : Line} (hc : Comes l n k) : Comes l (n + 1) k.close

theorem Line.Comes.closeCalls? {l k : Line} {n : Nat} (hc : l.Comes n k) :
    k.closeCalls? = l.closeCalls?.map (· + n) := by
  induction hc with
  | handed => simp
  | send hc f ih => rw [Line.closeCalls?_send, ih]
  | cancelSend hc ih => exact ih
  | receive hc ih => rw [Line.closeCalls?_receive, ih]
  | dropSink hc ih => rw [Line.closeCalls?_dropSink, ih]
  | dropSource hc ih => rw [Line.closeCalls?_dropSource, ih]
  | client hc a ih => exact (a.closeCalls?_on _).trans ih
  | close hc ih =>
    rw [Line.closeCalls?_close, ih, Option.map_map]
    rfl

/-! ## One move -/

section

variable {l line line' : Line} {e : Surroundings} {c : Handle} {v v' : Service}

section

variable {i : Nat} {d d' : Desk} {s' : Session}

theorem Admission.comes_of_prompting {deadline : Nat}
    (hs : Admission.step e i d ⟨line, .prompting deadline⟩ = some (d', s')) (hc : l.Comes 0 line) :
    l.Comes s'.phase.closings s'.line := by
  have hsent := hc.send (Admission.prompt e)
  simp only [Admission.step] at hs
  generalize line.send (Admission.prompt e) = o at hs hsent
  obtain ⟨line', r⟩ := o
  cases r with
  | sent => cases hs; exact hsent
  | failed err => cases hs; exact hsent
  | waiting =>
    dsimp only at hs
    split at hs
    · cases hs
      exact hsent.cancelSend
    · cases hs

theorem Admission.comes_of_awaiting {deadline : Nat}
    (hs : Admission.step e i d ⟨line, .awaiting deadline⟩ = some (d', s')) (hc : l.Comes 0 line) :
    l.Comes s'.phase.closings s'.line := by
  have hreceived := hc.receive
  simp only [Admission.step] at hs
  generalize line.receive = o at hs hreceived
  obtain ⟨line', r⟩ := o
  cases r with
  | frame f =>
    dsimp only at hs
    split at hs <;> cases hs <;> exact hreceived
  | failed err => cases hs; exact hreceived
  | waiting =>
    dsimp only at hs
    split at hs
    · cases hs
      exact hreceived
    · cases hs

theorem Admission.comes_of_rejecting {why : AdmitError} {deadline : Nat} {endpoint : Option Nat}
    (hs : Admission.step e i d ⟨line, .rejecting why deadline endpoint⟩ = some (d', s'))
    (hc : l.Comes 0 line) : l.Comes s'.phase.closings s'.line := by
  have hsent := hc.send (ServerFrame.authFailed why.reason).frame
  simp only [Admission.step] at hs
  generalize line.send (ServerFrame.authFailed why.reason).frame = o at hs hsent
  obtain ⟨line', r⟩ := o
  cases r with
  | sent => cases hs; exact hsent.close.dropSink.dropSource
  | failed err => cases hs; exact hsent.close.dropSink.dropSource
  | waiting =>
    dsimp only at hs
    split at hs
    · cases hs
      exact hsent.close.dropSink.dropSource
    · cases hs

theorem Admission.comes_of_registering {asked : Bool}
    (hs : Admission.step e i d ⟨line, .registering c asked⟩ = some (d', s')) (hc : l.Comes 0 line) :
    l.Comes s'.phase.closings s'.line := by
  cases asked with
  | false =>
    simp only [Admission.step] at hs
    split at hs
    · cases hs
      exact hc
    · split at hs
      · cases hs
        exact hc
      · cases hs
  | true =>
    simp only [Admission.step] at hs
    split at hs
    · cases hs
      exact hc
    · cases hs
      exact hc
    · split at hs
      · cases hs
      · cases hs
        exact hc

theorem Admission.comes_of_greeting {deadline : Nat}
    (hs : Admission.step e i d ⟨line, .greeting c deadline⟩ = some (d', s')) (hc : l.Comes 0 line) :
    l.Comes s'.phase.closings s'.line := by
  have hsent := hc.send (ServerFrame.authSuccess c.user).frame
  simp only [Admission.step] at hs
  generalize line.send (ServerFrame.authSuccess c.user).frame = o at hs hsent
  obtain ⟨line', r⟩ := o
  cases r with
  | sent => cases hs; exact hsent
  | failed err => cases hs; exact hsent
  | waiting =>
    dsimp only at hs
    split at hs
    · cases hs
      exact hsent.cancelSend
    · cases hs

theorem Admission.comes_of_withdrawing {err : TransportError}
    (hs : Admission.step e i d ⟨line, .withdrawing c err⟩ = some (d', s')) (hc : l.Comes 0 line) :
    l.Comes s'.phase.closings s'.line := by
  simp only [Admission.step] at hs
  split at hs
  · cases hs
  · cases hs
    exact hc.close.dropSink.dropSource

theorem Admission.comes_of_step {s : Session} (hs : Admission.step e i d s = some (d', s'))
    (hc : l.Comes s.phase.closings s.line) : l.Comes s'.phase.closings s'.line := by
  obtain ⟨line, phase⟩ := s
  cases phase with
  | prompting deadline => exact comes_of_prompting hs hc
  | awaiting deadline => exact comes_of_awaiting hs hc
  | rejecting why deadline endpoint => exact comes_of_rejecting hs hc
  | registering c asked => exact comes_of_registering hs hc
  | greeting c deadline => exact comes_of_greeting hs hc
  | withdrawing c err => exact comes_of_withdrawing hs hc
  | admitted c inbound outbound => cases hs
  | refused why => cases hs

end

theorem Inbound.comes_of_step {inbound inbound' : Inbound} {n : Nat}
    (hs : inbound.step e c line v = some (line', v', inbound')) (hc : l.Comes n line) :
    l.Comes n line' := by
  cases inbound with
  | running deadline followed =>
    have hreceived := hc.receive
    simp only [Inbound.step] at hs
    split at hs
    · cases hs
      exact hc
    · generalize line.receive = o at hs hreceived
      obtain ⟨line₁, r⟩ := o
      cases r with
      | frame f => cases f <;> cases hs <;> exact hreceived
      | failed err => cases hs; exact hreceived
      | waiting =>
        dsimp only at hs
        split at hs
        · cases hs
          exact hreceived
        · cases hs
  | leaving exit =>
    simp only [Inbound.step] at hs
    split at hs
    · cases hs
    · cases hs
      exact hc.dropSource
  | ended exit => cases hs
  | absent => cases hs

theorem Outbound.comes_of_keepAlive {outbound outbound' : Outbound}
    (hs : outbound.keepAlive e line v = some (line', v', outbound'))
    (hc : l.Comes outbound.closings line) : l.Comes outbound'.closings line' := by
  cases outbound with
  | idle keepalive =>
    simp only [Outbound.keepAlive] at hs
    split at hs
    · cases hs
      exact hc
    · cases hs
  | _ => cases hs

theorem Outbound.comes_of_step {outbound outbound' : Outbound}
    (hs : outbound.step e c line v = some (line', v', outbound'))
    (hc : l.Comes outbound.closings line) : l.Comes outbound'.closings line' := by
  cases outbound with
  | idle keepalive =>
    simp only [Outbound.step] at hs
    split at hs
    · cases hs
      exact hc
    · cases hs
      exact hc
    · exact comes_of_keepAlive hs hc
  | writing f keeping deadline keepalive =>
    have hsent := hc.send f
    simp only [Outbound.step] at hs
    generalize line.send f = o at hs hsent
    obtain ⟨line₁, r⟩ := o
    cases r with
    | sent => cases hs; exact hsent
    | failed err => cases hs; exact hsent
    | waiting =>
      dsimp only at hs
      split at hs
      · cases hs
        exact hsent.cancelSend
      · cases hs
  | closing exit =>
    cases hs
    exact hc.close.dropSink
  | ended exit => cases hs
  | absent => cases hs

/-- The sink is closed where the phase says so, and nowhere else. -/
theorem Session.comes_of_move {d d' : Desk} {s s' : Session} {m : Move}
    (hs : s.move e d m = some (d', s')) (hc : l.Comes s.phase.closings s.line) :
    l.Comes s'.phase.closings s'.line := by
  obtain ⟨line, phase⟩ := s
  cases m with
  | serve => cases hs
  | sweep => cases hs
  | admission j => exact Admission.comes_of_step hs hc
  | inbound j =>
    cases phase with
    | admitted c inbound outbound =>
      obtain ⟨⟨line', v, inbound'⟩, hstep, heq⟩ := Option.map_eq_some_iff.mp hs
      cases heq
      exact Inbound.comes_of_step hstep hc
    | _ => cases hs
  | outbound j =>
    cases phase with
    | admitted c inbound outbound =>
      obtain ⟨⟨line', v, outbound'⟩, hstep, heq⟩ := Option.map_eq_some_iff.mp hs
      cases heq
      exact Outbound.comes_of_step hstep hc
    | _ => cases hs
  | keepalive j =>
    cases phase with
    | admitted c inbound outbound =>
      obtain ⟨⟨line', v, outbound'⟩, hstep, heq⟩ := Option.map_eq_some_iff.mp hs
      cases heq
      exact Outbound.comes_of_keepAlive hstep hc
    | _ => cases hs

end

/-! ## A whole run -/

namespace Hub

/-- The transport that is handed to the hub at a moment, with the number of its session. -/
def Moment.handed? (t : Moment) : Option (Nat × Line) :=
  match t.action with
  | .accept line => some (t.before.sessions.length, line)
  | .register _ line => some (t.before.sessions.length, line)
  | _ => none

variable {start h h' : Hub} {before after : List Moment} {t : Moment} {a : Action} {i : Nat}
  {line : Line}

theorem Turn.comes {s s' : Session} (ht : h.Turn i s a h' s')
    (hc : line.Comes s.phase.closings s.line) : line.Comes s'.phase.closings s'.line := by
  cases ht with
  | own m d s' hm hmove => exact Session.comes_of_move hmove hc
  | client a => exact hc.client a
  | other a h' ha hi => exact hc

theorem comes_of_handed (ht : Moment.handed? ⟨h, a, h'⟩ = some (i, line))
    (ha : h.act a = some h') :
    i = h.sessions.length ∧ ∃ s, h'.sessions[i]? = some s ∧ s.line = line ∧ s.phase.closings = 0 := by
  cases a with
  | accept l =>
    cases ht
    cases ha
    exact ⟨rfl, _, List.getElem?_concat_length, rfl, rfl⟩
  | register u l =>
    cases ht
    cases ha
    exact ⟨rfl, _, List.getElem?_concat_length, rfl, rfl⟩
  | _ => cases ht

theorem Run.comes (hr : Run start (before ++ t :: after) h)
    (ht : t.handed? = some (i, line)) :
    ∃ s, h.sessions[i]? = some s ∧ line.Comes s.phase.closings s.line := by
  refine hr.since (P := fun h => ∃ s, h.sessions[i]? = some s ∧
    line.Comes s.phase.closings s.line) ?_ fun _ _ _ _ hrun hact hp => ?_
  · obtain ⟨-, s, hi, rfl, hzero⟩ := comes_of_handed ht hr.split.2
    exact ⟨s, hi, hzero ▸ .handed⟩
  · obtain ⟨s, hi, hc⟩ := hp
    obtain ⟨s', hi', hturn⟩ := turn_of_act hi hact
    exact ⟨s', hi', hturn.comes hc⟩

end Hub

end PushHub
