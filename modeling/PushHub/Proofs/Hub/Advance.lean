import PushHub.Proofs.Hub.Keepalive

/-! How an admission goes on: which phase follows which, the deadline that is set for it, and what is
left to be read of the client. -/
namespace PushHub

open Registry (Handle Service)

/-! ## Steps of an admission -/

/-- In these phases a client can still be told that it is refused. -/
def Phase.Pending : Phase → Prop
  | .prompting _ => True
  | .awaiting _ => True
  | .registering _ _ => True
  | _ => False

/-- An admission takes its next step, and never reads more than there is. -/
inductive Admission.Steps (e : Surroundings) (line line' : Line) : Phase → Phase → Prop
  | prompted (deadline : Nat) :
      Steps e line line' (.prompting deadline) (.awaiting (e.now + e.settings.authTimeout))
  | ignored (deadline : Nat) (hu : line'.wire.unread < line.wire.unread) :
      Steps e line line' (.awaiting deadline) (.awaiting deadline)
  | proved (deadline : Nat) (c : Handle) :
      Steps e line line' (.awaiting deadline) (.registering c false)
  | asked (c : Handle) : Steps e line line' (.registering c false) (.registering c true)
  | granted (c : Handle) :
      Steps e line line' (.registering c true) (.greeting c e.writeDeadline)
  | rejected (p : Phase) (why : AdmitError) (endpoint : Option Nat) (hp : p.Pending) :
      Steps e line line' p (.rejecting why e.writeDeadline endpoint)
  | greeted (c : Handle) (deadline : Nat) :
      Steps e line line' (.greeting c deadline) (Admission.connected e c)
  | ungreeted (c : Handle) (deadline : Nat) (err : TransportError) :
      Steps e line line' (.greeting c deadline) (.withdrawing c err)
  | refused (why : AdmitError) (deadline : Nat) (endpoint : Option Nat) :
      Steps e line line' (.rejecting why deadline endpoint) (.refused why)
  | withdrawn (c : Handle) (err : TransportError) :
      Steps e line line' (.withdrawing c err) (.refused (.transport err))

namespace Admission

variable {e : Surroundings} {i : Nat} {d d' : Desk} {line : Line} {s' : Session}

theorem steps_of_prompting {deadline : Nat}
    (hs : step e i d ⟨line, .prompting deadline⟩ = some (d', s')) :
    Steps e line s'.line (.prompting deadline) s'.phase ∧
      s'.line.wire.unread ≤ line.wire.unread := by
  have hu := Nat.le_of_eq (Wire.unread_congr (line.frames_send (prompt e)))
  simp only [step] at hs
  generalize line.send (prompt e) = o at hs hu
  obtain ⟨line', r⟩ := o
  cases r with
  | sent =>
    cases hs
    exact ⟨.prompted deadline, hu⟩
  | failed err =>
    cases hs
    exact ⟨.rejected _ _ _ trivial, hu⟩
  | waiting =>
    dsimp only at hs
    split at hs
    · cases hs
      exact ⟨.rejected _ _ _ trivial, hu⟩
    · cases hs

theorem steps_of_awaiting {deadline : Nat}
    (hs : step e i d ⟨line, .awaiting deadline⟩ = some (d', s')) :
    Steps e line s'.line (.awaiting deadline) s'.phase ∧
      s'.line.wire.unread ≤ line.wire.unread := by
  have hu := line.unread_receive_le
  have hless (f : Frame) := line.unread_of_received (f := f)
  simp only [step] at hs
  generalize line.receive = o at hs hu hless
  obtain ⟨line', r⟩ := o
  cases r with
  | frame f =>
    dsimp only at hs
    split at hs
    · cases hs
      exact ⟨.proved deadline _, hu⟩
    · cases hs
      exact ⟨.rejected _ _ _ trivial, hu⟩
    · cases hs
      exact ⟨.ignored deadline (Nat.lt_of_succ_le (Nat.le_of_eq (hless f rfl))), hu⟩
  | failed err =>
    cases hs
    exact ⟨.rejected _ _ _ trivial, hu⟩
  | waiting =>
    dsimp only at hs
    split at hs
    · cases hs
      exact ⟨.rejected _ _ _ trivial, hu⟩
    · cases hs

theorem unread_refuse_le (d : Desk) (line : Line) (why : AdmitError) (endpoint : Option Nat) :
    (refuse d line why endpoint).2.line.wire.unread ≤ line.wire.unread := by
  show line.close.dropSink.dropSource.wire.unread ≤ line.wire.unread
  have hframes : line.close.dropSink.wire.frames = line.wire.frames := by
    rw [Line.frames_dropSink, Line.frames_close]
  exact Wire.unread_congr hframes ▸ line.close.dropSink.unread_dropSource_le

theorem steps_of_rejecting {why : AdmitError} {deadline : Nat} {endpoint : Option Nat}
    (hs : step e i d ⟨line, .rejecting why deadline endpoint⟩ = some (d', s')) :
    Steps e line s'.line (.rejecting why deadline endpoint) s'.phase ∧
      s'.line.wire.unread ≤ line.wire.unread := by
  have hu := Wire.unread_congr (line.frames_send (ServerFrame.authFailed why.reason).frame)
  have refused (line' : Line) (hu : line'.wire.unread = line.wire.unread)
      (hs : some (refuse d line' why endpoint) = some (d', s')) :
      Steps e line s'.line (.rejecting why deadline endpoint) s'.phase ∧
        s'.line.wire.unread ≤ line.wire.unread := by
    have hle := unread_refuse_le d line' why endpoint
    cases hs
    exact ⟨.refused why deadline endpoint, hle.trans (Nat.le_of_eq hu)⟩
  simp only [step] at hs
  generalize line.send (ServerFrame.authFailed why.reason).frame = o at hs hu
  obtain ⟨line', r⟩ := o
  cases r with
  | sent => exact refused line' hu hs
  | failed err => exact refused line' hu hs
  | waiting =>
    dsimp only at hs
    split at hs
    · exact refused line' hu hs
    · cases hs

theorem steps_of_registering {c : Handle} {asked : Bool}
    (hs : step e i d ⟨line, .registering c asked⟩ = some (d', s')) :
    Steps e line s'.line (.registering c asked) s'.phase ∧
      s'.line.wire.unread ≤ line.wire.unread := by
  cases asked with
  | false =>
    simp only [step] at hs
    split at hs
    · cases hs
      exact ⟨.rejected _ _ _ trivial, Nat.le_refl _⟩
    · split at hs
      · cases hs
        exact ⟨.asked c, Nat.le_refl _⟩
      · cases hs
  | true =>
    simp only [step] at hs
    split at hs
    · cases hs
      exact ⟨.granted c, Nat.le_refl _⟩
    · cases hs
      exact ⟨.rejected _ _ _ trivial, Nat.le_refl _⟩
    · split at hs
      · cases hs
      · cases hs
        exact ⟨.rejected _ _ _ trivial, Nat.le_refl _⟩

theorem steps_of_greeting {c : Handle} {deadline : Nat}
    (hs : step e i d ⟨line, .greeting c deadline⟩ = some (d', s')) :
    Steps e line s'.line (.greeting c deadline) s'.phase ∧
      s'.line.wire.unread ≤ line.wire.unread := by
  have hu := Nat.le_of_eq
    (Wire.unread_congr (line.frames_send (ServerFrame.authSuccess c.user).frame))
  simp only [step] at hs
  generalize line.send (ServerFrame.authSuccess c.user).frame = o at hs hu
  obtain ⟨line', r⟩ := o
  cases r with
  | sent =>
    cases hs
    exact ⟨.greeted c deadline, hu⟩
  | failed err =>
    cases hs
    exact ⟨.ungreeted c deadline err, hu⟩
  | waiting =>
    dsimp only at hs
    split at hs
    · cases hs
      exact ⟨.ungreeted c deadline _, hu⟩
    · cases hs

theorem steps_of_withdrawing {c : Handle} {err : TransportError}
    (hs : step e i d ⟨line, .withdrawing c err⟩ = some (d', s')) :
    Steps e line s'.line (.withdrawing c err) s'.phase ∧
      s'.line.wire.unread ≤ line.wire.unread := by
  have hu := unread_refuse_le d line (.transport err) (some c.endpoint)
  simp only [step] at hs
  split at hs
  · cases hs
  · cases hs
    exact ⟨.withdrawn c err, hu⟩

theorem steps_of_step {s : Session} (hs : step e i d s = some (d', s')) :
    Steps e s.line s'.line s.phase s'.phase ∧ s'.line.wire.unread ≤ s.line.wire.unread := by
  obtain ⟨line, phase⟩ := s
  cases phase with
  | prompting deadline => exact steps_of_prompting hs
  | awaiting deadline => exact steps_of_awaiting hs
  | rejecting why deadline endpoint => exact steps_of_rejecting hs
  | registering c asked => exact steps_of_registering hs
  | greeting c deadline => exact steps_of_greeting hs
  | withdrawing c err => exact steps_of_withdrawing hs
  | admitted c inbound outbound => cases hs
  | refused why => cases hs

end Admission

end PushHub
