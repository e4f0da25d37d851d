import PushHub.Proofs.Hub.Speech

/-! The timers of a connection: when the loop that reads takes its client for dead, and when the loop
that writes pings next. Both are never further ahead of the clock than the settings say. -/
namespace PushHub

open Registry (Handle Service Ticker Mailroom)

def Inbound.deadline? : Inbound → Option Nat
  | .running deadline _ => some deadline
  | _ => none

def Outbound.keepalive? : Outbound → Option Ticker
  | .idle k => some k
  | .writing _ _ _ k => some k
  | _ => none

def Session.timers (s : Session) : List Nat :=
  match s.phase with
  | .admitted _ inbound outbound =>
    inbound.deadline?.toList ++ (outbound.keepalive?.map Ticker.next).toList
  | _ => []

/-! ## Steps of the loops -/

/-- The loop that reads hears a frame and waits anew, or comes to its end. -/
inductive Inbound.Steps (e : Surroundings) : Inbound → Inbound → Prop
  | heard (deadline : Nat) (followed followed' : SubscriptionSet) :
      Steps e (.running deadline followed) (.running (e.now + e.settings.pongWait) followed')
  | left (deadline : Nat) (followed : SubscriptionSet) (exit : InboundExit)
      (hx : exit = .livenessTimeout → deadline ≤ e.now) :
      Steps e (.running deadline followed) (.leaving exit)
  | done (exit : InboundExit) : Steps e (.leaving exit) (.ended exit)

/-- The loop that writes takes up a frame or a ping that is due, says it, or comes to its end. -/
inductive Outbound.Steps (e : Surroundings) (line : Line) :
    Option Utterance → Outbound → Outbound → Prop
  | took (f : Frame) (deadline : Nat) (k : Ticker) :
      Steps e line none (.idle k) (.writing f false deadline k)
  | pinging (deadline : Nat) (k : Ticker) (hk : k.next ≤ e.now) :
      Steps e line none (.idle k) (.writing (.ping []) true deadline (k.advance e.now))
  | sent (f : Frame) (deadline : Nat) (k : Ticker) :
      Steps e line (some (.mail f)) (.writing f false deadline k) (.idle k)
  | pinged (f : Frame) (deadline : Nat) (k : Ticker) :
      Steps e line (some (.keepalive f)) (.writing f true deadline k) (.idle k)
  | stopped (k : Ticker) (exit : OutboundExit) : Steps e line none (.idle k) (.closing exit)
  | cut (f : Frame) (keeping : Bool) (deadline : Nat) (k : Ticker) (exit : OutboundExit) :
      Steps e line none (.writing f keeping deadline k) (.closing exit)
  | closed (exit : OutboundExit) : Steps e line none (.closing exit) (.ended exit)

namespace Session

variable {e : Surroundings} {c : Handle} {line line' : Line} {v v' : Service}

theorem steps_of_inbound {inbound inbound' : Inbound}
    (hs : inbound.step e c line v = some (line', v', inbound')) : inbound.Steps e inbound' := by
  cases inbound with
  | running deadline followed =>
    simp only [Inbound.step] at hs
    split at hs
    · cases hs
      exact .left _ _ _ (by rintro ⟨⟩)
    · generalize line.receive = o at hs
      obtain ⟨line₁, r⟩ := o
      cases r with
      | frame f =>
        cases f with
        | close =>
          cases hs
          exact .left _ _ _ (by rintro ⟨⟩)
        | _ =>
          cases hs
          exact .heard _ _ _
      | failed err =>
        cases hs
        exact .left _ _ _ (by cases err <;> rintro ⟨⟩)
      | waiting =>
        dsimp only at hs
        split at hs
        · rename_i hdeadline
          cases hs
          exact .left _ _ _ fun _ => hdeadline
        · cases hs
  | leaving exit =>
    simp only [Inbound.step] at hs
    split at hs
    · cases hs
    · cases hs
      exact .done exit
  | ended exit => cases hs
  | absent => cases hs

theorem steps_of_keepAlive {outbound outbound' : Outbound}
    (hs : outbound.keepAlive e line v = some (line', v', outbound')) :
    outbound.Steps e line none outbound' := by
  cases outbound with
  | idle k =>
    simp only [Outbound.keepAlive] at hs
    split at hs
    · rename_i hdue
      cases hs
      exact .pinging _ k (of_decide_eq_true hdue)
    · cases hs
  | _ => cases hs

theorem steps_of_outbound (i : Nat) (inbound : Inbound) {outbound outbound' : Outbound}
    (hs : outbound.step e c line v = some (line', v', outbound')) :
    outbound.Steps e line (utters? e ⟨line, .admitted c inbound outbound⟩ (.outbound i))
      outbound' := by
  cases outbound with
  | idle k =>
    simp only [Outbound.step] at hs
    split at hs
    · cases hs
      exact .took _ _ k
    · cases hs
      exact .stopped k _
    · exact steps_of_keepAlive hs
  | writing f keeping deadline k =>
    have hsaid : utters? e ⟨line, .admitted c inbound (.writing f keeping deadline k)⟩ (.outbound i) =
        if (line.send f).2 = .sent then
          some (if keeping then .keepalive f else .mail f) else none := by
      by_cases hf : (line.send f).2 = .sent <;> cases keeping <;>
        simp [utters?, offers?, Utterance.frame, Option.filter, hf]
    rw [hsaid]
    simp only [Outbound.step] at hs
    generalize line.send f = o at hs ⊢
    obtain ⟨line₁, r⟩ := o
    cases r with
    | sent =>
      cases hs
      cases keeping with
      | true => exact .pinged f deadline k
      | false => exact .sent f deadline k
    | failed err =>
      cases hs
      exact .cut f keeping deadline k _
    | waiting =>
      dsimp only at hs
      split at hs
      · cases hs
        exact .cut f keeping deadline k _
      · cases hs
  | closing exit =>
    cases hs
    exact .closed exit
  | ended exit => cases hs
  | absent => cases hs

end Session

/-! ## How far ahead the timers are -/

/-- Neither timer is further ahead than a wait, or a period, from now. -/
structure Phase.Timed (settings : ConnectionSettings) (now : Nat) (p : Phase) : Prop where
  deadline : ∀ c inbound outbound t, p = .admitted c inbound outbound → inbound.deadline? = some t →
    t ≤ now + settings.pongWait
  keepalive : ∀ c inbound outbound k, p = .admitted c inbound outbound →
    outbound.keepalive? = some k →
    k.period = max settings.pingPeriod Outbound.minPeriod ∧ k.next ≤ now + k.period

namespace Phase.Timed

variable {settings : ConnectionSettings} {now later : Nat} {p : Phase}

theorem of_other (hp : ∀ c inbound outbound, p ≠ .admitted c inbound outbound) :
    p.Timed settings now where
  deadline c inbound outbound _ heq _ := absurd heq (hp c inbound outbound)
  keepalive c inbound outbound _ heq _ := absurd heq (hp c inbound outbound)

theorem mono (ht : p.Timed settings now) (hle : now ≤ later) : p.Timed settings later where
  deadline c inbound outbound t heq hd := by
    have := ht.deadline c inbound outbound t heq hd
    omega
  keepalive c inbound outbound k heq hk := by
    obtain ⟨hperiod, hnext⟩ := ht.keepalive c inbound outbound k heq hk
    exact ⟨hperiod, by omega⟩

end Phase.Timed

theorem Registry.Ticker.advance_le {k : Ticker} {now : Nat} (hk : k.next ≤ now) :
    (k.advance now).next ≤ now + (k.advance now).period := by
  show (if k.next + tolerance < now then now + k.period else k.next + k.period) ≤ now + k.period
  split
  · exact Nat.le_refl _
  · omega

namespace Session

variable {e : Surroundings} {i : Nat} {d d' : Desk} {s s' : Session} {m : Move} {c : Handle}
  {inbound inbound' : Inbound} {outbound outbound' : Outbound}

theorem timed_of_inbound (ht : (Phase.admitted c inbound outbound).Timed e.settings e.now)
    (hs : inbound.Steps e inbound') :
    (Phase.admitted c inbound' outbound).Timed e.settings e.now where
  deadline _ _ _ t heq hd := by
    cases heq
    cases hs with
    | heard deadline followed followed' =>
      cases hd
      exact Nat.le_refl _
    | left => cases hd
    | done => cases hd
  keepalive _ _ _ k heq hk := by
    cases heq
    exact ht.keepalive _ _ _ k rfl hk

theorem timed_of_outbound {line : Line} {said : Option Utterance}
    (ht : (Phase.admitted c inbound outbound).Timed e.settings e.now)
    (hs : outbound.Steps e line said outbound') :
    (Phase.admitted c inbound outbound').Timed e.settings e.now where
  deadline _ _ _ t heq hd := by
    cases heq
    exact ht.deadline _ _ _ t rfl hd
  keepalive _ _ _ k heq hk := by
    cases heq
    cases hs with
    | took f deadline k' => exact ht.keepalive _ _ _ k rfl hk
    | pinging deadline k' hdue =>
      cases hk
      exact ⟨(ht.keepalive _ _ _ k' rfl rfl).1, Registry.Ticker.advance_le hdue⟩
    | sent f deadline k' => exact ht.keepalive _ _ _ k rfl hk
    | pinged f deadline k' => exact ht.keepalive _ _ _ k rfl hk
    | stopped => cases hk
    | cut => cases hk
    | closed => cases hk

theorem Works.phase_of_admitted {v v' : Service} (hw : s.Works i v (.admission i) v' s')
    (hp : s'.phase = .admitted c inbound outbound) : ∃ deadline, s.phase = .greeting c deadline := by
  cases hw with
  | greeted line line' c' deadline =>
    cases hp
    exact ⟨deadline, rfl⟩
  | pinging line c' inbound k k' f deadline m hm => rcases hm with hm | hm <;> cases hm
  | _ => cases hp

theorem phase_of_admitted (hv : d.service.running = true)
    (hs : Admission.step e i d s = some (d', s'))
    (hp : s'.phase = .admitted c inbound outbound) : s'.phase = Admission.connected e c := by
  rcases works_of_admission hv hs with ⟨hw, -⟩ | ⟨line, line', deadline, u, -, heq, -⟩
  · obtain ⟨deadline, hphase⟩ := hw.phase_of_admitted hp
    obtain ⟨line, phase⟩ := s
    cases hphase
    simp only [Admission.step] at hs
    split at hs
    · cases hs
      rfl
    · cases hs
      cases hp
    · split at hs <;> cases hs
      cases hp
  · cases heq
    cases hp

theorem timed_of_admission (hv : d.service.running = true)
    (hs : Admission.step e i d s = some (d', s')) : s'.phase.Timed e.settings e.now where
  deadline c inbound outbound t heq hd := by
    obtain ⟨-, rfl, rfl⟩ := Phase.admitted.inj (heq.symm.trans (phase_of_admitted hv hs heq))
    cases hd
    exact Nat.le_refl _
  keepalive c inbound outbound k heq hk := by
    obtain ⟨-, rfl, rfl⟩ := Phase.admitted.inj (heq.symm.trans (phase_of_admitted hv hs heq))
    cases hk
    exact ⟨rfl, Nat.le_refl _⟩

theorem timed_of_move (hv : d.service.running = true) (ht : s.phase.Timed e.settings e.now)
    (hm : m.session? = some i) (hs : s.move e d m = some (d', s')) :
    s'.phase.Timed e.settings e.now := by
  obtain ⟨line, phase⟩ := s
  cases m with
  | serve => cases hm
  | sweep => cases hm
  | admission j =>
    exact timed_of_admission hv hs
  | inbound j =>
    cases phase with
    | admitted c inbound outbound =>
      obtain ⟨⟨line', v, inbound'⟩, hstep, heq⟩ := Option.map_eq_some_iff.mp hs
      cases heq
      exact timed_of_inbound ht (steps_of_inbound hstep)
    | _ => cases hs
  | outbound j =>
    cases phase with
    | admitted c inbound outbound =>
      obtain ⟨⟨line', v, outbound'⟩, hstep, heq⟩ := Option.map_eq_some_iff.mp hs
      cases heq
      exact timed_of_outbound ht (steps_of_outbound j inbound hstep)
    | _ => cases hs
  | keepalive j =>
    cases phase with
    | admitted c inbound outbound =>
      obtain ⟨⟨line', v, outbound'⟩, hstep, heq⟩ := Option.map_eq_some_iff.mp hs
      cases heq
      exact timed_of_outbound ht (steps_of_keepAlive hstep)
    | _ => cases hs

end Session

namespace Hub

variable {start h h' : Hub} {a : Action} {ms : List Moment} {i : Nat} {s : Session}

theorem Acts.now_le (ha : h.Acts a h') : h.now ≤ h'.now := by
  cases ha with
  | passed ms clock => exact Nat.le_add_right _ _
  | _ => exact Nat.le_refl _

theorem Run.timed (hr : Run start ms h) (hs : start.Fresh) (hi : h.sessions[i]? = some s) :
    s.phase.Timed start.settings h.now := by
  obtain ⟨o, ho⟩ := hr.opening_of_lt hs (List.getElem?_eq_some_iff.mp hi).1
  obtain ⟨s', hi', ht⟩ := hr.along hs ho (P := fun _ h s => s.phase.Timed start.settings h.now)
    (fun _ _ _ hopen => by
      cases hopen with
      | accepted line => exact .of_other nofun
      | registered u line => exact .of_other nofun)
    (fun {ms h h' a s s'} hrun hact _ _ _ hturn ht => by
      have hv := (hrun.ledger hs).running
      cases hturn with
      | own m d s' hm hmove =>
        rw [← (hrun.fixed hs).1] at ht ⊢
        exact Session.timed_of_move (e := h.surroundings) hv ht hm hmove
      | client c => exact ht
      | other a h' ha hi => exact ht.mono (acts_of_act hv ha).now_le)
  cases hi.symm.trans hi'
  exact ht

end Hub

end PushHub
