import PushHub.Proofs.Hub.Deadlines
import PushHub.Proofs.Hub.Entrance

/-! How a handshake ends. Once a client is prompted, the first proof, farewell or failure that its
transport gives decides who it is, or else the end of its time; nothing else that it sends ends the
wait or moves its deadline, and what it sends behind the deciding frame is left in the transport. -/
namespace PushHub

open Registry (Handle Service)

/-! ## Verdicts -/

/-- How a handshake whose time is up at `deadline` is decided by what the source gives. -/
inductive Surroundings.Decides (e : Surroundings) (deadline : Nat) :
    Receiving → Except HandshakeError UserId → Prop
  | proved (u : UserId) (f : Frame) (hu : e.Proves u f) : Decides e deadline (.frame f) (.ok u)
  | farewell : Decides e deadline (.frame .close) (.error .transportClosed)
  | ended : Decides e deadline (.failed .closed) (.error .transportClosed)
  | failed (err : TransportError) (herr : err ≠ .closed) :
      Decides e deadline (.failed err) (.error (.transport err))
  | late (hnow : deadline ≤ e.now) :
      Decides e deadline .waiting (.error (.timeout e.settings.authTimeout))

theorem Surroundings.Decides.unique {e : Surroundings} {deadline : Nat} {r : Receiving}
    {o o' : Except HandshakeError UserId} (ho : e.Decides deadline r o)
    (ho' : e.Decides deadline r o') : o = o' := by
  cases ho with
  | proved u f hu =>
    cases ho' with
    | proved v f hv =>
      have hu := Admission.judge_eq_accepted.mpr hu
      cases hu.symm.trans (Admission.judge_eq_accepted.mpr hv)
      rfl
    | farewell => cases hu
  | farewell =>
    cases ho' with
    | proved u f hu => cases hu
    | farewell => rfl
  | ended =>
    cases ho' with
    | ended => rfl
    | failed err herr => exact absurd rfl herr
  | failed err herr =>
    cases ho' with
    | ended => exact absurd rfl herr
    | failed => rfl
  | late hnow =>
    cases ho'
    rfl

/-- A frame that decides nothing: it is no farewell and proves nobody. -/
def Surroundings.Passes (e : Surroundings) (f : Frame) : Prop := f ≠ .close ∧ ∀ u, ¬e.Proves u f

inductive Phase.Follows : Except HandshakeError UserId → Phase → Prop
  | registering (c : Handle) : Follows (.ok c.user) (.registering c false)
  | rejecting (why : HandshakeError) (deadline : Nat) :
      Follows (.error why) (.rejecting (.handshake why) deadline none)

theorem Phase.Follows.past {o : Except HandshakeError UserId} {p : Phase} (hp : p.Follows o) :
    p.isHandshake = false := by
  cases hp <;> rfl

namespace Admission

variable {e : Surroundings} {i : Nat} {d d' : Desk} {line : Line} {deadline : Nat} {s' : Session}

theorem eq_close_of_judge {f : Frame} (hj : judge e f = .closed) : f = .close := by
  by_contra hf
  have hnobody (u : UserId) (hu : e.Proves u f) : False := by
    cases hj.symm.trans (judge_eq_accepted.mpr hu)
  cases hj.symm.trans (judge_of_noise hf hnobody)

theorem decides_of_failed (err : TransportError) :
    e.Decides deadline (.failed err) (.error (.ofTransport err)) := by
  cases err with
  | closed => exact .ended
  | io reason => exact .failed _ nofun
  | writeTimeout => exact .failed _ nofun

theorem looks_of_awaiting (hs : step e i d ⟨line, .awaiting deadline⟩ = some (d', s')) :
    s'.line = line.receive.1 ∧
      ((∃ f, line.receive.2 = .frame f ∧ e.Passes f ∧ s'.phase = .awaiting deadline) ∨
        ∃ o, e.Decides deadline line.receive.2 o ∧ s'.phase.Follows o) := by
  simp only [step] at hs
  generalize line.receive = o at hs
  obtain ⟨line', r⟩ := o
  cases r with
  | frame f =>
    dsimp only at hs
    split at hs
    · rename_i u hj
      cases hs
      exact ⟨rfl, .inr ⟨.ok u, .proved u f (judge_eq_accepted.mp hj), .registering ⟨_, u, _⟩⟩⟩
    · rename_i hj
      cases hs
      obtain rfl := eq_close_of_judge hj
      exact ⟨rfl, .inr ⟨_, .farewell, .rejecting _ _⟩⟩
    · rename_i hj
      cases hs
      refine ⟨rfl, .inl ⟨f, rfl, ⟨?_, fun u hu => ?_⟩, rfl⟩⟩
      · rintro rfl
        cases hj
      · cases hj.symm.trans (judge_eq_accepted.mpr hu)
  | failed err =>
    cases hs
    exact ⟨rfl, .inr ⟨_, decides_of_failed err, .rejecting _ _⟩⟩
  | waiting =>
    dsimp only at hs
    split at hs
    · rename_i hnow
      cases hs
      exact ⟨rfl, .inr ⟨_, .late hnow, .rejecting _ _⟩⟩
    · cases hs

theorem step_of_awaiting_eq_none : step e i d ⟨line, .awaiting deadline⟩ = none ↔
    line.receive.2 = .waiting ∧ e.now < deadline := by
  simp only [step]
  generalize line.receive = o
  obtain ⟨line', r⟩ := o
  cases r with
  | frame f =>
    dsimp only
    split <;> simp
  | failed err => simp
  | waiting => simp

end Admission

namespace Session

variable {e : Surroundings} {i : Nat} {d d' : Desk} {s s' : Session} {m : Move}

/-- What the source of a session gives when it is looked at for a credential. -/
def looked? (s : Session) : Move → Option Receiving
  | .admission _ =>
    match s.phase with
    | .awaiting _ => some s.line.receive.2
    | _ => none
  | _ => none

theorem looked?_of_past (hs : s.phase.isHandshake = false) : s.looked? m = none := by
  obtain ⟨line, phase⟩ := s
  cases m with
  | admission j =>
    cases phase with
    | awaiting t => cases hs
    | _ => rfl
  | _ => rfl

theorem awaiting_of_prompted {secs : UInt64}
    (hu : s.utters? e m = some (.control (.prompt secs))) (hs : s.move e d m = some (d', s')) :
    s'.phase = .awaiting (e.now + e.settings.authTimeout) := by
  obtain ⟨ho, hsent⟩ := Option.filter_eq_some_iff.mp hu
  obtain ⟨line, phase⟩ := s
  cases m with
  | admission j =>
    cases phase with
    | prompting deadline =>
      cases ho
      have hsent : (line.send (Admission.prompt e)).2 = .sent := of_decide_eq_true hsent
      simp only [Session.move, Admission.step] at hs
      generalize line.send (Admission.prompt e) = o at hs hsent
      obtain ⟨line', r⟩ := o
      cases hsent
      cases hs
      rfl
    | _ => cases ho
  | outbound j =>
    cases phase with
    | admitted c inbound outbound =>
      cases outbound with
      | writing f keeping deadline k => cases keeping <;> cases ho
      | _ => cases ho
    | _ => cases ho
  | _ => cases ho

theorem past_of_move (hv : d.service.running = true) (hm : m.session? = some i)
    (hs : s.move e d m = some (d', s')) (hp : s.phase.isHandshake = false) :
    s'.phase.isHandshake = false := by
  obtain ⟨line', phase'⟩ := s'
  cases seeks_of_move hv hm hs with
  | asked deadline heq => rw [heq] at hp; cases hp
  | unproved deadline f heq => rw [heq] at hp; cases hp
  | proved deadline f c heq => rw [heq] at hp; cases hp
  | other hn hprompting hawaiting =>
    cases phase' with
    | prompting t => exact absurd rfl (hprompting t)
    | awaiting t => exact absurd rfl (hawaiting t)
    | _ => rfl

theorem line_of_registering {line : Line} {c : Handle} {asked : Bool}
    (hs : Admission.step e i d ⟨line, .registering c asked⟩ = some (d', s')) : s'.line = line := by
  cases asked with
  | false =>
    simp only [Admission.step] at hs
    split at hs
    · cases hs
      rfl
    · split at hs <;> cases hs
      rfl
  | true =>
    simp only [Admission.step] at hs
    split at hs
    · cases hs
      rfl
    · cases hs
      rfl
    · split at hs <;> cases hs
      rfl

theorem frames_of_admission (hl : s.looked? (.admission i) = none)
    (hs : Admission.step e i d s = some (d', s')) :
    (∃ why, s'.phase = .refused why) ∨ s'.line.wire.frames = s.line.wire.frames := by
  obtain ⟨line, phase⟩ := s
  cases phase with
  | prompting deadline =>
    have hline := line.frames_send (Admission.prompt e)
    simp only [Admission.step] at hs
    generalize line.send (Admission.prompt e) = o at hs hline
    obtain ⟨line', r⟩ := o
    cases r with
    | waiting =>
      dsimp only at hs
      split at hs <;> cases hs
      exact .inr hline
    | _ =>
      cases hs
      exact .inr hline
  | awaiting deadline => cases hl
  | rejecting why deadline endpoint =>
    have hsteps := (Admission.steps_of_step hs).1
    obtain ⟨line', phase'⟩ := s'
    dsimp only at hsteps
    cases hsteps with
    | refused => exact .inl ⟨why, rfl⟩
    | rejected _ _ _ hp => cases hp
  | registering c asked =>
    exact .inr (congrArg (fun l : Line => l.wire.frames) (line_of_registering hs))
  | greeting c deadline =>
    have hline := line.frames_send (ServerFrame.authSuccess c.user).frame
    simp only [Admission.step] at hs
    generalize line.send (ServerFrame.authSuccess c.user).frame = o at hs hline
    obtain ⟨line', r⟩ := o
    cases r with
    | waiting =>
      dsimp only at hs
      split at hs <;> cases hs
      exact .inr hline
    | _ =>
      cases hs
      exact .inr hline
  | withdrawing c err =>
    have hsteps := (Admission.steps_of_step hs).1
    obtain ⟨line', phase'⟩ := s'
    dsimp only at hsteps
    cases hsteps with
    | withdrawn => exact .inl ⟨_, rfl⟩
    | rejected _ _ _ hp => cases hp
  | admitted c inbound outbound => cases hs
  | refused why => cases hs

theorem frames_of_move (hm : ∀ j, m ≠ .inbound j) (hl : s.looked? m = none)
    (hs : s.move e d m = some (d', s')) :
    (∃ why, s'.phase = .refused why) ∨ s'.line.wire.frames = s.line.wire.frames := by
  obtain ⟨line, phase⟩ := s
  cases m with
  | serve => cases hs
  | sweep => cases hs
  | admission j => exact frames_of_admission hl hs
  | inbound j => exact absurd rfl (hm j)
  | outbound j =>
    cases phase with
    | admitted c inbound outbound =>
      obtain ⟨⟨line', v, outbound'⟩, hstep, heq⟩ := Option.map_eq_some_iff.mp hs
      cases heq
      exact .inr (Outbound.frames_of_step hstep)
    | _ => cases hs
  | keepalive j =>
    cases phase with
    | admitted c inbound outbound =>
      obtain ⟨⟨line', v, outbound'⟩, hstep, heq⟩ := Option.map_eq_some_iff.mp hs
      cases heq
      exact .inr (congrArg (fun l : Line => l.wire.frames) (Outbound.line_of_keepAlive hstep))
    | _ => cases hs

end Session

namespace Hub

/-! ## From the prompt to the verdict -/

/-- Session `i` waits for a credential, and its time is up at `deadline`. -/
def Awaits (h : Hub) (i deadline : Nat) : Prop :=
  ∃ line, h.sessions[i]? = some ⟨line, .awaiting deadline⟩

def Moment.looked? (t : Moment) (i : Nat) : Option Receiving :=
  (t.own? i).bind fun (s, m) => s.looked? m

structure Moment.Skips (t : Moment) (i : Nat) : Prop where
  looked : t.looked? i = none
  inbound : t.action ≠ .move (.inbound i)

/-- Whatever session `i` has found is passed over, and it goes on waiting until `deadline`. -/
def Undecided (i deadline : Nat) (ms : List Moment) : Prop :=
  ∀ t ∈ ms, t.after.Awaits i deadline ∧
    ∀ r, t.looked? i = some r → ∃ f, r = .frame f ∧ t.before.surroundings.Passes f

/-- What session `i` finds at a moment decides who its client is. -/
structure Moment.Decides (t : Moment) (i deadline : Nat) (r : Receiving)
    (o : Except HandshakeError UserId) : Prop where
  waited : t.before.Awaits i deadline
  looked : t.looked? i = some r
  verdict : t.before.surroundings.Decides deadline r o
  follows : ∃ s, t.after.sessions[i]? = some s ∧ s.phase.Follows o

/-- The handshake of session `i` since its client was prompted. -/
inductive Handshake (i deadline : Nat) : List Moment → Hub → Prop
  | lasts (ms : List Moment) (h : Hub) (hms : Undecided i deadline ms) (hi : h.Awaits i deadline) :
      Handshake i deadline ms h
  | decided (first rest : List Moment) (t : Moment) (r : Receiving)
      (o : Except HandshakeError UserId) (h : Hub) (hfirst : Undecided i deadline first)
      (ht : t.Decides i deadline r o) (hrest : ∀ u ∈ rest, u.looked? i = none)
      (hpast : ∃ s, h.sessions[i]? = some s ∧ s.phase.isHandshake = false) :
      Handshake i deadline (first ++ t :: rest) h

section

variable {start h h' : Hub} {ms before after : List Moment} {t : Moment} {a : Action}
  {i deadline : Nat} {s : Session} {r : Receiving}

theorem looked?_of_move {m : Move} (hm : m.session? = some i) (hs : h.sessions[i]? = some s) :
    Moment.looked? ⟨h, .move m, h'⟩ i = s.looked? m := by
  simp [Moment.looked?, own?_of_move hm hs]

theorem looked?_of_none (ht : t.own? i = none) : t.looked? i = none := by
  simp [Moment.looked?, ht]

theorem awaiting_of_looked (hr : Moment.looked? ⟨h, a, h'⟩ i = some r) : ∃ line deadline,
    a = .move (.admission i) ∧ h.sessions[i]? = some ⟨line, .awaiting deadline⟩ ∧
      line.receive.2 = r := by
  obtain ⟨⟨⟨line, phase⟩, m⟩, ho, hlook⟩ := Option.bind_eq_some_iff.mp hr
  obtain ⟨ha, hm, hi⟩ := own?_eq_some.mp ho
  cases m with
  | admission j =>
    cases hm
    cases phase with
    | awaiting deadline => exact ⟨line, deadline, ha, hi, Option.some.inj hlook⟩
    | _ => cases hlook
  | _ => cases hlook

theorem Undecided.snoc (hms : Undecided i deadline ms) (hi : t.after.Awaits i deadline)
    (hr : ∀ r, t.looked? i = some r → ∃ f, r = .frame f ∧ t.before.surroundings.Passes f) :
    Undecided i deadline (ms ++ [t]) := by
  intro u hu
  rcases List.mem_append.mp hu with hu | hu
  · exact hms u hu
  · rw [List.mem_singleton.mp hu]
    exact ⟨hi, hr⟩

/-- What a session that waits finds is passed over, or decides. -/
theorem Handshake.looks {line : Line} {d : Desk} {s' : Session} (hms : Undecided i deadline ms)
    (hi : h.sessions[i]? = some ⟨line, .awaiting deadline⟩) (hi' : h'.sessions[i]? = some s')
    (hstep : Admission.step h.surroundings i h.desk ⟨line, .awaiting deadline⟩ = some (d, s')) :
    Handshake i deadline (ms ++ [⟨h, .move (.admission i), h'⟩]) h' := by
  have hlook : Moment.looked? ⟨h, .move (.admission i), h'⟩ i = some line.receive.2 :=
    looked?_of_move rfl hi
  obtain ⟨-, ⟨f, hf, hpass, hp'⟩ | ⟨o, hverdict, hp'⟩⟩ := Admission.looks_of_awaiting hstep
  · obtain ⟨line', phase'⟩ := s'
    cases hp'
    refine .lasts _ _ (hms.snoc ⟨line', hi'⟩ fun r hr => ?_) ⟨line', hi'⟩
    exact ⟨f, (Option.some.inj (hlook.symm.trans hr)).symm.trans hf, hpass⟩
  · exact .decided ms [] _ line.receive.2 o _ hms
      ⟨⟨line, hi⟩, hlook, hverdict, s', hi', hp'⟩ (List.forall_mem_nil _) ⟨s', hi', hp'.past⟩

theorem Handshake.unlooked (hms : Undecided i deadline ms)
    (hnone : Moment.looked? ⟨h, a, h'⟩ i = none) (hi' : h'.Awaits i deadline) :
    Handshake i deadline (ms ++ [⟨h, a, h'⟩]) h' :=
  .lasts _ _ (hms.snoc hi' fun r hr => by cases hnone.symm.trans hr) hi'

theorem Handshake.of_awaits (hms : Undecided i deadline ms) (hi : h.Awaits i deadline)
    (ha : h.act a = some h') : Handshake i deadline (ms ++ [⟨h, a, h'⟩]) h' := by
  obtain ⟨line, hi⟩ := hi
  obtain ⟨s', hi', hturn⟩ := turn_of_act hi ha
  cases hturn with
  | own m d s' hm hmove =>
    cases m with
    | admission j =>
      cases hm
      exact .looks hms hi hi' hmove
    | _ => cases hmove
  | client b => exact .unlooked hms rfl ⟨_, hi'⟩
  | other a h' ha hne => exact .unlooked hms (looked?_of_none (own?_of_ne hne)) ⟨line, hi'⟩

theorem past_of_act (hv : h.service.running = true) (ha : h.act a = some h')
    (hi : h.sessions[i]? = some s) (hp : s.phase.isHandshake = false) :
    Moment.looked? ⟨h, a, h'⟩ i = none ∧
      ∃ s', h'.sessions[i]? = some s' ∧ s'.phase.isHandshake = false := by
  obtain ⟨s', hi', hturn⟩ := turn_of_act hi ha
  cases hturn with
  | own m d s' hm hmove =>
    exact ⟨(looked?_of_move hm hi).trans (Session.looked?_of_past hp), s', hi',
      Session.past_of_move hv hm hmove hp⟩
  | client b => exact ⟨rfl, _, hi', hp⟩
  | other a h' ha hne => exact ⟨looked?_of_none (own?_of_ne hne), s, hi', hp⟩

theorem Handshake.snoc (hk : Handshake i deadline ms h) (hv : h.service.running = true)
    (ha : h.act a = some h') : Handshake i deadline (ms ++ [⟨h, a, h'⟩]) h' := by
  cases hk with
  | lasts ms h hms hi => exact .of_awaits hms hi ha
  | decided first rest t r o h hfirst ht hrest hpast =>
    obtain ⟨s, hi, hp⟩ := hpast
    obtain ⟨hnone, hpast'⟩ := past_of_act hv ha hi hp
    rw [List.append_assoc, List.cons_append]
    refine .decided first (rest ++ [⟨h, a, h'⟩]) t r o h' hfirst ht (fun u hu => ?_) hpast'
    rcases List.mem_append.mp hu with hu | hu
    · exact hrest u hu
    · rw [List.mem_singleton.mp hu]
      exact hnone

theorem awaits_of_prompts (ha : h.act a = some h') (hp : Moment.Prompts ⟨h, a, h'⟩ i) :
    h'.Awaits i (h.now + h.settings.authTimeout) := by
  obtain ⟨secs, hsaid⟩ := hp
  obtain ⟨⟨s, m⟩, ho, hsaid⟩ := Option.bind_eq_some_iff.mp hsaid
  obtain ⟨rfl, hm, hi⟩ := own?_eq_some.mp ho
  obtain ⟨d, ⟨line, phase⟩, hmove, hi', -⟩ := moved_of_act hm hi ha
  obtain rfl : phase = _ := Session.awaiting_of_prompted hsaid hmove
  exact ⟨line, hi'⟩

theorem Run.handshake (hr : Run start (before ++ t :: after) h) (hs : start.Fresh)
    (hp : t.Prompts i) :
    Handshake i (t.before.now + start.settings.authTimeout) after h := by
  refine hr.onward ?_ ?_
  · obtain ⟨hbefore, hact⟩ := hr.split
    have hi := awaits_of_prompts hact hp
    rw [(hbefore.fixed hs).1] at hi
    exact .lasts [] _ (List.forall_mem_nil _) hi
  · intro first u rest heq hrun hact hk
    exact hk.snoc (hrun.ledger hs).running hact

/-! ## Time -/

theorem Run.now_le_of_awaits (hr : Run start ms h) (hs : start.Fresh) (hp : Paced ms)
    (hi : h.Awaits i deadline) : h.now ≤ deadline := by
  obtain ⟨line, hi⟩ := hi
  obtain ⟨o, ho⟩ := hr.opening_of_lt hs (List.getElem?_eq_some_iff.mp hi).1
  obtain ⟨t, ht, hopened⟩ := List.mem_filterMap.mp ho
  obtain ⟨before, after, rfl⟩ := List.append_of_mem ht
  obtain ⟨s, hi', htime⟩ := hr.inTime hs hp hopened
  cases hi.symm.trans hi'
  exact htime.1

theorem move_of_awaits {line : Line} (hi : h.sessions[i]? = some ⟨line, .awaiting deadline⟩) :
    h.move (.admission i) = none ↔ line.receive.2 = .waiting ∧ h.now < deadline := by
  rw [move_eq_of_session h (m := .admission i) rfl, hi, Option.bind_some, Option.map_eq_none_iff]
  exact Admission.step_of_awaiting_eq_none (i := i) (d := h.desk)

/-! ## What is left to be read -/

theorem frames_of_looked {f : Frame} (ha : h.act a = some h')
    (hf : Moment.looked? ⟨h, a, h'⟩ i = some (.frame f)) :
    ∃ s s', h.sessions[i]? = some s ∧ h'.sessions[i]? = some s' ∧
      s.line.wire.frames = f :: s'.line.wire.frames := by
  obtain ⟨line, deadline, rfl, hi, hr⟩ := awaiting_of_looked hf
  obtain ⟨d, s', hmove, hi', -⟩ := moved_of_act (m := .admission i) rfl hi ha
  refine ⟨_, s', hi, hi', ?_⟩
  rw [(Admission.looks_of_awaiting (i := i) hmove).1]
  exact Line.frames_of_received hr

def Keeps (h : Hub) (i : Nat) (frames : List Frame) : Prop :=
  ∃ s, h.sessions[i]? = some s ∧
    ((∃ why, s.phase = .refused why) ∨ frames <+: s.line.wire.frames)

theorem Keeps.acts {frames : List Frame} (hk : h.Keeps i frames) (ha : h.act a = some h')
    (hsp : Moment.Skips ⟨h, a, h'⟩ i) : h'.Keeps i frames := by
  obtain ⟨s, hi, hk⟩ := hk
  obtain ⟨s', hi', hturn⟩ := turn_of_act hi ha
  refine ⟨s', hi', ?_⟩
  cases hturn with
  | own m d s' hm hmove =>
    rcases hk with ⟨why, hp⟩ | hframes
    · obtain ⟨line, phase⟩ := s
      cases hp
      cases m <;> cases hmove
    · have hnot (j : Nat) (hj : m = .inbound j) : False := by
        subst hj
        cases hm
        exact hsp.inbound rfl
      have hlook := (looked?_of_move hm hi).symm.trans hsp.looked
      rcases Session.frames_of_move hnot hlook hmove with hrefused | heq
      · exact .inl hrefused
      · exact .inr (heq ▸ hframes)
  | client b =>
    rcases hk with hrefused | hframes
    · exact .inl hrefused
    · exact .inr (hframes.trans (b.frames_prefix s.line.wire))
  | other a h' ha hne => exact hk

theorem Run.keeps (hr : Run start (before ++ t :: after) h) (hi : t.after.sessions[i]? = some s)
    (hsp : ∀ u ∈ after, u.Skips i) : h.Keeps i s.line.wire.frames := by
  refine hr.since (P := fun h => h.Keeps i s.line.wire.frames) ?_ ?_
  · exact ⟨s, hi, .inr (List.prefix_refl _)⟩
  · rintro first u rest rfl hrun hact hk
    exact hk.acts hact (hsp u (by simp))

/-! ## Every handshake -/

theorem Run.awaits_of_looked (hr : Run start (before ++ t :: after) h) (hs : start.Fresh)
    (hp : t.Prompts i) (hl : Moment.looked? ⟨h, a, h'⟩ i = some r) :
    ∃ line, a = .move (.admission i) ∧
      h.sessions[i]? = some ⟨line, .awaiting (t.before.now + start.settings.authTimeout)⟩ ∧
      line.receive.2 = r := by
  obtain ⟨line, deadline, hact, hi, hr'⟩ := awaiting_of_looked hl
  have hk := hr.handshake hs hp
  cases hk with
  | lasts ms h hms hi' =>
    obtain ⟨line', hi'⟩ := hi'
    cases hi.symm.trans hi'
    exact ⟨line, hact, hi, hr'⟩
  | decided first rest d r' o h hfirst hd hrest hpast =>
    obtain ⟨s, hi', hpast⟩ := hpast
    cases hi.symm.trans hi'
    cases hpast

/-- While the clock keeps to the timers a source is looked at in time, and its silence counts at the
deadline alone. -/
theorem Run.looks_in_time (hr : Run start (before ++ t :: after) h) (hs : start.Fresh)
    (hpaced : Paced (before ++ t :: after)) (hp : t.Prompts i) (ha : h.act a = some h')
    (hl : Moment.looked? ⟨h, a, h'⟩ i = some r) :
    h.now ≤ t.before.now + start.settings.authTimeout ∧
      (r = .waiting → h.now = t.before.now + start.settings.authTimeout) := by
  obtain ⟨line, rfl, hi, rfl⟩ := hr.awaits_of_looked hs hp hl
  have hle := hr.now_le_of_awaits hs hpaced ⟨line, hi⟩
  refine ⟨hle, fun hwaiting => Nat.le_antisymm hle (Nat.le_of_not_lt fun hlt => ?_)⟩
  have hnone := (move_of_awaits hi).mpr ⟨hwaiting, hlt⟩
  cases hnone.symm.trans ha

/-- How the handshakes of a hub go. -/
structure Authenticates (start : Hub) (ms : List Moment) (h : Hub) : Prop where
  handshake : ∀ before t after i, ms = before ++ t :: after → t.Prompts i →
    Handshake i (t.before.now + start.settings.authTimeout) after h
  determined : ∀ t ∈ ms, ∀ deadline r o o', t.before.surroundings.Decides deadline r o →
    t.before.surroundings.Decides deadline r o' → o = o'
  fixed : ∀ t ∈ ms, t.before.settings = start.settings ∧ t.before.verifier = start.verifier
  /-- A handshake stands still only while the source gives nothing and there is time. -/
  waits : ∀ i deadline line, h.sessions[i]? = some ⟨line, .awaiting deadline⟩ →
    (h.move (.admission i) = none ↔ line.receive.2 = .waiting ∧ h.now < deadline)
  ends : Paced ms → ∀ i deadline, h.Awaits i deadline → h.now ≤ deadline
  /-- Under such a clock all that counts is found in time, and time is up exactly at the deadline. -/
  punctual : Paced ms → ∀ before t between u after i r, ms = before ++ t :: between ++ u :: after →
    t.Prompts i → u.looked? i = some r →
    u.before.now ≤ t.before.now + start.settings.authTimeout ∧
      (r = .waiting → u.before.now = t.before.now + start.settings.authTimeout)
  taken : ∀ t ∈ ms, ∀ i f, t.looked? i = some (.frame f) → ∃ s s', t.before.sessions[i]? = some s ∧
    t.after.sessions[i]? = some s' ∧ s.line.wire.frames = f :: s'.line.wire.frames
  /-- What is in the source after a moment stays there until the source is looked at again, or is let
  go of with a refusal. -/
  left : ∀ before t after i s, ms = before ++ t :: after → t.after.sessions[i]? = some s →
    (∀ u ∈ after, u.Skips i) → h.Keeps i s.line.wire.frames

theorem Run.authenticates (hr : Run start ms h) (hs : start.Fresh) : Authenticates start ms h where
  handshake := by
    rintro before t after i rfl hp
    exact hr.handshake hs hp
  determined _ _ _ _ _ _ ho ho' := ho.unique ho'
  fixed t ht := by
    obtain ⟨before, after, rfl⟩ := List.append_of_mem ht
    exact hr.split.1.fixed hs
  waits i deadline line hi := move_of_awaits hi
  ends hp i deadline hi := hr.now_le_of_awaits hs hp hi
  punctual := by
    rintro hpaced before t between u after i r rfl hp hl
    obtain ⟨hbefore, hact⟩ := hr.split
    exact hbefore.looks_in_time hs (fun v hv => hpaced v (List.mem_append_left _ hv)) hp hact hl
  taken := by
    rintro t ht i f hl
    obtain ⟨before, after, rfl⟩ := List.append_of_mem ht
    exact frames_of_looked hr.split.2 hl
  left := by
    rintro before t after i s rfl hi hsp
    exact hr.keeps hi hsp

end

/-- One client says nothing until its time is up; another one is heard out until it shows a good
token, and has sent more by then. -/
def knocking : List Action :=
  let line : Line := ⟨.pipe (.create 4), {}⟩
  [.accept line, .move (.admission 0), .pass 30000 30, .move (.admission 0), .accept line,
    .move (.admission 1), .client 1 (.send (.ping [1])), .client 1 (.send (shows "X")),
    .client 1 (.send (shows "T")), .client 1 (.send .close), .move (.admission 1),
    .move (.admission 1), .move (.admission 1)]

theorem knocking_runs : (gate.trace knocking).isSome = true := by decide +kernel

def knocked : List Moment × Hub := (gate.trace knocking).get knocking_runs

theorem trace_knocking : gate.trace knocking = some knocked :=
  (Option.some_get knocking_runs).symm

theorem knocked_authenticates : Authenticates gate knocked.1 knocked.2 ∧ Paced knocked.1 ∧
    (knocked.1.filterMap fun t => t.looked? 0) = [.waiting] ∧
    (knocked.1.filterMap fun t => t.looked? 1) =
      [.frame (.ping [1]), .frame (shows "X"), .frame (shows "T")] ∧
    knocked.2.sessions.map Session.phase =
      [.rejecting (.handshake (.timeout 30000)) 40000 none,
        .registering ⟨⟨1⟩, ⟨42, by decide⟩, 0⟩ false] ∧
    (knocked.2.sessions.map fun s => s.line.wire.frames) = [[], [.close]] :=
  ⟨(run_trace trace_knocking).authenticates ⟨_, _, _, _, _, rfl⟩, by decide +kernel⟩

end Hub

end PushHub
