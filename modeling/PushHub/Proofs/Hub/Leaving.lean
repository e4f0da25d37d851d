import PushHub.Proofs.Hub.Lapse

/-! Why a loop that reads ends. It looks at its mailbox first, then at what its client has sent, and
then at the clock; whatever it ends for, it has its connection removed and leaves its mailbox closed. -/
namespace PushHub

open Registry (Handle Service)

/-! ## One look -/

/-- Why the loop that reads ends at a look, by the close signal and by what the source gives. -/
inductive Inbound.Ends (now deadline : Nat) (signalled : Prop) : Receiving → InboundExit → Prop
  | mailboxClosed (r : Receiving) (hs : signalled) : Ends now deadline signalled r .mailboxClosed
  | farewell (hs : ¬signalled) : Ends now deadline signalled (.frame .close) .peerClosed
  | gone (hs : ¬signalled) : Ends now deadline signalled (.failed .closed) .peerClosed
  | failed (err : TransportError) (hs : ¬signalled) (herr : err ≠ .closed) :
      Ends now deadline signalled (.failed err) (.transport err)
  | silent (hs : ¬signalled) (hnow : deadline ≤ now) :
      Ends now deadline signalled .waiting .livenessTimeout

namespace Inbound

variable {e : Surroundings} {c : Handle} {line line' : Line} {v v' : Service} {inbound' : Inbound}
  {deadline : Nat} {followed : SubscriptionSet} {exit : InboundExit}

theorem Ends.unique {now : Nat} {signalled : Prop} {r : Receiving} {exit' : InboundExit}
    (he : Ends now deadline signalled r exit) (he' : Ends now deadline signalled r exit') :
    exit = exit' := by
  cases he with
  | mailboxClosed r hs =>
    cases he' with
    | mailboxClosed => rfl
    | farewell hs' => exact absurd hs hs'
    | gone hs' => exact absurd hs hs'
    | failed err hs' => exact absurd hs hs'
    | silent hs' => exact absurd hs hs'
  | farewell hs =>
    cases he' with
    | mailboxClosed r hs' => exact absurd hs' hs
    | farewell => rfl
  | gone hs =>
    cases he' with
    | mailboxClosed r hs' => exact absurd hs' hs
    | gone => rfl
    | failed err hs' herr => exact absurd rfl herr
  | failed err hs herr =>
    cases he' with
    | mailboxClosed r hs' => exact absurd hs' hs
    | gone => exact absurd rfl herr
    | failed => rfl
  | silent hs hnow =>
    cases he' with
    | mailboxClosed r hs' => exact absurd hs' hs
    | silent => rfl

theorem Ends.deadline_le {now : Nat} {signalled : Prop} {r : Receiving}
    (he : Ends now deadline signalled r .livenessTimeout) : deadline ≤ now := by
  cases he with
  | silent hs hnow => exact hnow

theorem ends_of_failed {now : Nat} {signalled : Prop} (err : TransportError) (hs : ¬signalled) :
    Ends now deadline signalled (.failed err) (exitOf err) := by
  cases err with
  | closed => exact .gone hs
  | io reason => exact .failed _ hs nofun
  | writeTimeout => exact .failed _ hs nofun

theorem finds_of_running
    (hs : step e c line v (.running deadline followed) = some (line', v', inbound')) :
    (∃ exit, Ends e.now deadline (v.Signalled c) line.receive.2 exit ∧ inbound' = .leaving exit ∧
        v' = v ∧ (v.Signalled c → line' = line)) ∨
      ∃ f, ¬v.Signalled c ∧ line.receive.2 = .frame f ∧ f ≠ .close ∧
        inbound' = .running (e.now + e.settings.pongWait) (handleFrame e followed f).1 := by
  simp only [step] at hs
  split at hs
  · rename_i hsig
    cases hs
    exact .inl ⟨_, .mailboxClosed _ hsig, rfl, rfl, fun _ => rfl⟩
  · rename_i hopen
    generalize line.receive = o at hs
    obtain ⟨line₁, r⟩ := o
    cases r with
    | frame f =>
      cases f with
      | close =>
        cases hs
        exact .inl ⟨_, .farewell hopen, rfl, rfl, fun hsig => absurd hsig hopen⟩
      | _ =>
        cases hs
        exact .inr ⟨_, hopen, rfl, (by rintro ⟨⟩), rfl⟩
    | failed err =>
      cases hs
      exact .inl ⟨_, ends_of_failed err hopen, rfl, rfl, fun hsig => absurd hsig hopen⟩
    | waiting =>
      dsimp only at hs
      split at hs
      · rename_i hnow
        cases hs
        exact .inl ⟨_, .silent hopen hnow, rfl, rfl, fun hsig => absurd hsig hopen⟩
      · cases hs

theorem step_of_running_eq_none : step e c line v (.running deadline followed) = none ↔
    ¬v.Signalled c ∧ line.receive.2 = .waiting ∧ e.now < deadline := by
  simp only [step, Service.Signalled]
  split
  · rename_i hsig
    simp [hsig]
  · rename_i hopen
    generalize line.receive = o
    obtain ⟨line₁, r⟩ := o
    cases r with
    | frame f => cases f <;> simp
    | failed err => simp
    | waiting => simp [hopen]

theorem step_of_ends (followed : SubscriptionSet)
    (he : Ends e.now deadline (v.Signalled c) line.receive.2 exit) :
    ∃ line', step e c line v (.running deadline followed) = some (line', v, .leaving exit) := by
  cases hs : step e c line v (.running deadline followed) with
  | none =>
    obtain ⟨hopen, hwaiting, hnow⟩ := step_of_running_eq_none.mp hs
    rw [hwaiting] at he
    cases he with
    | mailboxClosed r hsig => exact absurd hsig hopen
    | silent hs hlate => exact absurd hnow (Nat.not_lt_of_le hlate)
  | some o =>
    obtain ⟨line', v', inbound'⟩ := o
    rcases finds_of_running hs with ⟨exit', he', rfl, rfl, -⟩ | ⟨f, hopen, hf, hne, -⟩
    · cases he.unique he'
      exact ⟨line', rfl⟩
    · rw [hf] at he
      cases he with
      | mailboxClosed r hsig => exact absurd hsig hopen
      | farewell => exact absurd rfl hne

theorem step_of_leaving_eq_none (hv : v.running = true) :
    step e c line v (.leaving exit) = none ↔ v.hasRoom = false := by
  simp only [step, hv, Bool.true_and, if_true]
  cases v.hasRoom <;> simp

theorem ended_of_leaving (hv : v.running = true)
    (hs : step e c line v (.leaving exit) = some (line', v', inbound')) :
    v'.queue = v.queue ++ [⟨.unregister c, none⟩] ∧ v'.Signalled c ∧ inbound' = .ended exit := by
  simp only [step, hv, if_true] at hs
  split at hs
  · cases hs
  · cases hs
    exact ⟨rfl, Service.signalled_close, rfl⟩

end Inbound

/-- When the loop that reads takes its client for dead, while it runs. -/
def Phase.readDeadline? : Phase → Option Nat
  | .admitted _ inbound _ => inbound.deadline?
  | _ => none

theorem Session.readDeadline?_of_move {e : Surroundings} {i : Nat} {d d' : Desk} {s s' : Session}
    {m : Move} {deadline : Nat} (hv : d.service.running = true) (hm : m.session? = some i)
    (hs : s.move e d m = some (d', s')) (hd : s'.phase.readDeadline? = some deadline) :
    s.phase.readDeadline? = some deadline ∨ deadline = e.now + e.settings.pongWait := by
  obtain ⟨line, phase⟩ := s
  cases m with
  | serve => cases hm
  | sweep => cases hm
  | admission j =>
    obtain ⟨line', phase'⟩ := s'
    cases phase' with
    | admitted c inbound outbound =>
      obtain ⟨-, rfl, rfl⟩ := Phase.admitted.inj (phase_of_admitted hv hs rfl)
      cases hd
      exact .inr rfl
    | _ => cases hd
  | inbound j =>
    cases phase with
    | admitted c inbound outbound =>
      obtain ⟨⟨line', v, inbound'⟩, hstep, heq⟩ := Option.map_eq_some_iff.mp hs
      cases heq
      cases steps_of_inbound hstep with
      | heard =>
        cases hd
        exact .inr rfl
      | _ => cases hd
    | _ => cases hs
  | outbound j =>
    cases phase with
    | admitted c inbound outbound =>
      obtain ⟨⟨line', v, outbound'⟩, -, heq⟩ := Option.map_eq_some_iff.mp hs
      cases heq
      exact .inl hd
    | _ => cases hs
  | keepalive j =>
    cases phase with
    | admitted c inbound outbound =>
      obtain ⟨⟨line', v, outbound'⟩, -, heq⟩ := Option.map_eq_some_iff.mp hs
      cases heq
      exact .inl hd
    | _ => cases hs

namespace Hub

/-! ## The loop of a session -/

structure Moment.Looks (t : Moment) (i : Nat) (c : Handle) (deadline : Nat) (line : Line) : Prop where
  action : t.action = .move (.inbound i)
  session : ∃ followed outbound,
    t.before.sessions[i]? = some ⟨line, .admitted c (.running deadline followed) outbound⟩

structure Moment.Ends (t : Moment) (i : Nat) (c : Handle) (deadline : Nat) (exit : InboundExit) :
    Prop where
  looks : ∃ line, t.Looks i c deadline line ∧
    Inbound.Ends t.before.now deadline (t.before.service.Signalled c) line.receive.2 exit
  leaves : ∃ line outbound,
    t.after.sessions[i]? = some ⟨line, .admitted c (.leaving exit) outbound⟩

/-- The loop of session `i` has its connection removed and closes its mailbox. -/
structure Moment.Unregisters (t : Moment) (i : Nat) (c : Handle) : Prop where
  action : t.action = .move (.inbound i)
  queued : t.after.service.queue = t.before.service.queue ++ [⟨.unregister c, none⟩]
  closed : t.after.service.Signalled c

/-- When the loop of session `i` last took up a frame, or else when it began. -/
def lastHeard (i since : Nat) (ms : List Moment) : Nat :=
  ms.foldl (fun last t => if (t.heard? i).isSome then t.before.now else last) since

def Silent (i : Nat) (ms : List Moment) : Prop := ∀ t ∈ ms, t.heard? i = none

/-- What has become of the loop of session `i` since its client was greeted: the deadline slides with
every frame that it takes up. -/
inductive Reads (i : Nat) (c : Handle) (since wait : Nat) : List Moment → Hub → Prop
  | running (ms : List Moment) (h : Hub) (line : Line) (followed : SubscriptionSet)
      (outbound : Outbound) (hi : h.sessions[i]? =
        some ⟨line, .admitted c (.running (lastHeard i since ms + wait) followed) outbound⟩) :
      Reads i c since wait ms h
  | leaving (first rest : List Moment) (t : Moment) (exit : InboundExit) (h : Hub)
      (ht : t.Ends i c (lastHeard i since first + wait) exit) (hrest : Silent i rest)
      (hi : ∃ line outbound, h.sessions[i]? = some ⟨line, .admitted c (.leaving exit) outbound⟩) :
      Reads i c since wait (first ++ t :: rest) h
  | ended (first between rest : List Moment) (t u : Moment) (exit : InboundExit) (h : Hub)
      (ht : t.Ends i c (lastHeard i since first + wait) exit) (hrest : Silent i (between ++ u :: rest))
      (hu : u.Unregisters i c)
      (hi : ∃ line outbound, h.sessions[i]? = some ⟨line, .admitted c (.ended exit) outbound⟩) :
      Reads i c since wait (first ++ t :: (between ++ u :: rest)) h

section

variable {start h h' : Hub} {ms before after : List Moment} {t : Moment} {a : Action}
  {conns : List (Nat × Handle)} {i since wait deadline : Nat} {c : Handle} {line : Line}
  {inbound : Inbound} {outbound : Outbound} {followed : SubscriptionSet} {exit : InboundExit}

theorem turn_of_admitted (hi : h.sessions[i]? = some ⟨line, .admitted c inbound outbound⟩)
    (ha : h.act a = some h') : ∃ line' inbound' outbound',
      h'.sessions[i]? = some ⟨line', .admitted c inbound' outbound'⟩ ∧
      (a ≠ .move (.inbound i) ∧ inbound' = inbound ∨
        a = .move (.inbound i) ∧ outbound' = outbound ∧ h'.now = h.now ∧
          inbound.step h.surroundings c line h.service = some (line', h'.service, inbound')) := by
  obtain ⟨s', hi', hturn⟩ := turn_of_act hi ha
  cases hturn with
  | own m d s' hm hmove =>
    cases m with
    | serve => cases hm
    | sweep => cases hm
    | admission j => cases hmove
    | inbound j =>
      cases hm
      obtain ⟨⟨line', v, inbound'⟩, hstep, heq⟩ := Option.map_eq_some_iff.mp hmove
      cases heq
      exact ⟨line', inbound', outbound, hi', .inr ⟨rfl, rfl, rfl, hstep⟩⟩
    | outbound j =>
      obtain ⟨⟨line', v, outbound'⟩, -, heq⟩ := Option.map_eq_some_iff.mp hmove
      cases heq
      exact ⟨line', inbound, outbound', hi', .inl ⟨nofun, rfl⟩⟩
    | keepalive j =>
      obtain ⟨⟨line', v, outbound'⟩, -, heq⟩ := Option.map_eq_some_iff.mp hmove
      cases heq
      exact ⟨line', inbound, outbound', hi', .inl ⟨nofun, rfl⟩⟩
  | client b => exact ⟨_, inbound, outbound, hi', .inl ⟨nofun, rfl⟩⟩
  | other a h' ha hne =>
    exact ⟨line, inbound, outbound, hi', .inl ⟨fun heq => hne (heq ▸ rfl), rfl⟩⟩

theorem heard?_of_ne (ha : a ≠ .move (.inbound i)) : Moment.heard? ⟨h, a, h'⟩ i = none := by
  unfold Moment.heard?
  rw [Option.bind_eq_none_iff]
  rintro ⟨s, m⟩ ho
  obtain ⟨haction, hm, -⟩ := own?_eq_some.mp ho
  cases m with
  | inbound j =>
    cases hm
    exact absurd haction ha
  | _ => rfl

theorem heard?_of_over (hi : h.sessions[i]? = some ⟨line, .admitted c inbound outbound⟩)
    (hover : ¬inbound.Reads) : Moment.heard? ⟨h, a, h'⟩ i = none := by
  by_cases ha : a = .move (.inbound i)
  · subst ha
    rw [heard?_of_own rfl hi]
    cases inbound with
    | running deadline followed => exact absurd trivial hover
    | _ => rfl
  · exact heard?_of_ne ha

theorem lastHeard_snoc (ms : List Moment) (t : Moment) :
    lastHeard i since (ms ++ [t]) =
      if (t.heard? i).isSome then t.before.now else lastHeard i since ms := by
  unfold lastHeard
  rw [List.foldl_append]
  rfl

theorem Silent.snoc (hms : Silent i ms) (ht : t.heard? i = none) : Silent i (ms ++ [t]) := by
  intro u hu
  rcases List.mem_append.mp hu with hu | hu
  · exact hms u hu
  · rw [List.mem_singleton.mp hu]
    exact ht

theorem heard?_of_running
    (hi : h.sessions[i]? = some ⟨line, .admitted c (.running deadline followed) outbound⟩) :
    (Moment.heard? ⟨h, .move (.inbound i), h'⟩ i).isSome = true ↔
      ¬h.service.Signalled c ∧ ∃ f, line.receive.2 = .frame f := by
  rw [heard?_of_own rfl hi, Session.hears?_of_running, Option.isSome_map]
  unfold Service.Signalled
  generalize line.receive.2 = r
  cases r with
  | frame f => by_cases hsig : (h.service.members.room.mailbox c.endpoint).signalled <;> simp [hsig]
  | failed err => simp
  | waiting => simp

/-- The loop of a session that looks goes on from a frame, or finds that it has to end. -/
theorem Reads.looks {first : List Moment}
    (hi : h.sessions[i]? = some ⟨line, .admitted c
      (.running (lastHeard i since first + h.settings.pongWait) followed) outbound⟩)
    (ha : h.act (.move (.inbound i)) = some h') :
    Reads i c since h.settings.pongWait (first ++ [⟨h, .move (.inbound i), h'⟩]) h' := by
  obtain ⟨line', inbound', outbound', hi', ⟨hne, -⟩ | ⟨-, rfl, -, hstep⟩⟩ := turn_of_admitted hi ha
  · exact absurd rfl hne
  · rcases Inbound.finds_of_running hstep with
      ⟨exit, he, rfl, -, -⟩ | ⟨f, hopen, hf, -, rfl⟩
    · exact .leaving first [] _ exit h' ⟨⟨line, ⟨rfl, _, _, hi⟩, he⟩, _, _, hi'⟩
        (List.forall_mem_nil _) ⟨_, _, hi'⟩
    · have hheard : (Moment.heard? ⟨h, .move (.inbound i), h'⟩ i).isSome = true :=
        (heard?_of_running hi).mpr ⟨hopen, f, hf⟩
      refine .running _ h' line' (Inbound.handleFrame h.surroundings followed f).1 outbound' ?_
      rw [lastHeard_snoc, if_pos hheard]
      exact hi'

theorem Reads.snoc (hk : Reads i c since h.settings.pongWait ms h) (hv : h.service.running = true)
    (ha : h.act a = some h') : Reads i c since h.settings.pongWait (ms ++ [⟨h, a, h'⟩]) h' := by
  cases hk with
  | running ms h line followed outbound hi =>
    by_cases hturn : a = .move (.inbound i)
    · subst hturn
      exact .looks hi ha
    · have hnone : Moment.heard? ⟨h, a, h'⟩ i = none := heard?_of_ne hturn
      obtain ⟨line', inbound', outbound', hi', ⟨-, rfl⟩ | ⟨heq, -⟩⟩ := turn_of_admitted hi ha
      · refine .running _ h' line' followed outbound' ?_
        rw [lastHeard_snoc, hnone]
        exact hi'
      · exact absurd heq hturn
  | leaving first rest t exit h ht hrest hi =>
    obtain ⟨line, outbound, hi⟩ := hi
    have hnone : Moment.heard? ⟨h, a, h'⟩ i = none := heard?_of_over hi id
    obtain ⟨line', inbound', outbound', hi', ⟨-, rfl⟩ | ⟨rfl, rfl, -, hstep⟩⟩ :=
      turn_of_admitted hi ha
    · rw [List.append_assoc, List.cons_append]
      exact .leaving first _ t exit h' ht (hrest.snoc hnone) ⟨line', outbound', hi'⟩
    · obtain ⟨hqueue, hclosed, rfl⟩ := Inbound.ended_of_leaving hv hstep
      rw [List.append_assoc, List.cons_append]
      exact .ended first rest [] t _ exit h' ht (hrest.snoc hnone) ⟨rfl, hqueue, hclosed⟩
        ⟨line', outbound', hi'⟩
  | ended first between rest t u exit h ht hrest hu hi =>
    obtain ⟨line, outbound, hi⟩ := hi
    have hnone : Moment.heard? ⟨h, a, h'⟩ i = none := heard?_of_over hi id
    obtain ⟨line', inbound', outbound', hi', ⟨-, rfl⟩ | ⟨-, -, -, hstep⟩⟩ := turn_of_admitted hi ha
    · rw [List.append_assoc, List.cons_append, List.append_assoc, List.cons_append]
      refine .ended first between _ t u exit h' ht ?_ hu ⟨line', outbound', hi'⟩
      have hsilent := hrest.snoc hnone
      rwa [List.append_assoc, List.cons_append] at hsilent
    · cases hstep

theorem reads_of_greeted {u : UserId} (ha : h.act a = some h')
    (hu : Moment.utters? ⟨h, a, h'⟩ i = some (.control (.authSuccess u))) :
    ∃ c, Reads i c h.now h.settings.pongWait [] h' := by
  obtain ⟨⟨s, m⟩, ho, hsaid⟩ := Option.bind_eq_some_iff.mp hu
  obtain ⟨rfl, hm, hi⟩ := own?_eq_some.mp ho
  obtain ⟨d, ⟨line, phase⟩, hmove, hi', -⟩ := moved_of_act hm hi ha
  obtain ⟨c, hc⟩ := Session.connected_of_greeting hsaid hmove
  obtain rfl : phase = Admission.connected h.surroundings c := hc
  exact ⟨c, .running [] _ line _ _ hi'⟩

theorem Run.reads {u : UserId} (hr : Run start (before ++ t :: after) h) (hs : start.Fresh)
    (hu : t.utters? i = some (.control (.authSuccess u))) :
    ∃ c, Reads i c t.before.now start.settings.pongWait after h := by
  obtain ⟨hbefore, hact⟩ := hr.split
  obtain ⟨c, hc⟩ := reads_of_greeted hact hu
  rw [(hbefore.fixed hs).1] at hc
  refine ⟨c, hr.onward (P := Reads i c t.before.now start.settings.pongWait) hc ?_⟩
  intro first v rest heq hrun hact hk
  rw [← (hrun.fixed hs).1] at hk ⊢
  exact hk.snoc (hrun.ledger hs).running hact

/-! ## Time -/

theorem now_le_of_paces {s : Session} (hi : h.sessions[i]? = some s)
    (hd : s.phase.readDeadline? = some deadline) (hpace : Moment.Paces ⟨h, a, h'⟩) :
    h'.now ≤ deadline := by
  obtain ⟨line, phase⟩ := s
  cases phase with
  | admitted c inbound outbound =>
    cases inbound with
    | running t followed =>
      cases hd
      have hnow := (Inbound.step_of_running_eq_none.mp
        (step_of_inbound_none (hpace.still _) hi)).2.2
      exact hpace.due _ (List.mem_of_getElem? hi) _ (List.mem_append_left _ List.mem_cons_self) hnow
    | _ => cases hd
  | _ => cases hd

theorem Run.now_le_of_reading {s : Session} (hr : Run start ms h) (hs : start.Fresh)
    (hp : Paced ms) (hi : h.sessions[i]? = some s) (hd : s.phase.readDeadline? = some deadline) :
    h.now ≤ deadline := by
  obtain ⟨o, ho⟩ := hr.opening_of_lt hs (List.getElem?_eq_some_iff.mp hi).1
  obtain ⟨s', hi', htime⟩ := hr.along hs ho
    (P := fun ms h s => Paced ms → ∀ deadline, s.phase.readDeadline? = some deadline →
      h.now ≤ deadline)
    (fun _ _ _ hopen _ _ hd => by cases hopen <;> cases hd)
    (fun {ms h h' a s s'} hrun hact _ hi _ hturn htime hp deadline hd => by
      have hv := (hrun.ledger hs).running
      have hbefore := htime fun t ht => hp t (List.mem_append_left _ ht)
      cases hturn with
      | own m d s' hm hmove =>
        rcases Session.readDeadline?_of_move hv hm hmove hd with hsame | rfl
        · exact hbefore deadline hsame
        · exact Nat.le_add_right _ _
      | client b => exact hbefore deadline hd
      | other a h' ha hne =>
        rcases Nat.eq_or_lt_of_le (acts_of_act hv ha).now_le with heq | hlt
        · exact heq ▸ hbefore deadline hd
        · have hlast : (⟨h, a, h'⟩ : Moment) ∈ ms ++ [⟨h, a, h'⟩] :=
            List.mem_append_right _ (List.mem_singleton_self _)
          exact now_le_of_paces hi hd (hp _ hlast hlt))
  cases hi.symm.trans hi'
  exact htime hp deadline hd

/-! ## The close signal -/

def Shut (h : Hub) (i : Nat) (c : Handle) : Prop :=
  h.service.Signalled c ∧
    ∃ line inbound outbound, h.sessions[i]? = some ⟨line, .admitted c inbound outbound⟩

theorem Shut.acts (hk : h.Shut i c) (hl : Ledger conns h) (ha : h.act a = some h') :
    Moment.heard? ⟨h, a, h'⟩ i = none ∧ h'.Shut i c := by
  obtain ⟨hsig, line, inbound, outbound, hi⟩ := hk
  have hn := hl.lt_length (hl.lookup_eq_some.mp (hl.fits i _ hi))
  obtain ⟨line', inbound', outbound', hi', -⟩ := turn_of_admitted hi ha
  refine ⟨?_, (acts_of_act hl.running ha).signalled hn hsig, line', inbound', outbound', hi'⟩
  by_cases hturn : a = .move (.inbound i)
  · subst hturn
    cases inbound with
    | running deadline followed =>
      rw [← Option.not_isSome_iff_eq_none, heard?_of_running hi]
      exact fun hheard => hheard.1 hsig
    | _ => exact heard?_of_over hi id
  · exact heard?_of_ne hturn

theorem Run.shut (hr : Run start (before ++ t :: after) h) (hs : start.Fresh)
    (hk : t.before.Shut i c) : Silent i (t :: after) ∧ h.Shut i c := by
  obtain ⟨hbefore, hact⟩ := hr.split
  obtain ⟨hnone, hk'⟩ := hk.acts (hbefore.ledger hs) hact
  refine hr.onward (P := fun ms h => Silent i (t :: ms) ∧ h.Shut i c) ⟨?_, hk'⟩ ?_
  · exact List.forall_mem_singleton.mpr hnone
  · rintro first u rest rfl hrun hact ⟨hsilent, hk⟩
    obtain ⟨hnone, hk'⟩ := hk.acts (hrun.ledger hs) hact
    exact ⟨hsilent.snoc hnone, hk'⟩

theorem ended_of_act {s : Session} (hv : h.service.running = true) (hi : h.sessions[i]? = some s)
    (ha : h.act a = some h')
    (hi' : h'.sessions[i]? = some ⟨line, .admitted c (.ended exit) outbound⟩) :
    (∃ outbound', s.phase = .admitted c (.ended exit) outbound') ∨ h'.service.Signalled c := by
  obtain ⟨line₀, phase⟩ := s
  by_cases hadmitted : ∃ c inbound outbound, phase = .admitted c inbound outbound
  · obtain ⟨c₀, inbound₀, outbound₀, rfl⟩ := hadmitted
    obtain ⟨line₁, inbound₁, outbound₁, hi₁, hturn⟩ := turn_of_admitted hi ha
    cases hi'.symm.trans hi₁
    rcases hturn with ⟨-, rfl⟩ | ⟨-, -, -, hstep⟩
    · exact .inl ⟨outbound₀, rfl⟩
    · cases inbound₀ with
      | running deadline followed =>
        rcases Inbound.finds_of_running hstep with ⟨exit', -, heq, -⟩ | ⟨f, -, -, -, heq⟩ <;>
          cases heq
      | leaving exit' => exact .inr (Inbound.ended_of_leaving hv hstep).2.1
      | _ => cases hstep
  · obtain ⟨s₁, hi₁, hturn⟩ := turn_of_act hi ha
    cases hi'.symm.trans hi₁
    cases hturn with
    | own m d s' hm hmove =>
      cases m with
      | admission j => cases Session.phase_of_admitted hv hmove rfl
      | _ =>
        cases phase with
        | admitted c₀ inbound₀ outbound₀ => exact absurd ⟨_, _, _, rfl⟩ hadmitted
        | _ => cases hmove
    | client b => exact absurd ⟨_, _, _, rfl⟩ hadmitted
    | other a h' ha hne => exact absurd ⟨_, _, _, rfl⟩ hadmitted

theorem Run.signalled_of_ended (hr : Run start ms h) (hs : start.Fresh)
    (hi : h.sessions[i]? = some ⟨line, .admitted c (.ended exit) outbound⟩) :
    h.service.Signalled c := by
  obtain ⟨o, ho⟩ := hr.opening_of_lt hs (List.getElem?_eq_some_iff.mp hi).1
  obtain ⟨s, hi', hsig⟩ := hr.along hs ho
    (P := fun _ h s => ∀ c exit outbound, s.phase = .admitted c (.ended exit) outbound →
      h.service.Signalled c)
    (fun _ _ _ hopen _ _ _ hphase => by cases hopen <;> cases hphase)
    (fun {ms h h' a s s'} hrun hact _ hi hi' _ hsig c exit outbound hphase => by
      have hl := hrun.ledger hs
      obtain ⟨line', phase'⟩ := s'
      cases hphase
      rcases ended_of_act hl.running hi hact hi' with ⟨outbound', hbefore⟩ | hnew
      · have hfit := hl.fits i s hi
        rw [hbefore] at hfit
        exact (acts_of_act hl.running hact).signalled (hl.lt_length (hl.lookup_eq_some.mp hfit))
          (hsig c exit outbound' hbefore)
      · exact hnew)
  cases hi.symm.trans hi'
  exact hsig c exit outbound rfl

/-! ## Every loop -/

theorem move_inbound (hi : h.sessions[i]? = some ⟨line, .admitted c inbound outbound⟩) :
    h.move (.inbound i) = (inbound.step h.surroundings c line h.service).map
      fun (line, v, inbound) => { h with service := v }.setSession i
        ⟨line, .admitted c inbound outbound⟩ := by
  simp only [move, hi, Option.bind_eq_bind, Option.bind_some]
  cases inbound.step h.surroundings c line h.service <;> rfl

/-- How the loops that read come to their ends. -/
structure Departs (start : Hub) (ms : List Moment) (h : Hub) : Prop where
  /-- A loop waits for as long as the settings say from the last frame that it took up, or from the
  greeting; when it has ended it has its connection removed. -/
  reads : ∀ before t after i u, ms = before ++ t :: after →
    t.utters? i = some (.control (.authSuccess u)) →
    ∃ c, Reads i c t.before.now start.settings.pongWait after h
  ends : ∀ (i : Nat) (line : Line) (c : Handle) (deadline : Nat) (followed : SubscriptionSet)
    (outbound : Outbound) (exit : InboundExit),
    h.sessions[i]? = some ⟨line, .admitted c (.running deadline followed) outbound⟩ →
    Inbound.Ends h.now deadline (h.service.Signalled c) line.receive.2 exit →
    ∃ h' line', h.move (.inbound i) = some h' ∧ h'.service = h.service ∧
      h'.sessions[i]? = some ⟨line', .admitted c (.leaving exit) outbound⟩
  waits : ∀ (i : Nat) (line : Line) (c : Handle) (deadline : Nat) (followed : SubscriptionSet)
    (outbound : Outbound),
    h.sessions[i]? = some ⟨line, .admitted c (.running deadline followed) outbound⟩ →
    (h.move (.inbound i) = none ↔
      ¬h.service.Signalled c ∧ line.receive.2 = .waiting ∧ h.now < deadline)
  /-- Of two reasons one is not there, or they are the same. -/
  determined : ∀ now deadline signalled r exit exit', Inbound.Ends now deadline signalled r exit →
    Inbound.Ends now deadline signalled r exit' → exit = exit'
  punctual : Paced ms → ∀ before t after i c deadline exit, ms = before ++ t :: after →
    t.Ends i c deadline exit →
    t.before.now ≤ deadline ∧ (exit = .livenessTimeout → t.before.now = deadline)
  shut : ∀ before t after i c, ms = before ++ t :: after → t.before.Shut i c → Silent i (t :: after)
  leaving : ∀ (i : Nat) (line : Line) (c : Handle) (exit : InboundExit) (outbound : Outbound),
    h.sessions[i]? = some ⟨line, .admitted c (.leaving exit) outbound⟩ →
    (h.move (.inbound i) = none ↔ h.service.hasRoom = false) ∧
    ∀ h', h.move (.inbound i) = some h' →
      h'.service.queue = h.service.queue ++ [⟨.unregister c, none⟩] ∧ h'.service.Signalled c ∧
        ∃ line', h'.sessions[i]? = some ⟨line', .admitted c (.ended exit) outbound⟩
  closed : ∀ (i : Nat) (line : Line) (c : Handle) (exit : InboundExit) (outbound : Outbound),
    h.sessions[i]? = some ⟨line, .admitted c (.ended exit) outbound⟩ → h.service.Signalled c
  settled : h.Still → ∀ (i : Nat) (line : Line) (c : Handle) (inbound : Inbound)
    (outbound : Outbound), h.sessions[i]? = some ⟨line, .admitted c inbound outbound⟩ →
    (∀ exit, inbound ≠ .leaving exit) ∧
      ((∃ exit, inbound = .ended exit) → c ∉ h.service.members.entries)

theorem ends_of_running
    (hi : h.sessions[i]? = some ⟨line, .admitted c (.running deadline followed) outbound⟩)
    (he : Inbound.Ends h.now deadline (h.service.Signalled c) line.receive.2 exit) :
    ∃ h' line', h.move (.inbound i) = some h' ∧ h'.service = h.service ∧
      h'.sessions[i]? = some ⟨line', .admitted c (.leaving exit) outbound⟩ := by
  obtain ⟨line', hstep⟩ := Inbound.step_of_ends (e := h.surroundings) followed he
  have hget := getElem?_setSession h ⟨line', .admitted c (.leaving exit) outbound⟩ hi i
  refine ⟨h.setSession i ⟨line', .admitted c (.leaving exit) outbound⟩, line', ?_, rfl,
    hget.trans (if_pos rfl)⟩
  rw [move_inbound hi, hstep]
  rfl

theorem ended_of_move {h' : Hub} (hv : h.service.running = true)
    (hi : h.sessions[i]? = some ⟨line, .admitted c (.leaving exit) outbound⟩)
    (hm : h.move (.inbound i) = some h') :
    h'.service.queue = h.service.queue ++ [⟨.unregister c, none⟩] ∧ h'.service.Signalled c ∧
      ∃ line', h'.sessions[i]? = some ⟨line', .admitted c (.ended exit) outbound⟩ := by
  obtain ⟨line', inbound', outbound', hi', ⟨hne, -⟩ | ⟨-, rfl, -, hstep⟩⟩ :=
    turn_of_admitted (a := .move (.inbound i)) hi hm
  · exact absurd rfl hne
  · obtain ⟨hqueue, hclosed, rfl⟩ := Inbound.ended_of_leaving hv hstep
    exact ⟨hqueue, hclosed, line', hi'⟩

theorem Run.settled_of_still (hr : Run start ms h) (hs : start.Fresh) (hstill : h.Still)
    (hi : h.sessions[i]? = some ⟨line, .admitted c inbound outbound⟩) :
    (∀ exit, inbound ≠ .leaving exit) ∧
      ((∃ exit, inbound = .ended exit) → c ∉ h.service.members.entries) := by
  have hl := hr.ledger hs
  constructor
  · rintro exit rfl
    have hfull := (Inbound.step_of_leaving_eq_none hl.running).mp
      (step_of_inbound_none (hstill _) hi)
    cases hfull.symm.trans (hstill.hasRoom hl.roomy)
  · rintro ⟨exit, rfl⟩ hlisted
    exact hstill.not_doomed c ((hr.leaves hs hi).2.2 trivial hlisted)

theorem Run.departs (hr : Run start ms h) (hs : start.Fresh) : Departs start ms h where
  reads := by
    rintro before t after i u rfl hu
    exact hr.reads hs hu
  ends i line c deadline followed outbound exit hi he := ends_of_running hi he
  waits i line c deadline followed outbound hi := by
    rw [move_inbound hi, Option.map_eq_none_iff]
    exact Inbound.step_of_running_eq_none
  determined _ _ _ _ _ _ he he' := he.unique he'
  punctual := by
    rintro hp before t after i c deadline exit rfl ht
    obtain ⟨line, ⟨-, followed, outbound, hi⟩, he⟩ := ht.looks
    have hle := hr.split.1.now_le_of_reading hs (fun u hu => hp u (List.mem_append_left _ hu)) hi rfl
    refine ⟨hle, fun hexit => Nat.le_antisymm hle ?_⟩
    subst hexit
    exact he.deadline_le
  shut := by
    rintro before t after i c rfl hk
    exact (hr.shut hs hk).1
  leaving i line c exit outbound hi := by
    have hv := (hr.ledger hs).running
    refine ⟨?_, fun h' hm => ended_of_move hv hi hm⟩
    rw [move_inbound hi, Option.map_eq_none_iff]
    exact Inbound.step_of_leaving_eq_none hv
  closed i line c exit outbound hi := hr.signalled_of_ended hs hi
  settled hstill i line c inbound outbound hi := hr.settled_of_still hs hstill hi

end

def brisk : Hub :=
  .start { pongWait := 2000, pingPeriod := 5000 } {} (fun _ _ => .error .invalidToken) [] 0

/-- A client is superseded while a frame of it waits to be read; the other one says one thing and falls
silent. -/
def partings : List Action :=
  let line : Line := ⟨.pipe (.create 4), {}⟩
  [.register known line, .move (.admission 0), .move .serve, .move (.admission 0),
    .move (.admission 0), .client 0 (.send (.ping [1])), .register known line, .move (.admission 1),
    .move .serve, .move (.admission 1), .move (.admission 1), .move (.inbound 0), .move (.inbound 0),
    .move .serve, .move (.outbound 0), .move (.outbound 0), .pass 1000 1,
    .client 1 (.send (.ping [2])), .move (.inbound 1), .pass 2000 3, .move (.inbound 1),
    .move (.inbound 1), .move .serve, .move (.outbound 1), .move (.outbound 1)]

theorem partings_run : (brisk.trace partings).isSome = true := by decide +kernel

def parted : List Moment × Hub := (brisk.trace partings).get partings_run

theorem trace_partings : brisk.trace partings = some parted :=
  (Option.some_get partings_run).symm

theorem parted_departs : Departs brisk parted.1 parted.2 ∧ Paced parted.1 ∧
    parted.2.sessions.map Session.phase =
      [.admitted ⟨⟨1⟩, known, 0⟩ (.ended .mailboxClosed) (.ended .mailboxClosed),
        .admitted ⟨⟨2⟩, known, 1⟩ (.ended .livenessTimeout) (.ended .mailboxClosed)] ∧
    heard parted.1 0 = [] ∧ heard parted.1 1 = [(1, .ping [2])] ∧ parted.2.now = 3000 :=
  ⟨(run_trace trace_partings).departs ⟨_, _, _, _, _, rfl⟩, by decide +kernel⟩

end Hub

end PushHub
