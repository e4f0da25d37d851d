import PushHub.Proofs.Hub.Advance

/-! No client holds the hub beyond its deadlines. While the clock moves on only where nothing else can,
and past no timer, admissions and writes are over when their time is up, whatever clients do. -/
namespace PushHub

open Registry (Handle Service Queued Membership Reply)

/-! ## Replies -/

namespace Registry

/-- The registration that session `i` has asked for is queued or answered. -/
def Service.Answers (v : Service) (i : Nat) : Prop :=
  (∃ q ∈ v.queue, q.ticket = some i) ∨ (v.replies.lookup i).isSome = true

theorem Membership.reply_register (m : Membership) (c : Handle) :
    ∃ r, (m.handle (.register c)).reply = some (.registered r) := by
  have ho := m.handles_handle (.register c)
  generalize m.handle (.register c) = o at ho ⊢
  cases ho <;> exact ⟨_, rfl⟩

theorem Service.lookup_replies_of_some {v : Service} {q : Queued} {rest : List Queued}
    (hq : v.queue = q :: rest) {i : Nat} {r : Reply} (hr : v.replies.lookup i = some r) :
    v.serve.replies.lookup i = some r := by
  unfold serve
  rw [hq]
  dsimp only
  split
  · rw [List.lookup_append, hr]
    rfl
  · exact hr

namespace Service.Answers

variable {v v' : Service} {i : Nat}

theorem mono (ha : v.Answers i) (hq : ∀ q ∈ v.queue, q ∈ v'.queue)
    (hr : v'.replies.lookup i = v.replies.lookup i) : v'.Answers i := by
  rcases ha with ⟨q, hmem, ht⟩ | ha
  · exact .inl ⟨q, hq q hmem, ht⟩
  · exact .inr (hr ▸ ha)

theorem served {q : Queued} {rest : List Queued} (ha : v.Answers i) (hq : v.queue = q :: rest)
    (hc : q.ticket = some i → ∃ c, q.command = .register c) : v.serve.Answers i := by
  cases hold : v.replies.lookup i with
  | some r =>
    right
    rw [lookup_replies_of_some hq hold]
    rfl
  | none =>
    obtain ⟨p, hp, hticket⟩ := ha.resolve_right (by rw [hold]; exact Bool.false_ne_true)
    rw [hq] at hp
    rcases List.mem_cons.mp hp with rfl | hp
    · obtain ⟨c, hc⟩ := hc hticket
      obtain ⟨r, hr⟩ := v.members.reply_register c
      right
      rw [lookup_replies_serve_self hq hticket (hc ▸ hr) hold]
      rfl
    · exact .inl ⟨p, queue_serve hq ▸ hp, hticket⟩

end Service.Answers

end Registry

theorem Session.Works.answers {v v' : Service} {i : Nat} {s s' : Session} {m : Move} {c : Handle}
    (hw : s.Works i v m v' s') (hp : s'.phase = .registering c true) : v'.Answers i := by
  cases hw with
  | asked line c => exact .inl ⟨_, List.mem_append_right _ (List.mem_singleton_self _), rfl⟩
  | _ => cases hp

namespace Hub

section

variable {start h h' : Hub} {ms : List Moment} {a : Action} {conns : List (Nat × Handle)} {i : Nat}

theorem Acts.answers (ha : h.Acts a h') (hl : Ledger conns h) (hi : a.session? ≠ some i)
    (hans : h.service.Answers i) : h'.service.Answers i := by
  have queued (q : Queued) : (h.service.enqueue q.command q.ticket).Answers i :=
    hans.mono (fun p hp => List.mem_append_left _ hp) rfl
  cases ha with
  | served q rest hq =>
    refine hans.served hq fun ht => ?_
    obtain ⟨c, -, hc⟩ := (hl.queued q (hq ▸ List.mem_cons_self)).owner ht
    exact ⟨c, hc⟩
  | swept t => exact (queued ⟨.sweep, none⟩).mono (fun p hp => hp) rfl
  | worked j m s s' v hs hw =>
    have hij : i ≠ j := by
      rintro rfl
      rcases hw.part with rfl | rfl | rfl | rfl <;> exact hi rfl
    have hc := hw.confined (hl.fits j s hs)
    obtain ⟨extra, hqueue, -⟩ := hc.queue
    exact hans.mono (fun p hp => hqueue ▸ List.mem_append_left _ hp) (hc.lookup i hij)
  | dispatched r hr => exact queued ⟨.dispatch r, none⟩
  | asked q hr => exact queued ⟨q.command, none⟩
  | _ => exact hans.mono (fun p hp => hp) rfl

theorem Run.answers (hr : Run start ms h) (hs : start.Fresh) {s : Session} {c : Handle}
    (hi : h.sessions[i]? = some s) (hp : s.phase = .registering c true) : h.service.Answers i := by
  obtain ⟨o, ho⟩ := hr.opening_of_lt hs (List.getElem?_eq_some_iff.mp hi).1
  obtain ⟨s', hi', hans⟩ := hr.along hs ho
    (P := fun _ h s => ∀ c, s.phase = .registering c true → h.service.Answers i)
    (fun _ _ _ hopen c hp => by cases hopen <;> cases hp)
    (fun {ms h h' a s s'} hrun hact _ _ _ hturn hans c hp => by
      have hl := hrun.ledger hs
      cases hturn with
      | own m d s' hm hmove =>
        rcases Session.works_of_move hl.running hm hmove with
          ⟨hw, -⟩ | ⟨line, line', deadline, u, -, -, heq⟩
        · exact hw.answers hp
        · cases heq
          cases hp
      | client b => exact hans c hp
      | other a h' ha hne => exact (acts_of_act hl.running ha).answers hl hne (hans c hp))
  cases hi.symm.trans hi'
  exact hans c hp

theorem Run.replies_registered (hr : Run start ms h) (hs : start.Fresh) {p : Nat × Reply}
    (hp : p ∈ h.service.replies) : ∃ r, p.2 = .registered r := by
  induction hr generalizing p with
  | nil =>
    obtain ⟨settings, registry, verifier, channels, clock, rfl⟩ := hs
    cases hp
  | @snoc ms h h' a hr ha ih =>
    have hl := hr.ledger hs
    cases acts_of_act hl.running ha with
    | served q rest hq =>
      rcases Service.reply_of_mem_serve hq hp with hold | ⟨hticket, hreply⟩
      · exact ih hold
      · obtain ⟨c, -, hc⟩ := (hl.queued q (hq ▸ List.mem_cons_self)).owner hticket
        obtain ⟨r, hr⟩ := h.service.members.reply_register c
        rw [hc, hr] at hreply
        exact ⟨r, (Option.some.inj hreply).symm⟩
    | worked j m s s' v hj hw => exact ih ((hw.confined (hl.fits j s hj)).replies _ hp)
    | _ => exact ih hp

end

end Hub

/-! ## What an admission waits for -/

/-- The time until which an admission waits for its client. -/
def Phase.deadline? : Phase → Option Nat
  | .prompting deadline => some deadline
  | .awaiting deadline => some deadline
  | .rejecting _ deadline _ => some deadline
  | .greeting _ deadline => some deadline
  | _ => none

namespace Admission

variable {e : Surroundings} {i : Nat} {d : Desk} {line : Line}

theorem prompting_waits {deadline : Nat} (hs : step e i d ⟨line, .prompting deadline⟩ = none) :
    e.now < deadline := by
  simp only [step] at hs
  split at hs
  · cases hs
  · cases hs
  · split at hs
    · cases hs
    · exact Nat.lt_of_not_le ‹_›

theorem awaiting_waits {deadline : Nat} (hs : step e i d ⟨line, .awaiting deadline⟩ = none) :
    e.now < deadline := by
  simp only [step] at hs
  split at hs
  · split at hs <;> cases hs
  · cases hs
  · split at hs
    · cases hs
    · exact Nat.lt_of_not_le ‹_›

theorem waits {s : Session} (hv : d.service.running = true) (hroom : d.service.hasRoom = true)
    (hreply : ∀ c, s.phase = .registering c true →
      ∃ r, d.service.replies.lookup i = some (.registered r))
    (hs : step e i d s = none) :
    s.result? ≠ none ∨ ∃ deadline, s.phase.deadline? = some deadline ∧ e.now < deadline := by
  obtain ⟨line, phase⟩ := s
  cases phase with
  | prompting deadline => exact .inr ⟨deadline, rfl, prompting_waits hs⟩
  | awaiting deadline => exact .inr ⟨deadline, rfl, awaiting_waits hs⟩
  | rejecting why deadline endpoint => exact .inr ⟨deadline, rfl, (rejecting_waits hs).2⟩
  | greeting c deadline => exact .inr ⟨deadline, rfl, (greeting_waits hs).2⟩
  | registering c asked =>
    cases asked with
    | false =>
      simp only [step, hv, hroom, Bool.not_true, Bool.false_eq_true, if_false, if_true] at hs
      cases hs
    | true =>
      obtain ⟨r, hr⟩ := hreply c rfl
      simp only [step, Service.collect, hr] at hs
      cases r <;> cases hs
  | withdrawing c err =>
    simp only [step, hv, hroom, Bool.not_true, Bool.and_false, Bool.false_eq_true, if_false] at hs
    cases hs
  | admitted c inbound outbound => exact .inl (Option.some_ne_none _)
  | refused why => exact .inl (Option.some_ne_none _)

end Admission

/-! ## Admissions in time -/

/-- An admission is in time: what it waits for now ends before it is refused at `latest`, or has
ended and leaves it one write. -/
def Phase.InTime (settings : ConnectionSettings) (latest now : Nat) : Phase → Prop
  | .prompting deadline => now ≤ deadline ∧ deadline + settings.authTimeout ≤ latest
  | .awaiting deadline => now ≤ deadline ∧ deadline ≤ latest
  | .registering _ _ => now ≤ latest
  | .rejecting _ deadline _ => now ≤ deadline ∧ deadline ≤ latest + settings.writeWait
  | .greeting _ deadline => now ≤ deadline ∧ deadline ≤ latest + settings.writeWait
  | .withdrawing _ _ => now ≤ latest + settings.writeWait
  | .admitted _ _ _ => True
  | .refused _ => True

namespace Phase.InTime

variable {settings : ConnectionSettings} {latest now after : Nat} {p p' : Phase}

theorem now_le {s : Session} (ht : s.phase.InTime settings latest now) (hs : s.result? = none) :
    now ≤ latest + settings.writeWait := by
  obtain ⟨line, p⟩ := s
  cases p with
  | admitted c inbound outbound => cases hs
  | refused why => cases hs
  | _ =>
    simp only [InTime] at ht
    omega

theorem later {deadline : Nat} (ht : p.InTime settings latest now) (hd : p.deadline? = some deadline)
    (hle : after ≤ deadline) : p.InTime settings latest after := by
  cases p with
  | prompting deadline => cases hd; exact ⟨hle, ht.2⟩
  | awaiting deadline => cases hd; exact ⟨hle, ht.2⟩
  | rejecting why deadline endpoint => cases hd; exact ⟨hle, ht.2⟩
  | greeting c deadline => cases hd; exact ⟨hle, ht.2⟩
  | _ => cases hd

theorem of_result {s : Session} (hs : s.result? ≠ none) :
    s.phase.InTime settings latest now := by
  obtain ⟨line, p⟩ := s
  cases p with
  | admitted c inbound outbound => trivial
  | refused why => trivial
  | _ => exact absurd rfl hs

theorem steps {e : Surroundings} {line line' : Line} (ht : p.InTime e.settings latest e.now)
    (hs : Admission.Steps e line line' p p') : p'.InTime e.settings latest e.now := by
  cases hs with
  | prompted deadline =>
    simp only [InTime] at ht ⊢
    omega
  | ignored deadline => exact ht
  | proved deadline c => exact ht.1.trans ht.2
  | asked c => exact ht
  | granted c =>
    simp only [InTime, Surroundings.writeDeadline] at ht ⊢
    omega
  | rejected p why endpoint hp =>
    have hnow : e.now ≤ latest := by
      cases p with
      | prompting deadline =>
        simp only [InTime] at ht
        omega
      | awaiting deadline => exact ht.1.trans ht.2
      | registering c asked => exact ht
      | _ => cases hp
    simp only [InTime, Surroundings.writeDeadline]
    omega
  | greeted c deadline => trivial
  | ungreeted c deadline err => exact ht.1.trans ht.2
  | refused why deadline endpoint => trivial
  | withdrawn c err => trivial

end Phase.InTime

/-- The moves of an admission keep it in time; the loops have no part in it. -/
theorem Session.inTime_of_move {e : Surroundings} {d d' : Desk} {s s' : Session} {m : Move}
    {latest : Nat} (ht : s.phase.InTime e.settings latest e.now)
    (hs : s.move e d m = some (d', s')) : s'.phase.InTime e.settings latest e.now := by
  obtain ⟨line, phase⟩ := s
  cases m with
  | serve => cases hs
  | sweep => cases hs
  | admission j => exact ht.steps (Admission.steps_of_step hs).1
  | _ =>
    cases phase with
    | admitted c inbound outbound =>
      obtain ⟨⟨line', v, loop⟩, -, heq⟩ := Option.map_eq_some_iff.mp hs
      cases heq
      trivial
    | _ => cases hs

theorem Session.mem_due? {s : Session} {deadline : Nat} (hd : s.phase.deadline? = some deadline) :
    deadline ∈ s.due? := by
  obtain ⟨line, phase⟩ := s
  cases phase with
  | prompting t => cases hd; exact List.mem_singleton_self _
  | awaiting t => cases hd; exact List.mem_singleton_self _
  | rejecting why t endpoint => cases hd; exact List.mem_singleton_self _
  | greeting c t => cases hd; exact List.mem_singleton_self _
  | _ => cases hd

/-- How long an admission may last until its client is told how it ends; of a user who is known
nothing is asked. -/
def ConnectionSettings.patience (settings : ConnectionSettings) : Option UserId → Nat
  | none => settings.writeWait + settings.authTimeout
  | some _ => 0

namespace Hub

instance (h : Hub) : Decidable h.Still :=
  decidable_of_iff (h.advanceOne.isNone = true)
    (Option.isNone_iff_eq_none.trans still_iff_advanceOne.symm)

/-- The clock moves on as a virtual one does: nothing else could move, and no timer of a session is
passed over. -/
structure Moment.Paces (t : Moment) : Prop where
  still : t.before.Still
  due : ∀ s ∈ t.before.sessions, ∀ due ∈ s.due?, t.before.now < due → t.after.now ≤ due

instance (t : Moment) : Decidable t.Paces :=
  decidable_of_iff (t.before.Still ∧
      ∀ s ∈ t.before.sessions, ∀ due ∈ s.due?, t.before.now < due → t.after.now ≤ due)
    ⟨fun h => ⟨h.1, h.2⟩, fun h => ⟨h.still, h.due⟩⟩

def Paced (ms : List Moment) : Prop := ∀ t ∈ ms, t.before.now < t.after.now → t.Paces

instance (ms : List Moment) : Decidable (Paced ms) :=
  inferInstanceAs (Decidable (∀ t ∈ ms, t.before.now < t.after.now → t.Paces))

section

variable {start h : Hub} {ms before after : List Moment} {t : Moment} {i : Nat} {s : Session}

theorem Run.admission_waits (hr : Run start ms h) (hs : start.Fresh) (hstill : h.Still)
    (hi : h.sessions[i]? = some s) :
    s.result? ≠ none ∨ ∃ deadline, s.phase.deadline? = some deadline ∧ h.now < deadline := by
  have hl := hr.ledger hs
  refine Admission.waits (e := h.surroundings) (d := h.desk) hl.running
    (hstill.hasRoom hl.roomy) (fun c hp => ?_) (step_of_admission_none (hstill _) hi)
  rcases hr.answers hs hi hp with ⟨q, hq, -⟩ | hsome
  · rw [hstill.queue] at hq
    cases hq
  · obtain ⟨r, hr'⟩ := Option.isSome_iff_exists.mp hsome
    obtain ⟨first, rest, heq, -⟩ := List.lookup_eq_some_iff.mp hr'
    obtain ⟨x, rfl⟩ := hr.replies_registered hs (p := (i, r)) (by rw [heq]; simp)
    exact ⟨x, hr'⟩

theorem opens_of_opened {o : Option UserId} (hr : Run start before t.before) (hs : start.Fresh)
    (hact : t.before.act t.action = some t.after) (ho : t.opened? = some (i, o)) :
    ∃ s, t.after.sessions[i]? = some s ∧ t.before.Opens t.action o s := by
  have hopening : (i, o) ∈ openings (before ++ [t]) := by
    rw [openings_snoc, ho]
    exact List.mem_append_right _ (List.mem_singleton_self _)
  have hi := List.getElem?_eq_getElem ((hr.snoc hact).lt_of_opening hs hopening)
  exact ⟨_, hi, (opens_of_act hact ho hi).2⟩

theorem Run.inTime_snoc {latest : Nat} (hr : Run start ms t.before) (hs : start.Fresh)
    (hact : t.before.act t.action = some t.after) (hp : t.before.now < t.after.now → t.Paces)
    (hi : t.before.sessions[i]? = some s)
    (ht : s.phase.InTime start.settings latest t.before.now) :
    ∃ s', t.after.sessions[i]? = some s' ∧ s'.phase.InTime start.settings latest t.after.now := by
  have hl := hr.ledger hs
  obtain ⟨s', hi', hturn⟩ := turn_of_act hi hact
  refine ⟨s', hi', ?_⟩
  obtain ⟨h, a, h'⟩ := t
  dsimp only at hturn hact hi hi' ht hl hr hp ⊢
  cases hturn with
  | own m d s' hm hmove =>
    rw [← (hr.fixed hs).1] at ht ⊢
    exact Session.inTime_of_move (e := h.surroundings) ht hmove
  | client b => exact ht
  | other a h' ha hne =>
    rcases Nat.eq_or_lt_of_le (acts_of_act hl.running ha).now_le with heq | hlt
    · rw [← heq]
      exact ht
    · have hpace := hp hlt
      rcases hr.admission_waits hs hpace.still hi with hover | ⟨deadline, hd, hnow⟩
      · exact .of_result hover
      · exact ht.later hd
          (hpace.due s (List.mem_of_getElem? hi) deadline (Session.mem_due? hd) hnow)

theorem Run.inTime {o : Option UserId} (hr : Run start (before ++ t :: after) h) (hs : start.Fresh)
    (hp : Paced (before ++ t :: after)) (ho : t.opened? = some (i, o)) :
    ∃ s, h.sessions[i]? = some s ∧ s.phase.InTime start.settings
      (t.before.now + start.settings.patience o) h.now := by
  refine hr.onward (P := fun _ h => ∃ s, h.sessions[i]? = some s ∧ s.phase.InTime start.settings
    (t.before.now + start.settings.patience o) h.now) ?_ ?_
  · obtain ⟨hbefore, hact⟩ := hr.split
    obtain ⟨s, hi, hopens⟩ := opens_of_opened hbefore hs hact ho
    refine ⟨s, hi, ?_⟩
    rw [← (hbefore.fixed hs).1]
    obtain ⟨h, a, h'⟩ := t
    dsimp only at hopens hact ⊢
    cases hopens with
    | accepted line =>
      cases hact
      refine ⟨Nat.le_add_right _ _, ?_⟩
      show h.now + h.settings.writeWait + h.settings.authTimeout ≤ _
      exact Nat.le_of_eq (Nat.add_assoc _ _ _)
    | registered u line =>
      cases hact
      exact Nat.le_refl _
  · rintro first u rest heq hrun hact ⟨s, hi, ht⟩
    exact hrun.inTime_snoc hs hact (hp u (by rw [heq]; simp)) hi ht

end

end Hub

/-! ## Writes in time -/

def Outbound.writeDeadline? : Outbound → Option Nat
  | .writing _ _ deadline _ => some deadline
  | _ => none

def Session.writeDeadline? (s : Session) : Option Nat :=
  match s.phase with
  | .admitted _ _ outbound => outbound.writeDeadline?
  | _ => none

section

variable {e : Surroundings} {c : Handle} {line line' : Line} {v v' : Service}
  {outbound outbound' : Outbound}

theorem Outbound.begins_of_keepAlive
    (hs : outbound.keepAlive e line v = some (line', v', outbound')) :
    outbound.writeDeadline? = none ∧ outbound'.writeDeadline? = some e.writeDeadline := by
  cases outbound with
  | idle k =>
    simp only [keepAlive] at hs
    split at hs <;> cases hs
    exact ⟨rfl, rfl⟩
  | _ => cases hs

theorem Outbound.begins_of_step (hs : outbound.step e c line v = some (line', v', outbound')) :
    outbound'.writeDeadline? = none ∨
      outbound.writeDeadline? = none ∧ outbound'.writeDeadline? = some e.writeDeadline := by
  cases outbound with
  | idle k =>
    simp only [step] at hs
    split at hs
    · cases hs
      exact .inr ⟨rfl, rfl⟩
    · cases hs
      exact .inl rfl
    · exact .inr (begins_of_keepAlive hs)
  | writing f keeping deadline k =>
    simp only [step] at hs
    split at hs
    · cases hs
      exact .inl rfl
    · cases hs
      exact .inl rfl
    · split at hs <;> cases hs
      exact .inl rfl
  | closing exit =>
    cases hs
    exact .inl rfl
  | ended exit => cases hs
  | absent => cases hs

end

theorem Session.begins_of_move {e : Surroundings} {d d' : Desk} {s s' : Session} {m : Move}
    (hs : s.move e d m = some (d', s')) :
    s'.writeDeadline? = none ∨ s'.writeDeadline? = s.writeDeadline? ∨
      s.writeDeadline? = none ∧ s'.writeDeadline? = some e.writeDeadline := by
  obtain ⟨line, phase⟩ := s
  cases m with
  | serve => cases hs
  | sweep => cases hs
  | admission j =>
    obtain ⟨hsteps, -⟩ := Admission.steps_of_step hs
    obtain ⟨line', phase'⟩ := s'
    dsimp only at hsteps
    cases hsteps <;> exact .inl rfl
  | inbound j =>
    cases phase with
    | admitted c inbound outbound =>
      obtain ⟨⟨line', v, inbound'⟩, -, heq⟩ := Option.map_eq_some_iff.mp hs
      cases heq
      exact .inr (.inl rfl)
    | _ => cases hs
  | outbound j =>
    cases phase with
    | admitted c inbound outbound =>
      obtain ⟨⟨line', v, outbound'⟩, hstep, heq⟩ := Option.map_eq_some_iff.mp hs
      cases heq
      exact (Outbound.begins_of_step hstep).imp_right .inr
    | _ => cases hs
  | keepalive j =>
    cases phase with
    | admitted c inbound outbound =>
      obtain ⟨⟨line', v, outbound'⟩, hstep, heq⟩ := Option.map_eq_some_iff.mp hs
      cases heq
      exact .inr (.inr (Outbound.begins_of_keepAlive hstep))
    | _ => cases hs

theorem Session.mem_due?_of_writing {s : Session} {deadline : Nat}
    (hd : s.writeDeadline? = some deadline) : deadline ∈ s.due? := by
  obtain ⟨line, phase⟩ := s
  cases phase with
  | admitted c inbound outbound =>
    cases outbound with
    | writing f keeping t k =>
      cases hd
      exact List.mem_append_right _ (List.mem_singleton_self _)
    | _ => cases hd
  | _ => cases hd

namespace Hub

def writeDeadline? (h : Hub) (i : Nat) : Option Nat :=
  h.sessions[i]?.bind Session.writeDeadline?

/-- A write on session `i` began at `t` and has not ended since. -/
structure Pending (i : Nat) (t : Moment) (after : List Moment) : Prop where
  begins : t.before.writeDeadline? i = none
  lasts : ∀ u ∈ t :: after, u.after.writeDeadline? i ≠ none

section

variable {start h : Hub} {before after : List Moment} {t : Moment} {i : Nat}

theorem Still.now_lt_writeDeadline {s : Session} {deadline : Nat} (hstill : h.Still)
    (hi : h.sessions[i]? = some s) (hd : s.writeDeadline? = some deadline) : h.now < deadline := by
  obtain ⟨line, phase⟩ := s
  cases phase with
  | admitted c inbound outbound =>
    rcases Outbound.waits (step_of_outbound_none (hstill _) hi) with
      ⟨⟨k, rfl⟩, -⟩ | ⟨f, keeping, t, k, rfl, -, hnow⟩ | ⟨exit, rfl⟩ | rfl
    · cases hd
    · cases hd
      exact hnow
    · cases hd
    · cases hd
  | _ => cases hd

theorem writeDeadline?_of_begins {h' : Hub} {a : Action} (hv : h.service.running = true)
    (ha : h.act a = some h') (hb : h.writeDeadline? i = none) (hw : h'.writeDeadline? i ≠ none) :
    h'.writeDeadline? i = some (h.now + h.settings.writeWait) ∧ h'.now = h.now := by
  obtain ⟨deadline, hd⟩ := Option.ne_none_iff_exists'.mp hw
  obtain ⟨s', hi', hs'⟩ := Option.bind_eq_some_iff.mp hd
  cases hi : h.sessions[i]? with
  | none =>
    obtain ⟨o, hopens⟩ := opens_of_new hv ha (List.getElem?_eq_none_iff.mp hi) hi'
    cases hopens <;> cases hs'
  | some s =>
    have hnone : s.writeDeadline? = none := by
      unfold writeDeadline? at hb
      rwa [hi] at hb
    obtain ⟨t, hi₁, hturn⟩ := turn_of_act hi ha
    cases hi'.symm.trans hi₁
    cases hturn with
    | own m d s' hm hmove =>
      rcases Session.begins_of_move hmove with hended | hsame | ⟨-, hbegins⟩
      · cases hended.symm.trans hs'
      · cases hnone.symm.trans (hsame.symm.trans hs')
      · refine ⟨?_, rfl⟩
        unfold writeDeadline?
        rw [hi']
        exact hbegins
    | client b => cases hnone.symm.trans hs'
    | other a h' ha hne => cases hnone.symm.trans hs'

theorem Run.writes_in_time_snoc {ms : List Moment} {deadline : Nat} (hr : Run start ms t.before)
    (hs : start.Fresh) (hact : t.before.act t.action = some t.after)
    (hp : t.before.now < t.after.now → t.Paces) (hd : t.before.writeDeadline? i = some deadline)
    (hle : t.before.now ≤ deadline) (hlast : t.after.writeDeadline? i ≠ none) :
    t.after.writeDeadline? i = some deadline ∧ t.after.now ≤ deadline := by
  have hl := hr.ledger hs
  obtain ⟨s, hi, hwriting⟩ := Option.bind_eq_some_iff.mp hd
  obtain ⟨s', hi', hturn⟩ := turn_of_act hi hact
  obtain ⟨h, a, h'⟩ := t
  dsimp only at hturn hact hi hi' hle hl hp hlast ⊢
  have hbind : h'.writeDeadline? i = s'.writeDeadline? := by
    unfold writeDeadline?
    rw [hi']
    rfl
  rw [hbind] at hlast ⊢
  cases hturn with
  | own m d s' hm hmove =>
    rcases Session.begins_of_move hmove with hended | hsame | ⟨hnone, -⟩
    · exact absurd hended hlast
    · exact ⟨hsame.trans hwriting, hle⟩
    · cases hnone.symm.trans hwriting
  | client b => exact ⟨hwriting, hle⟩
  | other a h' ha hne =>
    refine ⟨hwriting, ?_⟩
    rcases Nat.eq_or_lt_of_le (acts_of_act hl.running ha).now_le with heq | hlt
    · rw [← heq]
      exact hle
    · have hpace := hp hlt
      exact hpace.due s (List.mem_of_getElem? hi) _ (Session.mem_due?_of_writing hwriting)
        (hpace.still.now_lt_writeDeadline hi hwriting)

theorem Run.writes_in_time (hr : Run start (before ++ t :: after) h) (hs : start.Fresh)
    (hp : Paced (before ++ t :: after)) (hw : Pending i t after) :
    h.writeDeadline? i = some (t.before.now + start.settings.writeWait) ∧
      h.now ≤ t.before.now + start.settings.writeWait := by
  obtain ⟨hbefore, hact⟩ := hr.split
  refine hr.onward (P := fun _ h =>
    h.writeDeadline? i = some (t.before.now + start.settings.writeWait) ∧
      h.now ≤ t.before.now + start.settings.writeWait) ?_ ?_
  · have hlast := hw.lasts t List.mem_cons_self
    rw [← (hbefore.fixed hs).1]
    obtain ⟨hd, hnow⟩ := writeDeadline?_of_begins (hbefore.ledger hs).running hact hw.begins hlast
    exact ⟨hd, hnow ▸ Nat.le_add_right _ _⟩
  · rintro first u rest heq hrun hact ⟨hd, hle⟩
    exact hrun.writes_in_time_snoc hs hact (hp u (by rw [heq]; simp)) hd hle
      (hw.lasts u (List.mem_cons_of_mem _ (by rw [heq]; simp)))

end

end Hub

end PushHub
