import PushHub.Proofs.Hub.Deadlines
import PushHub.Proofs.Hub.Keeping
import PushHub.Proofs.Hub.Rest

/-! What becomes of a write that is not over in time. Its frame is not sent, both loops end, and once
nothing moves the connection is no entry, its mailbox is closed and so is its transport. Together with
the deadlines this leaves no client a way to hold the hub. -/
namespace PushHub

open Registry (Handle Service Queued Membership)

/-! ## Transports that take nothing -/

/-- The transport would take a frame at once. -/
def Wire.Takes : Wire → Prop
  | .pipe p => p.closed = false ∧ p.peerGone = false ∧ p.toPeer.length < p.capacity
  | .socket s => s.closing = false ∧ s.clientGone = false

def Line.Takes (l : Line) : Prop := l.faults.sends ≠ some 0 ∧ l.wire.Takes

theorem Wire.send_eq_sent {w : Wire} {f : Frame} : (w.send f).2 = .sent ↔ w.Takes := by
  cases w with
  | pipe p =>
    show (p.send f).2 = .sent ↔ p.closed = false ∧ p.peerGone = false ∧ p.toPeer.length < p.capacity
    unfold Pipe.send
    split
    · rename_i hshut
      constructor
      · intro hsent
        cases hsent
      · rintro ⟨hopen, hhere, -⟩
        simp [hopen, hhere] at hshut
    · rename_i hopen
      rw [Bool.or_eq_true, not_or, Bool.not_eq_true, Bool.not_eq_true] at hopen
      split
      · rename_i hfull
        constructor
        · intro hsent
          cases hsent
        · intro ht
          exact absurd ht.2.2 (Nat.not_lt_of_le hfull)
      · exact iff_of_true rfl ⟨hopen.1, hopen.2, Nat.lt_of_not_le ‹_›⟩
  | socket s =>
    show (s.send f).2 = .sent ↔ s.closing = false ∧ s.clientGone = false
    unfold Socket.send
    split
    · rename_i hshut
      constructor
      · intro hsent
        cases hsent
      · rintro ⟨hopen, hhere⟩
        simp [hopen, hhere] at hshut
    · rename_i hopen
      rw [Bool.or_eq_true, not_or, Bool.not_eq_true, Bool.not_eq_true] at hopen
      exact iff_of_true rfl hopen

theorem Line.send_eq_sent {l : Line} {f : Frame} : (l.send f).2 = .sent ↔ l.Takes := by
  have hw := l.wire.send_eq_sent (f := f)
  unfold send Takes
  split
  · rename_i hfails
    constructor
    · intro hsent
      cases hsent
    · intro ht
      exact absurd hfails ht.1
  · rename_i hsound
    rw [← hw]
    generalize l.wire.send f = o
    obtain ⟨w, r⟩ := o
    cases r with
    | sent => exact iff_of_true rfl ⟨hsound, rfl⟩
    | _ => simp

theorem Pipe.takes_of_answer {p : Pipe} {f : Frame} (ht : (Wire.pipe (p.answer f)).Takes) :
    (Wire.pipe p).Takes := by
  cases f with
  | ping bytes =>
    unfold answer at ht
    dsimp only at ht
    split at ht
    · exact ht
    · obtain ⟨hopen, hhere, hroom⟩ := ht
      rw [List.length_append] at hroom
      exact ⟨hopen, hhere, Nat.lt_of_le_of_lt (Nat.le_add_right _ _) hroom⟩
  | _ => exact ht

theorem Socket.takes_of_answer {s : Socket} {f : Frame} (ht : (Wire.socket (s.answer f)).Takes) :
    (Wire.socket s).Takes := by
  cases f with
  | ping bytes =>
    unfold answer at ht
    dsimp only at ht
    split at ht <;> exact ht
  | close =>
    change (Wire.socket s.close).Takes at ht
    unfold close at ht
    split at ht
    · exact ht
    · cases ht.1
  | _ => exact ht

theorem Wire.takes_of_receive {w : Wire} (ht : w.receive.1.Takes) : w.Takes := by
  cases w with
  | pipe p =>
    change (Wire.pipe p.receive.1).Takes at ht
    unfold Pipe.receive at ht
    split at ht
    · exact ht
    · split at ht
      · rename_i f rest _
        exact Pipe.takes_of_answer (p := { p with fromPeer := rest }) ht
      · split at ht <;> exact ht
  | socket s =>
    change (Wire.socket s.receive.1).Takes at ht
    unfold Socket.receive at ht
    split at ht
    · rename_i f rest _
      dsimp only at ht
      split at ht
      · exact ht
      · exact Socket.takes_of_answer (s := { s with fromClient := rest }) ht
    · split at ht <;> exact ht

theorem Line.takes_of_receive {l : Line} (ht : l.receive.1.Takes) : l.Takes := by
  have hw := l.wire.takes_of_receive
  unfold receive at ht
  split at ht
  · exact ht
  · generalize l.wire.receive = o at ht hw
    obtain ⟨w, r⟩ := o
    cases r <;> exact ⟨ht.1, hw ht.2⟩

theorem Line.takes_of_dropSource {l : Line} (ht : l.dropSource.Takes) : l.Takes := by
  obtain ⟨wire, faults⟩ := l
  cases wire <;> exact ht

theorem ClientAct.takes_of_on {w : Wire} {a : ClientAct} (ha : a ≠ .read) (ht : (a.on w).Takes) :
    w.Takes := by
  cases w with
  | pipe p =>
    cases a with
    | send f =>
      change (Wire.pipe (p.peerSend f).1).Takes at ht
      unfold Pipe.peerSend at ht
      split at ht <;> exact ht
    | read => exact absurd rfl ha
    | disconnect => exact ht
    | leave => cases ht.2.1
  | socket s =>
    cases a with
    | send f =>
      change (Wire.socket (s.clientSend f).1).Takes at ht
      unfold Socket.clientSend at ht
      split at ht <;> exact ht
    | read => exact absurd rfl ha
    | disconnect => exact ht
    | leave => cases ht.2

theorem Session.utters?_of_not_takes {e : Surroundings} {s : Session} (m : Move)
    (hs : ¬s.line.Takes) : s.utters? e m = none := by
  unfold utters?
  cases s.offers? e m with
  | none => rfl
  | some u =>
    have hunsent : (s.line.send u.frame).2 ≠ .sent := fun hsent => hs (Line.send_eq_sent.mp hsent)
    simp [hunsent]

/-! ## A write that is late -/

/-- The loop that writes is late with a frame that is not taken, or it is stopping and its mailbox is
closed. -/
def Outbound.Lapses (now : Nat) (v : Service) (c : Handle) (line : Line) : Outbound → Prop
  | .writing _ _ deadline _ => deadline ≤ now ∧ ¬line.Takes
  | .closing _ => v.Signalled c
  | .ended _ => v.Signalled c
  | _ => False

namespace Outbound

variable {e : Surroundings} {now now' : Nat} {c : Handle} {line line' : Line} {v v' : Service}
  {outbound outbound' : Outbound}

theorem Lapses.signalled (hl : outbound.Lapses now v c line) (hstop : outbound.Stopping) :
    v.Signalled c := by
  cases outbound with
  | closing exit => exact hl
  | ended exit => exact hl
  | _ => cases hstop

theorem Lapses.of_stopping (hstop : outbound.Stopping) (hs : v.Signalled c) :
    outbound.Lapses now v c line := by
  cases outbound with
  | closing exit => exact hs
  | ended exit => exact hs
  | _ => cases hstop

theorem Lapses.later (hl : outbound.Lapses now v c line) (hnow : now ≤ now')
    (hline : outbound.writeDeadline? ≠ none → line'.Takes → line.Takes)
    (hs : v.Signalled c → v'.Signalled c) : outbound.Lapses now' v' c line' := by
  cases outbound with
  | writing f keeping deadline k =>
    exact ⟨hl.1.trans hnow, fun ht => hl.2 (hline (Option.some_ne_none _) ht)⟩
  | closing exit => exact hs hl
  | ended exit => exact hs hl
  | _ => cases hl

theorem Lapses.stops (hl : outbound.Lapses e.now v c line)
    (hs : outbound.step e c line v = some (line', v', outbound')) : outbound'.Stopping := by
  cases outbound with
  | writing f keeping deadline k =>
    have hunsent : (line.send f).2 ≠ .sent := fun hsent => hl.2 (Line.send_eq_sent.mp hsent)
    simp only [step] at hs
    generalize line.send f = o at hs hunsent
    obtain ⟨line₁, r⟩ := o
    cases r with
    | sent => exact absurd rfl hunsent
    | failed err =>
      cases hs
      trivial
    | waiting =>
      dsimp only at hs
      rw [if_pos hl.1] at hs
      cases hs
      trivial
  | closing exit =>
    cases hs
    trivial
  | ended exit => cases hs
  | _ => cases hl

theorem Lapses.not_keepAlive (hl : outbound.Lapses now v c line) :
    outbound.keepAlive e line v = none := by
  cases outbound with
  | idle k => cases hl
  | _ => rfl

theorem Lapses.silent (hl : outbound.Lapses now v c line) (inbound : Inbound) (m : Move) :
    Session.utters? e ⟨line, .admitted c inbound outbound⟩ m = none := by
  cases outbound with
  | writing f keeping deadline k => exact Session.utters?_of_not_takes m hl.2
  | closing exit => cases m <;> rfl
  | ended exit => cases m <;> rfl
  | _ => cases hl

end Outbound

theorem Inbound.takes_of_step {e : Surroundings} {c : Handle} {line line' : Line} {v v' : Service}
    {inbound inbound' : Inbound} (hs : inbound.step e c line v = some (line', v', inbound'))
    (ht : line'.Takes) : line.Takes := by
  cases inbound with
  | running deadline followed =>
    have hr := Line.takes_of_receive (l := line)
    simp only [step] at hs
    split at hs
    · cases hs
      exact ht
    · generalize line.receive = o at hs hr
      obtain ⟨line₁, r⟩ := o
      cases r with
      | frame f =>
        cases f <;> cases hs <;> exact hr ht
      | failed err =>
        cases hs
        exact hr ht
      | waiting =>
        dsimp only at hs
        split at hs <;> cases hs
        exact hr ht
  | leaving exit =>
    simp only [step] at hs
    split at hs
    · cases hs
    · cases hs
      exact Line.takes_of_dropSource ht
  | ended exit => cases hs
  | absent => cases hs

namespace Hub

structure Lapsed (h : Hub) (i : Nat) (c : Handle) (line : Line) (inbound : Inbound)
    (outbound : Outbound) : Prop where
  session : h.sessions[i]? = some ⟨line, .admitted c inbound outbound⟩
  sound : Session.Sound ⟨line, .admitted c inbound outbound⟩
  lapses : outbound.Lapses h.now h.service c line

/-- The client of session `i` reads nothing while a frame is being written to it. -/
def Unheard (i : Nat) (ms : List Moment) : Prop :=
  ∀ t ∈ ms, t.before.writeDeadline? i ≠ none → t.action ≠ .client i .read

section

variable {start h h' last : Hub} {ms more : List Moment} {a : Action} {conns : List (Nat × Handle)}
  {i : Nat} {c : Handle} {line : Line} {inbound : Inbound} {outbound : Outbound}

theorem Lapsed.own {m : Move} {d : Desk} {s' : Session} (hk : Lapsed h i c line inbound outbound)
    (hv : h.service.running = true) (hm : m.session? = some i)
    (hmove : Session.move h.surroundings h.desk ⟨line, .admitted c inbound outbound⟩ m = some (d, s'))
    (hsignalled : h.service.Signalled c → d.service.Signalled c) :
    s'.Sound ∧ ∃ line' inbound' outbound', s' = ⟨line', .admitted c inbound' outbound'⟩ ∧
      outbound'.Lapses h.now d.service c line' := by
  refine ⟨?_, ?_⟩
  · rcases Session.works_of_move hv hm hmove with
      ⟨hw, -⟩ | ⟨line, line', deadline, u, -, heq, -⟩
    · exact hw.sound hk.sound
    · cases heq
  · cases m with
    | serve => cases hm
    | sweep => cases hm
    | admission j => cases hmove
    | inbound j =>
      obtain ⟨⟨line', v, inbound'⟩, hstep, heq⟩ := Option.map_eq_some_iff.mp hmove
      cases heq
      exact ⟨line', inbound', outbound, rfl,
        hk.lapses.later (Nat.le_refl _) (fun _ => Inbound.takes_of_step hstep) hsignalled⟩
    | outbound j =>
      obtain ⟨⟨line', v, outbound'⟩, hstep, heq⟩ := Option.map_eq_some_iff.mp hmove
      cases heq
      have hstops := Outbound.Lapses.stops (e := h.surroundings) hk.lapses hstep
      have hcloses := Outbound.signalled_of_step hstep hk.lapses.signalled hstops
      exact ⟨line', inbound, outbound', rfl, .of_stopping hstops hcloses⟩
    | keepalive j =>
      obtain ⟨⟨line', v, outbound'⟩, hstep, heq⟩ := Option.map_eq_some_iff.mp hmove
      cases hk.lapses.not_keepAlive.symm.trans hstep

theorem Lapsed.turn (hk : Lapsed h i c line inbound outbound) (hl : Ledger conns h)
    (ha : h.act a = some h') (hb : h.writeDeadline? i ≠ none → a ≠ .client i .read) :
    Moment.utters? ⟨h, a, h'⟩ i = none ∧
      ∃ line inbound outbound, Lapsed h' i c line inbound outbound := by
  have hacts := acts_of_act hl.running ha
  have hn := hl.lt_length (hl.lookup_eq_some.mp (hl.fits i _ hk.session))
  have hsignalled := hacts.signalled hn
  have hdeadline : h.writeDeadline? i = outbound.writeDeadline? := by
    unfold writeDeadline?
    rw [hk.session]
    rfl
  obtain ⟨s', hget, hturn⟩ := turn_of_act hk.session ha
  cases hturn with
  | own m d s' hm hmove =>
    obtain ⟨hsound, line', inbound', outbound', rfl, hlapses⟩ :=
      hk.own hl.running hm hmove hsignalled
    exact ⟨(utters?_of_move hm hk.session).trans (hk.lapses.silent inbound m),
      line', inbound', outbound', hget, hsound, hlapses⟩
  | client b =>
    have hread (hd : outbound.writeDeadline? ≠ none) : b ≠ .read := by
      rintro rfl
      exact hb (hdeadline ▸ hd) rfl
    refine ⟨rfl, { line with wire := b.on line.wire }, inbound, outbound, hget, ?_, ?_⟩
    · exact (b.closeCalls?_on line.wire).trans hk.sound
    · refine hk.lapses.later (Nat.le_refl _) (fun hd ht => ⟨ht.1, ?_⟩) hsignalled
      exact ClientAct.takes_of_on (hread hd) ht.2
  | other a h' ha hi =>
    exact ⟨utters?_of_ne hi, line, inbound, outbound, hget, hk.sound,
      hk.lapses.later hacts.now_le (fun _ ht => ht) hsignalled⟩

/-- Nothing more is said on a session that is late, whatever happens. -/
theorem Run.lapses (hr : Run start ms h) (hs : start.Fresh)
    (hk : Lapsed h i c line inbound outbound) (hrun : Run start (ms ++ more) last)
    (hu : Unheard i more) : (∀ t ∈ more, t.utters? i = none) ∧
      ∃ line inbound outbound, Lapsed last i c line inbound outbound := by
  induction more using List.reverseRecOn generalizing last with
  | nil =>
    rw [List.append_nil] at hrun
    rw [← hr.unique hrun]
    exact ⟨List.forall_mem_nil _, line, inbound, outbound, hk⟩
  | append_singleton more t ih =>
    rw [← List.append_assoc] at hrun
    obtain ⟨hbefore, hact⟩ := hrun.split
    obtain ⟨hquiet, line', inbound', outbound', hk'⟩ :=
      ih hbefore fun u hu' => hu u (List.mem_append_left _ hu')
    obtain ⟨hsilent, hlapsed⟩ := hk'.turn (hbefore.ledger hs) hact
      (hu t (List.mem_append_right _ (List.mem_singleton_self t)))
    refine ⟨fun u hu' => ?_, hrun.last_eq ▸ hlapsed⟩
    rcases List.mem_append.mp hu' with hu' | hu'
    · exact hquiet u hu'
    · rw [List.mem_singleton.mp hu']
      exact hsilent

end

end Hub

/-! ## Leaving the registry -/

/-- Both loops of an admitted session were started, and when the one that reads is over the removal of
the connection is queued, if it is an entry at all. -/
def Phase.Leaves (v : Service) : Phase → Prop
  | .admitted c inbound outbound => inbound ≠ .absent ∧ outbound ≠ .absent ∧
      (inbound.Over → v.Listed c → v.Doomed c)
  | _ => True

theorem Phase.Leaves.works {v v' : Service} {i : Nat} {s s' : Session} {m : Move}
    (hp : s.phase.Leaves v) (hw : s.Works i v m v' s') : s'.phase.Leaves v' := by
  cases hw with
  | greeted => exact ⟨nofun, nofun, nofun⟩
  | left => exact ⟨nofun, hp.2.1, nofun⟩
  | heard => exact ⟨nofun, hp.2.1, nofun⟩
  | unregistered => exact ⟨nofun, hp.2.1, fun _ _ => by simp⟩
  | took => exact ⟨hp.1, nofun, hp.2.2⟩
  | stopped => exact ⟨hp.1, nofun, hp.2.2⟩
  | pinging => exact ⟨hp.1, nofun, hp.2.2⟩
  | sent => exact ⟨hp.1, nofun, hp.2.2⟩
  | cut => exact ⟨hp.1, nofun, hp.2.2⟩
  | closed => exact ⟨hp.1, nofun, hp.2.2⟩
  | _ => trivial

namespace Hub

section

variable {start h h' last : Hub} {ms more : List Moment} {a : Action} {conns : List (Nat × Handle)}
  {i : Nat} {c : Handle} {s : Session} {line : Line} {inbound : Inbound} {outbound : Outbound}

theorem Acts.leaves (ha : h.Acts a h') (hl : Ledger conns h)
    (hne : Moment.registers? ⟨h, a, h'⟩ ≠ some c)
    (hd : h.service.Listed c → h.service.Doomed c) : h'.service.Listed c → h'.service.Doomed c := by
  have queued (q : Queued) (hin : h.service.Listed c) :
      (h.service.enqueue q.command q.ticket).Doomed c :=
    (Service.doomed_enqueue _ _).mpr (.inl (hd hin))
  intro hin
  cases ha with
  | served q rest hq =>
    change c ∈ h.service.serve.members.entries at hin
    rw [Service.members_serve hq] at hin
    have hserves : Moment.serves? ⟨h, .move .serve, { h with service := h.service.serve }⟩ = some q :=
      congrArg List.head? hq
    have hother : q.command ≠ .register c := by
      intro hcommand
      refine hne ?_
      rw [Moment.registers?_of_serves hserves, hcommand]
      rfl
    have hold := (Membership.mem_entries_handle hin).resolve_right hother
    -- The removal is still queued, or it has just been handled and the entry is gone.
    obtain ⟨p, hp, hcommand⟩ := hd hold
    rw [hq] at hp
    rcases List.mem_cons.mp hp with rfl | hp
    · rw [hcommand] at hin
      exact absurd hin (Membership.not_mem_unregister hl.keyed c)
    · exact ⟨p, Service.queue_serve hq ▸ hp, hcommand⟩
  | swept t => exact queued ⟨.sweep, none⟩ hin
  | worked j m s s' v hj hw =>
    have hc := hw.confined (hl.fits j s hj)
    obtain ⟨extra, hqueue, -⟩ := hc.queue
    have hold : h.service.Listed c := by
      unfold Service.Listed
      rw [← hc.entries]
      exact hin
    obtain ⟨p, hp, hcommand⟩ := hd hold
    exact ⟨p, hqueue ▸ List.mem_append_left _ hp, hcommand⟩
  | dispatched r hr => exact queued ⟨.dispatch r, none⟩ hin
  | asked q hr => exact queued ⟨q.command, none⟩ hin
  | _ => exact hd hin

theorem Run.leaves (hr : Run start ms h) (hs : start.Fresh) (hi : h.sessions[i]? = some s) :
    s.phase.Leaves h.service := by
  obtain ⟨o, ho⟩ := hr.opening_of_lt hs (List.getElem?_eq_some_iff.mp hi).1
  obtain ⟨s', hi', hp⟩ := hr.along hs ho (P := fun _ h s => s.phase.Leaves h.service)
    (fun _ _ _ hopen => by cases hopen <;> trivial)
    (fun {ms h h' a s s'} hrun hact ho hi _ hturn hp => by
      have hl := hrun.ledger hs
      cases hturn with
      | own m d s' hm hmove =>
        rcases Session.works_of_move hl.running hm hmove with
          ⟨hw, -⟩ | ⟨line, line', deadline, u, -, -, heq⟩
        · exact hp.works hw
        · cases heq
          trivial
      | client b => exact hp
      | other a h' ha hne =>
        obtain ⟨line, phase⟩ := s
        cases phase with
        | admitted c inbound outbound =>
          -- The registration of the connection was handled before its session was admitted.
          obtain ⟨s, hi', hgranted⟩ := hrun.granted hs ho
          cases hi.symm.trans hi'
          obtain ⟨t, ht, hg⟩ := hgranted c rfl
          obtain ⟨first, rest, rfl⟩ := List.append_of_mem ht
          have hrun' := hrun.snoc ha
          rw [List.append_assoc, List.cons_append] at hrun'
          have hother := hrun'.registered_once hs hg.registers? _
            (List.mem_append_right _ (List.mem_singleton_self _))
          exact ⟨hp.1, hp.2.1, fun hover =>
            (acts_of_act hl.running ha).leaves hl hother (hp.2.2 hover)⟩
        | _ => trivial)
  cases hi.symm.trans hi'
  exact hp

/-- Nothing is left of connection `c`, which session `i` was. -/
structure Gone (h : Hub) (i : Nat) (c : Handle) : Prop where
  unlisted : c ∉ h.service.members.entries
  mailbox : h.service.members.isClosed c = true
  transport : ∃ s, h.sessions[i]? = some s ∧ s.line.closeCalls? = some 1

theorem Lapsed.gone (hk : Lapsed h i c line inbound outbound) (hr : Run start ms h)
    (hs : start.Fresh) (hstill : h.Still) : Gone h i c := by
  have hl := hr.ledger hs
  have hlapses := hk.lapses
  obtain ⟨hreads, hwrites, hleaves⟩ := hr.leaves hs hk.session
  rcases Outbound.waits (step_of_outbound_none (hstill _) hk.session) with
    ⟨⟨k, rfl⟩, -⟩ | ⟨f, keeping, deadline, k, rfl, -, hnow⟩ | ⟨exit, rfl⟩ | habsent
  · exact hlapses.elim
  · exact absurd hlapses.1 (Nat.not_le_of_lt hnow)
  · rcases Inbound.waits (hstill.hasRoom hl.roomy) (step_of_inbound_none (hstill _) hk.session) with
      ⟨-, hopen⟩ | ⟨exit', rfl⟩ | habsent
    · exact absurd hlapses hopen
    · refine ⟨fun hin => hstill.not_doomed c (hleaves trivial hin), ?_, _, hk.session, hk.sound⟩
      by_contra hopen
      exact (Service.isClosed_eq_false.mp (Bool.eq_false_iff.mpr hopen)).1 hlapses
    · exact absurd habsent hreads
  · exact absurd habsent hwrites

/-! ## No client holds the hub -/

theorem Run.pending (hr : Run start ms h) (hs : start.Fresh) (hw : h.writeDeadline? i ≠ none) :
    ∃ before t after, ms = before ++ t :: after ∧ Pending i t after := by
  induction hr with
  | nil =>
    obtain ⟨settings, registry, verifier, channels, clock, rfl⟩ := hs
    exact absurd rfl hw
  | @snoc ms h h' a hr ha ih =>
    by_cases hbegins : h.writeDeadline? i = none
    · refine ⟨ms, ⟨h, a, h'⟩, [], rfl, hbegins, fun u hu => ?_⟩
      rw [List.mem_singleton.mp hu]
      exact hw
    · obtain ⟨before, t, after, rfl, hp⟩ := ih hbegins
      refine ⟨before, t, after ++ [⟨h, a, h'⟩], by simp, hp.begins, fun u hu => ?_⟩
      rw [← List.cons_append] at hu
      rcases List.mem_append.mp hu with hu | hu
      · exact hp.lasts u hu
      · rw [List.mem_singleton.mp hu]
        exact hw

/-- What a hub keeps to, whatever its clients do: a call that admits a client ends in time, a write
ends in time or its connection does, and no part of the hub is kept busy for ever. -/
structure Timely (start : Hub) (ms : List Moment) (h : Hub) : Prop where
  accepting : ∀ before t after i, ms = before ++ t :: after → t.opened? = some (i, none) →
    ∃ s, h.sessions[i]? = some s ∧ (s.result? = none →
      h.now ≤ t.before.now + (start.settings.authTimeout + 2 * start.settings.writeWait))
  registering : ∀ before t after i u, ms = before ++ t :: after → t.opened? = some (i, some u) →
    ∃ s, h.sessions[i]? = some s ∧ (s.result? = none →
      h.now ≤ t.before.now + start.settings.writeWait)
  begun : ∀ i, h.writeDeadline? i ≠ none →
    ∃ before t after, ms = before ++ t :: after ∧ Pending i t after
  writing : ∀ before t after i, ms = before ++ t :: after → Pending i t after →
    h.now ≤ t.before.now + start.settings.writeWait
  /-- The frame of a write that runs out of time is not sent, nor is anything else, and the connection
  is gone once nothing moves. A client that made room at the last instant, before the loop takes note,
  would still get it. -/
  overdue : ∀ i c line inbound f keeping deadline k,
    h.sessions[i]? = some ⟨line, .admitted c inbound (.writing f keeping deadline k)⟩ →
    deadline ≤ h.now → (line.send f).2 ≠ .sent →
    ∀ more last, Run start (ms ++ more) last → Unheard i more →
      (∀ t ∈ more, t.utters? i = none) ∧ (last.Still → Gone last i c)
  rests : ∃ more last, Run start (ms ++ more) last ∧ Working more ∧ last.Still
  ends : ∃ n, ∀ more last, Run start (ms ++ more) last → Working more → more.length ≤ n

theorem Run.timely (hr : Run start ms h) (hs : start.Fresh)
    (hover : ∀ t ∈ ms, t.action.OverPipe) (hp : Paced ms) : Timely start ms h where
  accepting before t after i heq ho := by
    subst heq
    obtain ⟨s, hi, ht⟩ := hr.inTime hs hp ho
    refine ⟨s, hi, fun hresult => ?_⟩
    have hnow := ht.now_le hresult
    simp only [ConnectionSettings.patience] at hnow
    omega
  registering before t after i u heq ho := by
    subst heq
    obtain ⟨s, hi, ht⟩ := hr.inTime hs hp ho
    exact ⟨s, hi, fun hresult => ht.now_le hresult⟩
  begun i hw := hr.pending hs hw
  writing before t after i heq hw := by
    subst heq
    exact (hr.writes_in_time hs hp hw).2
  overdue i c line inbound f keeping deadline k hi hd hf more last hrun hu := by
    have hsound := hr.sound hs hover _ (List.mem_of_getElem? hi)
    have hlapsed : Lapsed h i c line inbound (.writing f keeping deadline k) :=
      ⟨hi, hsound, hd, fun ht => hf (Line.send_eq_sent.mpr ht)⟩
    obtain ⟨hquiet, line', inbound', outbound', hk⟩ := hr.lapses hs hlapsed hrun hu
    exact ⟨hquiet, fun hstill => hk.gone hrun hs hstill⟩
  rests := hr.comesToRest hs
  ends := ⟨h.load, fun more last hrun hw =>
    (Nat.le_add_right _ _).trans (hr.length_le_of_working hs hrun hw)⟩

end

/-- A client that was admitted reads nothing, and the second frame for it does not fit into its
transport; another one is asked for a credential and says nothing. -/
def standstill : List Action :=
  let note : DispatchRequest := ⟨.all, "note", .null, []⟩
  [.register known ⟨.pipe (.create 2), {}⟩, .move (.admission 0), .move .serve, .move (.admission 0),
    .move (.admission 0), .accept ⟨.pipe (.create 1), {}⟩, .move (.admission 1), .dispatch note,
    .dispatch note, .move .serve, .move .serve, .move (.outbound 0), .move (.outbound 0),
    .move (.outbound 0), .pass 10000 0]

theorem standstill_runs : (plain.trace standstill).isSome = true := by decide +kernel

def stoodStill : List Moment × Hub := (plain.trace standstill).get standstill_runs

/-- The write has run out of time, and the other client is still being admitted. -/
theorem stoodStill_timely : Timely plain stoodStill.1 stoodStill.2 ∧
    stoodStill.2.now = plain.settings.writeWait ∧
    stoodStill.2.writeDeadline? 0 = some stoodStill.2.now ∧
    (stoodStill.2.sessions[1]?.map Session.result?) = some none := by
  have htrace : plain.trace standstill = some stoodStill := (Option.some_get standstill_runs).symm
  have hpipe : ∀ t ∈ stoodStill.1, t.action.OverPipe := by
    intro t ht
    have haction : t.action ∈ standstill := map_action_trace htrace ▸ List.mem_map_of_mem ht
    have hall : ∀ a ∈ standstill, a.OverPipe := by
      simp [standstill, Action.OverPipe, Line.closeCalls?, Wire.closeCalls?, Pipe.create]
    exact hall t.action haction
  have hpaced : Paced stoodStill.1 := by decide +kernel
  exact ⟨(run_trace htrace).timely ⟨_, _, _, _, _, rfl⟩ hpipe hpaced, by decide +kernel,
    by decide +kernel, by decide +kernel⟩

end Hub

end PushHub
