import PushHub.Proofs.Hub.Enrolment

/-! How a connection keeps its place. While its session does not fail by itself, an entry stays one and
its mailbox stays open, unless the registry shuts down or admits another connection of the user. -/
namespace PushHub

open Registry (Handle Service Queued Command Membership Mailroom)

/-! ## Reasons of one's own -/

def Inbound.Fails : Inbound → Prop
  | .leaving exit => exit ≠ .mailboxClosed
  | .ended exit => exit ≠ .mailboxClosed
  | _ => False

def Outbound.Fails : Outbound → Prop
  | .closing exit => exit ≠ .mailboxClosed
  | .ended exit => exit ≠ .mailboxClosed
  | _ => False

/-- A session comes to its end for a reason of its own, and not because its mailbox was closed. -/
def Phase.Fails : Phase → Prop
  | .rejecting _ _ _ => True
  | .withdrawing _ _ => True
  | .refused _ => True
  | .admitted _ inbound outbound => inbound.Fails ∨ outbound.Fails
  | _ => False

instance : DecidablePred Inbound.Fails
  | .leaving exit => inferInstanceAs (Decidable (exit ≠ .mailboxClosed))
  | .ended exit => inferInstanceAs (Decidable (exit ≠ .mailboxClosed))
  | .running _ _ => inferInstanceAs (Decidable False)
  | .absent => inferInstanceAs (Decidable False)

instance : DecidablePred Outbound.Fails
  | .closing exit => inferInstanceAs (Decidable (exit ≠ .mailboxClosed))
  | .ended exit => inferInstanceAs (Decidable (exit ≠ .mailboxClosed))
  | .idle _ => inferInstanceAs (Decidable False)
  | .writing _ _ _ _ => inferInstanceAs (Decidable False)
  | .absent => inferInstanceAs (Decidable False)

instance : DecidablePred Phase.Fails
  | .rejecting _ _ _ => inferInstanceAs (Decidable True)
  | .withdrawing _ _ => inferInstanceAs (Decidable True)
  | .refused _ => inferInstanceAs (Decidable True)
  | .admitted _ inbound outbound => inferInstanceAs (Decidable (inbound.Fails ∨ outbound.Fails))
  | .prompting _ => inferInstanceAs (Decidable False)
  | .awaiting _ => inferInstanceAs (Decidable False)
  | .registering _ _ => inferInstanceAs (Decidable False)
  | .greeting _ _ => inferInstanceAs (Decidable False)

theorem Session.Works.fails {i : Nat} {v v' : Service} {s s' : Session} {m : Move}
    (hw : s.Works i v m v' s') (hf : s.phase.Fails) : s'.phase.Fails := by
  cases hw with
  | prompted => cases hf
  | unprompted => trivial
  | ignored => cases hf
  | unproved => trivial
  | asked => cases hf
  | granted => cases hf
  | denied => trivial
  | refused => trivial
  | released => trivial
  | greeted => cases hf
  | ungreeted => trivial
  | withdrawn => trivial
  | left => exact .inr (hf.resolve_left id)
  | heard => exact hf
  | unregistered => exact hf
  | took => exact .inl (hf.resolve_right id)
  | stopped => exact .inl (hf.resolve_right id)
  | pinging => exact hf
  | sent => exact hf
  | cut => exact .inl (hf.resolve_right id)
  | closed => exact hf

/-- The session of a connection has come to its end and left nothing to be told. -/
def Phase.Departed : Phase → Prop
  | .refused _ => True
  | .admitted _ inbound _ => inbound.Over
  | _ => False

/-- A session means what it says: it leaves because of its mailbox only if that is closed, and it has
its connection removed only when it is done. -/
structure Sincere (v : Service) (c : Handle) (p : Phase) : Prop where
  blamed : ∀ outbound, p = .admitted c (.leaving .mailboxClosed) outbound → v.Signalled c
  departed : v.Doomed c → p.Departed

namespace Sincere

variable {v v' : Service} {i : Nat} {c : Handle} {p : Phase}

theorem mono (hz : Sincere v c p) (hs : v.Signalled c → v'.Signalled c)
    (hd : v'.Doomed c → v.Doomed c) : Sincere v' c p where
  blamed outbound hp := hs (hz.blamed outbound hp)
  departed h := hz.departed (hd h)

theorem works {s s' : Session} {m : Move} (hz : Sincere v c s.phase)
    (hst : Standing v i c s.phase) (hw : s.Works i v m v' s') : Sincere v' c s'.phase := by
  obtain ⟨hblamed, hdeparted⟩ := hz
  cases hw with
  | prompted => cases hst
  | unprompted => cases hst
  | ignored => cases hst
  | unproved => cases hst
  | asked line h => exact ⟨nofun, fun hd => hdeparted (by simpa using hd)⟩
  | granted => exact ⟨nofun, hdeparted⟩
  | denied => exact ⟨nofun, hdeparted⟩
  | refused => exact ⟨nofun, fun _ => trivial⟩
  | released => exact ⟨nofun, fun _ => trivial⟩
  | greeted => exact ⟨nofun, hdeparted⟩
  | ungreeted => exact ⟨nofun, hdeparted⟩
  | withdrawn => exact ⟨nofun, fun _ => trivial⟩
  | left line line' h deadline followed exit outbound hl hx =>
    refine ⟨fun _ hp => ?_, hdeparted⟩
    cases hp
    exact hx rfl
  | heard => exact ⟨nofun, hdeparted⟩
  | unregistered => exact ⟨nofun, fun _ => trivial⟩
  | took line h inbound keepalive f rest deadline hs =>
    refine ⟨fun _ hp => ?_, hdeparted⟩
    cases hp
    exact absurd (hblamed _ rfl) (by simp [Service.Signalled, hs])
  | stopped =>
    refine ⟨fun _ hp => ?_, hdeparted⟩
    cases hp
    exact Service.signalled_close
  | pinging =>
    refine ⟨fun _ hp => ?_, hdeparted⟩
    cases hp
    exact hblamed _ rfl
  | sent =>
    refine ⟨fun _ hp => ?_, hdeparted⟩
    cases hp
    exact hblamed _ rfl
  | cut =>
    refine ⟨fun _ hp => ?_, hdeparted⟩
    cases hp
    exact Service.signalled_close
  | closed =>
    refine ⟨fun _ hp => ?_, hdeparted⟩
    cases hp
    exact Service.signalled_abandon.mpr (hblamed _ rfl)

end Sincere

/-! ## Open mailboxes -/

theorem Registry.Service.isClosed_eq_false {v : Service} {c : Handle} :
    v.members.isClosed c = false ↔ ¬v.Signalled c ∧ ¬v.Abandoned c := by
  unfold Membership.isClosed Mailbox.isClosed Service.Signalled Service.Abandoned
  simp

theorem Inbound.isClosed_perform (reactions : List Reaction) (room : Mailroom) (n k : Nat) :
    (Mailroom.mailbox (reactions.foldl (perform n) room) k).isClosed =
      (room.mailbox k).isClosed := by
  induction reactions generalizing room with
  | nil => rfl
  | cons r rest ih =>
    rw [List.foldl_cons, ih]
    cases r with
    | publish s => exact congrArg Mailbox.isClosed (Mailroom.mailbox_publish room n k s)
    | reply f =>
      show ((room.deliver n f.frame).1.mailbox k).isClosed = _
      rw [Mailroom.mailbox_deliver]
      split
      · exact Mailbox.isClosed_deliver _ _
      · rfl

theorem Standing.not_asked {v : Service} {i : Nat} {c : Handle} {p : Phase}
    (hst : Standing v i c p) (hl : v.Listed c) : ¬v.Asked c := by
  cases hst with
  | waiting ha hd hr hn => exact absurd hl hn
  | fresh ha => exact ha
  | granted ha => exact ha
  | denied ha => exact ha
  | greeting deadline ha => exact ha
  | withdrawing err ha => exact ha
  | rejecting why deadline ha => exact ha
  | refused why ha => exact ha
  | admitted inbound outbound ha => exact ha

theorem Persists.isOpen {v v' : Service} {i : Nat} {c : Handle} (hp : Persists v v' i c)
    (hopen : v.members.isClosed c = false) (hl : v'.Listed c) : v'.members.isClosed c = false := by
  obtain ⟨hsig, hab⟩ := Service.isClosed_eq_false.mp hopen
  refine Service.isClosed_eq_false.mpr ⟨fun hsig' => ?_, mt hp.abandoned.mp hab⟩
  rcases hp.cause hsig' with hbefore | ⟨hout, -⟩
  · exact hsig hbefore
  · exact hout hl

theorem Sincere.fails {v : Service} {i : Nat} {c : Handle} {p : Phase} (hz : Sincere v c p)
    (hst : Standing v i c p) (hopen : v.members.isClosed c = false) (hd : v.Doomed c) : p.Fails := by
  have hdeparted := hz.departed hd
  cases hst with
  | refused why => trivial
  | admitted inbound outbound ha hl hover =>
    exact absurd (hover hdeparted).1 (Service.isClosed_eq_false.mp hopen).1
  | rejecting why deadline => trivial
  | withdrawing err => trivial
  | _ => cases hdeparted

theorem Session.Works.spares {v v' : Service} {i : Nat} {c : Handle} {s s' : Session} {m : Move}
    (hw : s.Works i v m v' s') (hst : Standing v i c s.phase) (hz : Sincere v c s.phase)
    (hlen : c.endpoint < v.members.room.length) (hopen : v.members.isClosed c = false)
    (hf : ¬s'.phase.Fails) :
    v'.members.entries = v.members.entries ∧ v'.members.isClosed c = false := by
  have hnot := (Service.isClosed_eq_false.mp hopen).1
  cases hw with
  | prompted => cases hst
  | unprompted => cases hst
  | ignored => cases hst
  | unproved => cases hst
  | denied => exact absurd trivial hf
  | refused => exact absurd trivial hf
  | released => exact absurd trivial hf
  | ungreeted => exact absurd trivial hf
  | withdrawn => exact absurd trivial hf
  | heard line line' h deadline deadline' followed followed' reactions =>
    exact ⟨rfl, (Inbound.isClosed_perform reactions v.members.room _ _).trans hopen⟩
  | unregistered line line' h exit outbound =>
    cases hst
    -- A loop that ends without a failure blames its mailbox, which is open.
    have hexit : exit = .mailboxClosed := by
      by_contra hne
      exact hf (.inl hne)
    subst hexit
    exact absurd (hz.blamed _ rfl) hnot
  | took line h inbound keepalive f rest deadline hs hq =>
    cases hst
    refine ⟨rfl, ?_⟩
    unfold Membership.isClosed at hopen ⊢
    rw [Service.mailbox_setMailbox hlen]
    exact hopen
  | stopped line h inbound keepalive exit hs =>
    cases hst
    exact absurd hs hnot
  | cut line line' h inbound keepalive f keeping deadline exit hl hsend hx =>
    exact absurd (.inr hx) hf
  | closed =>
    cases hst with
    | admitted inbound outbound ha hl hi ho => exact absurd (ho trivial) hnot
  | _ => exact ⟨rfl, hopen⟩

/-! ## The entry of a user -/

namespace Hub

structure Holds (h : Hub) (c : Handle) : Prop where
  entry : h.service.members.find? c.user = some c
  isOpen : h.service.members.isClosed c = false

section

variable {start h h' : Hub} {ms before after : List Moment} {t : Moment} {a : Action}
  {conns : List (Nat × Handle)} {c : Handle} {i : Nat} {s s' : Session}

theorem Turn.sincere (ht : h.Turn i s a h' s') (hl : Ledger conns h)
    (hn : conns.length ≤ UInt64.size) (hc : (i, c) ∈ conns) (ha : h.act a = some h')
    (hs : h.sessions[i]? = some s) (hst : Standing h.service i c s.phase)
    (hz : Sincere h.service c s.phase) : Sincere h'.service c s'.phase := by
  by_cases hne : Moment.registers? ⟨h, a, h'⟩ = some c
  · rw [Moment.registers?_eq] at hne
    obtain ⟨q, hq, hcommand⟩ := Option.bind_eq_some_iff.mp hne
    obtain ⟨rest, hqueue, hafter⟩ := after_of_serves ha hq
    obtain ⟨haction, -⟩ := Moment.serves?_eq_some.mp hq
    dsimp only at hqueue hafter haction
    subst haction
    cases ht with
    | own m d s' hm => cases hm
    | other a h' ha hi =>
      subst hafter
      refine hz.mono (fun hsig => ?_) fun ⟨p, hp, hd⟩ => ?_
      · unfold Service.Signalled at hsig ⊢
        dsimp only
        rw [Service.members_serve hqueue]
        exact (h.service.members.extends_handle q.command c.endpoint).signalled hsig
      · dsimp only at hp
        rw [Service.queue_serve hqueue] at hp
        exact ⟨p, hqueue ▸ List.mem_cons_of_mem q hp, hd⟩
  · rcases ht.persists hl hn hc hs hne with ⟨m, -, hw⟩ | ⟨hphase, hp⟩
    · exact hz.works hst hw
    · rw [hphase]
      exact hz.mono hp.signalled hp.doomed

theorem Turn.fails (ht : h.Turn i s a h' s') (hl : Ledger conns h) (hf : s.phase.Fails) :
    s'.phase.Fails := by
  cases ht with
  | own m d s' hm hmove =>
    rcases Session.works_of_move hl.running hm hmove with
      ⟨hw, -⟩ | ⟨line, line', deadline, u, -, rfl, -⟩
    · exact hw.fails hf
    · cases hf
  | client b => exact hf
  | other a h' ha hi => exact hf

theorem Run.sincere (hr : Run start ms h) (hs : start.Fresh)
    (hn : (connections ms).length ≤ UInt64.size) (hc : (i, c) ∈ connections ms) :
    ∃ s, h.sessions[i]? = some s ∧ Standing h.service i c s.phase ∧
      Sincere h.service c s.phase := by
  obtain ⟨s, hi, hst⟩ := (hr.situated hs hn).standing i c hc
  refine ⟨s, hi, hst, ?_⟩
  obtain ⟨t, ht, hallotted⟩ := List.mem_filterMap.mp hc
  obtain ⟨before, after, rfl⟩ := List.append_of_mem ht
  have hfew (first rest : List Moment) (heq : after = first ++ rest) :
      (connections (before ++ t :: first)).length ≤ UInt64.size := by
    subst heq
    rw [← List.cons_append, ← List.append_assoc] at hn
    exact Nat.le_trans length_connections_le hn
  have hknown (first : List Moment) : (i, c) ∈ connections (before ++ t :: first) :=
    List.mem_filterMap.mpr ⟨t, by simp, hallotted⟩
  have hz := hr.since
    (P := fun h => ∃ s, h.sessions[i]? = some s ∧ Sincere h.service c s.phase) ?_ ?_
  · obtain ⟨s', hi', hz⟩ := hz
    cases hi.symm.trans hi'
    exact hz
  · -- At first nothing is queued about the connection.
    obtain ⟨hbefore, hact⟩ := hr.split
    have hrun := hbefore.snoc hact
    obtain ⟨s', hi', hst'⟩ := (hrun.situated hs (hfew [] after rfl)).standing i c (hknown [])
    refine ⟨s', hi', ?_⟩
    have hphase : s'.phase = .registering c false := by
      obtain ⟨j, -, hj⟩ := Option.bind_eq_some_iff.mp hallotted
      split at hj
      · rename_i hphase
        cases hj
        rw [hi'] at hphase
        exact Option.some.inj hphase
      · cases hj
    rw [hphase] at hst' ⊢
    cases hst' with
    | fresh ha hd => exact ⟨nofun, fun h => absurd h hd⟩
  · -- Neither the session nor anyone else takes this back.
    intro first u rest heq hrun hact ⟨s, hi, hz⟩
    have hl := hrun.ledger hs
    have hn' := hfew first (u :: rest) heq
    obtain ⟨s₁, hi₁, hst⟩ := (hrun.situated hs hn').standing i c (hknown first)
    cases hi.symm.trans hi₁
    obtain ⟨s', hi', hturn⟩ := turn_of_act hi hact
    exact ⟨s', hi', hturn.sincere hl hn' (hknown first) hact hi hst hz⟩

/-- The registry handles nothing by which a connection of user `u` would have to give up its place. -/
def Moment.Spares (t : Moment) (u : UserId) : Prop :=
  ∀ q, t.serves? = some q → q.command ≠ .shutdown ∧ ∀ d, q.command = .register d → d.user = u →
    ∀ r, (t.before.service.members.handle q.command).reply ≠ some (.registered (.ok r))

theorem Holds.idle (hh : h.Holds c) (hl : Ledger conns h) (hn : conns.length ≤ UInt64.size)
    (hc : (i, c) ∈ conns) (hs : h.sessions[i]? = some s) (hst : Standing h.service i c s.phase)
    (hz : Sincere h.service c s.phase) (ha : h.Acts a h') (ht : h.Turn i s a h' s')
    (hf : ¬s'.phase.Fails) (hserves : Moment.serves? ⟨h, a, h'⟩ = none) : h'.Holds c := by
  obtain ⟨hentry, hopen⟩ := hh
  have hfind : h'.service.members.find? c.user = some c := by
    unfold Membership.find? at hentry ⊢
    rw [ha.entries_of_idle hserves]
    exact hentry
  refine ⟨hfind, ?_⟩
  have hne : Moment.registers? ⟨h, a, h'⟩ ≠ some c := by
    rw [Moment.registers?_eq, hserves]
    nofun
  rcases ht.persists hl hn hc hs hne with ⟨m, -, hw⟩ | ⟨-, hp⟩
  · exact (hw.spares hst hz (hl.lt_length hc) hopen hf).2
  · exact hp.isOpen hopen (Membership.mem_of_find? hfind)

theorem Holds.served {q : Queued} (hh : h.Holds c) (hl : Ledger conns h)
    (hn : conns.length ≤ UInt64.size) (hc : (i, c) ∈ conns) (hst : Standing h.service i c s.phase)
    (hz : Sincere h.service c s.phase) (ha : h.act a = some h') (hf : ¬s.phase.Fails)
    (hq : Moment.Spares ⟨h, a, h'⟩ c.user) (hserves : Moment.serves? ⟨h, a, h'⟩ = some q) :
    h'.Holds c := by
  obtain ⟨hentry, hopen⟩ := hh
  have hlisted : h.service.Listed c := Membership.mem_of_find? hentry
  obtain ⟨rest, hqueue, hafter⟩ := after_of_serves ha hserves
  obtain ⟨haction, -⟩ := Moment.serves?_eq_some.mp hserves
  dsimp only at hqueue hafter haction
  obtain ⟨hshutdown, hregister⟩ := hq q hserves
  have hmem : q ∈ h.service.queue := hqueue ▸ List.mem_cons_self
  have hfind : h'.service.members.find? c.user = some c := by
    rw [hafter]
    show h.service.serve.members.find? c.user = some c
    rw [Service.members_serve hqueue]
    refine ((Membership.handles_handle _ q.command).find?_kept hl.keyed (hl.tells hn hmem)
      hregister fun g hg hd => ?_).trans hentry
    cases hentry.symm.trans hg
    generalize hcommand : q.command = command at hd hshutdown
    cases hd with
    | unregistered => exact hf (hz.fails hst hopen ⟨q, hmem, hcommand⟩)
    | swept hclosed =>
      rw [hopen] at hclosed
      cases hclosed
    | ended => exact hshutdown rfl
  have hne : Moment.registers? ⟨h, a, h'⟩ ≠ some c := by
    intro hregisters
    have hasked : h.service.Asked c := by
      unfold Service.Asked
      rw [Service.asking_eq, hqueue]
      rw [Moment.registers?_of_serves hserves] at hregisters
      exact List.mem_filterMap.mpr ⟨q, List.mem_cons_self, hregisters⟩
    exact hst.not_asked hlisted hasked
  have hp := (acts_of_act hl.running ha).persists hl hn hc (by rw [haction]; nofun) hne
  exact ⟨hfind, hp.isOpen hopen (Membership.mem_of_find? hfind)⟩

theorem Holds.act (hh : h.Holds c) (hl : Ledger conns h) (hn : conns.length ≤ UInt64.size)
    (hc : (i, c) ∈ conns) (hs : h.sessions[i]? = some s) (hst : Standing h.service i c s.phase)
    (hz : Sincere h.service c s.phase) (ha : h.act a = some h') (ht : h.Turn i s a h' s')
    (hf : ¬s'.phase.Fails) (hq : Moment.Spares ⟨h, a, h'⟩ c.user) : h'.Holds c := by
  cases hserves : Moment.serves? ⟨h, a, h'⟩ with
  | none => exact hh.idle hl hn hc hs hst hz (acts_of_act hl.running ha) ht hf hserves
  | some q => exact hh.served hl hn hc hst hz ha (mt (ht.fails hl) hf) hq hserves

theorem Run.holds_after (hr : Run start (ms ++ [t]) h) (hs : start.Fresh)
    (hn : (connections ms).length ≤ UInt64.size) (hc : (i, c) ∈ connections ms)
    (hq : t.Spares c.user)
    (hbefore : (∀ s, t.before.sessions[i]? = some s → ¬s.phase.Fails) → t.before.Holds c) :
    (∀ s, t.after.sessions[i]? = some s → ¬s.phase.Fails) → t.after.Holds c := by
  intro hlive
  obtain ⟨hrun, hact⟩ := hr.split
  have hl := hrun.ledger hs
  obtain ⟨s, hi, hst, hz⟩ := hrun.sincere hs hn hc
  obtain ⟨s', hi', hturn⟩ := turn_of_act hi hact
  have hf := hlive s' hi'
  have hheld : t.before.Holds c := by
    refine hbefore fun r hr hfails => ?_
    cases hi.symm.trans hr
    exact hf (hturn.fails hl hfails)
  exact hheld.act hl hn hc hi hst hz hact hturn hf hq

/-- An entry keeps its place to the end of a run in which its session does not fail and nobody takes
the place. -/
theorem Run.holds (hr : Run start (before ++ t :: after) h) (hs : start.Fresh)
    (hn : (connections (before ++ t :: after)).length ≤ UInt64.size)
    (hc : (i, c) ∈ connections before) (hh : t.before.Holds c)
    (hlive : ∀ s, h.sessions[i]? = some s → ¬s.phase.Fails)
    (hq : ∀ u ∈ t :: after, u.Spares c.user) : h.Holds c := by
  obtain ⟨hbefore, hact⟩ := hr.split
  refine hr.since (P := fun h => (∀ s, h.sessions[i]? = some s → ¬s.phase.Fails) → h.Holds c)
    ?_ (fun first u rest heq hrun hact hp => ?_) hlive
  · exact (hbefore.snoc hact).holds_after hs (Nat.le_trans length_connections_le hn) hc
      (hq t List.mem_cons_self) fun _ => hh
  · subst heq
    rw [← List.cons_append, ← List.append_assoc] at hn
    refine (hrun.snoc hact).holds_after hs (Nat.le_trans length_connections_le hn)
      (mem_connections_append hc _) (hq u ?_) hp
    exact List.mem_cons_of_mem t (List.mem_append_right first List.mem_cons_self)

end

end Hub

end PushHub
