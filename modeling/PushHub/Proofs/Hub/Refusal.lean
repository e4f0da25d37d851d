import PushHub.Proofs.Hub.Closing
import PushHub.Proofs.Hub.Keeping

/-! What is left of an attempt to be admitted that fails. Its transport is closed, its connection is
removed if it ever was an entry, and the others keep their places. Only where the attempt got as far
as being admitted, and could not be greeted, has an older connection of the same user made way. -/
namespace PushHub

open Registry (Handle Service Queued Command Membership)

/-! ## Refused after having been admitted -/

section

variable {i : Nat} {v v' : Service} {s s' : Session} {m : Move}

theorem Session.Works.not_rejecting (hw : s.Works i v m v' s')
    (hs : ∀ err deadline n, s.phase ≠ .rejecting (.transport err) deadline n) :
    ∀ err deadline n, s'.phase ≠ .rejecting (.transport err) deadline n := by
  cases hw <;> nofun

theorem Session.Works.granted_of_refused {err : TransportError} (hw : s.Works i v m v' s')
    (hs : ∀ err deadline n, s.phase ≠ .rejecting (.transport err) deadline n)
    (hp : s'.phase = .refused (.transport err)) : ∃ c, s.phase.granted? = some c := by
  cases hw with
  | refused line line' why deadline =>
    cases hp
    exact absurd rfl (hs err deadline none)
  | released line line' why deadline n =>
    cases hp
    exact absurd rfl (hs err deadline (some n))
  | withdrawn line line' c => exact ⟨c, rfl⟩
  | _ => cases hp

end

namespace Hub

section

variable {start h h' : Hub} {ms before after : List Moment} {t : Moment} {a : Action} {c d : Handle}
  {i j : Nat} {line : Line} {s : Session} {err : TransportError}

theorem Run.refused_granted (hr : Run start ms h) (hs : start.Fresh) (hi : h.sessions[i]? = some s)
    (hp : s.phase = .refused (.transport err)) : ∃ c, ∃ t ∈ ms, t.Grants i c := by
  obtain ⟨o, ho⟩ := hr.opening_of_lt hs (List.getElem?_eq_some_iff.mp hi).1
  have hall := hr.along (P := fun ms _ s =>
    (∀ err deadline n, s.phase ≠ .rejecting (.transport err) deadline n) ∧
      ∀ err, s.phase = .refused (.transport err) → ∃ c, ∃ t ∈ ms, t.Grants i c) hs ho ?_ ?_
  · obtain ⟨s', hi', -, hgranted⟩ := hall
    cases hi.symm.trans hi'
    exact hgranted err hp
  · intro ms h h' a s hr ha hlen hopens
    cases hopens <;> exact ⟨nofun, nofun⟩
  · intro ms h h' a s s' hr ha ho hi hi' hturn ⟨hrejecting, hrefused⟩
    have hearlier (hold : ∃ c, ∃ t ∈ ms, t.Grants i c) :
        ∃ c, ∃ t ∈ ms ++ [⟨h, a, h'⟩], t.Grants i c := by
      obtain ⟨c, t, ht, hg⟩ := hold
      exact ⟨c, t, List.mem_append_left _ ht, hg⟩
    have hsame (hphase : s'.phase = s.phase) :
        (∀ err deadline n, s'.phase ≠ .rejecting (.transport err) deadline n) ∧
          ∀ err, s'.phase = .refused (.transport err) →
            ∃ c, ∃ t ∈ ms ++ [⟨h, a, h'⟩], t.Grants i c :=
      hphase ▸ ⟨hrejecting, fun err hp => hearlier (hrefused err hp)⟩
    cases hturn with
    | own m d s' hm hmove =>
      rcases Session.works_of_move (hr.ledger hs).running hm hmove with
        ⟨hw, -⟩ | ⟨line, line', deadline, u, -, -, heq⟩
      · refine ⟨hw.not_rejecting hrejecting, fun err hp => hearlier ?_⟩
        obtain ⟨c, hc⟩ := hw.granted_of_refused hrejecting hp
        obtain ⟨r, hir, hgranted⟩ := hr.granted hs ho
        cases hi.symm.trans hir
        obtain ⟨t, ht, hg⟩ := hgranted c hc
        exact ⟨c, t, ht, hg⟩
      · cases heq
        exact ⟨nofun, nofun⟩
    | client b => exact hsame rfl
    | other a h' ha hne => exact hsame rfl

theorem Run.transport_of_granted {why : AdmitError} (hr : Run start ms h) (hs : start.Fresh)
    (hn : (connections ms).length ≤ UInt64.size) (ht : t ∈ ms) (hg : t.Grants i c)
    (hi : h.sessions[i]? = some s) (hp : s.phase = .refused why) : ∃ err, why = .transport err := by
  obtain ⟨before, after, rfl⟩ := List.append_of_mem ht
  obtain ⟨s', hi', hpast⟩ := hr.past hs hn hg
  cases hi.symm.trans hi'
  rw [hp] at hpast
  cases hpast with
  | refused err => exact ⟨err, rfl⟩

/-! ## Giving up a place -/

theorem Run.not_again (hr : Run start (before ++ after) h) (hs : start.Fresh)
    {g : Hub} (hbefore : Run start before g) (hc : c ∈ g.service.members.entries) :
    ∀ u ∈ after, u.registers? ≠ some c := by
  obtain ⟨j, t, ht, hg⟩ := hbefore.entry_granted hs hc
  obtain ⟨first, rest, rfl⟩ := List.append_of_mem ht
  intro u hu
  rw [List.append_assoc, List.cons_append] at hr
  exact hr.registered_once hs hg.registers? u (List.mem_append_right rest hu)

theorem Run.isClosed_of_gone (hr : Run start ms t.before) (hs : start.Fresh)
    (ha : t.before.act t.action = some t.after) (hn : (connections ms).length ≤ UInt64.size)
    (hc : (i, c) ∈ connections ms) (hne : t.registers? ≠ some c)
    (hin : c ∈ t.before.service.members.entries) (hout : c ∉ t.after.service.members.entries) :
    t.after.service.members.isClosed c = true := by
  have hl := hr.ledger hs
  obtain ⟨s, hi, -⟩ := (hr.situated hs hn).standing i c hc
  obtain ⟨s', -, hturn⟩ := turn_of_act hi ha
  rcases hturn.persists hl hn hc hi hne with ⟨m, -, hw⟩ | ⟨-, hp⟩
  · rw [(hw.confined (hl.fits i s hi)).entries] at hout
    exact absurd hin hout
  · have hleft := hp.left hin hout
    by_contra hopen
    obtain ⟨hsig, hab⟩ := Service.isClosed_eq_false.mp (Bool.eq_false_iff.mpr hopen)
    exact hleft.elim hsig hab

theorem Run.listed_or_closed (hr : Run start (before ++ t :: after) h) (hs : start.Fresh)
    (hn : (connections (before ++ t :: after)).length ≤ UInt64.size)
    (hc : (i, c) ∈ connections before) (hl : c ∈ t.before.service.members.entries) :
    c ∈ h.service.members.entries ∨ h.service.members.isClosed c = true := by
  obtain ⟨hbefore, hact⟩ := hr.split
  have hagain := hr.not_again hs hbefore hl
  refine hr.since (P := fun h => c ∈ h.service.members.entries ∨
    h.service.members.isClosed c = true) ?_ fun first u rest heq hrun ha hp => ?_
  · by_cases hin : c ∈ t.after.service.members.entries
    · exact .inl hin
    · exact .inr (hbefore.isClosed_of_gone hs hact (Nat.le_trans length_connections_le hn) hc
        (hagain t List.mem_cons_self) hl hin)
  · subst heq
    rw [← List.cons_append, ← List.append_assoc] at hn
    have hc' := mem_connections_append hc (t :: first)
    by_cases hin : c ∈ u.after.service.members.entries
    · exact .inl hin
    refine .inr (hp.elim (fun hbefore => ?_) fun hclosed => ?_)
    · exact hrun.isClosed_of_gone hs ha (Nat.le_trans length_connections_le hn) hc'
        (hagain u (by simp)) hbefore hin
    · exact (hrun.snoc ha).isClosed_after hs hc' hclosed

theorem Run.made_way (hr : Run start (before ++ t :: after) h) (hs : start.Fresh)
    (hn : (connections (before ++ t :: after)).length ≤ UInt64.size) (hg : t.Grants i d)
    (hne : c ≠ d) (hu : d.user = c.user) (hc : ∀ u ∈ after, u.registers? ≠ some c) :
    c ∉ h.service.members.entries := by
  obtain ⟨hbefore, hact⟩ := hr.split
  have hl := hbefore.ledger hs
  have hout : c ∉ t.after.service.members.entries := by
    intro hin
    have hkeyed := ((hbefore.snoc hact).ledger hs).keyed
    obtain ⟨entry, hentry, -, heq⟩ := hg.entry hl hact
    rw [heq (Nat.le_trans length_connections_le hn), hu] at hentry
    exact hne (Option.some.inj ((hkeyed.find?_eq_some.mpr hin).symm.trans hentry))
  refine hr.since (P := fun h => c ∉ h.service.members.entries) hout
    fun first u rest heq hrun ha hp hin => ?_
  cases hq : u.serves? with
  | none => exact hp ((acts_of_act (hrun.ledger hs).running ha).entries_of_idle hq ▸ hin)
  | some q =>
    obtain ⟨more, hqueue, hafter⟩ := after_of_serves ha hq
    rw [hafter] at hin
    change c ∈ u.before.service.serve.members.entries at hin
    rw [Service.members_serve hqueue] at hin
    rcases Membership.mem_entries_handle hin with hold | hcommand
    · exact hp hold
    · refine hc u (by simp [heq]) ?_
      rw [Moment.registers?_of_serves hq, hcommand]
      rfl

end

/-! ## A refusal -/

def served (ms : List Moment) : List Queued := ms.filterMap Moment.serves?

/-- The registry handles no shutdown, and of the registrations for a user only one of session `i`. -/
def Undisturbed (i : Nat) (u : UserId) (ms : List Moment) : Prop :=
  ∀ q ∈ served ms, q.command ≠ .shutdown ∧
    ∀ d, q.command = .register d → d.user = u → q.ticket = some i

/-- What there is to say of the attempt that began at `t` with a transport and was refused. -/
structure Refusal (before : List Moment) (t : Moment) (after : List Moment) (h : Hub) (i : Nat)
    (line : Line) (why : AdmitError) : Prop where
  /-- The connection, if it came to one, is no entry; after a greeting that failed, no longer than its
  removal is queued. -/
  withdrawn : ∀ d, (i, d) ∈ connections (before ++ t :: after) → d ∈ h.service.members.entries →
    (∃ err, why = .transport err) ∧ h.service.Doomed d
  closed : ∃ s, h.sessions[i]? = some s ∧ line.Comes 1 s.line ∧
    s.line.closeCalls? = line.closeCalls?.map (· + 1) ∧ s.line.wire.isShut = true
  kept : ∀ j c, (j, c) ∈ connections before → t.before.Holds c →
    (∀ s, h.sessions[j]? = some s → ¬s.phase.Fails) → Undisturbed i c.user after →
    (∀ err d, why = .transport err → (i, d) ∈ connections (before ++ t :: after) →
      d.user ≠ c.user) →
    h.Holds c
  superseded : ∀ j c, (j, c) ∈ connections before → t.before.Holds c → ∀ err d,
    why = .transport err → (i, d) ∈ connections (before ++ t :: after) → d.user = c.user →
    c ∉ h.service.members.entries ∧ h.service.members.isClosed c = true

section

variable {start h : Hub} {before after : List Moment} {t : Moment} {c d : Handle} {i j : Nat}
  {line : Line} {s : Session} {why : AdmitError}

theorem serves?_of_handed (ht : t.handed? = some (i, line)) : t.serves? = none := by
  obtain ⟨h, a, h'⟩ := t
  cases a with
  | move m => cases ht
  | _ => rfl

theorem Run.closed_once (hr : Run start (before ++ t :: after) h) (hs : start.Fresh)
    (ht : t.handed? = some (i, line)) (hi : h.sessions[i]? = some s)
    (hp : s.phase = .refused why) : line.Comes 1 s.line ∧
      s.line.closeCalls? = line.closeCalls?.map (· + 1) ∧ s.line.wire.isShut = true := by
  obtain ⟨s', hi', hcomes⟩ := hr.comes ht
  cases hi.symm.trans hi'
  have hone : s.phase.closings = 1 := by rw [hp]; rfl
  rw [hone] at hcomes
  exact ⟨hcomes, hcomes.closeCalls?, (hr.converses hs).done i s hi hone⟩

theorem Run.withdrawn (hr : Run start (before ++ t :: after) h) (hs : start.Fresh)
    (hn : (connections (before ++ t :: after)).length ≤ UInt64.size)
    (hi : h.sessions[i]? = some s) (hp : s.phase = .refused why)
    (hd : (i, d) ∈ connections (before ++ t :: after)) (hin : d ∈ h.service.members.entries) :
    (∃ err, why = .transport err) ∧ h.service.Doomed d := by
  have hl := hr.ledger hs
  obtain ⟨k, g, hg, hgrants⟩ := hr.entry_granted hs hin
  have hk := hr.connection_of_served hs hg hgrants.serves?
  obtain ⟨rfl, -⟩ := hl.eq_of_endpoint hk hd rfl
  refine ⟨hr.transport_of_granted hs hn hg hgrants hi hp, ?_⟩
  obtain ⟨s', hi', hst⟩ := (hr.situated hs hn).standing k d hd
  cases hi.symm.trans hi'
  rw [hp] at hst
  cases hst with
  | refused why ha hdoomed => exact hdoomed hin

theorem Run.kept_of_refused (hr : Run start (before ++ t :: after) h) (hs : start.Fresh)
    (hn : (connections (before ++ t :: after)).length ≤ UInt64.size)
    (ht : t.handed? = some (i, line)) (hi : h.sessions[i]? = some s)
    (hp : s.phase = .refused why) (hc : (j, c) ∈ connections before) (hh : t.before.Holds c)
    (hlive : ∀ s, h.sessions[j]? = some s → ¬s.phase.Fails) (hq : Undisturbed i c.user after)
    (hother : ∀ err d, why = .transport err → (i, d) ∈ connections (before ++ t :: after) →
      d.user ≠ c.user) : h.Holds c := by
  refine hr.holds hs hn hc hh hlive fun u hu q hserves => ?_
  rcases List.mem_cons.mp hu with rfl | hlater
  · cases hserves.symm.trans (serves?_of_handed ht)
  obtain ⟨hshutdown, hregister⟩ := hq q (List.mem_filterMap.mpr ⟨u, hlater, hserves⟩)
  refine ⟨hshutdown, fun d hcommand huser r hreply => ?_⟩
  -- It would be the attempt itself that is admitted, for this user.
  obtain ⟨command, ticket⟩ := q
  obtain rfl : ticket = some i := hregister d hcommand huser
  obtain rfl : command = .register d := hcommand
  obtain ⟨haction, rest, hqueue⟩ := Moment.serves?_eq_some.mp hserves
  have hgrants : u.Grants i d := ⟨haction, congrArg List.head? hqueue, r, hreply⟩
  have hmem : u ∈ before ++ t :: after := List.mem_append_right before hu
  obtain ⟨err, hwhy⟩ := hr.transport_of_granted hs hn hmem hgrants hi hp
  exact hother err d hwhy (hr.connection_of_served hs hmem hserves) huser

theorem Run.superseded_of_refused {err : TransportError}
    (hr : Run start (before ++ t :: after) h) (hs : start.Fresh)
    (hn : (connections (before ++ t :: after)).length ≤ UInt64.size)
    (ht : t.handed? = some (i, line)) (hi : h.sessions[i]? = some s)
    (hp : s.phase = .refused (.transport err)) (hc : (j, c) ∈ connections before)
    (hh : t.before.Holds c) (hd : (i, d) ∈ connections (before ++ t :: after))
    (hu : d.user = c.user) :
    c ∉ h.service.members.entries ∧ h.service.members.isClosed c = true := by
  obtain ⟨hbefore, hact⟩ := hr.split
  have hl := hr.ledger hs
  have hlisted := Membership.mem_of_find? hh.entry
  have hlen := (comes_of_handed ht hact).1
  have hunknown (e : Handle) : (i, e) ∉ connections before := by
    intro he
    have := (hbefore.ledger hs).held i e he
    omega
  have hne : c ≠ d := by
    rintro rfl
    obtain ⟨rfl, -⟩ := hl.eq_of_endpoint (mem_connections_append hc _) hd rfl
    exact hunknown c hc
  obtain ⟨e, g, hg, hgrants⟩ := hr.refused_granted hs hi hp
  have hout : c ∉ h.service.members.entries := by
    rcases List.mem_append.mp hg with hearly | hlate
    · -- The session was not there yet.
      exact absurd (hbefore.connection_of_served hs hearly hgrants.serves?) (hunknown e)
    rcases List.mem_cons.mp hlate with rfl | hlater
    · cases hgrants.serves?.symm.trans (serves?_of_handed ht)
    obtain ⟨first, rest, rfl⟩ := List.append_of_mem hlater
    have hagain := hr.not_again hs hbefore hlisted
    rw [← List.cons_append, ← List.append_assoc] at hr hn hd hl
    have he := hr.connection_of_served hs (List.mem_append_right _ List.mem_cons_self) hgrants.serves?
    obtain rfl := hl.eq_of_session hd he
    exact hr.made_way hs hn hgrants hne hu fun u hmem => hagain u (by simp [hmem])
  exact ⟨hout, (hr.listed_or_closed hs hn hc hlisted).resolve_left hout⟩

/-- A failed admission leaves other connections alone, but for one of the same user that made way before
the greeting failed. Numbers are words, so those of more than `UInt64.size` connections would not tell
them apart. -/
theorem Run.refusal (hr : Run start (before ++ t :: after) h) (hs : start.Fresh)
    (hn : (connections (before ++ t :: after)).length ≤ UInt64.size)
    (ht : t.handed? = some (i, line)) (hi : h.sessions[i]? = some s)
    (hwhy : s.result? = some (.error why)) : Refusal before t after h i line why := by
  have hp : s.phase = .refused why := by
    unfold Session.result? at hwhy
    split at hwhy
    · cases hwhy
    · rename_i hp
      cases hwhy
      exact hp
    · cases hwhy
  refine ⟨fun d => hr.withdrawn hs hn hi hp, ⟨s, hi, hr.closed_once hs ht hi hp⟩,
    fun j c => hr.kept_of_refused hs hn ht hi hp, ?_⟩
  rintro j c hc hh err d rfl
  exact hr.superseded_of_refused hs hn ht hi hp hc hh

end

/-- Two users are connected when a second transport comes for the first of them. Its client is gone
before it can be greeted. -/
def vainCall : List Action :=
  let line : Line := ⟨.pipe (.create 8), {}⟩
  let deserted : Line := ⟨.pipe (Pipe.create 8).dropPeer, {}⟩
  [.register ⟨43, by decide⟩ line, .move (.admission 0), .move .serve, .move (.admission 0),
    .move (.admission 0), .register ⟨44, by decide⟩ line, .move (.admission 1), .move .serve,
    .move (.admission 1), .move (.admission 1), .register ⟨43, by decide⟩ deserted,
    .move (.admission 2), .move .serve, .move (.admission 2), .move (.admission 2),
    .move (.admission 2), .move .serve]

theorem vainCall_runs : (plain.trace vainCall).isSome = true := by decide +kernel

def calledInVain : List Moment × Hub := (plain.trace vainCall).get vainCall_runs

theorem trace_vainCall : plain.trace vainCall = some calledInVain :=
  (Option.some_get vainCall_runs).symm

theorem calledInVain_eq : calledInVain.1 =
    calledInVain.1.take 10 ++ calledInVain.1[10] :: calledInVain.1.drop 11 := by
  rw [List.getElem_cons_drop, List.take_append_drop]

theorem refusal_vainCall :
    Refusal (calledInVain.1.take 10) calledInVain.1[10] (calledInVain.1.drop 11) calledInVain.2 2
      ⟨.pipe (Pipe.create 8).dropPeer, {}⟩ (.transport .closed) ∧
    calledInVain.2.Holds ⟨⟨2⟩, ⟨44, by decide⟩, 1⟩ ∧
    calledInVain.2.service.members.isClosed ⟨⟨1⟩, ⟨43, by decide⟩, 0⟩ = true ∧
    calledInVain.2.service.members.entries = [⟨⟨2⟩, ⟨44, by decide⟩, 1⟩] := by
  have hconns : connections (calledInVain.1.take 10 ++
      calledInVain.1[10] :: calledInVain.1.drop 11) =
      [(0, ⟨⟨1⟩, ⟨43, by decide⟩, 0⟩), (1, ⟨⟨2⟩, ⟨44, by decide⟩, 1⟩),
        (2, ⟨⟨3⟩, ⟨43, by decide⟩, 2⟩)] := by
    rw [← calledInVain_eq]
    decide +kernel
  have hserved : served (calledInVain.1.drop 11) =
      [⟨.register ⟨⟨3⟩, ⟨43, by decide⟩, 2⟩, some 2⟩,
        ⟨.unregister ⟨⟨3⟩, ⟨43, by decide⟩, 2⟩, none⟩] := rfl
  have hr := run_trace trace_vainCall
  rw [calledInVain_eq] at hr
  have hhanded : calledInVain.1[10].handed? = some (2, ⟨.pipe (Pipe.create 8).dropPeer, {}⟩) := rfl
  have hlast : calledInVain.2.sessions[2]? = some calledInVain.2.sessions[2] := rfl
  have hwhy : calledInVain.2.sessions[2].result? = some (.error (.transport .closed)) := rfl
  have hrefusal := hr.refusal ⟨_, _, _, _, _, rfl⟩ (by rw [hconns]; decide) hhanded hlast hwhy
  refine ⟨hrefusal, ?_, by decide +kernel, by decide +kernel⟩
  refine hrefusal.kept 1 ⟨⟨2⟩, ⟨44, by decide⟩, 1⟩ (by decide +kernel)
    ⟨by decide +kernel, by decide +kernel⟩ ?_ ?_ ?_
  · intro s hs
    have hphase : ¬calledInVain.2.sessions[1].phase.Fails := by decide +kernel
    cases hs
    exact hphase
  · intro q hq
    rw [hserved] at hq
    rcases List.mem_cons.mp hq with rfl | hq
    · exact ⟨nofun, fun _ _ _ => rfl⟩
    · rw [List.mem_singleton.mp hq]
      exact ⟨nofun, nofun⟩
  · intro err d _ hd
    rw [hconns] at hd
    obtain rfl : d = ⟨⟨3⟩, ⟨43, by decide⟩, 2⟩ := by simpa using hd
    decide

/-- In the same run no call is made while the second transport is refused, and no other session fails.
The first connection of the user has lost its place all the same. -/
theorem not_all_kept_of_refused :
    ¬∀ (start h : Hub) (before after : List Moment) (t : Moment) (i : Nat) (line : Line)
      (s : Session) (why : AdmitError), Run start (before ++ t :: after) h → start.Fresh →
      t.handed? = some (i, line) → h.sessions[i]? = some s → s.result? = some (.error why) →
      (∀ u ∈ after, ∃ m, u.action = .move m) →
      (∀ (j : Nat) (r : Session), j ≠ i → h.sessions[j]? = some r → ¬r.phase.Fails) →
      ∀ c, t.before.Holds c → h.Holds c := by
  intro hall
  have hr := run_trace trace_vainCall
  rw [calledInVain_eq] at hr
  have hhanded : calledInVain.1[10].handed? = some (2, ⟨.pipe (Pipe.create 8).dropPeer, {}⟩) := rfl
  have hlast : calledInVain.2.sessions[2]? = some calledInVain.2.sessions[2] := rfl
  have hwhy : calledInVain.2.sessions[2].result? = some (.error (.transport .closed)) := rfl
  have hmoves : ∀ u ∈ calledInVain.1.drop 11, ∃ m, u.action = .move m := by
    intro u hu
    have haction : u.action ∈ vainCall.drop 11 := by
      rw [← map_action_trace trace_vainCall, ← List.map_drop]
      exact List.mem_map_of_mem hu
    revert haction
    generalize u.action = a
    simp only [vainCall, List.drop_succ_cons, List.drop_zero, List.mem_cons, List.not_mem_nil,
      or_false]
    rintro (rfl | rfl | rfl | rfl | rfl | rfl) <;> exact ⟨_, rfl⟩
  have hlive : ∀ (j : Nat) (r : Session), j ≠ 2 → calledInVain.2.sessions[j]? = some r →
      ¬r.phase.Fails := by
    have hothers : ∀ r ∈ calledInVain.2.sessions.take 2, ¬r.phase.Fails := by decide +kernel
    have hlength : calledInVain.2.sessions.length = 3 := by decide +kernel
    intro j r hj hs
    have hlt := (List.getElem?_eq_some_iff.mp hs).1
    refine hothers r (List.mem_of_getElem? (i := j) ?_)
    rw [List.getElem?_take_of_lt (by omega)]
    exact hs
  have hbefore : calledInVain.1[10].before.Holds ⟨⟨1⟩, ⟨43, by decide⟩, 0⟩ :=
    ⟨by decide +kernel, by decide +kernel⟩
  have hlost := (hall _ _ _ _ _ _ _ _ _ hr ⟨_, _, _, _, _, rfl⟩ hhanded hlast hwhy hmoves hlive _
    hbefore).isOpen
  revert hlost
  decide +kernel

end Hub

end PushHub
