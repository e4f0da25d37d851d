import PushHub.Proofs.Hub.Speech
import PushHub.Proofs.Registry.History

/-! What the client of a session is told from the opening of the session to its end. It is a script: a
prompt at most, then a refusal or a greeting, and after a greeting pings and mail. The registry has
admitted a connection before its client is greeted. -/
namespace PushHub

open Registry (Handle Service Queued Command Membership Reply)

namespace Registry

theorem Membership.Handles.entry_of_granted {m : Membership} {o : Outcome} {c : Handle}
    {r : Registration}
    (ho : m.Handles (.register c) o) (hr : o.reply = some (.registered (.ok r))) :
    ∃ g, o.state.find? c.user = some g ∧ g.id = c.id := by
  cases ho with
  | late _ hs => cases hr
  | again _ current hs hf hid => exact ⟨current, hf, hid⟩
  | superseded _ current hs hf hid => exact ⟨c, by simp [find?_insert], rfl⟩
  | full _ hs hf hm => cases hr
  | admitted _ hs hf hm => exact ⟨c, by simp [find?_insert], rfl⟩

theorem Service.reply_of_mem_serve {v : Service} {q : Queued} {rest : List Queued}
    (hq : v.queue = q :: rest) {r : Nat × Reply} (hr : r ∈ v.serve.replies) :
    r ∈ v.replies ∨ q.ticket = some r.1 ∧ (v.members.handle q.command).reply = some r.2 := by
  unfold serve at hr
  rw [hq] at hr
  dsimp only at hr
  split at hr
  · rename_i ht ho
    rcases List.mem_append.mp hr with hr | hr
    · exact .inl hr
    · rw [List.mem_singleton.mp hr]
      exact .inr ⟨ht, ho⟩
  · exact .inl hr

end Registry

theorem Session.mail_utters? (e : Surroundings) (s : Session) (m : Move) :
    Session.Works.wrote? s m = (s.utters? e m).bind Utterance.mail? := by
  have hbind (o : Option Utterance) :
      (o.filter fun u => (s.line.send u.frame).2 = .sent).bind Utterance.mail? =
        o.bind fun u => if (s.line.send u.frame).2 = .sent then u.mail? else none := by
    cases o with
    | none => rfl
    | some u => by_cases hu : (s.line.send u.frame).2 = .sent <;> simp [Option.filter_some, hu]
  unfold utters?
  rw [hbind]
  obtain ⟨line, phase⟩ := s
  cases m with
  | admission j => cases phase <;> simp [offers?, Works.wrote?, Utterance.mail?]
  | outbound j =>
    cases phase with
    | admitted c inbound outbound =>
      cases outbound with
      | writing f keeping deadline keepalive =>
        cases keeping with
        | true => simp [offers?, Works.wrote?, writes?, Utterance.mail?]
        | false =>
          simp only [offers?, Works.wrote?, writes?, Utterance.mail?, Utterance.frame,
            Option.bind_some]
          split
          · rename_i hsent
            exact (if_pos hsent).symm
          · rename_i hunsent
            exact (if_neg hunsent).symm
      | _ => rfl
    | _ => rfl
  | _ => rfl

theorem Session.phase_of_greeting {e : Surroundings} {s : Session} {m : Move} {u : UserId}
    (hu : s.utters? e m = some (.control (.authSuccess u))) :
    ∃ c deadline, s.phase = .greeting c deadline ∧ c.user = u := by
  have ho : s.offers? e m = some (.control (.authSuccess u)) := (Option.filter_eq_some_iff.mp hu).1
  obtain ⟨line, phase⟩ := s
  cases m with
  | admission j =>
    cases phase with
    | greeting c deadline =>
      cases ho
      exact ⟨c, deadline, rfl, rfl⟩
    | _ => cases ho
  | outbound j =>
    cases phase with
    | admitted c inbound outbound =>
      cases outbound with
      | writing f keeping deadline keepalive => cases keeping <;> cases ho
      | _ => cases ho
    | _ => cases ho
  | _ => cases ho

/-- The connection of a session that the registry has admitted. -/
def Phase.granted? : Phase → Option Handle
  | .greeting c _ => some c
  | .withdrawing c _ => some c
  | .admitted c _ _ => some c
  | _ => none

theorem Session.Works.granted?_eq_some {v v' : Service} {i : Nat} {s s' : Session} {m : Move}
    {c : Handle}
    (hw : s.Works i v m v' s') (hc : s'.phase.granted? = some c) :
    s.phase.granted? = some c ∨ s.phase = .registering c true ∧
      ∃ r, (i, Reply.registered (.ok r)) ∈ v.replies := by
  cases hw with
  | granted line h r deadline hr =>
    cases hc
    obtain ⟨first, rest, heq, -⟩ := List.lookup_eq_some_iff.mp hr
    exact .inr ⟨rfl, r, by simp [heq]⟩
  | greeted => exact .inl hc
  | ungreeted => exact .inl hc
  | left => exact .inl hc
  | heard => exact .inl hc
  | unregistered => exact .inl hc
  | took => exact .inl hc
  | stopped => exact .inl hc
  | pinging => exact .inl hc
  | sent => exact .inl hc
  | cut => exact .inl hc
  | closed => exact .inl hc
  | _ => cases hc

namespace Hub

/-! ## Observing a run -/

namespace Moment

variable (t : Moment)

def utters? (i : Nat) : Option Utterance :=
  (t.own? i).bind fun (s, m) => s.utters? t.before.surroundings m

/-- The registry admits connection `c`, as session `i` has asked it to. -/
structure Grants (i : Nat) (c : Handle) : Prop where
  serves : t.action = .move .serve
  asked : t.before.service.queue.head? = some ⟨.register c, some i⟩
  granted : ∃ r, (t.before.service.members.handle (.register c)).reply =
    some (.registered (.ok r))

end Moment

def uttered (ms : List Moment) (i : Nat) : List Utterance := ms.filterMap (Moment.utters? · i)

def taken (ms : List Moment) (i : Nat) : List Frame := ms.filterMap (Moment.took? · i)

theorem uttered_snoc (ms : List Moment) (t : Moment) (i : Nat) :
    uttered (ms ++ [t]) i = uttered ms i ++ (t.utters? i).toList :=
  filterMap_snoc _ ms t

theorem taken_snoc (ms : List Moment) (t : Moment) (i : Nat) :
    taken (ms ++ [t]) i = taken ms i ++ (t.took? i).toList :=
  filterMap_snoc _ ms t

section

variable {h h' : Hub} {a : Action} {i : Nat} {s s' : Session}

theorem utters?_of_ne (hi : a.session? ≠ some i) : Moment.utters? ⟨h, a, h'⟩ i = none := by
  simp [Moment.utters?, own?_of_ne hi]

theorem took?_of_ne (hi : a.session? ≠ some i) : Moment.took? ⟨h, a, h'⟩ i = none := by
  cases a with
  | move m =>
    cases m with
    | outbound j =>
      have hj : j ≠ i := fun heq => hi (congrArg some heq)
      exact if_neg hj
    | _ => rfl
  | _ => rfl

theorem utters?_of_move {m : Move} (hm : m.session? = some i) (hs : h.sessions[i]? = some s) :
    Moment.utters? ⟨h, .move m, h'⟩ i = s.utters? h.surroundings m := by
  simp [Moment.utters?, own?_of_move hm hs]

theorem took?_of_move {m : Move} (hm : m.session? = some i) (hs : h.sessions[i]? = some s)
    (hs' : h'.sessions[i]? = some s') :
    Moment.took? ⟨h, .move m, h'⟩ i = s.takes? s' m := by
  cases m with
  | outbound j =>
    cases hm
    simp only [Moment.took?, hs, hs', if_pos, Option.map_some]
    obtain ⟨line, phase⟩ := s
    obtain ⟨line', phase'⟩ := s'
    cases phase with
    | admitted c inbound outbound =>
      cases outbound with
      | idle k =>
        cases phase' with
        | admitted c' inbound' outbound' =>
          cases outbound' with
          | writing f keeping deadline k' => cases keeping <;> rfl
          | _ => rfl
        | _ => rfl
      | _ => rfl
    | _ => rfl
  | _ => rfl

theorem wrote?_eq (t : Moment) (i : Nat) : t.wrote? i = (t.utters? i).bind Utterance.mail? := by
  have hown : t.wrote? i = (t.own? i).bind fun (s, m) => Session.Works.wrote? s m := by
    obtain ⟨h, a, h'⟩ := t
    cases a with
    | move m =>
      by_cases hm : m.session? = some i
      · cases hs : h.sessions[i]? with
        | none =>
          rw [own?_of_absent hs]
          cases m <;> simp [Moment.wrote?, hs]
        | some s =>
          rw [own?_of_move hm hs]
          cases m with
          | outbound j =>
            cases hm
            simp [Moment.wrote?, Session.Works.wrote?, hs]
          | _ => rfl
      · rw [own?_of_ne (show (Action.move m).session? ≠ some i from hm)]
        cases m with
        | outbound j => exact if_neg fun hj => hm (congrArg some hj)
        | _ => rfl
    | _ => rfl
  rw [hown]
  unfold Moment.utters?
  cases t.own? i with
  | none => rfl
  | some p => exact p.1.mail_utters? t.before.surroundings p.2

/-! ## In order -/

theorem Turn.told {asks : Bool} {us : List Utterance} {took : List Frame} (ht : h.Turn i s a h' s')
    (hs : h.sessions[i]? = some s) (hs' : h'.sessions[i]? = some s')
    (htold : s.phase.Told asks us took) :
    s'.phase.Told asks (us ++ (Moment.utters? ⟨h, a, h'⟩ i).toList)
      (took ++ (Moment.took? ⟨h, a, h'⟩ i).toList) := by
  cases ht with
  | own m d s' hm hmove =>
    rw [utters?_of_move hm hs, took?_of_move hm hs hs']
    exact (Session.speaks_of_move hm hmove).told htold
  | client c => simpa [Moment.utters?, Moment.own?, Moment.took?] using htold
  | other a h' ha hi =>
    rw [utters?_of_ne hi, took?_of_ne hi]
    simpa using htold

theorem Turn.shut (ht : h.Turn i s a h' s') (hs : s.line.wire.isShut = true) :
    s'.line.wire.isShut = true := by
  cases ht with
  | own m d s' hm hmove => exact (Session.speaks_of_move hm hmove).passes.shut hs
  | client c => exact Wire.isShut_on _ c hs
  | other a h' ha hi => exact hs

theorem Turn.closed (ht : h.Turn i s a h' s')
    (hs : s.phase.closings = 1 → s.line.wire.isShut = true) (hc : s'.phase.closings = 1) :
    s'.line.wire.isShut = true := by
  cases ht with
  | own m d s' hm hmove =>
    rcases (Session.speaks_of_move hm hmove).shut hc with hbefore | hshut
    · exact (Session.speaks_of_move hm hmove).passes.shut (hs hbefore)
    · exact hshut
  | client c => exact Wire.isShut_on _ c (hs hc)
  | other a h' ha hi => exact hs hc

end

section

variable {start h : Hub} {ms : List Moment} {i : Nat} {o : Option UserId}

theorem Run.unopened (hr : Run start ms h) (hs : start.Fresh) (hi : h.sessions.length ≤ i) :
    uttered ms i = [] ∧ taken ms i = [] := by
  have habsent := hr.absent hs hi
  unfold uttered taken
  rw [List.filterMap_eq_nil_iff, List.filterMap_eq_nil_iff]
  constructor
  · intro t ht
    simp [Moment.utters?, own?_of_absent (habsent t ht)]
  · intro t ht
    cases htook : t.took? i with
    | none => rfl
    | some f =>
      obtain ⟨-, s, s', d, d', inbound, inbound', k, k', deadline, hsome, -⟩ := took?_eq_some htook
      rw [habsent t ht] at hsome
      cases hsome

/-- Every session is at a place in its script that its phase tells. -/
theorem Run.told (hr : Run start ms h) (hs : start.Fresh) (ho : (i, o) ∈ openings ms) :
    ∃ s, h.sessions[i]? = some s ∧ s.phase.Told o.isNone (uttered ms i) (taken ms i) ∧
      (s.phase.closings = 1 → s.line.wire.isShut = true) := by
  refine hr.along (P := fun ms _ s => s.phase.Told o.isNone (uttered ms i) (taken ms i) ∧
    (s.phase.closings = 1 → s.line.wire.isShut = true)) hs ho ?_ ?_
  · intro ms h h' a s hr ha hlen hopens
    obtain ⟨hu, ht⟩ := hr.unopened hs (Nat.le_of_eq hlen)
    rw [uttered_snoc, taken_snoc, hu, ht]
    cases hopens with
    | accepted line => exact ⟨⟨rfl, rfl, rfl⟩, nofun⟩
    | registered u line => exact ⟨⟨.inl rfl, rfl⟩, nofun⟩
  · intro ms h h' a s s' hr ha ho hi hi' hturn hp
    rw [uttered_snoc, taken_snoc]
    exact ⟨hturn.told hi hi' hp.1, hturn.closed hp.2⟩

/-! ## Admitted first -/

theorem Moment.Grants.known {t : Moment} {c : Handle} {conns : List (Nat × Handle)}
    (hg : t.Grants i c) (hl : Ledger conns t.before) : (i, c) ∈ conns := by
  obtain ⟨d, hd, hcommand⟩ := (hl.queued _ (List.mem_of_head? hg.asked)).owner rfl
  cases hcommand
  exact hd

theorem Moment.Grants.entry {t : Moment} {c : Handle} {conns : List (Nat × Handle)}
    (hg : t.Grants i c) (hl : Ledger conns t.before) (ha : t.before.act t.action = some t.after) :
    ∃ g, t.after.service.members.find? c.user = some g ∧ g.id = c.id ∧
      (conns.length ≤ UInt64.size → g = c) := by
  obtain ⟨before, action, after⟩ := t
  obtain ⟨hserves, hasked, r, hr⟩ := hg
  obtain ⟨rest, hq⟩ := List.head?_eq_some_iff.mp hasked
  dsimp only at hserves hasked ha hl hr ⊢
  subst hserves
  cases acts_of_act hl.running ha with
  | served q rest' hq' =>
    have hmem : (⟨.register c, some i⟩ : Queued) ∈ before.service.queue := List.mem_of_head? hasked
    rw [Registry.Service.members_serve hq]
    have ho := before.service.members.handles_handle (.register c)
    obtain ⟨g, hg, hid⟩ := ho.entry_of_granted hr
    refine ⟨g, hg, hid, fun hn => ?_⟩
    have hc := ho.find?_granted hr (hl.tells hn hmem)
    exact Option.some.inj (hg.symm.trans hc)
  | worked j m s s' v hs hw => rcases hw.part with h | h | h | h <;> cases h

theorem Run.replies_granted (hr : Run start ms h) (hs : start.Fresh) {r : Registry.Registration}
    (hi : (i, Reply.registered (.ok r)) ∈ h.service.replies) : ∃ c, ∃ t ∈ ms, t.Grants i c := by
  induction hr with
  | nil =>
    obtain ⟨settings, registry, verifier, channels, clock, rfl⟩ := hs
    cases hi
  | @snoc ms h h' a hr ha ih =>
    have hl := hr.ledger hs
    have hearlier (hold : (i, Reply.registered (.ok r)) ∈ h.service.replies) :
        ∃ c, ∃ t ∈ ms ++ [⟨h, a, h'⟩], t.Grants i c := by
      obtain ⟨c, t, ht, hg⟩ := ih hold
      exact ⟨c, t, List.mem_append_left _ ht, hg⟩
    cases acts_of_act hl.running ha with
    | served q rest hq =>
      rcases Registry.Service.reply_of_mem_serve hq hi with hold | ⟨hticket, hreply⟩
      · exact hearlier hold
      · obtain ⟨c, -, hcommand⟩ := (hl.queued q (hq ▸ List.mem_cons_self)).owner hticket
        refine ⟨c, _, List.mem_append_right _ (List.mem_singleton_self _), rfl, ?_, ?_⟩
        · obtain ⟨command, ticket⟩ := q
          cases hticket
          cases hcommand
          exact congrArg List.head? hq
        · exact ⟨r, hcommand ▸ hreply⟩
    | worked j m s s' v hi' hw => exact hearlier ((hw.confined (hl.fits j s hi')).replies _ hi)
    | _ => exact hearlier hi

theorem Run.granted (hr : Run start ms h) (hs : start.Fresh) (ho : (i, o) ∈ openings ms) :
    ∃ s, h.sessions[i]? = some s ∧ ∀ c, s.phase.granted? = some c → ∃ t ∈ ms, t.Grants i c := by
  refine hr.along (P := fun ms _ s => ∀ c, s.phase.granted? = some c → ∃ t ∈ ms, t.Grants i c)
    hs ho ?_ ?_
  · intro ms h h' a s hr ha hlen hopens c hc
    cases hopens <;> cases hc
  · intro ms h h' a s s' hr ha ho hi hi' hturn hp c hc
    have hl := hr.ledger hs
    have hearlier (hold : s.phase.granted? = some c) :
        ∃ t ∈ ms ++ [⟨h, a, h'⟩], t.Grants i c := by
      obtain ⟨t, ht, hg⟩ := hp c hold
      exact ⟨t, List.mem_append_left _ ht, hg⟩
    cases hturn with
    | own m d s' hm hmove =>
      rcases Session.works_of_move hl.running hm hmove with
        ⟨hw, -⟩ | ⟨line, line', deadline, u, -, -, heq⟩
      · rcases hw.granted?_eq_some hc with hold | ⟨hphase, r, hreply⟩
        · exact hearlier hold
        · -- The reply is about the connection that the session has come to.
          obtain ⟨d, t, ht, hg⟩ := hr.replies_granted hs hreply
          obtain ⟨before, after, rfl⟩ := List.append_of_mem ht
          have hd := mem_connections_append (hg.known (hr.split.1.ledger hs)) (t :: after)
          have hfit := hl.fits_of_mem hd hi
          rw [hphase] at hfit
          cases hfit
          exact ⟨t, List.mem_append_left _ ht, hg⟩
      · cases heq
        cases hc
    | client a => exact hearlier hc
    | other a h' ha hne => exact hearlier hc

end

/-! ## The whole conversation -/

/-- What the hub keeps to towards the client of every transport that is handed to it. -/
structure Converses (ms : List Moment) (h : Hub) : Prop where
  /-- What a sink accepts is a script, in which only a transport without a user begins with a
  prompt. -/
  script : ∀ i o, (i, o) ∈ openings ms → Script o.isNone (uttered ms i)
  /-- Before a client is greeted the registry has admitted its connection, as the entry of the user
  that the greeting names. -/
  greeted : ∀ before t after, ms = before ++ t :: after → ∀ i u,
    t.utters? i = some (.control (.authSuccess u)) →
    ∃ c, (i, c) ∈ connections before ∧ c.user = u ∧ ∃ g ∈ before, g.Grants i c ∧
      ∃ entry, g.after.service.members.find? u = some entry ∧ entry.id = c.id ∧
        ((connections before).length ≤ UInt64.size → entry = c)
  mail : ∀ i, (uttered ms i).filterMap Utterance.mail? = written ms i
  taken : ∀ i o, (i, o) ∈ openings ms → (uttered ms i).filterMap Utterance.mail? <+: taken ms i
  front : ∀ t ∈ ms, ∀ i f, t.took? i = some f → ∃ c, (i, c) ∈ connections ms ∧
    (t.before.mailbox c.endpoint).queue = f :: (t.after.mailbox c.endpoint).queue
  closed : ∀ before t after, ms = before ++ t :: after →
    ∀ (i : Nat) (s : Session), t.before.sessions[i]? = some s →
    s.line.wire.isShut = true → ∀ t' ∈ t :: after, t'.utters? i = none
  done : ∀ (i : Nat) (s : Session), h.sessions[i]? = some s → s.phase.closings = 1 →
    s.line.wire.isShut = true
  passes : ∀ t ∈ ms, ∀ (i : Nat) (s s' : Session), t.before.sessions[i]? = some s →
    t.after.sessions[i]? = some s' →
    (∀ c, t.action ≠ .client i c) →
    s.line.wire.Passes ((t.utters? i).map Utterance.frame).toList s'.line.wire

section

variable {start h h' : Hub} {ms before after : List Moment} {t : Moment} {a : Action} {i : Nat}
  {s s' : Session}

theorem phase_of_greeting {u : UserId} (hu : t.utters? i = some (.control (.authSuccess u))) :
    ∃ s c deadline, t.before.sessions[i]? = some s ∧ s.phase = .greeting c deadline ∧
      c.user = u := by
  obtain ⟨⟨s, m⟩, ho, hsaid⟩ := Option.bind_eq_some_iff.mp hu
  obtain ⟨-, -, hs⟩ := own?_eq_some.mp ho
  obtain ⟨c, deadline, hphase, hc⟩ := Session.phase_of_greeting hsaid
  exact ⟨s, c, deadline, hs, hphase, hc⟩

theorem Run.greeted {u : UserId} (hr : Run start (before ++ t :: after) h) (hs : start.Fresh)
    (hu : t.utters? i = some (.control (.authSuccess u))) :
    ∃ c, (i, c) ∈ connections before ∧ c.user = u ∧ ∃ g ∈ before, g.Grants i c ∧
      ∃ entry, g.after.service.members.find? u = some entry ∧ entry.id = c.id ∧
        ((connections before).length ≤ UInt64.size → entry = c) := by
  obtain ⟨s, c, deadline, hi, hphase, rfl⟩ := phase_of_greeting hu
  obtain ⟨hbefore, -⟩ := hr.split
  obtain ⟨o, ho⟩ := hbefore.opening_of_lt hs (List.getElem?_eq_some_iff.mp hi).1
  obtain ⟨s', hi', hgranted⟩ := hbefore.granted hs ho
  cases hi.symm.trans hi'
  obtain ⟨g, hg, hgrants⟩ := hgranted c (by rw [hphase]; rfl)
  obtain ⟨first, rest, rfl⟩ := List.append_of_mem hg
  obtain ⟨hfirst, hact⟩ := hbefore.split
  have hknown := hgrants.known (hfirst.ledger hs)
  obtain ⟨entry, hentry, hid, heq⟩ := hgrants.entry (hfirst.ledger hs) hact
  refine ⟨c, mem_connections_append hknown _, rfl, g, hg, hgrants, entry, hentry, hid, fun hn => ?_⟩
  apply heq
  rw [connections_append, List.length_append] at hn
  omega

theorem Run.front {f : Frame} (hr : Run start (before ++ t :: after) h) (hs : start.Fresh)
    (ht : t.took? i = some f) : ∃ c, (i, c) ∈ connections (before ++ t :: after) ∧
      (t.before.mailbox c.endpoint).queue = f :: (t.after.mailbox c.endpoint).queue := by
  obtain ⟨-, s, s', c, d', inbound, inbound', k, k', deadline, hi, -, hphase, -⟩ := took?_eq_some ht
  have hl := hr.split.1.ledger hs
  have hfit := hl.fits i s hi
  rw [hphase] at hfit
  have hc := mem_connections_append (hl.lookup_eq_some.mp hfit) (t :: after)
  exact ⟨c, hc, (hr.took_open hs hc ht).2⟩

theorem Run.closed (hr : Run start (before ++ t :: after) h)
    (hi : t.before.sessions[i]? = some s) (hshut : s.line.wire.isShut = true) {t' : Moment}
    (ht' : t' ∈ t :: after) : t'.utters? i = none := by
  have hbefore : ∃ s, t'.before.sessions[i]? = some s ∧ s.line.wire.isShut = true := by
    rcases List.mem_cons.mp ht' with rfl | hlater
    · exact ⟨s, hi, hshut⟩
    · obtain ⟨mid, rest, rfl⟩ := List.append_of_mem hlater
      rw [← List.cons_append, ← List.append_assoc] at hr
      refine hr.split.1.lasting (P := fun h => ∃ s, h.sessions[i]? = some s ∧
        s.line.wire.isShut = true) ⟨s, hi, hshut⟩ ?_
      rintro ms h h' a hrun ha ⟨s, hs', hshut⟩
      obtain ⟨s', hi', hturn⟩ := turn_of_act hs' ha
      exact ⟨s', hi', hturn.shut hshut⟩
  obtain ⟨s', hi', hshut'⟩ := hbefore
  cases ho : t'.own? i with
  | none => simp [Moment.utters?, ho]
  | some p =>
    obtain ⟨-, -, hs'⟩ := own?_eq_some.mp ho
    cases hi'.symm.trans hs'
    simp [Moment.utters?, ho, p.1.utters?_of_isShut p.2 hshut']

theorem Run.passes (hr : Run start (before ++ t :: after) h)
    (hi : t.before.sessions[i]? = some s) (hi' : t.after.sessions[i]? = some s')
    (hc : ∀ c, t.action ≠ .client i c) :
    s.line.wire.Passes ((t.utters? i).map Utterance.frame).toList s'.line.wire := by
  obtain ⟨hbefore, ha⟩ := hr.split
  obtain ⟨s₁, hi₁, hturn⟩ := turn_of_act hi ha
  cases hi'.symm.trans hi₁
  obtain ⟨h, a, h'⟩ := t
  dsimp only at hturn hi hc
  cases hturn with
  | own m d s' hm hmove =>
    rw [utters?_of_move hm hi]
    exact (Session.speaks_of_move hm hmove).passes
  | client c => exact absurd rfl (hc c)
  | other a h' ha hne =>
    rw [utters?_of_ne hne]
    exact .refl _

end

theorem Run.converses {start h : Hub} {ms : List Moment} (hr : Run start ms h) (hs : start.Fresh) :
    Converses ms h where
  script i o ho := by
    obtain ⟨s, -, htold, -⟩ := hr.told hs ho
    exact htold.script
  greeted := by
    rintro before t after rfl i u hu
    exact hr.greeted hs hu
  mail i := by
    unfold uttered written
    rw [List.filterMap_filterMap]
    exact congrArg (List.filterMap · ms) (funext fun t => (wrote?_eq t i).symm)
  taken i o ho := by
    obtain ⟨s, -, htold, -⟩ := hr.told hs ho
    exact htold.isPrefix
  front t ht i f htook := by
    obtain ⟨before, after, rfl⟩ := List.append_of_mem ht
    exact hr.front hs htook
  closed := by
    rintro before t after rfl i s hi hshut t' ht'
    exact hr.closed hi hshut ht'
  done i s hi hc := by
    obtain ⟨o, ho⟩ := hr.opening_of_lt hs (List.getElem?_eq_some_iff.mp hi).1
    obtain ⟨s', hi', -, hclosed⟩ := hr.told hs ho
    cases hi.symm.trans hi'
    exact hclosed hc
  passes t ht i s s' hi hi' hc := by
    obtain ⟨before, after, rfl⟩ := List.append_of_mem ht
    exact hr.passes hi hi' hc

def gate : Hub :=
  .start {} {} (fun _ token => if token = "T" then .ok ⟨42, by decide⟩ else .error .invalidToken) [] 0

/-- A client that talks too early and shows a bad token before a good one. An event reaches its mailbox
before it is greeted, and in the end it is superseded. -/
def visit : List Action :=
  let auth (token : String) : Frame :=
    .text ("\x7b\"type\":\"auth\",\"data\":\x7b\"token\":\"" ++ token ++ "\"\x7d\x7d")
  let follow : Frame := .text "\x7b\"type\":\"subscribe\",\"data\":\x7b\"channels\":[\"a\"]\x7d\x7d"
  let line : Line := ⟨.pipe (.create 8), {}⟩
  [.accept line, .move (.admission 0), .client 0 (.send follow), .client 0 (.send (auth "X")),
    .client 0 (.send (auth "T")), .client 0 (.send (auth "T")), .move (.admission 0),
    .move (.admission 0), .move (.admission 0), .move (.admission 0), .move .serve,
    .move (.admission 0), .dispatch ⟨.all, "note", .null, []⟩, .move .serve, .move (.admission 0),
    .move (.inbound 0), .move (.outbound 0), .move (.outbound 0), .pass 54000 54,
    .move (.keepalive 0), .move (.outbound 0), .register ⟨42, by decide⟩ line, .move (.admission 1),
    .move .serve, .move (.admission 1), .move (.admission 1), .move (.outbound 0),
    .move (.outbound 0)]

theorem visit_runs : (gate.trace visit).isSome = true := by decide +kernel

def visited : List Moment × Hub := (gate.trace visit).get visit_runs

theorem trace_visit : gate.trace visit = some visited :=
  (Option.some_get visit_runs).symm

theorem visited_converses : Converses visited.1 visited.2 ∧
    openings visited.1 = [(0, none), (1, some ⟨42, by decide⟩)] ∧
    uttered visited.1 0 = [.control (.prompt 30), .control (.authSuccess ⟨42, by decide⟩),
      .mail (.text "\x7b\"type\":\"note\",\"data\":null\x7d"), .keepalive (.ping [])] ∧
    uttered visited.1 1 = [.control (.authSuccess ⟨42, by decide⟩)] :=
  ⟨(run_trace trace_visit).converses ⟨_, _, _, _, _, rfl⟩, by decide +kernel⟩

end Hub

end PushHub
