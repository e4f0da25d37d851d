import PushHub.Proofs.Registry.Course

/-! Shutdown is for good. From then on there is no entry and none is made, no matter what is queued or
comes later; requests are still counted, and reach no one. -/
namespace PushHub.Registry

def Moment.Grants (t : Moment) (h : Handle) : Prop :=
  t.action = .command (.register h) ∧ ∃ r, t.reply = some (.registered (.ok r))

/-- No other connection that comes or goes has the number of this one. -/
def Unshared (h : Handle) (ts : List Moment) : Prop :=
  ∀ t ∈ ts, ∀ g, t.action.handle? = some g → g.id = h.id → g = h

instance (h : Handle) (ts : List Moment) : Decidable (Unshared h ts) :=
  inferInstanceAs (Decidable (∀ t ∈ ts, ∀ g ∈ t.action.handle?, g.id = h.id → g = h))

theorem Unshared.of_append {h : Handle} {ts us : List Moment} (hu : Unshared h (ts ++ us)) :
    Unshared h ts :=
  fun t ht => hu t (List.mem_append_left _ ht)

def Action.isRequest : Action → Bool
  | .command (.dispatch _) => true
  | _ => false

/-! ## Connections that were registered -/

namespace Course

variable {max : Nat} {room : Mailroom} {ts : List Moment} {m : Membership} {h : Handle}

theorem registered (hc : Course (.vacant max room) ts m) (hh : h ∈ m.entries) :
    ∃ t ∈ ts, t.action = .command (.register h) := by
  induction hc with
  | nil => exact nomatch hh
  | @snoc ts m hc entries hp a ih =>
    have hbefore (hb : h ∈ (m.inOrder entries).entries) :
        ∃ t ∈ ts ++ [⟨m.inOrder entries, a⟩], t.action = .command (.register h) := by
      obtain ⟨t, ht, ha⟩ := ih (hp.mem_iff.mp hb)
      exact ⟨t, List.mem_append_left _ ht, ha⟩
    cases a with
    | outside n a => exact hbefore hh
    | command c =>
      rcases Membership.mem_entries_handle hh with hb | rfl
      · exact hbefore hb
      · exact ⟨_, List.mem_append_right _ (List.mem_singleton_self _), rfl⟩

theorem entry_or_closed (hc : Course (.vacant max room) ts m) (hu : Unshared h ts)
    (hg : ∃ t ∈ ts, t.Grants h) : m.find? h.user = some h ∨ m.isClosed h = true := by
  induction hc with
  | nil =>
    obtain ⟨t, ht, -⟩ := hg
    exact nomatch ht
  | @snoc ts m hc entries hp a ih =>
    have hk := hc.keyed List.nodup_nil
    have hk' := Membership.keyed_inOrder hk hp
    have hown : ∀ g, a.handle? = some g → g.id = h.id → g = h :=
      hu ⟨m.inOrder entries, a⟩ (List.mem_append_right _ (List.mem_singleton_self _))
    rw [Moment.after_eq]
    obtain ⟨t, ht, hg⟩ := hg
    rcases List.mem_append.mp ht with ht | ht
    · rcases ih hu.of_append ⟨t, ht, hg⟩ with hf | hclosed
      · rw [← Membership.find?_inOrder hk hp] at hf
        by_cases hf' : ((m.inOrder entries).act a).find? h.user = some h
        · exact .inl hf'
        · right
          cases a with
          | outside n a => exact absurd hf hf'
          | command c =>
            exact (Membership.handles_handle _ c).isClosed_of_left hk'
              (fun g hg hid => (hown g hg hid.symm).symm) hf hf'
      · exact .inr (Membership.isClosed_act _ a h hclosed)
    · -- Any entry with its number would be this connection itself.
      rw [List.mem_singleton.mp ht] at hg
      obtain ⟨rfl, r, hr⟩ := hg
      refine .inl ((Membership.handles_handle _ _).find?_granted hr fun g hg k hk hid => ?_)
      cases hk
      obtain ⟨t, ht, ha⟩ := hc.registered (hp.mem_iff.mp hg)
      exact hu t (List.mem_append_left _ ht) g (by rw [ha]; rfl) hid

end Course

/-! ## After the shutdown -/

namespace Membership

structure Stopped (m : Membership) : Prop where
  empty : m.entries = []
  stopped : m.shuttingDown = true

/-- What a command may still come to. -/
structure Rests (m : Membership) (c : Command) (o : Outcome) : Prop where
  stopped : o.state.Stopped
  silent : o.events = []
  counters : o.state.counters = { m.counters with
    dispatched := m.counters.dispatched + if (Action.command c).isRequest then 1 else 0 }
  refused : ∀ h, c = .register h →
    o.reply = some (.registered (.error .shuttingDown)) ∧ o.state = m.close h
  again : c = .shutdown → o.reply = some (.closed 0)

theorem Stopped.rests {m : Membership} (hm : m.Stopped) {c : Command} {o : Outcome}
    (ho : m.Handles c o) : m.Rests c o := by
  obtain ⟨he, hs⟩ := hm
  have hnone (u : UserId) : m.find? u = none := by
    unfold find?
    rw [he, List.find?_nil]
  cases ho with
  | late h => exact ⟨⟨he, hs⟩, rfl, rfl, fun g hg => by cases hg; exact ⟨rfl, rfl⟩, nofun⟩
  | again h current hs' => rw [hs] at hs'; cases hs'
  | superseded h current hs' => rw [hs] at hs'; cases hs'
  | full h hs' => rw [hs] at hs'; cases hs'
  | admitted h hs' => rw [hs] at hs'; cases hs'
  | removed h current hf => rw [hnone] at hf; cases hf
  | stale h hf => exact ⟨⟨he, hs⟩, rfl, rfl, nofun, nofun⟩
  | dispatched r =>
    have hnobody : m.recipients r.target = [] := by
      unfold recipients
      split
      · rw [hnone]
        rfl
      · exact he
    rw [dispatch_eq, hnobody]
    exact ⟨⟨he, hs⟩, rfl, rfl, nofun, nofun⟩
  | counted => exact ⟨⟨he, hs⟩, rfl, rfl, nofun, nofun⟩
  | looked u => exact ⟨⟨he, hs⟩, rfl, rfl, nofun, nofun⟩
  | swept =>
    unfold sweep
    rw [he]
    exact ⟨⟨rfl, hs⟩, rfl, rfl, nofun, nofun⟩
  | ended =>
    unfold shutdown
    rw [he]
    exact ⟨⟨rfl, rfl⟩, rfl, rfl, nofun, fun _ => rfl⟩

theorem Stopped.inOrder {m : Membership} (hm : m.Stopped) {entries : List Handle}
    (hp : entries.Perm m.entries) : (m.inOrder entries).Stopped := by
  refine ⟨?_, hm.stopped⟩
  have hnil := hp
  rw [hm.empty] at hnil
  exact hnil.eq_nil

theorem stopped_shutdown (m : Membership) : m.shutdown.state.Stopped := ⟨rfl, rfl⟩

end Membership

theorem Moment.stopped_after {t : Moment} (hs : t.before.Stopped) : t.after.Stopped := by
  obtain ⟨m, a⟩ := t
  cases a with
  | outside n a => exact ⟨hs.empty, hs.stopped⟩
  | command c => exact (hs.rests (m.handles_handle c)).stopped

theorem Course.stopped {start m : Membership} {ts : List Moment} (hc : Course start ts m)
    (hs : start.Stopped) : m.Stopped ∧ ∀ t ∈ ts, t.before.Stopped := by
  induction hc with
  | nil => exact ⟨hs, nofun⟩
  | @snoc ts m hc entries hp a ih =>
    obtain ⟨hm, hall⟩ := ih
    have hb := hm.inOrder hp
    refine ⟨Moment.stopped_after (t := ⟨m.inOrder entries, a⟩) hb, fun t ht => ?_⟩
    rcases List.mem_append.mp ht with ht | ht
    · exact hall t ht
    · rw [List.mem_singleton.mp ht]
      exact hb

theorem Course.counters_stopped {start m : Membership} {ts : List Moment} (hc : Course start ts m)
    (hs : start.Stopped) : m.counters = { start.counters with
      dispatched := start.counters.dispatched + ts.countP fun t => t.action.isRequest } := by
  induction hc with
  | nil => rfl
  | @snoc ts m hc entries hp a ih =>
    have hb := (hc.stopped hs).1.inOrder hp
    rw [List.countP_append, List.countP_singleton]
    cases a with
    | outside n a => exact ih
    | command c =>
      have hrest := (hb.rests (Membership.handles_handle _ c)).counters
      show (Membership.handle _ c).state.counters = _
      have hsame : (m.inOrder entries).counters = m.counters := rfl
      rw [hrest, hsame, ih]
      simp only [Nat.add_assoc]

/-! ## Whole courses -/

/-- What a shutdown comes to in the course of a registry. -/
structure ShutDown (before : List Moment) (t : Moment) (after : List Moment) (m : Membership) :
    Prop where
  empty : m.entries = []
  closed : ∀ h, (∃ s ∈ before ++ t :: after, s.Grants h) → Unshared h (before ++ t :: after) →
    m.isClosed h = true
  refused : ∀ s ∈ after, ∀ h, s.action = .command (.register h) →
    s.reply = some (.registered (.error .shuttingDown)) ∧ s.after = s.before.close h ∧
      s.after.isClosed h = true
  counters : m.counters = { t.after.counters with
    dispatched := t.after.counters.dispatched + after.countP fun s => s.action.isRequest }
  silent : ∀ s ∈ after, s.events = []
  again : ∀ s ∈ after, s.action = .command .shutdown → s.reply = some (.closed 0)
  /-- Its answer is the number of entries that it removes, and tells to be gone. -/
  answer : t.reply = some (.closed t.before.entries.length) ∧ t.after.entries = [] ∧
    t.events.length = t.before.entries.length ∧
    ∀ e ∈ t.events, ∃ u c, e = .disconnected u c .shutdown

theorem Course.shutDown {max : Nat} {room : Mailroom} {before after : List Moment} {t : Moment}
    {m : Membership} (hc : Course (.vacant max room) (before ++ t :: after) m)
    (ht : t.action = .command .shutdown) : ShutDown before t after m := by
  have hafter : t.outcome = t.before.shutdown := by
    unfold Moment.outcome
    rw [ht]
    rfl
  have hstop : t.after.Stopped := by
    unfold Moment.after
    rw [hafter]
    exact Membership.stopped_shutdown _
  have hlater := hc.split.2
  obtain ⟨hm, hall⟩ := hlater.stopped hstop
  have hrests (s : Moment) (hs : s ∈ after) (c : Command) (ha : s.action = .command c) :
      s.before.Rests c s.outcome := by
    have ho := s.before.handles_handle c
    have heq : s.outcome = s.before.handle c := by
      unfold Moment.outcome
      rw [ha]
    exact (hall s hs).rests (heq ▸ ho)
  refine ⟨hm.empty, fun h hg hu => ?_, fun s hs h ha => ?_, hlater.counters_stopped hstop,
    fun s hs => ?_, fun s hs ha => (hrests s hs _ ha).again rfl, ?_⟩
  · rcases hc.entry_or_closed hu hg with hf | hclosed
    · have hin := Membership.mem_of_find? hf
      rw [hm.empty] at hin
      cases hin
    · exact hclosed
  · obtain ⟨hr, hstate⟩ := (hrests s hs _ ha).refused h rfl
    refine ⟨hr, hstate, ?_⟩
    show s.outcome.state.isClosed h = true
    rw [hstate]
    show ((s.before.room.close h.endpoint).mailbox h.endpoint).isClosed = true
    rw [Mailroom.mailbox_close_self]
    rfl
  · cases ha : s.action with
    | outside n a =>
      unfold Moment.events Moment.outcome
      rw [ha]
    | command c => exact (hrests s hs c ha).silent
  · unfold Moment.reply Moment.after Moment.events
    rw [hafter]
    refine ⟨rfl, rfl, List.length_map _, fun e he => ?_⟩
    obtain ⟨h, -, rfl⟩ := List.mem_map.mp he
    exact ⟨h.user, h.id, rfl⟩

end PushHub.Registry
