import PushHub.Proofs.Registry.Course
import Mathlib.Data.Finset.Card

/-! Room in the registry. There are never more entries than there is room for, only a user who would
be one too many is turned away, and to be turned away changes nothing. Entries that have died take up
room until a sweep; right after it, all that stand in the way are open. -/
namespace PushHub.Registry

def Action.sparing : Action → Bool
  | .outside _ .take => true
  | .outside _ (.deliver _) => true
  | .outside _ (.publish _) => true
  | _ => false

/-- The registration of a connection is refused for want of room. -/
def Moment.TurnsAway (t : Moment) (h : Handle) : Prop :=
  t.action = .command (.register h) ∧ ∃ max, t.reply = some (.registered (.error (.full max)))

namespace Membership

variable {m : Membership} {c : Command} {o : Outcome} {g h : Handle}

theorem find?_eq_none {u : UserId} : m.find? u = none ↔ ∀ g ∈ m.entries, g.user ≠ u := by
  unfold find?
  simp

/-! ## Room -/

theorem length_insert_new (hf : m.find? h.user = none) :
    (m.insert h).entries.length = m.entries.length + 1 := by
  have hall : m.entries.filter (fun g => g.user ≠ h.user) = m.entries :=
    List.filter_eq_self.mpr fun g hg => decide_eq_true (find?_eq_none.mp hf g hg)
  unfold insert
  rw [List.length_append, List.length_singleton, hall]

theorem length_insert_known (hf : m.find? h.user = some g) :
    (m.insert h).entries.length ≤ m.entries.length := by
  have hless : (m.entries.filter fun g => g.user ≠ h.user).length < m.entries.length :=
    List.length_filter_lt_length_iff_exists.mpr ⟨g, mem_of_find? hf, by simp [user_of_find? hf]⟩
  unfold insert
  rw [List.length_append, List.length_singleton]
  exact hless

def Within (m : Membership) : Prop := m.entries.length ≤ m.maxConnections

namespace Handles

theorem maxConnections (ho : m.Handles c o) : o.state.maxConnections = m.maxConnections := by
  cases ho with
  | dispatched r =>
    rw [dispatch_eq]
    exact (offerAll_frame r (frameOf r) m.counted _).2.2.1
  | _ => rfl

theorem within (ho : m.Handles c o) (hm : m.Within) : o.state.Within := by
  unfold Within
  rw [ho.maxConnections]
  cases ho with
  | late h hs => exact hm
  | again h current hs hf hid => exact hm
  | superseded h current hs hf hid => exact Nat.le_trans (length_insert_known hf) hm
  | full h hs hf hmax => exact hm
  | admitted h hs hf hroom =>
    rw [length_insert_new hf]
    exact hroom
  | removed h current hf hid => exact Nat.le_trans (List.length_filter_le _ _) hm
  | stale h hf => exact hm
  | dispatched r =>
    rw [entries_dispatch]
    exact hm
  | counted => exact hm
  | looked u => exact hm
  | swept =>
    unfold sweep
    simp only [List.partition_eq_filter_filter]
    exact Nat.le_trans (List.length_filter_le _ _) hm
  | ended => exact Nat.zero_le _

theorem full_iff (ho : m.Handles (.register h) o) :
    (∃ max, o.reply = some (.registered (.error (.full max)))) ↔
      m.shuttingDown = false ∧ m.find? h.user = none ∧ m.maxConnections ≤ m.entries.length := by
  cases ho with
  | late _ hs => simp [hs]
  | again _ current hs hf hid => simp [hf]
  | superseded _ current hs hf hid => simp [hf]
  | full _ hs hf hmax => simp [hs, hf, hmax]
  | admitted _ hs hf hroom =>
    have hnot : ¬m.maxConnections ≤ m.entries.length := Nat.not_le_of_lt hroom
    simp [hnot]

theorem untouched_of_full {max : Nat} (ho : m.Handles (.register h) o)
    (hr : o.reply = some (.registered (.error (.full max)))) :
    max = m.maxConnections ∧ o.state = m ∧ o.events = [] := by
  cases ho with
  | late _ hs => cases hr
  | again _ current hs hf hid => cases hr
  | superseded _ current hs hf hid => cases hr
  | full _ hs hf hmax =>
    cases hr
    exact ⟨rfl, rfl, rfl⟩
  | admitted _ hs hf hroom => cases hr

end Handles

/-! ## After a sweep -/

theorem Handling.isClosed_on_of_sparing {n : Nat} {a : Handling} (e : Endpoint)
    (ha : (Action.outside n a).sparing = true) :
    (a.on e).mailbox.isClosed = e.mailbox.isClosed := by
  cases a with
  | take => exact Mailbox.isClosed_take _
  | deliver f => exact Mailbox.isClosed_deliver _ f
  | publish s => rfl
  | close => cases ha
  | abandon => cases ha

theorem isClosed_act_of_sparing {a : Action} (m : Membership) (h : Handle) (ha : a.sparing = true) :
    (m.act a).isClosed h = m.isClosed h := by
  cases a with
  | command c => cases ha
  | outside n a =>
    show ((m.room.update n (Handling.on · a)).get h.endpoint).mailbox.isClosed =
      (m.room.get h.endpoint).mailbox.isClosed
    rcases Mailroom.get_update_cases m.room n h.endpoint (Handling.on · a) with heq | heq
    · rw [heq]
    · rw [heq]
      exact Handling.isClosed_on_of_sparing _ ha

def Lively (m : Membership) : Prop := ∀ h ∈ m.entries, m.isClosed h = false

theorem lively_sweep (m : Membership) : m.sweep.state.Lively := fun _ hh => (mem_entries_sweep.mp hh).2

theorem Lively.inOrder (hm : m.Lively) {entries : List Handle} (hp : entries.Perm m.entries) :
    (m.inOrder entries).Lively :=
  fun h hh => hm h (hp.mem_iff.mp hh)

theorem Lively.act (hm : m.Lively) {a : Action} (ha : a.sparing = true) : (m.act a).Lively := by
  intro h hh
  rw [isClosed_act_of_sparing m h ha]
  cases a with
  | command c => cases ha
  | outside n a => exact hm h hh

end Membership

namespace Course

variable {start m : Membership} {ts : List Moment}

theorem within (hc : Course start ts m) (hs : start.Within) :
    m.Within ∧ m.maxConnections = start.maxConnections := by
  induction hc with
  | nil => exact ⟨hs, rfl⟩
  | @snoc ts m hc entries hp a ih =>
    obtain ⟨hm, hmax⟩ := ih
    have hb : (m.inOrder entries).Within := by
      unfold Membership.Within
      rw [Membership.inOrder, hp.length_eq]
      exact hm
    cases a with
    | outside n a => exact ⟨hb, hmax⟩
    | command c =>
      have ho := Membership.handles_handle (m.inOrder entries) c
      exact ⟨ho.within hb, ho.maxConnections.trans hmax⟩

theorem lively (hc : Course start ts m) (hs : start.Lively) (hts : ∀ t ∈ ts, t.action.sparing = true) :
    m.Lively := by
  induction hc with
  | nil => exact hs
  | @snoc ts m hc entries hp a ih =>
    rw [List.forall_mem_append] at hts
    rw [Moment.after_eq]
    exact ((ih hts.1).inOrder hp).act (hts.2 _ (List.mem_singleton_self _))

end Course

/-- What a registry with room for `max` connections keeps to. -/
structure Capped (max : Nat) (ts : List Moment) (m : Membership) : Prop where
  size : m.entries.length ≤ max ∧ ∀ t ∈ ts, t.before.entries.length ≤ max
  full : ∀ t ∈ ts, ∀ h, t.action = .command (.register h) → (t.TurnsAway h ↔
    t.before.shuttingDown = false ∧ (∀ g ∈ t.before.entries, g.user ≠ h.user) ∧
      t.before.entries.length = max)
  known : ∀ t ∈ ts, ∀ h, (∃ g ∈ t.before.entries, g.user = h.user) → ¬t.TurnsAway h
  untouched : ∀ t ∈ ts, ∀ h, t.TurnsAway h →
    t.reply = some (.registered (.error (.full max))) ∧ t.after = t.before ∧ t.events = []
  swept : ∀ t ∈ ts, t.action = .command .sweep →
    ∀ h, h ∈ t.after.entries ↔ h ∈ t.before.entries ∧ t.before.isClosed h = false
  /-- Who is turned away right after a sweep finds all the room taken by others who are there. -/
  crowded : ∀ before s between t after h, ts = before ++ s :: (between ++ t :: after) →
    s.action = .command .sweep → (∀ r ∈ between, r.action.sparing = true) → t.TurnsAway h →
      ∃ users : Finset UserId, users.card = max ∧ h.user ∉ users ∧
        ∀ u ∈ users, ∃ g ∈ t.before.entries, g.user = u ∧ t.before.isClosed g = false

namespace Course

variable {max : Nat} {room : Mailroom} {ts : List Moment} {m : Membership} {t : Moment} {h : Handle}

theorem within_before {before after : List Moment}
    (hc : Course (.vacant max room) (before ++ t :: after) m) :
    t.before.entries.length ≤ max ∧ t.before.maxConnections = max := by
  obtain ⟨⟨m₁, entries, hc₁, hp, ht⟩, -⟩ := hc.split
  obtain ⟨hm, hmax⟩ := hc₁.within (Nat.zero_le _)
  rw [ht]
  exact ⟨hp.length_eq ▸ Nat.le_trans hm (Nat.le_of_eq hmax), hmax⟩

theorem outcome_of_mem (hc : Course (.vacant max room) ts m) (ht : t ∈ ts) {c : Command}
    (ha : t.action = .command c) :
    t.before.Handles c t.outcome ∧ t.before.entries.length ≤ max ∧ t.before.maxConnections = max := by
  obtain ⟨before, after, rfl⟩ := List.append_of_mem ht
  have heq : t.outcome = t.before.handle c := by
    unfold Moment.outcome
    rw [ha]
  exact ⟨heq ▸ t.before.handles_handle c, hc.within_before⟩

theorem turnsAway_iff (hc : Course (.vacant max room) ts m) (ht : t ∈ ts)
    (ha : t.action = .command (.register h)) : t.TurnsAway h ↔
      t.before.shuttingDown = false ∧ (∀ g ∈ t.before.entries, g.user ≠ h.user) ∧
        t.before.entries.length = max := by
  obtain ⟨ho, hle, hmax⟩ := hc.outcome_of_mem ht ha
  have hlen : max ≤ t.before.entries.length ↔ t.before.entries.length = max :=
    ⟨fun hl => Nat.le_antisymm hle hl, fun heq => Nat.le_of_eq heq.symm⟩
  have hfull := ho.full_iff
  rw [Membership.find?_eq_none, hmax, hlen] at hfull
  exact ⟨fun hr => hfull.mp hr.2, fun hr => ⟨ha, hfull.mpr hr⟩⟩

theorem untouched (hc : Course (.vacant max room) ts m) (ht : t ∈ ts) (hr : t.TurnsAway h) :
    t.reply = some (.registered (.error (.full max))) ∧ t.after = t.before ∧ t.events = [] := by
  obtain ⟨ha, k, hk⟩ := hr
  obtain ⟨ho, -, hmax⟩ := hc.outcome_of_mem ht ha
  obtain ⟨rfl, hstate, hevents⟩ := ho.untouched_of_full hk
  exact ⟨hmax ▸ hk, hstate, hevents⟩

theorem mem_after_sweep (hc : Course (.vacant max room) ts m) (ht : t ∈ ts)
    (ha : t.action = .command .sweep) (h : Handle) :
    h ∈ t.after.entries ↔ h ∈ t.before.entries ∧ t.before.isClosed h = false := by
  obtain ⟨ho, -, -⟩ := hc.outcome_of_mem ht ha
  unfold Moment.after
  generalize t.outcome = o at ho
  cases ho with
  | swept => exact Membership.mem_entries_sweep

/-- Right after a sweep no closed entry takes up room. -/
theorem lively_before {before between after : List Moment} {s : Moment}
    (hc : Course (.vacant max room) (before ++ s :: (between ++ t :: after)) m)
    (hs : s.action = .command .sweep) (hb : ∀ r ∈ between, r.action.sparing = true) :
    t.before.Lively := by
  have hswept : s.after.Lively := by
    rw [Moment.after_eq, hs]
    exact s.before.lively_sweep
  obtain ⟨⟨m₁, entries, hc₁, hp, ht⟩, -⟩ := hc.split.2.split
  rw [ht]
  exact (hc₁.lively hswept hb).inOrder hp

theorem crowded {before between after : List Moment} {s : Moment}
    (hc : Course (.vacant max room) (before ++ s :: (between ++ t :: after)) m)
    (hs : s.action = .command .sweep) (hb : ∀ r ∈ between, r.action.sparing = true)
    (hr : t.TurnsAway h) : ∃ users : Finset UserId, users.card = max ∧ h.user ∉ users ∧
      ∀ u ∈ users, ∃ g ∈ t.before.entries, g.user = u ∧ t.before.isClosed g = false := by
  have hlively := hc.lively_before hs hb
  obtain ⟨-, hothers, hlen⟩ := (hc.turnsAway_iff (by simp) hr.1).mp hr
  rw [← List.cons_append, ← List.append_assoc] at hc
  have hk : t.before.Keyed := hc.keyed_before List.nodup_nil
  refine ⟨(t.before.entries.map Handle.user).toFinset, ?_, ?_, ?_⟩
  · rw [List.toFinset_card_of_nodup hk, List.length_map, hlen]
  · intro hmem
    obtain ⟨g, hg, hu⟩ := List.mem_map.mp (List.mem_toFinset.mp hmem)
    exact hothers g hg hu
  · intro u hu
    obtain ⟨g, hg, rfl⟩ := List.mem_map.mp (List.mem_toFinset.mp hu)
    exact ⟨g, hg, rfl, hlively g hg⟩

theorem capped (hc : Course (.vacant max room) ts m) : Capped max ts m where
  size := by
    obtain ⟨hm, hmax⟩ := hc.within (Nat.zero_le _)
    refine ⟨Nat.le_trans hm (Nat.le_of_eq hmax), fun t ht => ?_⟩
    obtain ⟨before, after, rfl⟩ := List.append_of_mem ht
    exact hc.within_before.1
  full t ht h ha := hc.turnsAway_iff ht ha
  known := by
    rintro t ht h ⟨g, hg, hu⟩ hr
    exact ((hc.turnsAway_iff ht hr.1).mp hr).2.1 g hg hu
  untouched t ht h hr := hc.untouched ht hr
  swept t ht ha := hc.mem_after_sweep ht ha
  crowded := by
    rintro before s between t after h rfl hs hb hr
    exact hc.crowded hs hb hr

end Course

def guest : Nat → Handle
  | 0 => ⟨⟨1⟩, ⟨71, by decide⟩, 0⟩
  | 1 => ⟨⟨2⟩, ⟨72, by decide⟩, 1⟩
  | 2 => ⟨⟨3⟩, ⟨73, by decide⟩, 2⟩
  | 3 => ⟨⟨4⟩, ⟨71, by decide⟩, 3⟩
  | _ => ⟨⟨5⟩, ⟨74, by decide⟩, 4⟩

def inn : Membership := .vacant 2 (List.replicate 5 ⟨.create 2, .empty none⟩)

/-- There is room for two. The third guest finds none until the second, whose receiver is gone, has
been swept; the last one finds none even after a sweep, and the first may come again. -/
def bookings : List Action :=
  [.command (.register (guest 0)), .command (.register (guest 1)), .outside 1 .abandon,
    .command (.register (guest 2)), .command .sweep, .command (.register (guest 2)), .command .sweep,
    .outside 0 .take, .command (.register (guest 4)), .command (.register (guest 3))]

/-- Two others are there when the last one is turned away. -/
theorem capped_bookings :
    Capped 2 (trail inn bookings) (inn.run bookings) ∧
    (∃ t ∈ trail inn bookings, t.TurnsAway (guest 2)) ∧
    (∃ t ∈ trail inn bookings, t.TurnsAway (guest 4) ∧
      ∃ users : Finset UserId, users.card = 2 ∧ (guest 4).user ∉ users ∧
        ∀ u ∈ users, ∃ g ∈ t.before.entries, g.user = u ∧ t.before.isClosed g = false) ∧
    (inn.run bookings).entries = [guest 2, guest 3] := by
  have hcapped : Capped 2 (trail inn bookings) (inn.run bookings) := (Course.ofTrail inn bookings).capped
  have hthird : Moment.TurnsAway ⟨inn.run (bookings.take 3), .command (.register (guest 2))⟩ (guest 2) :=
    ⟨rfl, 2, rfl⟩
  have hlast : Moment.TurnsAway ⟨inn.run (bookings.take 8), .command (.register (guest 4))⟩ (guest 4) :=
    ⟨rfl, 2, rfl⟩
  refine ⟨hcapped, ⟨_, .tail _ (.tail _ (.tail _ (.head _))), hthird⟩, ?_, by decide⟩
  have hsplit : trail inn bookings = trail inn (bookings.take 6) ++
      ⟨inn.run (bookings.take 6), .command .sweep⟩ :: ([⟨inn.run (bookings.take 7), .outside 0 .take⟩] ++
        ⟨inn.run (bookings.take 8), .command (.register (guest 4))⟩ ::
          [⟨inn.run (bookings.take 9), .command (.register (guest 3))⟩]) := rfl
  refine ⟨_, ?_, hlast, hcapped.crowded _ _ _ _ _ _ hsplit rfl (by simp [Action.sparing]) hlast⟩
  rw [hsplit]
  simp

end PushHub.Registry
