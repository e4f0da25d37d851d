import PushHub.Proofs.Registry.Commands
import Mathlib.Data.List.Induction

/-! The registry against its own history. Whatever commands come in whatever order, and whatever is
done to mailboxes from outside, the entry of a user is the connection registered last, unless it has
left since; every other connection that was ever registered is closed. -/
namespace PushHub.Registry

inductive Handling
  | take
  | deliver (f : Frame)
  | publish (s : SubscriptionSet)
  | close
  | abandon

def Handling.on (e : Endpoint) : Handling → Endpoint
  | .take => { e with mailbox := e.mailbox.take.1 }
  | .deliver f => { e with mailbox := (e.mailbox.deliver f).1 }
  | .publish s => { e with published := s }
  | .close => { e with mailbox := e.mailbox.close }
  | .abandon => { e with mailbox := e.mailbox.abandon }

inductive Action
  | command (c : Command)
  | outside (n : Nat) (a : Handling)

def Action.handle? : Action → Option Handle
  | .command c => c.handle?
  | .outside _ _ => none

namespace Membership

def act (m : Membership) : Action → Membership
  | .command c => (m.handle c).state
  | .outside n a => { m with room := m.room.update n (Handling.on · a) }

def run (m : Membership) (actions : List Action) : Membership := actions.foldl act m

/-- A registry without entries, over endpoints in whatever state. -/
def vacant (maxConnections : Nat) (room : Mailroom) : Membership :=
  { empty maxConnections with room := room }

theorem run_snoc (m : Membership) (actions : List Action) (a : Action) :
    m.run (actions ++ [a]) = (m.run actions).act a := by
  simp [run]

/-! ## One action -/

def Admits (m : Membership) (h : Handle) : Prop :=
  ∃ r, (m.handle (.register h)).reply = some (.registered (.ok r))

/-- An action that ends the time of an entry. -/
inductive Dismisses (m : Membership) (h : Handle) : Action → Prop
  | unregistered : Dismisses m h (.command (.unregister h))
  | swept (hc : m.isClosed h = true) : Dismisses m h (.command .sweep)
  | ended : Dismisses m h (.command .shutdown)

theorem Handling.isClosed_on (e : Endpoint) (a : Handling) (hc : e.mailbox.isClosed = true) :
    (a.on e).mailbox.isClosed = true := by
  cases a with
  | take => exact (Mailbox.isClosed_take _).trans hc
  | deliver f => exact (Mailbox.isClosed_deliver _ f).trans hc
  | publish s => exact hc
  | close => rfl
  | abandon => simp [Handling.on]

theorem isClosed_act (m : Membership) (a : Action) (h : Handle) (hc : m.isClosed h = true) :
    (m.act a).isClosed h = true := by
  cases a with
  | command c => exact (extends_handle m c h.endpoint).isClosed hc
  | outside n a =>
    show ((m.room.update n (Handling.on · a)).get h.endpoint).mailbox.isClosed = true
    rcases Mailroom.get_update_cases m.room n h.endpoint (Handling.on · a) with heq | heq
    · rw [heq]
      exact hc
    · rw [heq]
      exact Handling.isClosed_on _ a hc

theorem keyed_act {m : Membership} (hk : m.Keyed) (a : Action) : (m.act a).Keyed := by
  cases a with
  | outside n a => exact hk
  | command c => exact keyed_handle hk c

namespace Handles

variable {m : Membership} {c : Command} {o : Outcome}

theorem find?_granted {h : Handle} {r : Registration} (ho : m.Handles (.register h) o)
    (hr : o.reply = some (.registered (.ok r))) (ht : m.Tells (.register h)) :
    o.state.find? h.user = some h := by
  cases ho with
  | late _ hs => cases hr
  | again _ current hs hf hid =>
    rw [hf, ht current (mem_of_find? hf) h rfl hid]
  | superseded _ current hs hf hid => simp [find?_insert]
  | full _ hs hf hm => cases hr
  | admitted _ hs hf hm => simp [find?_insert]

theorem find?_dismissed {h : Handle} (ho : m.Handles c o) (hk : m.Keyed)
    (hf : m.find? h.user = some h) (hd : m.Dismisses h (.command c)) :
    o.state.find? h.user = none := by
  cases hd with
  | unregistered =>
    cases ho with
    | removed _ current hf' hid => simp [find?_erase]
    | stale _ hne => exact absurd rfl (hne h hf)
  | swept hc =>
    cases ho with
    | swept => simp [find?_sweep hk, hf, hc]
  | ended =>
    cases ho with
    | ended => exact find?_shutdown m _

theorem find?_kept {u : UserId} (ho : m.Handles c o) (hk : m.Keyed) (ht : m.Tells c)
    (hg : ∀ h, c = .register h → h.user = u → ∀ r, o.reply ≠ some (.registered (.ok r)))
    (hd : ∀ h, m.find? u = some h → ¬m.Dismisses h (.command c)) :
    o.state.find? u = m.find? u := by
  cases ho with
  | late h hs => rfl
  | again h current hs hf hid => rfl
  | superseded h current hs hf hid =>
    have hne : u ≠ h.user := fun heq => hg h rfl heq.symm _ rfl
    simp [find?_insert, hne]
  | full h hs hf hm => rfl
  | admitted h hs hf hm =>
    have hne : u ≠ h.user := fun heq => hg h rfl heq.symm _ rfl
    simp [find?_insert, hne]
  | removed h current hf hid =>
    rw [find?_erase, find?_close, if_neg]
    rintro rfl
    rw [ht current (mem_of_find? hf) h rfl hid] at hf
    exact hd h hf .unregistered
  | stale h hf => rfl
  | dispatched r => exact find?_dispatch m r u
  | counted => rfl
  | looked v => rfl
  | swept =>
    rw [find?_sweep hk]
    cases hf : m.find? u with
    | none => rfl
    | some h =>
      have hc : m.isClosed h ≠ true := fun hc => hd h hf (.swept hc)
      simp [hc]
  | ended =>
    rw [find?_shutdown]
    cases hf : m.find? u with
    | none => rfl
    | some h => exact absurd .ended (hd h hf)

end Handles

section

variable {m : Membership} {a : Action}

theorem find?_act_granted {h : Handle} (hg : m.Admits h)
    (ht : m.Tells (.register h)) :
    (m.act (.command (.register h))).find? h.user = some h := by
  obtain ⟨r, hr⟩ := hg
  exact (handles_handle m _).find?_granted hr ht

theorem find?_act_dismissed {h : Handle} (hk : m.Keyed) (hf : m.find? h.user = some h)
    (hd : m.Dismisses h a) : (m.act a).find? h.user = none := by
  cases a with
  | command c => exact (handles_handle m c).find?_dismissed hk hf hd
  | outside n a => cases hd

theorem find?_act_kept {u : UserId} (hk : m.Keyed) (ht : ∀ c, a = .command c → m.Tells c)
    (hg : ∀ h, a = .command (.register h) → h.user = u → ¬m.Admits h)
    (hd : ∀ h, m.find? u = some h → ¬m.Dismisses h a) : (m.act a).find? u = m.find? u := by
  cases a with
  | outside n a => rfl
  | command c =>
    refine (handles_handle m c).find?_kept hk (ht c rfl) ?_ hd
    rintro h rfl hu r hr
    exact hg h rfl hu ⟨r, hr⟩

theorem isClosed_act_of_left {h : Handle} (hk : m.Keyed) (ht : ∀ c, a = .command c → m.Tells c)
    (hf : m.find? h.user = some h) (hl : (m.act a).find? h.user ≠ some h) :
    (m.act a).isClosed h = true := by
  cases a with
  | command c => exact (handles_handle m c).isClosed_of_left hk (ht c rfl h (mem_of_find? hf)) hf hl
  | outside n a => exact absurd hf hl

end

/-! ## Whole histories -/

def named (as : List Action) : List Handle := as.filterMap Action.handle?

def Distinct (as : List Action) : Prop := ∀ g ∈ named as, ∀ h ∈ named as, g.id = h.id → g = h

instance (as : List Action) : Decidable (Distinct as) :=
  inferInstanceAs (Decidable (∀ g ∈ named as, ∀ h ∈ named as, g.id = h.id → g = h))

/-- At time `k` of a history the registration of a connection is granted. -/
def GrantedAt (m : Membership) (as : List Action) (k : Nat) (h : Handle) : Prop :=
  as[k]? = some (.command (.register h)) ∧ (m.run (as.take k)).Admits h

def LastGrantedAt (m : Membership) (as : List Action) (k : Nat) (h : Handle) : Prop :=
  m.GrantedAt as k h ∧ ∀ j g, k < j → m.GrantedAt as j g → g.user ≠ h.user

/-- After time `k` something happens that ends the time of a connection as an entry. -/
def DismissedAfter (m : Membership) (as : List Action) (k : Nat) (h : Handle) : Prop :=
  ∃ j a, k < j ∧ as[j]? = some a ∧ (m.run (as.take j)).Dismisses h a

/-- A history ends with a connection registered last among those of its user, and not dismissed. -/
def Stands (m : Membership) (as : List Action) (h : Handle) : Prop :=
  ∃ k, m.LastGrantedAt as k h ∧ ¬m.DismissedAfter as k h

section

variable {m : Membership} {as : List Action} {a : Action} {k : Nat} {h : Handle}

theorem GrantedAt.lt (hg : m.GrantedAt as k h) : k < as.length := by
  obtain ⟨hk, -⟩ := hg
  exact (List.getElem?_eq_some_iff.mp hk).1

theorem mem_named (hk : as[k]? = some a) (ha : a.handle? = some h) : h ∈ named as :=
  List.mem_filterMap.mpr ⟨a, List.mem_of_getElem? hk, ha⟩

theorem getElem?_snoc_iff {b : Action} :
    (as ++ [a])[k]? = some b ↔ as[k]? = some b ∨ (k = as.length ∧ a = b) := by
  rcases Nat.lt_trichotomy k as.length with hk | hk | hk
  · rw [List.getElem?_append_left hk]
    simp [Nat.ne_of_lt hk]
  · subst hk
    simp
  · have hlen : (as ++ [a]).length ≤ k := by
      rw [List.length_append, List.length_singleton]
      exact hk
    rw [List.getElem?_eq_none hlen, List.getElem?_eq_none (Nat.le_of_lt hk)]
    simp [Nat.ne_of_gt hk]

theorem take_snoc_of_some {b : Action} (hk : as[k]? = some b) :
    (as ++ [a]).take k = as.take k := by
  have hlt := (List.getElem?_eq_some_iff.mp hk).1
  exact List.take_append_of_le_length (Nat.le_of_lt hlt)

theorem grantedAt_snoc :
    m.GrantedAt (as ++ [a]) k h ↔ m.GrantedAt as k h ∨
      (k = as.length ∧ a = .command (.register h) ∧ (m.run as).Admits h) := by
  unfold GrantedAt
  rw [getElem?_snoc_iff]
  constructor
  · rintro ⟨hk | ⟨rfl, rfl⟩, hg⟩
    · rw [take_snoc_of_some hk] at hg
      exact .inl ⟨hk, hg⟩
    · rw [List.take_left] at hg
      exact .inr ⟨rfl, rfl, hg⟩
  · rintro (⟨hk, hg⟩ | ⟨rfl, rfl, hg⟩)
    · rw [take_snoc_of_some hk]
      exact ⟨.inl hk, hg⟩
    · rw [List.take_left]
      exact ⟨.inr ⟨rfl, rfl⟩, hg⟩

theorem dismissedAfter_snoc :
    m.DismissedAfter (as ++ [a]) k h ↔ m.DismissedAfter as k h ∨
      (k < as.length ∧ (m.run as).Dismisses h a) := by
  constructor
  · rintro ⟨j, b, hkj, hj, hd⟩
    rcases getElem?_snoc_iff.mp hj with hj | ⟨rfl, rfl⟩
    · rw [take_snoc_of_some hj] at hd
      exact .inl ⟨j, b, hkj, hj, hd⟩
    · rw [List.take_left] at hd
      exact .inr ⟨hkj, hd⟩
  · rintro (⟨j, b, hkj, hj, hd⟩ | ⟨hk, hd⟩)
    · refine ⟨j, b, hkj, getElem?_snoc_iff.mpr (.inl hj), ?_⟩
      rw [take_snoc_of_some hj]
      exact hd
    · refine ⟨as.length, a, hk, getElem?_snoc_iff.mpr (.inr ⟨rfl, rfl⟩), ?_⟩
      rw [List.take_left]
      exact hd

/-- One more action lets the connection stand that it registers, and any other that is neither
followed by one of its user nor dismissed. -/
theorem stands_snoc :
    m.Stands (as ++ [a]) h ↔ (a = .command (.register h) ∧ (m.run as).Admits h) ∨
      (m.Stands as h ∧ (∀ g, a = .command (.register g) → g.user = h.user → ¬(m.run as).Admits g) ∧
        ¬(m.run as).Dismisses h a) := by
  constructor
  · rintro ⟨k, ⟨hg, hlast⟩, hd⟩
    rw [dismissedAfter_snoc, not_or] at hd
    rcases grantedAt_snoc.mp hg with hg | ⟨rfl, ha, hg⟩
    · refine .inr ⟨⟨k, ⟨hg, ?_⟩, hd.1⟩, ?_, fun hd' => hd.2 ⟨hg.lt, hd'⟩⟩
      · intro j g hkj hj
        exact hlast j g hkj (grantedAt_snoc.mpr (.inl hj))
      · intro g ha hu hadm
        exact hlast as.length g hg.lt (grantedAt_snoc.mpr (.inr ⟨rfl, ha, hadm⟩)) hu
    · exact .inl ⟨ha, hg⟩
  · rintro (⟨ha, hg⟩ | ⟨⟨k, ⟨hg, hlast⟩, hd⟩, hother, hstay⟩)
    · refine ⟨as.length, ⟨grantedAt_snoc.mpr (.inr ⟨rfl, ha, hg⟩), ?_⟩, ?_⟩
      · intro j g hj hgj
        have := hgj.lt
        rw [List.length_append, List.length_singleton] at this
        omega
      · rintro ⟨j, b, hj, hb, -⟩
        have := (List.getElem?_eq_some_iff.mp hb).1
        rw [List.length_append, List.length_singleton] at this
        omega
    · refine ⟨k, ⟨grantedAt_snoc.mpr (.inl hg), ?_⟩, ?_⟩
      · intro j g hkj hj hu
        rcases grantedAt_snoc.mp hj with hj | ⟨rfl, ha, hadm⟩
        · exact hlast j g hkj hj hu
        · exact hother g ha hu hadm
      · rw [dismissedAfter_snoc, not_or]
        exact ⟨hd, fun hd' => hstay hd'.2⟩

theorem LastGrantedAt.unique {j : Nat} {g : Handle} (hg : m.LastGrantedAt as j g)
    (hh : m.LastGrantedAt as k h) (hu : g.user = h.user) : j = k ∧ g = h := by
  have hjk : j = k := by
    rcases Nat.lt_trichotomy j k with hlt | heq | hgt
    · exact absurd hu.symm (hg.2 k h hlt hh.1)
    · exact heq
    · exact absurd hu (hh.2 j g hgt hg.1)
  subst hjk
  have := hg.1.1.symm.trans hh.1.1
  simp only [Option.some.injEq, Action.command.injEq, Command.register.injEq] at this
  exact ⟨rfl, this⟩

end

/-- The connections that are entries now are those that stand, and whatever else was ever granted
registration is closed. -/
structure Chronicled (m : Membership) (as : List Action) : Prop where
  keyed : (m.run as).Keyed
  entry : ∀ h, (m.run as).find? h.user = some h ↔ m.Stands as h
  closed : ∀ k h, m.GrantedAt as k h → (m.run as).find? h.user ≠ some h →
    (m.run as).isClosed h = true

theorem chronicled_nil (max : Nat) (room : Mailroom) : (vacant max room).Chronicled [] where
  keyed := List.nodup_nil
  entry h := by
    constructor
    · intro hf
      exact nomatch hf
    · rintro ⟨k, ⟨hg, -⟩, -⟩
      exact absurd hg.lt (Nat.not_lt_zero k)
  closed k h hg := absurd hg.lt (Nat.not_lt_zero k)

section

variable {m : Membership} {as : List Action} {a : Action}

theorem Chronicled.tells {c : Command} (hc : m.Chronicled as)
    (hd : Distinct (as ++ [.command c])) : (m.run as).Tells c := by
  intro g hg h ha hid
  obtain ⟨k, ⟨hgk, -⟩, -⟩ := (hc.entry g).mp (hc.keyed.find?_eq_some.mpr hg)
  refine hd g (mem_named (getElem?_snoc_iff.mpr (.inl hgk.1)) rfl) h ?_ hid
  exact mem_named (getElem?_snoc_iff.mpr (.inr ⟨rfl, rfl⟩)) ha

theorem Chronicled.entry_snoc (hc : m.Chronicled as)
    (ht : ∀ c, a = .command c → (m.run as).Tells c) (h : Handle) :
    ((m.run as).act a).find? h.user = some h ↔ m.Stands (as ++ [a]) h := by
  rw [stands_snoc, ← hc.entry]
  -- The action grants a registration to this user, or ends the time of the entry, or neither.
  by_cases hg : ∃ g, a = .command (.register g) ∧ g.user = h.user ∧ (m.run as).Admits g
  · obtain ⟨g, rfl, hu, hadm⟩ := hg
    rw [← hu, find?_act_granted hadm (ht _ rfl)]
    constructor
    · intro heq
      cases heq
      exact .inl ⟨rfl, hadm⟩
    · rintro (⟨heq, -⟩ | ⟨-, hnot, -⟩)
      · cases heq
        rfl
      · exact absurd hadm (hnot g rfl rfl)
  · have hnone (g : Handle) (ha : a = .command (.register g)) (hu : g.user = h.user) :
        ¬(m.run as).Admits g := fun hadm => hg ⟨g, ha, hu, hadm⟩
    have hself : ¬(a = .command (.register h) ∧ (m.run as).Admits h) :=
      fun hadm => hg ⟨h, hadm.1, rfl, hadm.2⟩
    by_cases hdis : ∃ g, (m.run as).find? h.user = some g ∧ (m.run as).Dismisses g a
    · obtain ⟨g, hf, hdis⟩ := hdis
      have hu : g.user = h.user := user_of_find? hf
      rw [← hu] at hf ⊢
      rw [find?_act_dismissed hc.keyed hf hdis, hf]
      constructor
      · intro heq
        cases heq
      · rintro (hadm | ⟨heq, -, hnot⟩)
        · exact absurd hadm hself
        · cases heq
          exact absurd hdis hnot
    · rw [find?_act_kept hc.keyed ht hnone fun g hf hd => hdis ⟨g, hf, hd⟩]
      constructor
      · intro hf
        exact .inr ⟨hf, hnone, fun hd => hdis ⟨h, hf, hd⟩⟩
      · rintro (hadm | ⟨hf, -, -⟩)
        · exact absurd hadm hself
        · exact hf

theorem Chronicled.snoc (hc : m.Chronicled as) (hd : Distinct (as ++ [a])) :
    m.Chronicled (as ++ [a]) := by
  have ht (c : Command) (ha : a = .command c) : (m.run as).Tells c := hc.tells (ha ▸ hd)
  refine ⟨?_, ?_, ?_⟩
  · rw [run_snoc]
    exact keyed_act hc.keyed a
  · intro h
    rw [run_snoc]
    exact hc.entry_snoc ht h
  · intro k h hg hne
    rw [run_snoc] at hne ⊢
    rcases grantedAt_snoc.mp hg with hg | ⟨-, rfl, hadm⟩
    · by_cases hf : (m.run as).find? h.user = some h
      · exact isClosed_act_of_left hc.keyed ht hf hne
      · exact isClosed_act _ a h (hc.closed k h hg hf)
    · exact absurd (find?_act_granted hadm (ht _ rfl)) hne

end

theorem run_chronicled (max : Nat) (room : Mailroom) (as : List Action) (hd : Distinct as) :
    (vacant max room).Chronicled as := by
  -- Histories grow at the end: whether a registration still counts is up to what came after it.
  induction as using List.reverseRecOn with
  | nil => exact chronicled_nil max room
  | append_singleton as a ih =>
    have hsub : ∀ h ∈ named as, h ∈ named (as ++ [a]) := by
      intro h hh
      unfold named
      rw [List.filterMap_append]
      exact List.mem_append_left _ hh
    have hd' : Distinct as := fun g hg h hh => hd g (hsub g hg) h (hsub h hh)
    exact (ih hd').snoc hd

/-- What a registry owes to its history. -/
structure Faithful (m : Membership) (as : List Action) : Prop where
  last : ∀ k h, m.LastGrantedAt as k h → ¬m.DismissedAfter as k h →
    (m.run as).find? h.user = some h
  gone : ∀ k h, m.LastGrantedAt as k h → m.DismissedAfter as k h →
    (m.run as).find? h.user = none
  never : ∀ u, (∀ k h, m.GrantedAt as k h → h.user ≠ u) → (m.run as).find? u = none
  others : ∀ k h, m.GrantedAt as k h → (m.run as).find? h.user ≠ some h →
    (m.run as).isClosed h = true
  single : ∀ j k g h, m.GrantedAt as j g → m.GrantedAt as k h → g.user = h.user →
    (m.run as).isClosed g = false → (m.run as).isClosed h = false → g = h
  /-- A connection that has made way for another one takes nothing with it when it leaves. -/
  late : ∀ k g h, m.GrantedAt as k g → (m.run as).find? g.user = some h → g ≠ h →
    (m.run (as ++ [.command (.unregister g)])).find? g.user = some h

theorem run_faithful (max : Nat) (room : Mailroom) (as : List Action) (hd : Distinct as) :
    (vacant max room).Faithful as := by
  have hc := run_chronicled max room as hd
  have entry_of_open (k : Nat) (h : Handle) (hg : (vacant max room).GrantedAt as k h)
      (ho : ((vacant max room).run as).isClosed h = false) :
      ((vacant max room).run as).find? h.user = some h := by
    by_contra hne
    rw [hc.closed k h hg hne] at ho
    cases ho
  refine ⟨?_, ?_, ?_, hc.closed, ?_, ?_⟩
  · intro k h hl hs
    exact (hc.entry h).mpr ⟨k, hl, hs⟩
  · intro k h hl hs
    cases hf : ((vacant max room).run as).find? h.user with
    | none => rfl
    | some g =>
      have hu : g.user = h.user := user_of_find? hf
      rw [← hu] at hf
      obtain ⟨j, hj, hstay⟩ := (hc.entry g).mp hf
      obtain ⟨rfl, rfl⟩ := hj.unique hl hu
      exact absurd hs hstay
  · intro u hn
    cases hf : ((vacant max room).run as).find? u with
    | none => rfl
    | some g =>
      have hu : g.user = u := user_of_find? hf
      rw [← hu] at hf
      obtain ⟨j, hj, -⟩ := (hc.entry g).mp hf
      exact absurd hu (hn j g hj.1)
  · intro j k g h hg hh hu hog hoh
    have hfg := entry_of_open j g hg hog
    have hfh := entry_of_open k h hh hoh
    rw [hu, hfh] at hfg
    exact (Option.some.inj hfg).symm
  · intro k g h hg hf hne
    have hhu : h.user = g.user := user_of_find? hf
    obtain ⟨j, ⟨hj, -⟩, -⟩ := (hc.entry h).mp (hhu ▸ hf)
    -- The one that leaves is told from the entry by its number, as numbers are not shared.
    have hid : h.id ≠ g.id := fun hid => hne (hd g (mem_named hg.1 rfl) h (mem_named hj.1 rfl) hid.symm)
    have hstale := handles_unregister ((vacant max room).run as) g
    rw [run_snoc]
    show (((vacant max room).run as).unregister g).state.find? g.user = some h
    generalize ((vacant max room).run as).unregister g = o at hstale
    cases hstale with
    | removed _ current hf' hid' =>
      rw [hf] at hf'
      cases hf'
      exact absurd hid' hid
    | stale => exact hf

/-- A user comes back before the registry has noticed that the first connection is gone. -/
def comeback : List Action :=
  let older : Handle := ⟨⟨1⟩, ⟨7, by decide⟩, 0⟩
  let newer : Handle := ⟨⟨2⟩, ⟨7, by decide⟩, 1⟩
  [.command (.register older), .outside 0 .abandon, .command (.register newer),
    .command (.unregister older), .command .sweep, .command (.dispatch ⟨.all, "note", .null, []⟩)]

theorem run_comeback :
    Distinct comeback ∧
    (vacant 4 [⟨.create 2, .empty none⟩, ⟨.create 2, .empty none⟩]).Faithful comeback ∧
    ((vacant 4 [⟨.create 2, .empty none⟩, ⟨.create 2, .empty none⟩]).run comeback).entries =
      [⟨⟨2⟩, ⟨7, by decide⟩, 1⟩] :=
  ⟨by decide, run_faithful 4 _ comeback (by decide), by decide⟩

end Membership

end PushHub.Registry
