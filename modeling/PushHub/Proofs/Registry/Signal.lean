import PushHub.Proofs.Registry.Shutdown
import PushHub.Session.Inbound
import PushHub.Session.Outbound

/-! Whoever leaves the registry is told to stop. Three of the ways out give the close signal; a sweep
only takes what is closed already, and a mailbox also counts as closed when its receiver is gone. -/
namespace PushHub.Registry

/-- A sweep takes a connection whose receiver is gone and that was never told to stop. -/
structure Moment.Forsakes (t : Moment) (h : Handle) : Prop where
  swept : t.action = .command .sweep
  listed : h ∈ t.before.entries
  abandoned : (t.before.room.mailbox h.endpoint).abandoned = true
  unsignalled : (t.before.room.mailbox h.endpoint).signalled = false

def Forsaken (ts : List Moment) (h : Handle) : Prop :=
  ∃ before t after, ts = before ++ t :: after ∧ t.Forsakes h ∧ ∀ s ∈ after, h ∉ s.before.entries

theorem Forsaken.snoc {ts : List Moment} {t : Moment} {h : Handle} (hf : Forsaken ts h)
    (hout : h ∉ t.before.entries) : Forsaken (ts ++ [t]) h := by
  obtain ⟨before, s, after, rfl, hs, hafter⟩ := hf
  refine ⟨before, s, after ++ [t], by simp, hs, fun u hu => ?_⟩
  rcases List.mem_append.mp hu with hu | hu
  · exact hafter u hu
  · rw [List.mem_singleton.mp hu]
    exact hout

/-! ## The signal -/

theorem Handling.signalled_on {e : Endpoint} (a : Handling) (hs : e.mailbox.signalled = true) :
    (a.on e).mailbox.signalled = true := by
  cases a with
  | take => exact (Mailbox.signalled_take _).trans hs
  | deliver f => exact (Mailbox.signalled_deliver _ f).trans hs
  | publish s => exact hs
  | close => rfl
  | abandon => exact hs

namespace Membership

theorem signalled_act {m : Membership} {n : Nat} (a : Action)
    (hs : (m.room.mailbox n).signalled = true) : ((m.act a).room.mailbox n).signalled = true := by
  cases a with
  | command c => exact (extends_handle m c n).signalled hs
  | outside k a =>
    show ((m.room.update k (Handling.on · a)).get n).mailbox.signalled = true
    rcases Mailroom.get_update_cases m.room k n (Handling.on · a) with heq | heq
    · rw [heq]
      exact hs
    · rw [heq]
      exact Handling.signalled_on a hs

/-- A connection has been given the close signal: its mailbox hands out nothing any more, and each of
its loops stops as soon as it looks. -/
structure Releases (m : Membership) (h : Handle) : Prop where
  signalled : (m.room.mailbox h.endpoint).signalled = true
  ended : (m.room.mailbox h.endpoint).take.2 = .ended
  reads : ∀ (e : Surroundings) (line : Line) (v : Service) (deadline : Nat)
    (followed : SubscriptionSet), v.members = m →
    Inbound.step e h line v (.running deadline followed) = some (line, v, .leaving .mailboxClosed)
  writes : ∀ (e : Surroundings) (line : Line) (v : Service) (keepalive : Ticker), v.members = m →
    Outbound.step e h line v (.idle keepalive) = Outbound.stop h line v .mailboxClosed

theorem releases_of_signalled {m : Membership} {h : Handle}
    (hs : (m.room.mailbox h.endpoint).signalled = true) : m.Releases h := by
  have htake := Mailbox.take_of_signalled hs
  refine ⟨hs, congrArg Prod.snd htake, ?_, ?_⟩
  · rintro e line v deadline followed rfl
    unfold Inbound.step
    dsimp only
    rw [if_pos hs]
  · rintro e line v keepalive rfl
    unfold Outbound.step
    dsimp only
    rw [htake]

end Membership

/-! ## Leaving -/

namespace Course

variable {max : Nat} {room : Mailroom} {ts : List Moment} {m : Membership} {h : Handle}

/-- Who has been an entry under a number of its own is one still, or has been told to stop, or was
swept when its receiver was gone. -/
theorem entry_or_signalled (hc : Course (.vacant max room) ts m) (hu : Unshared h ts)
    (hin : ∃ t ∈ ts, h ∈ t.before.entries) :
    h ∈ m.entries ∨ m.isClosed h = true ∧
      ((m.room.mailbox h.endpoint).signalled = true ∨ Forsaken ts h) := by
  induction hc with
  | nil =>
    obtain ⟨t, ht, -⟩ := hin
    exact nomatch ht
  | @snoc ts m hc entries hp a ih =>
    have hk := Membership.keyed_inOrder (hc.keyed List.nodup_nil) hp
    rw [Moment.after_eq]
    by_cases hlast : h ∈ (m.inOrder entries).entries
    · -- It is an entry right before the last action, so that it stays one or leaves now.
      by_cases hstay : h ∈ ((m.inOrder entries).act a).entries
      · exact .inl hstay
      · right
        cases a with
        | outside n a => exact absurd hlast hstay
        | command c =>
          have hown : ∀ g, c.handle? = some g → h.id = g.id → h = g := fun g hg hid =>
            (hu _ (List.mem_append_right _ (List.mem_singleton_self _)) g hg hid.symm).symm
          have hout : (Membership.handle (m.inOrder entries) c).state.find? h.user ≠ some h :=
            fun hf => hstay (Membership.mem_of_find? hf)
          have ho := Membership.handles_handle (m.inOrder entries) c
          refine ⟨ho.isClosed_of_left hk hown (hk.find?_eq_some.mpr hlast) hout, ?_⟩
          rcases ho.signalled_of_left hk hown (hk.find?_eq_some.mpr hlast) hout with
            hs | ⟨rfl, hclosed, hroom⟩
          · exact .inl hs
          · cases hs : (m.room.mailbox h.endpoint).signalled with
            | true =>
              left
              show ((Membership.handle (m.inOrder entries) .sweep).state.room.mailbox
                h.endpoint).signalled = true
              rw [hroom]
              exact hs
            | false =>
              have hgone : (m.room.mailbox h.endpoint).abandoned = true := by
                have : ((m.room.mailbox h.endpoint).signalled ||
                  (m.room.mailbox h.endpoint).abandoned) = true := hclosed
                rwa [hs, Bool.false_or] at this
              exact .inr ⟨ts, _, [], rfl, ⟨rfl, hlast, hgone, hs⟩, nofun⟩
    · -- It had left before, and nothing takes a signal back or opens a mailbox again.
      obtain ⟨t, ht, hth⟩ := hin
      have ht' : t ∈ ts := by
        rcases List.mem_append.mp ht with ht | ht
        · exact ht
        · rw [List.mem_singleton.mp ht] at hth
          exact absurd hth hlast
      rcases ih hu.of_append ⟨t, ht', hth⟩ with hmem | ⟨hclosed, hs | hf⟩
      · exact absurd (hp.mem_iff.mpr hmem) hlast
      · exact .inr ⟨Membership.isClosed_act _ a h hclosed, .inl (Membership.signalled_act a hs)⟩
      · exact .inr ⟨Membership.isClosed_act _ a h hclosed, .inr (hf.snoc hlast)⟩

end Course

/-- What becomes of a connection that has left. -/
structure Dismissed (ts : List Moment) (m : Membership) (h : Handle) : Prop where
  closed : m.isClosed h = true
  released : ¬Forsaken ts h → m.Releases h

theorem Course.dismissed {max : Nat} {room : Mailroom} {ts : List Moment} {m : Membership} {h : Handle}
    (hc : Course (.vacant max room) ts m) (hu : Unshared h ts)
    (hin : ∃ t ∈ ts, h ∈ t.before.entries) (hout : h ∉ m.entries) : Dismissed ts m h := by
  rcases hc.entry_or_signalled hu hin with hmem | ⟨hclosed, hs | hf⟩
  · exact absurd hmem hout
  · exact ⟨hclosed, fun _ => Membership.releases_of_signalled hs⟩
  · exact ⟨hclosed, fun hnot => absurd hf hnot⟩

def visit (n : Nat) : Handle := ⟨⟨UInt64.ofNat (n + 1)⟩, ⟨9, by decide⟩, n⟩

def emptyRooms : Membership := .vacant 4 (List.replicate 3 ⟨.create 2, .empty none⟩)

/-- The first visit loses its receiver and makes way for the second, which asks to be removed; during
the third the registry is shut down. -/
def returns : List Action :=
  [.command (.register (visit 0)), .outside 0 .abandon, .command (.register (visit 1)),
    .command (.unregister (visit 1)), .command (.register (visit 2)), .command .shutdown]

theorem dismissed_returns :
    (Unshared (visit 1) (trail emptyRooms returns) ∧
      (∃ t ∈ trail emptyRooms returns, visit 1 ∈ t.before.entries) ∧
      visit 1 ∉ (emptyRooms.run returns).entries) ∧
    Dismissed (trail emptyRooms returns) (emptyRooms.run returns) (visit 1) := by
  have hu : Unshared (visit 1) (trail emptyRooms returns) := by decide
  have hin : ∃ t ∈ trail emptyRooms returns, visit 1 ∈ t.before.entries := by decide
  have hout : visit 1 ∉ (emptyRooms.run returns).entries := by decide
  exact ⟨⟨hu, hin, hout⟩, (Course.ofTrail emptyRooms returns).dismissed hu hin hout⟩

/-- A visit is removed in the name of another one, which has its number. -/
def mistaken : List Action :=
  [.command (.register (visit 0)), .command (.unregister { visit 0 with endpoint := 1 })]

def swept : List Action :=
  [.command (.register (visit 0)), .outside 0 .abandon, .command .sweep]

/-- Leaving is not enough to be told to stop: neither for those who share a number, though no receiver
is lost, nor for those who are swept, though no number is shared. -/
theorem not_all_signalled_of_left :
    (¬∀ (as : List Action) (h : Handle), (∀ a ∈ as, ∀ n, a ≠ .outside n .abandon) →
      (∃ t ∈ trail emptyRooms as, h ∈ t.before.entries) → h ∉ (emptyRooms.run as).entries →
      ((emptyRooms.run as).room.mailbox h.endpoint).signalled = true) ∧
    ¬∀ (as : List Action) (h : Handle), Unshared h (trail emptyRooms as) →
      (∃ t ∈ trail emptyRooms as, h ∈ t.before.entries) → h ∉ (emptyRooms.run as).entries →
      ((emptyRooms.run as).room.mailbox h.endpoint).signalled = true := by
  constructor
  · intro hall
    have := hall mistaken (visit 0) (by simp [mistaken]) (by decide) (by decide)
    exact absurd this (by decide)
  · intro hall
    have := hall swept (visit 0) (by decide) (by decide) (by decide)
    exact absurd this (by decide)

end PushHub.Registry
