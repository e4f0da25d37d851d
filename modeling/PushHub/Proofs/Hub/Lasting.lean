import PushHub.Proofs.Hub.Opening

/-! What nothing takes back from a mailbox once it is there: how many frames it may hold, and the close
signal. -/
namespace PushHub

open Registry (Handle Service Mailroom Membership)

structure Mailbox.Lasts (m m' : Mailbox) : Prop where
  capacity : m'.capacity = m.capacity
  signalled : m.signalled = true → m'.signalled = true

namespace Mailbox.Lasts

variable {a b : Mailbox}

theorem refl (m : Mailbox) : m.Lasts m := ⟨rfl, id⟩

theorem of_extends (he : a.Extends b) : a.Lasts b := ⟨he.capacity, he.signalled⟩

end Mailbox.Lasts

namespace Registry.Mailroom

theorem lasts_close (room : Mailroom) (n k : Nat) :
    (room.mailbox k).Lasts ((room.close n).mailbox k) :=
  .of_extends (extends_close room n k)

theorem lasts_abandon (room : Mailroom) (n k : Nat) :
    (room.mailbox k).Lasts ((room.abandon n).mailbox k) := by
  rw [mailbox_abandon]
  split
  · exact ⟨rfl, id⟩
  · exact .refl _

theorem lasts_setMailbox (room : Mailroom) {n : Nat} {m : Mailbox} (hm : (room.mailbox n).Lasts m)
    (k : Nat) : (room.mailbox k).Lasts ((room.setMailbox n m).mailbox k) := by
  by_cases hk : k = n
  · subst hk
    by_cases hlt : k < room.length
    · rw [mailbox_setMailbox_self m hlt]
      exact hm
    · have hle : room.length ≤ k := Nat.le_of_not_lt hlt
      unfold mailbox
      rw [get_of_length_le hle, get_of_length_le ((length_setMailbox room k m).symm ▸ hle)]
      exact .refl _
  · unfold mailbox setMailbox
    rw [get_update_ne room _ hk]
    exact .refl _

end Registry.Mailroom

theorem Session.Works.lasts {i : Nat} {v v' : Service} {s s' : Session} {m : Move}
    (hw : s.Works i v m v' s') (n : Nat) :
    (v.members.room.mailbox n).Lasts (v'.members.room.mailbox n) := by
  cases hw with
  | released line line' why deadline k => exact Mailroom.lasts_abandon _ k n
  | withdrawn line line' c => exact Mailroom.lasts_abandon _ c.endpoint n
  | heard line line' c deadline deadline' followed followed' reactions =>
    exact .of_extends (Inbound.extends_perform reactions _ c.endpoint n)
  | unregistered line line' c => exact Mailroom.lasts_close _ c.endpoint n
  | took line c inbound k f rest =>
    exact Mailroom.lasts_setMailbox v.members.room (n := c.endpoint)
      (m := { v.members.room.mailbox c.endpoint with queue := rest }) ⟨rfl, id⟩ n
  | stopped line c => exact Mailroom.lasts_close _ c.endpoint n
  | cut line line' c => exact Mailroom.lasts_close _ c.endpoint n
  | closed line line' c => exact Mailroom.lasts_abandon _ c.endpoint n
  | _ => exact .refl _

namespace Hub

variable {start h h' : Hub} {a : Action} {ms : List Moment} {n : Nat}

/-- A mailbox lasts whatever happens; one that is not there yet may be created. -/
theorem Acts.lasts (ha : h.Acts a h') (n : Nat) :
    (h.mailbox n).Lasts (h'.mailbox n) ∨
      (n = h.service.members.room.length ∧ h'.mailbox n = .create h.settings.mailboxCapacity) := by
  have hadded : (h.mailbox n).Lasts (h.allot.mailbox n) ∨
      (n = h.service.members.room.length ∧
        h.allot.mailbox n = .create h.settings.mailboxCapacity) := by
    show (h.service.members.room.mailbox n).Lasts (Mailroom.mailbox (_ ++ [_]) n) ∨
      (_ ∧ Mailroom.mailbox (_ ++ [_]) n = _)
    unfold Mailroom.mailbox
    rcases Nat.lt_trichotomy n h.service.members.room.length with hlt | rfl | hgt
    · rw [Mailroom.get_append_of_lt _ hlt]
      exact .inl (.refl _)
    · rw [Mailroom.get_append_length]
      exact .inr ⟨rfl, rfl⟩
    · rw [Mailroom.get_of_length_le (Nat.le_of_lt hgt),
        Mailroom.get_of_length_le (by rw [List.length_append]; exact hgt)]
      exact .inl (.refl _)
  cases ha with
  | served q rest hq =>
    refine .inl (.of_extends ?_)
    unfold mailbox
    dsimp only
    rw [Service.members_serve hq]
    exact Membership.extends_handle _ _ _
  | worked i m s s' v hs hw => exact .inl (hw.lasts n)
  | proved i line line' deadline u hs hl => exact hadded
  | registered u line => exact hadded
  | _ => exact .inl (.refl _)

theorem Run.capacity_le (hr : Run start ms h) (hs : start.Fresh) (n : Nat) :
    (h.mailbox n).capacity ≤ max start.settings.mailboxCapacity 1 := by
  induction hr with
  | nil =>
    obtain ⟨settings, registry, verifier, channels, clock, rfl⟩ := hs
    exact Nat.le_max_right _ _
  | snoc hr ha ih =>
    rcases (acts_of_act (hr.ledger hs).running ha).lasts n with hlasts | ⟨-, hnew⟩
    · rw [hlasts.capacity]
      exact ih
    · rw [hnew, ← (hr.fixed hs).1]
      exact Nat.le_refl _

end Hub

end PushHub
