import PushHub.Proofs.Mailbox
import PushHub.Registry.Membership

/-! What an operation on one endpoint does to every endpoint. A number that was never given out
stands for a mailbox that is closed for good, so most laws need no bound on the number. -/
namespace PushHub

namespace Registry.Mailroom

@[simp] theorem length_update (room : Mailroom) (n : Nat) (f : Endpoint → Endpoint) :
    (room.update n f).length = room.length := by
  simp [update]

theorem get_of_length_le {room : Mailroom} {n : Nat} (h : room.length ≤ n) :
    room.get n = nowhere := by
  simp [get, List.getElem?_eq_none h]

theorem get_update_ne (room : Mailroom) {n k : Nat} (f : Endpoint → Endpoint) (h : k ≠ n) :
    (room.update n f).get k = room.get k := by
  simp [get, update, h.symm]

theorem get_update_self {room : Mailroom} {n : Nat} (f : Endpoint → Endpoint)
    (h : n < room.length) : (room.update n f).get n = f (room.get n) := by
  simp [get, update, List.getElem?_eq_getElem h]

theorem get_update (room : Mailroom) (n k : Nat) {f : Endpoint → Endpoint}
    (h : f nowhere = nowhere) :
    (room.update n f).get k = if k = n then f (room.get k) else room.get k := by
  split
  · rename_i heq
    subst heq
    by_cases hk : k < room.length
    · exact get_update_self f hk
    · rw [get_of_length_le (by simpa using hk), get_of_length_le (by simpa using hk), h]
  · rename_i hne
    exact get_update_ne room f hne

theorem get_update_cases (room : Mailroom) (n k : Nat) (f : Endpoint → Endpoint) :
    (room.update n f).get k = room.get k ∨ (room.update n f).get k = f (room.get k) := by
  by_cases hk : k = n
  · subst hk
    by_cases hlt : k < room.length
    · exact .inr (get_update_self f hlt)
    · left
      rw [get_of_length_le (by simpa using hlt), get_of_length_le (by simpa using hlt)]
  · exact .inl (get_update_ne room f hk)

theorem get_close (room : Mailroom) (n k : Nat) :
    (room.close n).get k =
      if k = n then { room.get k with mailbox := (room.get k).mailbox.close } else room.get k :=
  get_update room n k rfl

theorem mailbox_close (room : Mailroom) (n k : Nat) :
    (room.close n).mailbox k = if k = n then (room.mailbox k).close else room.mailbox k := by
  unfold mailbox
  rw [get_close]
  split <;> rfl

theorem mailbox_abandon (room : Mailroom) (n k : Nat) :
    (room.abandon n).mailbox k = if k = n then (room.mailbox k).abandon else room.mailbox k := by
  unfold mailbox abandon
  rw [get_update room n k rfl]
  split <;> rfl

theorem mailbox_close_self (room : Mailroom) (n : Nat) :
    (room.close n).mailbox n = (room.mailbox n).close := by
  rw [mailbox_close, if_pos rfl]

theorem mailbox_abandon_self (room : Mailroom) (n : Nat) :
    (room.abandon n).mailbox n = (room.mailbox n).abandon := by
  rw [mailbox_abandon, if_pos rfl]

theorem extends_close (room : Mailroom) (n k : Nat) :
    (room.mailbox k).Extends ((room.close n).mailbox k) := by
  rw [mailbox_close]
  split
  · exact .close _
  · exact .refl _

theorem mailbox_publish (room : Mailroom) (n k : Nat) (s : SubscriptionSet) :
    (room.publish n s).mailbox k = room.mailbox k := by
  by_cases h : k = n
  · subst h
    by_cases hk : k < room.length
    · simp [mailbox, publish, get_update_self _ hk]
    · rw [mailbox, mailbox, get_of_length_le (by simpa [publish] using hk),
        get_of_length_le (by simpa using hk)]
  · simp [mailbox, publish, get_update_ne _ _ h]

theorem get_deliver (room : Mailroom) (n k : Nat) (f : Frame) :
    (room.deliver n f).1.get k =
      if k = n then { room.get k with mailbox := ((room.get k).mailbox.deliver f).1 }
      else room.get k := by
  unfold deliver setMailbox
  by_cases h : k = n
  · subst h
    rw [if_pos rfl]
    by_cases hk : k < room.length
    · exact get_update_self _ hk
    · rw [get_of_length_le (by simpa using hk), get_of_length_le (by simpa using hk)]
      rfl
  · rw [if_neg h]
    exact get_update_ne _ _ h

theorem mailbox_deliver (room : Mailroom) (n k : Nat) (f : Frame) :
    (room.deliver n f).1.mailbox k =
      if k = n then ((room.mailbox k).deliver f).1 else room.mailbox k := by
  unfold mailbox
  rw [get_deliver]
  split <;> rfl


theorem mailbox_setMailbox_self {room : Mailroom} {n : Nat} (m : Mailbox) (h : n < room.length) :
    (room.setMailbox n m).mailbox n = m := by
  unfold mailbox setMailbox
  rw [get_update_self _ h]

theorem get_append_of_lt {room : Mailroom} {n : Nat} (e : Endpoint) (h : n < room.length) :
    Mailroom.get (room ++ [e]) n = room.get n := by
  simp [get, List.getElem?_append_left h]

theorem get_append_length (room : Mailroom) (e : Endpoint) :
    Mailroom.get (room ++ [e]) room.length = e := by
  simp [get]

@[simp] theorem length_close (room : Mailroom) (n : Nat) : (room.close n).length = room.length :=
  length_update room n _

@[simp] theorem length_abandon (room : Mailroom) (n : Nat) :
    (room.abandon n).length = room.length :=
  length_update room n _

@[simp] theorem length_publish (room : Mailroom) (n : Nat) (s : SubscriptionSet) :
    (room.publish n s).length = room.length :=
  length_update room n _

@[simp] theorem length_setMailbox (room : Mailroom) (n : Nat) (m : Mailbox) :
    (room.setMailbox n m).length = room.length :=
  length_update room n _

@[simp] theorem length_deliver (room : Mailroom) (n : Nat) (f : Frame) :
    (room.deliver n f).1.length = room.length :=
  length_update room n _

theorem get_closeAll (room : Mailroom) (hs : List Handle) (k : Nat) :
    (hs.foldl (fun room h => room.close h.endpoint) room).get k =
      if ∃ h ∈ hs, h.endpoint = k then
        { room.get k with mailbox := (room.get k).mailbox.close }
      else room.get k := by
  induction hs generalizing room with
  | nil => simp
  | cons h hs ih =>
    rw [List.foldl_cons, ih, get_close]
    by_cases hk : h.endpoint = k
    · subst hk
      simp [Mailbox.close]
    · have hne : k ≠ h.endpoint := fun heq => hk heq.symm
      simp [hk, hne]

@[simp] theorem length_closeAll (room : Mailroom) (hs : List Handle) :
    (hs.foldl (fun room h => room.close h.endpoint) room).length = room.length := by
  induction hs generalizing room with
  | nil => rfl
  | cons h hs ih => rw [List.foldl_cons, ih, length_close]

theorem mailbox_closeAll (room : Mailroom) (hs : List Handle) (k : Nat) :
    (hs.foldl (fun room h => room.close h.endpoint) room).mailbox k =
      if ∃ h ∈ hs, h.endpoint = k then (room.mailbox k).close else room.mailbox k := by
  unfold mailbox
  rw [get_closeAll]
  split <;> rfl

theorem extends_closeAll (room : Mailroom) (hs : List Handle) (k : Nat) :
    (room.mailbox k).Extends ((hs.foldl (fun room h => room.close h.endpoint) room).mailbox k) := by
  induction hs generalizing room with
  | nil => exact .refl _
  | cons h hs ih => exact (extends_close room h.endpoint k).trans (ih _)

end Registry.Mailroom

end PushHub
