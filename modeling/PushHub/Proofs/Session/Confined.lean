import PushHub.Proofs.Registry.Commands
import PushHub.Proofs.Session.Transition

/-! What a session does to the registry is confined to its own connection: its endpoint, its reply, and
commands about itself. -/
namespace PushHub

open Registry (Handle Mailroom Service Queued)

/-- The connection that a session has come to, if it has, is the one that its phase names. -/
def Phase.Fits (o : Option Handle) : Phase → Prop
  | .prompting _ => o = none
  | .awaiting _ => o = none
  | .rejecting _ _ endpoint => endpoint = o.map Handle.endpoint
  | .registering h _ => o = some h
  | .greeting h _ => o = some h
  | .withdrawing h _ => o = some h
  | .admitted h _ _ => o = some h
  | .refused _ => True

def Own (i : Nat) (o : Option Handle) (q : Queued) : Prop :=
  ∃ h, o = some h ∧ (q = ⟨.register h, some i⟩ ∨ q = ⟨.unregister h, none⟩)

/-- A change that session `i` makes for its own connection alone. -/
structure Confined (i : Nat) (o : Option Handle) (v v' : Service) : Prop where
  entries : v'.members.entries = v.members.entries
  running : v'.running = v.running
  capacity : v'.capacity = v.capacity
  length : v'.members.room.length = v.members.room.length
  elsewhere : ∀ n, (∀ h, o = some h → n ≠ h.endpoint) →
    v'.members.room.get n = v.members.room.get n
  queue : ∃ extra, v'.queue = v.queue ++ extra ∧ ∀ q ∈ extra, Own i o q
  replies : ∀ r ∈ v'.replies, r ∈ v.replies
  lookup : ∀ j, j ≠ i → v'.replies.lookup j = v.replies.lookup j

namespace Confined

variable {i : Nat} {o : Option Handle}

theorem refl (i : Nat) (o : Option Handle) (v : Service) : Confined i o v v where
  entries := rfl
  running := rfl
  capacity := rfl
  length := rfl
  elsewhere _ _ := rfl
  queue := ⟨[], by simp⟩
  replies _ hr := hr
  lookup _ _ := rfl

theorem trans {a b c : Service} (hab : Confined i o a b) (hbc : Confined i o b c) :
    Confined i o a c where
  entries := hbc.entries.trans hab.entries
  running := hbc.running.trans hab.running
  capacity := hbc.capacity.trans hab.capacity
  length := hbc.length.trans hab.length
  elsewhere n hn := (hbc.elsewhere n hn).trans (hab.elsewhere n hn)
  queue := by
    obtain ⟨first, hf, hfo⟩ := hab.queue
    obtain ⟨second, hs, hso⟩ := hbc.queue
    refine ⟨first ++ second, by rw [hs, hf, List.append_assoc], ?_⟩
    intro q hq
    rcases List.mem_append.mp hq with hq | hq
    · exact hfo q hq
    · exact hso q hq
  replies r hr := hab.replies r (hbc.replies r hr)
  lookup j hj := (hbc.lookup j hj).trans (hab.lookup j hj)

theorem enqueue {q : Queued} (v : Service) (hq : Own i o q) :
    Confined i o v (v.enqueue q.command q.ticket) where
  entries := rfl
  running := rfl
  capacity := rfl
  length := rfl
  elsewhere _ _ := rfl
  queue := ⟨[q], rfl, by simpa using hq⟩
  replies _ hr := hr
  lookup _ _ := rfl

theorem withRoom {h : Handle} (v : Service) (f : Mailroom → Mailroom)
    (hl : (f v.members.room).length = v.members.room.length)
    (hg : ∀ n, n ≠ h.endpoint → (f v.members.room).get n = v.members.room.get n) :
    Confined i (some h) v (v.withRoom f) where
  entries := rfl
  running := rfl
  capacity := rfl
  length := hl
  elsewhere n hn := hg n (hn h rfl)
  queue := ⟨[], (List.append_nil _).symm, by simp⟩
  replies _ hr := hr
  lookup _ _ := rfl

theorem lookup_filter_ne {α : Type} (rs : List (Nat × α)) {i j : Nat} (hj : j ≠ i) :
    (rs.filter fun r => r.1 ≠ i).lookup j = rs.lookup j := by
  induction rs with
  | nil => rfl
  | cons r rs ih =>
    obtain ⟨k, x⟩ := r
    by_cases hk : k = i
    · subst hk
      have hne : (j == k) = false := by simpa using hj
      rw [List.filter_cons_of_neg (by simp), ih, List.lookup_cons, hne]
    · rw [List.filter_cons_of_pos (by simpa using hk), List.lookup_cons, List.lookup_cons, ih]

theorem collect (v : Service) : Confined i o v (v.collect i).1 where
  entries := rfl
  running := rfl
  capacity := rfl
  length := rfl
  elsewhere _ _ := rfl
  queue := ⟨[], (List.append_nil _).symm, by simp⟩
  replies _ hr := (List.mem_filter.mp hr).1
  lookup _ hj := lookup_filter_ne v.replies hj

end Confined

namespace Inbound

/-- Carrying out reactions touches one endpoint alone, and its mailbox only gets more. -/
theorem get_perform_ne (reactions : List Reaction) (room : Mailroom) {n k : Nat} (hk : k ≠ n) :
    Mailroom.get (reactions.foldl (perform n) room) k = room.get k := by
  induction reactions generalizing room with
  | nil => rfl
  | cons r rest ih =>
    rw [List.foldl_cons, ih]
    cases r with
    | publish s => exact Mailroom.get_update_ne room _ hk
    | reply f =>
      show (room.deliver n f.frame).1.get k = room.get k
      rw [Mailroom.get_deliver, if_neg hk]

@[simp] theorem length_perform (reactions : List Reaction) (room : Mailroom) (n : Nat) :
    (reactions.foldl (perform n) room).length = room.length := by
  induction reactions generalizing room with
  | nil => rfl
  | cons r rest ih =>
    rw [List.foldl_cons, ih]
    cases r with
    | publish s => exact Mailroom.length_publish room n s
    | reply f => exact Mailroom.length_deliver room n f.frame

theorem extends_perform (reactions : List Reaction) (room : Mailroom) (n k : Nat) :
    (room.mailbox k).Extends (Mailroom.mailbox (reactions.foldl (perform n) room) k) := by
  induction reactions generalizing room with
  | nil => exact .refl _
  | cons r rest ih =>
    rw [List.foldl_cons]
    refine Mailbox.Extends.trans ?_ (ih _)
    cases r with
    | publish s =>
      show (room.mailbox k).Extends ((room.publish n s).mailbox k)
      rw [Mailroom.mailbox_publish]
      exact .refl _
    | reply f =>
      show (room.mailbox k).Extends ((room.deliver n f.frame).1.mailbox k)
      rw [Mailroom.mailbox_deliver]
      split
      · exact .deliver _ _
      · exact .refl _

end Inbound

namespace Session.Works

variable {i : Nat} {v v' : Service} {s s' : Session} {m : Move}
  {o : Option Handle}

theorem fits (hw : s.Works i v m v' s') (hf : s.phase.Fits o) : s'.phase.Fits o := by
  cases hw with
  | unprompted => rw [show o = none from hf]; rfl
  | unproved => rw [show o = none from hf]; rfl
  | denied => rw [show o = some _ from hf]; rfl
  | refused => trivial
  | released => trivial
  | withdrawn => trivial
  | _ => exact hf

theorem confined (hw : s.Works i v m v' s') (hf : s.phase.Fits o) : Confined i o v v' := by
  cases hw with
  | asked line h => exact .enqueue (q := ⟨.register h, some i⟩) v ⟨h, hf, .inl rfl⟩
  | granted => exact .collect v
  | denied => exact .collect v
  | released line line' why deadline n hl =>
    cases o with
    | none => cases hf
    | some h =>
      obtain rfl : n = h.endpoint := Option.some.inj hf
      exact .withRoom v _ (Mailroom.length_abandon _ _) fun n hn => Mailroom.get_update_ne _ _ hn
  | withdrawn line line' h err hl =>
    obtain rfl : o = some h := hf
    refine (Confined.enqueue (q := ⟨.unregister h, none⟩) v ⟨h, rfl, .inr rfl⟩).trans ?_
    exact .withRoom _ _ (Mailroom.length_abandon _ _) fun n hn => Mailroom.get_update_ne _ _ hn
  | heard line line' h deadline deadline' followed followed' reactions outbound hl =>
    obtain rfl : o = some h := hf
    exact .withRoom v _ (Inbound.length_perform _ _ _) fun n hn => Inbound.get_perform_ne _ _ hn
  | unregistered line line' h exit outbound hl =>
    obtain rfl : o = some h := hf
    refine (Confined.enqueue (q := ⟨.unregister h, none⟩) v ⟨h, rfl, .inr rfl⟩).trans ?_
    exact .withRoom _ _ (Mailroom.length_close _ _) fun n hn => Mailroom.get_update_ne _ _ hn
  | took line h =>
    obtain rfl : o = some h := hf
    exact .withRoom v _ (Mailroom.length_setMailbox _ _ _) fun n hn => Mailroom.get_update_ne _ _ hn
  | stopped line h =>
    obtain rfl : o = some h := hf
    exact .withRoom v _ (Mailroom.length_close _ _) fun n hn => Mailroom.get_update_ne _ _ hn
  | cut line line' h =>
    obtain rfl : o = some h := hf
    exact .withRoom v _ (Mailroom.length_close _ _) fun n hn => Mailroom.get_update_ne _ _ hn
  | closed line line' h =>
    obtain rfl : o = some h := hf
    exact .withRoom v _ (Mailroom.length_abandon _ _) fun n hn => Mailroom.get_update_ne _ _ hn
  | _ => exact .refl i o v

end Session.Works

end PushHub
