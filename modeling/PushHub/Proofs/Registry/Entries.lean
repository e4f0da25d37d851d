import PushHub.Proofs.Mailroom
import Mathlib.Data.List.Nodup

/-! What a command can do to the registry, one case for each way it can end, and what becomes of the
entry of a user and of the mailboxes. -/
namespace PushHub.Registry.Membership

/-! ## The entry of a user -/

theorem user_of_find? {m : Membership} {u : UserId} {h : Handle} (hf : m.find? u = some h) :
    h.user = u := by
  have := List.find?_some hf
  simpa using this

theorem mem_of_find? {m : Membership} {u : UserId} {h : Handle} (hf : m.find? u = some h) :
    h ∈ m.entries :=
  List.mem_of_find?_eq_some hf

def Keyed (m : Membership) : Prop := (m.entries.map Handle.user).Nodup

instance (m : Membership) : Decidable m.Keyed :=
  inferInstanceAs (Decidable (m.entries.map Handle.user).Nodup)

theorem Keyed.eq_of_user {m : Membership} (hk : m.Keyed) {g h : Handle} (hg : g ∈ m.entries)
    (hh : h ∈ m.entries) (hu : g.user = h.user) : g = h := by
  unfold Keyed at hk
  exact List.inj_on_of_nodup_map hk hg hh hu

theorem Keyed.find?_eq_some {m : Membership} (hk : m.Keyed) {h : Handle} :
    m.find? h.user = some h ↔ h ∈ m.entries := by
  constructor
  · exact mem_of_find?
  · intro hm
    cases hf : m.find? h.user with
    | none =>
      have := List.find?_eq_none.mp hf h hm
      simp at this
    | some g => rw [hk.eq_of_user (mem_of_find? hf) hm (user_of_find? hf)]

@[simp] theorem find?_close (m : Membership) (h : Handle) (u : UserId) :
    (m.close h).find? u = m.find? u := rfl

theorem find?_without (entries : List Handle) (v u : UserId) :
    (entries.filter fun g => g.user ≠ v).find? (fun g => g.user = u) =
      if u = v then none else entries.find? fun g => g.user = u := by
  split
  · rename_i heq
    rw [List.find?_eq_none]
    intro g hg
    have hne := (List.mem_filter.mp hg).2
    simpa [heq] using hne
  · rename_i hne
    induction entries with
    | nil => rfl
    | cons g rest ih =>
      by_cases hv : g.user = v
      · have hu : g.user ≠ u := fun h => hne (h.symm.trans hv)
        rw [List.filter_cons_of_neg (by simp [hv]), ih, List.find?_cons_of_neg (by simp [hu])]
      · rw [List.filter_cons_of_pos (by simp [hv]), List.find?_cons, List.find?_cons, ih]

theorem find?_insert (m : Membership) (h : Handle) (u : UserId) :
    (m.insert h).find? u = if u = h.user then some h else m.find? u := by
  unfold find? insert
  rw [List.find?_append, find?_without]
  split
  · rename_i heq
    simp [heq]
  · rename_i hne
    have hother : h.user ≠ u := fun heq => hne heq.symm
    simp [hother]

theorem find?_erase (m : Membership) (v u : UserId) :
    (m.erase v).find? u = if u = v then none else m.find? u :=
  find?_without m.entries v u

theorem keyed_insert {m : Membership} (hk : m.Keyed) (h : Handle) : (m.insert h).Keyed := by
  unfold Keyed insert at *
  rw [List.map_append, List.nodup_append]
  refine ⟨(List.Sublist.map _ List.filter_sublist).nodup hk, by simp, ?_⟩
  intro u hu v hv
  obtain ⟨g, hg, rfl⟩ := List.mem_map.mp hu
  have hne := (List.mem_filter.mp hg).2
  simp only [List.map_cons, List.map_nil, List.mem_singleton] at hv
  subst hv
  simpa using hne

theorem keyed_filter {m : Membership} (hk : m.Keyed) (p : Handle → Bool) :
    ((m.entries.filter p).map Handle.user).Nodup :=
  (List.Sublist.map _ List.filter_sublist).nodup hk

/-! ## Every way a command can end -/

/-- What handling a command comes to. -/
inductive Handles (m : Membership) : Command → Outcome → Prop
  | late (h : Handle) (hs : m.shuttingDown = true) :
      Handles m (.register h) ⟨m.close h, [], some (.registered (.error .shuttingDown))⟩
  | again (h current : Handle) (hs : m.shuttingDown = false)
      (hf : m.find? h.user = some current) (hid : current.id = h.id) :
      Handles m (.register h) ⟨m, [], some (.registered (.ok .new))⟩
  | superseded (h current : Handle) (hs : m.shuttingDown = false)
      (hf : m.find? h.user = some current) (hid : current.id ≠ h.id) :
      Handles m (.register h) ⟨(m.insert h).close current,
        [.connected h.user h.id, .disconnected h.user current.id .superseded],
        some (.registered (.ok (.superseded current.id)))⟩
  | full (h : Handle) (hs : m.shuttingDown = false) (hf : m.find? h.user = none)
      (hm : m.maxConnections ≤ m.entries.length) :
      Handles m (.register h) ⟨m, [], some (.registered (.error (.full m.maxConnections)))⟩
  | admitted (h : Handle) (hs : m.shuttingDown = false) (hf : m.find? h.user = none)
      (hm : m.entries.length < m.maxConnections) :
      Handles m (.register h)
        ⟨m.insert h, [.connected h.user h.id], some (.registered (.ok .new))⟩
  | removed (h current : Handle) (hf : m.find? h.user = some current) (hid : current.id = h.id) :
      Handles m (.unregister h)
        ⟨(m.close h).erase h.user, [.disconnected h.user h.id .closed], none⟩
  | stale (h : Handle) (hf : ∀ current, m.find? h.user = some current → current.id ≠ h.id) :
      Handles m (.unregister h) ⟨m.close h, [], none⟩
  | dispatched (r : DispatchRequest) : Handles m (.dispatch r) (m.dispatch r)
  | counted : Handles m .stats ⟨m, [], some (.stats m.stats)⟩
  | looked (u : UserId) : Handles m (.online u) ⟨m, [], some (.online (m.find? u).isSome)⟩
  | swept : Handles m .sweep m.sweep
  | ended : Handles m .shutdown m.shutdown

theorem handles_register (m : Membership) (h : Handle) : m.Handles (.register h) (m.register h) := by
  unfold register
  split
  · rename_i hs
    exact .late h hs
  · rename_i hs
    have hs : m.shuttingDown = false := by simpa using hs
    split
    · rename_i current hf
      split
      · rename_i hid
        exact .again h current hs hf hid
      · rename_i hid
        exact .superseded h current hs hf hid
    · rename_i hf
      split
      · rename_i hm
        exact .full h hs hf hm
      · rename_i hm
        exact .admitted h hs hf (Nat.lt_of_not_le hm)

theorem handles_unregister (m : Membership) (h : Handle) :
    m.Handles (.unregister h) (m.unregister h) := by
  unfold unregister
  dsimp only
  rw [find?_close]
  split
  · rename_i current hf
    split
    · rename_i hid
      exact .removed h current hf hid
    · rename_i hid
      refine .stale h fun g hg => ?_
      rw [hf] at hg
      cases hg
      exact hid
  · rename_i hf
    exact .stale h fun g hg => by rw [hf] at hg; cases hg

theorem handles_handle (m : Membership) (c : Command) : m.Handles c (m.handle c) := by
  cases c with
  | register h => exact handles_register m h
  | unregister h => exact handles_unregister m h
  | dispatch r => exact .dispatched r
  | stats => exact .counted
  | online u => exact .looked u
  | sweep => exact .swept
  | shutdown => exact .ended

end PushHub.Registry.Membership
