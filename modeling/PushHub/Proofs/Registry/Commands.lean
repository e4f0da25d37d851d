import PushHub.Proofs.Registry.Fanout
import PushHub.Registry.Service

/-! What a command leaves as it is: the shape of the registry, and every connection that the command
is not about. -/
namespace PushHub.Registry

def Command.handle? : Command → Option Handle
  | .register h => some h
  | .unregister h => some h
  | _ => none

namespace Membership

/-- An entry is told from the connection a command is about by its number. -/
def Tells (m : Membership) (c : Command) : Prop :=
  ∀ g ∈ m.entries, ∀ h, c.handle? = some h → g.id = h.id → g = h

theorem extends_handle (m : Membership) (c : Command) (n : Nat) :
    (m.room.mailbox n).Extends ((m.handle c).state.room.mailbox n) := by
  have ho := m.handles_handle c
  generalize m.handle c = o at ho ⊢
  cases ho with
  | late h hs => exact m.room.extends_close _ _
  | again h current hs hf hid => exact .refl _
  | superseded h current hs hf hid => exact m.room.extends_close _ _
  | full h hs hf hm => exact .refl _
  | admitted h hs hf hm => exact .refl _
  | removed h current hf hid => exact m.room.extends_close _ _
  | stale h hf => exact m.room.extends_close _ _
  | dispatched r => exact extends_offerAll r (frameOf r) m.counted (m.recipients r.target) n
  | counted => exact .refl _
  | looked u => exact .refl _
  | swept => exact .refl _
  | ended => exact Mailroom.extends_closeAll _ _ _

@[simp] theorem entries_dispatch (m : Membership) (r : DispatchRequest) :
    (m.dispatch r).state.entries = m.entries := by
  rw [dispatch_eq]
  exact (offerAll_frame r (frameOf r) m.counted _).1

theorem keyed_handle {m : Membership} (hk : m.Keyed) (c : Command) : (m.handle c).state.Keyed := by
  have ho := m.handles_handle c
  generalize m.handle c = o at ho ⊢
  cases ho with
  | late h hs => exact hk
  | again h current hs hf hid => exact hk
  | superseded h current hs hf hid => exact keyed_insert hk h
  | full h hs hf hm => exact hk
  | admitted h hs hf hm => exact keyed_insert hk h
  | removed h current hf hid => exact keyed_filter hk _
  | stale h hf => exact hk
  | dispatched r =>
    unfold Keyed
    rw [entries_dispatch]
    exact hk
  | counted => exact hk
  | looked u => exact hk
  | swept =>
    unfold Keyed sweep
    simp only [List.partition_eq_filter_filter]
    exact keyed_filter hk _
  | ended => exact List.nodup_nil

theorem length_handle (m : Membership) (c : Command) :
    (m.handle c).state.room.length = m.room.length := by
  have ho := m.handles_handle c
  generalize m.handle c = o at ho ⊢
  cases ho with
  | late h hs => exact Mailroom.length_close _ _
  | again h current hs hf hid => rfl
  | superseded h current hs hf hid => exact Mailroom.length_close _ _
  | full h hs hf hm => rfl
  | admitted h hs hf hm => rfl
  | removed h current hf hid => exact Mailroom.length_close _ _
  | stale h hf => exact Mailroom.length_close _ _
  | dispatched r =>
    rw [dispatch_eq]
    exact (offerAll_frame r (frameOf r) m.counted _).2.2.2.1
  | counted => rfl
  | looked u => rfl
  | swept => rfl
  | ended => exact Mailroom.length_closeAll _ _

theorem queue_handle (m : Membership) {c : Command} (hc : ∀ r, c ≠ .dispatch r) (n : Nat) :
    ((m.handle c).state.room.mailbox n).queue = (m.room.mailbox n).queue := by
  have hclose (h : Handle) :
      ((m.room.close h.endpoint).mailbox n).queue = (m.room.mailbox n).queue := by
    rw [Mailroom.mailbox_close]
    split <;> rfl
  have ho := m.handles_handle c
  generalize m.handle c = o at ho ⊢
  cases ho with
  | late h hs => exact hclose h
  | again h current hs hf hid => rfl
  | superseded h current hs hf hid => exact hclose current
  | full h hs hf hm => rfl
  | admitted h hs hf hm => rfl
  | removed h current hf hid => exact hclose h
  | stale h hf => exact hclose h
  | dispatched r => exact absurd rfl (hc r)
  | counted => rfl
  | looked u => rfl
  | swept => rfl
  | ended =>
    change (Mailroom.mailbox (m.entries.foldl _ m.room) n).queue = _
    rw [Mailroom.mailbox_closeAll]
    split <;> rfl

theorem mem_entries_sweep {m : Membership} {h : Handle} :
    h ∈ m.sweep.state.entries ↔ h ∈ m.entries ∧ m.isClosed h = false := by
  unfold sweep
  simp [List.partition_eq_filter_filter]

theorem mem_entries_insert {m : Membership} {g h : Handle} :
    h ∈ (m.insert g).entries ↔ (h ∈ m.entries ∧ h.user ≠ g.user) ∨ h = g := by
  simp [insert]

theorem mem_entries_erase {m : Membership} {u : UserId} {h : Handle} :
    h ∈ (m.erase u).entries ↔ h ∈ m.entries ∧ h.user ≠ u := by
  simp [erase]

theorem not_mem_unregister {m : Membership} (hk : m.Keyed) (h : Handle) :
    h ∉ (m.handle (.unregister h)).state.entries := by
  intro hmem
  have ho := m.handles_handle (.unregister h)
  generalize m.handle (.unregister h) = o at ho hmem
  cases ho with
  | removed _ current hf hid => exact (mem_entries_erase.mp hmem).2 rfl
  | stale _ hf => exact hf h (hk.find?_eq_some.mpr hmem) rfl

theorem mem_entries_handle {m : Membership} {c : Command} {h : Handle}
    (hh : h ∈ (m.handle c).state.entries) : h ∈ m.entries ∨ c = .register h := by
  have ho := m.handles_handle c
  generalize m.handle c = o at ho hh
  cases ho with
  | late g hs => exact .inl hh
  | again g current hs hf hid => exact .inl hh
  | superseded g current hs hf hid =>
    rcases mem_entries_insert.mp hh with ⟨hh, -⟩ | rfl
    · exact .inl hh
    · exact .inr rfl
  | full g hs hf hm => exact .inl hh
  | admitted g hs hf hm =>
    rcases mem_entries_insert.mp hh with ⟨hh, -⟩ | rfl
    · exact .inl hh
    · exact .inr rfl
  | removed g current hf hid => exact .inl (mem_entries_erase.mp hh).1
  | stale g hf => exact .inl hh
  | dispatched r => exact .inl (entries_dispatch m r ▸ hh)
  | counted => exact .inl hh
  | looked u => exact .inl hh
  | swept => exact .inl (mem_entries_sweep.mp hh).1
  | ended => exact nomatch hh

theorem find?_sweep {m : Membership} (hk : m.Keyed) (u : UserId) :
    m.sweep.state.find? u = (m.find? u).filter fun h => !m.isClosed h := by
  unfold sweep find?
  simp only [List.partition_eq_filter_filter]
  cases hf : m.entries.find? (fun h => h.user = u) with
  | none =>
    rw [List.find?_eq_none] at hf
    rw [Option.filter_none, List.find?_eq_none]
    exact fun g hg => hf g (List.mem_filter.mp hg).1
  | some h =>
    have hu : h.user = u := user_of_find? hf
    have hmem : h ∈ m.entries := mem_of_find? hf
    rw [Option.filter_some]
    split
    · rename_i hc
      have hstay : h ∈ m.entries.filter (not ∘ m.isClosed) := List.mem_filter.mpr ⟨hmem, hc⟩
      cases hg : (m.entries.filter (not ∘ m.isClosed)).find? (fun h => h.user = u) with
      | none =>
        have := List.find?_eq_none.mp hg h hstay
        simp [hu] at this
      | some g =>
        have hgm := (List.mem_filter.mp (List.mem_of_find?_eq_some hg)).1
        have hgu : g.user = u := by simpa using List.find?_some hg
        rw [hk.eq_of_user hgm hmem (hgu.trans hu.symm)]
    · rename_i hc
      rw [List.find?_eq_none]
      intro g hg hgu
      obtain ⟨hgm, hgc⟩ := List.mem_filter.mp hg
      have hgu : g.user = u := by simpa using hgu
      rw [hk.eq_of_user hgm hmem (hgu.trans hu.symm)] at hgc
      exact hc hgc

theorem find?_shutdown (m : Membership) (u : UserId) : m.shutdown.state.find? u = none := rfl

theorem find?_dispatch (m : Membership) (r : DispatchRequest) (u : UserId) :
    (m.dispatch r).state.find? u = m.find? u := by
  unfold find?
  rw [entries_dispatch]

/-- A connection that is no entry any more has been given the close signal, unless it left through
another one of its number, or by a sweep that found its mailbox closed. -/
theorem Handles.signalled_of_left {m : Membership} {c : Command} {o : Outcome} {h : Handle}
    (ho : m.Handles c o) (hk : m.Keyed)
    (ht : ∀ g, c.handle? = some g → h.id = g.id → h = g) (hf : m.find? h.user = some h)
    (hl : o.state.find? h.user ≠ some h) :
    (o.state.room.mailbox h.endpoint).signalled = true ∨
      (c = .sweep ∧ m.isClosed h = true ∧ o.state.room = m.room) := by
  -- Wherever an entry is lost its own mailbox is closed, a sweep excepted.
  have hclosed (g : Handle) (heq : g = h) :
      ((m.room.close g.endpoint).mailbox h.endpoint).signalled = true := by
    rw [heq, Mailroom.mailbox_close_self]
    rfl
  cases ho with
  | late g hs => exact absurd hf hl
  | again g current hs hf' hid => exact absurd hf hl
  | superseded g current hs hf' hid =>
    by_cases hu : h.user = g.user
    · rw [← hu, hf] at hf'
      exact .inl (hclosed current (Option.some.inj hf').symm)
    · simp [find?_insert, hu, hf] at hl
  | full g hs hf' hm => exact absurd hf hl
  | admitted g hs hf' hm =>
    by_cases hu : h.user = g.user
    · rw [← hu, hf] at hf'
      cases hf'
    · simp [find?_insert, hu, hf] at hl
  | removed g current hf' hid =>
    by_cases hu : h.user = g.user
    · have hcur : h = current := by
        rw [← hu, hf] at hf'
        exact Option.some.inj hf'
      exact .inl (hclosed g (ht g rfl (hcur ▸ hid)).symm)
    · simp [find?_erase, hu, hf] at hl
  | stale g hne => exact absurd hf hl
  | dispatched r => exact absurd ((find?_dispatch m r _).trans hf) hl
  | counted => exact absurd hf hl
  | looked v => exact absurd hf hl
  | swept =>
    rw [find?_sweep hk, hf] at hl
    refine .inr ⟨rfl, ?_, rfl⟩
    by_contra hc
    simp [hc] at hl
  | ended =>
    left
    show ((m.entries.foldl (fun room g => room.close g.endpoint) m.room).mailbox
      h.endpoint).signalled = true
    rw [Mailroom.mailbox_closeAll, if_pos ⟨h, mem_of_find? hf, rfl⟩]
    rfl

theorem Handles.isClosed_of_left {m : Membership} {c : Command} {o : Outcome} {h : Handle}
    (ho : m.Handles c o) (hk : m.Keyed)
    (ht : ∀ g, c.handle? = some g → h.id = g.id → h = g) (hf : m.find? h.user = some h)
    (hl : o.state.find? h.user ≠ some h) : o.state.isClosed h = true := by
  unfold isClosed Mailbox.isClosed
  rcases ho.signalled_of_left hk ht hf hl with hs | ⟨-, hc, hroom⟩
  · rw [hs, Bool.true_or]
  · rw [hroom]
    exact hc

/-! ## Connections that a command does not register -/

/-- What may become of a connection under a command that does not register it. -/
structure Spares (m m' : Membership) (c : Command) (h : Handle) : Prop where
  listed : h ∈ m'.entries → h ∈ m.entries
  left : h ∈ m.entries → h ∉ m'.entries → m'.isClosed h = true
  signalled : (m.room.mailbox h.endpoint).signalled = true →
    (m'.room.mailbox h.endpoint).signalled = true
  cause : (m'.room.mailbox h.endpoint).signalled = true →
    (m.room.mailbox h.endpoint).signalled = true ∨
      (h ∉ m'.entries ∧ (h ∈ m.entries ∨ c = .unregister h))
  abandoned : (m'.room.mailbox h.endpoint).abandoned = (m.room.mailbox h.endpoint).abandoned

/-- No other entry, and no other connection the command is about, shares the endpoint of a
connection. -/
def Apart (m : Membership) (c : Command) (h : Handle) : Prop :=
  ∀ g, g ∈ m.entries ∨ c.handle? = some g → g.endpoint = h.endpoint → g = h

theorem signalled_dispatch {m : Membership} (hm : m.Proper) (r : DispatchRequest) (n : Nat) :
    ((m.dispatch r).state.room.mailbox n).signalled = (m.room.mailbox n).signalled := by
  unfold Mailroom.mailbox
  rw [dispatch_eq, get_offerAll _ _ _ (hm.own_recipients r.target)]
  split <;> rfl

theorem signalled_close {m : Membership} {g h : Handle}
    (hs : ((m.close g).room.mailbox h.endpoint).signalled = true) :
    (m.room.mailbox h.endpoint).signalled = true ∨ g.endpoint = h.endpoint := by
  unfold close at hs
  rw [Mailroom.mailbox_close] at hs
  split at hs
  · rename_i heq
    exact .inr heq.symm
  · exact .inl hs

theorem handle_cause {m : Membership} {c : Command} {h : Handle} (hm : m.Proper)
    (ht : m.Tells c) (ha : m.Apart c h) (hc : c ≠ .register h)
    (hs : ((m.handle c).state.room.mailbox h.endpoint).signalled = true) :
    (m.room.mailbox h.endpoint).signalled = true ∨
      (h ∉ (m.handle c).state.entries ∧ (h ∈ m.entries ∨ c = .unregister h)) := by
  have ho := m.handles_handle c
  generalize m.handle c = o at ho hs ⊢
  cases ho with
  | late g hsd =>
    rcases signalled_close hs with hs | heq
    · exact .inl hs
    · exact absurd (congrArg Command.register (ha g (.inr rfl) heq)) hc
  | again g current hsd hf hid => exact .inl hs
  | superseded g current hsd hf hid =>
    -- The signal is for the connection that makes way, which is then no entry any more.
    rcases signalled_close (m := m.insert g) hs with hs | heq
    · exact .inl hs
    · have hcur : current = h := ha current (.inl (mem_of_find? hf)) heq
      subst hcur
      refine .inr ⟨fun hmem => ?_, .inl (mem_of_find? hf)⟩
      rcases mem_entries_insert.mp hmem with ⟨-, hne⟩ | heq
      · exact hne (user_of_find? hf)
      · exact hid (congrArg Handle.id heq)
  | full g hsd hf hmax => exact .inl hs
  | admitted g hsd hf hmax => exact .inl hs
  | removed g current hf hid =>
    rcases signalled_close hs with hs | heq
    · exact .inl hs
    · have hg : g = h := ha g (.inr rfl) heq
      subst hg
      exact .inr ⟨fun hmem => (mem_entries_erase.mp hmem).2 rfl, .inr rfl⟩
  | stale g hf =>
    rcases signalled_close hs with hs | heq
    · exact .inl hs
    · have hg : g = h := ha g (.inr rfl) heq
      subst hg
      exact .inr ⟨fun hmem => hf g (hm.keyed.find?_eq_some.mpr hmem) rfl, .inr rfl⟩
  | dispatched r =>
    rw [signalled_dispatch hm] at hs
    exact .inl hs
  | counted => exact .inl hs
  | looked u => exact .inl hs
  | swept => exact .inl hs
  | ended =>
    change (Mailroom.mailbox (m.entries.foldl _ m.room) h.endpoint).signalled = true at hs
    rw [Mailroom.mailbox_closeAll] at hs
    split at hs
    · rename_i hmem
      obtain ⟨g, hg, heq⟩ := hmem
      have hg' : g = h := ha g (.inl hg) heq
      subst hg'
      exact .inr ⟨List.not_mem_nil, .inl hg⟩
    · exact .inl hs

/-- A connection that is no entry yet and whose mailbox is open becomes an entry with the mailbox
still open, or is refused. -/
theorem answer_register {m : Membership} {h : Handle} (ht : m.Tells (.register h))
    (ha : m.Apart (.register h) h) (hout : h ∉ m.entries)
    (hopen : (m.room.mailbox h.endpoint).signalled ≠ true) :
    (∃ r, (m.handle (.register h)).reply = some (.registered (.ok r)) ∧
        h ∈ (m.handle (.register h)).state.entries ∧
        ((m.handle (.register h)).state.room.mailbox h.endpoint).signalled ≠ true) ∨
      ∃ err, (m.handle (.register h)).reply = some (.registered (.error err)) ∧
        h ∉ (m.handle (.register h)).state.entries := by
  have ho := m.handles_handle (.register h)
  generalize m.handle (.register h) = o at ho ⊢
  cases ho with
  | late _ hsd => exact .inr ⟨_, rfl, hout⟩
  | again _ current hsd hf hid =>
    have hcur : current = h := ht current (mem_of_find? hf) h rfl hid
    exact absurd (hcur ▸ mem_of_find? hf) hout
  | superseded _ current hsd hf hid =>
    refine .inl ⟨_, rfl, mem_entries_insert.mpr (.inr rfl), fun hs => ?_⟩
    -- The close signal is for the connection that makes way, which has another mailbox.
    rcases signalled_close (m := m.insert h) hs with hs | heq
    · exact hopen hs
    · exact hid (congrArg Handle.id (ha current (.inl (mem_of_find? hf)) heq))
  | full _ hsd hf hmax => exact .inr ⟨_, rfl, hout⟩
  | admitted _ hsd hf hmax =>
    exact .inl ⟨_, rfl, mem_entries_insert.mpr (.inr rfl), hopen⟩

theorem handle_spares {m : Membership} {c : Command} {h : Handle} (hm : m.Proper)
    (ht : m.Tells c) (ha : m.Apart c h) (hc : c ≠ .register h) :
    m.Spares (m.handle c).state c h where
  listed hmem := (mem_entries_handle hmem).resolve_right hc
  left hmem hnot := by
    apply (m.handles_handle c).isClosed_of_left hm.keyed (ht h hmem) (hm.keyed.find?_eq_some.mpr hmem)
    exact fun hf => hnot (mem_of_find? hf)
  signalled := (m.extends_handle c h.endpoint).signalled
  cause := handle_cause hm ht ha hc
  abandoned := (m.extends_handle c h.endpoint).abandoned

end Membership

/-! ## The command at the head of the queue -/

namespace Service

theorem mailbox_setMailbox {v : Service} {n : Nat} (hn : n < v.members.room.length) (b : Mailbox) :
    (v.withRoom fun room => room.setMailbox n b).members.room.mailbox n = b :=
  Mailroom.mailbox_setMailbox_self b hn

theorem mem_replies_serve {v : Service} {q : Queued} {rest : List Queued} (hq : v.queue = q :: rest)
    {r : Nat × Reply} (hr : r ∈ v.serve.replies) : r ∈ v.replies ∨ q.ticket = some r.1 := by
  unfold serve at hr
  rw [hq] at hr
  dsimp only at hr
  split at hr
  · rename_i ht _
    rcases List.mem_append.mp hr with hr | hr
    · exact .inl hr
    · rw [List.mem_singleton.mp hr]
      exact .inr ht
  · exact .inl hr

theorem members_serve {v : Service} {q : Queued} {rest : List Queued} (hq : v.queue = q :: rest) :
    v.serve.members = (v.members.handle q.command).state := by
  unfold serve
  rw [hq]

theorem queue_serve {v : Service} {q : Queued} {rest : List Queued} (hq : v.queue = q :: rest) :
    v.serve.queue = rest := by
  unfold serve
  rw [hq]

theorem serve_frame (v : Service) : v.serve.running = v.running ∧ v.serve.capacity = v.capacity := by
  unfold serve
  split <;> exact ⟨rfl, rfl⟩

end Service

end PushHub.Registry
