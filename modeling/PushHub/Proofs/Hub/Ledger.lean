import PushHub.Proofs.Hub.Run

/-! The connections of a hub, in the order in which they were given numbers. Every session, entry and
queued command is about one of them, and each has a session and an endpoint of its own. -/
namespace PushHub

open Registry (Handle Service Queued Membership)

/-- A queued command is a session's own, or about no connection. -/
def Accounted (conns : List (Nat × Handle)) (q : Queued) : Prop :=
  (∃ i c, (i, c) ∈ conns ∧ Own i (some c) q) ∨ (q.command.handle? = none ∧ q.ticket = none)

theorem Accounted.known {conns : List (Nat × Handle)} {q : Queued} {d : Handle}
    (hq : Accounted conns q) (hd : q.command.handle? = some d) : ∃ i, (i, d) ∈ conns := by
  rcases hq with ⟨i, c, hc, d', heq, hq⟩ | ⟨hnone, -⟩
  · cases heq
    refine ⟨i, ?_⟩
    rcases hq with rfl | rfl
    · cases hd
      exact hc
    · cases hd
      exact hc
  · rw [hnone] at hd
    cases hd

theorem Accounted.owner {conns : List (Nat × Handle)} {q : Queued} {i : Nat}
    (hq : Accounted conns q) (ht : q.ticket = some i) :
    ∃ c, (i, c) ∈ conns ∧ q.command = .register c := by
  rcases hq with ⟨j, c, hc, d, heq, hq⟩ | ⟨-, hnone⟩
  · cases heq
    rcases hq with rfl | rfl
    · cases ht
      exact ⟨c, hc, rfl⟩
    · cases ht
  · rw [hnone] at ht
    cases ht

theorem Accounted.mono {conns : List (Nat × Handle)} {q : Queued} (hq : Accounted conns q)
    (more : List (Nat × Handle)) : Accounted (conns ++ more) q := by
  rcases hq with ⟨i, c, hc, ho⟩ | hq
  · exact .inl ⟨i, c, List.mem_append_left _ hc, ho⟩
  · exact .inr hq

/-- What is so at every moment of a run, for the connections that were given numbers before. -/
structure Ledger (conns : List (Nat × Handle)) (h : Hub) : Prop where
  running : h.service.running = true
  roomy : 0 < h.service.capacity
  next : h.nextId = conns.length + 1
  length : h.service.members.room.length = conns.length
  numbered : ∀ (k i : Nat) (c : Handle), conns[k]? = some (i, c) →
    c.endpoint = k ∧ c.id = ⟨UInt64.ofNat (k + 1)⟩
  single : (conns.map Prod.fst).Nodup
  fits : ∀ (i : Nat) (s : Session), h.sessions[i]? = some s → s.phase.Fits (conns.lookup i)
  held : ∀ i c, (i, c) ∈ conns → i < h.sessions.length
  keyed : h.service.members.Keyed
  listed : ∀ c ∈ h.service.members.entries, ∃ i, (i, c) ∈ conns
  queued : ∀ q ∈ h.service.queue, Accounted conns q
  replied : ∀ r ∈ h.service.replies, ∃ c, (r.1, c) ∈ conns

namespace Ledger

/-! ## Telling connections apart -/

section

variable {conns : List (Nat × Handle)} {h : Hub} {i j : Nat} {c d : Handle}

theorem lt_length (hl : Ledger conns h) (hc : (i, c) ∈ conns) :
    c.endpoint < h.service.members.room.length := by
  obtain ⟨k, hk⟩ := List.mem_iff_getElem?.mp hc
  rw [(hl.numbered k i c hk).1, hl.length]
  exact (List.getElem?_eq_some_iff.mp hk).1

theorem eq_of_endpoint (hl : Ledger conns h) (hc : (i, c) ∈ conns) (hd : (j, d) ∈ conns)
    (he : c.endpoint = d.endpoint) : i = j ∧ c = d := by
  obtain ⟨k, hk⟩ := List.mem_iff_getElem?.mp hc
  obtain ⟨l, hl'⟩ := List.mem_iff_getElem?.mp hd
  have hkl : k = l := (hl.numbered k i c hk).1.symm.trans (he.trans (hl.numbered l j d hl').1)
  subst hkl
  have := hk.symm.trans hl'
  simpa using this

/-- Numbers do not repeat before they run out. -/
theorem eq_of_id (hl : Ledger conns h) (hn : conns.length ≤ UInt64.size) (hc : (i, c) ∈ conns)
    (hd : (j, d) ∈ conns) (he : c.id = d.id) : i = j ∧ c = d := by
  obtain ⟨k, hk⟩ := List.mem_iff_getElem?.mp hc
  obtain ⟨l, hl'⟩ := List.mem_iff_getElem?.mp hd
  have hklt := (List.getElem?_eq_some_iff.mp hk).1
  have hllt := (List.getElem?_eq_some_iff.mp hl').1
  have hid : UInt64.ofNat (k + 1) = UInt64.ofNat (l + 1) := by
    have := (hl.numbered k i c hk).2.symm.trans (he.trans (hl.numbered l j d hl').2)
    simpa using this
  have hmod : (k + 1) % UInt64.size = (l + 1) % UInt64.size := by
    simpa using congrArg UInt64.toNat hid
  have hkl : k = l := by
    simp only [UInt64.size] at hn hmod
    omega
  subst hkl
  have := hk.symm.trans hl'
  simpa using this

theorem lookup_eq_some (hl : Ledger conns h) : conns.lookup i = some c ↔ (i, c) ∈ conns := by
  rw [List.lookup_eq_some_iff]
  constructor
  · rintro ⟨before, after, rfl, -⟩
    simp
  · intro hc
    obtain ⟨before, after, rfl⟩ := List.append_of_mem hc
    refine ⟨before, after, rfl, fun p hp => ?_⟩
    have hs := hl.single
    rw [List.map_append, List.map_cons, List.nodup_append] at hs
    simpa using (hs.2.2 p.1 (List.mem_map_of_mem hp) i List.mem_cons_self).symm

theorem eq_of_session (hl : Ledger conns h) (hc : (i, c) ∈ conns) (hd : (i, d) ∈ conns) : c = d := by
  have := (hl.lookup_eq_some.mpr hc).symm.trans (hl.lookup_eq_some.mpr hd)
  exact Option.some.inj this

theorem not_mem (hl : Ledger conns h) (hi : conns.lookup i = none) : (i, c) ∉ conns := by
  intro hc
  rw [hl.lookup_eq_some.mpr hc] at hi
  cases hi

theorem fits_of_mem (hl : Ledger conns h) (hc : (i, c) ∈ conns) {s : Session}
    (hi : h.sessions[i]? = some s) : s.phase.Fits (some c) := by
  have hfit := hl.fits i s hi
  rw [hl.lookup_eq_some.mpr hc] at hfit
  exact hfit

theorem endpoint_ne (hl : Ledger conns h) (hc : (i, c) ∈ conns) (hj : j ≠ i)
    (hd : conns.lookup j = some d) : c.endpoint ≠ d.endpoint := by
  intro he
  exact hj (hl.eq_of_endpoint hc (hl.lookup_eq_some.mp hd) he).1.symm

theorem lookup_eq_none (hl : Ledger conns h) (hi : h.sessions.length ≤ i) :
    conns.lookup i = none := by
  cases hc : conns.lookup i with
  | none => rfl
  | some c => exact absurd (hl.held i c (hl.lookup_eq_some.mp hc)) (Nat.not_lt_of_le hi)

theorem proper (hl : Ledger conns h) : h.service.members.Proper where
  keyed := hl.keyed
  own := by
    have hinj : ∀ c ∈ h.service.members.entries, ∀ d ∈ h.service.members.entries,
        c.endpoint = d.endpoint → c = d := by
      intro c hc d hd he
      obtain ⟨i, hi⟩ := hl.listed c hc
      obtain ⟨j, hj⟩ := hl.listed d hd
      exact (hl.eq_of_endpoint hi hj he).2
    exact (List.Nodup.of_map _ hl.keyed).map_on hinj

theorem tells (hl : Ledger conns h) (hn : conns.length ≤ UInt64.size) {q : Queued}
    (hq : q ∈ h.service.queue) : h.service.members.Tells q.command := by
  intro g hg d hd hid
  obtain ⟨i, hi⟩ := hl.listed g hg
  obtain ⟨j, hj⟩ := (hl.queued q hq).known hd
  exact (hl.eq_of_id hn hi hj hid).2

theorem apart (hl : Ledger conns h) (hc : (i, c) ∈ conns) {q : Queued}
    (hq : q ∈ h.service.queue) : h.service.members.Apart q.command c := by
  intro g hg he
  have hknown : ∃ j, (j, g) ∈ conns := by
    rcases hg with hg | hg
    · exact hl.listed g hg
    · exact (hl.queued q hq).known hg
  obtain ⟨j, hj⟩ := hknown
  exact (hl.eq_of_endpoint hj hc he).2

end

/-! ## One action -/

section

variable {conns : List (Nat × Handle)} {h : Hub}

theorem start (settings : ConnectionSettings) (registry : RegistrySettings)
    (verifier : Auth.Verifier) (channels : List ChannelName) (clock : UInt64) :
    Ledger [] (Hub.start settings registry verifier channels clock) where
  running := rfl
  roomy := Nat.lt_of_lt_of_le Nat.zero_lt_one (Nat.le_max_right _ _)
  next := rfl
  length := rfl
  numbered _ _ _ hk := nomatch hk
  single := List.nodup_nil
  fits _ _ hs := nomatch hs
  held _ _ hc := nomatch hc
  keyed := List.nodup_nil
  listed _ hc := nomatch hc
  queued _ hq := nomatch hq
  replied _ hr := nomatch hr

theorem worked (hl : Ledger conns h) {i : Nat} {m : Move} {s s' : Session} {v : Service}
    (hs : h.sessions[i]? = some s) (hw : s.Works i h.service m v s') :
    Ledger conns ({ h with service := v }.setSession i s') := by
  have hfit := hl.fits i s hs
  have hc := hw.confined hfit
  have hget := Hub.getElem?_setSession { h with service := v } s' hs
  refine
    { running := hc.running.trans hl.running
      roomy := hc.capacity ▸ hl.roomy
      next := hl.next
      length := hc.length.trans hl.length
      numbered := hl.numbered
      single := hl.single
      fits := ?_
      held := ?_
      keyed := ?_
      listed := ?_
      queued := ?_
      replied := fun r hr => hl.replied r (hc.replies r hr) }
  · intro j t hj
    rw [hget] at hj
    split at hj
    · rename_i heq
      cases hj
      subst heq
      exact hw.fits hfit
    · exact hl.fits j t hj
  · intro j c hj
    have := hl.held j c hj
    simpa [Hub.setSession] using this
  · show v.members.Keyed
    unfold Membership.Keyed
    rw [hc.entries]
    exact hl.keyed
  · intro c hmem
    exact hl.listed c (hc.entries ▸ hmem)
  · intro q hq
    obtain ⟨extra, hqueue, hown⟩ := hc.queue
    change q ∈ v.queue at hq
    rw [hqueue, List.mem_append] at hq
    rcases hq with hq | hq
    · exact hl.queued q hq
    · obtain ⟨c, ho, hq⟩ := hown q hq
      exact .inl ⟨i, c, hl.lookup_eq_some.mp ho, c, rfl, hq⟩

theorem enqueue (hl : Ledger conns h) {q : Queued} (hq : Accounted conns q) :
    Ledger conns { h with service := h.service.enqueue q.command q.ticket } :=
  { hl with
    queued := by
      intro p hp
      rcases List.mem_append.mp hp with hp | hp
      · exact hl.queued p hp
      · rw [List.mem_singleton.mp hp]
        exact hq }

theorem served (hl : Ledger conns h) {q : Queued} {rest : List Queued}
    (hq : h.service.queue = q :: rest) : Ledger conns { h with service := h.service.serve } := by
  have hmem : q ∈ h.service.queue := hq ▸ List.mem_cons_self
  obtain ⟨hrun, hcap⟩ := h.service.serve_frame
  refine
    { hl with
      running := hrun.trans hl.running
      roomy := hcap ▸ hl.roomy
      length := ?_
      keyed := ?_
      listed := ?_
      queued := ?_
      replied := ?_ }
  · show h.service.serve.members.room.length = conns.length
    rw [Service.members_serve hq, Membership.length_handle]
    exact hl.length
  · show h.service.serve.members.Keyed
    rw [Service.members_serve hq]
    exact Membership.keyed_handle hl.keyed q.command
  · intro c hc
    change c ∈ h.service.serve.members.entries at hc
    rw [Service.members_serve hq] at hc
    rcases Membership.mem_entries_handle hc with hc | hc
    · exact hl.listed c hc
    · exact (hl.queued q hmem).known (by rw [hc]; rfl)
  · intro p hp
    change p ∈ h.service.serve.queue at hp
    rw [Service.queue_serve hq] at hp
    exact hl.queued p (hq ▸ List.mem_cons_of_mem q hp)
  · intro r hr
    rcases Service.mem_replies_serve hq hr with hr | ht
    · exact hl.replied r hr
    · obtain ⟨c, hc, -⟩ := (hl.queued q hmem).owner ht
      exact ⟨c, hc⟩

theorem numbered_next (hl : Ledger conns h) {i : Nat} (u : UserId) {k j : Nat} {c : Handle}
    (hk : (conns ++ [(i, h.next u)])[k]? = some (j, c)) :
    c.endpoint = k ∧ c.id = ⟨UInt64.ofNat (k + 1)⟩ := by
  rw [List.getElem?_append] at hk
  split at hk
  · exact hl.numbered k j c hk
  · rename_i hnot
    have hk0 : k - conns.length = 0 := by
      have := (List.getElem?_eq_some_iff.mp hk).1
      rw [List.length_singleton] at this
      omega
    rw [hk0] at hk
    cases hk
    have hkl : k = conns.length := by omega
    subst hkl
    refine ⟨hl.length, ?_⟩
    show (⟨UInt64.ofNat h.nextId⟩ : ConnectionId) = _
    rw [hl.next]

theorem fits_next (hl : Ledger conns h) {i : Nat} {line : Line} (u : UserId)
    {sessions : List Session} (hi : conns.lookup i = none)
    (hself : sessions[i]? = some ⟨line, .registering (h.next u) false⟩)
    (hother : ∀ j : Nat, j ≠ i → sessions[j]? = h.sessions[j]?) (j : Nat) (s : Session)
    (hs : sessions[j]? = some s) :
    s.phase.Fits ((conns ++ [(i, h.next u)]).lookup j) := by
  rw [List.lookup_append]
  by_cases hj : j = i
  · subst hj
    rw [hself] at hs
    cases hs
    rw [hi]
    simp [Phase.Fits]
  · rw [hother j hj] at hs
    have hne : (j == i) = false := by simpa using hj
    have hlast : [(i, h.next u)].lookup j = none := by
      rw [List.lookup_cons, hne]
      rfl
    rw [hlast, Option.or_none]
    exact hl.fits j s hs

theorem allotted (hl : Ledger conns h) {i : Nat} {line : Line} (u : UserId)
    {sessions : List Session} (hi : conns.lookup i = none)
    (hself : sessions[i]? = some ⟨line, .registering (h.next u) false⟩)
    (hother : ∀ j : Nat, j ≠ i → sessions[j]? = h.sessions[j]?)
    (hlen : h.sessions.length ≤ sessions.length) :
    Ledger (conns ++ [(i, h.next u)]) { h.allot with sessions := sessions } := by
  have hnew : i ∉ conns.map Prod.fst := by
    intro hmem
    obtain ⟨⟨j, c⟩, hc, rfl⟩ := List.mem_map.mp hmem
    exact hl.not_mem hi hc
  refine
    { running := hl.running
      roomy := hl.roomy
      next := ?_
      length := ?_
      numbered := fun _ _ _ hk => hl.numbered_next u hk
      single := ?_
      fits := hl.fits_next u hi hself hother
      held := ?_
      keyed := hl.keyed
      listed := ?_
      queued := fun q hq => (hl.queued q hq).mono _
      replied := ?_ }
  · show h.nextId + 1 = _
    rw [hl.next, List.length_append, List.length_singleton]
  · show (h.service.members.room ++ [_]).length = _
    rw [List.length_append, List.length_append, hl.length, List.length_singleton,
      List.length_singleton]
  · rw [List.map_append, List.nodup_append]
    refine ⟨hl.single, by simp, ?_⟩
    intro a ha b hb heq
    rw [List.map_singleton, List.mem_singleton] at hb
    rw [heq, hb] at ha
    exact hnew ha
  · intro j c hc
    show j < sessions.length
    rcases List.mem_append.mp hc with hc | hc
    · exact Nat.lt_of_lt_of_le (hl.held j c hc) hlen
    · cases List.mem_singleton.mp hc
      exact (List.getElem?_eq_some_iff.mp hself).1
  · intro c hc
    obtain ⟨j, hj⟩ := hl.listed c hc
    exact ⟨j, List.mem_append_left _ hj⟩
  · intro r hr
    obtain ⟨c, hc⟩ := hl.replied r hr
    exact ⟨c, List.mem_append_left _ hc⟩

theorem accepted (hl : Ledger conns h) (line : Line) (deadline : Nat) :
    Ledger conns { h with sessions := h.sessions ++ [⟨line, .prompting deadline⟩] } :=
  { hl with
    fits := by
      intro j s hs
      change (h.sessions ++ [_])[j]? = some s at hs
      rw [List.getElem?_append] at hs
      split at hs
      · exact hl.fits j s hs
      · rename_i hnot
        rw [hl.lookup_eq_none (Nat.le_of_not_lt hnot)]
        have hmem := List.mem_of_getElem? hs
        rw [List.mem_singleton.mp hmem]
        rfl
    held := by
      intro j c hc
      have := hl.held j c hc
      show j < (h.sessions ++ [_]).length
      rw [List.length_append]
      omega }

theorem touched (hl : Ledger conns h) {i : Nat} {s : Session} (line : Line)
    (hs : h.sessions[i]? = some s) : Ledger conns (h.setSession i { s with line := line }) :=
  { hl with
    fits := by
      intro j t ht
      rw [Hub.getElem?_setSession h _ hs] at ht
      split at ht
      · rename_i heq
        cases ht
        rw [heq]
        exact hl.fits i s hs
      · exact hl.fits j t ht
    held := by
      intro j c hc
      have := hl.held j c hc
      simpa [Hub.setSession] using this }

theorem unnumbered {a : Hub.Action} {h' : Hub} (hl : Ledger conns h')
    (hn : Hub.Moment.allotted? ⟨h, a, h'⟩ = none) :
    Ledger (conns ++ (Hub.Moment.allotted? ⟨h, a, h'⟩).toList) h' := by
  rw [hn, Option.toList_none, List.append_nil]
  exact hl

theorem acts (hl : Ledger conns h) {a : Hub.Action} {h' : Hub} (ha : h.Acts a h') :
    Ledger (conns ++ (Hub.Moment.allotted? ⟨h, a, h'⟩).toList) h' := by
  cases ha with
  | served q rest hq => exact (hl.served hq).unnumbered rfl
  | swept t =>
    have hq : Accounted conns ⟨.sweep, none⟩ := .inr ⟨rfl, rfl⟩
    exact unnumbered { hl.enqueue hq with } rfl
  | worked i m s s' v hs hw => exact (hl.worked hs hw).unnumbered (Hub.allotted?_worked hs hw)
  | proved i line line' deadline u hs hline =>
    rw [Hub.allotted?_proved u hs, Option.toList_some]
    have hget := Hub.getElem?_setSession h.allot ⟨line', .registering (h.next u) false⟩ hs
    have hself := (hget i).trans (if_pos rfl)
    refine hl.allotted u (hl.fits i _ hs) hself ?_ ?_
    · intro j hj
      exact (hget j).trans (if_neg hj)
    · simp [Hub.allot]
  | accepted line deadline => exact (hl.accepted line deadline).unnumbered rfl
  | registered u line =>
    rw [Hub.allotted?_registered, Option.toList_some]
    refine hl.allotted u (hl.lookup_eq_none (Nat.le_refl _)) List.getElem?_concat_length ?_ ?_
    · intro j hj
      exact Hub.getElem?_concat_ne h.sessions _ hj
    · simp
  | dispatched r hr =>
    have hq : Accounted conns ⟨.dispatch r, none⟩ := .inr ⟨rfl, rfl⟩
    exact (hl.enqueue hq).unnumbered rfl
  | turnedAway r hr => exact hl.unnumbered rfl
  | asked q hr =>
    have hq : Accounted conns ⟨q.command, none⟩ := .inr ⟨by cases q <;> rfl, rfl⟩
    exact (hl.enqueue hq).unnumbered rfl
  | client i a s hs => exact (hl.touched _ hs).unnumbered rfl
  | nobody i a hs => exact hl.unnumbered rfl
  | passed ms clock => exact unnumbered { hl with } rfl

end

end Ledger

/-- A hub as it is built, before anything has come to it. -/
def Hub.Fresh (h : Hub) : Prop :=
  ∃ settings registry verifier channels clock,
    h = Hub.start settings registry verifier channels clock

theorem Hub.Run.ledger {start h : Hub} {ms : List Hub.Moment} (hr : Hub.Run start ms h)
    (hs : start.Fresh) : Ledger (Hub.connections ms) h := by
  induction hr with
  | nil =>
    obtain ⟨settings, registry, verifier, channels, clock, rfl⟩ := hs
    exact .start settings registry verifier channels clock
  | snoc _ ha ih =>
    rw [Hub.connections_snoc]
    exact ih.acts (Hub.acts_of_act ih.running ha)

end PushHub
