import PushHub.Proofs.Registry.Entries

/-! The fan-out of one request. Every recipient meets one fate, which its own endpoint decides before
any frame is put anywhere; so the order in which recipients are visited shows in no mailbox and in no
counter. -/
namespace PushHub.Registry

inductive Fate
  | filtered
  | closed
  | full
  | delivered
deriving DecidableEq, Repr

def Endpoint.fate (e : Endpoint) (filter : List ChannelName) : Fate :=
  if filter ≠ [] ∧ ∀ c ∈ filter, c ∉ e.published.channels then .filtered
  else if e.mailbox.isClosed then .closed
  else if e.mailbox.isFull then .full
  else .delivered

def Endpoint.push (e : Endpoint) (f : Frame) : Endpoint :=
  { e with mailbox.queue := e.mailbox.queue ++ [f] }

def Counters.count (c : Counters) : Fate → Counters
  | .filtered => { c with filtered := c.filtered + 1 }
  | .closed => { c with dropped := c.dropped + 1 }
  | .full => { c with dropped := c.dropped + 1 }
  | .delivered => { c with delivered := c.delivered + 1 }

namespace Counters

def tally (c : Counters) (fates : List Fate) : Counters where
  dispatched := c.dispatched
  delivered := c.delivered + fates.count .delivered
  dropped := c.dropped + (fates.count .closed + fates.count .full)
  filtered := c.filtered + fates.count .filtered

theorem tally_cons (c : Counters) (x : Fate) (xs : List Fate) :
    c.tally (x :: xs) = (c.count x).tally xs := by
  cases x <;> simp [tally, count] <;> omega

theorem tally_perm (c : Counters) {xs ys : List Fate} (hp : xs.Perm ys) :
    c.tally xs = c.tally ys := by
  unfold tally
  simp only [hp.count_eq]

theorem tally_total (c : Counters) (fates : List Fate) :
    (c.tally fates).delivered + (c.tally fates).dropped + (c.tally fates).filtered =
      c.delivered + c.dropped + c.filtered + fates.length := by
  induction fates generalizing c with
  | nil => simp [tally]
  | cons x xs ih =>
    rw [tally_cons, ih, List.length_cons]
    cases x <;> simp [count] <;> omega

end Counters

namespace Mailroom

theorem ext {room room' : Mailroom} (hl : room.length = room'.length)
    (hg : ∀ n, room.get n = room'.get n) : room = room' := by
  apply List.ext_getElem hl
  intro n hn hn'
  have := hg n
  simpa [get, List.getElem?_eq_getElem hn, List.getElem?_eq_getElem hn'] using this

theorem deliver_of_refusal {room : Mailroom} {n : Nat} {e : DeliveryError} (f : Frame)
    (h : (room.mailbox n).refusal? = some e) : room.deliver n f = (room, .error e) := by
  have hd := Mailbox.deliver_of_refusal f h
  have hroom : (room.deliver n f).1 = room := by
    apply ext (length_deliver room n f)
    intro k
    rw [get_deliver]
    split
    · rename_i heq
      subst heq
      unfold mailbox at hd
      rw [hd]
    · rfl
  have hresult : (room.deliver n f).2 = .error e := by
    unfold deliver
    rw [hd]
  exact Prod.ext hroom hresult

theorem deliver_of_none {room : Mailroom} {n : Nat} (f : Frame)
    (h : (room.mailbox n).refusal? = none) :
    room.deliver n f = (room.update n (Endpoint.push · f), .ok ()) := by
  have hd := Mailbox.deliver_of_none f h
  have hroom : (room.deliver n f).1 = room.update n (Endpoint.push · f) := by
    apply ext (by simp)
    intro k
    rw [get_deliver]
    split
    · rename_i heq
      subst heq
      by_cases hk : k < room.length
      · rw [get_update_self _ hk]
        unfold mailbox at hd
        rw [hd]
        rfl
      · have hc := (Mailbox.refusal?_eq_none.mp h).1
        rw [mailbox, get_of_length_le (Nat.le_of_not_lt hk)] at hc
        simp [nowhere, Mailbox.isClosed] at hc
    · rename_i hne
      rw [get_update_ne _ _ hne]
  have hresult : (room.deliver n f).2 = .ok () := by
    unfold deliver
    rw [hd]
  exact Prod.ext hroom hresult

end Mailroom

namespace Membership

theorem eq_of_fields {a b : Membership} (he : a.entries = b.entries)
    (hc : a.counters = b.counters) (hd : a.shuttingDown = b.shuttingDown)
    (hx : a.maxConnections = b.maxConnections) (hr : a.room = b.room) : a = b := by
  cases a
  cases b
  simp only at he hc hd hx hr
  rw [he, hc, hd, hx, hr]

def fate (m : Membership) (r : DispatchRequest) (h : Handle) : Fate :=
  (m.room.get h.endpoint).fate r.channels

theorem admits_eq_false {m : Membership} {h : Handle} {filter : List ChannelName} :
    m.admits h filter = false ↔
      filter ≠ [] ∧ ∀ c ∈ filter, c ∉ (m.room.get h.endpoint).published.channels := by
  unfold admits SubscriptionSet.admits SubscriptionSet.contains
  simp

theorem fate_eq_filtered {m : Membership} {r : DispatchRequest} {g : Handle} :
    m.fate r g = .filtered ↔
      r.channels ≠ [] ∧ ∀ x ∈ r.channels, x ∉ (m.room.get g.endpoint).published.channels := by
  unfold fate Endpoint.fate
  split
  · rename_i hnone
    exact ⟨fun _ => hnone, fun _ => rfl⟩
  · rename_i hsome
    refine ⟨fun hf => ?_, fun hnone => absurd hnone hsome⟩
    split at hf
    · cases hf
    · split at hf <;> cases hf

theorem refusal?_of_fate {m : Membership} {r : DispatchRequest} {h : Handle}
    (ha : m.admits h r.channels = true) :
    (m.room.mailbox h.endpoint).refusal? = match m.fate r h with
      | .closed => some .closed
      | .full => some .full
      | _ => none := by
  have hn : ¬(r.channels ≠ [] ∧
      ∀ c ∈ r.channels, c ∉ (m.room.get h.endpoint).published.channels) := by
    rw [← admits_eq_false, ha]
    simp
  unfold fate Endpoint.fate Mailbox.refusal? Mailroom.mailbox
  rw [if_neg hn]
  split
  · rfl
  · split <;> rfl

theorem offer_eq (m : Membership) (r : DispatchRequest) (f : Frame) (h : Handle) :
    m.offer r f h =
      ⟨{ m with
          counters := m.counters.count (m.fate r h)
          room := if m.fate r h = .delivered then m.room.update h.endpoint (Endpoint.push · f)
            else m.room },
        if m.fate r h = .full then [.dropped h.user h.id r.messageType] else [], none⟩ := by
  unfold offer
  split
  · rename_i ha
    have hr := refusal?_of_fate ha
    unfold deliver
    cases hf : m.fate r h with
    | filtered =>
      have hn : m.fate r h ≠ .filtered := by
        have hno := mt admits_eq_false.mpr (by rw [ha]; simp)
        unfold fate Endpoint.fate
        rw [if_neg hno]
        split
        · simp
        · split <;> simp
      exact absurd hf hn
    | closed =>
      rw [hf] at hr
      simp [Mailroom.deliver_of_refusal f hr, Counters.count]
    | full =>
      rw [hf] at hr
      simp [Mailroom.deliver_of_refusal f hr, Counters.count]
    | delivered =>
      rw [hf] at hr
      simp [Mailroom.deliver_of_none f hr, Counters.count]
  · rename_i ha
    have hf : m.fate r h = .filtered := by
      unfold fate Endpoint.fate
      rw [if_pos (admits_eq_false.mp (by simpa using ha))]
    simp [hf, Counters.count]

theorem get_offer_ne (m : Membership) (r : DispatchRequest) (f : Frame) {h : Handle} {n : Nat}
    (hn : n ≠ h.endpoint) : (m.offer r f h).state.room.get n = m.room.get n := by
  rw [offer_eq]
  dsimp only
  split
  · exact Mailroom.get_update_ne _ _ hn
  · rfl

theorem get_offer_self (m : Membership) (r : DispatchRequest) (f : Frame) (h : Handle) :
    (m.offer r f h).state.room.get h.endpoint =
      if m.fate r h = .delivered then (m.room.get h.endpoint).push f
      else m.room.get h.endpoint := by
  rw [offer_eq]
  dsimp only
  split
  · rename_i hf
    by_cases hl : h.endpoint < m.room.length
    · exact Mailroom.get_update_self _ hl
    · unfold fate at hf
      rw [Mailroom.get_of_length_le (Nat.le_of_not_lt hl)] at hf
      unfold Endpoint.fate at hf
      split at hf
      · simp at hf
      · simp [Mailroom.nowhere, Mailbox.isClosed] at hf
  · rfl

theorem extends_offer (m : Membership) (r : DispatchRequest) (f : Frame) (h : Handle) (n : Nat) :
    (m.room.mailbox n).Extends ((m.offer r f h).state.room.mailbox n) := by
  unfold Mailroom.mailbox
  by_cases hn : n = h.endpoint
  · subst hn
    rw [get_offer_self]
    split
    · exact ⟨rfl, List.prefix_append _ _, id, rfl⟩
    · exact .refl _
  · rw [get_offer_ne m r f hn]
    exact .refl _

/-! ## Any number of offers -/

section

variable (r : DispatchRequest) (f : Frame)

theorem fate_offer (m : Membership) {g h : Handle} (hn : h.endpoint ≠ g.endpoint) :
    (m.offer r f g).state.fate r h = m.fate r h := by
  unfold fate
  rw [get_offer_ne m r f hn]

theorem offerAll_frame (m : Membership) (hs : List Handle) :
    (m.offerAll r f hs).state.entries = m.entries ∧
    (m.offerAll r f hs).state.shuttingDown = m.shuttingDown ∧
    (m.offerAll r f hs).state.maxConnections = m.maxConnections ∧
    (m.offerAll r f hs).state.room.length = m.room.length ∧
    (m.offerAll r f hs).state.counters.dispatched = m.counters.dispatched ∧
    (m.offerAll r f hs).reply = none := by
  induction hs generalizing m with
  | nil => exact ⟨rfl, rfl, rfl, rfl, rfl, rfl⟩
  | cons h hs ih =>
    obtain ⟨he, hs, hm, hl, hd, -⟩ := ih (m.offer r f h).state
    refine ⟨he.trans ?_, hs.trans ?_, hm.trans ?_, hl.trans ?_, hd.trans ?_, rfl⟩
    · rw [offer_eq]
    · rw [offer_eq]
    · rw [offer_eq]
    · rw [offer_eq]
      dsimp only
      split
      · exact Mailroom.length_update _ _ _
      · rfl
    · rw [offer_eq]
      cases m.fate r h <;> rfl

theorem extends_offerAll (m : Membership) (hs : List Handle) (n : Nat) :
    (m.room.mailbox n).Extends ((m.offerAll r f hs).state.room.mailbox n) := by
  induction hs generalizing m with
  | nil => exact .refl _
  | cons h hs ih => exact (extends_offer m r f h n).trans (ih (m.offer r f h).state)

variable {hs : List Handle}

/-- An endpoint gets the frame once if its recipient is to have it, and nothing otherwise. -/
theorem get_offerAll (m : Membership) (own : (hs.map Handle.endpoint).Nodup) (n : Nat) :
    (m.offerAll r f hs).state.room.get n =
      if ∃ h ∈ hs, h.endpoint = n ∧ m.fate r h = .delivered then (m.room.get n).push f
      else m.room.get n := by
  induction hs generalizing m with
  | nil => simp [offerAll]
  | cons h hs ih =>
    obtain ⟨hnot, own⟩ := List.nodup_cons.mp own
    have hne : ∀ g ∈ hs, g.endpoint ≠ h.endpoint := fun g hg heq =>
      hnot (List.mem_map.mpr ⟨g, hg, heq⟩)
    rw [offerAll]
    dsimp only
    rw [ih _ own]
    have hfates : (∃ g ∈ hs, g.endpoint = n ∧ (m.offer r f h).state.fate r g = .delivered) ↔
        ∃ g ∈ hs, g.endpoint = n ∧ m.fate r g = .delivered := by
      constructor
      · rintro ⟨g, hg, hn, hf⟩
        exact ⟨g, hg, hn, fate_offer r f m (hne g hg) ▸ hf⟩
      · rintro ⟨g, hg, hn, hf⟩
        exact ⟨g, hg, hn, (fate_offer r f m (hne g hg)).trans hf⟩
    simp only [hfates, List.mem_cons, exists_eq_or_imp]
    by_cases hn : h.endpoint = n
    · subst hn
      have hlater : ¬∃ g ∈ hs, g.endpoint = h.endpoint ∧ m.fate r g = .delivered := by
        rintro ⟨g, hg, heq, -⟩
        exact hne g hg heq
      simp [hlater, get_offer_self]
    · rw [get_offer_ne m r f (Ne.symm hn)]
      simp [hn]

theorem map_fate_offer (m : Membership) {h : Handle}
    (hne : ∀ g ∈ hs, g.endpoint ≠ h.endpoint) :
    hs.map ((m.offer r f h).state.fate r) = hs.map (m.fate r) :=
  List.map_congr_left fun g hg => fate_offer r f m (hne g hg)

theorem counters_offerAll (m : Membership) (own : (hs.map Handle.endpoint).Nodup) :
    (m.offerAll r f hs).state.counters = m.counters.tally (hs.map (m.fate r)) := by
  induction hs generalizing m with
  | nil => rfl
  | cons h hs ih =>
    obtain ⟨hnot, own⟩ := List.nodup_cons.mp own
    have hne : ∀ g ∈ hs, g.endpoint ≠ h.endpoint := fun g hg heq =>
      hnot (List.mem_map.mpr ⟨g, hg, heq⟩)
    rw [offerAll]
    dsimp only
    rw [ih _ own, map_fate_offer r f m hne, List.map_cons, Counters.tally_cons, offer_eq]

theorem events_offerAll (m : Membership) (own : (hs.map Handle.endpoint).Nodup) :
    (m.offerAll r f hs).events =
      (hs.filter fun h => m.fate r h = .full).map fun h => .dropped h.user h.id r.messageType := by
  induction hs generalizing m with
  | nil => rfl
  | cons h hs ih =>
    obtain ⟨hnot, own⟩ := List.nodup_cons.mp own
    have hne : ∀ g ∈ hs, g.endpoint ≠ h.endpoint := fun g hg heq =>
      hnot (List.mem_map.mpr ⟨g, hg, heq⟩)
    have hfates : hs.filter (fun g => (m.offer r f h).state.fate r g = .full) =
        hs.filter (fun g => m.fate r g = .full) := by
      apply List.filter_congr
      intro g hg
      rw [fate_offer r f m (hne g hg)]
    rw [offerAll]
    dsimp only
    rw [ih _ own, hfates, offer_eq, List.filter_cons]
    by_cases hf : m.fate r h = .full <;> simp [hf]

theorem state_offerAll_perm (m : Membership) {hs' : List Handle} (hp : hs'.Perm hs)
    (own : (hs.map Handle.endpoint).Nodup) :
    (m.offerAll r f hs').state = (m.offerAll r f hs).state := by
  have own' : (hs'.map Handle.endpoint).Nodup := (hp.map _).nodup_iff.mpr own
  have hc : (m.offerAll r f hs').state.counters = (m.offerAll r f hs).state.counters := by
    rw [counters_offerAll r f m own', counters_offerAll r f m own]
    exact Counters.tally_perm _ (hp.map _)
  obtain ⟨he, hd, hx, hl, -⟩ := offerAll_frame r f m hs
  obtain ⟨he', hd', hx', hl', -⟩ := offerAll_frame r f m hs'
  have hr : (m.offerAll r f hs').state.room = (m.offerAll r f hs).state.room := by
    apply Mailroom.ext (hl'.trans hl.symm)
    intro n
    rw [get_offerAll r f m own', get_offerAll r f m own]
    simp only [hp.mem_iff]
  exact eq_of_fields (he'.trans he.symm) hc (hd'.trans hd.symm) (hx'.trans hx.symm) hr

end

/-! ## One request -/

/-- A registry as its operations leave it: a user has one entry at most, and a connection shares its
endpoint with no other. -/
structure Proper (m : Membership) : Prop where
  keyed : m.Keyed
  own : (m.entries.map Handle.endpoint).Nodup

theorem Proper.own_recipients {m : Membership} (hm : m.Proper) (t : Target) :
    ((m.recipients t).map Handle.endpoint).Nodup := by
  cases t with
  | all => exact hm.own
  | user u =>
    show ((m.find? u).toList.map Handle.endpoint).Nodup
    cases m.find? u with
    | none => exact List.nodup_nil
    | some h => exact List.nodup_singleton h.endpoint

theorem Keyed.mem_recipients {m : Membership} (hk : m.Keyed) (t : Target) (h : Handle) :
    h ∈ m.recipients t ↔ h ∈ m.entries ∧ (t = .all ∨ t = .user h.user) := by
  cases t with
  | all => simp [recipients]
  | user u =>
    simp only [recipients, Option.mem_toList, Target.user.injEq, reduceCtorEq, false_or]
    constructor
    · intro hf
      exact ⟨mem_of_find? hf, (user_of_find? hf).symm⟩
    · rintro ⟨hmem, rfl⟩
      exact hk.find?_eq_some.mpr hmem

theorem mem_recipients {m : Membership} (hm : m.Proper) (t : Target) (h : Handle) :
    h ∈ m.recipients t ↔ h ∈ m.entries ∧ (t = .all ∨ t = .user h.user) :=
  hm.keyed.mem_recipients t h

/-- The registry that has taken up a request and has not offered it to anyone yet. -/
def counted (m : Membership) : Membership :=
  { m with counters.dispatched := m.counters.dispatched + 1 }

theorem dispatch_eq (m : Membership) (r : DispatchRequest) :
    m.dispatch r = m.counted.offerAll r (frameOf r) (m.recipients r.target) := rfl

/-- What one request comes to: each recipient meets its fate once, and nothing else changes. -/
structure FansOut (m : Membership) (r : DispatchRequest) (o : Outcome) : Prop where
  addressed : ∀ h, h ∈ m.recipients r.target ↔
    h ∈ m.entries ∧ (r.target = .all ∨ r.target = .user h.user)
  once : (m.recipients r.target).Nodup
  text : frameOf r =
    .text (Json.object [("type", .text r.messageType), ("data", r.payload)]).render
  reached : ∀ h ∈ m.recipients r.target, o.state.room.get h.endpoint =
    if m.fate r h = .delivered then (m.room.get h.endpoint).push (frameOf r)
    else m.room.get h.endpoint
  others : ∀ n, (∀ h ∈ m.recipients r.target, h.endpoint ≠ n) →
    o.state.room.get n = m.room.get n
  standing : ∀ n, (o.state.room.mailbox n).isClosed = (m.room.mailbox n).isClosed ∧
    (o.state.room.get n).published = (m.room.get n).published
  dispatched : o.state.counters.dispatched = m.counters.dispatched + 1
  delivered : o.state.counters.delivered =
    m.counters.delivered + (m.recipients r.target).countP fun h => m.fate r h = .delivered
  dropped : o.state.counters.dropped =
    m.counters.dropped + ((m.recipients r.target).countP (fun h => m.fate r h = .closed) +
      (m.recipients r.target).countP fun h => m.fate r h = .full)
  filtered : o.state.counters.filtered =
    m.counters.filtered + (m.recipients r.target).countP fun h => m.fate r h = .filtered
  total : o.state.counters.delivered + o.state.counters.dropped + o.state.counters.filtered =
    m.counters.delivered + m.counters.dropped + m.counters.filtered +
      (m.recipients r.target).length
  told : o.events = ((m.recipients r.target).filter fun h => m.fate r h = .full).map
    fun h => .dropped h.user h.id r.messageType
  kept : o.state.entries = m.entries ∧ o.state.shuttingDown = m.shuttingDown ∧
    o.state.maxConnections = m.maxConnections ∧ o.state.room.length = m.room.length
  /-- The order in which recipients are visited shows in the order of events alone. -/
  anyOrder : ∀ hs, hs.Perm (m.recipients r.target) →
    (m.counted.offerAll r (frameOf r) hs).state = o.state ∧
    (m.counted.offerAll r (frameOf r) hs).events.Perm o.events

theorem Proper.nodup_recipients {m : Membership} (hm : m.Proper) (t : Target) :
    (m.recipients t).Nodup :=
  List.Nodup.of_map _ (hm.own_recipients t)

theorem count_map_fate (m : Membership) (r : DispatchRequest) (hs : List Handle) (x : Fate) :
    (hs.map (m.fate r)).count x = hs.countP fun h => m.fate r h = x := by
  rw [List.count, List.countP_map]
  apply List.countP_congr
  intro h _
  simp

theorem get_dispatch_standing {m : Membership} (hm : m.Proper) (r : DispatchRequest) (n : Nat) :
    ((m.dispatch r).state.room.mailbox n).isClosed = (m.room.mailbox n).isClosed ∧
    ((m.dispatch r).state.room.get n).published = (m.room.get n).published := by
  unfold Mailroom.mailbox
  rw [dispatch_eq, get_offerAll _ _ _ (hm.own_recipients r.target)]
  split <;> exact ⟨rfl, rfl⟩

theorem dispatch_fansOut (m : Membership) (r : DispatchRequest) (hm : m.Proper) :
    m.FansOut r (m.dispatch r) := by
  have own := hm.own_recipients r.target
  obtain ⟨he, hd, hx, hl, hdis, -⟩ :=
    offerAll_frame r (frameOf r) m.counted (m.recipients r.target)
  have hcount := counters_offerAll r (frameOf r) m.counted own
  have hget := get_offerAll r (frameOf r) m.counted own
  rw [← dispatch_eq] at he hd hx hl hdis hcount hget
  refine
    { addressed := mem_recipients hm r.target
      once := hm.nodup_recipients r.target
      text := rfl
      reached := ?_
      others := ?_
      standing := get_dispatch_standing hm r
      dispatched := hdis
      delivered := ?_
      dropped := ?_
      filtered := ?_
      total := ?_
      told := events_offerAll r (frameOf r) m.counted own
      kept := ⟨he, hd, hx, hl⟩
      anyOrder := ?_ }
  · -- No two recipients share an endpoint, so what is there was put there for this one.
    intro h hmem
    have honly : (∃ g ∈ m.recipients r.target,
        g.endpoint = h.endpoint ∧ m.counted.fate r g = .delivered) ↔ m.fate r h = .delivered := by
      constructor
      · rintro ⟨g, hg, heq, hf⟩
        rw [List.inj_on_of_nodup_map own hg hmem heq] at hf
        exact hf
      · intro hf
        exact ⟨h, hmem, rfl, hf⟩
    rw [hget]
    simp only [honly]
    rfl
  · intro n hn
    have hnone : ¬∃ g ∈ m.recipients r.target,
        g.endpoint = n ∧ m.counted.fate r g = .delivered := by
      rintro ⟨g, hg, heq, -⟩
      exact hn g hg heq
    rw [hget, if_neg hnone]
    rfl
  · rw [hcount, ← count_map_fate]
    rfl
  · rw [hcount, ← count_map_fate, ← count_map_fate]
    rfl
  · rw [hcount, ← count_map_fate]
    rfl
  · rw [hcount, Counters.tally_total, List.length_map]
    rfl
  · intro hs hp
    have own' : (hs.map Handle.endpoint).Nodup := (hp.map _).nodup_iff.mpr own
    refine ⟨state_offerAll_perm r (frameOf r) m.counted hp own, ?_⟩
    rw [dispatch_eq, events_offerAll _ _ _ own', events_offerAll _ _ _ own]
    exact (hp.filter _).map _

/-- Four connections: one follows other channels, one is closed, one is full, and one gets it all. -/
def crowd : Membership where
  entries := [⟨⟨1⟩, ⟨1, by decide⟩, 0⟩, ⟨⟨2⟩, ⟨2, by decide⟩, 1⟩, ⟨⟨3⟩, ⟨3, by decide⟩, 2⟩,
    ⟨⟨4⟩, ⟨4, by decide⟩, 3⟩]
  counters := {}
  shuttingDown := false
  maxConnections := 4
  room := [⟨⟨1, [], false, false⟩, ⟨[accountStatus], none⟩⟩,
    ⟨⟨1, [], true, false⟩, ⟨[taskUpdates], none⟩⟩,
    ⟨⟨1, [.text "first"], false, false⟩, ⟨[systemNotices, taskUpdates], none⟩⟩,
    ⟨⟨1, [], false, false⟩, ⟨[systemNotices, taskUpdates], none⟩⟩]

def notice : DispatchRequest := ⟨.all, "notice", .null, [taskUpdates, systemNotices]⟩

theorem dispatch_crowd : crowd.Proper ∧
    (crowd.recipients .all).map (crowd.fate notice) = [.filtered, .closed, .full, .delivered] ∧
    crowd.FansOut notice (crowd.dispatch notice) := by
  have hp : crowd.Proper := ⟨by decide, by decide⟩
  exact ⟨hp, by decide, dispatch_fansOut crowd notice hp⟩

end Membership

end PushHub.Registry
