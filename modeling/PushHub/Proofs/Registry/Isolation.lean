import PushHub.Proofs.Registry.Roster
import PushHub.Registry.Journal

/-! Recipients are isolated from each other. What a user can see of the registry, its entry, its mailbox,
every attempt to deliver to it and every event about it, is a function of what concerns this user; two
registries that differ in everything else look the same from there. -/
namespace PushHub.Registry

structure Attempt where
  frame : Frame
  result : Except DeliveryError Unit
deriving DecidableEq

namespace Membership

/-- The attempts at one endpoint while a request is offered to recipients one after the other. -/
def attempts (m : Membership) (r : DispatchRequest) (f : Frame) (n : Nat) : List Handle → List Attempt
  | [] => []
  | h :: rest =>
    let first := if h.endpoint = n ∧ m.admits h r.channels then [⟨f, (m.room.deliver n f).2⟩] else []
    first ++ (m.offer r f h).state.attempts r f n rest

end Membership

def Handling.attempts (e : Endpoint) : Handling → List Attempt
  | .deliver f => [⟨f, (e.mailbox.deliver f).2⟩]
  | _ => []

def Moment.attempts (n : Nat) (t : Moment) : List Attempt :=
  match t.action with
  | .command (.dispatch r) =>
    t.before.counted.attempts r (Membership.frameOf r) n (t.before.recipients r.target)
  | .outside k a => if k = n then a.attempts (t.before.room.get n) else []
  | _ => []

def Moment.told (u : UserId) (t : Moment) : List Event := t.events.filter fun e => e.user = u

/-! ## What concerns a user -/

/-- What is done that concerns a user: to its entry by commands, and to its mailbox from outside. -/
inductive Concern
  | request (r : DispatchRequest)
  /-- The connection asks to leave, and with its own mailbox or another one. -/
  | leave (own : Bool)
  | sweep
  | shutdown
  | own (a : Handling)

/-- What an action is to a user whose connection is given, if there is one. -/
def Action.concern? (u : UserId) (own : Option Handle) : Action → Option Concern
  | .command (.dispatch r) => if r.target = .all ∨ r.target = .user u then some (.request r) else none
  | .command (.unregister g) =>
    own.bind fun h => if g.user = u ∧ g.id = h.id then some (.leave (g.endpoint = h.endpoint)) else none
  | .command .sweep => some .sweep
  | .command .shutdown => some .shutdown
  | .outside n a => own.bind fun h => if n = h.endpoint then some (.own a) else none
  | .command (.register _) => none
  | .command .stats => none
  | .command (.online _) => none

/-- An action registers no connection of the user, and no other connection comes or goes with the
user's own mailbox. -/
def Action.Avoids (u : UserId) (own : Option Handle) : Action → Prop
  | .command (.register g) => g.user ≠ u ∧ ∀ h, own = some h → g.endpoint ≠ h.endpoint
  | .command (.unregister g) => ∀ h, own = some h → g.endpoint = h.endpoint → g = h
  | _ => True

/-- Whether a connection is the entry of its user, and its mailbox and subscriptions. -/
structure Seat where
  listed : Bool
  endpoint : Endpoint

/-- What comes of a concern: the seat after it, the attempts to deliver, and what is told. -/
structure Effect where
  seat : Seat
  attempts : List Attempt := []
  told : List Event := []

def Endpoint.offered (e : Endpoint) (r : DispatchRequest) : Endpoint :=
  if e.fate r.channels = .delivered then e.push (Membership.frameOf r) else e

def Endpoint.attempts (e : Endpoint) (r : DispatchRequest) : List Attempt :=
  if e.fate r.channels = .filtered then []
  else [⟨Membership.frameOf r, (e.mailbox.deliver (Membership.frameOf r)).2⟩]

def Endpoint.told (e : Endpoint) (u : UserId) (c : ConnectionId) (r : DispatchRequest) : List Event :=
  if e.fate r.channels = .full then [.dropped u c r.messageType] else []

def Endpoint.close (e : Endpoint) : Endpoint := { e with mailbox := e.mailbox.close }

namespace Seat

def meet (u : UserId) (c : ConnectionId) (s : Seat) : Concern → Effect
  | .request r =>
    if s.listed then
      ⟨⟨true, s.endpoint.offered r⟩, s.endpoint.attempts r, s.endpoint.told u c r⟩
    else { seat := s }
  | .leave own =>
    { seat := ⟨false, if own then s.endpoint.close else s.endpoint⟩
      told := if s.listed then [.disconnected u c .closed] else [] }
  | .sweep =>
    if s.listed && s.endpoint.mailbox.isClosed then
      { seat := ⟨false, s.endpoint⟩, told := [.disconnected u c .closed] }
    else { seat := s }
  | .shutdown =>
    if s.listed then
      { seat := ⟨false, s.endpoint.close⟩, told := [.disconnected u c .shutdown] }
    else { seat := s }
  | .own a =>
    { seat := ⟨s.listed, a.on s.endpoint⟩, attempts := a.attempts s.endpoint }

def react (u : UserId) (c : ConnectionId) (s : Seat) : Option Concern → Effect
  | some x => s.meet u c x
  | none => { seat := s }

end Seat

namespace Membership

def seat (m : Membership) (h : Handle) : Seat := ⟨h ∈ m.entries, m.room.get h.endpoint⟩

/-- A connection is the only one of its user that is an entry, if it is one, and has a mailbox of its
own. -/
structure Seats (m : Membership) (h : Handle) : Prop where
  keyed : m.Keyed
  alone : ∀ g ∈ m.entries, g.user = h.user → g = h
  apart : ∀ g ∈ m.entries, g.endpoint = h.endpoint → g = h
  there : h.endpoint < m.room.length

theorem Seats.inOrder {m : Membership} {h : Handle} {entries : List Handle} (hs : m.Seats h)
    (hp : entries.Perm m.entries) : (m.inOrder entries).Seats h where
  keyed := keyed_inOrder hs.keyed hp
  alone g hg := hs.alone g (hp.mem_iff.mp hg)
  apart g hg := hs.apart g (hp.mem_iff.mp hg)
  there := hs.there

theorem seat_inOrder {m : Membership} {h : Handle} {entries : List Handle}
    (hp : entries.Perm m.entries) : (m.inOrder entries).seat h = m.seat h := by
  unfold seat
  congr 1
  exact decide_eq_decide.mpr hp.mem_iff

theorem Seats.nodup {m : Membership} {h : Handle} (hs : m.Seats h) : m.entries.Nodup :=
  List.Nodup.of_map _ hs.keyed

/-! ## One request -/

section

variable (r : DispatchRequest)

theorem attempts_eq (m : Membership) (h : Handle) :
    (if m.admits h r.channels then
      [Attempt.mk (frameOf r) (m.room.deliver h.endpoint (frameOf r)).2] else []) =
      (m.room.get h.endpoint).attempts r := by
  have hfate : (m.room.get h.endpoint).fate r.channels = .filtered ↔
      m.admits h r.channels = false :=
    fate_eq_filtered.trans admits_eq_false.symm
  unfold Endpoint.attempts
  cases ha : m.admits h r.channels with
  | true =>
    rw [if_pos rfl, if_neg fun hf => by cases ha.symm.trans (hfate.mp hf)]
    rfl
  | false => rw [if_neg Bool.false_ne_true, if_pos (hfate.mpr ha)]

/-- Whoever else is offered a request, and in whatever order, one recipient meets its own fate. -/
structure OffersTo (m : Membership) (hs : List Handle) (h : Handle) : Prop where
  endpoint : (m.offerAll r (frameOf r) hs).state.room.get h.endpoint =
    if h ∈ hs then (m.room.get h.endpoint).offered r else m.room.get h.endpoint
  attempts : m.attempts r (frameOf r) h.endpoint hs =
    if h ∈ hs then (m.room.get h.endpoint).attempts r else []
  told : ((m.offerAll r (frameOf r) hs).events.filter fun e => e.user = h.user) =
    if h ∈ hs then (m.room.get h.endpoint).told h.user h.id r else []

theorem offersTo (m : Membership) {hs : List Handle} {h : Handle} (hn : hs.Nodup)
    (hu : ∀ g ∈ hs, g.user = h.user → g = h) (he : ∀ g ∈ hs, g.endpoint = h.endpoint → g = h) :
    OffersTo r m hs h := by
  induction hs generalizing m with
  | nil => exact ⟨rfl, rfl, rfl⟩
  | cons g hs ih =>
    obtain ⟨hnot, hn⟩ := List.nodup_cons.mp hn
    obtain ⟨hend, hatt, htold⟩ := ih (m.offer r (frameOf r) g).state hn
      (fun k hk => hu k (List.mem_cons_of_mem g hk)) (fun k hk => he k (List.mem_cons_of_mem g hk))
    by_cases hg : g = h
    · -- This is its turn, and it does not come again.
      subst hg
      rw [if_neg hnot] at hend hatt htold
      have hthere : g ∈ g :: hs := List.mem_cons_self
      refine ⟨?_, ?_, ?_⟩
      · rw [if_pos hthere]
        exact hend.trans (get_offer_self m r _ g)
      · rw [if_pos hthere]
        show _ ++ (m.offer r (frameOf r) g).state.attempts r (frameOf r) g.endpoint hs = _
        simp only [hatt, List.append_nil, true_and, attempts_eq]
      · rw [if_pos hthere]
        show (_ ++ _ : List Event).filter _ = _
        rw [List.filter_append, htold, List.append_nil, offer_eq]
        unfold Endpoint.told fate
        dsimp only
        split <;> simp [Event.user]
    · -- It is someone else's turn, with another mailbox and another user.
      have hendpoint : g.endpoint ≠ h.endpoint := fun heq => hg (he g List.mem_cons_self heq)
      have huser : g.user ≠ h.user := fun heq => hg (hu g List.mem_cons_self heq)
      have hkeep := get_offer_ne m r (frameOf r) (h := g) (Ne.symm hendpoint)
      have hiff : h ∈ g :: hs ↔ h ∈ hs := by
        simp [Ne.symm hg]
      rw [hkeep] at hend hatt htold
      refine ⟨?_, ?_, ?_⟩
      · simp only [hiff]
        exact hend
      · simp only [hiff]
        show _ ++ (m.offer r (frameOf r) g).state.attempts r (frameOf r) h.endpoint hs = _
        rw [hatt, if_neg fun hh => hendpoint hh.1, List.nil_append]
      · simp only [hiff]
        show (_ ++ _ : List Event).filter _ = _
        rw [List.filter_append, htold, offer_eq]
        dsimp only
        split <;> simp [Event.user, huser]

end

theorem told_gone {hs : List Handle} {h : Handle} (reason : DisconnectReason) (hn : hs.Nodup)
    (hu : ∀ g ∈ hs, g.user = h.user → g = h) :
    ((hs.map fun g => Event.disconnected g.user g.id reason).filter fun e => e.user = h.user) =
      if h ∈ hs then [.disconnected h.user h.id reason] else [] := by
  induction hs with
  | nil => rfl
  | cons g hs ih =>
    obtain ⟨hnot, hn⟩ := List.nodup_cons.mp hn
    have hrest := ih hn fun k hk => hu k (List.mem_cons_of_mem g hk)
    rw [List.map_cons, List.filter_cons, hrest]
    by_cases hg : g = h
    · subst hg
      simp [Event.user, hnot]
    · have huser : g.user ≠ h.user := fun heq => hg (hu g List.mem_cons_self heq)
      simp [Event.user, huser, Ne.symm hg]

theorem Handles.events_about {m : Membership} {c : Command} {o : Outcome} (ho : m.Handles c o) :
    ∀ e ∈ o.events, (∃ g ∈ m.entries, e.user = g.user) ∨ ∃ g, c = .register g ∧ e.user = g.user := by
  intro e he
  cases ho with
  | late h hs => cases he
  | again h current hs hf hid => cases he
  | superseded h current hs hf hid =>
    refine .inr ⟨h, rfl, ?_⟩
    rcases List.mem_cons.mp he with rfl | he
    · rfl
    · rw [List.mem_singleton.mp he]
      rfl
  | full h hs hf hm => cases he
  | admitted h hs hf hm =>
    rw [List.mem_singleton.mp he]
    exact .inr ⟨h, rfl, rfl⟩
  | removed h current hf hid =>
    rw [List.mem_singleton.mp he]
    exact .inl ⟨current, mem_of_find? hf, (user_of_find? hf).symm⟩
  | stale h hf => cases he
  | dispatched r =>
    obtain ⟨g, hg, rfl⟩ := events_offerAll_dropped _ r _ _ e he
    refine .inl ⟨g, ?_, rfl⟩
    cases ht : r.target with
    | all =>
      rw [ht] at hg
      exact hg
    | user u =>
      rw [ht] at hg
      exact mem_of_find? (Option.mem_toList.mp hg)
  | counted => cases he
  | looked u => cases he
  | swept =>
    rw [events_sweep] at he
    obtain ⟨g, hg, rfl⟩ := List.mem_map.mp he
    exact .inl ⟨g, (mem_gone.mp hg).1, rfl⟩
  | ended =>
    obtain ⟨g, hg, rfl⟩ := List.mem_map.mp he
    exact .inl ⟨g, hg, rfl⟩

/-! ## One action -/

section

variable {m : Membership} {h : Handle}

@[simp] theorem room_close (m : Membership) (g : Handle) :
    (m.close g).room = m.room.close g.endpoint := rfl

@[simp] theorem room_erase (m : Membership) (u : UserId) : (m.erase u).room = m.room := rfl

theorem seat_eq {m' : Membership} (hm : h ∈ m'.entries ↔ h ∈ m.entries)
    (hg : m'.room.get h.endpoint = m.room.get h.endpoint) : m'.seat h = m.seat h := by
  unfold seat
  rw [hg, decide_eq_decide.mpr hm]

theorem Seats.find?_eq_some (hs : m.Seats h) {g : Handle} (hf : m.find? h.user = some g) : g = h :=
  hs.alone g (mem_of_find? hf) (user_of_find? hf)

theorem Seats.nodup_recipients (hs : m.Seats h) (t : Target) : (m.recipients t).Nodup := by
  cases t with
  | all => exact List.Nodup.of_map _ hs.keyed
  | user u =>
    show (m.find? u).toList.Nodup
    cases m.find? u with
    | none => exact List.nodup_nil
    | some g => exact List.nodup_singleton g

theorem Seats.register (hs : m.Seats h) {g : Handle} (hu : g.user ≠ h.user)
    (he : g.endpoint ≠ h.endpoint) : (m.register g).state.seat h = m.seat h ∧
      (m.register g).events.filter (fun e => e.user = h.user) = [] := by
  have hne : h.user ≠ g.user := Ne.symm hu
  have hnot : h ≠ g := fun heq => hne (congrArg Handle.user heq)
  have hinsert : h ∈ (m.insert g).entries ↔ h ∈ m.entries := by
    simp [mem_entries_insert, hne, hnot]
  have ho := m.handles_handle (.register g)
  change m.Handles (.register g) (m.register g) at ho
  generalize m.register g = o at ho
  cases ho with
  | late _ hsd =>
    refine ⟨seat_eq .rfl ?_, rfl⟩
    show (m.room.close g.endpoint).get h.endpoint = _
    rw [Mailroom.get_close, if_neg (Ne.symm he)]
  | again _ current hsd hf hid => exact ⟨rfl, rfl⟩
  | superseded _ current hsd hf hid =>
    have hcu : current.user = g.user := user_of_find? hf
    have hce : h.endpoint ≠ current.endpoint := fun heq =>
      hne (hcu ▸ congrArg Handle.user (hs.apart current (mem_of_find? hf) heq.symm).symm)
    refine ⟨seat_eq hinsert ?_, by simp [Event.user, hu]⟩
    show (m.room.close current.endpoint).get h.endpoint = _
    rw [Mailroom.get_close, if_neg hce]
  | full _ hsd hf hm => exact ⟨rfl, rfl⟩
  | admitted _ hsd hf hm => exact ⟨seat_eq hinsert rfl, by simp [Event.user, hu]⟩

theorem Seats.unregister (hs : m.Seats h) {g : Handle} (hg : g.endpoint = h.endpoint → g = h) :
    (⟨(m.unregister g).state.seat h, [],
      (m.unregister g).events.filter fun e => e.user = h.user⟩ : Effect) =
      (m.seat h).react h.user h.id
        (if g.user = h.user ∧ g.id = h.id then some (.leave (g.endpoint = h.endpoint)) else none) := by
  have ho := handles_unregister m g
  generalize m.unregister g = o at ho
  have hclosed : (m.room.close g.endpoint).get h.endpoint = if g.endpoint = h.endpoint then
      (m.room.get h.endpoint).close else m.room.get h.endpoint := by
    rw [Mailroom.get_close]
    simp only [eq_comm (a := h.endpoint)]
    rfl
  split
  · rename_i hid
    obtain ⟨hu, hid⟩ := hid
    cases ho with
    | removed _ current hf hid' =>
      have hcur : current = h := hs.alone current (mem_of_find? hf) ((user_of_find? hf).trans hu)
      subst hcur
      have hin : current ∈ m.entries := mem_of_find? hf
      simpa [Seat.react, Seat.meet, seat, mem_entries_erase, hu, hid, hin, Event.user] using hclosed
    | stale _ hf =>
      -- It asks to leave when it has lost its place already.
      have hout : h ∉ m.entries := fun hin =>
        hf h (hu ▸ hs.keyed.find?_eq_some.mpr hin) hid.symm
      have hout' : h ∉ (m.close g).entries := hout
      simpa [Seat.react, Seat.meet, seat, hout, hout'] using hclosed
  · rename_i hid
    have he : g.endpoint ≠ h.endpoint := fun heq => hid (hg heq ▸ ⟨rfl, rfl⟩)
    rw [if_neg he] at hclosed
    cases ho with
    | removed _ current hf hid' =>
      have hu : g.user ≠ h.user := fun hu => hid
        ⟨hu, hid' ▸ congrArg Handle.id (hs.find?_eq_some (hu ▸ hf))⟩
      have hkeep : h ∈ ((m.close g).erase g.user).entries ↔ h ∈ m.entries := by
        rw [mem_entries_erase]
        exact and_iff_left (Ne.symm hu)
      rw [seat_eq hkeep hclosed]
      simp [Seat.react, Event.user, hu]
    | stale _ hf =>
      have hkeep : (m.close g).seat h = m.seat h := seat_eq .rfl hclosed
      rw [hkeep]
      rfl

theorem Seats.sweep (hs : m.Seats h) :
    (⟨m.sweep.state.seat h, [], m.sweep.events.filter fun e => e.user = h.user⟩ : Effect) =
      (m.seat h).meet h.user h.id .sweep := by
  have hgone : h ∈ m.gone ↔ h ∈ m.entries ∧ (m.room.get h.endpoint).mailbox.isClosed = true := mem_gone
  have hnodup : m.gone.Nodup := hs.nodup.filter _
  have htold := told_gone .closed hnodup fun g hg => hs.alone g (mem_gone.mp hg).1
  rw [events_sweep, htold]
  unfold seat Seat.meet
  simp only [mem_entries_sweep, hgone]
  have hroom : m.sweep.state.room = m.room := rfl
  have hclosed : m.isClosed h = (m.room.get h.endpoint).mailbox.isClosed := rfl
  rw [hroom, hclosed]
  by_cases hin : h ∈ m.entries
  · cases (m.room.get h.endpoint).mailbox.isClosed <;> simp [hin]
  · simp [hin]

theorem Seats.shutdown (hs : m.Seats h) :
    (⟨m.shutdown.state.seat h, [], m.shutdown.events.filter fun e => e.user = h.user⟩ : Effect) =
      (m.seat h).meet h.user h.id .shutdown := by
  have htold := told_gone .shutdown hs.nodup hs.alone
  have hroom : m.shutdown.state.room.get h.endpoint = if h ∈ m.entries then
      (m.room.get h.endpoint).close else m.room.get h.endpoint := by
    show Mailroom.get (m.entries.foldl _ m.room) _ = _
    rw [Mailroom.get_closeAll]
    have hiff : (∃ g ∈ m.entries, g.endpoint = h.endpoint) ↔ h ∈ m.entries :=
      ⟨fun ⟨g, hg, heq⟩ => hs.apart g hg heq ▸ hg, fun hh => ⟨h, hh, rfl⟩⟩
    simp only [hiff]
    rfl
  have hout : h ∉ m.shutdown.state.entries := List.not_mem_nil
  show (⟨_, [], (m.entries.map _).filter _⟩ : Effect) = _
  rw [htold]
  unfold seat Seat.meet
  rw [hroom]
  by_cases hin : h ∈ m.entries <;> simp [hin, hout]

theorem Seats.dispatch (hs : m.Seats h) (r : DispatchRequest) :
    (⟨(m.dispatch r).state.seat h,
      m.counted.attempts r (frameOf r) h.endpoint (m.recipients r.target),
      (m.dispatch r).events.filter fun e => e.user = h.user⟩ : Effect) =
      (m.seat h).react h.user h.id
        (if r.target = .all ∨ r.target = .user h.user then some (.request r) else none) := by
  have hmem (g : Handle) := hs.keyed.mem_recipients r.target g
  obtain ⟨hend, hatt, htold⟩ := offersTo r m.counted (h := h) (hs.nodup_recipients r.target)
    (fun g hg => hs.alone g ((hmem g).mp hg).1) (fun g hg => hs.apart g ((hmem g).mp hg).1)
  have hroom : m.counted.room = m.room := rfl
  rw [hroom] at hend hatt htold
  rw [← dispatch_eq] at hend htold
  have hentries : h ∈ (m.dispatch r).state.entries ↔ h ∈ m.entries := by
    rw [entries_dispatch]
  rw [hatt, htold]
  unfold seat
  rw [hend]
  simp only [hentries, hmem]
  by_cases ht : r.target = .all ∨ r.target = .user h.user
  · by_cases hin : h ∈ m.entries <;> simp [hin, ht, Seat.react, Seat.meet]
  · simp [ht, Seat.react]

theorem Seats.outside (hs : m.Seats h) (n : Nat) (a : Handling) :
    (⟨(m.act (.outside n a)).seat h, if n = h.endpoint then a.attempts (m.room.get h.endpoint) else [],
      []⟩ : Effect) =
      (m.seat h).react h.user h.id (if n = h.endpoint then some (.own a) else none) := by
  by_cases hn : n = h.endpoint
  · subst hn
    have hroom : (m.act (.outside h.endpoint a)).room.get h.endpoint = a.on (m.room.get h.endpoint) :=
      Mailroom.get_update_self _ hs.there
    rw [if_pos rfl, if_pos rfl]
    unfold seat
    rw [hroom]
    rfl
  · have hkeep : (m.act (.outside n a)).seat h = m.seat h :=
      seat_eq .rfl (Mailroom.get_update_ne _ _ (Ne.symm hn))
    rw [if_neg hn, if_neg hn, hkeep]
    rfl

end

end Membership

def Moment.effect (h : Handle) (t : Moment) : Effect :=
  ⟨t.after.seat h, t.attempts h.endpoint, t.told h.user⟩

section

variable {t : Moment} {h : Handle}

/-- What an action comes to at a seat is up to the seat, and to what the action is to its user. -/
theorem Moment.effect_eq (hs : t.before.Seats h) (ha : t.action.Avoids h.user (some h)) :
    t.effect h = (t.before.seat h).react h.user h.id (t.action.concern? h.user (some h)) := by
  obtain ⟨m, a⟩ := t
  cases a with
  | outside n a =>
    refine Eq.trans ?_ (hs.outside n a)
    unfold Moment.effect Moment.attempts
    dsimp only
    by_cases hn : n = h.endpoint
    · subst hn
      rfl
    · rw [if_neg hn]
      rfl
  | command c =>
    cases c with
    | register g =>
      obtain ⟨hseat, htold⟩ := hs.register ha.1 (ha.2 h rfl)
      exact Effect.mk.injEq .. ▸ ⟨hseat, rfl, htold⟩
    | unregister g => exact hs.unregister (ha h rfl)
    | dispatch r => exact hs.dispatch r
    | stats => rfl
    | online u => rfl
    | sweep => exact hs.sweep
    | shutdown => exact hs.shutdown

theorem Moment.seats_after (hs : t.before.Seats h) (ha : t.action.Avoids h.user (some h)) :
    t.after.Seats h := by
  have hentry (g : Handle) (hg : g ∈ t.after.entries) :
      g ∈ t.before.entries ∨ g.user ≠ h.user ∧ g.endpoint ≠ h.endpoint := by
    obtain ⟨m, a⟩ := t
    cases a with
    | outside n a => exact .inl hg
    | command c =>
      rcases Membership.mem_entries_handle hg with hg | rfl
      · exact .inl hg
      · exact .inr ⟨ha.1, ha.2 h rfl⟩
  refine ⟨?_, ?_, ?_, ?_⟩
  · rw [t.after_eq]
    exact Membership.keyed_act hs.keyed _
  · intro g hg hu
    rcases hentry g hg with hg | ⟨hne, -⟩
    · exact hs.alone g hg hu
    · exact absurd hu hne
  · intro g hg he
    rcases hentry g hg with hg | ⟨-, hne⟩
    · exact hs.apart g hg he
    · exact absurd he hne
  · obtain ⟨m, a⟩ := t
    cases a with
    | outside n a => exact (Mailroom.length_update m.room n _).symm ▸ hs.there
    | command c => exact (m.length_handle c).symm ▸ hs.there

end

/-! ## Whole courses -/

def attempts (n : Nat) (ts : List Moment) : List Attempt := ts.flatMap (Moment.attempts n)

def told (u : UserId) (ts : List Moment) : List Event := ts.flatMap (Moment.told u)

def concerns (u : UserId) (own : Option Handle) (ts : List Moment) : List Concern :=
  ts.filterMap fun t => t.action.concern? u own

def Effect.see (u : UserId) (c : ConnectionId) (e : Effect) (x : Concern) : Effect :=
  let next := e.seat.meet u c x
  ⟨next.seat, e.attempts ++ next.attempts, e.told ++ next.told⟩

namespace Course

variable {start m : Membership} {ts : List Moment} {h : Handle}

/-- What is seen from a seat over a whole course is decided by the concerns of its user. -/
theorem seen (hc : Course start ts m) (hs : start.Seats h)
    (ha : ∀ t ∈ ts, t.action.Avoids h.user (some h)) :
    m.Seats h ∧ (⟨m.seat h, attempts h.endpoint ts, told h.user ts⟩ : Effect) =
      (concerns h.user (some h) ts).foldl (Effect.see h.user h.id) { seat := start.seat h } := by
  induction hc with
  | nil => exact ⟨hs, rfl⟩
  | @snoc ts m hc entries hp a ih =>
    obtain ⟨hm, hseen⟩ := ih fun t ht => ha t (List.mem_append_left _ ht)
    have hb := hm.inOrder hp
    have hav : a.Avoids h.user (some h) :=
      ha ⟨m.inOrder entries, a⟩ (List.mem_append_right _ (List.mem_singleton_self _))
    refine ⟨Moment.seats_after (t := ⟨m.inOrder entries, a⟩) hb hav, ?_⟩
    have heff := Moment.effect_eq (t := ⟨m.inOrder entries, a⟩) hb hav
    rw [Membership.seat_inOrder hp] at heff
    unfold concerns attempts told at hseen ⊢
    rw [List.filterMap_append, List.foldl_append, ← hseen, List.flatMap_append, List.flatMap_append,
      List.flatMap_singleton, List.flatMap_singleton]
    cases hx : a.concern? h.user (some h) with
    | none =>
      rw [hx] at heff
      obtain ⟨hseat, hatt, htold⟩ := Effect.mk.inj heff
      simp [hx, hseat, hatt, htold]
    | some x =>
      rw [hx] at heff
      have hsee (e : Effect) (he : e.seat = m.seat h) : e.see h.user h.id x =
          ⟨(Moment.after ⟨m.inOrder entries, a⟩).seat h,
            e.attempts ++ Moment.attempts h.endpoint ⟨m.inOrder entries, a⟩,
            e.told ++ Moment.told h.user ⟨m.inOrder entries, a⟩⟩ := by
        unfold Effect.see
        rw [he]
        change Moment.effect h ⟨m.inOrder entries, a⟩ = (m.seat h).meet h.user h.id x at heff
        rw [← heff]
        rfl
      simp [hx, hsee]

theorem unseen (hc : Course start ts m) {u : UserId} (hn : ∀ g ∈ start.entries, g.user ≠ u)
    (ha : ∀ t ∈ ts, t.action.Avoids u none) :
    (∀ g ∈ m.entries, g.user ≠ u) ∧ told u ts = [] := by
  induction hc with
  | nil => exact ⟨hn, rfl⟩
  | @snoc ts m hc entries hp a ih =>
    obtain ⟨hm, htold⟩ := ih fun t ht => ha t (List.mem_append_left _ ht)
    have hb (g : Handle) (hg : g ∈ (m.inOrder entries).entries) : g.user ≠ u := hm g (hp.mem_iff.mp hg)
    have hav : a.Avoids u none :=
      ha ⟨m.inOrder entries, a⟩ (List.mem_append_right _ (List.mem_singleton_self _))
    unfold told at htold ⊢
    rw [List.flatMap_append, htold, List.flatMap_singleton, List.nil_append]
    cases a with
    | outside n a => exact ⟨hb, rfl⟩
    | command c =>
      have hregister (g : Handle) (hg : c = .register g) : g.user ≠ u := by
        subst hg
        exact hav.1
      refine ⟨fun g hg => ?_, List.filter_eq_nil_iff.mpr fun e he => ?_⟩
      · rcases Membership.mem_entries_handle hg with hg | hg
        · exact hb g hg
        · exact hregister g hg
      · rcases (Membership.handles_handle _ c).events_about e he with ⟨g, hg, heq⟩ | ⟨g, hg, heq⟩
        · simpa [heq] using hb g hg
        · simpa [heq] using hregister g hg

end Course

/-- What the registry keeps of a user: the number of its connection, the mailbox and the
subscriptions. -/
def Membership.view (m : Membership) (u : UserId) : Option (ConnectionId × Endpoint) :=
  (m.find? u).map fun h => (h.id, m.room.get h.endpoint)

/-- The connection of a user has a mailbox that no other entry has. -/
structure Membership.Owns (m : Membership) (u : UserId) : Prop where
  keyed : m.Keyed
  apart : ∀ h, m.find? u = some h → ∀ g ∈ m.entries, g.endpoint = h.endpoint → g = h
  there : ∀ h, m.find? u = some h → h.endpoint < m.room.length

theorem Membership.Owns.seats {m : Membership} {u : UserId} (ho : m.Owns u) {h : Handle}
    (hf : m.find? u = some h) : m.Seats h where
  keyed := ho.keyed
  alone _ hg hu := ho.keyed.eq_of_user hg (mem_of_find? hf) hu
  apart := ho.apart h hf
  there := ho.there h hf

/-- What a user sees of two courses. -/
structure SameFor (u : UserId) (s s' : Membership) (ts ts' : List Moment) (m m' : Membership) :
    Prop where
  /-- The user has kept its connection in both, or has none any more in either. -/
  entry : m.find? u = s.find? u ∧ m'.find? u = s'.find? u ∨ m.find? u = none ∧ m'.find? u = none
  mailbox : ∀ h h', s.find? u = some h → s'.find? u = some h' →
    m.room.get h.endpoint = m'.room.get h'.endpoint
  attempts : ∀ h h', s.find? u = some h → s'.find? u = some h' →
    attempts h.endpoint ts = Registry.attempts h'.endpoint ts'
  told : told u ts = Registry.told u ts'

section

variable {u : UserId} {s s' m m' : Membership} {ts ts' : List Moment}

theorem Course.same_of_absent (hc : Course s ts m) (hc' : Course s' ts' m') (hf : s.find? u = none)
    (hf' : s'.find? u = none) (ha : ∀ t ∈ ts, t.action.Avoids u (s.find? u))
    (ha' : ∀ t ∈ ts', t.action.Avoids u (s'.find? u)) : SameFor u s s' ts ts' m m' := by
  have hnone {m : Membership} : m.find? u = none ↔ ∀ g ∈ m.entries, g.user ≠ u := by
    simp [Membership.find?]
  rw [hf] at ha
  rw [hf'] at ha'
  obtain ⟨hm, htold⟩ := hc.unseen (hnone.mp hf) ha
  obtain ⟨hm', htold'⟩ := hc'.unseen (hnone.mp hf') ha'
  refine ⟨.inr ⟨hnone.mpr hm, hnone.mpr hm'⟩, ?_, ?_, htold.trans htold'.symm⟩
  · intro h _ heq
    cases hf.symm.trans heq
  · intro h _ heq
    cases hf.symm.trans heq

theorem Course.same_of_present {h h' : Handle} (hc : Course s ts m) (hc' : Course s' ts' m')
    (ho : s.Owns u) (ho' : s'.Owns u) (hf : s.find? u = some h) (hf' : s'.find? u = some h')
    (hid : h'.id = h.id) (hend : s'.room.get h'.endpoint = s.room.get h.endpoint)
    (ha : ∀ t ∈ ts, t.action.Avoids u (some h)) (ha' : ∀ t ∈ ts', t.action.Avoids u (some h'))
    (hx : concerns u (some h) ts = concerns u (some h') ts') : SameFor u s s' ts ts' m m' := by
  obtain rfl := Membership.user_of_find? hf
  have hu := Membership.user_of_find? hf'
  rw [← hu] at ha'
  obtain ⟨hm, hseen⟩ := hc.seen (ho.seats hf) ha
  obtain ⟨hm', hseen'⟩ := hc'.seen (ho'.seats hf') ha'
  -- Both courses begin at one seat, and what is seen from there is up to the same concerns.
  have hstart : s.seat h = s'.seat h' := by
    unfold Membership.seat
    rw [hend]
    simp [Membership.mem_of_find? hf, Membership.mem_of_find? hf']
  rw [hu, hid, ← hx, ← hstart, ← hseen] at hseen'
  obtain ⟨hseat, hatt, htold⟩ := Effect.mk.inj hseen'
  obtain ⟨hlisted, hroom⟩ := Seat.mk.inj hseat
  have hentry : h' ∈ m'.entries ↔ h ∈ m.entries := decide_eq_decide.mp hlisted
  refine ⟨?_, ?_, ?_, htold.symm⟩
  · by_cases hin : h ∈ m.entries
    · refine .inl ⟨(hm.keyed.find?_eq_some.mpr hin).trans hf.symm, ?_⟩
      rw [hf', ← hu]
      exact hm'.keyed.find?_eq_some.mpr (hentry.mpr hin)
    · refine .inr ⟨List.find?_eq_none.mpr fun g hg => ?_, List.find?_eq_none.mpr fun g hg => ?_⟩
      · have hne : g.user ≠ h.user := fun heq => hin (hm.alone g hg heq ▸ hg)
        simpa using hne
      · have hne : g.user ≠ h'.user := fun heq => hin (hentry.mp (hm'.alone g hg heq ▸ hg))
        simpa [hu] using hne
  · intro k k' hk hk'
    cases hf.symm.trans hk
    cases hf'.symm.trans hk'
    exact hroom.symm
  · intro k k' hk hk'
    cases hf.symm.trans hk
    cases hf'.symm.trans hk'
    exact hatt.symm

end

/-- Two registries that keep the same of a user, and courses in which the same concerns it, in the same
order, are the same to this user; whoever else there is, whatever becomes of them, and in whatever
order anyone is visited. -/
theorem Course.isolated {u : UserId} {s s' m m' : Membership} {ts ts' : List Moment}
    (hc : Course s ts m) (hc' : Course s' ts' m') (ho : s.Owns u) (ho' : s'.Owns u)
    (hv : s.view u = s'.view u)
    (ha : ∀ t ∈ ts, t.action.Avoids u (s.find? u)) (ha' : ∀ t ∈ ts', t.action.Avoids u (s'.find? u))
    (hx : concerns u (s.find? u) ts = concerns u (s'.find? u) ts') : SameFor u s s' ts ts' m m' := by
  unfold Membership.view at hv
  cases hf : s.find? u with
  | none =>
    rw [hf, Option.map_none, eq_comm, Option.map_eq_none_iff] at hv
    exact hc.same_of_absent hc' hf hv ha ha'
  | some h =>
    rw [hf, Option.map_some, eq_comm, Option.map_eq_some_iff] at hv
    obtain ⟨h', hf', heq⟩ := hv
    obtain ⟨hid, hend⟩ := Prod.mk.inj heq
    rw [hf] at ha hx
    rw [hf'] at ha' hx
    exact hc.same_of_present hc' ho ho' hf hf' hid hend ha ha' hx

def alone : Membership :=
  { entries := [⟨⟨1⟩, ⟨21, by decide⟩, 0⟩], counters := {}, shuttingDown := false, maxConnections := 9
    room := [⟨.create 1, ⟨[taskUpdates], none⟩⟩] }

/-- The same user among others, of whom one never reads and one is gone. -/
def amongOthers : Membership :=
  { entries := [⟨⟨5⟩, ⟨22, by decide⟩, 1⟩, ⟨⟨1⟩, ⟨21, by decide⟩, 2⟩, ⟨⟨6⟩, ⟨23, by decide⟩, 0⟩]
    counters := ⟨4, 3, 2, 1⟩, shuttingDown := false, maxConnections := 3
    room := [⟨⟨1, [], false, true⟩, .empty none⟩, ⟨⟨1, [.text "unread"], false, false⟩, .empty none⟩,
      ⟨.create 1, ⟨[taskUpdates], none⟩⟩, ⟨.create 1, .empty none⟩] }

/-- Two requests for all, of which the second finds a full mailbox, and one for the user. -/
def quietly : List Action :=
  let update : DispatchRequest := ⟨.all, "update", .null, [taskUpdates]⟩
  [.command (.dispatch update), .command (.dispatch update), .outside 0 .take,
    .command (.dispatch { update with target := .user ⟨21, by decide⟩ }), .command .sweep,
    .outside 0 .close, .command .sweep]

def busily : List Action :=
  let update : DispatchRequest := ⟨.all, "update", .null, [taskUpdates]⟩
  [.command (.register ⟨⟨9⟩, ⟨22, by decide⟩, 3⟩), .command (.dispatch update),
    .command (.dispatch { update with target := .user ⟨22, by decide⟩ }), .outside 1 .take,
    .command (.dispatch update), .command (.unregister ⟨⟨5⟩, ⟨22, by decide⟩, 1⟩), .outside 2 .take,
    .command (.dispatch { update with target := .user ⟨21, by decide⟩ }), .outside 0 .close,
    .command .sweep, .outside 2 .close, .command .stats, .command .sweep]

theorem isolated_amongOthers :
    SameFor ⟨21, by decide⟩ alone amongOthers (trail alone quietly) (trail amongOthers busily)
      (alone.run quietly) (amongOthers.run busily) ∧
    (attempts 2 (trail amongOthers busily)).map Attempt.result = [.ok (), .error .full, .ok ()] ∧
    told ⟨21, by decide⟩ (trail amongOthers busily) =
      [.dropped ⟨21, by decide⟩ ⟨1⟩ "update", .disconnected ⟨21, by decide⟩ ⟨1⟩ .closed] := by
  have hf : alone.find? ⟨21, by decide⟩ = some ⟨⟨1⟩, ⟨21, by decide⟩, 0⟩ := rfl
  have hf' : amongOthers.find? ⟨21, by decide⟩ = some ⟨⟨1⟩, ⟨21, by decide⟩, 2⟩ := rfl
  have ho : alone.Owns ⟨21, by decide⟩ := by
    refine ⟨by decide, ?_, ?_⟩ <;> rw [hf] <;> rintro h ⟨⟩ <;> decide
  have ho' : amongOthers.Owns ⟨21, by decide⟩ := by
    refine ⟨by decide, ?_, ?_⟩ <;> rw [hf'] <;> rintro h ⟨⟩ <;> decide
  refine ⟨Course.isolated (Course.ofTrail alone quietly) (Course.ofTrail amongOthers busily) ho ho'
    (by decide) ?_ ?_ rfl, by decide, by decide⟩
  · simp [trail, quietly, Action.Avoids]
  · rw [hf']
    simp [trail, busily, Action.Avoids]

end PushHub.Registry
