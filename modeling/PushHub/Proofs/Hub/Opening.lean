import PushHub.Proofs.Hub.Delivery
import Mathlib.Data.List.Range

/-! How sessions are opened, and which actions are theirs. A session is as it was unless one of its
parts moves or its client acts; and where its own actions reach nothing but itself, the rest of the
hub is the same without them. -/
namespace PushHub

open Registry (Handle Service)

def Move.session? : Move → Option Nat
  | .serve => none
  | .sweep => none
  | .admission i => some i
  | .inbound i => some i
  | .outbound i => some i
  | .keepalive i => some i

/-- What a part of a session does to the session and to what all sessions share. -/
def Session.move (e : Surroundings) (d : Desk) (s : Session) : Move → Option (Desk × Session)
  | .admission i => Admission.step e i d s
  | .inbound _ =>
    match s.phase with
    | .admitted c inbound outbound =>
      (inbound.step e c s.line d.service).map fun (line, v, inbound) =>
        (⟨v, d.nextId⟩, ⟨line, .admitted c inbound outbound⟩)
    | _ => none
  | .outbound _ =>
    match s.phase with
    | .admitted c inbound outbound =>
      (outbound.step e c s.line d.service).map fun (line, v, outbound) =>
        (⟨v, d.nextId⟩, ⟨line, .admitted c inbound outbound⟩)
    | _ => none
  | .keepalive _ =>
    match s.phase with
    | .admitted c inbound outbound =>
      (outbound.keepAlive e s.line d.service).map fun (line, v, outbound) =>
        (⟨v, d.nextId⟩, ⟨line, .admitted c inbound outbound⟩)
    | _ => none
  | _ => none

/-- A proof that the verifier accepts is given a number; every other move is one of those listed. -/
theorem Session.works_of_move {e : Surroundings} {i : Nat} {d d' : Desk} {s s' : Session} {m : Move}
    (hv : d.service.running = true) (hm : m.session? = some i) (hs : s.move e d m = some (d', s')) :
    (s.Works i d.service m d'.service s' ∧ d'.nextId = d.nextId) ∨
      ∃ line line' deadline u, m = .admission i ∧ s = ⟨line, .awaiting deadline⟩ ∧
        (d', s') = ((Admission.assign e d u).1, ⟨line', (Admission.assign e d u).2⟩) := by
  obtain ⟨line, phase⟩ := s
  cases m with
  | serve => cases hm
  | sweep => cases hm
  | admission j =>
    cases hm
    rcases works_of_admission hv hs with hw | ⟨line, line', deadline, u, heq, hd, -⟩
    · exact .inl hw
    · exact .inr ⟨line, line', deadline, u, rfl, heq, hd⟩
  | inbound j =>
    cases hm
    cases phase with
    | admitted c inbound outbound =>
      obtain ⟨⟨line', v, inbound'⟩, hstep, heq⟩ := Option.map_eq_some_iff.mp hs
      cases heq
      exact .inl ⟨works_of_inbound hv hstep, rfl⟩
    | _ => cases hs
  | outbound j =>
    cases hm
    cases phase with
    | admitted c inbound outbound =>
      obtain ⟨⟨line', v, outbound'⟩, hstep, heq⟩ := Option.map_eq_some_iff.mp hs
      cases heq
      exact .inl ⟨works_of_outbound hstep, rfl⟩
    | _ => cases hs
  | keepalive j =>
    cases hm
    cases phase with
    | admitted c inbound outbound =>
      obtain ⟨⟨line', v, outbound'⟩, hstep, heq⟩ := Option.map_eq_some_iff.mp hs
      cases heq
      exact .inl ⟨works_of_keepAlive (.inr rfl) hstep, rfl⟩
    | _ => cases hs

namespace Hub

theorem move_eq_of_session (h : Hub) {m : Move} {i : Nat} (hm : m.session? = some i) :
    h.move m = h.sessions[i]?.bind fun s =>
      (s.move h.surroundings h.desk m).map fun (d, s') =>
        { h with service := d.service, nextId := d.nextId }.setSession i s' := by
  cases m with
  | serve => cases hm
  | sweep => cases hm
  | admission j =>
    cases hm
    simp only [move, Option.bind_eq_bind, Session.move]
    congr 1
    funext s
    cases Admission.step h.surroundings i h.desk s <;> rfl
  | inbound j =>
    cases hm
    simp only [move, Option.bind_eq_bind]
    congr 1
    funext s
    obtain ⟨line, phase⟩ := s
    cases phase with
    | admitted c inbound outbound =>
      show (inbound.step h.surroundings c line h.service).bind _ = Option.map _ (Option.map _ _)
      simp only [desk]
      cases inbound.step h.surroundings c line h.service <;> rfl
    | _ => rfl
  | outbound j =>
    cases hm
    simp only [move, Option.bind_eq_bind]
    congr 1
    funext s
    obtain ⟨line, phase⟩ := s
    cases phase with
    | admitted c inbound outbound =>
      show (outbound.step h.surroundings c line h.service).bind _ = Option.map _ (Option.map _ _)
      simp only [desk]
      cases outbound.step h.surroundings c line h.service <;> rfl
    | _ => rfl
  | keepalive j =>
    cases hm
    simp only [move, Option.bind_eq_bind]
    congr 1
    funext s
    obtain ⟨line, phase⟩ := s
    cases phase with
    | admitted c inbound outbound =>
      show (outbound.keepAlive h.surroundings line h.service).bind _ =
        Option.map _ (Option.map _ _)
      simp only [desk]
      cases outbound.keepAlive h.surroundings line h.service <;> rfl
    | _ => rfl

theorem move_eq_some {h h' : Hub} {m : Move} {i : Nat} (hm : m.session? = some i) :
    h.move m = some h' ↔ ∃ s d s', h.sessions[i]? = some s ∧
      s.move h.surroundings h.desk m = some (d, s') ∧
      h' = { h with service := d.service, nextId := d.nextId }.setSession i s' := by
  rw [h.move_eq_of_session hm, Option.bind_eq_some_iff]
  constructor
  · rintro ⟨s, hs, hmap⟩
    obtain ⟨⟨d, s'⟩, hstep, heq⟩ := Option.map_eq_some_iff.mp hmap
    exact ⟨s, d, s', hs, hstep, heq.symm⟩
  · rintro ⟨s, d, s', hs, hstep, rfl⟩
    exact ⟨s, hs, Option.map_eq_some_iff.mpr ⟨(d, s'), hstep, rfl⟩⟩

/-- The session that an action is of: one of its parts moves, or its client acts. -/
def Action.session? : Action → Option Nat
  | .move m => m.session?
  | .client i _ => some i
  | _ => none

/-- The session that is opened at a moment, with its user if that is known already. -/
def Moment.opened? (t : Moment) : Option (Nat × Option UserId) :=
  match t.action with
  | .accept _ => some (t.before.sessions.length, none)
  | .register u _ => some (t.before.sessions.length, some u)
  | _ => none

def openings (ms : List Moment) : List (Nat × Option UserId) := ms.filterMap Moment.opened?

theorem openings_snoc (ms : List Moment) (t : Moment) :
    openings (ms ++ [t]) = openings ms ++ t.opened?.toList :=
  filterMap_snoc _ ms t

def Moment.own? (t : Moment) (i : Nat) : Option (Session × Move) :=
  match t.action with
  | .move m => if m.session? = some i then (t.before.sessions[i]?).map (·, m) else none
  | _ => none

theorem own?_eq_some {t : Moment} {i : Nat} {s : Session} {m : Move} :
    t.own? i = some (s, m) ↔
      t.action = .move m ∧ m.session? = some i ∧ t.before.sessions[i]? = some s := by
  obtain ⟨h, a, h'⟩ := t
  cases a with
  | move n =>
    by_cases hn : n.session? = some i
    · simp only [Moment.own?, hn, if_true, Option.map_eq_some_iff, Prod.mk.injEq, Action.move.injEq]
      constructor
      · rintro ⟨s', hs', rfl, rfl⟩
        exact ⟨rfl, hn, hs'⟩
      · rintro ⟨rfl, -, hs'⟩
        exact ⟨s, hs', rfl, rfl⟩
    · simp only [Moment.own?, hn, if_false, Action.move.injEq]
      constructor
      · nofun
      · rintro ⟨rfl, hm, -⟩
        exact absurd hm hn
  | _ => simp [Moment.own?]

theorem own?_of_move {h h' : Hub} {i : Nat} {s : Session} {m : Move} (hm : m.session? = some i)
    (hs : h.sessions[i]? = some s) : Moment.own? ⟨h, .move m, h'⟩ i = some (s, m) :=
  own?_eq_some.mpr ⟨rfl, hm, hs⟩

theorem own?_of_ne {h h' : Hub} {a : Action} {i : Nat} (hi : a.session? ≠ some i) :
    Moment.own? ⟨h, a, h'⟩ i = none := by
  cases a with
  | move m => exact if_neg hi
  | _ => rfl

theorem own?_of_absent {t : Moment} {i : Nat} (hi : t.before.sessions[i]? = none) :
    t.own? i = none := by
  cases ho : t.own? i with
  | none => rfl
  | some p =>
    obtain ⟨-, -, hs⟩ := own?_eq_some.mp ho
    rw [hi] at hs
    cases hs

section

variable {start h h' : Hub} {a : Action} {ms : List Moment} {i : Nat}

theorem Acts.length_sessions (ha : h.Acts a h') :
    h'.sessions.length = h.sessions.length + (Moment.opened? ⟨h, a, h'⟩).toList.length := by
  cases ha with
  | worked j m s s' v hs hw =>
    show (h.sessions.set j s').length = h.sessions.length
    exact List.length_set
  | proved j line line' deadline u hs hl => simp [Moment.opened?, setSession, allot]
  | accepted line deadline => simp [Moment.opened?]
  | registered u line => simp [Moment.opened?]
  | client j c s hs => simp [Moment.opened?, setSession]
  | _ => rfl

theorem Acts.fixed (ha : h.Acts a h') : h'.settings = h.settings ∧ h'.verifier = h.verifier := by
  cases ha <;> exact ⟨rfl, rfl⟩

theorem Run.fixed (hr : Run start ms h) (hs : start.Fresh) :
    h.settings = start.settings ∧ h.verifier = start.verifier := by
  induction hr with
  | nil => exact ⟨rfl, rfl⟩
  | snoc hr ha ih =>
    obtain ⟨hsettings, hverifier⟩ := (acts_of_act (hr.ledger hs).running ha).fixed
    exact ⟨hsettings.trans ih.1, hverifier.trans ih.2⟩

theorem Run.map_fst_openings (hr : Run start ms h) (hs : start.Fresh) :
    (openings ms).map Prod.fst = List.range h.sessions.length := by
  induction hr with
  | nil =>
    obtain ⟨settings, registry, verifier, channels, clock, rfl⟩ := hs
    rfl
  | @snoc ms h h' a hr ha ih =>
    have hlen := (acts_of_act (hr.ledger hs).running ha).length_sessions
    rw [openings_snoc, List.map_append, ih, hlen]
    cases a with
    | accept line => simp [Moment.opened?, List.range_succ]
    | register u line => simp [Moment.opened?, List.range_succ]
    | _ => simp [Moment.opened?]

theorem Run.absent (hr : Run start ms h) (hs : start.Fresh) (hi : h.sessions.length ≤ i) :
    ∀ t ∈ ms, t.before.sessions[i]? = none := by
  induction hr with
  | nil => simp
  | @snoc ms h h' a hr ha ih =>
    have hlen := (acts_of_act (hr.ledger hs).running ha).length_sessions
    have hle : h.sessions.length ≤ i := by omega
    intro t ht
    rcases List.mem_append.mp ht with ht | ht
    · exact ih hle t ht
    · rw [List.mem_singleton.mp ht]
      exact List.getElem?_eq_none hle

theorem Run.opening_of_lt (hr : Run start ms h) (hs : start.Fresh) (hi : i < h.sessions.length) :
    ∃ o, (i, o) ∈ openings ms := by
  rw [← List.mem_range, ← hr.map_fst_openings hs] at hi
  obtain ⟨⟨j, o⟩, ho, rfl⟩ := List.mem_map.mp hi
  exact ⟨o, ho⟩

theorem Run.lt_of_opening (hr : Run start ms h) (hs : start.Fresh) {o : Option UserId}
    (ho : (i, o) ∈ openings ms) : i < h.sessions.length := by
  rw [← List.mem_range, ← hr.map_fst_openings hs]
  exact List.mem_map_of_mem ho

/-! ## Actions of others -/

theorem getElem?_of_other (ha : h.act a = some h') (hi : a.session? ≠ some i)
    (hlt : i < h.sessions.length) : h'.sessions[i]? = h.sessions[i]? := by
  cases a with
  | move m =>
    cases hm : m.session? with
    | some j =>
      have hj : i ≠ j := fun heq => hi (hm.trans (congrArg some heq.symm))
      obtain ⟨s, d, s', hs, -, rfl⟩ := (move_eq_some hm).mp ha
      exact (getElem?_setSession { h with service := d.service, nextId := d.nextId } s' hs i).trans
        (if_neg hj)
    | none =>
      cases m with
      | serve =>
        simp only [act, move] at ha
        split at ha <;> cases ha
        rfl
      | sweep =>
        simp only [act, move] at ha
        split at ha <;> cases ha
        rfl
      | _ => cases hm
  | accept line =>
    cases ha
    exact List.getElem?_append_left hlt
  | register u line =>
    cases ha
    exact List.getElem?_append_left hlt
  | ask q =>
    simp only [act] at ha
    split at ha <;> cases ha
    rfl
  | client j c =>
    have hj : i ≠ j := fun heq => hi (congrArg some heq.symm)
    cases ha
    unfold onClient
    cases hs : h.sessions[j]? with
    | none => rfl
    | some s => exact (getElem?_setSession h _ hs i).trans (if_neg hj)
  | _ =>
    cases ha
    rfl

/-- Two hubs that tell apart at most by one session. -/
structure AlikeBut (i : Nat) (h g : Hub) : Prop where
  settings : g.settings = h.settings
  verifier : g.verifier = h.verifier
  channels : g.channels = h.channels
  clock : g.clock = h.clock
  now : g.now = h.now
  nextId : g.nextId = h.nextId
  service : g.service = h.service
  length : g.sessions.length = h.sessions.length
  others : ∀ j : Nat, j ≠ i → g.sessions[j]? = h.sessions[j]?

namespace AlikeBut

variable {g : Hub}

theorem refl (i : Nat) (h : Hub) : AlikeBut i h h :=
  ⟨rfl, rfl, rfl, rfl, rfl, rfl, rfl, rfl, fun _ _ => rfl⟩

theorem symm (hg : AlikeBut i h g) : AlikeBut i g h :=
  ⟨hg.settings.symm, hg.verifier.symm, hg.channels.symm, hg.clock.symm, hg.now.symm,
    hg.nextId.symm, hg.service.symm, hg.length.symm, fun j hj => (hg.others j hj).symm⟩

theorem trans {k : Hub} (hg : AlikeBut i h g) (hk : AlikeBut i g k) : AlikeBut i h k :=
  ⟨hk.settings.trans hg.settings, hk.verifier.trans hg.verifier, hk.channels.trans hg.channels,
    hk.clock.trans hg.clock, hk.now.trans hg.now, hk.nextId.trans hg.nextId,
    hk.service.trans hg.service, hk.length.trans hg.length,
    fun j hj => (hk.others j hj).trans (hg.others j hj)⟩

theorem setSession (h : Hub) (i : Nat) (s : Session) : AlikeBut i h (h.setSession i s) where
  settings := rfl
  verifier := rfl
  channels := rfl
  clock := rfl
  now := rfl
  nextId := rfl
  service := rfl
  length := List.length_set
  others _ hj := List.getElem?_set_ne (Ne.symm hj)

variable (hg : AlikeBut i h g)

include hg

theorem surroundings_eq : g.surroundings = h.surroundings := by
  unfold surroundings
  rw [hg.settings, hg.verifier, hg.clock, hg.now]

theorem desk_eq : g.desk = h.desk := by
  unfold desk
  rw [hg.service, hg.nextId]

theorem put (v : Service) (n j : Nat) (s : Session) :
    AlikeBut i ({ h with service := v, nextId := n }.setSession j s)
      ({ g with service := v, nextId := n }.setSession j s) where
  settings := hg.settings
  verifier := hg.verifier
  channels := hg.channels
  clock := hg.clock
  now := hg.now
  nextId := rfl
  service := rfl
  length := by simpa [Hub.setSession] using hg.length
  others k hk := by
    have hother := hg.others k hk
    by_cases hj : j = k
    · subst hj
      simp [Hub.setSession, List.getElem?_set, hg.length]
    · simp [Hub.setSession, hj, hother]

theorem add (v : Service) (n : Nat) (s : Session) :
    AlikeBut i { h with service := v, nextId := n, sessions := h.sessions ++ [s] }
      { g with service := v, nextId := n, sessions := g.sessions ++ [s] } where
  settings := hg.settings
  verifier := hg.verifier
  channels := hg.channels
  clock := hg.clock
  now := hg.now
  nextId := rfl
  service := rfl
  length := by simp [hg.length]
  others k hk := by
    show (g.sessions ++ [s])[k]? = (h.sessions ++ [s])[k]?
    rw [List.getElem?_append, List.getElem?_append, hg.length, hg.others k hk]

theorem moved {m : Move} (ha : h.move m = some h') (hi : m.session? ≠ some i) :
    ∃ g', g.move m = some g' ∧ AlikeBut i h' g' := by
  cases hm : m.session? with
  | some j =>
    have hj : j ≠ i := fun heq => hi (hm.trans (congrArg some heq))
    obtain ⟨s, d, s', hs, hstep, rfl⟩ := (move_eq_some hm).mp ha
    refine ⟨_, (move_eq_some hm).mpr ⟨s, d, s', ?_, ?_, rfl⟩, hg.put d.service d.nextId j s'⟩
    · exact (hg.others j hj).trans hs
    · rwa [hg.surroundings_eq, hg.desk_eq]
  | none =>
    cases m with
    | serve =>
      simp only [move] at ha ⊢
      rw [hg.service]
      split at ha
      · cases ha
      · rename_i hq
        cases ha
        rw [if_neg hq]
        exact ⟨_, rfl, { hg with service := rfl }⟩
    | sweep =>
      simp only [move] at ha ⊢
      rw [hg.service, hg.now]
      split at ha
      · rename_i hdue
        cases ha
        rw [if_pos hdue]
        exact ⟨_, rfl, { hg with now := rfl, service := rfl }⟩
      · cases ha
    | _ => cases hm

/-- What does not concern the session goes the same way in both hubs. -/
theorem act (ha : h.act a = some h') (hi : a.session? ≠ some i) :
    ∃ g', g.act a = some g' ∧ AlikeBut i h' g' := by
  have hsur := hg.surroundings_eq
  have hdesk := hg.desk_eq
  cases a with
  | move m => exact hg.moved ha hi
  | accept line =>
    cases ha
    refine ⟨_, rfl, ?_⟩
    simpa [Hub.accept, hsur, hg.service, hg.nextId] using
      hg.add h.service h.nextId ⟨line, .prompting h.surroundings.writeDeadline⟩
  | register u line =>
    cases ha
    refine ⟨_, rfl, ?_⟩
    have := hg.add (Admission.assign h.surroundings h.desk u).1.service
      (Admission.assign h.surroundings h.desk u).1.nextId
      ⟨line, (Admission.assign h.surroundings h.desk u).2⟩
    simpa [Hub.register, hsur, hdesk] using this
  | dispatch r =>
    cases ha
    refine ⟨_, rfl, ?_⟩
    simp only [Hub.dispatch, hg.service]
    exact { hg with service := rfl }
  | ask q =>
    simp only [Hub.act] at ha ⊢
    rw [hg.service]
    split at ha
    · cases ha
      rename_i hroom
      rw [if_pos hroom]
      exact ⟨_, rfl, { hg with service := rfl }⟩
    · cases ha
  | client j c =>
    have hj : j ≠ i := fun heq => hi (congrArg some heq)
    cases ha
    refine ⟨_, rfl, ?_⟩
    simp only [onClient, hg.others j hj]
    cases h.sessions[j]? with
    | none => exact hg
    | some s =>
      have := hg.put h.service h.nextId j { s with line.wire := c.on s.line.wire }
      simpa [Hub.setSession, hg.service, hg.nextId] using this
  | pass ms clock =>
    cases ha
    refine ⟨_, rfl, ?_⟩
    simp only [hg.now]
    exact { hg with clock := rfl, now := rfl }

end AlikeBut

/-- Where the actions of a session reach nothing but the session, the others get to the same without
them. -/
theorem Run.without (hr : Run start ms h)
    (hself : ∀ t ∈ ms, t.action.session? = some i → AlikeBut i t.before t.after) :
    ∃ ms' h', Run start ms' h' ∧
      ms'.map Moment.action = (ms.map Moment.action).filter (fun a => a.session? ≠ some i) ∧
      AlikeBut i h h' := by
  induction hr with
  | nil => exact ⟨[], start, .nil, rfl, .refl i start⟩
  | @snoc ms h h' a hr ha ih =>
    obtain ⟨ms', g, hrun, hacts, hg⟩ := ih fun t ht => hself t (List.mem_append_left _ ht)
    by_cases hi : a.session? = some i
    · have hlast := hself ⟨h, a, h'⟩ (List.mem_append_right _ (List.mem_singleton_self _)) hi
      refine ⟨ms', g, hrun, ?_, hlast.symm.trans hg⟩
      simp [hacts, hi]
    · obtain ⟨g', hga, hg'⟩ := hg.act ha hi
      refine ⟨ms' ++ [⟨g, a, g'⟩], g', hrun.snoc hga, ?_, hg'⟩
      simp [hacts, hi]

/-! ## One session -/

/-- How a session is opened. -/
inductive Opens (h : Hub) : Action → Option UserId → Session → Prop
  | accepted (line : Line) :
      Opens h (.accept line) none ⟨line, .prompting h.surroundings.writeDeadline⟩
  | registered (u : UserId) (line : Line) :
      Opens h (.register u line) (some u) ⟨line, .registering (h.next u) false⟩

/-- What an action means for session `i`. -/
inductive Turn (h : Hub) (i : Nat) (s : Session) : Action → Hub → Session → Prop
  | own (m : Move) (d : Desk) (s' : Session) (hm : m.session? = some i)
      (hmove : s.move h.surroundings h.desk m = some (d, s')) :
      Turn h i s (.move m) ({ h with service := d.service, nextId := d.nextId }.setSession i s') s'
  | client (a : ClientAct) :
      Turn h i s (.client i a) (h.setSession i { s with line.wire := a.on s.line.wire })
        { s with line.wire := a.on s.line.wire }
  | other (a : Action) (h' : Hub) (ha : h.act a = some h') (hi : a.session? ≠ some i) :
      Turn h i s a h' s

theorem opens_of_act {o : Option UserId} {s : Session} (ha : h.act a = some h')
    (ho : Moment.opened? ⟨h, a, h'⟩ = some (i, o)) (hs : h'.sessions[i]? = some s) :
    i = h.sessions.length ∧ h.Opens a o s := by
  cases a with
  | accept line =>
    cases ha
    cases ho
    cases List.getElem?_concat_length.symm.trans hs
    exact ⟨rfl, .accepted line⟩
  | register u line =>
    cases ha
    cases ho
    cases List.getElem?_concat_length.symm.trans hs
    exact ⟨rfl, .registered u line⟩
  | _ => cases ho

theorem opens_of_new {s : Session} (hv : h.service.running = true) (ha : h.act a = some h')
    (hnew : h.sessions.length ≤ i) (hi : h'.sessions[i]? = some s) : ∃ o, h.Opens a o s := by
  have hlen := (acts_of_act hv ha).length_sessions
  have hlt := (List.getElem?_eq_some_iff.mp hi).1
  cases ho : Moment.opened? ⟨h, a, h'⟩ with
  | none =>
    rw [ho, Option.toList_none, List.length_nil] at hlen
    omega
  | some p =>
    rw [ho, Option.toList_some, List.length_singleton] at hlen
    obtain ⟨j, o⟩ := p
    have hj : j = h.sessions.length := by
      cases a <;> cases ho <;> rfl
    have hij : i = j := by omega
    exact ⟨o, (opens_of_act ha (hij ▸ ho) hi).2⟩

theorem moved_of_act {m : Move} {s : Session} (hm : m.session? = some i)
    (hs : h.sessions[i]? = some s) (ha : h.act (.move m) = some h') :
    ∃ d s', s.move h.surroundings h.desk m = some (d, s') ∧ h'.sessions[i]? = some s' ∧
      h' = { h with service := d.service, nextId := d.nextId }.setSession i s' := by
  obtain ⟨t, d, s', ht, hmove, rfl⟩ := (move_eq_some hm).mp ha
  cases hs.symm.trans ht
  have hget := getElem?_setSession { h with service := d.service, nextId := d.nextId } s' hs i
  exact ⟨d, s', hmove, hget.trans (if_pos rfl), rfl⟩

theorem turn_of_act {s : Session} (hs : h.sessions[i]? = some s) (ha : h.act a = some h') :
    ∃ s', h'.sessions[i]? = some s' ∧ h.Turn i s a h' s' := by
  by_cases hi : a.session? = some i
  · cases a with
    | move m =>
      obtain ⟨d, s', hmove, hs', rfl⟩ := moved_of_act hi hs ha
      exact ⟨s', hs', .own m d s' hi hmove⟩
    | client j c =>
      cases hi
      cases ha
      have hget := getElem?_setSession h { s with line.wire := c.on s.line.wire } hs i
      simp only [onClient, hs]
      exact ⟨_, hget.trans (if_pos rfl), .client c⟩
    | _ => cases hi
  · have hlt := (List.getElem?_eq_some_iff.mp hs).1
    exact ⟨s, (getElem?_of_other ha hi hlt).trans hs, .other a h' ha hi⟩

theorem registering_of_allotted {s s' : Session} {c : Handle} (hs : h.sessions[i]? = some s)
    (hs' : h'.sessions[i]? = some s') (hc : Moment.allotted? ⟨h, a, h'⟩ = some (i, c)) :
    a.session? = some i ∧ s'.phase = .registering c false := by
  cases a with
  | move m =>
    cases m with
    | admission j =>
      simp only [Moment.allotted?, Option.bind_some] at hc
      split at hc
      · rename_i hphase
        cases hc
        rw [hs', Option.map_some] at hphase
        exact ⟨rfl, Option.some.inj hphase⟩
      · cases hc
    | _ => cases hc
  | register u line =>
    simp only [Moment.allotted?, Option.bind_some] at hc
    split at hc
    · cases hc
      have hlt := (List.getElem?_eq_some_iff.mp hs).1
      exact absurd hlt (Nat.lt_irrefl _)
    · cases hc
  | _ => cases hc

/-- What is so of a session when it is opened, and stays so whatever happens, is so of it at the
end. -/
theorem Run.along {P : List Moment → Hub → Session → Prop} {o : Option UserId} (hr : Run start ms h)
    (hs : start.Fresh) (ho : (i, o) ∈ openings ms)
    (hopen : ∀ {ms h h' a s}, Run start ms h → h.act a = some h' → h.sessions.length = i →
      h.Opens a o s → P (ms ++ [⟨h, a, h'⟩]) h' s)
    (hturn : ∀ {ms h h' a s s'}, Run start ms h → h.act a = some h' → (i, o) ∈ openings ms →
      h.sessions[i]? = some s → h'.sessions[i]? = some s' → h.Turn i s a h' s' → P ms h s →
      P (ms ++ [⟨h, a, h'⟩]) h' s') :
    ∃ s, h.sessions[i]? = some s ∧ P ms h s := by
  induction hr with
  | nil => cases ho
  | @snoc ms h h' a hr ha ih =>
    rw [openings_snoc] at ho
    rcases List.mem_append.mp ho with hold | hnew
    · obtain ⟨s, hi, hp⟩ := ih hold
      obtain ⟨s', hi', ht⟩ := turn_of_act hi ha
      exact ⟨s', hi', hturn hr ha hold hi hi' ht hp⟩
    · have hlt := (hr.snoc ha).lt_of_opening hs (openings_snoc ms _ ▸ ho)
      have hi' := List.getElem?_eq_getElem hlt
      obtain ⟨hlen, hopens⟩ := opens_of_act ha (Option.mem_toList.mp hnew) hi'
      exact ⟨_, hi', hopen hr ha hlen.symm hopens⟩

/-- What is so after a moment, and is carried on by every one that follows, is so at the end; it may
speak of all that has happened since. -/
theorem Run.onward {P : List Moment → Hub → Prop} {before after : List Moment} {t : Moment}
    (hr : Run start (before ++ t :: after) h) (hp : P [] t.after)
    (hstep : ∀ first u rest, after = first ++ u :: rest → Run start (before ++ t :: first) u.before →
      u.before.act u.action = some u.after → P first u.before → P (first ++ [u]) u.after) :
    P after h := by
  induction after using List.reverseRecOn generalizing h with
  | nil =>
    rw [hr.last_eq]
    exact hp
  | append_singleton after u ih =>
    rw [← List.cons_append, ← List.append_assoc] at hr
    obtain ⟨hbefore, ha⟩ := hr.split
    rw [hr.last_eq]
    refine hstep after u [] rfl hbefore ha (ih hbefore fun first v rest heq => ?_)
    exact hstep first v (rest ++ [u]) (by rw [heq]; simp)

theorem Run.since {P : Hub → Prop} {before after : List Moment} {t : Moment}
    (hr : Run start (before ++ t :: after) h) (hp : P t.after)
    (hstep : ∀ first u rest, after = first ++ u :: rest → Run start (before ++ t :: first) u.before →
      u.before.act u.action = some u.after → P u.before → P u.after) : P h :=
  hr.onward (P := fun _ => P) hp hstep

theorem Run.lasting {P : Hub → Prop} {before after : List Moment} {t : Moment}
    (hr : Run start (before ++ t :: after) h) (hp : P t.before)
    (hstep : ∀ {ms h h' a}, Run start ms h → h.act a = some h' → P h → P h') : P h := by
  obtain ⟨hbefore, ha⟩ := hr.split
  exact hr.since (hstep hbefore ha hp) fun _ _ _ _ hrun hact => hstep hrun hact

end

end Hub

end PushHub
