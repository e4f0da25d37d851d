import PushHub.Proofs.Registry.Course
import Mathlib.Data.List.Chain

/-! The published events as a log of membership. Whoever replays them knows at every time who is online
and under which number; each connection comes and goes in turns, and is told why it goes. -/
namespace PushHub.Registry

/-- Who is online, and under which number. -/
abbrev Roster := UserId → Option ConnectionId

def Event.comes? (u : UserId) (c : ConnectionId) : Event → Option Bool
  | .connected v d => if v = u ∧ d = c then some true else none
  | .disconnected v d _ => if v = u ∧ d = c then some false else none
  | .dropped .. => none

def turns (u : UserId) (c : ConnectionId) (events : List Event) : List Bool :=
  events.filterMap (Event.comes? u c)

theorem turns_append (u : UserId) (c : ConnectionId) (es es' : List Event) :
    turns u c (es ++ es') = turns u c es ++ turns u c es' :=
  List.filterMap_append

namespace Roster

def nobody : Roster := fun _ => none

/-- The roster after an event, for those who know it before. -/
def hear (r : Roster) : Event → Roster
  | .connected u c => fun v => if v = u then some c else r v
  | .disconnected u c _ => fun v => if v = u ∧ r v = some c then none else r v
  | .dropped .. => r

def replay (r : Roster) (events : List Event) : Roster := events.foldl hear r

theorem replay_append (r : Roster) (es es' : List Event) :
    r.replay (es ++ es') = (r.replay es).replay es' :=
  List.foldl_append

def holds (r : Roster) (u : UserId) (c : ConnectionId) : Bool := r u = some c

/-- Events report a change of the roster: to replay them is to make it, and they tell a coming or a
going of a connection just when it comes or goes. -/
structure Reports (r : Roster) (es : List Event) (r' : Roster) : Prop where
  replayed : r.replay es = r'
  turned : ∀ u c, turns u c es = if r'.holds u c = r.holds u c then [] else [r'.holds u c]

namespace Reports

variable {r : Roster}

theorem dropped (r : Roster) {es : List Event} (hd : ∀ e ∈ es, ∃ u c t, e = .dropped u c t) :
    r.Reports es r where
  replayed := by
    induction es with
    | nil => rfl
    | cons e es ih =>
      obtain ⟨u, c, t, rfl⟩ := hd e List.mem_cons_self
      exact ih fun e he => hd e (List.mem_cons_of_mem _ he)
  turned u c := by
    rw [if_pos rfl]
    refine List.filterMap_eq_nil_iff.mpr fun e he => ?_
    obtain ⟨v, d, t, rfl⟩ := hd e he
    rfl

theorem nothing (r : Roster) : r.Reports [] r :=
  .dropped r fun _ he => nomatch he

theorem came {u : UserId} (c : ConnectionId) (hu : r u = none) :
    r.Reports [.connected u c] fun v => if v = u then some c else r v where
  replayed := rfl
  turned v d := by
    unfold holds
    by_cases hv : v = u
    · subst hv
      by_cases hd : c = d <;> simp [turns, Event.comes?, hu, hd]
    · have hv' : u ≠ v := fun heq => hv heq.symm
      simp [turns, Event.comes?, hv, hv']

/-- The newer connection comes before the older one goes, so that its user is online throughout. -/
theorem replaced {u : UserId} {c d : ConnectionId} (hu : r u = some d) (hne : d ≠ c) :
    r.Reports [.connected u c, .disconnected u d .superseded]
      fun v => if v = u then some c else r v where
  replayed := by
    funext v
    have hne' : c ≠ d := Ne.symm hne
    by_cases hv : v = u <;> simp [replay, hear, hv, hne']
  turned v e := by
    unfold holds
    by_cases hv : v = u
    · subst hv
      by_cases hc : c = e
      · subst hc
        simp [turns, Event.comes?, hu, hne]
      · by_cases hd : d = e <;> simp [turns, Event.comes?, hu, hc, hd]
    · have hv' : u ≠ v := fun heq => hv heq.symm
      simp [turns, Event.comes?, hv, hv']

theorem replay_went (hs : List Handle) (reason : DisconnectReason)
    (hr : ∀ h ∈ hs, ∀ c, r h.user = some c → c = h.id) :
    r.replay (hs.map fun h => .disconnected h.user h.id reason) =
      fun v => if ∃ h ∈ hs, h.user = v then none else r v := by
  induction hs generalizing r with
  | nil =>
    funext v
    simp [replay]
  | cons h hs ih =>
    have hfirst : r.hear (.disconnected h.user h.id reason) =
        fun v => if h.user = v then none else r v := by
      funext v
      unfold hear
      by_cases hv : h.user = v
      · subst hv
        have hcur : r h.user = some h.id ∨ r h.user = none := by
          cases hc : r h.user with
          | none => exact .inr rfl
          | some c => exact .inl (congrArg some (hr h List.mem_cons_self c hc))
        rcases hcur with hcur | hcur <;> simp [hcur]
      · have hv' : v ≠ h.user := fun heq => hv heq.symm
        simp [hv, hv']
    rw [List.map_cons, replay, List.foldl_cons, hfirst]
    refine (ih fun g hg c hc => ?_).trans ?_
    · split at hc
      · cases hc
      · exact hr g (List.mem_cons_of_mem h hg) c hc
    · funext v
      by_cases hv : h.user = v <;> simp [hv]

theorem turns_went (u : UserId) (c : ConnectionId) (hs : List Handle) (reason : DisconnectReason)
    (hn : (hs.map Handle.user).Nodup) :
    turns u c (hs.map fun h => .disconnected h.user h.id reason) =
      if ∃ h ∈ hs, h.user = u ∧ h.id = c then [false] else [] := by
  induction hs with
  | nil => simp [turns]
  | cons h hs ih =>
    obtain ⟨hnot, hn⟩ := List.nodup_cons.mp hn
    have hrest := ih hn
    unfold turns at hrest ⊢
    rw [List.map_cons, List.filterMap_cons]
    by_cases hh : h.user = u ∧ h.id = c
    · have hnone : ¬∃ g ∈ hs, g.user = u ∧ g.id = c := by
        rintro ⟨g, hg, hu, -⟩
        exact hnot (List.mem_map.mpr ⟨g, hg, hu.trans hh.1.symm⟩)
      rw [if_neg hnone] at hrest
      simp [Event.comes?, hh, hrest]
    · simp [Event.comes?, hh, hrest]

theorem went {hs : List Handle} (reason : DisconnectReason)
    (hr : ∀ h ∈ hs, r h.user = some h.id) (hn : (hs.map Handle.user).Nodup) :
    r.Reports (hs.map fun h => .disconnected h.user h.id reason)
      fun v => if ∃ h ∈ hs, h.user = v then none else r v where
  replayed := by
    refine replay_went hs reason fun h hh c hc => ?_
    rw [hr h hh] at hc
    exact (Option.some.inj hc).symm
  turned u c := by
    rw [turns_went u c hs reason hn]
    unfold holds
    by_cases hex : ∃ h ∈ hs, h.user = u
    · obtain ⟨h, hh, rfl⟩ := hex
      have hiff : (∃ g ∈ hs, g.user = h.user ∧ g.id = c) ↔ h.id = c := by
        constructor
        · rintro ⟨g, hg, hu, hc⟩
          rw [← List.inj_on_of_nodup_map hn hg hh hu]
          exact hc
        · exact fun hc => ⟨h, hh, rfl, hc⟩
      have hthere : ∃ g ∈ hs, g.user = h.user := ⟨h, hh, rfl⟩
      simp only [hiff, if_pos hthere, hr h hh]
      by_cases hc : h.id = c <;> simp [hc]
    · have hnone : ¬∃ h ∈ hs, h.user = u ∧ h.id = c := by
        rintro ⟨h, hh, hu, -⟩
        exact hex ⟨h, hh, hu⟩
      simp only [if_neg hex, if_neg hnone, if_true]

end Reports

end Roster

namespace Membership

def roster (m : Membership) : Roster := fun u => (m.find? u).map Handle.id

theorem roster_eq_some {m : Membership} (hk : m.Keyed) {u : UserId} {c : ConnectionId} :
    m.roster u = some c ↔ ∃ h ∈ m.entries, h.user = u ∧ h.id = c := by
  unfold roster
  rw [Option.map_eq_some_iff]
  constructor
  · rintro ⟨h, hf, hc⟩
    exact ⟨h, mem_of_find? hf, user_of_find? hf, hc⟩
  · rintro ⟨h, hh, rfl, hc⟩
    exact ⟨h, hk.find?_eq_some.mpr hh, hc⟩

theorem roster_of_mem {m : Membership} (hk : m.Keyed) {h : Handle} (hh : h ∈ m.entries) :
    m.roster h.user = some h.id :=
  (roster_eq_some hk).mpr ⟨h, hh, rfl, rfl⟩

theorem roster_inOrder {m : Membership} {entries : List Handle} (hk : m.Keyed)
    (hp : entries.Perm m.entries) : (m.inOrder entries).roster = m.roster := by
  funext u
  unfold roster
  rw [find?_inOrder hk hp]

theorem roster_insert (m : Membership) (h : Handle) :
    (m.insert h).roster = fun v => if v = h.user then some h.id else m.roster v := by
  funext v
  unfold roster
  rw [find?_insert]
  split <;> rfl

theorem roster_erase (m : Membership) (u : UserId) :
    (m.erase u).roster = fun v => if v = u then none else m.roster v := by
  funext v
  unfold roster
  rw [find?_erase]
  split <;> rfl

theorem roster_dispatch (m : Membership) (r : DispatchRequest) :
    (m.dispatch r).state.roster = m.roster := by
  funext u
  unfold roster
  rw [find?_dispatch]

def gone (m : Membership) : List Handle := m.entries.filter m.isClosed

theorem mem_gone {m : Membership} {h : Handle} :
    h ∈ m.gone ↔ h ∈ m.entries ∧ m.isClosed h = true :=
  List.mem_filter

theorem events_sweep (m : Membership) :
    m.sweep.events = m.gone.map fun h => .disconnected h.user h.id .closed := by
  simp [sweep, gone, List.partition_eq_filter_filter]

theorem roster_sweep {m : Membership} (hk : m.Keyed) :
    m.sweep.state.roster = fun v => if ∃ h ∈ m.gone, h.user = v then none else m.roster v := by
  funext v
  unfold roster
  rw [find?_sweep hk]
  split
  · rename_i hgone
    obtain ⟨h, hh, rfl⟩ := hgone
    obtain ⟨hmem, hc⟩ := mem_gone.mp hh
    rw [hk.find?_eq_some.mpr hmem]
    simp [hc]
  · rename_i hgone
    cases hf : m.find? v with
    | none => rfl
    | some h =>
      have hc : m.isClosed h ≠ true := fun hc =>
        hgone ⟨h, mem_gone.mpr ⟨mem_of_find? hf, hc⟩, user_of_find? hf⟩
      simp [hc]

theorem roster_shutdown {m : Membership} (hk : m.Keyed) :
    m.shutdown.state.roster = fun v => if ∃ h ∈ m.entries, h.user = v then none else m.roster v := by
  funext v
  show none = _
  split
  · rfl
  · rename_i hnone
    cases hr : m.roster v with
    | none => rfl
    | some c =>
      obtain ⟨h, hh, hu, -⟩ := (roster_eq_some hk).mp hr
      exact absurd ⟨h, hh, hu⟩ hnone

theorem events_offerAll_dropped (m : Membership) (r : DispatchRequest) (f : Frame)
    (hs : List Handle) :
    ∀ e ∈ (m.offerAll r f hs).events, ∃ h ∈ hs, e = .dropped h.user h.id r.messageType := by
  induction hs generalizing m with
  | nil => simp [offerAll]
  | cons h hs ih =>
    intro e he
    rcases List.mem_append.mp he with he | he
    · rw [offer_eq] at he
      dsimp only at he
      split at he
      · exact ⟨h, List.mem_cons_self, List.mem_singleton.mp he⟩
      · cases he
    · obtain ⟨g, hg, rfl⟩ := ih _ e he
      exact ⟨g, List.mem_cons_of_mem h hg, rfl⟩

namespace Handles

variable {m : Membership} {cmd : Command} {o : Outcome}

theorem reports (ho : m.Handles cmd o) (hk : m.Keyed) : m.roster.Reports o.events o.state.roster := by
  cases ho with
  | late h hs => exact .nothing _
  | again h current hs hf hid => exact .nothing _
  | superseded h current hs hf hid =>
    have hcur : m.roster h.user = some current.id := by
      unfold roster
      rw [hf, Option.map_some]
    have hr := Roster.Reports.replaced hcur hid
    rw [← roster_insert] at hr
    exact hr
  | full h hs hf hm => exact .nothing _
  | admitted h hs hf hm =>
    have hcur : m.roster h.user = none := by
      unfold roster
      rw [hf, Option.map_none]
    have hr := Roster.Reports.came h.id hcur
    rw [← roster_insert] at hr
    exact hr
  | removed h current hf hid =>
    have hu := user_of_find? hf
    -- One entry goes, which is a case of many that go one after the other.
    have hr : m.roster.Reports ([current].map _) _ := Roster.Reports.went .closed
      (fun g hg => by
        rw [List.mem_singleton.mp hg]
        exact roster_of_mem hk (mem_of_find? hf))
      (List.nodup_singleton _)
    have hgone : ((m.close h).erase h.user).roster =
        fun v => if ∃ g ∈ [current], g.user = v then none else m.roster v := by
      have hiff (v : UserId) : (∃ g ∈ [current], g.user = v) ↔ v = h.user := by
        simp [hu, eq_comm]
      rw [roster_erase]
      simp only [hiff]
      rfl
    rw [← hgone, List.map_singleton, hu, hid] at hr
    exact hr
  | stale h hf => exact .nothing _
  | dispatched r =>
    rw [roster_dispatch]
    refine .dropped _ fun e he => ?_
    obtain ⟨h, -, rfl⟩ := events_offerAll_dropped _ r _ _ e he
    exact ⟨_, _, _, rfl⟩
  | counted => exact .nothing _
  | looked u => exact .nothing _
  | swept =>
    rw [events_sweep, roster_sweep hk]
    exact .went .closed (fun h hh => roster_of_mem hk (mem_gone.mp hh).1) (keyed_filter hk _)
  | ended =>
    rw [roster_shutdown hk]
    exact .went .shutdown (fun h hh => roster_of_mem hk hh) hk

theorem reason (ho : m.Handles cmd o) (hk : m.Keyed) {u : UserId} {c : ConnectionId}
    {r : DisconnectReason} (he : .disconnected u c r ∈ o.events) :
    m.roster u = some c ∧ o.state.roster u ≠ some c ∧
      match r with
      | .superseded => ∃ h, cmd = .register h ∧ .connected u h.id ∈ o.events ∧ h.id ≠ c
      | .shutdown => cmd = .shutdown
      | .closed => cmd = .sweep ∨ ∃ h, cmd = .unregister h := by
  cases ho with
  | late h hs => cases he
  | again h current hs hf hid => cases he
  | superseded h current hs hf hid =>
    simp only [List.mem_cons, reduceCtorEq, Event.disconnected.injEq, List.not_mem_nil, or_false,
      false_or] at he
    obtain ⟨rfl, rfl, rfl⟩ := he
    have hne : h.id ≠ current.id := Ne.symm hid
    refine ⟨?_, ?_, h, rfl, List.mem_cons_self, hne⟩
    · unfold roster
      rw [hf, Option.map_some]
    · show (m.insert h).roster h.user ≠ _
      simp [roster_insert, hne]
  | full h hs hf hm => cases he
  | admitted h hs hf hm => simp at he
  | removed h current hf hid =>
    simp only [List.mem_singleton, Event.disconnected.injEq] at he
    obtain ⟨rfl, rfl, rfl⟩ := he
    refine ⟨?_, ?_, .inr ⟨h, rfl⟩⟩
    · unfold roster
      rw [hf, Option.map_some, hid]
    · simp [roster_erase]
  | stale h hf => cases he
  | dispatched q =>
    obtain ⟨h, -, heq⟩ := events_offerAll_dropped _ q _ _ _ he
    cases heq
  | counted => cases he
  | looked v => cases he
  | swept =>
    rw [events_sweep] at he
    obtain ⟨h, hh, heq⟩ := List.mem_map.mp he
    cases heq
    refine ⟨roster_of_mem hk (mem_gone.mp hh).1, ?_, .inl rfl⟩
    rw [roster_sweep hk]
    simp only [if_pos (⟨h, hh, rfl⟩ : ∃ g ∈ m.gone, g.user = h.user)]
    exact nofun
  | ended =>
    obtain ⟨h, hh, heq⟩ := List.mem_map.mp he
    cases heq
    exact ⟨roster_of_mem hk hh, nofun, rfl⟩

end Handles

end Membership

/-! ## Whole courses -/

/-- What is said of a connection that is told to be gone. -/
structure Moment.Parts (t : Moment) (u : UserId) (c : ConnectionId) (r : DisconnectReason) :
    Prop where
  left : t.before.roster u = some c ∧ t.after.roster u ≠ some c
  superseded : r = .superseded ↔
    ∃ h d, t.action = .command (.register h) ∧ .connected u d ∈ t.events ∧ d ≠ c
  shutdown : r = .shutdown ↔ t.action = .command .shutdown
  closed : r = .closed ↔ t.action = .command .sweep ∨ ∃ h, t.action = .command (.unregister h)

theorem Moment.parts {t : Moment} (hk : t.before.Keyed) {u : UserId} {c : ConnectionId}
    {r : DisconnectReason} (he : .disconnected u c r ∈ t.events) : t.Parts u c r := by
  obtain ⟨m, a⟩ := t
  cases a with
  | outside n a => cases he
  | command cmd =>
    obtain ⟨hin, hout, hr⟩ := (m.handles_handle cmd).reason hk he
    refine ⟨⟨hin, hout⟩, ?_, ?_, ?_⟩
    · constructor
      · rintro rfl
        obtain ⟨h, rfl, hcon, hne⟩ := hr
        exact ⟨h, h.id, rfl, hcon, hne⟩
      · rintro ⟨h, d, hcmd, -, -⟩
        cases hcmd
        cases r with
        | superseded => rfl
        | shutdown => cases hr
        | closed => simp at hr
    · constructor
      · rintro rfl
        exact congrArg Action.command hr
      · intro hcmd
        cases hcmd
        cases r with
        | superseded => simp at hr
        | shutdown => rfl
        | closed => simp at hr
    · constructor
      · rintro rfl
        rcases hr with rfl | ⟨h, rfl⟩
        · exact .inl rfl
        · exact .inr ⟨h, rfl⟩
      · intro hcmd
        cases r with
        | superseded =>
          obtain ⟨h, rfl, -⟩ := hr
          simp at hcmd
        | shutdown =>
          cases hr
          simp at hcmd
        | closed => rfl

theorem Moment.reports {t : Moment} (hk : t.before.Keyed) :
    t.before.roster.Reports t.events t.after.roster := by
  obtain ⟨m, a⟩ := t
  cases a with
  | outside n a => exact .nothing _
  | command cmd => exact (m.handles_handle cmd).reports hk

/-- A registry and the log it has written. -/
structure Logged (ts : List Moment) (m : Membership) : Prop where
  /-- The log tells the map of users to connections as it is now. -/
  current : ∀ u c, Roster.nobody.replay (published ts) u = some c ↔
    ∃ h ∈ m.entries, h.user = u ∧ h.id = c
  single : m.Keyed
  always : ∀ before t after, ts = before ++ t :: after → ∀ u c,
    Roster.nobody.replay (published (before ++ [t])) u = some c ↔
      ∃ h ∈ t.after.entries, h.user = u ∧ h.id = c
  /-- A connection comes first, and then goes and comes in turns. -/
  alternating : ∀ u c, (false :: turns u c (published ts)).IsChain (· ≠ ·)
  reasons : ∀ t ∈ ts, ∀ u c r, .disconnected u c r ∈ t.events → t.Parts u c r

namespace Course

variable {start m : Membership} {ts : List Moment}

theorem replay_published (hc : Course start ts m) (hk : start.Keyed) :
    start.roster.replay (published ts) = m.roster := by
  induction hc with
  | nil => rfl
  | @snoc ts m hc entries hp a ih =>
    have hk' := hc.keyed hk
    have hstep := Moment.reports (t := ⟨m.inOrder entries, a⟩) (Membership.keyed_inOrder hk' hp)
    rw [published_snoc, Roster.replay_append, ih, ← Membership.roster_inOrder hk' hp]
    exact hstep.replayed

theorem turns_published (hc : Course start ts m) (hk : start.Keyed) (u : UserId)
    (c : ConnectionId) :
    (start.roster.holds u c :: turns u c (published ts)).IsChain (· ≠ ·) ∧
      (start.roster.holds u c :: turns u c (published ts)).getLast? = some (m.roster.holds u c) := by
  induction hc with
  | nil => exact ⟨.singleton _, rfl⟩
  | @snoc ts m hc entries hp a ih =>
    have hk' := hc.keyed hk
    have hstep := Moment.reports (t := ⟨m.inOrder entries, a⟩) (Membership.keyed_inOrder hk' hp)
    have hturn := hstep.turned u c
    rw [Membership.roster_inOrder hk' hp] at hturn
    rw [published_snoc, turns_append, hturn, ← List.cons_append]
    obtain ⟨hchain, hlast⟩ := ih
    split
    · rename_i hsame
      rw [List.append_nil, hsame]
      exact ⟨hchain, hlast⟩
    · rename_i hother
      refine ⟨List.isChain_append.mpr ⟨hchain, .singleton _, ?_⟩, ?_⟩
      · intro x hx y hy
        rw [hlast] at hx
        cases hx
        cases hy
        exact Ne.symm hother
      · exact List.getLast?_concat

theorem logged {max : Nat} {room : Mailroom} (hc : Course (.vacant max room) ts m) :
    Logged ts m where
  current u c := by
    have hk : (Membership.vacant max room).Keyed := List.nodup_nil
    rw [← Membership.roster_eq_some (hc.keyed hk), ← hc.replay_published hk]
    rfl
  single := hc.keyed List.nodup_nil
  always := by
    rintro before t after rfl u c
    have hk : (Membership.vacant max room).Keyed := List.nodup_nil
    have hb := hc.keyed_before hk
    obtain ⟨⟨m₁, entries, hc₁, hp, ht⟩, -⟩ := hc.split
    have hk₁ := hc₁.keyed hk
    have hka : t.after.Keyed := t.after_eq ▸ Membership.keyed_act hb t.action
    rw [← Membership.roster_eq_some hka, published_snoc, Roster.replay_append]
    have hstart : Roster.nobody.replay (published before) = t.before.roster := by
      rw [ht, Membership.roster_inOrder hk₁ hp, ← hc₁.replay_published hk]
      rfl
    rw [hstart, (Moment.reports hb).replayed]
  alternating u c := (hc.turns_published List.nodup_nil u c).1
  reasons t ht u c r he := by
    obtain ⟨before, after, rfl⟩ := List.append_of_mem ht
    exact Moment.parts (hc.keyed_before List.nodup_nil) he

end Course

/-- A user comes back from elsewhere, another one is gone unnoticed, and the registry is shut down. -/
def busy : List Action :=
  let older : Handle := ⟨⟨1⟩, ⟨11, by decide⟩, 0⟩
  let newer : Handle := ⟨⟨2⟩, ⟨11, by decide⟩, 1⟩
  let other : Handle := ⟨⟨3⟩, ⟨12, by decide⟩, 2⟩
  [.command (.register older), .command (.register older), .command (.register newer),
    .command (.unregister older), .command (.register other), .outside 2 .close, .command .sweep,
    .command (.register other), .command (.unregister other), .command .shutdown,
    .command (.register older), .command .shutdown]

def threeOpen : Mailroom := List.replicate 3 ⟨.create 2, .empty none⟩

theorem logged_busy :
    Logged (trail (.vacant 4 threeOpen) busy) ((Membership.vacant 4 threeOpen).run busy) ∧
    published (trail (.vacant 4 threeOpen) busy) =
      [.connected ⟨11, by decide⟩ ⟨1⟩, .connected ⟨11, by decide⟩ ⟨2⟩,
        .disconnected ⟨11, by decide⟩ ⟨1⟩ .superseded, .connected ⟨12, by decide⟩ ⟨3⟩,
        .disconnected ⟨12, by decide⟩ ⟨3⟩ .closed, .connected ⟨12, by decide⟩ ⟨3⟩,
        .disconnected ⟨12, by decide⟩ ⟨3⟩ .closed, .disconnected ⟨11, by decide⟩ ⟨2⟩ .shutdown] :=
  ⟨(Course.ofTrail _ busy).logged, by decide⟩

end PushHub.Registry
