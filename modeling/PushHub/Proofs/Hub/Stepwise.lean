import PushHub.Proofs.Hub.Grain

/-! What a hub keeps to at the finer grain. While a loop is in the midst of a request, what it goes by
and what is published for its connection differ by that request, and what it has still to do about the
request makes up for the difference. -/
namespace PushHub

open Registry (Handle Service Queued Command Membership Mailroom Endpoint)

/-! ## Half a request -/

/-- What a reply says about the channels that are followed is so. -/
def ServerFrame.Tells (followed : Finset ChannelName) : ServerFrame → Prop
  | .subscribed names => ∀ c ∈ names, c ∈ followed
  | .unsubscribed names => ∀ c ∈ names, c ∉ followed
  | _ => True

/-- What is still to be done about a request, of which `p` is published and `l` is what the loop goes
by already. -/
inductive Due (limit : Nat) (p l : SubscriptionSet) : List Task → Prop
  | done (hp : p.names = l.names) : Due limit p l []
  | telling (r : ClientFrame) (f : ServerFrame) (hp : p.names = l.names) (hf : f.Tells p.names) :
      Due limit p l [(r, .reply f)]
  | changing (r : ClientFrame) (f : ServerFrame) (hl : l.names = r.after limit p.names)
      (hf : f.Tells l.names) : Due limit p l [(r, .publish l), (r, .reply f)]
  | refusing (r : ClientFrame) (message : String) (f : ServerFrame)
      (hl : l.names = r.after limit p.names) (hf : f.Tells l.names) :
      Due limit p l [(r, .reply (.error message)), (r, .publish l), (r, .reply f)]

namespace SubscriptionSet

theorem mem_of_mem_foldl_join {limit : Nat} {s : Finset ChannelName} {names : List ChannelName}
    {c : ChannelName} (hc : c ∈ names.foldl (join limit) s) : c ∈ s ∨ c ∈ names := by
  induction names generalizing s with
  | nil => exact .inl hc
  | cons d rest ih =>
    rcases ih hc with hjoin | hrest
    · unfold join at hjoin
      split at hjoin
      · rcases Finset.mem_insert.mp hjoin with rfl | hs
        · exact .inr List.mem_cons_self
        · exact .inl hs
      · exact .inl hjoin
    · exact .inr (List.mem_cons_of_mem d hrest)

end SubscriptionSet

namespace ClientFrame

variable {limit : Nat} {s : Finset ChannelName} {c : ChannelName} {r : ClientFrame}

theorem mem_after (hc : c ∈ s) (hr : ∀ names, c ∈ names → r ≠ .unsubscribe names) :
    c ∈ r.after limit s := by
  cases r with
  | subscribe names => exact SubscriptionSet.subset_foldl_join limit s names hc
  | unsubscribe names =>
    have hnot : c ∉ names := fun hmem => hr names hmem rfl
    simpa [after, hnot] using hc
  | ping => exact hc
  | auth token => exact hc

theorem not_mem_after (hc : c ∉ s) (hr : ∀ names, c ∈ names → r ≠ .subscribe names) :
    c ∉ r.after limit s := by
  cases r with
  | subscribe names =>
    intro hmem
    rcases SubscriptionSet.mem_of_mem_foldl_join hmem with hs | hnames
    · exact hc hs
    · exact hr names hnames rfl
  | unsubscribe names => exact fun hmem => hc (Finset.mem_sdiff.mp hmem).1
  | ping => exact hc
  | auth token => exact hc

end ClientFrame

namespace Due

variable {limit : Nat} {p l : SubscriptionSet} {r : ClientFrame} {left : List Task}

theorem of_reacts {stamp : Int64} {s : SubscriptionSet} {reactions : List Reaction}
    (hp : p.names = s.names) (hl : l.names = r.after limit s.names)
    (hr : Inbound.Reacts limit stamp s l r reactions) :
    Due limit p l (reactions.map (Prod.mk r)) := by
  rw [← hp] at hl
  cases hr with
  | subscribed names hall => exact .changing _ _ hl hall
  | limited names hnot =>
    refine .refusing _ _ _ hl fun c hc => ?_
    simpa using (List.mem_filter.mp hc).2
  | unsubscribed names =>
    refine .changing _ _ hl fun c hc hmem => ?_
    rw [hl] at hmem
    exact (Finset.mem_sdiff.mp hmem).2 (List.mem_toFinset.mpr hc)
  | ping hs =>
    subst hs
    exact .telling _ _ hp trivial
  | auth token hs =>
    subst hs
    exact .done hp

theorem step {x : Reaction} (hd : Due limit p l ((r, x) :: left)) :
    Due limit (x.published p) l left := by
  cases hd with
  | telling r f hp hf => exact .done hp
  | changing r f hl hf => exact .telling r f rfl hf
  | refusing r message f hl hf => exact .changing r f hl hf

theorem tells {f : ServerFrame} (hd : Due limit p l ((r, .reply f) :: left)) : f.Tells p.names := by
  cases hd with
  | telling r f hp hf => exact hf
  | refusing => trivial

theorem publishes {s : SubscriptionSet} (hd : Due limit p l ((r, .publish s) :: left)) :
    s.names = r.after limit p.names := by
  cases hd with
  | changing r f hl hf => exact hl

end Due

theorem Registry.Mailroom.published_deliver (room : Mailroom) (n k : Nat) (f : Frame) :
    ((room.deliver n f).1.get k).published = (room.get k).published := by
  rw [Mailroom.get_deliver]
  split <;> rfl

theorem Registry.Membership.deliver_frame (m : Membership) (c : Handle) (messageType : String)
    (f : Frame) : (m.deliver c messageType f).state.entries = m.entries ∧
      (m.deliver c messageType f).state.room = (m.room.deliver c.endpoint f).1 := by
  unfold deliver
  dsimp only
  split <;> exact ⟨rfl, rfl⟩

namespace Ledger

variable {conns : List (Nat × Handle)} {h : Hub}

theorem withService (hl : Ledger conns h) {v : Service} (hrunning : v.running = h.service.running)
    (hcapacity : v.capacity = h.service.capacity)
    (hlength : v.members.room.length = h.service.members.room.length)
    (hentries : v.members.entries = h.service.members.entries)
    (hqueue : ∀ q ∈ v.queue, q ∈ h.service.queue) (hreplies : v.replies = h.service.replies) :
    Ledger conns (h.withService v) where
  running := hrunning.trans hl.running
  roomy := hcapacity ▸ hl.roomy
  next := hl.next
  length := hlength.trans hl.length
  numbered := hl.numbered
  single := hl.single
  fits := hl.fits
  held := hl.held
  keyed := by
    show (v.members.entries.map Handle.user).Nodup
    rw [hentries]
    exact hl.keyed
  listed c hc := hl.listed c (hentries ▸ hc)
  queued q hq := hl.queued q (hqueue q hq)
  replied r hr := hl.replied r (hreplies ▸ hr)

theorem resumed (hl : Ledger conns h) {i : Nat} {s s' : Session} (hs : h.sessions[i]? = some s)
    (hf : ∀ o, s.phase.Fits o → s'.phase.Fits o) : Ledger conns (h.setSession i s') :=
  { hl with
    fits := by
      intro j t ht
      rw [Hub.getElem?_setSession h _ hs] at ht
      split at ht
      · rename_i heq
        cases ht
        rw [heq]
        exact hf _ (hl.fits i s hs)
      · exact hl.fits j t ht
    held := by
      intro j c hc
      have := hl.held j c hc
      simpa [Hub.setSession] using this }

end Ledger

namespace Grain

/-! ## Everything that can happen -/

/-- What a deed comes to. -/
inductive Does (g : Grain) : Deed → Grain → Prop
  | whole (a : Hub.Action) (h : Hub) (hsplits : g.splits a = false) (ha : g.hub.act a = some h) :
      Does g (.whole a) ⟨h, g.tasks, g.round⟩
  | heard (i : Nat) (s s' : Session) (v : Service) (f : Frame) (htasks : g.tasks i = [])
      (hi : g.hub.sessions[i]? = some s)
      (hf : s.hears? g.hub.service.members.room (.inbound i) = some f)
      (hmove : s.move g.hub.surroundings g.hub.desk (.inbound i) = some (⟨v, g.hub.nextId⟩, s')) :
      Does g (.hear i) ⟨g.hub.setSession i s', Function.update g.tasks i
        (s.tasks g.hub.surroundings g.hub.service.members.room (.inbound i) f), g.round⟩
  | carried (i : Nat) (s : Session) (c : Handle) (inbound : Inbound) (outbound : Outbound)
      (r : ClientFrame) (x : Reaction) (left : List Task) (hi : g.hub.sessions[i]? = some s)
      (hp : s.phase = .admitted c inbound outbound) (htasks : g.tasks i = (r, x) :: left) :
      Does g (.carry i) ⟨g.hub.withService (g.hub.service.withRoom fun room =>
        Inbound.perform c.endpoint room x), Function.update g.tasks i left, g.round⟩
  | commenced (r : DispatchRequest) (ticket : Option Nat) (left : List Queued)
      (hround : g.round = none) (hq : g.hub.service.queue = ⟨.dispatch r, ticket⟩ :: left) :
      Does g .commence ⟨g.hub.withService
        { g.hub.service with members := g.hub.service.members.counted, queue := left },
        g.tasks, Round.onward r (g.hub.service.members.recipients r.target)⟩
  | chosen (r : DispatchRequest) (c : Handle) (ahead : List Handle)
      (hround : g.round = some ⟨r, c, false, ahead⟩)
      (hadmits : g.hub.service.members.admits c r.channels = true) :
      Does g .look ⟨g.hub, g.tasks, some ⟨r, c, true, ahead⟩⟩
  | filtered (r : DispatchRequest) (c : Handle) (ahead : List Handle)
      (hround : g.round = some ⟨r, c, false, ahead⟩)
      (hadmits : g.hub.service.members.admits c r.channels = false) :
      Does g .look ⟨g.hub.withService { g.hub.service with members := { g.hub.service.members with
        counters.filtered := g.hub.service.members.counters.filtered + 1 } },
        g.tasks, Round.onward r ahead⟩
  | given (r : DispatchRequest) (c : Handle) (ahead : List Handle)
      (hround : g.round = some ⟨r, c, true, ahead⟩) :
      Does g .put ⟨g.hub.withService { g.hub.service with
        members :=
          (g.hub.service.members.deliver c r.messageType (Membership.frameOf r)).state
        window := g.hub.service.window.push
          (g.hub.service.members.deliver c r.messageType (Membership.frameOf r)).events },
        g.tasks, Round.onward r ahead⟩

theorem desk_of_inbound {e : Surroundings} {d d' : Desk} {s s' : Session} {i : Nat}
    (hs : s.move e d (.inbound i) = some (d', s')) : d' = ⟨d'.service, d.nextId⟩ := by
  obtain ⟨line, phase⟩ := s
  cases phase with
  | admitted c inbound outbound =>
    obtain ⟨⟨line', v, inbound'⟩, -, heq⟩ := Option.map_eq_some_iff.mp hs
    cases heq
    rfl
  | _ => cases hs

theorem does_of_act {g g' : Grain} {d : Deed} (hg : g.act d = some g') : g.Does d g' := by
  obtain ⟨hub, tasks, round⟩ := g
  cases d with
  | whole a =>
    simp only [act] at hg
    split at hg
    · cases hg
    · rename_i hsplits
      obtain ⟨h, ha, rfl⟩ := Option.map_eq_some_iff.mp hg
      exact .whole a h (Bool.eq_false_iff.mpr hsplits) ha
  | hear i =>
    simp only [act] at hg
    split at hg
    · rename_i s hi htasks
      obtain ⟨f, hf, hmap⟩ := Option.bind_eq_some_iff.mp hg
      obtain ⟨h, ha, rfl⟩ := Option.map_eq_some_iff.mp hmap
      have hm : (Move.inbound i).session? = some i := rfl
      obtain ⟨s₀, ⟨v, n⟩, s', hi₀, hmove, rfl⟩ := (Hub.move_eq_some hm).mp ha
      cases hi.symm.trans hi₀
      cases desk_of_inbound hmove
      exact .heard i s s' v f htasks hi hf hmove
    · cases hg
  | carry i =>
    simp only [act] at hg
    split at hg
    · rename_i c inbound outbound r x left hphase htasks
      obtain ⟨s, hi, hp⟩ := Option.map_eq_some_iff.mp hphase
      cases hg
      exact .carried i s c inbound outbound r x left hi hp htasks
    · cases hg
  | commence =>
    simp only [act] at hg
    split at hg
    · rename_i r ticket left hq
      cases hg
      exact .commenced r ticket left rfl hq
    · cases hg
  | look =>
    simp only [act] at hg
    split at hg
    · rename_i r c ahead
      split at hg
      · rename_i hadmits
        cases hg
        exact .chosen r c ahead rfl hadmits
      · rename_i hadmits
        cases hg
        exact .filtered r c ahead rfl (Bool.eq_false_iff.mpr hadmits)
    · cases hg
  | put =>
    simp only [act] at hg
    split at hg
    · rename_i r c ahead
      cases hg
      exact .given r c ahead rfl
    · cases hg

/-! ## What every step keeps to -/

/-- How session `i` stands between what it goes by, what is published and what it has still to do. -/
structure Tidy (conns : List (Nat × Handle)) (h : Hub) (tasks : List Task) (i : Nat) (s : Session) :
    Prop where
  busy : tasks ≠ [] → s.phase.kept?.isSome = true
  due : ∀ c followed, s.phase.kept? = some (c, followed) →
    followed.Keeps h.settings.maxSubscriptions ∧
      Due h.settings.maxSubscriptions (h.published c.endpoint) followed tasks
  silent : s.phase.isAdmitted = false → ∀ c, (i, c) ∈ conns →
    (h.published c.endpoint).names = ∅

structure Orderly (conns : List (Nat × Handle)) (g : Grain) : Prop where
  ledger : Ledger conns g.hub
  tidy : ∀ (i : Nat) (s : Session), g.hub.sessions[i]? = some s →
    Tidy conns g.hub (g.tasks i) i s
  absent : ∀ i, g.hub.sessions.length ≤ i → g.tasks i = []

section

variable {conns : List (Nat × Handle)} {g g' : Grain} {h' : Hub} {a : Hub.Action} {i : Nat}
  {s s' : Session} {c : Handle}

theorem Tidy.idle {h : Hub} {tasks : List Task} (ht : Tidy conns h tasks i s)
    (hs : s.phase.kept? = none) : tasks = [] := by
  by_contra hbusy
  have := ht.busy hbusy
  rw [hs] at this
  cases this

theorem unheard_of_splits {m : Move} (hsplits : g.splits (.move m) = false)
    (hm : m.session? = some i) (hi : g.hub.sessions[i]? = some s) :
    s.hears? g.hub.service.members.room m = none ∧ ((∃ j, m = .inbound j) → g.tasks i = []) := by
  cases m with
  | inbound j =>
    cases hm
    obtain ⟨htasks, hhears⟩ := Bool.or_eq_false_iff.mp hsplits
    refine ⟨?_, fun _ => ?_⟩
    · rw [hi] at hhears
      exact Option.isSome_eq_false_iff.mp hhears |> Option.isNone_iff_eq_none.mp
    · exact List.isEmpty_iff.mp (by simpa using htasks)
  | serve => cases hm
  | sweep => cases hm
  | _ => exact ⟨rfl, nofun⟩

/-- What is taken as a whole publishes nothing for those who have a connection. -/
theorem published_of_whole (hl : Ledger conns g.hub) (hsplits : g.splits a = false)
    (ha : g.hub.act a = some h') (hc : (i, c) ∈ conns) :
    h'.published c.endpoint = g.hub.published c.endpoint := by
  have hi := List.getElem?_eq_getElem (hl.held i c hc)
  obtain ⟨s', -, hturn⟩ := Hub.turn_of_act hi ha
  cases hturn with
  | own m d s' hm hmove =>
    obtain ⟨hnone, -⟩ := unheard_of_splits hsplits hm hi
    cases Session.minds_of_move hl.running hm hmove with
    | heard c deadline followed outbound f hp hf => cases hnone.symm.trans hf
    | greeted d deadline deadline' outbound hp hf hv =>
      exact congrArg (fun v : Service => (v.members.room.get c.endpoint).published) hv
    | other hf hpublished => exact hpublished c.endpoint (hl.lt_length hc)
  | client act => rfl
  | other a h' ha hne => exact (Hub.acts_of_act hl.running ha).published_of_other hl hc hne

theorem published_perform (h : Hub) {n : Nat} (hn : n < h.service.members.room.length)
    (x : Reaction) (k : Nat) :
    (h.withService (h.service.withRoom fun room => Inbound.perform n room x)).published k =
      if k = n then x.published (h.published k) else h.published k := by
  by_cases hk : k = n
  · subst hk
    rw [if_pos rfl]
    cases x with
    | publish s => exact congrArg Endpoint.published (Mailroom.get_update_self _ hn)
    | reply f =>
      exact Mailroom.published_deliver h.service.members.room k k f.frame
  · rw [if_neg hk]
    exact congrArg Endpoint.published (Inbound.get_perform_ne [x] h.service.members.room hk)

namespace Orderly

theorem silent_whole (ho : Orderly conns g) (hsplits : g.splits a = false)
    (ha : g.hub.act a = some h')
    (hold : ∀ c, (i, c) ∈ conns → (g.hub.published c.endpoint).names = ∅) :
    ∀ c, (i, c) ∈ conns ++ (Hub.Moment.allotted? ⟨g.hub, a, h'⟩).toList →
      (h'.published c.endpoint).names = ∅ := by
  intro c hc
  rcases List.mem_append.mp hc with hc | hc
  · rw [published_of_whole ho.ledger hsplits ha hc]
    exact hold c hc
  · rw [(Hub.acts_of_act ho.ledger.running ha).published_of_allotted (Option.mem_toList.mp hc)]
    rfl

theorem tidy_whole (ho : Orderly conns g) (hsplits : g.splits a = false)
    (ha : g.hub.act a = some h') (hi : g.hub.sessions[i]? = some s)
    (hi' : h'.sessions[i]? = some s') :
    Tidy (conns ++ (Hub.Moment.allotted? ⟨g.hub, a, h'⟩).toList) h' (g.tasks i) i s' := by
  have hl := ho.ledger
  have ht := ho.tidy i s hi
  have hfixed : h'.settings = g.hub.settings := (Hub.acts_of_act hl.running ha).fixed.1
  -- Where a session goes by what it went by before, what is published for it is the same as well.
  have hdue {c : Handle} {followed : SubscriptionSet}
      (hp : s.phase.kept? = some (c, followed)) :
      followed.Keeps h'.settings.maxSubscriptions ∧
        Due h'.settings.maxSubscriptions (h'.published c.endpoint) followed (g.tasks i) := by
    rw [hfixed, published_of_whole hl hsplits ha (Hub.mem_of_kept hl hi hp)]
    exact ht.due c followed hp
  obtain ⟨s₁, hi₁, hturn⟩ := Hub.turn_of_act hi ha
  cases hi'.symm.trans hi₁
  cases hturn with
  | own m d s' hm hmove =>
    obtain ⟨hnone, hinbound⟩ := unheard_of_splits hsplits hm hi
    cases Session.minds_of_move hl.running hm hmove with
    | heard c deadline followed outbound f hp hf => cases hnone.symm.trans hf
    | greeted c deadline deadline' outbound hp hf hv hp' =>
      have hidle := ht.idle (by rw [hp]; rfl)
      have hfit := hl.fits i s hi
      rw [hp] at hfit
      have hempty := ht.silent (by rw [hp]; rfl) c (hl.lookup_eq_some.mp hfit)
      refine ⟨fun hbusy => absurd hidle hbusy, fun d followed hd => ?_, fun hs => ?_⟩
      · rw [hp'] at hd
        cases hd
        refine ⟨SubscriptionSet.keeps_empty _, ?_⟩
        rw [hidle]
        refine .done ?_
        rw [published_of_whole hl hsplits ha (hl.lookup_eq_some.mp hfit), hempty]
        rfl
      · rw [hp'] at hs
        cases hs
    | other hf hpublished hkept hkeeps hstays =>
      refine ⟨fun hbusy => ?_, fun c followed hp => hdue (hkept _ hp), fun hs => ?_⟩
      · obtain ⟨p, hp⟩ := Option.isSome_iff_exists.mp (ht.busy hbusy)
        have hnot : ∀ j, m ≠ .inbound j := fun j hj => hbusy (hinbound ⟨j, hj⟩)
        exact Option.isSome_iff_exists.mpr ⟨p, hkeeps hnot p hp⟩
      · refine ho.silent_whole hsplits ha (ht.silent (Bool.eq_false_iff.mpr fun hadmitted => ?_))
        rw [hstays hadmitted] at hs
        cases hs
  | client act =>
    exact ⟨ht.busy, fun c followed hp => hdue hp, fun hs => ho.silent_whole hsplits ha (ht.silent hs)⟩
  | other a h' ha hne =>
    exact ⟨ht.busy, fun c followed hp => hdue hp, fun hs => ho.silent_whole hsplits ha (ht.silent hs)⟩

theorem whole (ho : Orderly conns g) (hsplits : g.splits a = false) (ha : g.hub.act a = some h') :
    Orderly (conns ++ (Hub.Moment.allotted? ⟨g.hub, a, h'⟩).toList) ⟨h', g.tasks, g.round⟩ where
  ledger := ho.ledger.acts (Hub.acts_of_act ho.ledger.running ha)
  tidy i s' hi' := by
    by_cases hlt : i < g.hub.sessions.length
    · exact ho.tidy_whole hsplits ha (List.getElem?_eq_getElem hlt) hi'
    · have hge := Nat.le_of_not_lt hlt
      obtain ⟨o, hopens⟩ := Hub.opens_of_new ho.ledger.running ha hge hi'
      have hkept : s'.phase.kept? = none := by cases hopens <;> rfl
      refine ⟨fun hbusy => absurd (ho.absent i hge) hbusy, fun c followed hp => ?_, fun _ => ?_⟩
      · rw [hkept] at hp
        cases hp
      · exact ho.silent_whole hsplits ha fun c hc => absurd (ho.ledger.held i c hc) hlt
  absent i hi := by
    have hlen := (Hub.acts_of_act ho.ledger.running ha).length_sessions
    have hle : h'.sessions.length ≤ i := hi
    exact ho.absent i (by omega)

theorem tidy_heard {h h' : Hub} {room : Mailroom} {deadline deadline' : Nat}
    {followed : SubscriptionSet} {outbound : Outbound} {f : Frame}
    (hkeeps : followed.Keeps h.settings.maxSubscriptions)
    (hdue : Due h.settings.maxSubscriptions (h.published c.endpoint) followed [])
    (hp : s.phase = .admitted c (.running deadline followed) outbound)
    (hf : s.hears? room (.inbound i) = some f) (hsettings : h'.settings = h.settings)
    (hpublished : h'.published = h.published)
    (hp' : f = .close ∧ s'.phase = .admitted c (.leaving .peerClosed) outbound ∨
      s'.phase = .admitted c
        (.running deadline' (Inbound.handleFrame h.surroundings followed f).1) outbound) :
    Tidy conns h' (s.tasks h.surroundings room (.inbound i) f) i s' := by
  have hadmitted : s'.phase.isAdmitted = true := by
    rcases hp' with ⟨-, hp'⟩ | hp' <;> rw [hp'] <;> rfl
  have hsilent : s'.phase.isAdmitted = false → ∀ c, (i, c) ∈ conns →
      (h'.published c.endpoint).names = ∅ := by
    intro hs
    rw [hadmitted] at hs
    cases hs
  cases hr : f.request? h.settings.maxMessageBytes with
  | none =>
    have htasks : s.tasks h.surroundings room (.inbound i) f = [] := by
      unfold Session.tasks
      rw [show h.surroundings.settings = h.settings from rfl, hr]
    rw [htasks]
    refine ⟨nofun, fun d kept hd => ?_, hsilent⟩
    rcases hp' with ⟨-, hp'⟩ | hp'
    · rw [hp'] at hd
      cases hd
    · rw [hp', Inbound.handleFrame_of_none (e := h.surroundings) followed hr] at hd
      cases hd
      rw [hsettings, hpublished]
      exact ⟨hkeeps, hdue⟩
  | some r =>
    have hhandle := Inbound.handleFrame_of_request (e := h.surroundings) (s := followed) hr
    have htasks : s.tasks h.surroundings room (.inbound i) f =
        (Inbound.react h.surroundings.stamp followed r).2.map (Prod.mk r) := by
      unfold Session.tasks
      rw [show h.surroundings.settings = h.settings from rfl, hr]
      dsimp only
      rw [Session.reacts_of_some hp hf, hhandle]
    rw [htasks]
    rcases hp' with ⟨rfl, -⟩ | hp'
    · cases hr
    · rw [hhandle] at hp'
      refine ⟨fun _ => by rw [hp']; rfl, fun d kept hd => ?_, hsilent⟩
      rw [hp'] at hd
      cases hd
      obtain ⟨hkeeps', hnames, hreacts⟩ := Inbound.react_spec hkeeps h.surroundings.stamp r
      rw [hsettings, hpublished]
      refine ⟨hkeeps', .of_reacts ?_ hnames hreacts⟩
      cases hdue with
      | done hsame => exact hsame

theorem heard {v : Service} {f : Frame} (ho : Orderly conns g) (htasks : g.tasks i = [])
    (hi : g.hub.sessions[i]? = some s)
    (hf : s.hears? g.hub.service.members.room (.inbound i) = some f)
    (hmove : s.move g.hub.surroundings g.hub.desk (.inbound i) = some (⟨v, g.hub.nextId⟩, s')) :
    Orderly conns ⟨g.hub.setSession i s', Function.update g.tasks i
      (s.tasks g.hub.surroundings g.hub.service.members.room (.inbound i) f), g.round⟩ := by
  have hl := ho.ledger
  have hget := Hub.getElem?_setSession g.hub s' hi
  cases Session.minds_of_move (i := i) hl.running rfl hmove with
  | greeted c deadline deadline' outbound hp hf' => cases hf'.symm.trans hf
  | other hf' => cases hf'.symm.trans hf
  | heard c deadline followed outbound f' hp hf' hv hp' =>
    cases hf.symm.trans hf'
    have hfits : ∀ o, s.phase.Fits o → s'.phase.Fits o := by
      intro o hs
      rw [hp] at hs
      rcases hp' with ⟨-, hp'⟩ | hp' <;> rw [hp'] <;> exact hs
    -- The session that hears has all of its request still to do; no other one is touched.
    refine ⟨hl.resumed hi hfits, fun j t hj => ?_, fun j hj => ?_⟩
    · have hj' := (hget j).symm.trans hj
      by_cases hji : j = i
      · subst hji
        rw [if_pos rfl] at hj'
        cases hj'
        have hk : s.phase.kept? = some (c, followed) := by
          rw [hp]
          rfl
        obtain ⟨hkeeps, hdue⟩ := (ho.tidy j s hi).due c followed hk
        rw [htasks] at hdue
        dsimp only
        rw [Function.update_self]
        exact tidy_heard hkeeps hdue hp hf rfl rfl hp'
      · rw [if_neg hji] at hj'
        have ht := ho.tidy j t hj'
        have hother : Function.update g.tasks i (s.tasks g.hub.surroundings
            g.hub.service.members.room (.inbound i) f) j = g.tasks j := Function.update_of_ne hji _ _
        dsimp only
        rw [hother]
        exact ⟨ht.busy, ht.due, ht.silent⟩
    · have hlen : g.hub.sessions.length ≤ j := by simpa [Hub.setSession] using hj
      have hji : j ≠ i := by
        rintro rfl
        exact absurd (List.getElem?_eq_some_iff.mp hi).1 (Nat.not_lt_of_le hlen)
      exact (Function.update_of_ne hji _ _).trans (ho.absent j hlen)

theorem carried {inbound : Inbound} {outbound : Outbound} {r : ClientFrame} {x : Reaction}
    {left : List Task} (ho : Orderly conns g) (hi : g.hub.sessions[i]? = some s)
    (hp : s.phase = .admitted c inbound outbound) (htasks : g.tasks i = (r, x) :: left) :
    Orderly conns ⟨g.hub.withService (g.hub.service.withRoom fun room =>
      Inbound.perform c.endpoint room x), Function.update g.tasks i left, g.round⟩ := by
  have hl := ho.ledger
  have hfit := hl.fits i s hi
  rw [hp] at hfit
  have hc := hl.lookup_eq_some.mp hfit
  have hpublished := published_perform g.hub (hl.lt_length hc) x
  have hlength := Inbound.length_perform [x] g.hub.service.members.room c.endpoint
  refine ⟨hl.withService rfl rfl hlength rfl (fun _ hq => hq) rfl, fun j t hj => ?_, fun j hj => ?_⟩
  · have ht := ho.tidy j t hj
    by_cases hji : j = i
    · subst hji
      cases hi.symm.trans hj
      have hbusy := ht.busy (by rw [htasks]; nofun)
      dsimp only
      rw [Function.update_self]
      refine ⟨fun _ => hbusy, fun d kept hd => ?_, fun hs => ?_⟩
      · obtain ⟨hkeeps, hdue⟩ := ht.due d kept hd
        have hcd : c = d := hl.eq_of_session hc (Hub.mem_of_kept hl hi hd)
        subst hcd
        rw [hpublished, if_pos rfl]
        rw [htasks] at hdue
        exact ⟨hkeeps, hdue.step⟩
      · rw [hp] at hs
        cases hs
    · -- Another connection has another endpoint, at which nothing was published.
      have hother (d : Handle) (hd : (j, d) ∈ conns) : d.endpoint ≠ c.endpoint := fun he =>
        hji (hl.eq_of_endpoint hd hc he).1
      dsimp only
      rw [Function.update_of_ne hji]
      refine ⟨ht.busy, fun d kept hd => ?_, fun hs d hd => ?_⟩
      · rw [hpublished, if_neg (hother d (Hub.mem_of_kept hl hj hd))]
        exact ht.due d kept hd
      · rw [hpublished, if_neg (hother d hd)]
        exact ht.silent hs d hd
  · have hji : j ≠ i := by
      rintro rfl
      exact absurd (List.getElem?_eq_some_iff.mp hi).1 (Nat.not_lt_of_le hj)
    exact (Function.update_of_ne hji _ _).trans (ho.absent j hj)

theorem served {v : Service} (ho : Orderly conns g) (hl : Ledger conns (g.hub.withService v))
    (hpublished : (g.hub.withService v).published = g.hub.published) (round : Option Round) :
    Orderly conns ⟨g.hub.withService v, g.tasks, round⟩ where
  ledger := hl
  tidy i s hi := by
    have ht := ho.tidy i s hi
    refine ⟨ht.busy, fun c followed hp => ?_, fun hs c hc => ?_⟩
    · rw [hpublished]
      exact ht.due c followed hp
    · rw [hpublished]
      exact ht.silent hs c hc
  absent := ho.absent

end Orderly

end

end Grain

end PushHub
