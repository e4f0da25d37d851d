import PushHub.Proofs.Hub.Stepwise

/-! An acknowledgement means that the change is in force. What a request leaves to follow is published
before its acknowledgement is offered to the mailbox, so whoever looks at what is published after the
acknowledgement was accepted sees the change, until a later request about the channel is published. -/
namespace PushHub

open Registry (Handle Service Queued Command Membership Mailroom)

namespace Grain

/-! ## Observing a run -/

structure Instant where
  before : Grain
  deed : Deed
  after : Grain

namespace Instant

variable (t : Instant) (i : Nat)

def moment? : Option Hub.Moment :=
  match t.deed with
  | .whole a => some ⟨t.before.hub, a, t.after.hub⟩
  | _ => none

/-- What the loop of session `i` does about a request that it has taken up. -/
def carried? : Option Task :=
  match t.deed with
  | .carry j => if j = i then (t.before.tasks i).head? else none
  | _ => none

/-- The loop of session `i` publishes what request `r` leaves to follow. -/
def Publishes (r : ClientFrame) : Prop := ∃ s, t.carried? i = some (r, .publish s)

/-- The mailbox of connection `c`, of session `i`, accepts a reply. -/
structure Accepts (c : Handle) (f : ServerFrame) : Prop where
  carried : ∃ r, t.carried? i = some (r, .reply f)
  session : ∃ s inbound outbound, t.before.hub.sessions[i]? = some s ∧
    s.phase = .admitted c inbound outbound
  accepted : (t.before.hub.service.members.room.deliver c.endpoint f.frame).2 = .ok ()

def commenced? : Option DispatchRequest :=
  match t.deed with
  | .commence => t.before.hub.service.queue.head?.bind (·.command.request?)
  | _ => none

/-- The registry looks at a connection for a request, and lets it through or not. -/
def looked? : Option (DispatchRequest × Handle × Bool) :=
  match t.deed, t.before.round with
  | .look, some ⟨r, c, false, _⟩ => some (r, c, t.before.hub.service.members.admits c r.channels)
  | _, _ => none

def given? : Option (DispatchRequest × Handle) :=
  match t.deed, t.before.round with
  | .put, some ⟨r, c, true, _⟩ => some (r, c)
  | _, _ => none

end Instant

/-- The connections that the registry has still to look at for the request that it hands round. -/
def left (g : Grain) : List Handle :=
  match g.round with
  | some ⟨_, c, false, ahead⟩ => c :: ahead
  | some ⟨_, _, true, ahead⟩ => ahead
  | none => []

def connections (ts : List Instant) : List (Nat × Handle) :=
  Hub.connections (ts.filterMap Instant.moment?)

def submitted (ts : List Instant) : List DispatchRequest :=
  Hub.submitted (ts.filterMap Instant.moment?)

def commenced (ts : List Instant) : List DispatchRequest := ts.filterMap Instant.commenced?

def seen (ts : List Instant) : List Handle :=
  ts.filterMap fun t => t.looked?.map fun (_, c, _) => c

inductive Run (start : Grain) : List Instant → Grain → Prop
  | nil : Run start [] start
  | snoc {ts : List Instant} {g g' : Grain} {d : Deed} (hr : Run start ts g)
      (hg : g.act d = some g') : Run start (ts ++ [⟨g, d, g'⟩]) g'

theorem connections_snoc (ts : List Instant) (t : Instant) : connections (ts ++ [t]) =
    connections ts ++ (t.moment?.bind Hub.Moment.allotted?).toList := by
  unfold connections Hub.connections
  rw [List.filterMap_filterMap, List.filterMap_filterMap]
  exact Hub.filterMap_snoc _ ts t

theorem submitted_snoc (ts : List Instant) (t : Instant) : submitted (ts ++ [t]) =
    submitted ts ++ (t.moment?.bind Hub.Moment.submitted?).toList := by
  unfold submitted Hub.submitted
  rw [List.filterMap_filterMap, List.filterMap_filterMap]
  exact Hub.filterMap_snoc _ ts t

theorem commenced_snoc (ts : List Instant) (t : Instant) :
    commenced (ts ++ [t]) = commenced ts ++ t.commenced?.toList :=
  Hub.filterMap_snoc _ ts t

section

variable {conns : List (Nat × Handle)} {g g' : Grain} {d : Deed} {i : Nat} {c : Handle}

theorem Orderly.does (ho : Orderly conns g) (hd : g.Does d g') :
    Orderly (conns ++ ((Instant.moment? ⟨g, d, g'⟩).bind Hub.Moment.allotted?).toList) g' := by
  have hl := ho.ledger
  have hsame {g' : Grain} (hg : Orderly conns g') : Orderly (conns ++ Option.toList none) g' := by
    simpa using hg
  cases hd with
  | whole a h hsplits ha => exact ho.whole hsplits ha
  | heard i s s' v f htasks hi hf hmove => exact hsame (ho.heard htasks hi hf hmove)
  | carried i s c inbound outbound r x left hi hp htasks => exact hsame (ho.carried hi hp htasks)
  | commenced r ticket left hround hq =>
    let v := { g.hub.service with members := g.hub.service.members.counted, queue := left }
    have hl' : Ledger conns (g.hub.withService v) :=
      ho.ledger.withService rfl rfl rfl rfl (fun q hmem => hq ▸ List.mem_cons_of_mem _ hmem) rfl
    exact hsame (ho.served hl' rfl _)
  | chosen r c ahead hround hadmits => exact hsame ⟨ho.ledger, ho.tidy, ho.absent⟩
  | filtered r c ahead hround hadmits =>
    let v := { g.hub.service with members := { g.hub.service.members with
      counters.filtered := g.hub.service.members.counters.filtered + 1 } }
    have hl' : Ledger conns (g.hub.withService v) :=
      ho.ledger.withService rfl rfl rfl rfl (fun _ hq => hq) rfl
    exact hsame (ho.served hl' rfl _)
  | given r c ahead hround =>
    let o := g.hub.service.members.deliver c r.messageType (Membership.frameOf r)
    let v := { g.hub.service with members := o.state, window := g.hub.service.window.push o.events }
    obtain ⟨hentries, hroom⟩ := Membership.deliver_frame g.hub.service.members c r.messageType
      (Membership.frameOf r)
    have hlength : v.members.room.length = g.hub.service.members.room.length := by
      show o.state.room.length = _
      rw [hroom, Mailroom.length_deliver]
    have hl' : Ledger conns (g.hub.withService v) :=
      ho.ledger.withService rfl rfl hlength hentries (fun _ hq => hq) rfl
    have hpublished : (g.hub.withService v).published = g.hub.published := by
      funext k
      show (o.state.room.get k).published = _
      rw [hroom]
      exact Mailroom.published_deliver g.hub.service.members.room c.endpoint k _
    exact hsame (ho.served hl' hpublished _)

theorem Orderly.published_of_does (ho : Orderly conns g) (hd : g.Does d g') (hc : (i, c) ∈ conns) :
    g'.hub.published c.endpoint = g.hub.published c.endpoint ∨
      ∃ r, Instant.Publishes ⟨g, d, g'⟩ i r ∧ (g'.hub.published c.endpoint).names =
        r.after g.hub.settings.maxSubscriptions (g.hub.published c.endpoint).names := by
  have hl := ho.ledger
  cases hd with
  | whole a h hsplits ha => exact .inl (published_of_whole hl hsplits ha hc)
  | carried j s e inbound outbound r x left hi hp htasks =>
    have hfit := hl.fits j s hi
    rw [hp] at hfit
    have he := hl.lookup_eq_some.mp hfit
    have hpublished := published_perform g.hub (hl.lt_length he) x c.endpoint
    by_cases hje : c.endpoint = e.endpoint
    · obtain ⟨rfl, rfl⟩ := hl.eq_of_endpoint hc he hje
      rw [if_pos rfl] at hpublished
      cases x with
      | reply f => exact .inl hpublished
      | publish t =>
        have ht := ho.tidy i s hi
        obtain ⟨⟨e, followed⟩, hk⟩ := Option.isSome_iff_exists.mp (ht.busy (by rw [htasks]; nofun))
        cases hl.eq_of_session hc (Hub.mem_of_kept hl hi hk)
        have hdue := (ht.due c followed hk).2
        rw [htasks] at hdue
        refine .inr ⟨r, ⟨t, ?_⟩, ?_⟩
        · simp [Instant.carried?, htasks]
        · exact (congrArg SubscriptionSet.names hpublished).trans hdue.publishes
    · rw [if_neg hje] at hpublished
      exact .inl hpublished
  | given r e ahead hround =>
    left
    show ((g.hub.service.members.deliver e r.messageType (Membership.frameOf r)).state.room.get
      c.endpoint).published = _
    rw [(Membership.deliver_frame _ _ _ _).2]
    exact Mailroom.published_deliver g.hub.service.members.room e.endpoint c.endpoint _
  | _ => exact .inl rfl

end

/-! ## Runs -/

section

variable {start g : Grain} {ts before middle after : List Instant} {t : Instant} {i : Nat}
  {c : Handle}

def trace (g : Grain) : List Deed → Option (List Instant × Grain)
  | [] => some ([], g)
  | d :: rest =>
    match g.act d with
    | some g' => (g'.trace rest).map fun (ts, last) => (⟨g, d, g'⟩ :: ts, last)
    | none => none

theorem run_append_trace {last : Grain} {more : List Instant} {ds : List Deed}
    (hr : Run start ts g) (ht : g.trace ds = some (more, last)) : Run start (ts ++ more) last := by
  induction ds generalizing g ts more with
  | nil =>
    cases ht
    rw [List.append_nil]
    exact hr
  | cons d rest ih =>
    unfold trace at ht
    split at ht
    · rename_i g' hg
      obtain ⟨⟨later, last'⟩, hrest, heq⟩ := Option.map_eq_some_iff.mp ht
      cases heq
      have := ih (hr.snoc hg) hrest
      rw [List.append_assoc] at this
      exact this
    · cases ht

theorem run_trace {ds : List Deed} {p : List Instant × Grain} (ht : start.trace ds = some p) :
    Run start p.1 p.2 :=
  run_append_trace .nil ht

theorem Run.split (hr : Run start (before ++ t :: after) g) :
    Run start before t.before ∧ t.before.act t.deed = some t.after := by
  generalize hts : before ++ t :: after = ts at hr
  induction hr generalizing after with
  | nil => simp at hts
  | @snoc ts g g' d hr hg ih =>
    rcases List.eq_nil_or_concat after with rfl | ⟨init, last, rfl⟩
    · obtain ⟨rfl, heq⟩ := List.append_inj' hts rfl
      cases heq
      exact ⟨hr, hg⟩
    · rw [List.concat_eq_append, ← List.cons_append, ← List.append_assoc] at hts
      obtain ⟨rfl, -⟩ := List.append_inj' hts rfl
      exact ih rfl

theorem Run.last_eq (hr : Run start (before ++ [t]) g) : g = t.after := by
  generalize hts : before ++ [t] = ts at hr
  cases hr with
  | nil => simp at hts
  | snoc hr hg =>
    obtain ⟨-, heq⟩ := List.append_inj' hts rfl
    cases heq
    rfl

theorem Run.lasting {P : Grain → Prop} (hr : Run start (before ++ t :: middle) g) (hp : P t.after)
    (hstep : ∀ u ∈ middle, ∀ ts, before ++ [t] <+: ts → Run start ts u.before →
      u.before.act u.deed = some u.after → P u.before → P u.after) : P g := by
  induction middle using List.reverseRecOn generalizing g with
  | nil =>
    rw [hr.last_eq]
    exact hp
  | append_singleton middle u ih =>
    rw [← List.cons_append, ← List.append_assoc] at hr
    obtain ⟨hbefore, hact⟩ := hr.split
    rw [hr.last_eq]
    refine hstep u (by simp) _ ?_ hbefore hact (ih hbefore fun v hv => hstep v (by simp [hv]))
    exact ⟨middle, by simp⟩

theorem Run.orderly {h : Hub} (hr : Run (rest h) ts g) (hs : h.Fresh) :
    Orderly (connections ts) g := by
  induction hr with
  | nil =>
    obtain ⟨settings, registry, verifier, channels, clock, rfl⟩ := hs
    have hl := Ledger.start settings registry verifier channels clock
    exact ⟨hl, (fun _ _ hi => nomatch hi), fun _ _ => rfl⟩
  | snoc hr hg ih =>
    rw [connections_snoc]
    exact ih.does (does_of_act hg)

theorem Run.balance {h : Hub} (hr : Run (rest h) ts g) (hs : h.Fresh) :
    submitted ts = commenced ts ++ g.hub.service.pending := by
  induction hr with
  | nil =>
    obtain ⟨settings, registry, verifier, channels, clock, rfl⟩ := hs
    rfl
  | @snoc ts g g' d hr hg ih =>
    have hquiet (hmoment : Instant.moment? ⟨g, d, g'⟩ = none)
        (hpending : g.hub.service.pending =
          (Instant.commenced? ⟨g, d, g'⟩).toList ++ g'.hub.service.pending) :
        submitted (ts ++ [⟨g, d, g'⟩]) =
          commenced (ts ++ [⟨g, d, g'⟩]) ++ g'.hub.service.pending := by
      rw [submitted_snoc, hmoment, Option.bind_none, Option.toList_none, List.append_nil,
        commenced_snoc, ih, hpending, List.append_assoc]
    cases does_of_act hg with
    | whole a h hsplits ha =>
      have hl := (hr.orderly hs).ledger
      have hbalance := (Hub.acts_of_act hl.running ha).balance hl
      have hnone : Hub.Moment.handled? ⟨g.hub, a, h⟩ = none := by
        cases a with
        | move m =>
          cases m with
          | serve => exact Option.isSome_eq_false_iff.mp (Bool.or_eq_false_iff.mp hsplits).2 |>
              Option.isNone_iff_eq_none.mp
          | _ => rfl
        | _ => rfl
      rw [hnone, Option.toList_none, List.nil_append] at hbalance
      rw [submitted_snoc, commenced_snoc, ih, List.append_assoc]
      simpa [Instant.moment?, Instant.commenced?] using hbalance
    | commenced r ticket left hround hq =>
      refine hquiet rfl ?_
      simp [Instant.commenced?, Service.pending, hq, Command.request?, Hub.withService]
    | _ => exact hquiet rfl rfl

theorem Round.onward_eq_some {r : DispatchRequest} {hs : List Handle} {x : Round}
    (hx : Round.onward r hs = some x) : x.request = r ∧ x.chosen = false := by
  cases hs with
  | nil => cases hx
  | cons c ahead =>
    cases hx
    exact ⟨rfl, rfl⟩

theorem Run.current {h : Hub} (hr : Run (rest h) ts g) {x : Round} (hx : g.round = some x) :
    (commenced ts).getLast? = some x.request := by
  induction hr generalizing x with
  | nil => cases hx
  | @snoc ts g g' d hr hg ih =>
    have hquiet (hnone : Instant.commenced? ⟨g, d, g'⟩ = none) {y : Round} (hy : g.round = some y)
        (hsame : x.request = y.request) :
        (commenced (ts ++ [⟨g, d, g'⟩])).getLast? = some x.request := by
      rw [commenced_snoc, hnone, Option.toList_none, List.append_nil, hsame]
      exact ih hy
    cases does_of_act hg with
    | commenced r ticket left hround hq =>
      rw [(Round.onward_eq_some hx).1, commenced_snoc]
      simp [Instant.commenced?, hq, Command.request?]
    | chosen r c ahead hround hadmits =>
      cases hx
      exact hquiet rfl hround rfl
    | filtered r c ahead hround hadmits => exact hquiet rfl hround (Round.onward_eq_some hx).1
    | given r c ahead hround => exact hquiet rfl hround (Round.onward_eq_some hx).1
    | _ => exact hquiet rfl hx rfl

theorem Run.looked {h : Hub} (hr : Run (rest h) ts g) {r : DispatchRequest} {ahead : List Handle}
    (hx : g.round = some ⟨r, c, true, ahead⟩) :
    ∃ first look between, ts = first ++ look :: between ∧ look.looked? = some (r, c, true) ∧
      ∀ t ∈ between, t.deed.ofRegistry = false := by
  induction hr with
  | nil => cases hx
  | @snoc ts g g' d hr hg ih =>
    have hquiet (hx : g.round = some ⟨r, c, true, ahead⟩)
        (hd : d.ofRegistry = false) :
        ∃ first look between, ts ++ [⟨g, d, g'⟩] = first ++ look :: between ∧
          look.looked? = some (r, c, true) ∧
          ∀ t ∈ between, t.deed.ofRegistry = false := by
      obtain ⟨first, look, between, rfl, hlook, hbetween⟩ := ih hx
      refine ⟨first, look, between ++ [⟨g, d, g'⟩], by simp, hlook, fun t ht => ?_⟩
      rcases List.mem_append.mp ht with ht | ht
      · exact hbetween t ht
      · rw [List.mem_singleton.mp ht]
        exact hd
    cases does_of_act hg with
    | commenced r' ticket left hround hq => cases (Round.onward_eq_some hx).2
    | chosen r' c' ahead' hround hadmits =>
      obtain ⟨rfl, rfl, -, -⟩ := Round.mk.inj (Option.some.inj hx)
      refine ⟨ts, _, [], rfl, ?_, fun t ht => nomatch ht⟩
      simp [Instant.looked?, hround, hadmits]
    | filtered r' c' ahead' hround hadmits => cases (Round.onward_eq_some hx).2
    | given r' c' ahead' hround => cases (Round.onward_eq_some hx).2
    | whole a h hsplits ha => exact hquiet hx rfl
    | heard => exact hquiet hx rfl
    | carried => exact hquiet hx rfl

theorem left_of_does {g g' : Grain} {d : Deed} (hd : g.Does d g')
    (hnone : Instant.commenced? ⟨g, d, g'⟩ = none) : g.left = seen [⟨g, d, g'⟩] ++ g'.left := by
  have honward (r : DispatchRequest) (hs : List Handle) (hub : Hub) (tasks : Nat → List Task) :
      left ⟨hub, tasks, Round.onward r hs⟩ = hs := by
    cases hs <;> rfl
  cases hd with
  | commenced r ticket queue hround hq =>
    simp [Instant.commenced?, hq, Command.request?] at hnone
  | chosen r c ahead hround hadmits => simp [left, seen, Instant.looked?, hround]
  | filtered r c ahead hround hadmits =>
    rw [honward]
    simp [left, seen, Instant.looked?, hround]
  | given r c ahead hround =>
    rw [honward]
    simp [left, seen, Instant.looked?, hround]
  | _ => rfl

theorem Run.seen {h : Hub} {r : DispatchRequest} (hr : Run (rest h) (before ++ t :: middle) g)
    (ht : t.commenced? = some r) (hmiddle : ∀ u ∈ middle, u.commenced? = none) :
    t.before.hub.service.members.recipients r.target = Grain.seen middle ++ g.left := by
  induction middle using List.reverseRecOn generalizing g with
  | nil =>
    obtain ⟨-, hact⟩ := hr.split
    rw [hr.last_eq]
    obtain ⟨g₀, d, g₁⟩ := t
    dsimp only at hact ⊢
    cases does_of_act hact with
    | commenced r' ticket queue hround hq =>
      have hsame : r' = r := by simpa [Instant.commenced?, hq, Command.request?] using ht
      subst hsame
      unfold left
      cases g₀.hub.service.members.recipients r'.target <;> rfl
    | _ => cases ht
  | append_singleton middle u ih =>
    rw [← List.cons_append, ← List.append_assoc] at hr
    obtain ⟨hbefore, hact⟩ := hr.split
    have hleft := left_of_does (does_of_act hact) (hmiddle u (by simp))
    rw [ih hbefore fun v hv => hmiddle v (by simp [hv]), hleft, hr.last_eq, ← List.append_assoc]
    simp [Grain.seen]

theorem mem_connections_of_isPrefix {more : List Instant} (hpre : ts <+: more)
    (hc : (i, c) ∈ connections ts) : (i, c) ∈ connections more := by
  obtain ⟨after, rfl⟩ := hpre
  unfold connections
  rw [List.filterMap_append]
  exact Hub.mem_connections_append hc _

/-- A reply that a mailbox accepts is true of what is published, and publishes nothing. -/
theorem Run.accepted {h : Hub} {f : ServerFrame} (hr : Run (rest h) (before ++ t :: after) g)
    (hs : h.Fresh) (ht : t.Accepts i c f) : (i, c) ∈ connections before ∧
      f.Tells (t.after.hub.published c.endpoint).names := by
  obtain ⟨hbefore, hact⟩ := hr.split
  have ho := hbefore.orderly hs
  have hd := does_of_act hact
  obtain ⟨r, hcarried⟩ := ht.carried
  obtain ⟨s, inbound, outbound, hi, hp⟩ := ht.session
  have hfit := ho.ledger.fits i s hi
  rw [hp] at hfit
  have hc := ho.ledger.lookup_eq_some.mp hfit
  obtain ⟨left, htasks⟩ : ∃ left, t.before.tasks i = (r, .reply f) :: left := by
    unfold Instant.carried? at hcarried
    split at hcarried
    · split at hcarried
      · exact ⟨_, List.eq_cons_of_mem_head? hcarried⟩
      · cases hcarried
    · cases hcarried
  have hsame : t.after.hub.published c.endpoint = t.before.hub.published c.endpoint := by
    rcases ho.published_of_does hd hc with hsame | ⟨r', ⟨s', hpublishes⟩, -⟩
    · exact hsame
    · cases hcarried.symm.trans hpublishes
  have hbusy := (ho.tidy i s hi).busy (by rw [htasks]; nofun)
  obtain ⟨⟨d, followed⟩, hk⟩ := Option.isSome_iff_exists.mp hbusy
  cases ho.ledger.eq_of_session hc (Hub.mem_of_kept ho.ledger hi hk)
  have hdue := ((ho.tidy i s hi).due c followed hk).2
  rw [htasks] at hdue
  rw [hsame]
  exact ⟨hc, hdue.tells⟩

theorem Run.published_since {h : Hub} {P : Finset ChannelName → Prop}
    (hr : Run (rest h) (before ++ t :: middle) g) (hs : h.Fresh) (hc : (i, c) ∈ connections before)
    (hp : P (t.after.hub.published c.endpoint).names)
    (hstep : ∀ u ∈ middle, ∀ r, u.Publishes i r → ∀ limit s, P s → P (r.after limit s)) :
    P (g.hub.published c.endpoint).names := by
  refine hr.lasting (P := fun g => P (g.hub.published c.endpoint).names) hp ?_
  intro u hu ts hpre hbefore hact hpu
  have ho := hbefore.orderly hs
  have hc' := mem_connections_of_isPrefix ((List.prefix_append before [t]).trans hpre) hc
  rcases ho.published_of_does (does_of_act hact) hc' with hsame | ⟨r, hpublishes, hnames⟩
  · rw [hsame]
    exact hpu
  · rw [hnames]
    exact hstep u hu r hpublishes _ _ hpu

theorem Instant.looked?_eq_some {r : DispatchRequest} {b : Bool}
    (ht : t.looked? = some (r, c, b)) : t.deed = .look ∧
      b = t.before.hub.service.members.admits c r.channels ∧
      ∃ ahead, t.before.round = some ⟨r, c, false, ahead⟩ := by
  unfold Instant.looked? at ht
  split at ht
  · rename_i hdeed hround
    cases ht
    exact ⟨hdeed, rfl, _, hround⟩
  · cases ht

/-- What concerns a request that was submitted after an instant comes after that instant. -/
theorem Run.later {h : Hub} {first rest' : List Instant} {u : Instant}
    (hr : Run (rest h) (before ++ u :: after) g) (hs : h.Fresh)
    (hts : first ++ t :: rest' = before ++ u :: after)
    (hlt : (submitted first).length < (commenced before).length) :
    ∃ middle, before = first ++ t :: middle := by
  have hlate (more : List Instant) (heq : first = before ++ more) : False := by
    have hbalance := congrArg List.length (hr.split.1.balance hs)
    have hmore : (submitted first).length =
        (submitted before).length + (submitted more).length := by
      rw [heq]
      unfold submitted Hub.submitted
      rw [List.filterMap_append, List.filterMap_append, List.length_append]
    rw [List.length_append] at hbalance
    omega
  rcases List.append_eq_append_iff.mp hts with ⟨middle, rfl, hmiddle⟩ | ⟨more, heq, -⟩
  · cases middle with
    | nil => exact (hlate [] (by simp)).elim
    | cons v middle =>
      cases hmiddle
      exact ⟨middle, rfl⟩
  · exact (hlate more heq).elim

end

/-! ## Acknowledged changes -/

/-- What an acknowledgement means to the requests that are handed round after it was accepted. -/
structure InForce (ts : List Instant) : Prop where
  order : ∀ before t after, ts = before ++ t :: after → ∀ x, t.before.round = some x →
    (commenced before).getLast? = some x.request ∧ commenced before <+: submitted before
  later : ∀ first t rest before u after, ts = first ++ t :: rest → ts = before ++ u :: after →
    (submitted first).length < (commenced before).length → ∃ middle, before = first ++ t :: middle
  addressed : ∀ before t middle u after, ts = before ++ t :: (middle ++ u :: after) →
    ∀ r, t.commenced? = some r → (∀ v ∈ middle, v.commenced? = none) →
    t.before.hub.service.members.recipients r.target = seen middle ++ u.before.left
  /-- Once it was acknowledged that a channel is followed, what names it passes until a request to
  give it up is published. -/
  subscribed : ∀ before ack middle look after, ts = before ++ ack :: (middle ++ look :: after) →
    ∀ i c names x, ack.Accepts i c (.subscribed names) → x ∈ names →
    (∀ t ∈ middle, ∀ given, x ∈ given → ¬t.Publishes i (.unsubscribe given)) →
    ∀ r b, look.looked? = some (r, c, b) → x ∈ r.channels → b = true
  /-- Once it was acknowledged that a channel is given up, what names no other that is followed does
  not pass until a request to follow it is published. -/
  unsubscribed : ∀ before ack middle look after, ts = before ++ ack :: (middle ++ look :: after) →
    ∀ i c names x, ack.Accepts i c (.unsubscribed names) → x ∈ names →
    (∀ t ∈ middle, ∀ asked, x ∈ asked → ¬t.Publishes i (.subscribe asked)) →
    ∀ r b, look.looked? = some (r, c, b) → r.channels ≠ [] →
    (∀ y ∈ r.channels, y ∈ (look.before.hub.published c.endpoint).channels → y = x) → b = false
  passed : ∀ t ∈ ts, ∀ r c, t.looked? = some (r, c, true) → t.after.hub = t.before.hub ∧
    ∃ ahead, t.after.round = some ⟨r, c, true, ahead⟩
  filtered : ∀ t ∈ ts, ∀ r c, t.looked? = some (r, c, false) →
    (∃ v, t.after.hub = t.before.hub.withService v ∧
      v.members.counters.filtered = t.before.hub.service.members.counters.filtered + 1 ∧
      v.members.room = t.before.hub.service.members.room) ∧
    ∀ x, t.after.round = some x → x.chosen = false
  given : ∀ before t after, ts = before ++ t :: after → ∀ r c, t.given? = some (r, c) →
    ∃ first look between, before = first ++ look :: between ∧ look.looked? = some (r, c, true) ∧
      ∀ u ∈ between, u.deed.ofRegistry = false

section

variable {start g : Grain} {ts before middle after : List Instant} {ack look t : Instant} {i : Nat}
  {c : Handle} {x : ChannelName} {names : List ChannelName} {r : DispatchRequest} {b : Bool} {h : Hub}

theorem Run.passes_subscribed (hr : Run (rest h) (before ++ ack :: (middle ++ look :: after)) g)
    (hs : h.Fresh) (hack : ack.Accepts i c (.subscribed names)) (hx : x ∈ names)
    (hmiddle : ∀ t ∈ middle, ∀ given, x ∈ given → ¬t.Publishes i (.unsubscribe given))
    (hlook : look.looked? = some (r, c, b)) (hx' : x ∈ r.channels) : b = true := by
  obtain ⟨hc, htells⟩ := hr.accepted hs hack
  rw [← List.cons_append, ← List.append_assoc] at hr
  have hmem : x ∈ (look.before.hub.published c.endpoint).names := by
    refine hr.split.1.published_since (P := (x ∈ ·)) hs hc (htells x hx) ?_
    intro u hu request hpublishes limit s hmem
    refine ClientFrame.mem_after hmem fun given hgiven heq => ?_
    exact hmiddle u hu given hgiven (heq ▸ hpublishes)
  obtain ⟨-, rfl, -⟩ := Instant.looked?_eq_some hlook
  by_contra hfalse
  have hnone := (Membership.admits_eq_false.mp (Bool.eq_false_iff.mpr hfalse)).2
  exact hnone x hx' (SubscriptionSet.mem_channels_iff.mpr hmem)

theorem Run.filters_unsubscribed (hr : Run (rest h) (before ++ ack :: (middle ++ look :: after)) g)
    (hs : h.Fresh) (hack : ack.Accepts i c (.unsubscribed names)) (hx : x ∈ names)
    (hmiddle : ∀ t ∈ middle, ∀ asked, x ∈ asked → ¬t.Publishes i (.subscribe asked))
    (hlook : look.looked? = some (r, c, b)) (hr' : r.channels ≠ [])
    (honly : ∀ y ∈ r.channels, y ∈ (look.before.hub.published c.endpoint).channels → y = x) :
    b = false := by
  obtain ⟨hc, htells⟩ := hr.accepted hs hack
  rw [← List.cons_append, ← List.append_assoc] at hr
  have hnot : x ∉ (look.before.hub.published c.endpoint).names := by
    refine hr.split.1.published_since (P := (x ∉ ·)) hs hc (htells x hx) ?_
    intro u hu request hpublishes limit s hnot
    refine ClientFrame.not_mem_after hnot fun asked hasked heq => ?_
    exact hmiddle u hu asked hasked (heq ▸ hpublishes)
  obtain ⟨-, rfl, -⟩ := Instant.looked?_eq_some hlook
  refine Membership.admits_eq_false.mpr ⟨hr', fun y hy hmem => hnot ?_⟩
  exact honly y hy hmem ▸ SubscriptionSet.mem_channels_iff.mp hmem

theorem Run.inForce (hr : Run (rest h) ts g) (hs : h.Fresh) : InForce ts where
  order := by
    rintro before t after rfl x hx
    have hbefore := hr.split.1
    exact ⟨hbefore.current hx, _, (hbefore.balance hs).symm⟩
  later := by
    rintro first t rest' before u after hts rfl hlt
    exact hr.later hs hts.symm hlt
  addressed := by
    rintro before t middle u after rfl r ht hmiddle
    rw [← List.cons_append, ← List.append_assoc] at hr
    exact hr.split.1.seen ht hmiddle
  subscribed := by
    rintro before ack middle look after rfl i c names x hack hx hmiddle r b hlook hx'
    exact hr.passes_subscribed hs hack hx hmiddle hlook hx'
  unsubscribed := by
    rintro before ack middle look after rfl i c names x hack hx hmiddle r b hlook hr' honly
    exact hr.filters_unsubscribed hs hack hx hmiddle hlook hr' honly
  passed := by
    intro t ht r c hlook
    obtain ⟨before, after, rfl⟩ := List.append_of_mem ht
    obtain ⟨hdeed, hadmits, ahead, hround⟩ := Instant.looked?_eq_some hlook
    have hact := hr.split.2
    simp only [hdeed, act, hround, ← hadmits, if_true, Option.some.injEq] at hact
    rw [← hact]
    exact ⟨rfl, ahead, rfl⟩
  filtered := by
    intro t ht r c hlook
    obtain ⟨before, after, rfl⟩ := List.append_of_mem ht
    obtain ⟨hdeed, hadmits, ahead, hround⟩ := Instant.looked?_eq_some hlook
    have hact := hr.split.2
    simp only [hdeed, act, hround, ← hadmits, Bool.false_eq_true, if_false, Option.some.injEq] at hact
    rw [← hact]
    exact ⟨⟨_, rfl, rfl, rfl⟩, fun x hx => (Round.onward_eq_some hx).2⟩
  given := by
    rintro before t after rfl r c hgiven
    unfold Instant.given? at hgiven
    split at hgiven
    · rename_i hround
      cases hgiven
      exact hr.split.1.looked hround
    · cases hgiven

end

/-- A client follows a channel and gives it up, while requests that name the channel are handed round:
the first is let through before the change is published, and put into the mailbox after it. -/
def errand : List Deed :=
  let send (kind : String) : Deed := .whole (.client 0 (.send (.text ("\x7b\"type\":\"" ++ kind ++
    "\",\"data\":\x7b\"channels\":[\"task_updates\"]\x7d\x7d"))))
  let note : Deed := .whole (.dispatch ⟨.all, "note", .null, [taskUpdates]⟩)
  [.whole (.register Hub.known ⟨.pipe (.create 16), {}⟩), .whole (.move (.admission 0)),
    .whole (.move .serve), .whole (.move (.admission 0)), .whole (.move (.admission 0)),
    send "subscribe", .hear 0, .carry 0, .carry 0, send "unsubscribe", note, .commence, .hear 0,
    .look, .carry 0, .put, .carry 0, note, .commence, .look]

theorem errand_runs : ((rest Hub.modest).trace errand).isSome = true := by decide +kernel

def ranErrand : List Instant × Grain := ((rest Hub.modest).trace errand).get errand_runs

theorem trace_errand : (rest Hub.modest).trace errand = some ranErrand :=
  (Option.some_get errand_runs).symm

theorem ranErrand_inForce : InForce ranErrand.1 ∧
    ranErrand.1.filterMap (fun t => (t.carried? 0).bind fun (_, x) => x.reply?) =
      [.subscribed [taskUpdates], .unsubscribed [taskUpdates]] ∧
    ranErrand.1.filterMap (fun t => t.looked?.map fun (_, _, b) => b) = [true, false] ∧
    ranErrand.2.hub.service.members.counters.filtered = 1 ∧
    (ranErrand.2.hub.service.members.room.get 0).mailbox.queue.length = 3 :=
  ⟨(run_trace trace_errand).inForce ⟨_, _, _, _, _, rfl⟩, by decide +kernel⟩

end Grain

end PushHub
