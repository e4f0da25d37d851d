import PushHub.Proofs.Hub.Ledger

/-! What passes through a hub in a run: requests from publishers to the registry, frames from the
registry and the loops that read into mailboxes, and frames from mailboxes to transports. -/
namespace PushHub

open Registry (Handle Service Queued Command Membership Mailroom)

namespace Registry

def Command.request? : Command → Option DispatchRequest
  | .dispatch r => some r
  | _ => none

def Service.pending (v : Service) : List DispatchRequest :=
  v.queue.filterMap fun q => q.command.request?

theorem Service.pending_eq_nil {v : Service} (hv : v.queue = []) : v.pending = [] := by
  unfold Service.pending
  rw [hv]
  rfl

end Registry

/-- The frame from the mailbox that the loop of a session writes if it gets to move now. -/
def Session.writes? (s : Session) : Option Frame :=
  match s.phase with
  | .admitted _ _ (.writing f false _ _) =>
    match (s.line.send f).2 with
    | .sent => some f
    | _ => none
  | _ => none

namespace Hub

def mailbox (h : Hub) (n : Nat) : Mailbox := h.service.members.room.mailbox n

namespace Moment

variable (t : Moment)

def submitted? : Option DispatchRequest :=
  match t.action with
  | .dispatch r =>
    match (t.before.dispatch r).2 with
    | .ok _ => some r
    | .error _ => none
  | _ => none

def handled? : Option DispatchRequest :=
  match t.action with
  | .move .serve => t.before.service.queue.head?.bind fun q => q.command.request?
  | _ => none

def gained (n : Nat) : List Frame :=
  (t.after.mailbox n).queue.drop (t.before.mailbox n).queue.length

def events (n : Nat) : List Frame :=
  match t.action with
  | .move .serve => t.gained n
  | _ => []

/-- The frame of the request that is handled, for a connection that is to have it. -/
def event? (c : Handle) : Option Frame :=
  t.handled?.bind fun r =>
    if c ∈ t.before.service.members.recipients r.target ∧
      t.before.service.members.fate r c = .delivered
    then some (Membership.frameOf r) else none

def took? (i : Nat) : Option Frame :=
  match t.action with
  | .move (.outbound j) =>
    if j = i then
      match (t.before.sessions[i]?).map Session.phase, (t.after.sessions[i]?).map Session.phase with
      | some (.admitted _ _ (.idle _)), some (.admitted _ _ (.writing f false _ _)) => some f
      | _, _ => none
    else none
  | _ => none

/-- The frame, other than a ping to keep the transport alive, that the loop of session `i` wrote. -/
def wrote? (i : Nat) : Option Frame :=
  match t.action with
  | .move (.outbound j) => if j = i then (t.before.sessions[i]?).bind Session.writes? else none
  | _ => none

end Moment

def submitted (ms : List Moment) : List DispatchRequest := ms.filterMap Moment.submitted?

def handled (ms : List Moment) : List DispatchRequest := ms.filterMap Moment.handled?

def accepted (ms : List Moment) (n : Nat) : List Frame := ms.flatMap (Moment.gained · n)

def written (ms : List Moment) (i : Nat) : List Frame := ms.filterMap (Moment.wrote? · i)

theorem accepted_snoc (ms : List Moment) (t : Moment) (n : Nat) :
    accepted (ms ++ [t]) n = accepted ms n ++ t.gained n := by
  unfold accepted
  simp

theorem written_snoc (ms : List Moment) (t : Moment) (i : Nat) :
    written (ms ++ [t]) i = written ms i ++ (t.wrote? i).toList :=
  filterMap_snoc _ ms t

end Hub

/-! ## Requests -/

theorem Session.Works.part {v v' : Service} {i : Nat} {s s' : Session} {m : Move}
    (hw : s.Works i v m v' s') :
    m = .admission i ∨ m = .inbound i ∨ m = .outbound i ∨ m = .keepalive i := by
  cases hw with
  | left => exact .inr (.inl rfl)
  | heard => exact .inr (.inl rfl)
  | unregistered => exact .inr (.inl rfl)
  | took => exact .inr (.inr (.inl rfl))
  | stopped => exact .inr (.inr (.inl rfl))
  | pinging line h inbound keepalive keepalive' f deadline m hm =>
    rcases hm with rfl | rfl
    · exact .inr (.inr (.inl rfl))
    · exact .inr (.inr (.inr rfl))
  | sent => exact .inr (.inr (.inl rfl))
  | cut => exact .inr (.inr (.inl rfl))
  | closed => exact .inr (.inr (.inl rfl))
  | _ => exact .inl rfl

theorem Confined.pending {i : Nat} {o : Option Handle} {v v' : Service}
    (hc : Confined i o v v') : v'.pending = v.pending := by
  obtain ⟨extra, hq, hown⟩ := hc.queue
  unfold Service.pending
  rw [hq, List.filterMap_append]
  have hnone : extra.filterMap (fun q => q.command.request?) = [] := by
    rw [List.filterMap_eq_nil_iff]
    intro q hmem
    obtain ⟨h, -, rfl | rfl⟩ := hown q hmem <;> rfl
  rw [hnone, List.append_nil]

namespace Registry.Service

theorem pending_enqueue (v : Service) (c : Command) (t : Option Nat) :
    (v.enqueue c t).pending = v.pending ++ c.request?.toList := by
  unfold pending enqueue
  rw [List.filterMap_append]
  cases c <;> rfl

theorem pending_serve {v : Service} {q : Queued} {rest : List Queued} (hq : v.queue = q :: rest) :
    v.pending = q.command.request?.toList ++ v.serve.pending := by
  unfold pending
  rw [queue_serve hq, hq]
  cases hr : q.command.request? <;> simp [hr]

end Registry.Service

namespace Hub

variable {conns : List (Nat × Handle)} {h h' : Hub} {a : Action}

theorem Acts.balance (ha : h.Acts a h') (hl : Ledger conns h) :
    h.service.pending ++ (Moment.submitted? ⟨h, a, h'⟩).toList =
      (Moment.handled? ⟨h, a, h'⟩).toList ++ h'.service.pending := by
  cases ha with
  | served q rest hq =>
    have hh : Moment.handled? ⟨h, .move .serve, { h with service := h.service.serve }⟩ =
        q.command.request? := by
      simp [Moment.handled?, hq]
    rw [hh, show Moment.submitted? _ = none from rfl, Option.toList_none, List.append_nil]
    exact Service.pending_serve hq
  | swept t =>
    refine (Service.pending_enqueue h.service .sweep none).symm
  | worked i m s s' v hs hw =>
    have hp := (hw.confined (hl.fits i s hs)).pending
    have hnone : Moment.handled? ⟨h, .move m, { h with service := v }.setSession i s'⟩ = none := by
      rcases hw.part with rfl | rfl | rfl | rfl <;> rfl
    rw [hnone, show Moment.submitted? _ = none from rfl, Option.toList_none, List.append_nil]
    exact hp.symm
  | dispatched r hr =>
    have hsub : Moment.submitted? ⟨h, .dispatch r,
        { h with service := h.service.enqueue (.dispatch r) none }⟩ = some r := by
      simp [Moment.submitted?, dispatch, Service.tryDispatch, hl.running, hr, Except.mapError]
    rw [hsub]
    exact (Service.pending_enqueue h.service (.dispatch r) none).symm
  | turnedAway r hr =>
    have hsub : Moment.submitted? ⟨h, .dispatch r, h⟩ = none := by
      simp [Moment.submitted?, dispatch, Service.tryDispatch, hl.running, hr, Except.mapError]
    rw [hsub, Option.toList_none, List.append_nil]
    rfl
  | asked q hr =>
    refine Eq.trans ?_ (Service.pending_enqueue h.service q.command none).symm
    cases q <;> rfl
  | _ => exact List.append_nil _

/-- What was accepted so far has been handled, in the order in which it was accepted, or is queued. -/
theorem Run.balance {start h : Hub} {ms : List Moment} (hr : Run start ms h) (hs : start.Fresh) :
    submitted ms = handled ms ++ h.service.pending := by
  induction hr with
  | nil =>
    obtain ⟨settings, registry, verifier, channels, clock, rfl⟩ := hs
    rfl
  | @snoc ms h h' a hr ha ih =>
    have hl := hr.ledger hs
    have hb := (acts_of_act hl.running ha).balance hl
    have hsub : submitted (ms ++ [⟨h, a, h'⟩]) =
        submitted ms ++ (Moment.submitted? ⟨h, a, h'⟩).toList := filterMap_snoc _ ms _
    have hhan : handled (ms ++ [⟨h, a, h'⟩]) =
        handled ms ++ (Moment.handled? ⟨h, a, h'⟩).toList := filterMap_snoc _ ms _
    rw [hsub, hhan, ih, List.append_assoc, hb, List.append_assoc]

theorem Run.drains {start h : Hub} {ms : List Moment} (hr : Run start ms h) :
    ∃ more last, Run start (ms ++ more) last ∧ (∀ t ∈ more, t.action = .move .serve) ∧
      last.service.queue = [] := by
  generalize hn : h.service.queue = queue
  induction queue generalizing ms h with
  | nil => exact ⟨[], h, by simpa using hr, by simp, hn⟩
  | cons q rest ih =>
    have ha : h.act (.move .serve) = some { h with service := h.service.serve } := by
      simp [act, move, hn]
    obtain ⟨more, last, hrun, hserve, hempty⟩ := ih (hr.snoc ha) (Service.queue_serve hn)
    refine ⟨⟨h, .move .serve, { h with service := h.service.serve }⟩ :: more, last, ?_, ?_, hempty⟩
    · rw [List.append_assoc] at hrun
      exact hrun
    · intro t ht
      rcases List.mem_cons.mp ht with rfl | ht
      · rfl
      · exact hserve t ht

theorem Run.split {start h : Hub} {before after : List Moment} {t : Moment}
    (hr : Run start (before ++ t :: after) h) :
    Run start before t.before ∧ t.before.act t.action = some t.after := by
  generalize hms : before ++ t :: after = ms at hr
  induction hr generalizing after with
  | nil => simp at hms
  | @snoc ms h h' a hr ha ih =>
    rcases List.eq_nil_or_concat after with rfl | ⟨init, last, rfl⟩
    · obtain ⟨rfl, heq⟩ := List.append_inj' hms rfl
      cases heq
      exact ⟨hr, ha⟩
    · rw [List.concat_eq_append, ← List.cons_append, ← List.append_assoc] at hms
      obtain ⟨rfl, -⟩ := List.append_inj' hms rfl
      exact ih rfl

theorem Run.moment {start h : Hub} {before after : List Moment} {t : Moment}
    (hr : Run start (before ++ t :: after) h) (hs : start.Fresh) :
    Ledger (connections before) t.before ∧ t.before.Acts t.action t.after := by
  obtain ⟨hbefore, hact⟩ := hr.split
  have hl := hbefore.ledger hs
  exact ⟨hl, acts_of_act hl.running hact⟩

theorem Run.refuses {start h : Hub} {ms : List Moment} (hr : Run start ms h) (hs : start.Fresh)
    {t : Moment} (ht : t ∈ ms) {r : DispatchRequest} (ha : t.action = .dispatch r)
    {e : DispatchError} (he : (t.before.dispatch r).2 = .error e) :
    e = .queueFull ∧ t.after = t.before := by
  obtain ⟨before, after, rfl⟩ := List.append_of_mem ht
  obtain ⟨hl, hacts⟩ := hr.moment hs
  have hrun := hl.running
  rw [ha] at hacts
  generalize t.after = h' at hacts ⊢
  cases hacts with
  | dispatched _ hroom =>
    simp [dispatch, Service.tryDispatch, hrun, hroom, Except.mapError] at he
  | turnedAway _ hroom =>
    simp only [dispatch, Service.tryDispatch, hrun, hroom, Except.mapError] at he
    cases he
    exact ⟨rfl, rfl⟩

/-! ## Frames from the registry -/

/-- A mailbox accepts a frame when a request is handled that its connection is to have, and nothing
from any other command. -/
theorem gained_served {q : Queued} {rest : List Queued} (hl : Ledger conns h)
    (hq : h.service.queue = q :: rest) {c : Handle}
    (hc : ∀ g ∈ h.service.members.entries, g.endpoint = c.endpoint → g = c) :
    Moment.gained ⟨h, .move .serve, { h with service := h.service.serve }⟩ c.endpoint =
      (Moment.event? ⟨h, .move .serve, { h with service := h.service.serve }⟩ c).toList := by
  have hhandled : Moment.handled? ⟨h, .move .serve, { h with service := h.service.serve }⟩ =
      q.command.request? := by
    simp [Moment.handled?, hq]
  unfold Moment.event?
  rw [hhandled]
  unfold Moment.gained mailbox
  dsimp only
  rw [Service.members_serve hq]
  cases hcmd : q.command with
  | dispatch r =>
    show List.drop _ ((h.service.members.dispatch r).state.room.mailbox c.endpoint).queue = _
    unfold Mailroom.mailbox
    rw [Membership.dispatch_eq, Membership.get_offerAll _ _ _ (hl.proper.own_recipients r.target)]
    have hiff : (∃ g ∈ h.service.members.recipients r.target, g.endpoint = c.endpoint ∧
        h.service.members.counted.fate r g = .delivered) ↔
        c ∈ h.service.members.recipients r.target ∧ h.service.members.fate r c = .delivered := by
      constructor
      · rintro ⟨g, hg, heq, hf⟩
        have hgc := hc g ((Membership.mem_recipients hl.proper r.target g).mp hg).1 heq
        subst hgc
        exact ⟨hg, hf⟩
      · rintro ⟨hmem, hf⟩
        exact ⟨c, hmem, rfl, hf⟩
    simp only [hiff, Command.request?, Option.bind_some]
    split
    · exact List.drop_left
    · exact List.drop_length
  | _ =>
    rw [Membership.queue_handle _ (by simp)]
    exact List.drop_length

/-! ## One connection among others -/

/-- An action that no part of session `i` takes leaves the connection of the session to itself, but for
frames that the registry delivers and a close signal that it gives. -/
structure Elsewhere (h : Hub) (a : Action) (h' : Hub) (i : Nat) (c : Handle) : Prop where
  phase : ∀ s, h.sessions[i]? = some s → ∃ s', h'.sessions[i]? = some s' ∧ s'.phase = s.phase
  extends_mailbox : (h.mailbox c.endpoint).Extends (h'.mailbox c.endpoint)
  quiet : a = .move .serve ∨ (h'.mailbox c.endpoint).queue = (h.mailbox c.endpoint).queue
  part : a ≠ .move (.outbound i)

namespace Elsewhere

variable {i : Nat} {c : Handle}

theorem of_same (hs : h'.sessions[i]? = h.sessions[i]?)
    (hm : h'.mailbox c.endpoint = h.mailbox c.endpoint) (ha : a ≠ .move (.outbound i)) :
    Elsewhere h a h' i c where
  phase s hi := ⟨s, hs.trans hi, rfl⟩
  extends_mailbox := hm ▸ .refl _
  quiet := .inr (hm ▸ rfl)
  part := ha

end Elsewhere

theorem Acts.elsewhere_or_own {i : Nat} {c : Handle} (ha : h.Acts a h') (hl : Ledger conns h)
    (hc : (i, c) ∈ conns) :
    Elsewhere h a h' i c ∨ ∃ m s s' v, a = .move m ∧ h' = { h with service := v }.setSession i s' ∧
      h.sessions[i]? = some s ∧ s.Works i h.service m v s' := by
  have hadded (e : Registry.Endpoint) :
      Mailroom.mailbox (h.service.members.room ++ [e]) c.endpoint = h.mailbox c.endpoint :=
    congrArg Registry.Endpoint.mailbox (Mailroom.get_append_of_lt e (hl.lt_length hc))
  cases ha with
  | served q rest hq =>
    refine .inl ⟨fun s hi => ⟨s, hi, rfl⟩, ?_, .inl rfl, nofun⟩
    unfold mailbox
    dsimp only
    rw [Service.members_serve hq]
    exact Membership.extends_handle _ _ _
  | swept t => exact .inl (.of_same rfl rfl nofun)
  | worked j m s s' v hs hw =>
    by_cases hj : i = j
    · subst hj
      exact .inr ⟨m, s, s', v, rfl, rfl, hs, hw⟩
    · -- Another session works at an endpoint of its own.
      left
      refine .of_same ?_ ?_ ?_
      · exact (getElem?_setSession { h with service := v } s' hs i).trans (if_neg hj)
      · refine congrArg Registry.Endpoint.mailbox ?_
        apply (hw.confined (hl.fits j s hs)).elsewhere
        intro d
        exact hl.endpoint_ne hc (Ne.symm hj)
      · rintro heq
        cases heq
        rcases hw.part with h | h | h | h <;> cases h
        exact hj rfl
  | proved j line line' deadline u hs hline =>
    have hj : i ≠ j := by
      rintro rfl
      exact hl.not_mem (hl.fits i _ hs) hc
    left
    refine .of_same ?_ (hadded _) nofun
    exact (getElem?_setSession h.allot _ hs i).trans (if_neg hj)
  | accepted line deadline =>
    exact .inl (.of_same (List.getElem?_append_left (hl.held i c hc)) rfl nofun)
  | registered u line =>
    exact .inl (.of_same (List.getElem?_append_left (hl.held i c hc)) (hadded _) nofun)
  | dispatched r hr => exact .inl (.of_same rfl rfl nofun)
  | turnedAway r hr => exact .inl (.of_same rfl rfl nofun)
  | asked q hr => exact .inl (.of_same rfl rfl nofun)
  | client j a s hs =>
    refine .inl ⟨?_, .refl _, .inr rfl, nofun⟩
    intro t ht
    have hget := getElem?_setSession h { s with line.wire := a.on s.line.wire } hs i
    by_cases hj : i = j
    · subst hj
      rw [hs] at ht
      cases ht
      exact ⟨_, hget.trans (if_pos rfl), rfl⟩
    · exact ⟨t, (hget.trans (if_neg hj)).trans ht, rfl⟩
  | nobody j a hs => exact .inl (.of_same rfl rfl nofun)
  | passed ms clock => exact .inl (.of_same rfl rfl nofun)

theorem Acts.queue_unborn {n : Nat} (ha : h.Acts a h') (hl : Ledger conns h)
    (hn : h.service.members.room.length ≤ n) : (h'.mailbox n).queue = [] := by
  have hnowhere {room : Mailroom} (hr : room.length = h.service.members.room.length) :
      (room.mailbox n).queue = [] := by
    unfold Mailroom.mailbox
    rw [Mailroom.get_of_length_le (hr ▸ hn)]
    rfl
  have hadded : (Mailroom.mailbox (h.service.members.room ++
      [⟨.create h.settings.mailboxCapacity, .empty none⟩]) n).queue = [] := by
    unfold Mailroom.mailbox
    rcases Nat.eq_or_lt_of_le hn with rfl | hlt
    · rw [Mailroom.get_append_length]
      rfl
    · rw [Mailroom.get_of_length_le (by rw [List.length_append]; exact hlt)]
      rfl
  cases ha with
  | served q rest hq =>
    refine hnowhere ?_
    dsimp only
    rw [Service.members_serve hq]
    exact Membership.length_handle _ _
  | worked i m s s' v hs hw => exact hnowhere (hw.confined (hl.fits i s hs)).length
  | proved => exact hadded
  | registered => exact hadded
  | _ => exact hnowhere rfl

end Hub

end PushHub
