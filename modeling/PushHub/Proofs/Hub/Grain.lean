import PushHub.Proofs.Hub.Following
import Mathlib.Logic.Function.Basic
import Mathlib.Logic.Relation

/-! A hub at a finer grain. The loop that reads does what a frame asks for in steps, of which each
publishes once or offers one reply; the registry hands a request round in steps, of which each looks
at what one connection has published, or puts one frame into one mailbox. Anything else may happen
between two of these steps. Whoever takes all steps of a frame or of a request at once gets to where
the hub gets by one move. -/
namespace PushHub

open Registry (Handle Service Queued Command Membership Mailroom Event Window)

theorem Registry.Window.push_push (w : Window) (a b : List Event) :
    (w.push a).push b = w.push (a ++ b) := by
  have hle : (w.unread ++ a).length - w.capacity ≤ (w.unread ++ a).length := Nat.sub_le _ _
  simp only [push, Window.mk.injEq, true_and]
  rw [← List.drop_append_of_le_length hle, List.drop_drop, ← List.append_assoc]
  simp only [List.length_append, List.length_drop]
  constructor
  · congr 1
    omega
  · omega

/-- One thing that is still to be done about a request of a client. -/
abbrev Task := ClientFrame × Reaction

structure Round where
  request : DispatchRequest
  current : Handle
  /-- The current connection was looked at and is to have the request. -/
  chosen : Bool
  ahead : List Handle

def Round.onward (r : DispatchRequest) : List Handle → Option Round
  | [] => none
  | c :: ahead => some ⟨r, c, false, ahead⟩

/-- A hub of which loops may be in the midst of a frame, and the registry in the midst of a
request. -/
structure Grain where
  hub : Hub
  tasks : Nat → List Task
  round : Option Round

inductive Deed
  | whole (a : Hub.Action)
  | hear (i : Nat)
  | carry (i : Nat)
  | commence
  | look
  | put

def Deed.ofRegistry : Deed → Bool
  | .commence => true
  | .look => true
  | .put => true
  | _ => false

/-- What session `i` has to do about a frame, once for the request that it makes. -/
def Session.tasks (e : Surroundings) (room : Mailroom) (s : Session) (m : Move) (f : Frame) :
    List Task :=
  match f.request? e.settings.maxMessageBytes with
  | some r => (s.reacts e room m).map (Prod.mk r)
  | none => []

def Hub.withService (h : Hub) (v : Service) : Hub := { h with service := v }

namespace Grain

def rest (h : Hub) : Grain := ⟨h, fun _ => [], none⟩

/-- Actions that are not taken as a whole: what a loop does about a frame, and what the registry does
about a request. Neither does anything else until it is through. -/
def splits (g : Grain) : Hub.Action → Bool
  | .move .serve => g.round.isSome || (g.hub.service.queue.head?.bind (·.command.request?)).isSome
  | .move (.inbound i) => !(g.tasks i).isEmpty ||
    (g.hub.sessions[i]?.bind (·.hears? g.hub.service.members.room (.inbound i))).isSome
  | _ => false

def act (g : Grain) : Deed → Option Grain
  | .whole a => if g.splits a then none else (g.hub.act a).map fun h => { g with hub := h }
  | .hear i =>
    match g.hub.sessions[i]?, g.tasks i with
    | some s, [] =>
      (s.hears? g.hub.service.members.room (.inbound i)).bind fun f =>
        (g.hub.act (.move (.inbound i))).map fun h =>
          ⟨h.withService g.hub.service, Function.update g.tasks i
            (s.tasks g.hub.surroundings g.hub.service.members.room (.inbound i) f), g.round⟩
    | _, _ => none
  | .carry i =>
    match (g.hub.sessions[i]?).map Session.phase, g.tasks i with
    | some (.admitted c _ _), (_, x) :: left =>
      let v := g.hub.service.withRoom fun room => Inbound.perform c.endpoint room x
      some ⟨g.hub.withService v, Function.update g.tasks i left, g.round⟩
    | _, _ => none
  | .commence =>
    match g.round, g.hub.service.queue with
    | none, ⟨.dispatch r, _⟩ :: left =>
      let m := g.hub.service.members
      let v := { g.hub.service with members := m.counted, queue := left }
      some ⟨g.hub.withService v, g.tasks, Round.onward r (m.recipients r.target)⟩
    | _, _ => none
  | .look =>
    match g.round with
    | some ⟨r, c, false, ahead⟩ =>
      let m := g.hub.service.members
      if m.admits c r.channels then some { g with round := some ⟨r, c, true, ahead⟩ }
      else
        let v := { g.hub.service with
          members := { m with counters.filtered := m.counters.filtered + 1 } }
        some ⟨g.hub.withService v, g.tasks, Round.onward r ahead⟩
    | _ => none
  | .put =>
    match g.round with
    | some ⟨r, c, true, ahead⟩ =>
      let o := g.hub.service.members.deliver c r.messageType (Membership.frameOf r)
      let v := { g.hub.service with
        members := o.state
        window := g.hub.service.window.push o.events }
      some ⟨g.hub.withService v, g.tasks, Round.onward r ahead⟩
    | _ => none

/-! ## All steps at once -/

def Leads : Grain → Grain → Prop := Relation.ReflTransGen fun g g' => ∃ d, g.act d = some g'

namespace Leads

theorem refl (g : Grain) : Leads g g := Relation.ReflTransGen.refl

theorem single {g g' : Grain} {d : Deed} (h : g.act d = some g') : Leads g g' :=
  Relation.ReflTransGen.single ⟨d, h⟩

theorem trans {g k l : Grain} (h : Leads g k) (h' : Leads k l) : Leads g l :=
  Relation.ReflTransGen.trans h h'

end Leads

section

variable {h h' : Hub} {i : Nat} {s : Session} {c : Handle} {f : Frame} {r : DispatchRequest}

theorem leads_carry {inbound : Inbound} {outbound : Outbound} (g : Grain)
    (hi : (g.hub.sessions[i]?).map Session.phase = some (.admitted c inbound outbound)) :
    Leads g ⟨g.hub.withService (g.hub.service.withRoom fun room =>
      ((g.tasks i).map Prod.snd).foldl (Inbound.perform c.endpoint) room),
      Function.update g.tasks i [], g.round⟩ := by
  generalize hts : g.tasks i = ts
  induction ts generalizing g with
  | nil =>
    have hsame : Function.update g.tasks i [] = g.tasks := hts ▸ Function.update_eq_self i g.tasks
    rw [hsame]
    exact .refl g
  | cons t left ih =>
    let v := g.hub.service.withRoom fun room => Inbound.perform c.endpoint room t.2
    have hstep : g.act (.carry i) =
        some ⟨g.hub.withService v, Function.update g.tasks i left, g.round⟩ := by
      simp only [act, hi, hts, v]
    have hrest := ih ⟨g.hub.withService v, Function.update g.tasks i left, g.round⟩ hi
      (Function.update_self i left g.tasks)
    rw [Function.update_idem] at hrest
    exact (Leads.single hstep).trans hrest

theorem map_snd_tasks {e : Surroundings} {room : Mailroom} {m : Move} {deadline : Nat}
    {followed : SubscriptionSet} {outbound : Outbound}
    (hp : s.phase = .admitted c (.running deadline followed) outbound)
    (hf : s.hears? room m = some f) :
    (s.tasks e room m f).map Prod.snd = (Inbound.handleFrame e followed f).2 := by
  unfold Session.tasks
  rw [Session.reacts_of_some hp hf]
  cases hr : f.request? e.settings.maxMessageBytes with
  | none => rw [Inbound.handleFrame_of_none followed hr]; rfl
  | some r =>
    dsimp only
    rw [List.map_map]
    exact List.map_id _

theorem leads_inbound (hv : h.service.running = true) (hi : h.sessions[i]? = some s)
    (hf : s.hears? h.service.members.room (.inbound i) = some f)
    (ha : h.act (.move (.inbound i)) = some h') : Leads (rest h) (rest h') := by
  have hstep : (rest h).act (.hear i) = some ⟨h'.withService h.service,
      Function.update (fun _ => []) i
        (s.tasks h.surroundings h.service.members.room (.inbound i) f), none⟩ := by
    simp only [act, rest, hi, hf, ha, Option.bind_some, Option.map_some]
  have hm : (Move.inbound i).session? = some i := rfl
  obtain ⟨s₀, d, s', hi₀, hmove, hh'⟩ := (Hub.move_eq_some hm).mp ha
  cases hi.symm.trans hi₀
  have hi' := Hub.getElem?_setSession { h with service := d.service, nextId := d.nextId } s' hi i
  rw [if_pos rfl, ← hh'] at hi'
  cases Session.minds_of_move hv hm hmove with
  | heard c deadline followed outbound f' hp hf' hv' hp' =>
    cases hf.symm.trans hf'
    have hphase : ∃ inbound', s'.phase = .admitted c inbound' outbound := by
      rcases hp' with ⟨-, hp'⟩ | hp' <;> exact ⟨_, hp'⟩
    obtain ⟨inbound', hphase⟩ := hphase
    have hat : ((h'.withService h.service).sessions[i]?).map Session.phase =
        some (.admitted c inbound' outbound) := by
      show (h'.sessions[i]?).map Session.phase = _
      rw [hi', Option.map_some, hphase]
    refine (Leads.single hstep).trans ?_
    have hrest := leads_carry ⟨h'.withService h.service, Function.update (fun _ => []) i
      (s.tasks h.surroundings h.service.members.room (.inbound i) f), none⟩ hat
    have hservice : h.service.withRoom (fun room => (((s.tasks h.surroundings
        h.service.members.room (.inbound i) f).map Prod.snd).foldl
          (Inbound.perform c.endpoint) room)) = h'.service := by
      rw [map_snd_tasks hp hf, hh']
      exact hv'.symm
    dsimp only at hrest
    rw [Function.update_self, Function.update_idem] at hrest
    -- Once all is carried out the loop has nothing left to do, as before.
    have hempty : Function.update (fun _ => []) i [] = fun _ : Nat => ([] : List Task) :=
      Function.update_eq_self i _
    rw [hempty] at hrest
    have hend := hservice ▸ hrest
    exact hend
  | greeted c deadline deadline' outbound hp hf' => cases hf.symm.trans hf'
  | other hf' => cases hf.symm.trans hf'

theorem leads_round (g : Grain) (hs : List Handle) (hround : g.round = Round.onward r hs)
    (hwindow : g.hub.service.window.push [] = g.hub.service.window) :
    Leads g ⟨g.hub.withService { g.hub.service with
      members := (g.hub.service.members.offerAll r (Membership.frameOf r) hs).state
      window := g.hub.service.window.push
        (g.hub.service.members.offerAll r (Membership.frameOf r) hs).events }, g.tasks, none⟩ := by
  induction hs generalizing g with
  | nil =>
    have hsame : g = ⟨g.hub.withService { g.hub.service with
        members := g.hub.service.members
        window := g.hub.service.window.push [] }, g.tasks, none⟩ := by
      rw [hwindow]
      obtain ⟨hub, tasks, round⟩ := g
      cases hround
      rfl
    have := Leads.refl g
    nth_rewrite 2 [hsame] at this
    exact this
  | cons c ahead ih =>
    let o := g.hub.service.members.offer r (Membership.frameOf r) c
    let v := { g.hub.service with
      members := o.state
      window := g.hub.service.window.push o.events }
    -- A recipient takes two steps, or one if it does not follow what is sent.
    have hnext : Leads g ⟨g.hub.withService v, g.tasks, Round.onward r ahead⟩ := by
      by_cases hadmits : g.hub.service.members.admits c r.channels
      · have ho : o = g.hub.service.members.deliver c r.messageType (Membership.frameOf r) :=
          if_pos hadmits
        have hlook : g.act .look = some { g with round := some ⟨r, c, true, ahead⟩ } := by
          simp only [act, hround, Round.onward, hadmits, if_true]
        have hput : { g with round := some ⟨r, c, true, ahead⟩ : Grain }.act .put =
            some ⟨g.hub.withService v, g.tasks, Round.onward r ahead⟩ := by
          simp only [act, v, ho]
        exact (Leads.single hlook).trans (.single hput)
      · have ho : o = ⟨{ g.hub.service.members with
            counters.filtered := g.hub.service.members.counters.filtered + 1 }, [], none⟩ :=
          if_neg hadmits
        have hlook : g.act .look = some ⟨g.hub.withService v, g.tasks, Round.onward r ahead⟩ := by
          simp only [act, hround, Round.onward, hadmits, v, ho, hwindow]
          rfl
        exact .single hlook
    have hwindow' : v.window.push [] = v.window := by
      show (g.hub.service.window.push o.events).push [] = g.hub.service.window.push o.events
      rw [Registry.Window.push_push, List.append_nil]
    have hrest := ih ⟨g.hub.withService v, g.tasks, Round.onward r ahead⟩ rfl hwindow'
    have hevents : v.window.push (o.state.offerAll r (Membership.frameOf r) ahead).events =
        g.hub.service.window.push
          (g.hub.service.members.offerAll r (Membership.frameOf r) (c :: ahead)).events :=
      Registry.Window.push_push _ _ _
    have hend := hevents ▸ hrest
    exact hnext.trans hend

theorem serve_of_dispatch {v : Service} {ticket : Option Nat} {left : List Queued}
    (hq : v.queue = ⟨.dispatch r, ticket⟩ :: left) : v.serve =
      { v with
        members := (v.members.dispatch r).state
        queue := left
        window := v.window.push (v.members.dispatch r).events } := by
  have hreply : (v.members.dispatch r).reply = none :=
    (Membership.offerAll_frame r (Membership.frameOf r) v.members.counted _).2.2.2.2.2
  unfold Service.serve
  rw [hq]
  simp only [Membership.handle, hreply]

theorem leads_serve {ticket : Option Nat} {left : List Queued}
    (hq : h.service.queue = ⟨.dispatch r, ticket⟩ :: left)
    (hwindow : h.service.window.push [] = h.service.window) :
    Leads (rest h) (rest (h.withService h.service.serve)) := by
  let v := { h.service with members := h.service.members.counted, queue := left }
  let hs := h.service.members.recipients r.target
  have hcommence : (rest h).act .commence =
      some ⟨h.withService v, fun _ => [], Round.onward r hs⟩ := by
    simp only [act, rest, hq, v, hs]
  have hrest := leads_round ⟨h.withService v, fun _ => [], Round.onward r hs⟩ hs rfl hwindow
  refine (Leads.single hcommence).trans ?_
  rw [serve_of_dispatch hq]
  exact hrest

/-- Whatever a hub does at once can be done step by step. -/
theorem leads_act {a : Hub.Action} (hv : h.service.running = true)
    (hwindow : h.service.window.push [] = h.service.window) (ha : h.act a = some h') :
    Leads (rest h) (rest h') := by
  cases hsplits : (rest h).splits a with
  | false =>
    refine Leads.single (d := .whole a) ?_
    simp only [act, hsplits]
    simp [rest, ha]
  | true =>
    cases a with
    | move m =>
      cases m with
      | serve =>
        simp only [Hub.act, Hub.move] at ha
        cases hq : h.service.queue with
        | nil => simp [hq] at ha
        | cons q left =>
          obtain ⟨command, ticket⟩ := q
          simp only [hq, List.isEmpty_cons, Bool.false_eq_true, if_false, Option.some.injEq] at ha
          subst ha
          cases command with
          | dispatch r => exact leads_serve hq hwindow
          | _ => simp [splits, rest, hq, Command.request?] at hsplits
      | inbound i =>
        have hhears : (h.sessions[i]?.bind
            (·.hears? h.service.members.room (.inbound i))).isSome = true := by
          simpa [splits, rest] using hsplits
        obtain ⟨f, hf⟩ := Option.isSome_iff_exists.mp hhears
        obtain ⟨s, hi, hf⟩ := Option.bind_eq_some_iff.mp hf
        exact leads_inbound hv hi hf ha
      | _ => cases hsplits
    | _ => cases hsplits

end

end Grain

theorem Hub.Acts.window {h h' : Hub} {a : Hub.Action} (ha : h.Acts a h')
    (hw : h.service.window.push [] = h.service.window) :
    h'.service.window.push [] = h'.service.window := by
  cases ha with
  | served q rest hq =>
    have hserve : h.service.serve.window =
        h.service.window.push (h.service.members.handle q.command).events := by
      unfold Service.serve
      rw [hq]
    dsimp only
    rw [hserve, Registry.Window.push_push, List.append_nil]
  | worked i m s s' v hs hworks => cases hworks <;> exact hw
  | _ => exact hw

theorem Hub.Run.window {start h : Hub} {ms : List Hub.Moment} (hr : Hub.Run start ms h)
    (hs : start.Fresh) : h.service.window.push [] = h.service.window := by
  induction hr with
  | nil =>
    obtain ⟨settings, registry, verifier, channels, clock, rfl⟩ := hs
    simp [start, Service.start, Registry.Window.create, Registry.Window.push]
  | snoc hr ha ih => exact (acts_of_act (hr.ledger hs).running ha).window ih

theorem Hub.Run.leads {start h : Hub} {ms : List Hub.Moment} (hr : Hub.Run start ms h)
    (hs : start.Fresh) : Grain.Leads (Grain.rest start) (Grain.rest h) := by
  induction hr with
  | nil => exact .refl _
  | snoc hr ha ih => exact ih.trans (Grain.leads_act (hr.ledger hs).running (hr.window hs) ha)

end PushHub
