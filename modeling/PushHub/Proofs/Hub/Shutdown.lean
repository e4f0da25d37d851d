import PushHub.Proofs.Hub.Enrolment
import PushHub.Proofs.Registry.Shutdown

/-! A hub whose registry is shut down greets nobody any more whose registration is handled from then
on: it is refused, and no registration is handled twice. -/
namespace PushHub

open Registry (Handle Service Queued Command Membership)

namespace Hub

section

variable {start h : Hub} {before after : List Moment} {t : Moment} {c : Handle} {i : Nat}

theorem Acts.stopped {h' : Hub} {a : Action} (ha : h.Acts a h') (hs : h.service.members.Stopped) :
    h'.service.members.Stopped := by
  cases ha with
  | served q rest hq =>
    show h.service.serve.members.Stopped
    rw [Service.members_serve hq]
    exact (hs.rests (Membership.handles_handle _ q.command)).stopped
  | worked i m s s' v hi hw => cases hw <;> exact ⟨hs.empty, hs.stopped⟩
  | _ => exact ⟨hs.empty, hs.stopped⟩

theorem Run.stopped (hr : Run start (before ++ t :: after) h) (hs : start.Fresh)
    {ticket : Option Nat} (ht : t.serves? = some ⟨.shutdown, ticket⟩) :
    h.service.members.Stopped := by
  have hafter : t.after.service.members.Stopped := by
    obtain ⟨rest, hq, hafter⟩ := after_of_serves hr.split.2 ht
    rw [hafter]
    show t.before.service.serve.members.Stopped
    rw [Service.members_serve hq]
    exact Membership.stopped_shutdown _
  exact hr.since (P := (·.service.members.Stopped)) hafter fun _ _ _ _ hrun hact hp =>
    (acts_of_act (hrun.ledger hs).running hact).stopped hp

theorem Moment.Grants.not_stopped {t : Moment} (hg : t.Grants i c) :
    ¬t.before.service.members.Stopped := by
  intro hs
  obtain ⟨r, hr⟩ := hg.granted
  have hrefused := ((hs.rests (Membership.handles_handle _ (.register c))).refused c rfl).1
  cases hr.symm.trans hrefused

theorem Run.ungreeted (hr : Run start (before ++ t :: after) h) (hs : start.Fresh)
    {ticket : Option Nat} (ht : t.serves? = some ⟨.shutdown, ticket⟩) {t' : Moment}
    (ht' : t' ∈ after) (hc : t'.serves? = some ⟨.register c, some i⟩) :
    ∀ u ∈ before ++ t :: after, ∀ v, u.utters? i ≠ some (.control (.authSuccess v)) := by
  intro u hu v hsays
  have hregisters : t'.registers? = some c := Moment.registers?_of_serves hc
  obtain ⟨first, rest, hfirst⟩ := List.append_of_mem hu
  obtain ⟨d, hd, -, g, hg, hgrants, -⟩ := (hfirst ▸ hr).greeted hs hsays
  have hd' : (i, d) ∈ connections (before ++ t :: after) :=
    hfirst ▸ mem_connections_append hd (u :: rest)
  have hg' : g ∈ before ++ t :: after := hfirst ▸ List.mem_append_left _ hg
  -- The session that is greeted is the one that asked for this registration.
  obtain rfl : d = c := (hr.ledger hs).eq_of_session hd'
    (hr.connection_of_served hs (List.mem_append_right before (List.mem_cons_of_mem t ht')) hc)
  rcases List.mem_append.mp hg' with hearly | hlate
  · obtain ⟨first', rest', rfl⟩ := List.append_of_mem hearly
    rw [List.append_assoc, List.cons_append] at hr
    refine hr.registered_once hs hgrants.registers? t' ?_ hregisters
    exact List.mem_append_right _ (List.mem_cons_of_mem t ht')
  · rcases List.mem_cons.mp hlate with rfl | hlater
    · cases ht.symm.trans hgrants.serves?
    · obtain ⟨middle, rest', rfl⟩ := List.append_of_mem hlater
      rw [← List.cons_append, ← List.append_assoc] at hr
      exact hgrants.not_stopped (hr.split.1.stopped hs ht)

end

end Hub

/-! ## For good -/

/-- Nothing ends a shutdown: the registry has no entry from then on, and the hub greets nobody whose
registration is handled later. -/
theorem shutdown_absorbing :
    (∀ {max : Nat} {room : Registry.Mailroom} {before after : List Registry.Moment}
      {t : Registry.Moment} {m : Membership},
      Registry.Course (.vacant max room) (before ++ t :: after) m →
      t.action = .command .shutdown → Registry.ShutDown before t after m) ∧
    (∀ {start h : Hub} {before after : List Hub.Moment} {t : Hub.Moment} {ticket : Option Nat},
      Hub.Run start (before ++ t :: after) h → start.Fresh →
      t.serves? = some ⟨.shutdown, ticket⟩ →
      ∀ t' ∈ after, ∀ i c, t'.serves? = some ⟨.register c, some i⟩ →
      ∀ u ∈ before ++ t :: after, ∀ v, u.utters? i ≠ some (.control (.authSuccess v))) :=
  ⟨Registry.Course.shutDown, fun hr hs ht _ ht' _ _ hc => hr.ungreeted hs ht ht' hc⟩

namespace Registry

def hall : Membership := .vacant 4 (List.replicate 3 ⟨.create 2, .empty none⟩)

/-- Two users come, and one of them is superseded before the registry is shut down. -/
def crowd : List Action :=
  [.command (.register ⟨⟨1⟩, ⟨31, by decide⟩, 0⟩), .command (.register ⟨⟨2⟩, ⟨32, by decide⟩, 1⟩),
    .command (.register ⟨⟨3⟩, ⟨31, by decide⟩, 2⟩)]

def latecomers : List Action :=
  [.command (.register ⟨⟨1⟩, ⟨31, by decide⟩, 0⟩), .command (.dispatch ⟨.all, "note", .null, []⟩),
    .command .sweep, .command (.unregister ⟨⟨2⟩, ⟨32, by decide⟩, 1⟩), .command .shutdown]

end Registry

namespace Hub

/-- A user is admitted before the hub is told to stop. Another one's registration is queued by then,
and is handled afterwards. -/
def lastCall : List Action :=
  let line : Line := ⟨.pipe (.create 8), {}⟩
  [.register ⟨31, by decide⟩ line, .move (.admission 0), .move .serve, .move (.admission 0),
    .move (.admission 0), .register ⟨32, by decide⟩ line, .ask .shutdown, .move (.admission 1),
    .move .serve, .move .serve, .move (.admission 1), .move (.admission 1)]

theorem lastCall_runs : (plain.trace lastCall).isSome = true := by decide +kernel

def calledLast : List Moment × Hub := (plain.trace lastCall).get lastCall_runs

theorem trace_lastCall : plain.trace lastCall = some calledLast :=
  (Option.some_get lastCall_runs).symm

end Hub

theorem shutdown_absorbing_crowd :
    (let t : Registry.Moment := ⟨Registry.hall.run Registry.crowd, .command .shutdown⟩;
      Registry.ShutDown (Registry.trail Registry.hall Registry.crowd) t
        (Registry.trail t.after Registry.latecomers) (t.after.run Registry.latecomers)) ∧
    (∀ u ∈ Hub.calledLast.1, ∀ v, u.utters? 1 ≠ some (.control (.authSuccess v))) ∧
    Hub.uttered Hub.calledLast.1 0 = [.control (.authSuccess ⟨31, by decide⟩)] ∧
    Hub.uttered Hub.calledLast.1 1 = [.control (.authFailed "registry is shutting down")] := by
  refine ⟨?_, ?_, by decide +kernel, by decide +kernel⟩
  · have hc := Registry.Course.ofTrail Registry.hall
      (Registry.crowd ++ .command .shutdown :: Registry.latecomers)
    exact shutdown_absorbing.1 hc rfl
  · have hlater : Hub.calledLast.1[9] ∈ Hub.calledLast.1.drop 9 := by
      rw [List.drop_eq_getElem_cons]
      exact List.mem_cons_self
    have hsplit : Hub.calledLast.1 =
        Hub.calledLast.1.take 8 ++ Hub.calledLast.1[8] :: Hub.calledLast.1.drop 9 := by
      rw [List.getElem_cons_drop, List.take_append_drop]
    have hr := Hub.run_trace Hub.trace_lastCall
    rw [hsplit] at hr ⊢
    exact shutdown_absorbing.2 hr ⟨_, _, _, _, _, rfl⟩ rfl _ hlater 1 ⟨⟨2⟩, ⟨32, by decide⟩, 1⟩ rfl

/-- Of two connections with one number the second is never registered, but it can have the first
removed. No shutdown finds the first one then, and its mailbox stays open. -/
theorem not_all_closed_of_shutdown :
    ¬∀ (max : Nat) (room : Registry.Mailroom) (before after : List Registry.Moment)
      (t : Registry.Moment) (m : Membership),
      Registry.Course (.vacant max room) (before ++ t :: after) m →
      t.action = .command .shutdown →
      ∀ h, (∃ s ∈ before ++ t :: after, s.Grants h) → m.isClosed h = true := by
  intro hall
  let first : Handle := ⟨⟨1⟩, ⟨31, by decide⟩, 0⟩
  let second : Handle := ⟨⟨1⟩, ⟨31, by decide⟩, 1⟩
  let begun : List Registry.Action := [.command (.register first), .command (.unregister second)]
  have hc := Registry.Course.ofTrail Registry.hall (begun ++ [.command .shutdown])
  have hgrants : (⟨Registry.hall, .command (.register first)⟩ : Registry.Moment).Grants first :=
    ⟨rfl, .new, rfl⟩
  have hclosed := hall _ _ (Registry.trail Registry.hall begun) []
    ⟨Registry.hall.run begun, .command .shutdown⟩ _ hc rfl first
    ⟨_, List.mem_cons_self, hgrants⟩
  revert hclosed
  decide

end PushHub
