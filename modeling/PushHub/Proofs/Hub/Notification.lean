import PushHub.Proofs.Event
import PushHub.Proofs.Hub.Conveyance

/-! Notifications with agreed field names, from the publisher to the connections that are to have them.
Each kind goes to the followers of a channel of its own, and what such a connection gets is read back as
what was published. -/
namespace PushHub

open Registry (Handle Membership Endpoint Service)

/-! ## The kinds of notifications -/

inductive Notification
  | taskUpdate (u : UserId) (t : TaskUpdate)
  | accountStatusChange (u : UserId) (a : AccountStatusChange)
  | systemNotice (n : SystemNotice)

namespace Notification

def request : Notification → DispatchRequest
  | .taskUpdate u t => .taskUpdate u t
  | .accountStatusChange u a => .accountStatusChange u a
  | .systemNotice n => .systemNotice n

/-- The user whom a notification is for; none when it is for everybody. -/
def user? : Notification → Option UserId
  | .taskUpdate u _ => some u
  | .accountStatusChange u _ => some u
  | .systemNotice _ => none

def channel : Notification → ChannelName
  | .taskUpdate .. => taskUpdates
  | .accountStatusChange .. => accountStatus
  | .systemNotice _ => systemNotices

def eventType : Notification → String
  | .taskUpdate .. => TaskUpdate.eventType
  | .accountStatusChange .. => AccountStatusChange.eventType
  | .systemNotice _ => SystemNotice.eventType

def Reads (data : Json) : Notification → Prop
  | .taskUpdate _ t => Json.decodeValue TaskUpdate.decode data = .ok t
  | .accountStatusChange _ a => Json.decodeValue AccountStatusChange.decode data = .ok a
  | .systemNotice n => Json.decodeValue SystemNotice.decode data = .ok n

variable (n : Notification)

theorem channels_request : n.request.channels = [n.channel] := by
  cases n <;> rfl

theorem mem_target {c : Handle} :
    (n.request.target = .all ∨ n.request.target = .user c.user) ↔ ∀ u, n.user? = some u → c.user = u := by
  cases n <;> simp [request, user?, DispatchRequest.taskUpdate, DispatchRequest.accountStatusChange,
    DispatchRequest.systemNotice, DispatchRequest.toUser, DispatchRequest.broadcast,
    DispatchRequest.withChannels, eq_comm]

/-- The text that goes out is that of an envelope with the type of its kind, whose data is read as what
was published. -/
theorem exists_envelope : ∃ text data, Membership.frameOf n.request = .text text ∧
    Envelope.parse text = .ok ⟨n.eventType, data⟩ ∧ n.Reads data := by
  cases n with
  | taskUpdate u t =>
    exact ⟨_, _, rfl, Envelope.parse_render (TaskUpdate.readsBack.plain t),
      TaskUpdate.readsBack.read t⟩
  | accountStatusChange u a =>
    exact ⟨_, _, rfl, Envelope.parse_render (AccountStatusChange.readsBack.plain a),
      AccountStatusChange.readsBack.read a⟩
  | systemNotice n =>
    exact ⟨_, _, rfl, Envelope.parse_render (SystemNotice.readsBack.plain n),
      SystemNotice.readsBack.read n⟩

end Notification

/-! ## Who gets them -/

theorem Registry.Endpoint.fate_eq_delivered {e : Endpoint} {c : ChannelName} :
    e.fate [c] = .delivered ↔
      c ∈ e.published.channels ∧ e.mailbox.isClosed = false ∧ e.mailbox.isFull = false := by
  unfold Endpoint.fate
  by_cases hc : c ∈ e.published.channels
  · rw [if_neg (by simpa using hc)]
    cases e.mailbox.isClosed <;> cases e.mailbox.isFull <;> simp [hc]
  · rw [if_pos (by simpa using hc)]
    simp [hc]

namespace Hub

variable {start h : Hub} {ms : List Moment} {n : Notification} {c : Handle}

def notify (h : Hub) (n : Notification) : Hub × Except DispatchError Unit := h.dispatch n.request

/-- A connection is to have a notification: the registry has it, it is meant and follows the channel, and
its mailbox is open and has room. -/
structure Reaches (h : Hub) (n : Notification) (c : Handle) : Prop where
  listed : c ∈ h.service.members.entries
  meant : ∀ u, n.user? = some u → c.user = u
  follows : n.channel ∈ (h.service.members.room.get c.endpoint).published.channels
  isOpen : (h.mailbox c.endpoint).isClosed = false
  hasRoom : (h.mailbox c.endpoint).isFull = false

theorem reaches_iff (hk : h.service.members.Keyed) : h.Reaches n c ↔
    c ∈ h.service.members.recipients n.request.target ∧
      h.service.members.fate n.request c = .delivered := by
  unfold Membership.fate
  rw [hk.mem_recipients, n.mem_target, n.channels_request, Endpoint.fate_eq_delivered]
  constructor
  · intro hr
    exact ⟨⟨hr.listed, hr.meant⟩, hr.follows, hr.isOpen, hr.hasRoom⟩
  · rintro ⟨⟨hlisted, hmeant⟩, hfollows, hopen, hroom⟩
    exact ⟨hlisted, hmeant, hfollows, hopen, hroom⟩

/-- What becomes of notifications that are published from a hub on. -/
structure Notifies (start : Hub) (ms : List Moment) (h : Hub) : Prop where
  accepted : ∀ n, h.service.hasRoom = true → ∃ h', h.notify n = (h', .ok ()) ∧
    h'.service.queue = h.service.queue ++ [⟨.dispatch n.request, none⟩] ∧
    Run start (ms ++ [⟨h, .dispatch n.request, h'⟩]) h' ∧
    ∀ more last, Run start (ms ++ ⟨h, .dispatch n.request, h'⟩ :: more) last →
      last.service.queue = [] → ∃ t ∈ more, t.handled? = some n.request
  reached : ∀ t ∈ ms, ∀ n, t.handled? = some n.request → ∀ c, t.before.Reaches n c →
    ∃ text data, t.events c.endpoint = [.text text] ∧
      Envelope.parse text = .ok ⟨n.eventType, data⟩ ∧ n.Reads data
  missed : ∀ t ∈ ms, ∀ n, t.handled? = some n.request → ∀ i c, (i, c) ∈ connections ms →
    ¬t.before.Reaches n c → t.events c.endpoint = []

theorem Run.events_of_notification {before after : List Moment} {t : Moment} {i : Nat}
    (hr : Run start (before ++ t :: after) h) (hs : start.Fresh)
    (ht : t.handled? = some n.request) (hc : (i, c) ∈ connections (before ++ t :: after)) :
    (t.before.Reaches n c → t.events c.endpoint = [Membership.frameOf n.request]) ∧
      (¬t.before.Reaches n c → t.events c.endpoint = []) := by
  have hl := (hr.moment hs).1
  rw [hr.events_eq hs hc, reaches_iff hl.keyed]
  unfold Moment.event?
  rw [ht, Option.bind_some]
  constructor
  · intro hreach
    rw [if_pos hreach]
    rfl
  · intro hmiss
    rw [if_neg hmiss]
    rfl

theorem Run.handles {last h' : Hub} {more : List Moment} {r : DispatchRequest}
    (hr : Run start (ms ++ ⟨h, .dispatch r, h'⟩ :: more) last) (hs : start.Fresh)
    (hok : (h.dispatch r).2 = .ok ()) (hempty : last.service.queue = []) :
    ∃ t ∈ more, t.handled? = some r := by
  have hbefore := hr.split.1.balance hs
  have hafter := hr.balance hs
  have hsubmitted : Moment.submitted? ⟨h, .dispatch r, h'⟩ = some r := by
    simp [Moment.submitted?, hok]
  have hhandled : Moment.handled? ⟨h, .dispatch r, h'⟩ = none := rfl
  unfold Hub.submitted Hub.handled at hbefore hafter
  rw [List.filterMap_append, List.filterMap_append, List.filterMap_cons_some hsubmitted,
    List.filterMap_cons_none hhandled, hbefore, Service.pending_eq_nil hempty, List.append_nil,
    List.append_assoc] at hafter
  have hmem : r ∈ more.filterMap Moment.handled? := by
    rw [← List.append_cancel_left hafter]
    exact List.mem_append_right _ List.mem_cons_self
  exact List.mem_filterMap.mp hmem

theorem Run.notifies (hr : Run start ms h) (hs : start.Fresh) : Notifies start ms h where
  accepted n hroom := by
    have hrunning := (hr.ledger hs).running
    have hdispatch : h.dispatch n.request =
        ({ h with service := h.service.enqueue (.dispatch n.request) none }, .ok ()) := by
      simp [dispatch, Service.tryDispatch, hrunning, hroom, Except.mapError]
    exact ⟨_, hdispatch, rfl, hr.snoc (congrArg some (congrArg Prod.fst hdispatch)),
      fun more last hlast hempty => hlast.handles hs (congrArg Prod.snd hdispatch) hempty⟩
  reached t ht n hhandled c hreach := by
    obtain ⟨before, after, rfl⟩ := List.append_of_mem ht
    obtain ⟨i, hi⟩ := (hr.moment hs).1.listed c hreach.listed
    obtain ⟨text, data, hframe, hparse, hreads⟩ := n.exists_envelope
    refine ⟨text, data, ?_, hparse, hreads⟩
    rw [← hframe]
    exact (hr.events_of_notification hs hhandled (mem_connections_append hi _)).1 hreach
  missed t ht n hhandled i c hc hmiss := by
    obtain ⟨before, after, rfl⟩ := List.append_of_mem ht
    exact (hr.events_of_notification hs hhandled hc).2 hmiss

def onlooker : UserId := ⟨61, by decide⟩

/-- A task that has just begun; its message is there and empty. -/
def begun : Notification := .taskUpdate known ⟨7, "running", some 0, some ""⟩

def maintenance : Notification := .systemNotice ⟨.warning, "Maintenance", "Back in 5 minutes"⟩

def bulletin : List Action :=
  let line : Line := ⟨.pipe (.create 8), {}⟩
  let follow (channel : String) : Frame :=
    .text ("\x7b\"type\":\"subscribe\",\"data\":\x7b\"channels\":[\"" ++ channel ++ "\"]\x7d\x7d")
  [.register known line, .move (.admission 0), .move .serve, .move (.admission 0),
    .move (.admission 0), .client 0 (.send (follow "task_updates")), .move (.inbound 0),
    .register onlooker line, .move (.admission 1), .move .serve, .move (.admission 1),
    .move (.admission 1), .client 1 (.send (follow "system_notices")), .move (.inbound 1),
    .dispatch begun.request, .dispatch maintenance.request, .move .serve, .move .serve]

theorem bulletin_runs : (plain.trace bulletin).isSome = true := by decide +kernel

def posted : List Moment × Hub := (plain.trace bulletin).get bulletin_runs

theorem trace_bulletin : plain.trace bulletin = some posted :=
  (Option.some_get bulletin_runs).symm

theorem posted_notifies : Notifies plain posted.1 posted.2 ∧ posted.2.service.hasRoom = true ∧
    (handled posted.1).map DispatchRequest.messageType = ["task_update", "system_notice"] ∧
    (posted.1.flatMap fun t => t.events 0) = [Membership.frameOf begun.request] ∧
    (posted.1.flatMap fun t => t.events 1) = [Membership.frameOf maintenance.request] :=
  ⟨(run_trace trace_bulletin).notifies ⟨_, _, _, _, _, rfl⟩, by decide +kernel, by decide +kernel,
    by decide +kernel, by decide +kernel⟩

end Hub

end PushHub
