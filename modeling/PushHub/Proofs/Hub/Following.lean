import PushHub.Proofs.Hub.Opening
import PushHub.Proofs.Session.Request

/-! What a connection follows is what its client has asked for, frame by frame. The loop that reads
keeps a set of its own and publishes it; both hold the same channels after every frame, and every
answer goes to the mailbox of the connection, in order. -/
namespace PushHub

open Registry (Handle Endpoint Mailroom Membership Service Command)

namespace Registry

theorem Mailroom.published_update (room : Mailroom) (n k : Nat) {f : Endpoint → Endpoint}
    (hf : ∀ e, (f e).published = e.published) :
    ((room.update n f).get k).published = (room.get k).published := by
  rcases get_update_cases room n k f with heq | heq
  · rw [heq]
  · rw [heq, hf]

theorem Membership.published_handle {m : Membership} (hm : m.Proper) (c : Command) (n : Nat) :
    ((m.handle c).state.room.get n).published = (m.room.get n).published := by
  have hclose (m : Membership) (g : Handle) :
      ((m.close g).room.get n).published = (m.room.get n).published :=
    Mailroom.published_update m.room g.endpoint n fun _ => rfl
  have ho := m.handles_handle c
  generalize m.handle c = o at ho
  cases ho with
  | late g hs => exact hclose m g
  | superseded g current hs hf hid => exact hclose (m.insert g) current
  | removed g current hf hid => exact hclose m g
  | stale g hf => exact hclose m g
  | dispatched r => exact (get_dispatch_standing hm r n).2
  | ended =>
    show (Mailroom.get (m.entries.foldl (fun room h => room.close h.endpoint) m.room) n).published = _
    rw [Mailroom.get_closeAll]
    split <;> rfl
  | _ => rfl

end Registry

/-- The connection whose client may ask for channels, and the set that its loop goes by. -/
def Phase.kept? : Phase → Option (Handle × SubscriptionSet)
  | .admitted c (.running _ followed) _ => some (c, followed)
  | _ => none

theorem Phase.eq_of_kept {p : Phase} {c : Handle} {followed : SubscriptionSet}
    (hp : p.kept? = some (c, followed)) :
    ∃ deadline outbound, p = .admitted c (.running deadline followed) outbound := by
  cases p with
  | admitted d inbound outbound =>
    cases inbound with
    | running deadline kept =>
      cases hp
      exact ⟨deadline, outbound, rfl⟩
    | _ => cases hp
  | _ => cases hp

def Phase.isAdmitted : Phase → Bool
  | .admitted .. => true
  | _ => false

namespace Session

/-- The frame that the loop of a session takes up, unless its mailbox is closed. -/
def hears? (room : Mailroom) (s : Session) : Move → Option Frame
  | .inbound _ =>
    match s.phase, s.line.receive.2 with
    | .admitted c (.running _ _) _, .frame f =>
      if (room.mailbox c.endpoint).signalled then none else some f
    | _, _ => none
  | _ => none

def reacts (e : Surroundings) (room : Mailroom) (s : Session) (m : Move) : List Reaction :=
  match s.phase, s.hears? room m with
  | .admitted _ (.running _ followed) _, some f => (Inbound.handleFrame e followed f).2
  | _, _ => []

/-- What a move means for the channels that the client follows. -/
inductive Minds (e : Surroundings) (v : Service) (s : Session) (m : Move) (v' : Service)
    (s' : Session) : Prop
  | heard (c : Handle) (deadline : Nat) (followed : SubscriptionSet) (outbound : Outbound) (f : Frame)
      (hp : s.phase = .admitted c (.running deadline followed) outbound)
      (hf : s.hears? v.members.room m = some f)
      (hv : v' = v.withRoom fun room =>
        (Inbound.handleFrame e followed f).2.foldl (Inbound.perform c.endpoint) room)
      (hp' : f = .close ∧ s'.phase = .admitted c (.leaving .peerClosed) outbound ∨
        s'.phase = .admitted c
          (.running (e.now + e.settings.pongWait) (Inbound.handleFrame e followed f).1) outbound)
  | greeted (c : Handle) (deadline deadline' : Nat) (outbound : Outbound)
      (hp : s.phase = .greeting c deadline) (hf : s.hears? v.members.room m = none) (hv : v' = v)
      (hp' : s'.phase = .admitted c
        (.running deadline' (.empty (some e.settings.maxSubscriptions))) outbound)
  | other (hf : s.hears? v.members.room m = none)
      (hpublished : ∀ n < v.members.room.length,
        (v'.members.room.get n).published = (v.members.room.get n).published)
      (hkept : ∀ p, s'.phase.kept? = some p → s.phase.kept? = some p)
      (hkeeps : (∀ j, m ≠ .inbound j) → ∀ p, s.phase.kept? = some p → s'.phase.kept? = some p)
      (hstays : s.phase.isAdmitted = true → s'.phase.isAdmitted = true)

section

variable {e : Surroundings} {i : Nat} {d d' : Desk} {line : Line} {s s' : Session} {m : Move}

theorem reacts_of_none {room : Mailroom} (hf : s.hears? room m = none) : s.reacts e room m = [] := by
  unfold reacts
  rw [hf]
  split
  · rename_i heq
    cases heq
  · rfl

theorem reacts_of_some {room : Mailroom} {c : Handle} {deadline : Nat} {followed : SubscriptionSet}
    {outbound : Outbound} {f : Frame}
    (hp : s.phase = .admitted c (.running deadline followed) outbound)
    (hf : s.hears? room m = some f) :
    s.reacts e room m = (Inbound.handleFrame e followed f).2 := by
  unfold reacts
  rw [hf, hp]

theorem hears?_of_running (room : Mailroom) (line : Line) (c : Handle) (deadline : Nat)
    (followed : SubscriptionSet) (outbound : Outbound) :
    hears? room ⟨line, .admitted c (.running deadline followed) outbound⟩ (.inbound i) =
      match line.receive.2 with
      | .frame f => if (room.mailbox c.endpoint).signalled then none else some f
      | _ => none := by
  unfold hears?
  cases line.receive.2 <;> rfl

theorem Minds.apart {v v' : Service} (hf : s.hears? v.members.room m = none)
    (hpublished : ∀ n < v.members.room.length,
      (v'.members.room.get n).published = (v.members.room.get n).published)
    (hkept' : s'.phase.kept? = none) (hkept : s.phase.kept? = none)
    (hout : s.phase.isAdmitted = false) : Minds e v s m v' s' :=
  .other hf hpublished (fun _ hp => by cases hkept'.symm.trans hp)
    (fun _ _ hp => by cases hkept.symm.trans hp) (fun ha => by cases hout.symm.trans ha)

theorem Minds.left {v v' : Service} (hf : s.hears? v.members.room (.inbound i) = none)
    (hpublished : ∀ n < v.members.room.length,
      (v'.members.room.get n).published = (v.members.room.get n).published)
    (hkept' : s'.phase.kept? = none) (hstays : s'.phase.isAdmitted = true) :
    Minds e v s (.inbound i) v' s' :=
  .other hf hpublished (fun _ hp => by cases hkept'.symm.trans hp) (fun hm => absurd rfl (hm i))
    fun _ => hstays

theorem minds_of_running {c : Handle} {deadline : Nat} {followed : SubscriptionSet}
    {outbound : Outbound}
    (hs : move e d ⟨line, .admitted c (.running deadline followed) outbound⟩ (.inbound i) =
      some (d', s')) :
    Minds e d.service ⟨line, .admitted c (.running deadline followed) outbound⟩ (.inbound i)
      d'.service s' := by
  have hhears := hears?_of_running (i := i) d.service.members.room line c deadline followed outbound
  obtain ⟨⟨line', v, inbound'⟩, hstep, heq⟩ := Option.map_eq_some_iff.mp hs
  cases heq
  simp only [Inbound.step] at hstep
  split at hstep
  · rename_i hsignalled
    cases hstep
    refine .left ?_ (fun _ _ => rfl) rfl rfl
    rw [hhears]
    split
    · exact if_pos hsignalled
    · rfl
  · rename_i hopen
    generalize line.receive = o at hstep hhears
    obtain ⟨line₁, r⟩ := o
    cases r with
    | frame f =>
      have hf := hhears.trans (if_neg hopen)
      cases f with
      | close =>
        cases hstep
        exact .heard c deadline followed outbound .close rfl hf rfl (.inl ⟨rfl, rfl⟩)
      | _ =>
        cases hstep
        exact .heard c deadline followed outbound _ rfl hf rfl (.inr rfl)
    | failed err =>
      cases hstep
      exact .left hhears (fun _ _ => rfl) rfl rfl
    | waiting =>
      dsimp only at hstep
      split at hstep
      · cases hstep
        exact .left hhears (fun _ _ => rfl) rfl rfl
      · cases hstep

theorem minds_of_greeting {c : Handle} {deadline : Nat}
    (hs : Admission.step e i d ⟨line, .greeting c deadline⟩ = some (d', s')) :
    Minds e d.service ⟨line, .greeting c deadline⟩ (.admission i) d'.service s' := by
  simp only [Admission.step] at hs
  generalize line.send (ServerFrame.authSuccess c.user).frame = o at hs
  obtain ⟨line', r⟩ := o
  cases r with
  | sent =>
    cases hs
    exact .greeted c deadline _ _ rfl rfl rfl rfl
  | failed err =>
    cases hs
    exact .apart rfl (fun _ _ => rfl) rfl rfl rfl
  | waiting =>
    dsimp only at hs
    split at hs
    · cases hs
      exact .apart rfl (fun _ _ => rfl) rfl rfl rfl
    · cases hs

theorem minds_of_writing {v v' : Service} {line' : Line} {c : Handle} {inbound : Inbound}
    {outbound outbound' : Outbound}
    (hf : hears? v.members.room ⟨line, .admitted c inbound outbound⟩ m = none)
    (hpublished : ∀ n < v.members.room.length,
      (v'.members.room.get n).published = (v.members.room.get n).published) :
    Minds e v ⟨line, .admitted c inbound outbound⟩ m v' ⟨line', .admitted c inbound outbound'⟩ := by
  have hsame : Phase.kept? (.admitted c inbound outbound') =
      Phase.kept? (.admitted c inbound outbound) := by
    cases inbound <;> rfl
  exact .other hf hpublished (fun _ hp => hsame ▸ hp) (fun _ _ hp => hsame.trans hp) id

theorem minds_of_move (hv : d.service.running = true) (hm : m.session? = some i)
    (hs : s.move e d m = some (d', s')) : s.Minds e d.service m d'.service s' := by
  have hupdate (n : Nat) {f : Endpoint → Endpoint} (hf : ∀ e, (f e).published = e.published) :
      ∀ k < d.service.members.room.length,
        ((d.service.members.room.update n f).get k).published =
          (d.service.members.room.get k).published :=
    fun k _ => Mailroom.published_update d.service.members.room n k hf
  rcases works_of_move hv hm hs with ⟨hw, -⟩ | ⟨line, line', deadline, u, rfl, rfl, heq⟩
  · obtain ⟨v, n⟩ := d
    obtain ⟨v', n'⟩ := d'
    cases hw with
    | greeted => exact minds_of_greeting hs
    | ungreeted => exact .apart rfl (fun _ _ => rfl) rfl rfl rfl
    | left => exact minds_of_running hs
    | heard => exact minds_of_running hs
    | released line line' why deadline k hl =>
      exact .apart rfl (hupdate k fun _ => rfl) rfl rfl rfl
    | withdrawn line line' c err hl =>
      exact .apart rfl (hupdate c.endpoint fun _ => rfl) rfl rfl rfl
    | unregistered line line' c exit outbound hl =>
      exact .left rfl (hupdate c.endpoint fun _ => rfl) rfl rfl
    | took line c => exact minds_of_writing rfl (hupdate c.endpoint fun _ => rfl)
    | stopped line c => exact minds_of_writing rfl (hupdate c.endpoint fun _ => rfl)
    | cut line line' c => exact minds_of_writing rfl (hupdate c.endpoint fun _ => rfl)
    | closed line line' c => exact minds_of_writing rfl (hupdate c.endpoint fun _ => rfl)
    | pinging line c inbound keepalive keepalive' f deadline m hm =>
      rcases hm with rfl | rfl <;> exact minds_of_writing rfl fun _ _ => rfl
    | sent => exact minds_of_writing rfl fun _ _ => rfl
    | _ => exact .apart rfl (fun _ _ => rfl) rfl rfl rfl
  · cases heq
    refine .apart rfl (fun k hk => ?_) rfl rfl rfl
    exact congrArg Endpoint.published (Mailroom.get_append_of_lt _ hk)

end

end Session

namespace Hub

/-! ## Observing a run -/

def published (h : Hub) (n : Nat) : SubscriptionSet := (h.service.members.room.get n).published

namespace Moment

variable (t : Moment) (i : Nat)

/-- The frame that the loop of session `i` takes up, with the time on the wall clock. -/
def heard? : Option (Int64 × Frame) :=
  (t.own? i).bind fun (s, m) =>
    (s.hears? t.before.service.members.room m).map fun f => (t.before.surroundings.stamp, f)

def offered : List ServerFrame :=
  match t.own? i with
  | some (s, m) =>
    (s.reacts t.before.surroundings t.before.service.members.room m).filterMap Reaction.reply?
  | none => []

end Moment

def heard (ms : List Moment) (i : Nat) : List (Int64 × Frame) := ms.filterMap (Moment.heard? · i)

def offered (ms : List Moment) (i : Nat) : List ServerFrame := ms.flatMap (Moment.offered · i)

theorem heard_snoc (ms : List Moment) (t : Moment) (i : Nat) :
    heard (ms ++ [t]) i = heard ms i ++ (t.heard? i).toList :=
  filterMap_snoc _ ms t

theorem offered_snoc (ms : List Moment) (t : Moment) (i : Nat) :
    offered (ms ++ [t]) i = offered ms i ++ t.offered i := by
  simp [offered]

section

variable {start h h' : Hub} {a : Action} {ms : List Moment} {i : Nat} {s s' : Session} {c : Handle}
  {conns : List (Nat × Handle)} {e : ConnectionSettings} {t : Moment}

theorem heard?_of_own {m : Move} (hm : m.session? = some i) (hs : h.sessions[i]? = some s) :
    Moment.heard? ⟨h, .move m, h'⟩ i =
      (s.hears? h.service.members.room m).map fun f => (h.surroundings.stamp, f) := by
  simp [Moment.heard?, own?_of_move hm hs]

theorem offered_of_own {m : Move} (hm : m.session? = some i) (hs : h.sessions[i]? = some s) :
    Moment.offered ⟨h, .move m, h'⟩ i =
      (s.reacts h.surroundings h.service.members.room m).filterMap Reaction.reply? := by
  simp [Moment.offered, own?_of_move hm hs]

theorem unheard (ht : t.own? i = none) : t.heard? i = none ∧ t.offered i = [] := by
  simp [Moment.heard?, Moment.offered, ht]

theorem unheard_of_own {m : Move} (hm : m.session? = some i) (hs : h.sessions[i]? = some s)
    (hhears : s.hears? h.service.members.room m = none) :
    Moment.heard? ⟨h, .move m, h'⟩ i = none ∧ Moment.offered ⟨h, .move m, h'⟩ i = [] := by
  rw [heard?_of_own hm hs, offered_of_own hm hs, hhears, Session.reacts_of_none hhears]
  exact ⟨rfl, rfl⟩

/-! ## One action -/

theorem mem_of_kept {followed : SubscriptionSet} (hl : Ledger conns h)
    (hi : h.sessions[i]? = some s) (hp : s.phase.kept? = some (c, followed)) : (i, c) ∈ conns := by
  obtain ⟨deadline, outbound, hphase⟩ := Phase.eq_of_kept hp
  have hfit := hl.fits i s hi
  rw [hphase] at hfit
  exact hl.lookup_eq_some.mp hfit

theorem Acts.published_of_allotted (ha : h.Acts a h')
    (hc : Moment.allotted? ⟨h, a, h'⟩ = some (i, c)) : h'.published c.endpoint = .empty none := by
  have hnew : Mailroom.get (h.service.members.room ++
      [⟨.create h.settings.mailboxCapacity, .empty none⟩]) h.service.members.room.length =
      ⟨.create h.settings.mailboxCapacity, .empty none⟩ :=
    Mailroom.get_append_length h.service.members.room _
  cases ha with
  | worked j m s s' v hs hw =>
    rw [allotted?_worked hs hw] at hc
    cases hc
  | proved j line line' deadline u hs hl =>
    rw [allotted?_proved u hs] at hc
    cases hc
    exact congrArg Endpoint.published hnew
  | registered u line =>
    rw [allotted?_registered] at hc
    cases hc
    exact congrArg Endpoint.published hnew
  | _ => cases hc

/-- Nobody but the loop of a session publishes for its connection. -/
theorem Acts.published_of_other (ha : h.Acts a h') (hl : Ledger conns h) (hc : (i, c) ∈ conns)
    (hi : a.session? ≠ some i) : h'.published c.endpoint = h.published c.endpoint := by
  have hadded (p : Endpoint) :
      (Mailroom.get (h.service.members.room ++ [p]) c.endpoint).published =
        h.published c.endpoint :=
    congrArg Endpoint.published (Mailroom.get_append_of_lt p (hl.lt_length hc))
  cases ha with
  | served q rest hq =>
    show (h.service.serve.members.room.get c.endpoint).published = _
    rw [Registry.Service.members_serve hq]
    exact Membership.published_handle hl.proper q.command c.endpoint
  | worked j m s s' v hs hw =>
    have hj : j ≠ i := by
      rintro rfl
      rcases hw.part with rfl | rfl | rfl | rfl <;> exact hi rfl
    have hget := (hw.confined (hl.fits j s hs)).elsewhere c.endpoint fun d =>
      hl.endpoint_ne hc hj
    exact congrArg Endpoint.published hget
  | proved => exact hadded _
  | registered => exact hadded _
  | _ => rfl

/-! ## One connection -/

/-- Where a connection stands: what it follows is the replay of the frames that its loop took up, and
so are the answers that it was given. -/
structure Following (e : ConnectionSettings) (i : Nat) (ms : List Moment) (h : Hub) (s : Session) :
    Prop where
  answered : offered ms i = (Account.replay e (heard ms i)).answers
  silent : s.phase.isAdmitted = false → heard ms i = []
  published : ∀ c, (i, c) ∈ connections ms →
    (h.published c.endpoint).names = (Account.replay e (heard ms i)).followed ∧
      (h.published c.endpoint).channels.Nodup
  kept : ∀ c followed, s.phase.kept? = some (c, followed) →
    followed.Keeps e.maxSubscriptions ∧ followed.channels = (h.published c.endpoint).channels

namespace Following

theorem rest (hf : Following e i ms h s) (hl : Ledger (connections ms) h)
    (hi : h.sessions[i]? = some s) (hunheard : t.heard? i = none ∧ t.offered i = [])
    (hnone : ∀ c, t.allotted? ≠ some (i, c))
    (hpublished : ∀ c, (i, c) ∈ connections ms → h'.published c.endpoint = h.published c.endpoint)
    (hkept : ∀ p, s'.phase.kept? = some p → s.phase.kept? = some p)
    (hstays : s.phase.isAdmitted = true → s'.phase.isAdmitted = true) :
    Following e i (ms ++ [t]) h' s' := by
  have hheard : heard (ms ++ [t]) i = heard ms i := by simp [heard_snoc, hunheard.1]
  refine ⟨?_, fun hs => ?_, fun c hc => ?_, fun c followed hp => ?_⟩
  · rw [hheard, offered_snoc, hunheard.2, List.append_nil]
    exact hf.answered
  · rw [hheard]
    refine hf.silent (Bool.eq_false_iff.mpr fun hadmitted => ?_)
    rw [hstays hadmitted] at hs
    cases hs
  · rw [connections_snoc] at hc
    rcases List.mem_append.mp hc with hold | hnew
    · rw [hheard, hpublished c hold]
      exact hf.published c hold
    · exact absurd (Option.mem_toList.mp hnew) (hnone c)
  · have hbefore := hkept _ hp
    have hc := mem_of_kept hl hi hbefore
    rw [hpublished c hc]
    exact hf.kept c followed hbefore

theorem heard {m : Move} {deadline : Nat} {followed : SubscriptionSet} {outbound : Outbound}
    {f : Frame} (hf : Following h.settings i ms h s) (hl : Ledger (connections ms) h)
    (hl' : Ledger (connections (ms ++ [⟨h, .move m, h'⟩])) h')
    (hi : h.sessions[i]? = some s) (hm : m.session? = some i)
    (hp : s.phase = .admitted c (.running deadline followed) outbound)
    (hhears : s.hears? h.service.members.room m = some f)
    (hv : h'.service = h.service.withRoom fun room =>
      (Inbound.handleFrame h.surroundings followed f).2.foldl (Inbound.perform c.endpoint) room)
    (hp' : f = .close ∧ s'.phase = .admitted c (.leaving .peerClosed) outbound ∨
      s'.phase = .admitted c (.running (h.now + h.settings.pongWait)
        (Inbound.handleFrame h.surroundings followed f).1) outbound) :
    Following h.settings i (ms ++ [⟨h, .move m, h'⟩]) h' s' := by
  have hk : s.phase.kept? = some (c, followed) := by
    rw [hp]
    rfl
  have hc := mem_of_kept hl hi hk
  obtain ⟨hkeeps, hsame⟩ := hf.kept c followed hk
  obtain ⟨hnames, -⟩ := hf.published c hc
  obtain ⟨hkeeps', haccount, hpublished⟩ :=
    Inbound.handleFrame_spec (e := h.surroundings) hkeeps f
  have hhear : Hub.heard (ms ++ [⟨h, .move m, h'⟩]) i =
      Hub.heard ms i ++ [(h.surroundings.stamp, f)] := by
    rw [heard_snoc, heard?_of_own hm hi, hhears]
    rfl
  have hoffer : Hub.offered (ms ++ [⟨h, .move m, h'⟩]) i = Hub.offered ms i ++
      (Inbound.handleFrame h.surroundings followed f).2.filterMap Reaction.reply? := by
    rw [offered_snoc, offered_of_own hm hi, Session.reacts_of_some hp hhears]
  -- The loop goes by the account of what was heard so far, so one more frame brings both forward.
  have hreplay := haccount (Account.replay h.settings (Hub.heard ms i))
    (hnames.symm.trans (SubscriptionSet.names_congr hsame.symm))
  have hchannels : (h'.published c.endpoint).channels =
      (Inbound.handleFrame h.surroundings followed f).1.channels := by
    have hget : h'.published c.endpoint =
        (Inbound.handleFrame h.surroundings followed f).2.foldl Reaction.published
          (h.published c.endpoint) := by
      unfold Hub.published
      rw [hv]
      show (Mailroom.get (List.foldl _ h.service.members.room _) c.endpoint).published = _
      rw [Inbound.foldl_perform (hl.lt_length hc), Mailroom.get_update_self _ (hl.lt_length hc)]
      rfl
    rw [hget]
    exact hpublished _ hsame.symm
  refine ⟨?_, fun hs => ?_, fun d hd => ?_, fun d kept hd => ?_⟩
  · rw [hhear, hoffer, Account.replay_snoc]
    refine Eq.trans ?_ (congrArg Account.answers hreplay).symm
    exact congrArg (· ++ _) hf.answered
  · rcases hp' with ⟨-, hp'⟩ | hp' <;> rw [hp'] at hs <;> cases hs
  · cases hl'.eq_of_session hd (mem_connections_append hc _)
    rw [hhear, Account.replay_snoc]
    refine ⟨?_, hchannels ▸ hkeeps'.nodup⟩
    exact (SubscriptionSet.names_congr hchannels).trans (congrArg Account.followed hreplay).symm
  · rcases hp' with ⟨-, hp'⟩ | hp'
    · rw [hp'] at hd
      cases hd
    · rw [hp'] at hd
      cases hd
      exact ⟨hkeeps', hchannels.symm⟩

theorem greeted {deadline deadline' : Nat} {outbound : Outbound} (hf : Following e i ms h s)
    (hl : Ledger (connections ms) h) (hi : h.sessions[i]? = some s)
    (hunheard : t.heard? i = none ∧ t.offered i = [])
    (hnone : ∀ c, t.allotted? ≠ some (i, c)) (hpublished : h'.published = h.published)
    (hp : s.phase = .greeting c deadline)
    (hp' : s'.phase = .admitted c
      (.running deadline' (.empty (some e.maxSubscriptions))) outbound) :
    Following e i (ms ++ [t]) h' s' := by
  have hsilent : Hub.heard ms i = [] := hf.silent (by rw [hp]; rfl)
  have hheard : Hub.heard (ms ++ [t]) i = Hub.heard ms i := by simp [heard_snoc, hunheard.1]
  refine ⟨?_, fun _ => hheard.trans hsilent, fun d hd => ?_, fun d followed hd => ?_⟩
  · rw [hheard, offered_snoc, hunheard.2, List.append_nil]
    exact hf.answered
  · rw [connections_snoc] at hd
    rcases List.mem_append.mp hd with hold | hnew
    · rw [hheard, hpublished]
      exact hf.published d hold
    · exact absurd (Option.mem_toList.mp hnew) (hnone d)
  · rw [hp'] at hd
    cases hd
    have hfit := hl.fits i s hi
    rw [hp] at hfit
    have hnames := (hf.published c (hl.lookup_eq_some.mp hfit)).1
    rw [hsilent] at hnames
    rw [hpublished]
    exact ⟨SubscriptionSet.keeps_empty _, (SubscriptionSet.names_eq_empty.mp hnames).symm⟩

theorem fresh {ms : List Moment} (hheard : Hub.heard ms i = []) (hoffered : Hub.offered ms i = [])
    (hkept : s.phase.kept? = none)
    (hpublished : ∀ c, (i, c) ∈ connections ms → h.published c.endpoint = .empty none) :
    Following e i ms h s := by
  refine ⟨?_, fun _ => hheard, fun c hc => ?_, fun c followed hp => ?_⟩
  · rw [hheard, hoffered]
    rfl
  · rw [hheard, hpublished c hc]
    exact ⟨rfl, List.nodup_nil⟩
  · rw [hkept] at hp
    cases hp

theorem opened {o : Option UserId} (hr : Run start ms h) (hs : start.Fresh) (ha : h.act a = some h')
    (hlen : h.sessions.length = i) (hopens : h.Opens a o s) :
    Following e i (ms ++ [⟨h, a, h'⟩]) h' s := by
  have hl := hr.ledger hs
  -- There was no session of this number before, to which something could have been said or offered.
  have habsent : ∀ t ∈ ms ++ [⟨h, a, h'⟩], t.own? i = none := by
    intro t ht
    rcases List.mem_append.mp ht with ht | ht
    · exact own?_of_absent (hr.absent hs hlen.le t ht)
    · rw [List.mem_singleton.mp ht]
      exact own?_of_absent (List.getElem?_eq_none hlen.le)
  have hheard : Hub.heard (ms ++ [⟨h, a, h'⟩]) i = [] :=
    List.filterMap_eq_nil_iff.mpr fun t ht => (unheard (habsent t ht)).1
  have hoffered : Hub.offered (ms ++ [⟨h, a, h'⟩]) i = [] :=
    List.flatMap_eq_nil_iff.mpr fun t ht => (unheard (habsent t ht)).2
  refine fresh hheard hoffered (by cases hopens <;> rfl) fun c hc => ?_
  rw [connections_snoc] at hc
  rcases List.mem_append.mp hc with hold | hnew
  · exact absurd (hl.held i c hold) (hlen ▸ Nat.lt_irrefl _)
  · exact (acts_of_act hl.running ha).published_of_allotted (Option.mem_toList.mp hnew)

theorem allotted (hf : Following e i ms h s) (hr : Run start ms h) (hs : start.Fresh)
    (ha : h.act a = some h')
    (hunheard : Moment.heard? ⟨h, a, h'⟩ i = none ∧ Moment.offered ⟨h, a, h'⟩ i = [])
    (hsilent : s.phase.isAdmitted = false) (hkept : s'.phase.kept? = none)
    (hc : Moment.allotted? ⟨h, a, h'⟩ = some (i, c)) :
    Following e i (ms ++ [⟨h, a, h'⟩]) h' s' := by
  have hheard := hf.silent hsilent
  have hoffered : Hub.offered ms i = [] := by
    rw [hf.answered, hheard]
    rfl
  refine fresh ?_ ?_ hkept fun d hd => ?_
  · simp [heard_snoc, hheard, hunheard.1]
  · simp [offered_snoc, hoffered, hunheard.2]
  · have hmem : (i, c) ∈ connections (ms ++ [⟨h, a, h'⟩]) := by
      simp [connections_snoc, hc]
    cases ((hr.snoc ha).ledger hs).eq_of_session hd hmem
    exact (acts_of_act (hr.ledger hs).running ha).published_of_allotted hc

theorem turned (hf : Following h.settings i ms h s) (hr : Run start ms h) (hs : start.Fresh)
    (ha : h.act a = some h') (hi : h.sessions[i]? = some s) (hi' : h'.sessions[i]? = some s')
    (hturn : h.Turn i s a h' s') : Following h.settings i (ms ++ [⟨h, a, h'⟩]) h' s' := by
  have hl := hr.ledger hs
  have hl' := (hr.snoc ha).ledger hs
  cases hturn with
  | own m d s' hm hmove =>
    have hnew {c : Handle} (hc : Moment.allotted? ⟨h, .move m, _⟩ = some (i, c)) :=
      (registering_of_allotted hi hi' hc).2
    cases Session.minds_of_move hl.running hm hmove with
    | heard c deadline followed outbound f hp hhears hv hp' =>
      exact hf.heard hl hl' hi hm hp hhears hv hp'
    | greeted c deadline deadline' outbound hp hhears hv hp' =>
      refine hf.greeted hl hi (unheard_of_own hm hi hhears) (fun d hd => ?_) ?_ hp hp'
      · rw [hp'] at hnew
        exact nomatch hnew hd
      · exact congrArg (fun v : Service => fun n => (v.members.room.get n).published) hv
    | other hhears hpublished hkept hkeeps hstays =>
      by_cases hnone : ∀ c, Moment.allotted? ⟨h, .move m,
          { h with service := d.service, nextId := d.nextId }.setSession i s'⟩ ≠ some (i, c)
      · exact hf.rest hl hi (unheard_of_own hm hi hhears) hnone
          (fun c hc => hpublished c.endpoint (hl.lt_length hc)) hkept hstays
      · obtain ⟨c, hc⟩ := not_forall_not.mp hnone
        have hphase := hnew hc
        rw [hphase] at hstays
        exact hf.allotted hr hs ha (unheard_of_own hm hi hhears)
          (Bool.eq_false_iff.mpr fun hadmitted => nomatch hstays hadmitted) (by rw [hphase]; rfl) hc
  | client c =>
    exact hf.rest hl hi (unheard rfl) nofun (fun _ _ => rfl) (fun _ hp => hp) id
  | other a h' ha hne =>
    refine hf.rest hl hi (unheard (own?_of_ne hne)) (fun c hc => ?_) (fun c hc => ?_)
      (fun _ hp => hp) id
    · exact hne (registering_of_allotted hi hi' hc).1
    · exact (acts_of_act hl.running ha).published_of_other hl hc hne

end Following

theorem Run.heard {before after : List Moment} {stamp : Int64} {f : Frame}
    (hr : Run start (before ++ t :: after) h) (hs : start.Fresh)
    (ht : t.heard? i = some (stamp, f)) :
    ∃ s s' c deadline followed outbound, t.before.sessions[i]? = some s ∧
      t.after.sessions[i]? = some s' ∧
      s.phase = .admitted c (.running deadline followed) outbound ∧
      t.offered i =
        (Inbound.handleFrame t.before.surroundings followed f).2.filterMap Reaction.reply? ∧
      t.after.service = (t.before.service.withRoom fun room =>
        (Inbound.handleFrame t.before.surroundings followed f).2.foldl
          (Inbound.perform c.endpoint) room) ∧
      (f = .close ∧ s'.phase = .admitted c (.leaving .peerClosed) outbound ∨
        s'.phase = .admitted c (.running (t.before.now + t.before.settings.pongWait)
          (Inbound.handleFrame t.before.surroundings followed f).1) outbound) := by
  obtain ⟨hbefore, ha⟩ := hr.split
  obtain ⟨h₀, a, h₁⟩ := t
  obtain ⟨⟨s, m⟩, hown, hmap⟩ := Option.bind_eq_some_iff.mp ht
  obtain ⟨g, hhears, heq⟩ := Option.map_eq_some_iff.mp hmap
  cases heq
  obtain ⟨haction, hm, hi⟩ := own?_eq_some.mp hown
  dsimp only at haction ha hi hhears ⊢
  subst haction
  obtain ⟨d, s', hmove, hi', rfl⟩ := moved_of_act hm hi ha
  cases Session.minds_of_move (hbefore.ledger hs).running hm hmove with
  | heard c deadline followed outbound f hp hf hv hp' =>
    cases hhears.symm.trans hf
    refine ⟨s, s', c, deadline, followed, outbound, hi, hi', hp, ?_, hv, hp'⟩
    rw [offered_of_own hm hi, Session.reacts_of_some hp hhears]
  | greeted c deadline deadline' outbound hp hf hv hp' => cases hhears.symm.trans hf
  | other hf => cases hhears.symm.trans hf

theorem Run.following {o : Option UserId} (hr : Run start ms h) (hs : start.Fresh)
    (ho : (i, o) ∈ openings ms) :
    ∃ s, h.sessions[i]? = some s ∧ Following h.settings i ms h s := by
  rw [(hr.fixed hs).1]
  refine hr.along hs ho (fun hr ha hlen hopens => .opened hr hs ha hlen hopens) ?_
  intro ms h h' a s s' hr ha ho hi hi' hturn hf
  rw [← (hr.fixed hs).1] at hf ⊢
  exact hf.turned hr hs ha hi hi' hturn

end

/-! ## Every connection -/

/-- What a hub keeps to about the channels that its clients ask for. -/
structure Heeds (ms : List Moment) (h : Hub) : Prop where
  published : ∀ i c, (i, c) ∈ connections ms → (h.published c.endpoint).names =
    (Account.replay h.settings (heard ms i)).followed
  bounded : ∀ i c, (i, c) ∈ connections ms → (h.published c.endpoint).channels.Nodup ∧
    (h.published c.endpoint).channels.length ≤ h.settings.maxSubscriptions
  /-- The loop goes by the same channels as are published. -/
  kept : ∀ (i : Nat) (s : Session), h.sessions[i]? = some s → ∀ c followed,
    s.phase.kept? = some (c, followed) → (i, c) ∈ connections ms ∧
      followed.channels = (h.published c.endpoint).channels
  answered : ∀ i o, (i, o) ∈ openings ms →
    offered ms i = (Account.replay h.settings (heard ms i)).answers
  /-- A frame that is taken up has its replies offered to the mailbox of the connection, and what it
  leaves to follow published; nothing else that the registry or other sessions see is changed. -/
  handled : ∀ before t after, ms = before ++ t :: after → ∀ i p, t.heard? i = some p →
    ∃ c, (i, c) ∈ connections before ∧ t.after.service = t.before.service.withRoom fun room =>
      room.update c.endpoint fun e =>
        ⟨e.mailbox.offer (t.offered i), t.after.published c.endpoint⟩
  idle : ∀ t ∈ ms, ∀ i stamp f, t.heard? i = some (stamp, f) →
    f.Idle h.settings.maxMessageBytes → t.offered i = [] ∧ t.after.service = t.before.service ∧
      (f ≠ .close → ∀ (s s' : Session), t.before.sessions[i]? = some s →
        t.after.sessions[i]? = some s' → s'.phase.kept? = s.phase.kept?)
  passes : ∀ before t after, ms = before ++ t :: after → ∀ r, t.handled? = some r →
    r.channels ≠ [] → ∀ i c, (i, c) ∈ connections before →
      (t.before.service.members.fate r c ≠ .filtered ↔
        ∃ x ∈ r.channels, x ∈ (Account.replay h.settings (heard before i)).followed)

section

variable {start h : Hub} {ms before after : List Moment} {i : Nat} {c : Handle} {t : Moment}

theorem Run.published (hr : Run start ms h) (hs : start.Fresh) (hc : (i, c) ∈ connections ms) :
    (h.published c.endpoint).names = (Account.replay h.settings (Hub.heard ms i)).followed ∧
      (h.published c.endpoint).channels.Nodup := by
  obtain ⟨o, ho⟩ := hr.opening_of_lt hs ((hr.ledger hs).held i c hc)
  obtain ⟨s, -, hf⟩ := hr.following hs ho
  exact hf.published c hc

theorem Run.handled (hr : Run start (before ++ t :: after) h) (hs : start.Fresh)
    {p : Int64 × Frame} (ht : t.heard? i = some p) :
    ∃ c, (i, c) ∈ connections before ∧ t.after.service = t.before.service.withRoom fun room =>
      room.update c.endpoint fun e =>
        ⟨e.mailbox.offer (t.offered i), t.after.published c.endpoint⟩ := by
  obtain ⟨s, s', c, deadline, followed, outbound, hi, hi', hp, hoffered, hv, -⟩ := hr.heard hs ht
  have hl := hr.split.1.ledger hs
  have hk : s.phase.kept? = some (c, followed) := by
    rw [hp]
    rfl
  have hc := mem_of_kept hl hi hk
  have hlt := hl.lt_length hc
  rw [Service.withRoom, Inbound.foldl_perform hlt] at hv
  have hpublished : t.after.published c.endpoint = _ :=
    congrArg (fun v : Service => (v.members.room.get c.endpoint).published) hv
  dsimp only at hpublished
  rw [Mailroom.get_update_self _ hlt] at hpublished
  refine ⟨c, hc, hv.trans ?_⟩
  have hroom : t.before.service.members.room.update c.endpoint
      (·.carry (Inbound.handleFrame t.before.surroundings followed p.2).2) =
      t.before.service.members.room.update c.endpoint fun e =>
        ⟨e.mailbox.offer (t.offered i), t.after.published c.endpoint⟩ := by
    apply Mailroom.ext (by simp)
    intro k
    by_cases hk : k = c.endpoint
    · subst hk
      rw [Mailroom.get_update_self _ hlt, Mailroom.get_update_self _ hlt, hpublished, hoffered]
      rfl
    · rw [Mailroom.get_update_ne _ _ hk, Mailroom.get_update_ne _ _ hk]
  rw [hroom]
  rfl

theorem Run.idle (hr : Run start (before ++ t :: after) h) (hs : start.Fresh) {stamp : Int64}
    {f : Frame} (ht : t.heard? i = some (stamp, f)) (hf : f.Idle h.settings.maxMessageBytes) :
    t.offered i = [] ∧ t.after.service = t.before.service ∧
      (f ≠ .close → ∀ (s s' : Session), t.before.sessions[i]? = some s →
        t.after.sessions[i]? = some s' → s'.phase.kept? = s.phase.kept?) := by
  obtain ⟨s, s', c, deadline, followed, outbound, hi, hi', hp, hoffered, hv, hp'⟩ := hr.heard hs ht
  rw [(hr.fixed hs).1, ← (hr.split.1.fixed hs).1] at hf
  rw [Inbound.handleFrame_of_idle (e := t.before.surroundings) followed hf] at hoffered hv hp'
  refine ⟨hoffered, hv, fun hclose s₁ s₂ h₁ h₂ => ?_⟩
  cases hi.symm.trans h₁
  cases hi'.symm.trans h₂
  rcases hp' with ⟨heq, -⟩ | hp'
  · exact absurd heq hclose
  · rw [hp, hp']
    rfl

theorem Run.passes_iff (hr : Run start (before ++ t :: after) h) (hs : start.Fresh)
    {r : DispatchRequest} (hr' : r.channels ≠ []) (hc : (i, c) ∈ connections before) :
    t.before.service.members.fate r c ≠ .filtered ↔
      ∃ x ∈ r.channels, x ∈ (Account.replay h.settings (Hub.heard before i)).followed := by
  obtain ⟨hnames, -⟩ := hr.split.1.published hs hc
  rw [(hr.split.1.fixed hs).1, ← (hr.fixed hs).1] at hnames
  have hmem (x : ChannelName) : x ∈ (t.before.published c.endpoint).channels ↔
      x ∈ (Account.replay h.settings (Hub.heard before i)).followed := by
    rw [SubscriptionSet.mem_channels_iff, hnames]
  rw [ne_eq, Membership.fate_eq_filtered]
  simp only [← hmem]
  constructor
  · intro hnot
    by_contra hnone
    exact hnot ⟨hr', fun x hx hx' => hnone ⟨x, hx, hx'⟩⟩
  · rintro ⟨x, hx, hx'⟩ ⟨-, hnone⟩
    exact hnone x hx hx'

end

theorem Run.heeds {start h : Hub} {ms : List Moment} (hr : Run start ms h) (hs : start.Fresh) :
    Heeds ms h where
  published i c hc := (hr.published hs hc).1
  bounded i c hc := by
    obtain ⟨hnames, hnodup⟩ := hr.published hs hc
    refine ⟨hnodup, ?_⟩
    have hcard : (h.published c.endpoint).names.card = (h.published c.endpoint).channels.length :=
      List.toFinset_card_of_nodup hnodup
    rw [← hcard, hnames]
    exact Account.card_replay h.settings (Hub.heard ms i)
  kept i s hi c followed hk := by
    have hc := mem_of_kept (hr.ledger hs) hi hk
    obtain ⟨o, ho⟩ := hr.opening_of_lt hs ((hr.ledger hs).held i c hc)
    obtain ⟨s', hi', hf⟩ := hr.following hs ho
    cases hi.symm.trans hi'
    exact ⟨hc, (hf.kept c followed hk).2⟩
  answered i o ho := by
    obtain ⟨s, -, hf⟩ := hr.following hs ho
    exact hf.answered
  handled := by
    rintro before t after rfl i p ht
    exact hr.handled hs ht
  idle t ht i stamp f hf hidle := by
    obtain ⟨before, after, rfl⟩ := List.append_of_mem ht
    exact hr.idle hs hf hidle
  passes := by
    rintro before t after rfl r - hr' i c hc
    exact hr.passes_iff hs hr' hc

def modest : Hub := .start { maxSubscriptions := 2 } {} (fun _ _ => .error .invalidToken) [] 7

/-- A client that asks for more than there is room for, and sends frames that ask for nothing. -/
def errands : List Action :=
  let send (kind data : String) : Action :=
    .client 0 (.send (.text ("\x7b\"type\":\"" ++ kind ++ "\",\"data\":\x7b" ++ data ++ "\x7d\x7d")))
  [.register known ⟨.pipe (.create 16), {}⟩, .move (.admission 0), .move .serve,
    .move (.admission 0), .move (.admission 0),
    send "subscribe" "\"channels\":[\"task_updates\",\"task_updates\",\"account_status\"]",
    send "subscribe" "\"channels\":[\"system_notices\",\"account_status\"]",
    send "subscribe" "\"channels\":[\"system_notices\",\"\"]", .client 0 (.send (.binary [1])),
    send "unsubscribe" "\"channels\":[\"task_updates\",\"system_notices\"]", send "ping" "",
    send "auth" "\"token\":\"T\""] ++
  List.replicate 7 (.move (.inbound 0)) ++
  [.dispatch ⟨.all, "note", .null, [taskUpdates]⟩, .move .serve]

theorem errands_run : (modest.trace errands).isSome = true := by decide +kernel

def ranErrands : List Moment × Hub := (modest.trace errands).get errands_run

theorem trace_errands : modest.trace errands = some ranErrands :=
  (Option.some_get errands_run).symm

theorem ranErrands_heeds : Heeds ranErrands.1 ranErrands.2 ∧
    offered ranErrands.1 0 = [.subscribed [taskUpdates, taskUpdates, accountStatus],
      .error "Subscription limit reached (2 channels)", .subscribed [accountStatus],
      .unsubscribed [taskUpdates, systemNotices], .pong 7] ∧
    (ranErrands.2.published 0).channels = [accountStatus] ∧
    ranErrands.2.service.members.counters.filtered = 1 :=
  ⟨(run_trace trace_errands).heeds ⟨_, _, _, _, _, rfl⟩, by decide +kernel⟩

end Hub

end PushHub
