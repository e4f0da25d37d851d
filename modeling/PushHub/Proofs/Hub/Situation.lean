import PushHub.Proofs.Hub.Standing

/-! Where every connection is once nothing moves without the clock or new input. Over in-memory
transports a connection is still being admitted, or live, or draining, or finished; no two of these at
once, and no transport is closed twice. -/
namespace PushHub

open Registry (Handle Service Queued Membership)

/-! ## Transports -/

def Outbound.closings : Outbound → Nat
  | .ended _ => 1
  | _ => 0

def Phase.closings : Phase → Nat
  | .refused _ => 1
  | .admitted _ _ outbound => outbound.closings
  | _ => 0

theorem Phase.closings_le (p : Phase) : p.closings ≤ 1 := by
  unfold closings Outbound.closings
  split
  · exact Nat.le_refl 1
  · split
    · exact Nat.le_refl 1
    · exact Nat.zero_le 1
  · exact Nat.zero_le 1

/-- The transport of a session has been closed as often as its phase says. -/
def Session.Sound (s : Session) : Prop := s.line.closeCalls? = some s.phase.closings

theorem Session.Works.sound {v v' : Service} {i : Nat} {s s' : Session} {m : Move}
    (hw : s.Works i v m v' s') (hs : s.Sound) : s'.Sound := by
  cases hw with
  | prompted line line' deadline deadline' hl => exact hl.trans hs
  | unprompted line line' deadline deadline' why hl => exact hl.trans hs
  | ignored line line' deadline hl => exact hl.trans hs
  | unproved line line' deadline deadline' why hl => exact hl.trans hs
  | asked => exact hs
  | granted => exact hs
  | denied => exact hs
  | refused line line' why deadline hl => exact hl.trans (congrArg (Option.map (· + 1)) hs)
  | released line line' why deadline n hl => exact hl.trans (congrArg (Option.map (· + 1)) hs)
  | greeted line line' h deadline deadline' followed keepalive hl => exact hl.trans hs
  | ungreeted line line' h deadline err hl => exact hl.trans hs
  | withdrawn line line' h err hl => exact hl.trans (congrArg (Option.map (· + 1)) hs)
  | left line line' h deadline followed exit outbound hl => exact hl.trans hs
  | heard line line' h deadline deadline' followed followed' reactions outbound hl =>
    exact hl.trans hs
  | unregistered line line' h exit outbound hl => exact hl.trans hs
  | took => exact hs
  | stopped => exact hs
  | pinging => exact hs
  | sent line line' h inbound keepalive f keeping deadline hl => exact hl.trans hs
  | cut line line' h inbound keepalive f keeping deadline exit hl => exact hl.trans hs
  | closed line line' h inbound exit hl => exact hl.trans (congrArg (Option.map (· + 1)) hs)

theorem ClientAct.closeCalls?_on (w : Wire) (a : ClientAct) :
    (a.on w).closeCalls? = w.closeCalls? := by
  cases w with
  | socket s => cases a <;> rfl
  | pipe p =>
    cases a with
    | send f => exact congrArg some (p.closeCalls_peerSend f)
    | read => exact congrArg some p.closeCalls_peerRead
    | disconnect => rfl
    | leave => rfl

/-- A transport that is handed over is an in-memory one that was never closed. -/
def Hub.Action.OverPipe : Hub.Action → Prop
  | .accept line => line.closeCalls? = some 0
  | .register _ line => line.closeCalls? = some 0
  | _ => True

def Hub.Sound (h : Hub) : Prop := ∀ s ∈ h.sessions, s.Sound

namespace Hub.Sound

variable {h : Hub}

theorem set (hs : h.Sound) (i : Nat) {s : Session} (hn : s.Sound) : (h.setSession i s).Sound := by
  intro t ht
  rcases List.mem_or_eq_of_mem_set ht with ht | rfl
  · exact hs t ht
  · exact hn

theorem add (hs : h.Sound) {s : Session} (hn : s.Sound) : ∀ t ∈ h.sessions ++ [s], t.Sound := by
  intro t ht
  rcases List.mem_append.mp ht with ht | ht
  · exact hs t ht
  · rw [List.mem_singleton.mp ht]
    exact hn

theorem acts (hs : h.Sound) {a : Action} {h' : Hub} (ha : h.Acts a h') (hp : a.OverPipe) :
    h'.Sound := by
  cases ha with
  | worked i m s s' v hi hw =>
    have hsound := hw.sound (hs s (List.mem_of_getElem? hi))
    exact Sound.set (h := { h with service := v }) hs i hsound
  | proved i line line' deadline u hi hl =>
    have hsound : Session.Sound ⟨line, .awaiting deadline⟩ := hs _ (List.mem_of_getElem? hi)
    exact Sound.set (h := h.allot) hs i (hl.trans hsound)
  | accepted line deadline => exact hs.add hp
  | registered u line => exact hs.add hp
  | client i a s hi =>
    refine hs.set i ?_
    exact (a.closeCalls?_on s.line.wire).trans (hs s (List.mem_of_getElem? hi))
  | _ => exact hs

end Hub.Sound

/-! ## One action -/

theorem Situated.acts {conns : List (Nat × Handle)} {h h' : Hub} {a : Hub.Action}
    (hs : Situated conns h) (hl : Ledger conns h) (hn : conns.length ≤ UInt64.size)
    (ha : h.Acts a h') :
    Situated (conns ++ (Hub.Moment.allotted? ⟨h, a, h'⟩).toList) h' := by
  -- Most actions give out no number, move no session and queue nothing about a connection.
  have same (hn : Hub.Moment.allotted? ⟨h, a, h'⟩ = none) (hs : Situated conns h') :
      Situated (conns ++ (Hub.Moment.allotted? ⟨h, a, h'⟩).toList) h' := by
    rw [hn, Option.toList_none, List.append_nil]
    exact hs
  have kept : ∀ (i : Nat) (s : Session), h.sessions[i]? = some s →
      ∃ s', h.sessions[i]? = some s' ∧ s'.phase = s.phase := fun i s hi => ⟨s, hi, rfl⟩
  have grown {q : Queued} (hq : q.command.handle? = none) :
      (h.service.enqueue q.command q.ticket).asking.Nodup := by
    rw [Service.asking_enqueue]
    cases hc : q.command <;> simp_all [Registry.Command.handle?, hs.asking]
  cases ha with
  | served q rest hq => exact same rfl (hs.served hl hn hq)
  | swept t =>
    refine same rfl (hs.persists (fun i c _ => ?_) kept (grown (q := ⟨.sweep, none⟩) rfl))
    exact .queued (q := ⟨.sweep, none⟩) rfl rfl rfl rfl
  | worked i m s s' v hi hw => exact same (Hub.allotted?_worked hi hw) (hs.worked hl hi hw)
  | proved i line line' deadline u hi hline =>
    rw [Hub.allotted?_proved u hi, Option.toList_some]
    have hget := Hub.getElem?_setSession h.allot ⟨line', .registering (h.next u) false⟩ hi
    have hself := (hget i).trans (if_pos rfl)
    exact hs.allotted hl u (hl.fits i _ hi) hself fun j hj => (hget j).trans (if_neg hj)
  | accepted line deadline =>
    refine same rfl (hs.persists (fun i c _ => .of_same rfl rfl .rfl .rfl rfl) ?_ hs.asking)
    intro i s hi
    refine ⟨s, ?_, rfl⟩
    show (h.sessions ++ [_])[i]? = some s
    rw [List.getElem?_append_left (List.getElem?_eq_some_iff.mp hi).1]
    exact hi
  | registered u line =>
    rw [Hub.allotted?_registered, Option.toList_some]
    refine hs.allotted hl u (hl.lookup_eq_none (Nat.le_refl _)) List.getElem?_concat_length ?_
    intro j hj
    exact Hub.getElem?_concat_ne h.sessions _ hj
  | dispatched r hr =>
    refine same rfl (hs.persists (fun i c _ => ?_) kept (grown (q := ⟨.dispatch r, none⟩) rfl))
    exact .queued (q := ⟨.dispatch r, none⟩) rfl rfl rfl rfl
  | turnedAway r hr => exact same rfl hs
  | asked q hr =>
    have hq : q.command.handle? = none := by cases q <;> rfl
    refine same rfl (hs.persists (fun i c _ => ?_) kept (grown (q := ⟨q.command, none⟩) hq))
    exact .queued (q := ⟨q.command, none⟩) rfl rfl rfl hq
  | client i a s hi =>
    refine same rfl (hs.persists (fun i c _ => .of_same rfl rfl .rfl .rfl rfl) ?_ hs.asking)
    intro j t ht
    have hget := Hub.getElem?_setSession h { s with line.wire := a.on s.line.wire } hi j
    by_cases hj : j = i
    · subst hj
      rw [hi] at ht
      cases ht
      exact ⟨_, hget.trans (if_pos rfl), rfl⟩
    · exact ⟨t, (hget.trans (if_neg hj)).trans ht, rfl⟩
  | nobody i a hi => exact same rfl hs
  | passed ms clock =>
    exact same rfl (hs.persists (fun i c _ => .of_same rfl rfl .rfl .rfl rfl) kept hs.asking)

theorem Hub.Run.situated {start h : Hub} {ms : List Hub.Moment} (hr : Hub.Run start ms h)
    (hs : start.Fresh) (hn : (Hub.connections ms).length ≤ UInt64.size) :
    Situated (Hub.connections ms) h := by
  induction hr with
  | nil =>
    obtain ⟨settings, registry, verifier, channels, clock, rfl⟩ := hs
    exact ⟨fun _ _ hc => (nomatch hc), List.nodup_nil⟩
  | snoc hr ha ih =>
    rw [Hub.connections_snoc] at hn ⊢
    have hle : (Hub.connections _).length ≤ UInt64.size :=
      Nat.le_trans (List.sublist_append_left _ _).length_le hn
    have hl := hr.ledger hs
    exact (ih hle).acts hl hle (Hub.acts_of_act hl.running ha)

theorem Hub.Run.sound {start h : Hub} {ms : List Hub.Moment} (hr : Hub.Run start ms h)
    (hs : start.Fresh) (hp : ∀ t ∈ ms, t.action.OverPipe) : h.Sound := by
  induction hr with
  | nil =>
    obtain ⟨settings, registry, verifier, channels, clock, rfl⟩ := hs
    exact fun _ hs => nomatch hs
  | snoc hr ha ih =>
    have hp' := fun t ht => hp t (List.mem_append_left _ ht)
    have hlast := hp _ (List.mem_append_right _ (List.mem_singleton_self _))
    exact (ih hp').acts (Hub.acts_of_act (hr.ledger hs).running ha) hlast

/-! ## Where everything waits -/

/-- Nothing moves without the clock or new input. -/
def Hub.Still (h : Hub) : Prop := ∀ m, h.move m = none

def Session.Writing (s : Session) (now : Nat) (f : Frame) (deadline : Nat) : Prop :=
  (s.line.send f).2 = .waiting ∧ now < deadline

def Inbound.Reads : Inbound → Prop
  | .running _ _ => True
  | _ => False

def Outbound.Serves : Outbound → Prop
  | .idle _ => True
  | .writing _ _ _ _ => True
  | _ => False

inductive Situation
  | admitting
  | live
  | draining
  | finished
deriving DecidableEq, Repr

inductive Shows (h : Hub) (s : Session) (c : Handle) : Situation → Prop
  | greeting (deadline : Nat) (hp : s.phase = .greeting c deadline)
      (hw : s.Writing h.now (ServerFrame.authSuccess c.user).frame deadline)
      (hz : s.line.closeCalls? = some 0) : Shows h s c .admitting
  | rejecting (why : AdmitError) (deadline : Nat)
      (hp : s.phase = .rejecting why deadline (some c.endpoint))
      (hw : s.Writing h.now (ServerFrame.authFailed why.reason).frame deadline)
      (he : c ∉ h.service.members.entries) (hz : s.line.closeCalls? = some 0) :
      Shows h s c .admitting
  | live (inbound : Inbound) (outbound : Outbound) (hp : s.phase = .admitted c inbound outbound)
      (hi : inbound.Reads) (ho : outbound.Serves)
      (he : h.service.members.find? c.user = some c)
      (hm : h.service.members.isClosed c = false) (hz : s.line.closeCalls? = some 0) :
      Shows h s c .live
  | draining (exit : InboundExit) (f : Frame) (keeping : Bool) (deadline : Nat)
      (keepalive : Registry.Ticker)
      (hp : s.phase = .admitted c (.ended exit) (.writing f keeping deadline keepalive))
      (hw : s.Writing h.now f deadline) (he : c ∉ h.service.members.entries)
      (hm : h.service.members.isClosed c = true) (hz : s.line.closeCalls? = some 0) :
      Shows h s c .draining
  | ended (exit : InboundExit) (exit' : OutboundExit)
      (hp : s.phase = .admitted c (.ended exit) (.ended exit'))
      (he : c ∉ h.service.members.entries) (hz : s.line.closeCalls? = some 1) :
      Shows h s c .finished
  | refused (why : AdmitError) (hp : s.phase = .refused why)
      (he : c ∉ h.service.members.entries) (hz : s.line.closeCalls? = some 1) :
      Shows h s c .finished

/-- The situation that goes with a phase, if nothing moves in it. -/
def Phase.situation? : Phase → Option Situation
  | .greeting _ _ => some .admitting
  | .rejecting _ _ _ => some .admitting
  | .admitted _ (.running _ _) _ => some .live
  | .admitted _ (.ended _) (.writing _ _ _ _) => some .draining
  | .admitted _ (.ended _) (.ended _) => some .finished
  | .refused _ => some .finished
  | _ => none

theorem Shows.situation? {h : Hub} {s : Session} {c : Handle} {x : Situation}
    (hx : Shows h s c x) : s.phase.situation? = some x := by
  cases hx with
  | greeting deadline hp => rw [hp]; rfl
  | rejecting why deadline hp => rw [hp]; rfl
  | live inbound outbound hp hi =>
    rw [hp]
    cases inbound with
    | running deadline followed => rfl
    | _ => cases hi
  | draining exit f keeping deadline keepalive hp => rw [hp]; rfl
  | ended exit exit' hp => rw [hp]; rfl
  | refused why hp => rw [hp]; rfl

theorem Shows.unique {h : Hub} {s : Session} {c : Handle} {x y : Situation}
    (hx : Shows h s c x) (hy : Shows h s c y) : x = y :=
  Option.some.inj (hx.situation?.symm.trans hy.situation?)

namespace Hub

variable {h : Hub} {i : Nat}

theorem step_of_admission_none {s : Session} (hm : h.move (.admission i) = none)
    (hi : h.sessions[i]? = some s) : Admission.step h.surroundings i h.desk s = none := by
  simp only [move, hi, Option.bind_eq_bind, Option.bind_some] at hm
  cases hs : Admission.step h.surroundings i h.desk s with
  | none => rfl
  | some o =>
    rw [hs] at hm
    cases hm

variable {line : Line} {c : Handle} {inbound : Inbound} {outbound : Outbound}

theorem step_of_inbound_none (hm : h.move (.inbound i) = none)
    (hi : h.sessions[i]? = some ⟨line, .admitted c inbound outbound⟩) :
    inbound.step h.surroundings c line h.service = none := by
  simp only [move, hi, Option.bind_eq_bind, Option.bind_some] at hm
  cases hs : inbound.step h.surroundings c line h.service with
  | none => rfl
  | some o =>
    rw [hs] at hm
    cases hm

theorem step_of_outbound_none (hm : h.move (.outbound i) = none)
    (hi : h.sessions[i]? = some ⟨line, .admitted c inbound outbound⟩) :
    outbound.step h.surroundings c line h.service = none := by
  simp only [move, hi, Option.bind_eq_bind, Option.bind_some] at hm
  cases hs : outbound.step h.surroundings c line h.service with
  | none => rfl
  | some o =>
    rw [hs] at hm
    cases hm

end Hub

namespace Hub.Still

variable {h : Hub}

theorem queue (hs : h.Still) : h.service.queue = [] := by
  have := hs .serve
  simp only [move] at this
  split at this
  · rename_i hempty
    exact List.isEmpty_iff.mp hempty
  · cases this

theorem hasRoom (hs : h.Still) (hcap : 0 < h.service.capacity) : h.service.hasRoom = true := by
  unfold Service.hasRoom
  rw [hs.queue]
  simpa using hcap

end Hub.Still

theorem Outbound.step_isSome_of_keepAlive {e : Surroundings} {c : Handle} {line : Line}
    {v : Service} {outbound : Outbound} (hs : (outbound.keepAlive e line v).isSome = true) :
    (outbound.step e c line v).isSome = true := by
  cases outbound with
  | idle keepalive =>
    simp only [step]
    split
    · rfl
    · rfl
    · exact hs
  | _ => cases hs

/-- The parts are asked in a fixed order, and when the last of them has to wait nothing moves: where
a ping is due, its loop has something to do already. -/
theorem Hub.still_iff_advanceOne {h : Hub} : h.Still ↔ h.advanceOne = none := by
  unfold advanceOne
  rw [List.findSome?_eq_none_iff]
  constructor
  · intro hs m _
    exact hs m
  · intro hs
    have outside {α : Type} (i : Nat) (f : Session → Option α) (hi : h.sessions.length ≤ i) :
        h.sessions[i]?.bind f = none := by
      rw [List.getElem?_eq_none hi]
      rfl
    have inside (i : Nat) (part : Nat → Move)
        (hmem : i ∈ List.range h.sessions.length → part i ∈ h.moves)
        (hout : h.sessions.length ≤ i → h.move (part i) = none) : h.move (part i) = none := by
      by_cases hi : i < h.sessions.length
      · exact hs _ (hmem (List.mem_range.mpr hi))
      · exact hout (Nat.le_of_not_lt hi)
    have houtbound (i : Nat) : h.move (.outbound i) = none :=
      inside i .outbound (fun hi => by simp [moves, List.mem_range.mp hi]) (outside i _)
    intro m
    cases m with
    | serve => exact hs _ List.mem_cons_self
    | sweep => exact hs _ (List.mem_cons_of_mem _ List.mem_cons_self)
    | admission i =>
      exact inside i .admission (fun hi => by simp [moves, List.mem_range.mp hi]) (outside i _)
    | inbound i =>
      exact inside i .inbound (fun hi => by simp [moves, List.mem_range.mp hi]) (outside i _)
    | outbound i => exact houtbound i
    | keepalive i =>
      cases hi : h.sessions[i]? with
      | none => simp [move, hi]
      | some s =>
        obtain ⟨line, phase⟩ := s
        cases phase with
        | admitted c inbound outbound =>
          have hnone := step_of_outbound_none (houtbound i) hi
          cases hk : outbound.keepAlive h.surroundings line h.service with
          | none => simp [move, hi, hk]
          | some o =>
            have := Outbound.step_isSome_of_keepAlive (c := c) (by rw [hk]; rfl)
            rw [hnone] at this
            cases this
        | _ => simp [move, hi]

/-! ## What a part waits for -/

section

variable {e : Surroundings} {i : Nat} {d : Desk} {line : Line} {c : Handle} {v : Service}

theorem Admission.greeting_waits {deadline : Nat}
    (hs : step e i d ⟨line, .greeting c deadline⟩ = none) :
    Session.Writing ⟨line, .greeting c deadline⟩ e.now (ServerFrame.authSuccess c.user).frame
      deadline := by
  unfold Session.Writing
  simp only [step] at hs
  generalize line.send (ServerFrame.authSuccess c.user).frame = o at hs ⊢
  obtain ⟨line', r⟩ := o
  cases r with
  | sent => cases hs
  | failed err => cases hs
  | waiting =>
    dsimp only at hs
    split at hs
    · cases hs
    · rename_i hd
      exact ⟨rfl, Nat.lt_of_not_le hd⟩

theorem Admission.rejecting_waits {why : AdmitError} {deadline : Nat} {endpoint : Option Nat}
    (hs : step e i d ⟨line, .rejecting why deadline endpoint⟩ = none) :
    Session.Writing ⟨line, .rejecting why deadline endpoint⟩ e.now
      (ServerFrame.authFailed why.reason).frame deadline := by
  unfold Session.Writing
  simp only [step] at hs
  generalize line.send (ServerFrame.authFailed why.reason).frame = o at hs ⊢
  obtain ⟨line', r⟩ := o
  cases r with
  | sent => cases hs
  | failed err => cases hs
  | waiting =>
    dsimp only at hs
    split at hs
    · cases hs
    · rename_i hd
      exact ⟨rfl, Nat.lt_of_not_le hd⟩

theorem Inbound.waits {inbound : Inbound} (hroom : v.hasRoom = true)
    (hs : inbound.step e c line v = none) :
    (inbound.Reads ∧ ¬v.Signalled c) ∨ (∃ exit, inbound = .ended exit) ∨ inbound = .absent := by
  cases inbound with
  | running deadline followed =>
    simp only [step] at hs
    split at hs
    · cases hs
    · rename_i hsig
      exact .inl ⟨trivial, hsig⟩
  | leaving exit =>
    simp only [step, hroom, Bool.not_true, Bool.and_false, Bool.false_eq_true, if_false] at hs
    cases hs
  | ended exit => exact .inr (.inl ⟨exit, rfl⟩)
  | absent => exact .inr (.inr rfl)

theorem Outbound.waits {outbound : Outbound} (hs : outbound.step e c line v = none) :
    ((∃ keepalive, outbound = .idle keepalive) ∧ ¬v.Signalled c) ∨
      (∃ f keeping deadline keepalive, outbound = .writing f keeping deadline keepalive ∧
        (line.send f).2 = .waiting ∧ e.now < deadline) ∨
      (∃ exit, outbound = .ended exit) ∨ outbound = .absent := by
  cases outbound with
  | idle keepalive =>
    refine .inl ⟨⟨keepalive, rfl⟩, fun hsig => ?_⟩
    unfold Service.Signalled at hsig
    simp only [step, Mailbox.take, hsig, if_true] at hs
    cases hs
  | writing f keeping deadline keepalive =>
    refine .inr (.inl ⟨f, keeping, deadline, keepalive, rfl, ?_⟩)
    simp only [step] at hs
    generalize line.send f = o at hs ⊢
    obtain ⟨line', r⟩ := o
    cases r with
    | sent => cases hs
    | failed err => cases hs
    | waiting =>
      dsimp only at hs
      split at hs
      · cases hs
      · rename_i hd
        exact ⟨rfl, Nat.lt_of_not_le hd⟩
  | closing exit => cases hs
  | ended exit => exact .inr (.inr (.inl ⟨exit, rfl⟩))
  | absent => exact .inr (.inr (.inr rfl))

end

/-! ## Every connection, once nothing moves -/

theorem Hub.Still.not_doomed {h : Hub} (hs : h.Still) (c : Handle) : ¬h.service.Doomed c := by
  rintro ⟨q, hq, -⟩
  rw [hs.queue] at hq
  cases hq

theorem Hub.Still.not_asked {h : Hub} (hs : h.Still) (c : Handle) : ¬h.service.Asked c := by
  unfold Service.Asked Service.asking
  rw [hs.queue]
  exact List.not_mem_nil

section

variable {conns : List (Nat × Handle)} {h : Hub} {i : Nat} {line : Line} {c : Handle}
  {inbound : Inbound} {outbound : Outbound}

theorem Standing.shows_live (hst : Standing h.service i c (.admitted c inbound outbound))
    (hl : Ledger conns h) (hs : h.Still)
    (hi : h.sessions[i]? = some ⟨line, .admitted c inbound outbound⟩)
    (hz : Session.Sound ⟨line, .admitted c inbound outbound⟩) (hreads : inbound.Reads)
    (hsig : ¬h.service.Signalled c) : Shows h ⟨line, .admitted c inbound outbound⟩ c .live := by
  have hout := Outbound.waits (Hub.step_of_outbound_none (hs _) hi)
  cases hst with
  | admitted _ _ ha hlisted hover hstop hab hx =>
    have hlive : outbound.Serves := by
      rcases hout with ⟨⟨k, rfl⟩, -⟩ | ⟨f, keeping, deadline, k, rfl, -⟩ | ⟨exit, rfl⟩ | habs
      · trivial
      · trivial
      · exact absurd (hstop trivial) hsig
      · exact absurd habs hx.2
    have hentry := hl.keyed.find?_eq_some.mpr (hlisted hsig)
    have hnot : ¬outbound.Over := by
      cases outbound with
      | ended exit => exact False.elim hlive
      | _ => exact id
    have hopen : h.service.members.isClosed c = false := by
      unfold Membership.isClosed Mailbox.isClosed
      rw [Bool.or_eq_false_iff]
      exact ⟨Bool.eq_false_iff.mpr hsig, Bool.eq_false_iff.mpr fun hb => hnot (hab.mp hb)⟩
    have hzero : line.closeCalls? = some 0 := by
      cases outbound with
      | ended exit => exact False.elim hlive
      | _ => exact hz
    exact .live inbound outbound rfl hreads hlive hentry hopen hzero

theorem Standing.shows_over {exit : InboundExit}
    (hst : Standing h.service i c (.admitted c (.ended exit) outbound)) (hs : h.Still)
    (hi : h.sessions[i]? = some ⟨line, .admitted c (.ended exit) outbound⟩)
    (hz : Session.Sound ⟨line, .admitted c (.ended exit) outbound⟩) :
    ∃ x, Shows h ⟨line, .admitted c (.ended exit) outbound⟩ c x := by
  have hout := Outbound.waits (Hub.step_of_outbound_none (hs _) hi)
  cases hst with
  | admitted _ _ ha hlisted hover hstop hab hx =>
    obtain ⟨hsig, hdoom⟩ := hover trivial
    have hleft : c ∉ h.service.members.entries := fun hmem => hs.not_doomed c (hdoom hmem)
    have hclosed : h.service.members.isClosed c = true := by
      unfold Membership.isClosed Mailbox.isClosed
      rw [Bool.or_eq_true]
      exact .inl hsig
    rcases hout with ⟨-, hnsig⟩ | ⟨f, keeping, deadline, k, rfl, hw⟩ | ⟨exit', rfl⟩ | habs
    · exact absurd hsig hnsig
    · exact ⟨.draining, .draining exit f keeping deadline k rfl hw hleft hclosed hz⟩
    · exact ⟨.finished, .ended exit exit' rfl hleft hz⟩
    · exact absurd habs hx.2

end

/-- A connection that stands as its phase says, in a hub where nothing moves, is somewhere. -/
theorem Standing.shows {conns : List (Nat × Handle)} {h : Hub} {i : Nat} {s : Session}
    {c : Handle} (hst : Standing h.service i c s.phase) (hl : Ledger conns h) (hs : h.Still)
    (hi : h.sessions[i]? = some s) (hz : s.Sound) : ∃ x, Shows h s c x := by
  have hroom := hs.hasRoom hl.roomy
  obtain ⟨line, phase⟩ := s
  have hadmission := Hub.step_of_admission_none (hs _) hi
  cases hst with
  | fresh =>
    simp only [Admission.step, Hub.desk, hl.running, hroom, Bool.not_true, Bool.false_eq_true,
      if_false, if_true] at hadmission
    cases hadmission
  | waiting ha => exact absurd ha (hs.not_asked c)
  | granted ha r hr =>
    simp only [Admission.step, Hub.desk, Service.collect, hr] at hadmission
    cases hadmission
  | denied ha err hr =>
    simp only [Admission.step, Hub.desk, Service.collect, hr] at hadmission
    cases hadmission
  | greeting deadline =>
    exact ⟨.admitting, .greeting deadline rfl (Admission.greeting_waits hadmission) hz⟩
  | withdrawing err =>
    simp only [Admission.step, Hub.desk, hl.running, hroom, Bool.not_true, Bool.and_false,
      Bool.false_eq_true, if_false] at hadmission
    cases hadmission
  | rejecting why deadline ha hlisted =>
    exact ⟨.admitting,
      .rejecting why deadline rfl (Admission.rejecting_waits hadmission) hlisted hz⟩
  | refused why ha hlisted =>
    exact ⟨.finished, .refused why rfl (fun h => hs.not_doomed c (hlisted h)) hz⟩
  | admitted inbound outbound ha hlisted hover hstop hab hx =>
    have hst : Standing h.service i c (.admitted c inbound outbound) :=
      .admitted inbound outbound ha hlisted hover hstop hab hx
    rcases Inbound.waits hroom (Hub.step_of_inbound_none (hs _) hi) with
      ⟨hreads, hsig⟩ | ⟨exit, rfl⟩ | habs
    · exact ⟨.live, hst.shows_live hl hs hi hz hreads hsig⟩
    · exact hst.shows_over hs hi hz
    · exact absurd habs hx.1

/-- What a hub owes to its connections once nothing moves. -/
structure Settled (conns : List (Nat × Handle)) (h : Hub) : Prop where
  counted : h.nextId = conns.length + 1
  placed : ∀ i c, (i, c) ∈ conns → ∃ s, h.sessions[i]? = some s ∧ ∃! x, Shows h s c x
  /-- Whoever is registered has an open mailbox, and is being greeted or live. -/
  registered : ∀ c ∈ h.service.members.entries, h.service.members.isClosed c = false ∧
    ∃ i s, (i, c) ∈ conns ∧ h.sessions[i]? = some s ∧
      (Shows h s c .admitting ∨ Shows h s c .live)

theorem Situated.settled {conns : List (Nat × Handle)} {h : Hub} (hst : Situated conns h)
    (hl : Ledger conns h) (hz : h.Sound) (hs : h.Still) : Settled conns h where
  counted := hl.next
  placed i c hc := by
    obtain ⟨s, hi, hstand⟩ := hst.standing i c hc
    obtain ⟨x, hx⟩ := hstand.shows hl hs hi (hz s (List.mem_of_getElem? hi))
    exact ⟨s, hi, x, hx, fun y hy => hy.unique hx⟩
  registered c hmem := by
    obtain ⟨i, hc⟩ := hl.listed c hmem
    obtain ⟨s, hi, hstand⟩ := hst.standing i c hc
    obtain ⟨x, hx⟩ := hstand.shows hl hs hi (hz s (List.mem_of_getElem? hi))
    cases hx with
    | greeting deadline hp hw hzero =>
      refine ⟨?_, i, s, hc, hi, .inl (.greeting deadline hp hw hzero)⟩
      rw [hp] at hstand
      cases hstand with
      | greeting _ ha hlisted hb =>
        unfold Membership.isClosed Mailbox.isClosed
        rw [Bool.or_eq_false_iff]
        exact ⟨Bool.eq_false_iff.mpr (hlisted.mp hmem), Bool.eq_false_iff.mpr hb⟩
    | rejecting why deadline hp hw he => exact absurd hmem he
    | live inbound outbound hp hin hout he hm hzero =>
      exact ⟨hm, i, s, hc, hi, .inr (.live inbound outbound hp hin hout he hm hzero)⟩
    | draining exit f keeping deadline keepalive hp hw he => exact absurd hmem he
    | ended exit exit' hp he => exact absurd hmem he
    | refused why hp he => exact absurd hmem he

/-- Numbers are words, so those of more than `UInt64.size` connections would not tell them apart. -/
theorem Hub.Run.settles {start h : Hub} {ms : List Hub.Moment} (hr : Hub.Run start ms h)
    (hs : start.Fresh) (hp : ∀ t ∈ ms, t.action.OverPipe)
    (hn : (Hub.connections ms).length ≤ UInt64.size) :
    (∀ s ∈ h.sessions, ∃ n, s.line.closeCalls? = some n ∧ n ≤ 1) ∧
      (h.Still → Settled (Hub.connections ms) h) := by
  have hz := hr.sound hs hp
  constructor
  · intro s hmem
    exact ⟨s.phase.closings, hz s hmem, s.phase.closings_le⟩
  · exact (hr.situated hs hn).settled (hr.ledger hs) hz

namespace Hub

theorem tookOver_settles : tookOver.2.Still ∧ Settled (connections tookOver.1) tookOver.2 ∧
    connections tookOver.1 = [(0, ⟨⟨1⟩, ⟨5, by decide⟩, 0⟩), (1, ⟨⟨2⟩, ⟨5, by decide⟩, 1⟩)] ∧
    (tookOver.2.sessions.map fun s => s.phase.situation?) = [some .draining, some .live] := by
  have hpipe : ∀ t ∈ tookOver.1, t.action.OverPipe := by
    intro t hmem
    have haction : t.action ∈ takeover := map_action_trace trace_takeover ▸ List.mem_map_of_mem hmem
    have hall : ∀ a ∈ takeover, a.OverPipe := by
      simp [takeover, Action.OverPipe, Line.closeCalls?, Wire.closeCalls?, Pipe.create]
    exact hall t.action haction
  have hconns : connections tookOver.1 =
      [(0, ⟨⟨1⟩, ⟨5, by decide⟩, 0⟩), (1, ⟨⟨2⟩, ⟨5, by decide⟩, 1⟩)] := by
    decide +kernel
  have hstill : tookOver.2.Still := by
    rw [still_iff_advanceOne]
    have hnone : tookOver.2.advanceOne.isNone = true := by decide +kernel
    exact Option.isNone_iff_eq_none.mp hnone
  have hfew : (connections tookOver.1).length ≤ UInt64.size := by
    rw [hconns]
    decide
  have hfresh : plain.Fresh := ⟨_, _, _, _, _, rfl⟩
  exact ⟨hstill, ((run_of_trace trace_takeover).settles hfresh hpipe hfew).2 hstill, hconns,
    by decide +kernel⟩

end Hub

end PushHub
