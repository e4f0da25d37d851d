import PushHub.Proofs.Hub.Following
import PushHub.Proofs.Hub.Speech

/-! What the loop of a session takes up from an in-memory transport: the frames that its client sent,
each once and in their order, and none before the session is admitted. -/
namespace PushHub

open Registry (Handle)

def Pipe.line (p : Pipe) : Line := ⟨.pipe p, {}⟩

namespace Pipe

theorem line_send (p : Pipe) (f : Frame) : p.line.send f = ((p.send f).1.line, (p.send f).2) := by
  unfold send
  cases hshut : p.closed || p.peerGone with
  | true => simp [Line.send, line, Wire.send, send, hshut, Line.countSend]
  | false =>
    by_cases hfull : p.capacity ≤ p.toPeer.length <;>
      simp [Line.send, line, Wire.send, send, hshut, hfull, Line.countSend]

theorem line_receive (p : Pipe) : p.line.receive = (p.receive.1.line, p.receive.2) := by
  have hwire : p.line.wire.receive = (.pipe p.receive.1, p.receive.2) := rfl
  unfold Line.receive
  rw [hwire, if_neg (by simp [line])]
  cases p.receive.2 <;> rfl

theorem fromPeer_of_failed {p : Pipe} {err : TransportError} (h : p.receive.2 = .failed err) :
    p.closed = true ∨ p.fromPeer = [] := by
  unfold receive at h
  split at h
  · rename_i hclosed
    exact .inl hclosed
  · split at h
    · cases h
    · rename_i hnone
      exact .inr hnone

end Pipe

def Phase.isHandshake : Phase → Bool
  | .prompting _ => true
  | .awaiting _ => true
  | _ => false

/-- Phases after which a loop may take up a frame. -/
def Phase.mayHear : Phase → Bool
  | .registering _ _ => true
  | .greeting _ _ => true
  | .admitted _ (.running _ _) _ => true
  | _ => false

namespace Session

/-- A session past its handshake moves on, and its loop takes up `f?`. -/
structure Listens (p : Pipe) (s : Session) (f? : Option Frame) (s' : Session) : Prop where
  line : ∃ p' : Pipe, s'.line = p'.line ∧
    (s'.phase.mayHear = true → s.phase.mayHear = true ∧ p.fromPeer = f?.toList ++ p'.fromPeer)
  past : s'.phase.isHandshake = false
  stays : s.phase.isAdmitted = true → s'.phase.isAdmitted = true
  heard : ∀ f ∈ f?, s.phase.isAdmitted = true ∧ s.phase.mayHear = true ∧
    p.fromPeer.head? = some f

section

variable {e : Surroundings} {i : Nat} {d d' : Desk} {p : Pipe} {phase : Phase} {s s' : Session}
  {m : Move}

theorem Listens.silent {s : Session} (p' : Pipe) (hline : s'.line = p'.line)
    (hpeer : p'.fromPeer = p.fromPeer) (hpast : s'.phase.isHandshake = false)
    (hstays : s.phase.isAdmitted = true → s'.phase.isAdmitted = true)
    (hhears : s'.phase.mayHear = true → s.phase.mayHear = true) : Listens p s none s' where
  line := ⟨p', hline, fun hs' => ⟨hhears hs', hpeer.symm⟩⟩
  past := hpast
  stays := hstays
  heard _ hf := nomatch hf

theorem Listens.over {s : Session} (p' : Pipe) (hline : s'.line = p'.line)
    (hpast : s'.phase.isHandshake = false)
    (hstays : s.phase.isAdmitted = true → s'.phase.isAdmitted = true)
    (hover : s'.phase.mayHear = false) : Listens p s none s' where
  line := ⟨p', hline, fun hs' => nomatch hover.symm.trans hs'⟩
  past := hpast
  stays := hstays
  heard _ hf := nomatch hf

theorem listens_of_rejecting {why : AdmitError} {deadline : Nat} {endpoint : Option Nat}
    (hs : Admission.step e i d ⟨p.line, .rejecting why deadline endpoint⟩ = some (d', s')) :
    Listens p ⟨p.line, .rejecting why deadline endpoint⟩ none s' := by
  simp only [Admission.step, Pipe.line_send] at hs
  generalize p.send (ServerFrame.authFailed why.reason).frame = o at hs
  obtain ⟨p', r⟩ := o
  have hover (p' : Pipe) : Listens p ⟨p.line, .rejecting why deadline endpoint⟩ none
      (Admission.refuse d p'.line why endpoint).2 :=
    .over p'.close.dropSink.dropSource rfl rfl id rfl
  cases r with
  | waiting =>
    dsimp only at hs
    split at hs
    · cases hs
      exact hover p'
    · cases hs
  | _ =>
    cases hs
    exact hover p'

theorem listens_of_registering {c : Handle} {asked : Bool}
    (hs : Admission.step e i d ⟨p.line, .registering c asked⟩ = some (d', s')) :
    Listens p ⟨p.line, .registering c asked⟩ none s' := by
  cases asked with
  | false =>
    simp only [Admission.step] at hs
    split at hs
    · cases hs
      exact .over p rfl rfl id rfl
    · split at hs
      · cases hs
        exact .silent p rfl rfl rfl id id
      · cases hs
  | true =>
    simp only [Admission.step] at hs
    split at hs
    · cases hs
      exact .silent p rfl rfl rfl id fun _ => rfl
    · cases hs
      exact .over p rfl rfl id rfl
    · split at hs
      · cases hs
      · cases hs
        exact .over p rfl rfl id rfl

theorem listens_of_greeting {c : Handle} {deadline : Nat}
    (hs : Admission.step e i d ⟨p.line, .greeting c deadline⟩ = some (d', s')) :
    Listens p ⟨p.line, .greeting c deadline⟩ none s' := by
  have hpeer := p.fromPeer_send (ServerFrame.authSuccess c.user).frame
  simp only [Admission.step, Pipe.line_send] at hs
  generalize p.send (ServerFrame.authSuccess c.user).frame = o at hs hpeer
  obtain ⟨p', r⟩ := o
  cases r with
  | sent =>
    cases hs
    exact .silent p' rfl hpeer rfl (fun _ => rfl) fun _ => rfl
  | failed err =>
    cases hs
    exact .over p' rfl rfl id rfl
  | waiting =>
    dsimp only at hs
    split at hs
    · cases hs
      exact .over p' rfl rfl id rfl
    · cases hs

theorem listens_of_admission (hphase : phase.isHandshake = false)
    (hs : Admission.step e i d ⟨p.line, phase⟩ = some (d', s')) :
    Listens p ⟨p.line, phase⟩ none s' := by
  cases phase with
  | prompting => cases hphase
  | awaiting => cases hphase
  | rejecting why deadline endpoint => exact listens_of_rejecting hs
  | registering c asked => exact listens_of_registering hs
  | greeting c deadline => exact listens_of_greeting hs
  | withdrawing c err =>
    simp only [Admission.step] at hs
    split at hs
    · cases hs
    · cases hs
      exact .over p.close.dropSink.dropSource rfl rfl id rfl
  | admitted c inbound outbound => cases hs
  | refused why => cases hs

theorem listens_of_inbound
    (hs : move e d ⟨p.line, phase⟩ (.inbound i) = some (d', s')) :
    Listens p ⟨p.line, phase⟩ (hears? d.service.members.room ⟨p.line, phase⟩ (.inbound i)) s' := by
  cases phase with
  | admitted c inbound outbound =>
    obtain ⟨⟨line, v, inbound'⟩, hstep, heq⟩ := Option.map_eq_some_iff.mp hs
    cases heq
    cases inbound with
    | running deadline followed =>
      have hreceived (f : Frame) := Pipe.fromPeer_of_received (p := p) (f := f)
      rw [hears?_of_running, Pipe.line_receive]
      simp only [Inbound.step, Pipe.line_receive] at hstep
      generalize p.receive = o at hstep hreceived ⊢
      obtain ⟨p', r⟩ := o
      dsimp only at hreceived ⊢
      generalize (d.service.members.room.mailbox c.endpoint).signalled = signalled at hstep ⊢
      cases signalled with
      | true =>
        cases hstep
        cases r <;> exact .over p rfl rfl id rfl
      | false =>
        cases r with
        | frame f =>
          have hheard : ∀ g ∈ some f, Phase.isAdmitted
                (.admitted c (.running deadline followed) outbound) = true ∧
              Phase.mayHear (.admitted c (.running deadline followed) outbound) = true ∧
              p.fromPeer.head? = some g := by
            rintro g ⟨⟩
            rw [hreceived f rfl]
            exact ⟨rfl, rfl, rfl⟩
          cases f with
          | close =>
            cases hstep
            exact ⟨⟨p', rfl, fun hs => absurd hs Bool.false_ne_true⟩, rfl, id, hheard⟩
          | _ =>
            cases hstep
            exact ⟨⟨p', rfl, fun _ => ⟨rfl, hreceived _ rfl⟩⟩, rfl, id, hheard⟩
        | failed err =>
          cases hstep
          exact .over p' rfl rfl id rfl
        | waiting =>
          dsimp only at hstep
          split at hstep
          · rename_i heq
            cases heq
          · split at hstep
            · cases hstep
              exact .over p' rfl rfl id rfl
            · cases hstep
    | leaving exit =>
      simp only [Inbound.step] at hstep
      split at hstep
      · cases hstep
      · cases hstep
        exact .over p.dropSource rfl rfl id rfl
    | ended exit => cases hstep
    | absent => cases hstep
  | _ => cases hs

theorem listens_of_writing {c : Handle} {inbound : Inbound} {outbound outbound' : Outbound}
    (p' : Pipe) (hpeer : p'.fromPeer = p.fromPeer) :
    Listens p ⟨p.line, .admitted c inbound outbound⟩ none
      ⟨p'.line, .admitted c inbound outbound'⟩ := by
  refine .silent p' rfl hpeer rfl (fun _ => rfl) ?_
  cases inbound <;> exact id

theorem listens_of_keepAlive (hs : move e d ⟨p.line, phase⟩ (.keepalive i) = some (d', s')) :
    Listens p ⟨p.line, phase⟩ none s' := by
  cases phase with
  | admitted c inbound outbound =>
    obtain ⟨⟨line, v, outbound'⟩, hstep, heq⟩ := Option.map_eq_some_iff.mp hs
    cases heq
    cases outbound with
    | idle keepalive =>
      simp only [Outbound.keepAlive] at hstep
      split at hstep
      · cases hstep
        exact listens_of_writing p rfl
      · cases hstep
    | _ => cases hstep
  | _ => cases hs

theorem listens_of_outbound (hs : move e d ⟨p.line, phase⟩ (.outbound i) = some (d', s')) :
    Listens p ⟨p.line, phase⟩ none s' := by
  cases phase with
  | admitted c inbound outbound =>
    obtain ⟨⟨line, v, outbound'⟩, hstep, heq⟩ := Option.map_eq_some_iff.mp hs
    cases heq
    cases outbound with
    | idle keepalive =>
      simp only [Outbound.step] at hstep
      split at hstep
      · cases hstep
        exact listens_of_writing p rfl
      · cases hstep
        exact listens_of_writing p rfl
      · exact listens_of_keepAlive (i := i) (Option.map_eq_some_iff.mpr ⟨_, hstep, rfl⟩)
    | writing f keeping deadline keepalive =>
      have hpeer := p.fromPeer_send f
      simp only [Outbound.step, Pipe.line_send] at hstep
      generalize p.send f = o at hstep hpeer
      obtain ⟨p', r⟩ := o
      cases r with
      | waiting =>
        dsimp only at hstep
        split at hstep
        · cases hstep
          exact listens_of_writing p' hpeer
        · cases hstep
      | _ =>
        cases hstep
        exact listens_of_writing p' hpeer
    | closing exit =>
      cases hstep
      exact listens_of_writing p.close.dropSink rfl
    | ended exit => cases hstep
    | absent => cases hstep
  | _ => cases hs

theorem listens_of_move (hphase : phase.isHandshake = false) (hm : m.session? = some i)
    (hs : move e d ⟨p.line, phase⟩ m = some (d', s')) :
    Listens p ⟨p.line, phase⟩ (hears? d.service.members.room ⟨p.line, phase⟩ m) s' := by
  cases m with
  | serve => cases hm
  | sweep => cases hm
  | admission j => exact listens_of_admission hphase hs
  | inbound j => exact listens_of_inbound hs
  | outbound j => exact listens_of_outbound hs
  | keepalive j => exact listens_of_keepAlive hs

/-- A loop stops when it has heard a close or all there was, or when the hub has closed the mailbox or
the transport. -/
theorem stops_of_move {c : Handle} {deadline : Nat} {followed : SubscriptionSet}
    {outbound : Outbound}
    (hs : move e d ⟨p.line, .admitted c (.running deadline followed) outbound⟩ (.inbound i) =
      some (d', s')) (hstops : s'.phase.mayHear = false) :
    hears? d.service.members.room
        ⟨p.line, .admitted c (.running deadline followed) outbound⟩ (.inbound i) = some .close ∨
      p.fromPeer = [] ∨ (d.service.members.room.mailbox c.endpoint).signalled = true ∨
      p.closed = true := by
  obtain ⟨⟨line, v, inbound'⟩, hstep, heq⟩ := Option.map_eq_some_iff.mp hs
  cases heq
  rw [hears?_of_running, Pipe.line_receive]
  simp only [Inbound.step, Pipe.line_receive] at hstep
  split at hstep
  · rename_i hsignalled
    exact .inr (.inr (.inl hsignalled))
  · rename_i hopen
    cases hr : p.receive.2 with
    | frame f =>
      rw [hr] at hstep
      cases f with
      | close => exact .inl (if_neg hopen)
      | _ =>
        cases hstep
        cases hstops
    | failed err =>
      rcases Pipe.fromPeer_of_failed hr with hclosed | hnone
      · exact .inr (.inr (.inr hclosed))
      · exact .inr (.inl hnone)
    | waiting => exact .inr (.inl (Pipe.fromPeer_of_waiting hr))

theorem fromPeer_of_waiting {c : Handle} {deadline : Nat} {followed : SubscriptionSet}
    {outbound : Outbound}
    (hs : move e d ⟨p.line, .admitted c (.running deadline followed) outbound⟩ (.inbound i) = none) :
    p.fromPeer = [] := by
  have hstep := Option.map_eq_none_iff.mp hs
  simp only [Inbound.step, Pipe.line_receive] at hstep
  split at hstep
  · cases hstep
  · cases hr : p.receive.2 with
    | frame f =>
      rw [hr] at hstep
      cases f <;> cases hstep
    | failed err =>
      rw [hr] at hstep
      cases hstep
    | waiting => exact Pipe.fromPeer_of_waiting hr

end

end Session

def ClientAct.frame? : ClientAct → Option Frame
  | .send f => some f
  | _ => none

theorem ClientAct.on_line (a : ClientAct) (p : Pipe) :
    ∃ (p' : Pipe) (added : List Frame), a.on p.line.wire = p'.line.wire ∧
      added.Sublist a.frame?.toList ∧ p'.fromPeer = p.fromPeer ++ added := by
  cases a with
  | send f =>
    by_cases hrefused : (p.closed || !p.peerSends || !p.sourceHeld) = true
    · refine ⟨p, [], ?_, List.nil_sublist _, (List.append_nil _).symm⟩
      show Wire.pipe (p.peerSend f).1 = .pipe p
      rw [Pipe.peerSend, if_pos hrefused]
    · refine ⟨{ p with fromPeer := p.fromPeer ++ [f] }, [f], ?_, List.Sublist.refl _, rfl⟩
      show Wire.pipe (p.peerSend f).1 = _
      rw [Pipe.peerSend, if_neg hrefused]
      rfl
  | read =>
    refine ⟨p.peerRead.1, [], rfl, List.nil_sublist _, ?_⟩
    rw [List.append_nil]
    unfold Pipe.peerRead
    split
    · rfl
    · split <;> rfl
  | disconnect => exact ⟨p.disconnect, [], rfl, List.nil_sublist _, (List.append_nil _).symm⟩
  | leave => exact ⟨p.dropPeer, [], rfl, List.nil_sublist _, (List.append_nil _).symm⟩

namespace Hub

def Moment.sends? (t : Moment) (i : Nat) : Option Frame :=
  match t.action with
  | .client j a => if j = i then a.frame? else none
  | _ => none

def sends (ms : List Moment) (i : Nat) : List Frame := ms.filterMap (Moment.sends? · i)

theorem sends_snoc (ms : List Moment) (t : Moment) (i : Nat) :
    sends (ms ++ [t]) i = sends ms i ++ (t.sends? i).toList :=
  filterMap_snoc _ ms t

def heardFrames (ms : List Moment) (i : Nat) : List Frame := (heard ms i).map Prod.snd

theorem heardFrames_snoc (ms : List Moment) (t : Moment) (i : Nat) :
    heardFrames (ms ++ [t]) i = heardFrames ms i ++ ((t.heard? i).map Prod.snd).toList := by
  unfold heardFrames
  rw [heard_snoc, List.map_append]
  cases t.heard? i <;> rfl

section

variable {start h h' : Hub} {a : Action} {i : Nat} {s s' : Session} {ms before after : List Moment}
  {rest : List Frame} {t : Moment}

/-- Where a session past its handshake stands to the frames that its client sent: those taken up and
those left make up the first ones and what was added later. -/
structure Hearing (rest : List Frame) (i : Nat) (ms : List Moment) (s : Session) : Prop where
  past : s.phase.isHandshake = false
  silent : s.phase.isAdmitted = false → heard ms i = []
  read : ∃ (p : Pipe) (added left : List Frame), s.line = p.line ∧ added.Sublist (sends ms i) ∧
    heardFrames ms i ++ left = rest ++ added ∧ (s.phase.mayHear = true → p.fromPeer = left)

theorem Hearing.unmoved {p p' : Pipe} {more : List Frame} (hr : Hearing rest i ms s)
    (hline : s.line = p.line) (hline' : s'.line = p'.line) (hpast : s'.phase.isHandshake = false)
    (hstays : s.phase.isAdmitted = true → s'.phase.isAdmitted = true)
    (hheard : t.heard? i = none) (hmore : more.Sublist (t.sends? i).toList)
    (hnext : s'.phase.mayHear = true →
      s.phase.mayHear = true ∧ p'.fromPeer = p.fromPeer ++ more) :
    Hearing rest i (ms ++ [t]) s' := by
  obtain ⟨p₀, added, left, hline₀, hadded, hall, hleft⟩ := hr.read
  cases hline₀.symm.trans hline
  refine ⟨hpast, fun hs' => ?_, p', added ++ more, left ++ more, hline', ?_, ?_, fun hs' => ?_⟩
  · rw [heard_snoc, hheard, hr.silent]
    · rfl
    · exact Bool.eq_false_iff.mpr fun hs => by rw [hstays hs] at hs'; cases hs'
  · rw [sends_snoc]
    exact hadded.append hmore
  · rw [heardFrames_snoc, hheard, ← List.append_assoc rest, ← hall]
    simp
  · obtain ⟨hs, hpeer⟩ := hnext hs'
    rw [hpeer, hleft hs]

theorem Hearing.taken {p : Pipe} {f : Frame} (hr : Hearing rest i ms s) (hline : s.line = p.line)
    (hlistens : Session.Listens p s (some f) s') (hheard : (t.heard? i).map Prod.snd = some f) :
    Hearing rest i (ms ++ [t]) s' := by
  obtain ⟨p₀, added, left, hline₀, hadded, hall, hleft⟩ := hr.read
  cases hline₀.symm.trans hline
  obtain ⟨p', hline', hnext⟩ := hlistens.line
  obtain ⟨hadmitted, hs, hhead⟩ := hlistens.heard f rfl
  obtain ⟨others, hothers⟩ := List.head?_eq_some_iff.mp hhead
  refine ⟨hlistens.past, fun hs' => ?_, p', added, others, hline', ?_, ?_, fun hs' => ?_⟩
  · rw [hlistens.stays hadmitted] at hs'
    cases hs'
  · rw [sends_snoc]
    exact hadded.trans (List.sublist_append_left _ _)
  · rw [heardFrames_snoc, hheard, ← hall, ← hleft hs, hothers]
    simp
  · have hpeer := (hnext hs').2
    rw [hothers] at hpeer
    exact (List.cons.inj hpeer).2.symm

theorem Hearing.turned (hr : Hearing rest i ms s) (hi : h.sessions[i]? = some s)
    (hturn : h.Turn i s a h' s') : Hearing rest i (ms ++ [⟨h, a, h'⟩]) s' := by
  obtain ⟨p, -, -, hline, -⟩ := hr.read
  obtain ⟨line, phase⟩ := s
  dsimp only at hline
  subst hline
  cases hturn with
  | own m d s' hm hmove =>
    have hlistens := Session.listens_of_move hr.past hm hmove
    have hheard : Moment.heard? ⟨h, .move m,
        { h with service := d.service, nextId := d.nextId }.setSession i s'⟩ i = _ :=
      heard?_of_own hm hi
    rw [show h.desk.service = h.service from rfl] at hlistens
    generalize Session.hears? h.service.members.room ⟨p.line, phase⟩ m = f? at hheard hlistens
    cases f? with
    | none =>
      obtain ⟨p', hline', hnext⟩ := hlistens.line
      refine hr.unmoved rfl hline' hlistens.past hlistens.stays hheard (List.nil_sublist _)
        fun hs' => ?_
      obtain ⟨hs, hpeer⟩ := hnext hs'
      exact ⟨hs, by rw [hpeer]; simp⟩
    | some f => exact hr.taken rfl hlistens (congrArg (Option.map Prod.snd) hheard)
  | client c =>
    obtain ⟨p', more, hwire, hmore, hpeer⟩ := c.on_line p
    have hsends : Moment.sends? ⟨h, .client i c, h.setSession i
        { (⟨p.line, phase⟩ : Session) with line.wire := c.on p.line.wire }⟩ i = c.frame? :=
      if_pos rfl
    have hline' : Line.mk (c.on p.line.wire) p.line.faults = p'.line := by
      rw [hwire]
      rfl
    exact hr.unmoved rfl hline' hr.past id rfl (hsends ▸ hmore) fun hs' => ⟨hs', hpeer⟩
  | other a h' ha hne =>
    exact hr.unmoved rfl rfl hr.past id (unheard (own?_of_ne hne)).1 (List.nil_sublist _)
      fun hs' => ⟨hs', (List.append_nil _).symm⟩

theorem Hearing.opened {p : Pipe} {phase : Phase} (hpast : phase.isHandshake = false)
    (hread : p.fromPeer = rest) : Hearing rest i [] ⟨p.line, phase⟩ :=
  ⟨hpast, fun _ => rfl, p, [], rest, rfl, List.Sublist.refl _, by simp [heardFrames, heard],
    fun _ => hread⟩

theorem Run.hearing (hrun : Run start ms h) (hi : start.sessions[i]? = some s)
    (hs : Hearing rest i [] s) : ∃ s', h.sessions[i]? = some s' ∧ Hearing rest i ms s' := by
  induction hrun with
  | nil => exact ⟨s, hi, hs⟩
  | snoc hrun ha ih =>
    obtain ⟨s', hi', hr⟩ := ih
    obtain ⟨s'', hi'', hturn⟩ := turn_of_act hi' ha
    exact ⟨s'', hi'', hr.turned hi' hturn⟩

/-! ## What is heard of a client -/

/-- What the loop of a session takes up of the frames `rest` that its client sent, and of those that it
sends later. -/
structure Hears (rest : List Frame) (i : Nat) (ms : List Moment) (h : Hub) : Prop where
  silent : ∀ s : Session, h.sessions[i]? = some s → s.phase.isAdmitted = false → heard ms i = []
  ordered : ∃ added : List Frame, added.Sublist (sends ms i) ∧
    heardFrames ms i <+: rest ++ added
  whole : ∀ (s : Session) (c : Handle) (deadline : Nat) (followed : SubscriptionSet)
    (outbound : Outbound), h.sessions[i]? = some s →
    s.phase = .admitted c (.running deadline followed) outbound → h.move (.inbound i) = none →
    rest <+: heardFrames ms i
  /-- A loop that stops before has heard a close, or the hub has closed its mailbox or its transport. -/
  stops : ∀ before t after, ms = before ++ t :: after → ∀ (s s' : Session) (c : Handle)
    (deadline : Nat) (followed : SubscriptionSet) (outbound : Outbound),
    t.before.sessions[i]? = some s → t.after.sessions[i]? = some s' →
    s.phase = .admitted c (.running deadline followed) outbound → s'.phase.mayHear = false →
    rest <+: heardFrames before i ∨ (t.heard? i).map Prod.snd = some .close ∨
      (t.before.service.members.room.mailbox c.endpoint).signalled = true ∨
      s.line.wire.isShut = true

theorem Hearing.all {p : Pipe} {c : Handle} {deadline : Nat} {followed : SubscriptionSet}
    {outbound : Outbound}
    (hr : Hearing rest i ms ⟨p.line, .admitted c (.running deadline followed) outbound⟩)
    (hnone : p.fromPeer = []) : rest <+: heardFrames ms i := by
  obtain ⟨p', added, left, hline, -, hall, hleft⟩ := hr.read
  cases hline
  rw [← hleft rfl, hnone, List.append_nil] at hall
  exact ⟨added, hall.symm⟩

theorem Hearing.stopped {c : Handle} {deadline : Nat} {followed : SubscriptionSet}
    {outbound : Outbound} (hr : Hearing rest i ms s) (hi : h.sessions[i]? = some s)
    (hturn : h.Turn i s a h' s') (hp : s.phase = .admitted c (.running deadline followed) outbound)
    (hstops : s'.phase.mayHear = false) :
    rest <+: heardFrames ms i ∨ (Moment.heard? ⟨h, a, h'⟩ i).map Prod.snd = some .close ∨
      (h.service.members.room.mailbox c.endpoint).signalled = true ∨ s.line.wire.isShut = true := by
  obtain ⟨p, -, -, hline, -⟩ := hr.read
  obtain ⟨line, phase⟩ := s
  dsimp only at hline hp
  subst hline hp
  cases hturn with
  | own m d s' hm hmove =>
    cases m with
    | serve => cases hm
    | sweep => cases hm
    | admission j => cases hmove
    | inbound j =>
      rcases Session.stops_of_move hmove hstops with hclose | hnone | hsignalled | hclosed
      · refine .inr (.inl ?_)
        rw [heard?_of_own hm hi]
        exact congrArg (Option.map Prod.snd ∘ Option.map _) hclose
      · exact .inl (hr.all hnone)
      · exact .inr (.inr (.inl hsignalled))
      · exact .inr (.inr (.inr hclosed))
    | outbound j =>
      obtain ⟨⟨line, v, outbound'⟩, -, heq⟩ := Option.map_eq_some_iff.mp hmove
      cases heq
      cases hstops
    | keepalive j =>
      obtain ⟨⟨line, v, outbound'⟩, -, heq⟩ := Option.map_eq_some_iff.mp hmove
      cases heq
      cases hstops
  | client c => cases hstops
  | other a h' ha hne => cases hstops

theorem Run.hears (hrun : Run start ms h) (hi : start.sessions[i]? = some s)
    (hs : Hearing rest i [] s) : Hears rest i ms h where
  silent s hi' hout := by
    obtain ⟨s', hs', hr⟩ := hrun.hearing hi hs
    cases hi'.symm.trans hs'
    exact hr.silent hout
  ordered := by
    obtain ⟨s', -, hr⟩ := hrun.hearing hi hs
    obtain ⟨p, added, left, -, hadded, hall, -⟩ := hr.read
    exact ⟨added, hadded, left, hall⟩
  whole s c deadline followed outbound hi' hp hwaits := by
    obtain ⟨s', hs', hr⟩ := hrun.hearing hi hs
    cases hi'.symm.trans hs'
    obtain ⟨p, added, left, hline, -⟩ := hr.read
    obtain ⟨line, phase⟩ := s
    dsimp only at hline hp
    subst hline hp
    rw [move_eq_of_session h rfl, hi', Option.bind_some, Option.map_eq_none_iff] at hwaits
    exact hr.all (Session.fromPeer_of_waiting hwaits)
  stops := by
    rintro before ⟨h₀, a, h₁⟩ after rfl s s' c deadline followed outbound hi' hi'' hp hstops
    obtain ⟨hbefore, ha⟩ := hrun.split
    obtain ⟨s₀, hs₀, hr⟩ := hbefore.hearing hi hs
    cases hi'.symm.trans hs₀
    obtain ⟨s₁, hs₁, hturn⟩ := turn_of_act hi' ha
    cases hi''.symm.trans hs₁
    exact hr.stopped hi' hturn hp hstops

end

end Hub

end PushHub
