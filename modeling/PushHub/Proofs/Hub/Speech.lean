import PushHub.Proofs.Hub.Opening
import PushHub.Proofs.Hub.Situation

/-! What a session says to its client. A transport gets what the session says and adds nothing but
answers of its own, the order of what is said follows from the phases that a session goes through,
and nothing is said once the sink is closed. -/
namespace PushHub

open Registry (Handle Service)

/-! ## Transports -/

/-- What was sent and the client has not read yet. -/
def Wire.outgoing : Wire → List Frame
  | .pipe p => p.toPeer
  | .socket s => s.toClient

/-- The sink was closed, or there is no client that it could be closed for. -/
def Wire.isShut : Wire → Bool
  | .pipe p => p.closed
  | .socket s => s.closing || s.clientGone

def Frame.IsEcho : Frame → Prop
  | .pong _ => True
  | .close => True
  | _ => False

/-- A transport sends `said`, and adds at most answers of its own. -/
structure Wire.Passes (w : Wire) (said : List Frame) (w' : Wire) : Prop where
  outgoing : ∃ echoes, w'.outgoing = w.outgoing ++ said ++ echoes ∧ ∀ f ∈ echoes, f.IsEcho
  shut : w.isShut = true → w'.isShut = true

namespace Wire

theorem Passes.of_eq {w w' : Wire} (ho : w'.outgoing = w.outgoing) (hs : w'.isShut = w.isShut) :
    w.Passes [] w' :=
  ⟨⟨[], by simp [ho]⟩, fun hw => hs.trans hw⟩

theorem Passes.refl (w : Wire) : w.Passes [] w := .of_eq rfl rfl

theorem Passes.trans {w w' w'' : Wire} {said : List Frame} (h : w.Passes said w')
    (h' : w'.Passes [] w'') : w.Passes said w'' := by
  obtain ⟨echoes, ho, he⟩ := h.outgoing
  obtain ⟨more, ho', he'⟩ := h'.outgoing
  refine ⟨⟨echoes ++ more, ?_, ?_⟩, fun hs => h'.shut (h.shut hs)⟩
  · rw [ho', ho, List.append_nil, List.append_assoc]
  · intro f hf
    rcases List.mem_append.mp hf with hf | hf
    · exact he f hf
    · exact he' f hf

theorem send_of_isShut {w : Wire} (f : Frame) (hw : w.isShut = true) : (w.send f).2 ≠ .sent := by
  cases w with
  | pipe p => simp [send, Pipe.send, show p.closed = true from hw]
  | socket s =>
    have hs : (s.closing || s.clientGone) = true := hw
    simp [send, Socket.send, hs]

theorem passes_send (w : Wire) (f : Frame) :
    w.Passes (if (w.send f).2 = .sent then [f] else []) (w.send f).1 := by
  cases w with
  | pipe p =>
    show (Wire.pipe p).Passes (if (p.send f).2 = .sent then [f] else []) (.pipe (p.send f).1)
    unfold Pipe.send
    split
    · exact ⟨⟨[], by simp⟩, id⟩
    · split
      · exact ⟨⟨[], by simp⟩, id⟩
      · exact ⟨⟨[], by simp [outgoing]⟩, id⟩
  | socket s =>
    show (Wire.socket s).Passes (if (s.send f).2 = .sent then [f] else []) (.socket (s.send f).1)
    unfold Socket.send
    split
    · exact ⟨⟨[], by simp⟩, id⟩
    · rename_i hs
      exact ⟨⟨[], by simp [outgoing]⟩, fun hw => absurd hw hs⟩

theorem passes_close (w : Wire) : w.Passes [] w.close := by
  cases w with
  | pipe p => exact ⟨⟨[], by simp [outgoing, close, Pipe.close]⟩, fun _ => rfl⟩
  | socket s =>
    show (Wire.socket s).Passes [] (.socket s.close)
    unfold Socket.close
    split
    · exact .refl _
    · exact ⟨⟨[.close], by simp [outgoing, Frame.IsEcho]⟩, fun _ => rfl⟩

theorem isShut_close (w : Wire) : w.close.isShut = true := by
  cases w with
  | pipe p => rfl
  | socket s =>
    show (Wire.socket s.close).isShut = true
    unfold Socket.close
    split
    · assumption
    · rfl

theorem passes_answer_pipe (p : Pipe) (f : Frame) : (Wire.pipe p).Passes [] (.pipe (p.answer f)) := by
  cases f with
  | ping bytes =>
    unfold Pipe.answer
    dsimp only
    split
    · exact .refl _
    · exact ⟨⟨[.pong bytes], by simp [outgoing, Frame.IsEcho]⟩, id⟩
  | _ => exact .refl _

theorem passes_answer_socket (s : Socket) (f : Frame) :
    (Wire.socket s).Passes [] (.socket (s.answer f)) := by
  cases f with
  | ping bytes =>
    unfold Socket.answer
    dsimp only
    split
    · exact .refl _
    · exact ⟨⟨[.pong bytes], by simp [outgoing, Frame.IsEcho]⟩, id⟩
  | close => exact passes_close (.socket s)
  | _ => exact .refl _

theorem passes_receive (w : Wire) : w.Passes [] w.receive.1 := by
  cases w with
  | pipe p =>
    show (Wire.pipe p).Passes [] (.pipe p.receive.1)
    unfold Pipe.receive
    split
    · exact .refl _
    · split
      · rename_i f rest _
        have hread : (Wire.pipe p).Passes [] (.pipe { p with fromPeer := rest }) := .of_eq rfl rfl
        exact hread.trans (passes_answer_pipe _ f)
      · split <;> exact .refl _
  | socket s =>
    show (Wire.socket s).Passes [] (.socket s.receive.1)
    unfold Socket.receive
    split
    · rename_i f rest _
      dsimp only
      split
      · exact .of_eq rfl rfl
      · have hread : (Wire.socket s).Passes [] (.socket { s with fromClient := rest }) :=
          .of_eq rfl rfl
        exact hread.trans (passes_answer_socket _ f)
    · split <;> exact .refl _

theorem passes_dropSink (w : Wire) : w.Passes [] w.dropSink := by
  cases w with
  | pipe p => exact .of_eq rfl rfl
  | socket s => exact .of_eq rfl rfl

theorem passes_dropSource (w : Wire) : w.Passes [] w.dropSource := by
  cases w with
  | pipe p => exact .of_eq rfl rfl
  | socket s => exact .of_eq rfl rfl

theorem isShut_on (w : Wire) (a : ClientAct) (hw : w.isShut = true) : (a.on w).isShut = true := by
  cases w with
  | pipe p =>
    cases a with
    | send f =>
      show (p.peerSend f).1.closed = true
      unfold Pipe.peerSend
      split <;> exact hw
    | read =>
      show p.peerRead.1.closed = true
      unfold Pipe.peerRead
      split
      · exact hw
      · split <;> exact hw
    | disconnect => exact hw
    | leave => exact hw
  | socket s =>
    cases a with
    | send f =>
      show (Wire.socket (s.clientSend f).1).isShut = true
      unfold Socket.clientSend
      split <;> exact hw
    | read =>
      show (Wire.socket s.clientRead.1).isShut = true
      unfold Socket.clientRead
      split
      · dsimp only
        split
        · split <;> exact hw
        · exact hw
        · exact hw
      · split <;> exact hw
    | disconnect => exact hw
    | leave =>
      show (s.closing || true) = true
      simp

end Wire

namespace Line

theorem passes_send (l : Line) (f : Frame) :
    l.wire.Passes (if (l.send f).2 = .sent then [f] else []) (l.send f).1.wire := by
  have hw := l.wire.passes_send f
  unfold send
  split
  · exact .refl _
  · generalize l.wire.send f = o at hw ⊢
    obtain ⟨w, r⟩ := o
    cases r with
    | waiting => exact .refl _
    | sent => exact hw
    | failed err => exact hw

theorem send_of_isShut {l : Line} (f : Frame) (hl : l.wire.isShut = true) :
    (l.send f).2 ≠ .sent := by
  have hw := Wire.send_of_isShut f hl
  unfold send
  split
  · simp
  · generalize l.wire.send f = o at hw
    obtain ⟨w, r⟩ := o
    cases r with
    | sent => contradiction
    | _ => simp

theorem passes_receive (l : Line) : l.wire.Passes [] l.receive.1.wire := by
  have hw := l.wire.passes_receive
  unfold receive
  split
  · exact .refl _
  · generalize l.wire.receive = o at hw
    obtain ⟨w, r⟩ := o
    cases r <;> exact hw

end Line

/-! ## What is said, and in which order -/

inductive Utterance
  | control (f : ServerFrame)
  | keepalive (f : Frame)
  | mail (f : Frame)
deriving DecidableEq

namespace Utterance

def frame : Utterance → Frame
  | .control f => f.frame
  | .keepalive f => f
  | .mail f => f

def mail? : Utterance → Option Frame
  | .mail f => some f
  | _ => none

/-- What is said once a client has been greeted. -/
def Routine : Utterance → Prop
  | .control _ => False
  | .keepalive f => f = .ping []
  | .mail _ => True

end Utterance

/-- What is said to a client whose user is not known yet, or not to be asked for. -/
def Prelude (asks : Bool) (us : List Utterance) : Prop :=
  us = [] ∨ asks = true ∧ ∃ secs, us = [.control (.prompt secs)]

/-- The order of a conversation, in which only a client without a user is asked for a credential. -/
inductive Script (asks : Bool) : List Utterance → Prop
  | opening {us : List Utterance} (h : Prelude asks us) : Script asks us
  | refused {us : List Utterance} (h : Prelude asks us) (why : String) :
      Script asks (us ++ [.control (.authFailed why)])
  | greeted {us more : List Utterance} (h : Prelude asks us) (u : UserId)
      (hm : ∀ x ∈ more, x.Routine) : Script asks (us ++ .control (.authSuccess u) :: more)

namespace Session

/-- What a session tries to send when one of its parts moves. -/
def offers? (e : Surroundings) (s : Session) : Move → Option Utterance
  | .admission _ =>
    match s.phase with
    | .prompting _ => some (.control (.prompt (UInt64.ofNat (e.settings.authTimeout / 1000))))
    | .rejecting why _ _ => some (.control (.authFailed why.reason))
    | .greeting h _ => some (.control (.authSuccess h.user))
    | _ => none
  | .outbound _ =>
    match s.phase with
    | .admitted _ _ (.writing f true _ _) => some (.keepalive f)
    | .admitted _ _ (.writing f false _ _) => some (.mail f)
    | _ => none
  | _ => none

def utters? (e : Surroundings) (s : Session) (m : Move) : Option Utterance :=
  (s.offers? e m).filter fun u => (s.line.send u.frame).2 = .sent

def takes? (s s' : Session) : Move → Option Frame
  | .outbound _ =>
    match s.phase, s'.phase with
    | .admitted _ _ (.idle _), .admitted _ _ (.writing f false _ _) => some f
    | _, _ => none
  | _ => none

theorem utters?_of_isShut {e : Surroundings} {s : Session} (m : Move)
    (hs : s.line.wire.isShut = true) : s.utters? e m = none := by
  unfold utters?
  cases s.offers? e m with
  | none => rfl
  | some u => simp [Line.send_of_isShut u.frame hs]

end Session

/-- What of the frames that were taken from the mailbox has been said. -/
def Outbound.Told (said taken : List Frame) : Outbound → Prop
  | .idle _ => taken = said
  | .writing f false _ _ => taken = said ++ [f]
  | .writing f true _ _ => taken = said ∧ f = .ping []
  | _ => said <+: taken

def Phase.Told (asks : Bool) (us : List Utterance) (taken : List Frame) : Phase → Prop
  | .prompting _ => asks = true ∧ us = [] ∧ taken = []
  | .awaiting _ => Prelude asks us ∧ taken = []
  | .rejecting _ _ _ => Prelude asks us ∧ taken = []
  | .registering _ _ => Prelude asks us ∧ taken = []
  | .greeting _ _ => Prelude asks us ∧ taken = []
  | .withdrawing _ _ => Prelude asks us ∧ taken = []
  | .admitted h _ outbound =>
    (∃ first more, us = first ++ .control (.authSuccess h.user) :: more ∧ Prelude asks first ∧
      ∀ x ∈ more, x.Routine) ∧ outbound.Told (us.filterMap Utterance.mail?) taken
  | .refused _ =>
    ∃ first, Prelude asks first ∧ taken = [] ∧
      (us = first ∨ ∃ why, us = first ++ [.control (.authFailed why)])

theorem Prelude.mail {asks : Bool} {us : List Utterance} (h : Prelude asks us) :
    us.filterMap Utterance.mail? = [] := by
  rcases h with rfl | ⟨-, secs, rfl⟩ <;> rfl

theorem Outbound.Told.isPrefix {said taken : List Frame} {outbound : Outbound}
    (h : outbound.Told said taken) : said <+: taken := by
  cases outbound with
  | idle keepalive => exact (show taken = said from h) ▸ List.prefix_refl _
  | writing f keeping deadline keepalive =>
    cases keeping with
    | false => exact (show taken = said ++ [f] from h) ▸ List.prefix_append _ _
    | true => exact h.1 ▸ List.prefix_refl _
  | _ => exact h

theorem Phase.Told.isPrefix {asks : Bool} {us : List Utterance} {taken : List Frame} {p : Phase}
    (h : p.Told asks us taken) : us.filterMap Utterance.mail? <+: taken := by
  cases p with
  | prompting deadline =>
    obtain ⟨-, rfl, -⟩ := h
    exact List.nil_prefix
  | admitted c inbound outbound => exact h.2.isPrefix
  | refused why =>
    obtain ⟨first, hf, -, rfl | ⟨why, rfl⟩⟩ := h
    · rw [hf.mail]
      exact List.nil_prefix
    · rw [List.filterMap_append, hf.mail]
      exact List.nil_prefix
  | _ =>
    rw [h.1.mail]
    exact List.nil_prefix

theorem Phase.Told.script {asks : Bool} {us : List Utterance} {taken : List Frame} {p : Phase}
    (h : p.Told asks us taken) : Script asks us := by
  cases p with
  | prompting deadline => exact .opening (.inl h.2.1)
  | admitted c inbound outbound =>
    obtain ⟨⟨first, more, rfl, hf, hm⟩, -⟩ := h
    exact .greeted hf c.user hm
  | refused why =>
    obtain ⟨first, hf, -, rfl | ⟨why, rfl⟩⟩ := h
    · exact .opening hf
    · exact .refused hf why
  | _ => exact .opening h.1


/-! ## One move of a session -/

namespace Session

/-- A session says something or nothing, and its conversation goes on in order. -/
structure Speaks (s s' : Session) (said : Option Utterance) (took : Option Frame) : Prop where
  passes : s.line.wire.Passes (said.map Utterance.frame).toList s'.line.wire
  told : ∀ {asks : Bool} {us : List Utterance} {taken : List Frame}, s.phase.Told asks us taken →
    s'.phase.Told asks (us ++ said.toList) (taken ++ took.toList)
  shut : s'.phase.closings = 1 → s.phase.closings = 1 ∨ s'.line.wire.isShut = true

section

variable {e : Surroundings} {s s' : Session} {m : Move} {u : Utterance} {line : Line}

theorem utters?_of_send {r : Sending} (ho : s.offers? e m = some u)
    (hs : s.line.send u.frame = (line, r)) :
    s.utters? e m = if r = .sent then some u else none := by
  unfold utters?
  rw [ho, Option.filter_some, hs]
  by_cases hr : r = .sent <;> simp [hr]

theorem passes_of_send {r : Sending} (ho : s.offers? e m = some u)
    (hs : s.line.send u.frame = (line, r)) :
    s.line.wire.Passes ((s.utters? e m).map Utterance.frame).toList line.wire := by
  have hp := s.line.passes_send u.frame
  rw [hs] at hp
  rw [utters?_of_send ho hs]
  by_cases hr : r = .sent
  · subst hr
    exact hp
  · rw [if_neg hr] at hp ⊢
    exact hp

theorem shut_of_open (ho : s'.phase.closings = 0) (hc : s'.phase.closings = 1) :
    s.phase.closings = 1 ∨ s'.line.wire.isShut = true :=
  absurd (ho.symm.trans hc) Nat.zero_ne_one

theorem Speaks.quiet (hu : s.utters? e m = none)
    (hp : s.line.wire.Passes ((s.utters? e m).map Utterance.frame).toList s'.line.wire)
    (ht : ∀ {asks us taken}, s.phase.Told asks us taken → s'.phase.Told asks us taken)
    (hc : s'.phase.closings = 1 → s.phase.closings = 1 ∨ s'.line.wire.isShut = true) :
    Speaks s s' (s.utters? e m) none := by
  refine ⟨hp, fun h => ?_, hc⟩
  rw [hu, Option.toList_none, Option.toList_none, List.append_nil, List.append_nil]
  exact ht h

end

section

variable {e : Surroundings} {i : Nat} {d d' : Desk} {line : Line} {s' : Session}

theorem speaks_of_prompting {deadline : Nat}
    (hs : Admission.step e i d ⟨line, .prompting deadline⟩ = some (d', s')) :
    Speaks ⟨line, .prompting deadline⟩ s'
      (utters? e ⟨line, .prompting deadline⟩ (.admission i)) none := by
  simp only [Admission.step] at hs
  generalize ho : line.send (Admission.prompt e) = o at hs
  obtain ⟨line', r⟩ := o
  have hp := passes_of_send (s := ⟨line, .prompting deadline⟩) (e := e) (m := .admission i) rfl ho
  have hu := utters?_of_send (s := ⟨line, .prompting deadline⟩) (e := e) (m := .admission i) rfl ho
  cases r with
  | sent =>
    cases hs
    refine ⟨hp, ?_, shut_of_open rfl⟩
    rintro asks us taken ⟨hasks, rfl, rfl⟩
    rw [hu]
    exact ⟨.inr ⟨hasks, _, rfl⟩, rfl⟩
  | failed err =>
    cases hs
    exact .quiet hu hp (fun h => ⟨.inl h.2.1, h.2.2⟩) (shut_of_open rfl)
  | waiting =>
    dsimp only at hs
    split at hs
    · cases hs
      exact .quiet hu hp (fun h => ⟨.inl h.2.1, h.2.2⟩) (shut_of_open rfl)
    · cases hs

theorem speaks_of_awaiting {deadline : Nat}
    (hs : Admission.step e i d ⟨line, .awaiting deadline⟩ = some (d', s')) :
    Speaks ⟨line, .awaiting deadline⟩ s'
      (utters? e ⟨line, .awaiting deadline⟩ (.admission i)) none := by
  have hp := line.passes_receive
  simp only [Admission.step] at hs
  generalize line.receive = o at hs hp
  obtain ⟨line', r⟩ := o
  cases r with
  | frame f =>
    dsimp only at hs
    split at hs
    · cases hs
      exact .quiet rfl hp id (shut_of_open rfl)
    · cases hs
      exact .quiet rfl hp id (shut_of_open rfl)
    · cases hs
      exact .quiet rfl hp id (shut_of_open rfl)
  | failed err =>
    cases hs
    exact .quiet rfl hp id (shut_of_open rfl)
  | waiting =>
    dsimp only at hs
    split at hs
    · cases hs
      exact .quiet rfl hp id (shut_of_open rfl)
    · cases hs

theorem speaks_of_rejecting {why : AdmitError} {deadline : Nat} {endpoint : Option Nat}
    (hs : Admission.step e i d ⟨line, .rejecting why deadline endpoint⟩ = some (d', s')) :
    Speaks ⟨line, .rejecting why deadline endpoint⟩ s'
      (utters? e ⟨line, .rejecting why deadline endpoint⟩ (.admission i)) none := by
  simp only [Admission.step] at hs
  generalize ho : line.send (ServerFrame.authFailed why.reason).frame = o at hs
  obtain ⟨line', r⟩ := o
  have hp := passes_of_send (s := ⟨line, .rejecting why deadline endpoint⟩) (e := e)
    (m := .admission i) rfl ho
  have hu := utters?_of_send (s := ⟨line, .rejecting why deadline endpoint⟩) (e := e)
    (m := .admission i) rfl ho
  have hclosed := ((hp.trans line'.wire.passes_close).trans (Wire.passes_dropSink _)).trans
    (Wire.passes_dropSource _)
  have hshut : line'.close.dropSink.dropSource.wire.isShut = true :=
    (Wire.passes_dropSource _).shut ((Wire.passes_dropSink _).shut line'.wire.isShut_close)
  cases r with
  | sent =>
    cases hs
    refine ⟨hclosed, ?_, fun _ => .inr hshut⟩
    rintro asks us taken ⟨hpre, rfl⟩
    rw [hu]
    exact ⟨us, hpre, rfl, .inr ⟨_, rfl⟩⟩
  | failed err =>
    cases hs
    exact .quiet hu hclosed (fun h => ⟨_, h.1, h.2, .inl rfl⟩) fun _ => .inr hshut
  | waiting =>
    dsimp only at hs
    split at hs
    · cases hs
      exact .quiet hu hclosed (fun h => ⟨_, h.1, h.2, .inl rfl⟩) fun _ => .inr hshut
    · cases hs

theorem speaks_of_registering {h : Handle} {asked : Bool}
    (hs : Admission.step e i d ⟨line, .registering h asked⟩ = some (d', s')) :
    Speaks ⟨line, .registering h asked⟩ s'
      (utters? e ⟨line, .registering h asked⟩ (.admission i)) none := by
  cases asked with
  | false =>
    simp only [Admission.step] at hs
    split at hs
    · cases hs
      exact .quiet rfl (.refl _) id (shut_of_open rfl)
    · split at hs
      · cases hs
        exact .quiet rfl (.refl _) id (shut_of_open rfl)
      · cases hs
  | true =>
    simp only [Admission.step] at hs
    split at hs
    · cases hs
      exact .quiet rfl (.refl _) id (shut_of_open rfl)
    · cases hs
      exact .quiet rfl (.refl _) id (shut_of_open rfl)
    · split at hs
      · cases hs
      · cases hs
        exact .quiet rfl (.refl _) id (shut_of_open rfl)

theorem speaks_of_greeting {h : Handle} {deadline : Nat}
    (hs : Admission.step e i d ⟨line, .greeting h deadline⟩ = some (d', s')) :
    Speaks ⟨line, .greeting h deadline⟩ s'
      (utters? e ⟨line, .greeting h deadline⟩ (.admission i)) none := by
  simp only [Admission.step] at hs
  generalize ho : line.send (ServerFrame.authSuccess h.user).frame = o at hs
  obtain ⟨line', r⟩ := o
  have hp := passes_of_send (s := ⟨line, .greeting h deadline⟩) (e := e) (m := .admission i) rfl ho
  have hu := utters?_of_send (s := ⟨line, .greeting h deadline⟩) (e := e) (m := .admission i) rfl ho
  cases r with
  | sent =>
    cases hs
    refine ⟨hp, ?_, shut_of_open rfl⟩
    rintro asks us taken ⟨hpre, rfl⟩
    rw [hu]
    refine ⟨⟨us, [], rfl, hpre, by simp⟩, ?_⟩
    show [] ++ [] = _
    rw [List.filterMap_append, hpre.mail]
    rfl
  | failed err =>
    cases hs
    exact .quiet hu hp id (shut_of_open rfl)
  | waiting =>
    dsimp only at hs
    split at hs
    · cases hs
      exact .quiet hu hp id (shut_of_open rfl)
    · cases hs

theorem speaks_of_withdrawing {h : Handle} {err : TransportError}
    (hs : Admission.step e i d ⟨line, .withdrawing h err⟩ = some (d', s')) :
    Speaks ⟨line, .withdrawing h err⟩ s'
      (utters? e ⟨line, .withdrawing h err⟩ (.admission i)) none := by
  simp only [Admission.step] at hs
  have hclosed := (line.wire.passes_close.trans (Wire.passes_dropSink _)).trans
    (Wire.passes_dropSource _)
  have hshut : line.close.dropSink.dropSource.wire.isShut = true :=
    (Wire.passes_dropSource _).shut ((Wire.passes_dropSink _).shut line.wire.isShut_close)
  split at hs
  · cases hs
  · cases hs
    exact .quiet rfl hclosed (fun h => ⟨_, h.1, h.2, .inl rfl⟩) fun _ => .inr hshut

theorem speaks_of_admission {s : Session} (hs : Admission.step e i d s = some (d', s')) :
    Speaks s s' (s.utters? e (.admission i)) none := by
  obtain ⟨line, phase⟩ := s
  cases phase with
  | prompting deadline => exact speaks_of_prompting hs
  | awaiting deadline => exact speaks_of_awaiting hs
  | rejecting why deadline endpoint => exact speaks_of_rejecting hs
  | registering h asked => exact speaks_of_registering hs
  | greeting h deadline => exact speaks_of_greeting hs
  | withdrawing h err => exact speaks_of_withdrawing hs
  | admitted h inbound outbound => cases hs
  | refused why => cases hs

end

section

variable {e : Surroundings} {i : Nat} {v v' : Service} {c : Handle} {line line' : Line}
  {inbound inbound' : Inbound} {outbound outbound' : Outbound}

theorem speaks_of_inbound (hs : inbound.step e c line v = some (line', v', inbound')) :
    Speaks ⟨line, .admitted c inbound outbound⟩ ⟨line', .admitted c inbound' outbound⟩
      (utters? e ⟨line, .admitted c inbound outbound⟩ (.inbound i)) none := by
  have hquiet (hp : line.wire.Passes [] line'.wire) :
      Speaks ⟨line, .admitted c inbound outbound⟩ ⟨line', .admitted c inbound' outbound⟩
        (utters? e ⟨line, .admitted c inbound outbound⟩ (.inbound i)) none :=
    .quiet rfl hp id .inl
  apply hquiet
  cases inbound with
  | running deadline followed =>
    have hp := line.passes_receive
    simp only [Inbound.step] at hs
    split at hs
    · cases hs
      exact .refl _
    · generalize line.receive = o at hs hp
      obtain ⟨line₁, r⟩ := o
      cases r with
      | frame f =>
        cases f with
        | _ =>
          cases hs
          exact hp
      | failed err =>
        cases hs
        exact hp
      | waiting =>
        dsimp only at hs
        split at hs
        · cases hs
          exact hp
        · cases hs
  | leaving exit =>
    simp only [Inbound.step] at hs
    split at hs
    · cases hs
    · cases hs
      exact Wire.passes_dropSource _
  | ended exit => cases hs
  | absent => cases hs

theorem speaks_of_keepAlive (hs : outbound.keepAlive e line v = some (line', v', outbound')) :
    Speaks ⟨line, .admitted c inbound outbound⟩ ⟨line', .admitted c inbound outbound'⟩ none none ∧
      takes? ⟨line, .admitted c inbound outbound⟩ ⟨line', .admitted c inbound outbound'⟩
        (.outbound i) = none := by
  cases outbound with
  | idle keepalive =>
    simp only [Outbound.keepAlive] at hs
    split at hs
    · cases hs
      refine ⟨⟨.refl _, fun h => ?_, shut_of_open rfl⟩, rfl⟩
      obtain ⟨hgreeted, htaken⟩ := h
      rw [Option.toList_none, Option.toList_none, List.append_nil, List.append_nil]
      exact ⟨hgreeted, htaken, rfl⟩
    · cases hs
  | _ => cases hs

theorem speaks_of_writing {f : Frame} {keeping : Bool} {deadline : Nat}
    {keepalive : Registry.Ticker}
    (hs : (Outbound.writing f keeping deadline keepalive).step e c line v =
      some (line', v', outbound')) :
    Speaks ⟨line, .admitted c inbound (.writing f keeping deadline keepalive)⟩
      ⟨line', .admitted c inbound outbound'⟩
      (utters? e ⟨line, .admitted c inbound (.writing f keeping deadline keepalive)⟩ (.outbound i))
      none := by
  let u : Utterance := if keeping then .keepalive f else .mail f
  have hf : u.frame = f := by cases keeping <;> rfl
  have ho : offers? e ⟨line, .admitted c inbound (.writing f keeping deadline keepalive)⟩
      (.outbound i) = some u := by cases keeping <;> rfl
  simp only [Outbound.step] at hs
  generalize hsend : line.send f = o at hs
  obtain ⟨line₁, r⟩ := o
  rw [← hf] at hsend
  have hp := passes_of_send ho hsend
  have hu := utters?_of_send ho hsend
  cases r with
  | sent =>
    cases hs
    refine ⟨hp, ?_, shut_of_open rfl⟩
    rintro asks us taken ⟨⟨first, more, rfl, hpre, hmore⟩, hout⟩
    rw [hu]
    refine ⟨⟨first, more ++ [u], by simp, hpre, ?_⟩, ?_⟩
    · intro x hx
      rcases List.mem_append.mp hx with hx | hx
      · exact hmore x hx
      · rw [List.mem_singleton.mp hx]
        cases keeping with
        | false => trivial
        | true => exact hout.2
    · rw [if_pos rfl, Option.toList_some, Option.toList_none, List.append_nil,
        List.filterMap_append]
      cases keeping with
      | false => exact hout
      | true => exact hout.1.trans (List.append_nil _).symm
  | failed err =>
    cases hs
    exact .quiet hu hp (fun h => ⟨h.1, h.2.isPrefix⟩) (shut_of_open rfl)
  | waiting =>
    dsimp only at hs
    split at hs
    · cases hs
      exact .quiet hu hp (fun h => ⟨h.1, h.2.isPrefix⟩) (shut_of_open rfl)
    · cases hs

theorem speaks_of_outbound (hs : outbound.step e c line v = some (line', v', outbound')) :
    Speaks ⟨line, .admitted c inbound outbound⟩ ⟨line', .admitted c inbound outbound'⟩
      (utters? e ⟨line, .admitted c inbound outbound⟩ (.outbound i))
      (takes? ⟨line, .admitted c inbound outbound⟩ ⟨line', .admitted c inbound outbound'⟩
        (.outbound i)) := by
  cases outbound with
  | idle keepalive =>
    simp only [Outbound.step] at hs
    split at hs
    · cases hs
      refine ⟨.refl _, fun h => ?_, shut_of_open rfl⟩
      obtain ⟨hgreeted, htaken⟩ := h
      show Phase.Told _ (_ ++ []) (_ ++ [_]) _
      rw [List.append_nil, show _ = _ from htaken]
      exact ⟨hgreeted, rfl⟩
    · cases hs
      exact .quiet rfl (.refl _) (fun h => ⟨h.1, h.2.isPrefix⟩) (shut_of_open rfl)
    · obtain ⟨hspeaks, hnone⟩ : Speaks ⟨line, .admitted c inbound (.idle keepalive)⟩
          ⟨line', .admitted c inbound outbound'⟩ none none ∧
          takes? ⟨line, .admitted c inbound (.idle keepalive)⟩
            ⟨line', .admitted c inbound outbound'⟩ (.outbound i) = none := speaks_of_keepAlive hs
      rw [hnone]
      exact hspeaks
  | writing f keeping deadline keepalive => exact speaks_of_writing hs
  | closing exit =>
    cases hs
    refine .quiet rfl (line.wire.passes_close.trans (Wire.passes_dropSink _))
      (fun h => ⟨h.1, h.2⟩) fun _ => .inr ?_
    exact (Wire.passes_dropSink _).shut line.wire.isShut_close
  | ended exit => cases hs
  | absent => cases hs

end

/-- Whatever a session does, it keeps to the order of its conversation. -/
theorem speaks_of_move {e : Surroundings} {i : Nat} {d d' : Desk} {s s' : Session} {m : Move}
    (hm : m.session? = some i) (hs : s.move e d m = some (d', s')) :
    Speaks s s' (s.utters? e m) (s.takes? s' m) := by
  obtain ⟨line, phase⟩ := s
  cases m with
  | serve => cases hm
  | sweep => cases hm
  | admission j => exact speaks_of_admission hs
  | inbound j =>
    cases phase with
    | admitted c inbound outbound =>
      obtain ⟨⟨line', v, inbound'⟩, hstep, heq⟩ := Option.map_eq_some_iff.mp hs
      cases heq
      exact speaks_of_inbound hstep
    | _ => cases hs
  | outbound j =>
    cases phase with
    | admitted c inbound outbound =>
      obtain ⟨⟨line', v, outbound'⟩, hstep, heq⟩ := Option.map_eq_some_iff.mp hs
      cases heq
      exact speaks_of_outbound hstep
    | _ => cases hs
  | keepalive j =>
    cases phase with
    | admitted c inbound outbound =>
      obtain ⟨⟨line', v, outbound'⟩, hstep, heq⟩ := Option.map_eq_some_iff.mp hs
      cases heq
      exact (speaks_of_keepAlive (i := i) hstep).1
    | _ => cases hs

end Session

end PushHub
