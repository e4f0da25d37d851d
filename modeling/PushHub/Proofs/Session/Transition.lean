import PushHub.Proofs.Transport
import PushHub.Hub.Basic

/-! Every way a session can move, whichever of its parts does it: the admission, the loop that reads
or the loop that writes. -/
namespace PushHub

open Registry (Handle Service Ticker)

namespace Session

variable (i : Nat) (v : Service)

/-- What the move of one part of session `i` can come to, but for the assignment of a number. -/
inductive Works : Session → Move → Service → Session → Prop
  | prompted (line line' : Line) (deadline deadline' : Nat)
      (hl : line'.closeCalls? = line.closeCalls?) :
      Works ⟨line, .prompting deadline⟩ (.admission i) v ⟨line', .awaiting deadline'⟩
  | unprompted (line line' : Line) (deadline deadline' : Nat) (why : HandshakeError)
      (hl : line'.closeCalls? = line.closeCalls?) :
      Works ⟨line, .prompting deadline⟩ (.admission i) v
        ⟨line', .rejecting (.handshake why) deadline' none⟩
  | ignored (line line' : Line) (deadline : Nat) (hl : line'.closeCalls? = line.closeCalls?) :
      Works ⟨line, .awaiting deadline⟩ (.admission i) v ⟨line', .awaiting deadline⟩
  | unproved (line line' : Line) (deadline deadline' : Nat) (why : HandshakeError)
      (hl : line'.closeCalls? = line.closeCalls?) :
      Works ⟨line, .awaiting deadline⟩ (.admission i) v
        ⟨line', .rejecting (.handshake why) deadline' none⟩
  | asked (line : Line) (h : Handle) :
      Works ⟨line, .registering h false⟩ (.admission i) (v.enqueue (.register h) (some i))
        ⟨line, .registering h true⟩
  | granted (line : Line) (h : Handle) (r : Registry.Registration) (deadline : Nat)
      (hr : v.replies.lookup i = some (.registered (.ok r))) :
      Works ⟨line, .registering h true⟩ (.admission i) (v.collect i).1 ⟨line, .greeting h deadline⟩
  | denied (line : Line) (h : Handle) (err : Registry.RegistryError) (deadline : Nat)
      (hr : v.replies.lookup i = some (.registered (.error err))) :
      Works ⟨line, .registering h true⟩ (.admission i) (v.collect i).1
        ⟨line, .rejecting (.registry err) deadline (some h.endpoint)⟩
  | refused (line line' : Line) (why : AdmitError) (deadline : Nat)
      (hl : line'.closeCalls? = line.closeCalls?.map (· + 1)) :
      Works ⟨line, .rejecting why deadline none⟩ (.admission i) v ⟨line', .refused why⟩
  | released (line line' : Line) (why : AdmitError) (deadline n : Nat)
      (hl : line'.closeCalls? = line.closeCalls?.map (· + 1)) :
      Works ⟨line, .rejecting why deadline (some n)⟩ (.admission i)
        (v.withRoom fun room => room.abandon n) ⟨line', .refused why⟩
  | greeted (line line' : Line) (h : Handle) (deadline deadline' : Nat)
      (followed : SubscriptionSet) (keepalive : Ticker)
      (hl : line'.closeCalls? = line.closeCalls?) :
      Works ⟨line, .greeting h deadline⟩ (.admission i) v
        ⟨line', .admitted h (.running deadline' followed) (.idle keepalive)⟩
  | ungreeted (line line' : Line) (h : Handle) (deadline : Nat) (err : TransportError)
      (hl : line'.closeCalls? = line.closeCalls?) :
      Works ⟨line, .greeting h deadline⟩ (.admission i) v ⟨line', .withdrawing h err⟩
  | withdrawn (line line' : Line) (h : Handle) (err : TransportError)
      (hl : line'.closeCalls? = line.closeCalls?.map (· + 1)) :
      Works ⟨line, .withdrawing h err⟩ (.admission i)
        ((v.enqueue (.unregister h) none).withRoom fun room => room.abandon h.endpoint)
        ⟨line', .refused (.transport err)⟩
  | left (line line' : Line) (h : Handle) (deadline : Nat) (followed : SubscriptionSet)
      (exit : InboundExit) (outbound : Outbound) (hl : line'.closeCalls? = line.closeCalls?)
      (hx : exit = .mailboxClosed → (v.members.room.mailbox h.endpoint).signalled = true) :
      Works ⟨line, .admitted h (.running deadline followed) outbound⟩ (.inbound i) v
        ⟨line', .admitted h (.leaving exit) outbound⟩
  | heard (line line' : Line) (h : Handle) (deadline deadline' : Nat)
      (followed followed' : SubscriptionSet) (reactions : List Reaction) (outbound : Outbound)
      (hl : line'.closeCalls? = line.closeCalls?) :
      Works ⟨line, .admitted h (.running deadline followed) outbound⟩ (.inbound i)
        (v.withRoom fun room => reactions.foldl (Inbound.perform h.endpoint) room)
        ⟨line', .admitted h (.running deadline' followed') outbound⟩
  | unregistered (line line' : Line) (h : Handle) (exit : InboundExit) (outbound : Outbound)
      (hl : line'.closeCalls? = line.closeCalls?) :
      Works ⟨line, .admitted h (.leaving exit) outbound⟩ (.inbound i)
        ((v.enqueue (.unregister h) none).withRoom fun room => room.close h.endpoint)
        ⟨line', .admitted h (.ended exit) outbound⟩
  | took (line : Line) (h : Handle) (inbound : Inbound) (keepalive : Ticker) (f : Frame)
      (rest : List Frame) (deadline : Nat)
      (hs : (v.members.room.mailbox h.endpoint).signalled = false)
      (hq : (v.members.room.mailbox h.endpoint).queue = f :: rest) :
      Works ⟨line, .admitted h inbound (.idle keepalive)⟩ (.outbound i)
        (v.withRoom fun room =>
          room.setMailbox h.endpoint { v.members.room.mailbox h.endpoint with queue := rest })
        ⟨line, .admitted h inbound (.writing f false deadline keepalive)⟩
  | stopped (line : Line) (h : Handle) (inbound : Inbound) (keepalive : Ticker)
      (exit : OutboundExit) (hs : (v.members.room.mailbox h.endpoint).signalled = true) :
      Works ⟨line, .admitted h inbound (.idle keepalive)⟩ (.outbound i)
        (v.withRoom fun room => room.close h.endpoint)
        ⟨line, .admitted h inbound (.closing exit)⟩
  | pinging (line : Line) (h : Handle) (inbound : Inbound) (keepalive keepalive' : Ticker)
      (f : Frame) (deadline : Nat) (m : Move) (hm : m = .outbound i ∨ m = .keepalive i) :
      Works ⟨line, .admitted h inbound (.idle keepalive)⟩ m v
        ⟨line, .admitted h inbound (.writing f true deadline keepalive')⟩
  | sent (line line' : Line) (h : Handle) (inbound : Inbound) (keepalive : Ticker) (f : Frame)
      (keeping : Bool) (deadline : Nat) (hl : line'.closeCalls? = line.closeCalls?)
      (hf : (line.send f).2 = .sent) :
      Works ⟨line, .admitted h inbound (.writing f keeping deadline keepalive)⟩ (.outbound i) v
        ⟨line', .admitted h inbound (.idle keepalive)⟩
  | cut (line line' : Line) (h : Handle) (inbound : Inbound) (keepalive : Ticker) (f : Frame)
      (keeping : Bool) (deadline : Nat) (exit : OutboundExit)
      (hl : line'.closeCalls? = line.closeCalls?) (hf : (line.send f).2 ≠ .sent)
      (hx : exit ≠ .mailboxClosed) :
      Works ⟨line, .admitted h inbound (.writing f keeping deadline keepalive)⟩ (.outbound i)
        (v.withRoom fun room => room.close h.endpoint)
        ⟨line', .admitted h inbound (.closing exit)⟩
  | closed (line line' : Line) (h : Handle) (inbound : Inbound) (exit : OutboundExit)
      (hl : line'.closeCalls? = line.closeCalls?.map (· + 1)) :
      Works ⟨line, .admitted h inbound (.closing exit)⟩ (.outbound i)
        (v.withRoom fun room => room.abandon h.endpoint)
        ⟨line', .admitted h inbound (.ended exit)⟩

variable {e : Surroundings} {i : Nat} {v : Service}

section

variable {n : Nat} {d : Desk} {line : Line} {s' : Session}

theorem works_of_prompting {deadline : Nat}
    (hs : Admission.step e i ⟨v, n⟩ ⟨line, .prompting deadline⟩ = some (d, s')) :
    Works i v ⟨line, .prompting deadline⟩ (.admission i) d.service s' ∧ d.nextId = n := by
  have hl := line.closeCalls?_send (Admission.prompt e)
  simp only [Admission.step] at hs
  generalize line.send (Admission.prompt e) = o at hs hl
  obtain ⟨line', r⟩ := o
  cases r with
  | sent =>
    cases hs
    exact ⟨.prompted line line' _ _ hl, rfl⟩
  | failed err =>
    cases hs
    exact ⟨.unprompted line line' _ _ _ hl, rfl⟩
  | waiting =>
    dsimp only at hs
    split at hs
    · cases hs
      exact ⟨.unprompted line _ _ _ _ hl, rfl⟩
    · cases hs

/-- A proof that the verifier accepts is given a number; whatever else comes is not. -/
theorem works_of_awaiting {deadline : Nat}
    (hs : Admission.step e i ⟨v, n⟩ ⟨line, .awaiting deadline⟩ = some (d, s')) :
    (Works i v ⟨line, .awaiting deadline⟩ (.admission i) d.service s' ∧ d.nextId = n) ∨
      ∃ line' u,
        (d, s') = ((Admission.assign e ⟨v, n⟩ u).1, ⟨line', (Admission.assign e ⟨v, n⟩ u).2⟩) ∧
        line'.closeCalls? = line.closeCalls? := by
  have hl := line.closeCalls?_receive
  simp only [Admission.step] at hs
  generalize line.receive = o at hs hl
  obtain ⟨line', r⟩ := o
  cases r with
  | frame f =>
    dsimp only at hs
    split at hs
    · rename_i u _
      cases hs
      exact .inr ⟨line', u, rfl, hl⟩
    · cases hs
      exact .inl ⟨.unproved line line' _ _ _ hl, rfl⟩
    · cases hs
      exact .inl ⟨.ignored line line' _ hl, rfl⟩
  | failed err =>
    cases hs
    exact .inl ⟨.unproved line line' _ _ _ hl, rfl⟩
  | waiting =>
    dsimp only at hs
    split at hs
    · cases hs
      exact .inl ⟨.unproved line line' _ _ _ hl, rfl⟩
    · cases hs

theorem works_of_refuse {line' : Line} {why : AdmitError} {deadline : Nat} {endpoint : Option Nat}
    (hl : line'.closeCalls? = line.closeCalls?)
    (hs : some (Admission.refuse ⟨v, n⟩ line' why endpoint) = some (d, s')) :
    Works i v ⟨line, .rejecting why deadline endpoint⟩ (.admission i) d.service s' ∧
      d.nextId = n := by
  have hclosed : line'.close.dropSink.dropSource.closeCalls? = line.closeCalls?.map (· + 1) := by
    rw [Line.closeCalls?_dropSource, Line.closeCalls?_dropSink, Line.closeCalls?_close, hl]
  cases hs
  cases endpoint with
  | none => exact ⟨.refused line _ why deadline hclosed, rfl⟩
  | some k => exact ⟨.released line _ why deadline k hclosed, rfl⟩

theorem works_of_rejecting {why : AdmitError} {deadline : Nat} {endpoint : Option Nat}
    (hs : Admission.step e i ⟨v, n⟩ ⟨line, .rejecting why deadline endpoint⟩ = some (d, s')) :
    Works i v ⟨line, .rejecting why deadline endpoint⟩ (.admission i) d.service s' ∧
      d.nextId = n := by
  have hl := line.closeCalls?_send (ServerFrame.authFailed why.reason).frame
  simp only [Admission.step] at hs
  generalize line.send (ServerFrame.authFailed why.reason).frame = o at hs hl
  obtain ⟨line', r⟩ := o
  cases r with
  | sent => exact works_of_refuse hl hs
  | failed err => exact works_of_refuse hl hs
  | waiting =>
    dsimp only at hs
    split at hs
    · exact works_of_refuse hl hs
    · cases hs

theorem works_of_registering {h : Handle} {asked : Bool} (hv : v.running = true)
    (hs : Admission.step e i ⟨v, n⟩ ⟨line, .registering h asked⟩ = some (d, s')) :
    Works i v ⟨line, .registering h asked⟩ (.admission i) d.service s' ∧ d.nextId = n := by
  cases asked with
  | false =>
    simp only [Admission.step, hv, Bool.not_true, Bool.false_eq_true, if_false] at hs
    split at hs
    · cases hs
      exact ⟨.asked line h, rfl⟩
    · cases hs
  | true =>
    simp only [Admission.step, Service.collect] at hs
    split at hs
    · rename_i heq
      cases hs
      have hr := congrArg Prod.snd heq
      have hc := congrArg Prod.fst heq
      cases hc
      exact ⟨.granted line h _ _ hr, rfl⟩
    · rename_i heq
      cases hs
      have hr := congrArg Prod.snd heq
      have hc := congrArg Prod.fst heq
      cases hc
      exact ⟨.denied line h _ _ hr, rfl⟩
    · simp [hv] at hs

theorem works_of_greeting {h : Handle} {deadline : Nat}
    (hs : Admission.step e i ⟨v, n⟩ ⟨line, .greeting h deadline⟩ = some (d, s')) :
    Works i v ⟨line, .greeting h deadline⟩ (.admission i) d.service s' ∧ d.nextId = n := by
  have hl := line.closeCalls?_send (ServerFrame.authSuccess h.user).frame
  simp only [Admission.step] at hs
  generalize line.send (ServerFrame.authSuccess h.user).frame = o at hs hl
  obtain ⟨line', r⟩ := o
  cases r with
  | sent =>
    cases hs
    exact ⟨.greeted line line' h _ _ _ _ hl, rfl⟩
  | failed err =>
    cases hs
    exact ⟨.ungreeted line line' h _ _ hl, rfl⟩
  | waiting =>
    dsimp only at hs
    split at hs
    · cases hs
      exact ⟨.ungreeted line _ h _ _ hl, rfl⟩
    · cases hs

theorem works_of_withdrawing {h : Handle} {err : TransportError} (hv : v.running = true)
    (hs : Admission.step e i ⟨v, n⟩ ⟨line, .withdrawing h err⟩ = some (d, s')) :
    Works i v ⟨line, .withdrawing h err⟩ (.admission i) d.service s' ∧ d.nextId = n := by
  simp only [Admission.step, hv, Bool.true_and] at hs
  split at hs
  · cases hs
  · cases hs
    refine ⟨.withdrawn line _ h err ?_, rfl⟩
    rw [Line.closeCalls?_dropSource, Line.closeCalls?_dropSink, Line.closeCalls?_close]

end

theorem works_of_admission {n : Nat} {d : Desk} {s s' : Session} (hv : v.running = true)
    (hs : Admission.step e i ⟨v, n⟩ s = some (d, s')) :
    (s.Works i v (.admission i) d.service s' ∧ d.nextId = n) ∨
      ∃ line line' deadline u, s = ⟨line, .awaiting deadline⟩ ∧
        (d, s') = ((Admission.assign e ⟨v, n⟩ u).1, ⟨line', (Admission.assign e ⟨v, n⟩ u).2⟩) ∧
        line'.closeCalls? = line.closeCalls? := by
  obtain ⟨line, phase⟩ := s
  cases phase with
  | prompting deadline => exact .inl (works_of_prompting hs)
  | awaiting deadline =>
    rcases works_of_awaiting hs with hw | ⟨line', u, heq, hl⟩
    · exact .inl hw
    · exact .inr ⟨line, line', deadline, u, rfl, heq, hl⟩
  | rejecting why deadline endpoint => exact .inl (works_of_rejecting hs)
  | registering h asked => exact .inl (works_of_registering hv hs)
  | greeting h deadline => exact .inl (works_of_greeting hs)
  | withdrawing h err => exact .inl (works_of_withdrawing hv hs)
  | admitted h inbound outbound => cases hs
  | refused why => cases hs

theorem works_of_inbound {line line' : Line} {h : Handle} {inbound inbound' : Inbound}
    {outbound : Outbound} {v' : Service} (hv : v.running = true)
    (hs : inbound.step e h line v = some (line', v', inbound')) :
    Works i v ⟨line, .admitted h inbound outbound⟩ (.inbound i) v'
      ⟨line', .admitted h inbound' outbound⟩ := by
  cases inbound with
  | running deadline followed =>
    have hl := line.closeCalls?_receive
    simp only [Inbound.step] at hs
    split at hs
    · rename_i hsignalled
      cases hs
      exact .left line line h _ _ _ _ rfl fun _ => hsignalled
    · generalize line.receive = o at hs hl
      obtain ⟨line₁, r⟩ := o
      cases r with
      | frame f =>
        cases f with
        | close =>
          cases hs
          exact .left line line' h _ _ _ _ hl nofun
        | _ =>
          cases hs
          exact .heard line line' h _ _ _ _ _ _ hl
      | failed err =>
        cases hs
        exact .left line line' h _ _ _ _ hl (by cases err <;> nofun)
      | waiting =>
        dsimp only at hs
        split at hs
        · cases hs
          exact .left line line' h _ _ _ _ hl nofun
        · cases hs
  | leaving exit =>
    simp only [Inbound.step, hv, Bool.true_and] at hs
    split at hs
    · cases hs
    · cases hs
      exact .unregistered line _ h exit outbound (line.closeCalls?_dropSource)
  | ended exit => cases hs
  | absent => cases hs

theorem works_of_keepAlive {line line' : Line} {h : Handle} {inbound : Inbound}
    {outbound outbound' : Outbound} {v' : Service} {m : Move}
    (hm : m = .outbound i ∨ m = .keepalive i)
    (hs : outbound.keepAlive e line v = some (line', v', outbound')) :
    Works i v ⟨line, .admitted h inbound outbound⟩ m v'
      ⟨line', .admitted h inbound outbound'⟩ := by
  cases outbound with
  | idle keepalive =>
    simp only [Outbound.keepAlive] at hs
    split at hs
    · cases hs
      exact .pinging line h inbound _ _ _ _ m hm
    · cases hs
  | _ => cases hs

theorem works_of_outbound {line line' : Line} {h : Handle} {inbound : Inbound}
    {outbound outbound' : Outbound} {v' : Service}
    (hs : outbound.step e h line v = some (line', v', outbound')) :
    Works i v ⟨line, .admitted h inbound outbound⟩ (.outbound i) v'
      ⟨line', .admitted h inbound outbound'⟩ := by
  cases outbound with
  | idle keepalive =>
    simp only [Outbound.step, Mailbox.take] at hs
    cases hsig : (v.members.room.mailbox h.endpoint).signalled with
    | true =>
      rw [if_pos hsig] at hs
      cases hs
      exact .stopped line h inbound keepalive _ hsig
    | false =>
      rw [if_neg (by simp [hsig])] at hs
      cases hq : (v.members.room.mailbox h.endpoint).queue with
      | nil =>
        rw [hq] at hs
        exact works_of_keepAlive (.inl rfl) hs
      | cons f rest =>
        rw [hq] at hs
        cases hs
        exact .took line h inbound keepalive f rest _ hsig hq
  | writing f keeping deadline keepalive =>
    have hl := line.closeCalls?_send f
    simp only [Outbound.step] at hs
    generalize ho : line.send f = o at hs hl
    obtain ⟨line₁, r⟩ := o
    cases r with
    | sent =>
      cases hs
      exact .sent line line' h inbound _ f keeping deadline hl (by rw [ho])
    | failed err =>
      cases hs
      exact .cut line line' h inbound keepalive f keeping deadline _ hl (by simp [ho])
        (by cases keeping <;> nofun)
    | waiting =>
      dsimp only at hs
      split at hs
      · cases hs
        exact .cut line _ h inbound keepalive f keeping deadline _ hl (by simp [ho])
          (by cases keeping <;> nofun)
      · cases hs
  | closing exit =>
    cases hs
    refine .closed line _ h inbound exit ?_
    rw [Line.closeCalls?_dropSink, Line.closeCalls?_close]
  | ended exit => cases hs
  | absent => cases hs

end Session

end PushHub
