import PushHub.Proofs.Hub.Credential
import PushHub.Proofs.Hub.Hearing

/-! The two ways into a hub meet. A client that brings a proof among other frames gets to the very hub
at which its user is registered with the frames behind the proof, whatever the hub does in the
meantime. -/
namespace PushHub

open Registry (Service Handle)

/-! ## Transports -/

/-- What the transport answers by itself. -/
def Frame.echo? : Frame → Option Frame
  | .ping bytes => some (.pong bytes)
  | _ => none

def Frame.echoes (frames : List Frame) : List Frame := frames.filterMap Frame.echo?

theorem Frame.echoes_cons (f : Frame) (frames : List Frame) :
    echoes (f :: frames) = f.echo?.toList ++ echoes frames := by
  unfold echoes
  rw [List.filterMap_cons]
  cases f.echo? <;> rfl

theorem Frame.echoes_append (frames more : List Frame) :
    echoes (frames ++ more) = echoes frames ++ echoes more :=
  List.filterMap_append

def Reading.frame? : Reading → Option Frame
  | .frame f => some f
  | _ => none

namespace Pipe

/-- Frames of the client that the hub has not read, and frames of the hub that the client has not. -/
def holding (p : Pipe) (unread unseen : List Frame) : Pipe :=
  { p with fromPeer := unread, toPeer := unseen }

/-- Neither side has closed it, and the hub may write to it. -/
structure IsOpen (p : Pipe) : Prop where
  closed : p.closed = false
  peerGone : p.peerGone = false
  capacity : 0 < p.capacity

/-- What an answer adds to what the client has not seen. -/
def echo (p : Pipe) (f : Frame) (unseen : List Frame) : List Frame :=
  if unseen.length < p.capacity then f.echo?.toList else []

theorem echo_sublist (p : Pipe) (f : Frame) (unseen : List Frame) :
    (p.echo f unseen).Sublist f.echo?.toList := by
  unfold echo
  split
  · exact List.Sublist.refl _
  · exact List.nil_sublist _

theorem echo_of_room {p : Pipe} {f : Frame} {unseen : List Frame}
    (hroom : unseen.length + f.echo?.toList.length ≤ p.capacity) :
    p.echo f unseen = f.echo?.toList := by
  unfold echo
  cases hf : f.echo? with
  | none => exact ite_self []
  | some g =>
    rw [hf] at hroom
    exact if_pos hroom

section

variable {p : Pipe} (hp : p.IsOpen)

include hp

theorem send_holding (unread : List Frame) {unseen : List Frame} (hroom : unseen.length < p.capacity)
    (f : Frame) : (p.holding unread unseen).send f = (p.holding unread (unseen ++ [f]), .sent) := by
  have hopen : (p.closed || p.peerGone) = false := by rw [hp.closed, hp.peerGone]; rfl
  unfold send
  rw [show (p.holding unread unseen).closed = p.closed from rfl,
    show (p.holding unread unseen).peerGone = p.peerGone from rfl, hopen]
  exact if_neg (Nat.not_le.mpr hroom)

theorem receive_holding (f : Frame) (unread unseen : List Frame) :
    (p.holding (f :: unread) unseen).receive =
      (p.holding unread (unseen ++ p.echo f unseen), .frame f) := by
  have hanswer : (p.holding unread unseen).answer f =
      p.holding unread (unseen ++ p.echo f unseen) := by
    unfold echo
    cases f with
    | ping bytes =>
      by_cases hroom : unseen.length < p.capacity
      · simp [answer, holding, hp.peerGone, Frame.echo?, hroom, Nat.not_le.mpr hroom]
      · simp [answer, holding, hp.peerGone, hroom, Nat.le_of_not_lt hroom]
    | _ =>
      split <;> simp [answer, Frame.echo?]
  have hopen : ¬ (p.holding (f :: unread) unseen).closed = true := by
    rw [show (p.holding (f :: unread) unseen).closed = p.closed from rfl, hp.closed]
    decide
  unfold receive
  rw [if_neg hopen]
  exact congrArg (·, Receiving.frame f) hanswer

theorem echo_nil (f : Frame) : p.echo f [] = f.echo?.toList := if_pos hp.capacity

omit hp in
theorem read_holding (unread unseen : List Frame) :
    (p.holding unread unseen).peerRead.1 = p.holding unread unseen.tail ∧
      (p.holding unread unseen).peerRead.2.frame? = unseen.head? := by
  cases unseen with
  | nil =>
    unfold peerRead
    split
    · rename_i heq
      cases heq
    · split <;> exact ⟨rfl, rfl⟩
  | cons f unseen => exact ⟨rfl, rfl⟩

end

end Pipe

/-! ## Verdicts -/

/-- A client comes with frames that prove nobody, none of them a close, and a proof of user `u`. -/
structure Surroundings.Approaches (e : Surroundings) (noise : List Frame) (proof : Frame)
    (u : UserId) : Prop where
  noise : ∀ f ∈ noise, f ≠ .close ∧ ∀ v, ¬ e.Proves v f
  proof : e.Proves u proof

theorem Surroundings.approaches_of_judge {e : Surroundings} {noise : List Frame} {proof : Frame}
    {u : UserId} (hnoise : ∀ f ∈ noise, Admission.judge e f = .ignored)
    (hproof : Admission.judge e proof = .accepted u) : e.Approaches noise proof u where
  noise f hf := by
    have hignored := hnoise f hf
    refine ⟨?_, fun v hv => ?_⟩
    · rintro rfl
      cases hignored
    · cases hignored.symm.trans (Admission.judge_eq_accepted.mpr hv)
  proof := Admission.judge_eq_accepted.mp hproof

theorem Admission.judge_of_noise {e : Surroundings} {f : Frame} (hclose : f ≠ .close)
    (hf : ∀ v, ¬ e.Proves v f) : judge e f = .ignored := by
  cases hj : judge e f with
  | accepted u => exact absurd (judge_eq_accepted.mp hj) (hf u)
  | closed =>
    refine absurd ?_ hclose
    unfold judge at hj
    split at hj
    · split at hj
      · split at hj <;> cases hj
      · cases hj
    · rfl
    · cases hj
  | ignored => rfl

namespace Hub

/-! ## A hub with one more session -/

def add (h : Hub) (s : Session) : Hub := { h with sessions := h.sessions ++ [s] }

section

variable {h h' : Hub} {s : Session} {a : Action}

theorem getElem?_add (h : Hub) (s : Session) : (h.add s).sessions[h.sessions.length]? = some s :=
  List.getElem?_concat_length

theorem move_add (h : Hub) (s : Session) {m : Move} (hm : m.session? = some h.sessions.length) :
    (h.add s).move m = (s.move h.surroundings h.desk m).map fun (d, s') =>
      { h with service := d.service, nextId := d.nextId }.add s' := by
  rw [move_eq_of_session _ hm, getElem?_add, Option.bind_some]
  congr 1
  funext ⟨d, s'⟩
  unfold add setSession
  simp

theorem client_add (h : Hub) (s : Session) (c : ClientAct) :
    (h.add s).act (.client h.sessions.length c) =
      some (h.add { s with line.wire := c.on s.line.wire }) := by
  show some ((h.add s).onClient h.sessions.length fun w => c.on w) = _
  unfold onClient
  rw [getElem?_add]
  unfold add setSession
  simp

/-- What may happen while a client comes in: no transport is opened, and the client does nothing but
read. -/
def Action.Aside (i : Nat) : Action → Prop
  | .accept _ => False
  | .register _ _ => False
  | .client _ .read => True
  | .client j _ => j ≠ i
  | _ => True

/-- Where an action is not of the last session, it leads to the same without it. -/
structure Apart (h : Hub) (a : Action) (s : Session) (h' h₁ : Hub) : Prop where
  act : h.act a = some h₁
  eq : h' = h₁.add s
  length : h₁.sessions.length = h.sessions.length
  settings : h₁.settings = h.settings

theorem getElem?_add_of_ne {j : Nat} (hj : j ≠ h.sessions.length) :
    (h.add s).sessions[j]? = h.sessions[j]? :=
  getElem?_concat_ne h.sessions s hj

theorem setSession_add {j : Nat} {t t' : Session} (ht : h.sessions[j]? = some t) :
    (h.add s).setSession j t' = (h.setSession j t').add s := by
  have hlt := (List.getElem?_eq_some_iff.mp ht).1
  unfold add setSession
  simp only [List.set_append_left _ _ hlt]

theorem act_add (ha : (h.add s).act a = some h') (haside : a.Aside h.sessions.length)
    (hne : a.session? ≠ some h.sessions.length) : ∃ h₁, Apart h a s h' h₁ := by
  cases a with
  | move m =>
    cases hm : m.session? with
    | some j =>
      have hj : j ≠ h.sessions.length := fun heq => hne (hm.trans (congrArg some heq))
      obtain ⟨t, d, t', ht, hmove, rfl⟩ := (move_eq_some hm).mp ha
      rw [getElem?_add_of_ne hj] at ht
      refine ⟨_, (move_eq_some hm).mpr ⟨t, d, t', ht, hmove, rfl⟩, ?_, List.length_set, rfl⟩
      exact setSession_add (h := { h with service := d.service, nextId := d.nextId }) ht
    | none =>
      cases m with
      | serve =>
        simp only [act, move] at ha
        split at ha
        · cases ha
        · rename_i hq
          cases ha
          exact ⟨_, if_neg hq, rfl, rfl, rfl⟩
      | sweep =>
        simp only [act, move] at ha
        split at ha
        · rename_i hdue
          cases ha
          exact ⟨_, if_pos hdue, rfl, rfl, rfl⟩
        · cases ha
      | _ => cases hm
  | accept line => cases haside
  | register u line => cases haside
  | dispatch r =>
    cases ha
    exact ⟨_, rfl, rfl, rfl, rfl⟩
  | ask q =>
    simp only [act] at ha
    split at ha
    · rename_i hroom
      cases ha
      exact ⟨_, if_pos hroom, rfl, rfl, rfl⟩
    · cases ha
  | client j c =>
    have hj : j ≠ h.sessions.length := fun heq => hne (congrArg some heq)
    cases ht : h.sessions[j]? with
    | none =>
      simp only [act, onClient, getElem?_add_of_ne hj, ht] at ha
      cases ha
      exact ⟨h, by simp only [act, onClient, ht], rfl, rfl, rfl⟩
    | some t =>
      simp only [act, onClient, getElem?_add_of_ne hj, ht, setSession_add ht] at ha
      cases ha
      exact ⟨_, by simp only [act, onClient, ht], rfl, List.length_set, rfl⟩
  | pass ms clock =>
    cases ha
    exact ⟨_, rfl, rfl, rfl, rfl⟩

end

/-! ## One step of the handshake -/

section

variable {e : Surroundings} {i : Nat} {d : Desk} {p : Pipe} {f : Frame} {u : UserId}
  {unread unseen : List Frame} {deadline : Nat}

theorem step_prompting (hp : p.IsOpen) (unread : List Frame) (deadline : Nat) :
    Admission.step e i d ⟨(p.holding unread []).line, .prompting deadline⟩ =
      some (d, ⟨(p.holding unread [Admission.prompt e]).line,
        .awaiting (e.now + e.settings.authTimeout)⟩) := by
  have hroom : ([] : List Frame).length < p.capacity := hp.capacity
  have hsend := Pipe.send_holding hp unread hroom (Admission.prompt e)
  simp only [Admission.step, Pipe.line_send, hsend, List.nil_append]

theorem step_noise (hp : p.IsOpen) (hf : Admission.judge e f = .ignored)
    (unread unseen : List Frame) (deadline : Nat) :
    Admission.step e i d ⟨(p.holding (f :: unread) unseen).line, .awaiting deadline⟩ =
      some (d, ⟨(p.holding unread (unseen ++ p.echo f unseen)).line, .awaiting deadline⟩) := by
  simp only [Admission.step, Pipe.line_receive, Pipe.receive_holding hp, hf]

theorem step_proof (hp : p.IsOpen) (hf : e.Proves u f) (unread unseen : List Frame)
    (deadline : Nat) :
    Admission.step e i d ⟨(p.holding (f :: unread) unseen).line, .awaiting deadline⟩ =
      some ((Admission.assign e d u).1,
        ⟨(p.holding unread unseen).line, (Admission.assign e d u).2⟩) := by
  have hecho : unseen ++ p.echo f unseen = unseen := by
    obtain ⟨text, token, -, -, -⟩ := hf
    unfold Pipe.echo
    simp [Frame.echo?]
  simp only [Admission.step, Pipe.line_receive, Pipe.receive_holding hp,
    Admission.judge_eq_accepted.mpr hf, hecho]

theorem step_isSome (hp : p.IsOpen) :
    (Admission.step e i d ⟨(p.holding (f :: unread) unseen).line, .awaiting deadline⟩).isSome := by
  simp only [Admission.step, Pipe.line_receive, Pipe.receive_holding hp]
  cases Admission.judge e f <;> rfl

end

/-! ## Observing a run -/

def Moment.sees? (t : Moment) (i : Nat) : Option Frame :=
  match t.action with
  | .client j .read =>
    if j = i then (t.before.sessions[i]?).bind fun s => s.line.wire.clientRead.2.frame? else none
  | _ => none

def seen (ms : List Moment) (i : Nat) : List Frame := ms.filterMap (Moment.sees? · i)

theorem seen_snoc (ms : List Moment) (t : Moment) (i : Nat) :
    seen (ms ++ [t]) i = seen ms i ++ (t.sees? i).toList :=
  filterMap_snoc _ ms t

theorem heard?_admission (h h' : Hub) (i j : Nat) :
    Moment.heard? ⟨h, .move (.admission j), h'⟩ i = none := by
  unfold Moment.heard?
  cases ho : Moment.own? ⟨h, .move (.admission j), h'⟩ i with
  | none => rfl
  | some q =>
    obtain ⟨s, m⟩ := q
    obtain ⟨haction, -, -⟩ := own?_eq_some.mp ho
    cases haction
    rfl

section

variable {start mid last h h' g : Hub} {p : Pipe} {u : UserId} {noise rest unread unseen : List Frame}
  {proof f : Frame} {ms more : List Moment} {s s' : Session} {d : Desk} {a : Action} {phase : Phase}
  {i deadline : Nat}

theorem Run.append (hr : Run start ms mid) (hr' : Run mid more last) :
    Run start (ms ++ more) last := by
  induction hr' with
  | nil =>
    rw [List.append_nil]
    exact hr
  | snoc _ ha ih =>
    rw [← List.append_assoc]
    exact ih.snoc ha

theorem admission_add
    (hs : Admission.step h.surroundings h.sessions.length h.desk s = some (d, s')) :
    (h.add s).act (.move (.admission h.sessions.length)) =
      some ({ h with service := d.service, nextId := d.nextId }.add s') :=
  (move_add h s (m := .admission h.sessions.length) rfl).trans (congrArg (Option.map _) hs)

theorem read_add : (h.add ⟨(p.holding unread unseen).line, phase⟩).act
    (.client h.sessions.length .read) =
      some (h.add ⟨(p.holding unread unseen.tail).line, phase⟩) := by
  rw [client_add, ← (Pipe.read_holding unread unseen).1]
  rfl

theorem sees?_add : Moment.sees? ⟨h.add ⟨(p.holding unread unseen).line, phase⟩,
    .client h.sessions.length .read, h'⟩ h.sessions.length = unseen.head? := by
  unfold Moment.sees?
  dsimp only
  rw [if_pos rfl, getElem?_add, Option.bind_some]
  exact (Pipe.read_holding unread unseen).2

/-! ## Straight in -/

/-- Session `i` gets by itself from one hub to another; its client reads `frames`, and its loop takes up
nothing. -/
def Goes (i : Nat) (h : Hub) (frames : List Frame) (h' : Hub) : Prop :=
  ∃ ms, Run h ms h' ∧ (∀ t ∈ ms, t.action.session? = some i) ∧ seen ms i = frames ∧ heard ms i = []

theorem Goes.trans {frames frames' : List Frame} (h₁ : Goes i start frames mid)
    (h₂ : Goes i mid frames' last) : Goes i start (frames ++ frames') last := by
  obtain ⟨ms, hr, hown, hseen, hheard⟩ := h₁
  obtain ⟨more, hr', hown', hseen', hheard'⟩ := h₂
  refine ⟨ms ++ more, hr.append hr', fun t ht => ?_, ?_, ?_⟩
  · rcases List.mem_append.mp ht with ht | ht
    · exact hown t ht
    · exact hown' t ht
  · unfold seen at hseen hseen' ⊢
    rw [List.filterMap_append, hseen, hseen']
  · unfold heard at hheard hheard' ⊢
    rw [List.filterMap_append, hheard, hheard', List.append_nil]

theorem goes_admission
    (hs : Admission.step h.surroundings h.sessions.length h.desk s = some (d, s')) :
    Goes h.sessions.length (h.add s) []
      ({ h with service := d.service, nextId := d.nextId }.add s') := by
  refine ⟨_, .snoc .nil (admission_add hs), ?_, rfl, ?_⟩
  · simp [Action.session?, Move.session?]
  · simp [heard, heard?_admission]

theorem goes_read (h : Hub) (p : Pipe) (unread unseen : List Frame) (phase : Phase) :
    Goes h.sessions.length (h.add ⟨(p.holding unread unseen).line, phase⟩) unseen.head?.toList
      (h.add ⟨(p.holding unread unseen.tail).line, phase⟩) := by
  refine ⟨_, .snoc .nil read_add, ?_, ?_, rfl⟩
  · simp [Action.session?]
  · rw [seen_snoc, sees?_add]
    rfl

theorem goes_noise (hp : p.IsOpen) (hf : Admission.judge h.surroundings f = .ignored)
    (unread : List Frame) (deadline : Nat) :
    Goes h.sessions.length (h.add ⟨(p.holding (f :: unread) []).line, .awaiting deadline⟩)
      f.echo?.toList (h.add ⟨(p.holding unread []).line, .awaiting deadline⟩) := by
  have hpass := goes_admission (step_noise (d := h.desk) hp hf unread [] deadline)
  have hread := goes_read h p unread (p.echo f []) (.awaiting deadline)
  have hecho : (p.echo f []).head?.toList = f.echo?.toList ∧ (p.echo f []).tail = [] := by
    rw [Pipe.echo_nil hp]
    cases f.echo? <;> exact ⟨rfl, rfl⟩
  rw [hecho.1, hecho.2] at hread
  exact hpass.trans hread

theorem goes_noises (hp : p.IsOpen)
    (hnoise : ∀ f ∈ noise, Admission.judge h.surroundings f = .ignored) (unread : List Frame)
    (deadline : Nat) :
    Goes h.sessions.length (h.add ⟨(p.holding (noise ++ unread) []).line, .awaiting deadline⟩)
      (Frame.echoes noise) (h.add ⟨(p.holding unread []).line, .awaiting deadline⟩) := by
  induction noise with
  | nil => exact ⟨[], .nil, by simp, rfl, rfl⟩
  | cons f noise ih =>
    have hrest := ih fun g hg => hnoise g (List.mem_cons_of_mem _ hg)
    have hall := (goes_noise hp (hnoise f List.mem_cons_self) (noise ++ unread) deadline).trans hrest
    rw [Frame.echoes_cons]
    exact hall

/-- A client that brings a proof gets by itself to where its user is registered. -/
theorem goes_in (hp : p.IsOpen) (ha : h.surroundings.Approaches noise proof u) (rest : List Frame) :
    Goes h.sessions.length (h.accept (p.holding (noise ++ proof :: rest) []).line).1
      (Admission.prompt h.surroundings :: Frame.echoes noise)
      (h.register u (p.holding rest []).line).1 := by
  have hignored (f : Frame) (hf : f ∈ noise) : Admission.judge h.surroundings f = .ignored :=
    Admission.judge_of_noise (ha.noise f hf).1 (ha.noise f hf).2
  have hprompt := goes_admission (step_prompting (d := h.desk) (i := h.sessions.length) hp
    (noise ++ proof :: rest) h.surroundings.writeDeadline)
  have hread := goes_read h p (noise ++ proof :: rest) [Admission.prompt h.surroundings]
    (.awaiting (h.surroundings.now + h.surroundings.settings.authTimeout))
  have hnoise := goes_noises hp hignored (proof :: rest)
    (h.surroundings.now + h.surroundings.settings.authTimeout)
  have hproof := goes_admission (step_proof (d := h.desk) (i := h.sessions.length) hp ha.proof
    rest [] (h.surroundings.now + h.surroundings.settings.authTimeout))
  have hall := ((hprompt.trans hread).trans hnoise).trans hproof
  rw [List.append_nil] at hall
  exact hall

end

/-! ## Whatever else happens -/

/-- The answers of a transport to the frames `passed` over: those that it had room for, and all of them
where there is room for an answer to each frame in front of the proof. -/
structure Answers (p : Pipe) (noise passed answered : List Frame) : Prop where
  sublist : answered.Sublist (Frame.echoes passed)
  all : (Frame.echoes noise).length < p.capacity → answered = Frame.echoes passed

/-- How far a session has come whose client has not been heard to its proof. -/
inductive Entering (p : Pipe) (noise : List Frame) (proof : Frame) (rest : List Frame)
    (prompt : Frame) (seen : List Frame) : Session → Prop
  | prompting (deadline : Nat) (hseen : seen = []) :
      Entering p noise proof rest prompt seen
        ⟨(p.holding (noise ++ proof :: rest) []).line, .prompting deadline⟩
  | awaiting (deadline : Nat) (passed left unseen answered : List Frame)
      (hnoise : noise = passed ++ left) (hseen : seen ++ unseen = prompt :: answered)
      (ha : Answers p noise passed answered) :
      Entering p noise proof rest prompt seen
        ⟨(p.holding (left ++ proof :: rest) unseen).line, .awaiting deadline⟩

section

variable {start h h₁ g g' : Hub} {p : Pipe} {u : UserId} {noise rest unread unseen : List Frame}
  {proof f prompt : Frame} {ms : List Moment} {s s' : Session} {d : Desk} {a : Action} {i : Nat}
  {e : Surroundings} {already : List Frame}

theorem Answers.pass {passed left answered : List Frame} (ha : Answers p noise passed answered)
    (hnoise : noise = passed ++ f :: left) (hseen : already ++ unseen = prompt :: answered) :
    Answers p noise (passed ++ [f]) (answered ++ p.echo f unseen) := by
  have hechoes : Frame.echoes (passed ++ [f]) = Frame.echoes passed ++ f.echo?.toList := by
    rw [Frame.echoes_append, Frame.echoes_cons]
    exact congrArg _ (List.append_nil _)
  refine ⟨?_, fun hroom => ?_⟩
  · rw [hechoes]
    exact ha.sublist.append (p.echo_sublist f unseen)
  · have hall := ha.all hroom
    -- The prompt may still be unread, so that one place more is needed than there are answers.
    have hunseen : unseen.length ≤ (Frame.echoes passed).length + 1 := by
      have := congrArg List.length hseen
      rw [List.length_append, List.length_cons, hall] at this
      omega
    have hnext : (Frame.echoes noise).length =
        (Frame.echoes passed).length + (f.echo?.toList.length + (Frame.echoes left).length) := by
      rw [hnoise, Frame.echoes_append, Frame.echoes_cons, List.length_append, List.length_append]
    rw [hechoes, hall, Pipe.echo_of_room (by omega)]

theorem Entering.moved (hp : p.IsOpen) (ha : e.Approaches noise proof u)
    (hprompt : prompt = Admission.prompt e)
    (hs : Entering p noise proof rest prompt already s) :
    (∃ s', Admission.step e i d s = some (d, s') ∧ Entering p noise proof rest prompt already s') ∨
    (∃ unseen answered, already ++ unseen = prompt :: answered ∧ Answers p noise noise answered ∧
      Admission.step e i d s = some ((Admission.assign e d u).1,
        ⟨(p.holding rest unseen).line, (Admission.assign e d u).2⟩)) := by
  cases hs with
  | prompting deadline hseen =>
    subst hprompt hseen
    exact .inl ⟨_, step_prompting hp _ _,
      .awaiting _ [] noise [Admission.prompt e] [] rfl rfl ⟨.slnil, fun _ => rfl⟩⟩
  | awaiting deadline passed left unseen answered hnoise hseen hanswers =>
    cases left with
    | nil =>
      rw [List.append_nil] at hnoise
      exact .inr ⟨unseen, answered, hseen, hnoise ▸ hanswers, step_proof hp ha.proof _ _ _⟩
    | cons f left =>
      have hf := ha.noise f (by rw [hnoise]; simp)
      refine .inl ⟨_, step_noise hp (Admission.judge_of_noise hf.1 hf.2) _ _ _, ?_⟩
      refine .awaiting deadline (passed ++ [f]) left _ (answered ++ p.echo f unseen)
        (by simpa using hnoise) ?_ (hanswers.pass hnoise hseen)
      rw [← List.append_assoc, hseen, List.cons_append]

theorem Entering.read (hs : Entering p noise proof rest prompt already s) :
    ∃ unread unseen phase, s = ⟨(p.holding unread unseen).line, phase⟩ ∧
      Entering p noise proof rest prompt (already ++ unseen.head?.toList)
        ⟨(p.holding unread unseen.tail).line, phase⟩ := by
  cases hs with
  | prompting deadline hseen =>
    exact ⟨_, [], _, rfl, .prompting deadline (by rw [hseen]; rfl)⟩
  | awaiting deadline passed left unseen answered hnoise hseen hanswers =>
    refine ⟨_, unseen, _, rfl, .awaiting deadline passed left _ answered hnoise ?_ hanswers⟩
    rw [← hseen, List.append_assoc]
    cases unseen <;> rfl

theorem Entering.isHandshake (hs : Entering p noise proof rest prompt already s) :
    s.phase.isHandshake = true := by
  cases hs <;> rfl

theorem Entering.step_isSome (hp : p.IsOpen) (hs : Entering p noise proof rest prompt already s) :
    (Admission.step e i d s).isSome := by
  cases hs with
  | prompting deadline hseen =>
    rw [step_prompting hp]
    rfl
  | awaiting deadline passed left unseen answered hnoise hseen hanswers =>
    cases left with
    | nil => exact Hub.step_isSome hp
    | cons f left => exact Hub.step_isSome hp

end

/-- What the hub comes to beside session `i`, whose loop takes up nothing. -/
structure Beside (h : Hub) (i : Nat) (ms : List Moment) (h₁ : Hub) : Prop where
  run : ∃ ms', Run h ms' h₁ ∧
    ms'.map Moment.action = (ms.map Moment.action).filter fun a => a.session? ≠ some i
  length : h₁.sessions.length = i
  settings : h₁.settings = h.settings
  heard : heard ms i = []

/-- The proof of a client is taken: what the client has seen and what it has not make up the prompt and
answers of its transport. -/
structure Enters (h : Hub) (p : Pipe) (noise : List Frame) (i : Nat) (first : List Moment)
    (h₁ : Hub) (unseen : List Frame) : Prop extends Beside h i first h₁ where
  answers : ∃ answered, seen first i ++ unseen = Admission.prompt h.surroundings :: answered ∧
    Answers p noise noise answered

/-- While the handshake of session `i` lasts no transport is opened, the client does nothing but read,
and the verdicts on what it has sent stand. -/
def Unhindered (noise : List Frame) (proof : Frame) (u : UserId) (i : Nat) (ms : List Moment) : Prop :=
  ∀ t ∈ ms, ∀ s : Session, t.before.sessions[i]? = some s → s.phase.isHandshake = true →
    t.action.Aside i ∧ t.before.surroundings.Approaches noise proof u

section

variable {h h₁ h₂ g g' : Hub} {p : Pipe} {u : UserId} {noise rest : List Frame} {proof : Frame}
  {ms : List Moment} {s : Session} {a : Action} {i : Nat} {t : Moment}

theorem Beside.own (hb : Beside h i ms h₁) (ht : t.action.session? = some i)
    (hheard : t.heard? i = none) : Beside h i (ms ++ [t]) h₁ where
  run := by
    obtain ⟨ms', hr, hacts⟩ := hb.run
    exact ⟨ms', hr, by simp [hacts, ht]⟩
  length := hb.length
  settings := hb.settings
  heard := by rw [heard_snoc, hheard, hb.heard]; rfl

theorem Beside.other (hb : Beside h i ms h₁) (hne : a.session? ≠ some i)
    (ha : Apart h₁ a s g' h₂) : Beside h i (ms ++ [⟨h₁.add s, a, g'⟩]) h₂ where
  run := by
    obtain ⟨ms', hr, hacts⟩ := hb.run
    exact ⟨_, hr.snoc ha.act, by simp [hacts, hne]⟩
  length := ha.length.trans hb.length
  settings := ha.settings.trans hb.settings
  heard := by rw [heard_snoc, (unheard (own?_of_ne hne)).1, hb.heard]; rfl

theorem Entering.admits (hp : p.IsOpen) (hb : Beside h h₁.sessions.length ms h₁)
    (hs : Entering p noise proof rest (Admission.prompt h.surroundings)
      (seen ms h₁.sessions.length) s)
    (ha : (h₁.add s).act (.move (.admission h₁.sessions.length)) = some g')
    (happroach : h₁.surroundings.Approaches noise proof u) :
    (∃ s', Beside h h₁.sessions.length
        (ms ++ [⟨h₁.add s, .move (.admission h₁.sessions.length), g'⟩]) h₁ ∧ g' = h₁.add s' ∧
      Entering p noise proof rest (Admission.prompt h.surroundings)
        (seen (ms ++ [⟨h₁.add s, .move (.admission h₁.sessions.length), g'⟩])
          h₁.sessions.length) s') ∨
    ∃ unseen, Enters h p noise h₁.sessions.length
        (ms ++ [⟨h₁.add s, .move (.admission h₁.sessions.length), g'⟩]) h₁ unseen ∧
      g' = (h₁.register u (p.holding rest unseen).line).1 := by
  have hprompt : Admission.prompt h.surroundings = Admission.prompt h₁.surroundings :=
    congrArg (fun c : ConnectionSettings =>
      (ServerFrame.prompt (UInt64.ofNat (c.authTimeout / 1000))).frame) hb.settings.symm
  have hbeside := hb.own (t := ⟨h₁.add s, .move (.admission h₁.sessions.length), g'⟩) rfl
    (heard?_admission _ _ _ _)
  rcases hs.moved (i := h₁.sessions.length) (d := h₁.desk) hp happroach hprompt with
    ⟨s', hstep, hs'⟩ | ⟨unseen, answered, hseen, hanswers, hstep⟩
  · cases (admission_add hstep).symm.trans ha
    refine .inl ⟨s', hbeside, rfl, ?_⟩
    rw [seen_snoc]
    simpa [Moment.sees?] using hs'
  · cases (admission_add hstep).symm.trans ha
    refine .inr ⟨unseen, ⟨hbeside, answered, ?_, hanswers⟩, rfl⟩
    rw [seen_snoc]
    simpa [Moment.sees?] using hseen

theorem Entering.acts (hp : p.IsOpen) (hb : Beside h i ms h₁)
    (hs : Entering p noise proof rest (Admission.prompt h.surroundings) (seen ms i) s)
    (ha : (h₁.add s).act a = some g') (haside : a.Aside i)
    (happroach : h₁.surroundings.Approaches noise proof u) :
    (∃ h₂ s', Beside h i (ms ++ [⟨h₁.add s, a, g'⟩]) h₂ ∧ g' = h₂.add s' ∧
      Entering p noise proof rest (Admission.prompt h.surroundings)
        (seen (ms ++ [⟨h₁.add s, a, g'⟩]) i) s') ∨
    ∃ unseen, Enters h p noise i (ms ++ [⟨h₁.add s, a, g'⟩]) h₁ unseen ∧
      g' = (h₁.register u (p.holding rest unseen).line).1 := by
  have hlength := hb.length
  subst hlength
  by_cases hown : a.session? = some h₁.sessions.length
  · cases a with
    | move m =>
      have hmove := move_add h₁ s (m := m) hown
      cases m with
      | admission j =>
        cases hown
        exact (hs.admits hp hb ha happroach).imp_left fun hunder => ⟨h₁, hunder⟩
      | _ =>
        -- A session has no loops before it is admitted.
        have hnone := hmove.symm.trans ha
        cases hs <;> cases hnone
    | client j c =>
      cases hown
      cases c with
      | read =>
        obtain ⟨unread, unseen, phase, rfl, hread⟩ := hs.read
        cases read_add.symm.trans ha
        refine .inl ⟨h₁, _, hb.own rfl rfl, rfl, ?_⟩
        rw [seen_snoc, sees?_add]
        exact hread
      | _ => exact absurd rfl haside
    | _ => cases hown
  · -- What is not of this session goes the same way without it.
    obtain ⟨h₂, hapart⟩ := act_add ha haside hown
    have hsees : Moment.sees? ⟨h₁.add s, a, g'⟩ h₁.sessions.length = none := by
      cases a with
      | client j c =>
        cases c with
        | read => exact if_neg fun heq => hown (congrArg some heq)
        | _ => rfl
      | _ => rfl
    refine .inl ⟨h₂, s, hb.other hown hapart, hapart.eq, ?_⟩
    rw [seen_snoc, hsees]
    simpa using hs

/-- A client whose handshake is not hindered is on its way in, or has come to where its user is
registered. -/
theorem Run.enters (hp : p.IsOpen)
    (hr : Run (h.accept (p.holding (noise ++ proof :: rest) []).line).1 ms g)
    (hu : Unhindered noise proof u h.sessions.length ms) :
    (∃ h₁ s, Beside h h.sessions.length ms h₁ ∧ g = h₁.add s ∧
      Entering p noise proof rest (Admission.prompt h.surroundings) (seen ms h.sessions.length) s) ∨
    ∃ first later h₁ unseen, ms = first ++ later ∧
      Enters h p noise h.sessions.length first h₁ unseen ∧
      Run (h₁.register u (p.holding rest unseen).line).1 later g := by
  induction hr with
  | nil =>
    exact .inl ⟨h, _, ⟨⟨[], .nil, rfl⟩, rfl, rfl, rfl⟩, rfl, .prompting _ rfl⟩
  | @snoc ms g g' a hr ha ih =>
    rcases ih fun t ht => hu t (List.mem_append_left _ ht) with
      ⟨h₁, s, hb, rfl, hs⟩ | ⟨first, later, h₁, unseen, rfl, henters, hrun⟩
    · have hi : (h₁.add s).sessions[h.sessions.length]? = some s := hb.length ▸ getElem?_add h₁ s
      obtain ⟨haside, happroach⟩ := hu ⟨h₁.add s, a, g'⟩ (by simp) s hi hs.isHandshake
      rcases hs.acts hp hb ha haside happroach with hunder | ⟨unseen, henters, rfl⟩
      · exact .inl hunder
      · exact .inr ⟨_, [], h₁, unseen, (List.append_nil _).symm, henters, .nil⟩
    · exact .inr ⟨first, later ++ [⟨g, a, g'⟩], h₁, unseen, by simp, henters, hrun.snoc ha⟩

theorem Run.hears_registered
    (hr : Run (h.register u (p.holding rest unseen).line).1 ms g) :
    Hears rest h.sessions.length ms g :=
  hr.hears (List.getElem?_concat_length (l := h.sessions)) (.opened rfl rfl)

end

/-- The two ways into a hub meet. One client comes with `noise`, a proof of user `u` and `rest`, all of
which wait for the hub; of the other it is known that it is `u`, and it comes with `rest`. -/
structure EntrancesMeet (h : Hub) (p : Pipe) (u : UserId) (noise : List Frame) (proof : Frame)
    (rest : List Frame) : Prop where
  /-- Wherever things go with the client that is known, they go with the other one: to the same hub,
  once it has read the prompt and the answers to its pings. -/
  reaches : ∀ ms g, Run (h.register u (p.holding rest []).line).1 ms g →
    ∃ first, Run (h.accept (p.holding (noise ++ proof :: rest) []).line).1 (first ++ ms) g ∧
      (∀ t ∈ first, t.action.session? = some h.sessions.length) ∧
      seen (first ++ ms) h.sessions.length =
        Admission.prompt h.surroundings :: Frame.echoes noise ++ seen ms h.sessions.length ∧
      heard (first ++ ms) h.sessions.length = heard ms h.sessions.length
  /-- Whatever else happens, the handshake goes on without waiting until the hub is one at which `u` is
  registered with what the other actions have led to. -/
  follows : ∀ ms g, Run (h.accept (p.holding (noise ++ proof :: rest) []).line).1 ms g →
    Unhindered noise proof u h.sessions.length ms →
    ((g.move (.admission h.sessions.length)).isSome ∧ heard ms h.sessions.length = []) ∨
    ∃ first later h₁ unseen, ms = first ++ later ∧
      Enters h p noise h.sessions.length first h₁ unseen ∧
      Run (h₁.register u (p.holding rest unseen).line).1 later g ∧
      Hears rest h.sessions.length later g
  /-- No frame of `rest` is handled before the admission, and behind it they are handled in order. -/
  hears : ∀ ms g, Run (h.register u (p.holding rest []).line).1 ms g →
    Hears rest h.sessions.length ms g

theorem entrances_meet {h : Hub} {p : Pipe} {u : UserId} {noise : List Frame} {proof : Frame}
    (rest : List Frame) (hp : p.IsOpen) (ha : h.surroundings.Approaches noise proof u) :
    EntrancesMeet h p u noise proof rest where
  reaches ms g hr := by
    obtain ⟨first, hfirst, hown, hseen, hheard⟩ := goes_in hp ha rest
    refine ⟨first, hfirst.append hr, hown, ?_, ?_⟩
    · unfold seen at hseen ⊢
      rw [List.filterMap_append, hseen]
    · unfold heard at hheard ⊢
      rw [List.filterMap_append, hheard, List.nil_append]
  follows ms g hr hu := by
    rcases hr.enters hp hu with ⟨h₁, s, hb, rfl, hs⟩ |
      ⟨first, later, h₁, unseen, hms, henters, hrun⟩
    · refine .inl ⟨?_, hb.heard⟩
      rw [← hb.length, move_add h₁ s rfl, Option.isSome_map]
      exact hs.step_isSome hp
    · exact .inr ⟨first, later, h₁, unseen, hms, henters, hrun, henters.length ▸ hrun.hears_registered⟩
  hears _ _ hr := hr.hears_registered

def shows (token : String) : Frame :=
  .text ("\x7b\"type\":\"auth\",\"data\":\x7b\"token\":\"" ++ token ++ "\"\x7d\x7d")

theorem gate_approached :
    gate.surroundings.Approaches [.ping [1], shows "X", .binary [2]] (shows "T") ⟨42, by decide⟩ :=
  Surroundings.approaches_of_judge (by decide +kernel) (by decide +kernel)

theorem entrances_meet_gate : (Pipe.create 8).IsOpen ∧
    gate.surroundings.Approaches [.ping [1], shows "X", .binary [2]] (shows "T") ⟨42, by decide⟩ ∧
    EntrancesMeet gate (.create 8) ⟨42, by decide⟩ [.ping [1], shows "X", .binary [2]] (shows "T")
      [.ping [3]] :=
  have hopen : (Pipe.create 8).IsOpen := ⟨rfl, rfl, by decide⟩
  ⟨hopen, gate_approached, entrances_meet [.ping [3]] hopen gate_approached⟩

def guest : Hub :=
  (gate.accept ((Pipe.create 8).holding [shows "T", .close, .ping [7]] []).line).1

/-- The client is admitted and goes, and nothing is left to do. -/
def farewell : List Action :=
  [.move (.admission 0), .move (.admission 0), .move (.admission 0), .move .serve,
    .move (.admission 0), .move (.admission 0), .move (.inbound 0), .move (.inbound 0), .move .serve,
    .move (.outbound 0), .move (.outbound 0)]

theorem farewell_runs : (guest.trace farewell).isSome = true := by decide +kernel

def bidFarewell : List Moment × Hub := (guest.trace farewell).get farewell_runs

theorem trace_farewell : guest.trace farewell = some bidFarewell :=
  (Option.some_get farewell_runs).symm

/-- Of the frames behind a proof not all need be handled, though the client is admitted and the hub has
nothing left to do. -/
theorem not_all_heard : ¬ ∀ (h g : Hub) (p : Pipe) (u : UserId) (noise rest : List Frame)
    (proof : Frame) (ms : List Moment), p.IsOpen → h.surroundings.Approaches noise proof u →
    Run (h.accept (p.holding (noise ++ proof :: rest) []).line).1 ms g → g.Still →
    (∃ (s : Session) (id : ConnectionId), g.sessions[h.sessions.length]? = some s ∧
      s.result? = some (.ok id)) → heardFrames ms h.sessions.length = rest := by
  intro hall
  have happroach : gate.surroundings.Approaches [] (shows "T") ⟨42, by decide⟩ :=
    ⟨by simp, gate_approached.proof⟩
  have hstill : bidFarewell.2.Still := by
    rw [still_iff_advanceOne]
    have hnone : bidFarewell.2.advanceOne.isNone = true := by decide +kernel
    exact Option.isNone_iff_eq_none.mp hnone
  have hadmitted : (bidFarewell.2.sessions[0]?.bind Session.result?) = some (.ok ⟨1⟩) := by
    decide +kernel
  obtain ⟨s, hs, hresult⟩ := Option.bind_eq_some_iff.mp hadmitted
  have hrun : Run (gate.accept ((Pipe.create 8).holding ([] ++ shows "T" :: [.close, .ping [7]])
      []).line).1 bidFarewell.1 bidFarewell.2 := run_trace trace_farewell
  have hheard := hall gate bidFarewell.2 (.create 8) ⟨42, by decide⟩ [] [.close, .ping [7]] (shows "T")
    bidFarewell.1 ⟨rfl, rfl, by decide⟩ happroach hrun hstill
  rw [show gate.sessions.length = 0 from rfl] at hheard
  have hheard := hheard ⟨s, ⟨1⟩, hs, hresult⟩
  have hfew : (heardFrames bidFarewell.1 0).length = 1 := by decide +kernel
  have hmany := congrArg List.length hheard
  exact absurd (hfew.symm.trans hmany) (by decide)

end Hub

end PushHub
