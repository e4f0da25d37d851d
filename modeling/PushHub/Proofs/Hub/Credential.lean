import PushHub.Proofs.Hub.Conversation
import PushHub.Http.Site

/-! Nobody is registered without a proof. A transport that comes without a user becomes a connection of
the user whom the first good credential read from it proves, and until then it changes nothing but
itself; one that comes through the query of a request becomes a connection of the user whom the token
in the query proves. -/
namespace PushHub

open Registry (Handle Service Queued Command Membership)

/-! ## Credentials -/

theorem ClientFrame.size_of_parse {text : String} {max : Nat} {c : ClientFrame}
    (hp : ClientFrame.parse text max = .ok c) : text.utf8ByteSize ≤ max := by
  by_contra hlt
  have hlong : max < text.utf8ByteSize := Nat.lt_of_not_le hlt
  simp [ClientFrame.parse, hlong] at hp
  cases hp

/-- A frame that proves a user: a text of a size that is allowed, with a token that is good now. -/
inductive Surroundings.Proves (e : Surroundings) (u : UserId) : Frame → Prop
  | intro (text token : String) (hsize : text.utf8ByteSize ≤ e.settings.maxMessageBytes)
      (hparse : ClientFrame.parse text e.settings.maxMessageBytes = .ok (.auth token))
      (htoken : e.verifier e.clock token = .ok u) : Proves e u (.text text)

theorem Admission.judge_eq_accepted {e : Surroundings} {f : Frame} {u : UserId} :
    judge e f = .accepted u ↔ e.Proves u f := by
  constructor
  · intro hj
    cases f with
    | text t =>
      simp only [judge] at hj
      split at hj
      · rename_i token hparse
        split at hj
        · rename_i htoken
          cases hj
          exact .intro t token (ClientFrame.size_of_parse hparse) hparse htoken
        · cases hj
      · cases hj
    | _ => cases hj
  · rintro ⟨text, token, hsize, hparse, htoken⟩
    simp [judge, hparse, htoken]

namespace Session

def presents? (s : Session) : Move → Option Frame
  | .admission _ =>
    match s.phase, s.line.receive.2 with
    | .awaiting _, .frame f => some f
    | _, _ => none
  | _ => none

theorem presents?_eq_none {s : Session} {m : Move} (hp : ∀ t, s.phase ≠ .awaiting t) :
    s.presents? m = none := by
  obtain ⟨line, phase⟩ := s
  cases m with
  | admission j =>
    cases phase with
    | awaiting t => exact absurd rfl (hp t)
    | _ => rfl
  | _ => rfl

/-- What a move means for the question who the client is. -/
inductive Seeks (e : Surroundings) (s : Session) (m : Move) (s' : Session) : Prop
  | asked (deadline : Nat) (hp : s.phase = .prompting deadline)
      (hu : s.utters? e m = some (.control (.prompt (UInt64.ofNat (e.settings.authTimeout / 1000)))))
      (hp' : s'.phase = .awaiting (e.now + e.settings.authTimeout))
  | unproved (deadline : Nat) (f : Frame) (hp : s.phase = .awaiting deadline)
      (hf : s.presents? m = some f) (hn : ∀ u, ¬e.Proves u f) (hp' : s'.phase = .awaiting deadline)
  | proved (deadline : Nat) (f : Frame) (c : Handle) (hp : s.phase = .awaiting deadline)
      (hf : s.presents? m = some f) (hu : e.Proves c.user f) (hp' : s'.phase = .registering c false)
  | other (hn : ∀ f u, s.presents? m = some f → ¬e.Proves u f)
      (hprompting : ∀ t, s'.phase ≠ .prompting t) (hawaiting : ∀ t, s'.phase ≠ .awaiting t)
      (hregistering : ∀ c, s'.phase ≠ .registering c false)

section

variable {e : Surroundings} {i : Nat} {d d' : Desk} {line : Line} {s s' : Session} {m : Move}

theorem presents?_of_awaiting (line : Line) (deadline : Nat) :
    presents? ⟨line, .awaiting deadline⟩ (.admission i) =
      match line.receive.2 with
      | .frame f => some f
      | _ => none := by
  unfold presents?
  cases line.receive.2 <;> rfl

theorem Seeks.refused {why : AdmitError} {deadline : Nat} {endpoint : Option Nat}
    (hn : ∀ f u, s.presents? m = some f → ¬e.Proves u f)
    (hp' : s'.phase = .rejecting why deadline endpoint) : Seeks e s m s' :=
  .other hn (fun _ h => by cases hp'.symm.trans h) (fun _ h => by cases hp'.symm.trans h)
    fun _ h => by cases hp'.symm.trans h

theorem Seeks.turnedAway {why : AdmitError} {deadline : Nat} {endpoint : Option Nat}
    (hn : s.presents? m = none) (hp' : s'.phase = .rejecting why deadline endpoint) :
    Seeks e s m s' :=
  .refused (fun _ _ hf => by cases hn.symm.trans hf) hp'

theorem seeks_of_prompting {deadline : Nat}
    (hs : Admission.step e i d ⟨line, .prompting deadline⟩ = some (d', s')) :
    Seeks e ⟨line, .prompting deadline⟩ (.admission i) s' := by
  simp only [Admission.step] at hs
  generalize ho : line.send (Admission.prompt e) = o at hs
  obtain ⟨line', r⟩ := o
  cases r with
  | sent =>
    cases hs
    have hu := utters?_of_send (s := ⟨line, .prompting deadline⟩) (e := e) (m := .admission i) rfl ho
    exact .asked deadline rfl hu rfl
  | failed err =>
    cases hs
    exact .turnedAway rfl rfl
  | waiting =>
    dsimp only at hs
    split at hs
    · cases hs
      exact .turnedAway rfl rfl
    · cases hs

theorem seeks_of_awaiting {deadline : Nat}
    (hs : Admission.step e i d ⟨line, .awaiting deadline⟩ = some (d', s')) :
    Seeks e ⟨line, .awaiting deadline⟩ (.admission i) s' := by
  have hpresents := presents?_of_awaiting (i := i) line deadline
  simp only [Admission.step] at hs
  generalize line.receive = o at hs hpresents
  obtain ⟨line', r⟩ := o
  cases r with
  | frame f =>
    have hnot (hj : ∀ u, Admission.judge e f ≠ .accepted u) (u : UserId) : ¬e.Proves u f :=
      fun hu => hj u (Admission.judge_eq_accepted.mpr hu)
    dsimp only at hs
    split at hs
    · rename_i u hj
      cases hs
      exact .proved deadline f _ rfl hpresents (Admission.judge_eq_accepted.mp hj) rfl
    · rename_i hj
      cases hs
      refine .refused ?_ rfl
      intro g u hg
      cases hpresents.symm.trans hg
      exact hnot (by simp [hj]) u
    · rename_i hj
      cases hs
      exact .unproved deadline f rfl hpresents (hnot (by simp [hj])) rfl
  | failed err =>
    cases hs
    exact .turnedAway hpresents rfl
  | waiting =>
    dsimp only at hs
    split at hs
    · cases hs
      exact .turnedAway hpresents rfl
    · cases hs

theorem seeks_of_move (hv : d.service.running = true) (hm : m.session? = some i)
    (hs : s.move e d m = some (d', s')) : s.Seeks e m s' := by
  rcases works_of_move hv hm hs with ⟨hw, -⟩ | ⟨line, line', deadline, u, rfl, rfl, -⟩
  · obtain ⟨v, n⟩ := d
    obtain ⟨v', n'⟩ := d'
    cases hw with
    | prompted => exact seeks_of_prompting hs
    | unprompted => exact seeks_of_prompting hs
    | ignored => exact seeks_of_awaiting hs
    | unproved => exact seeks_of_awaiting hs
    | pinging line h inbound keepalive keepalive' f deadline m hm =>
      rcases hm with rfl | rfl <;> exact .other nofun nofun nofun nofun
    | _ => exact .other nofun nofun nofun nofun
  · exact seeks_of_awaiting hs

end

end Session

theorem Session.Works.alone {v v' : Service} {i : Nat} {s s' : Session} {m : Move}
    (hw : s.Works i v m v' s') (hf : s.phase.Fits none) : v' = v := by
  cases hw with
  | prompted => rfl
  | unprompted => rfl
  | ignored => rfl
  | unproved => rfl
  | refused => rfl
  | _ => cases hf

namespace Hub

/-! ## From the prompt to the proof -/

namespace Moment

variable (t : Moment) (i : Nat)

def presented? : Option Frame := (t.own? i).bind fun (s, m) => s.presents? m

def Proves (u : UserId) : Prop :=
  ∃ f, t.presented? i = some f ∧ t.before.surroundings.Proves u f

def Prompts : Prop := ∃ secs, t.utters? i = some (.control (.prompt secs))

/-- Time passes beyond what session `i` has left to wait, with no turn for it in between. -/
def Oversleeps : Prop :=
  ∃ s deadline, t.before.sessions[i]? = some s ∧ s.phase = .awaiting deadline ∧
    t.before.now ≤ deadline ∧ deadline < t.after.now

/-- The connection that the registry is asked to take, and now answers for. -/
def registers? : Option Handle :=
  match t.action with
  | .move .serve =>
    t.before.service.queue.head?.bind fun q =>
      match q.command with
      | .register c => some c
      | _ => none
  | _ => none

end Moment

def Unproved (i : Nat) (ms : List Moment) : Prop := ∀ t ∈ ms, ∀ u, ¬t.Proves i u

/-- Session `i` was prompted, and waits until `deadline` or has missed it. -/
inductive Waits (i deadline now : Nat) : List Moment → Prop
  | intro (before after : List Moment) (prompt : Moment) (hprompt : prompt.Prompts i)
      (hdeadline : deadline = prompt.before.now + prompt.before.settings.authTimeout)
      (htime : now ≤ deadline ∨ ∃ t ∈ after, t.Oversleeps i) :
      Waits i deadline now (before ++ prompt :: after)

/-- The first good credential that session `i` has shown since it was prompted, which was in time,
proves that its user is `u`. -/
inductive Proven (i : Nat) (u : UserId) : List Moment → Prop
  | intro (before between after : List Moment) (prompt read : Moment) (hprompt : prompt.Prompts i)
      (hproves : read.Proves i u) (hfirst : Unproved i (before ++ prompt :: between))
      (htime : read.before.now ≤ prompt.before.now + prompt.before.settings.authTimeout ∨
        ∃ t ∈ between, t.Oversleeps i) :
      Proven i u (before ++ prompt :: between ++ read :: after)

section

variable {h h' : Hub} {a : Action} {i : Nat} {s s' : Session} {t : Moment} {ms : List Moment}
  {u : UserId} {c : Handle}

theorem Unproved.snoc (hu : Unproved i ms) (ht : ∀ u, ¬t.Proves i u) : Unproved i (ms ++ [t]) := by
  intro t' ht' u
  rcases List.mem_append.mp ht' with ht' | ht'
  · exact hu t' ht' u
  · rw [List.mem_singleton.mp ht']
    exact ht u

theorem Proven.snoc (hp : Proven i u ms) (t : Moment) : Proven i u (ms ++ [t]) := by
  cases hp with
  | intro before between after prompt read hprompt hproves hfirst htime =>
    rw [List.append_assoc, List.cons_append]
    exact .intro before between (after ++ [t]) prompt read hprompt hproves hfirst htime

theorem Waits.snoc {deadline : Nat} (hw : Waits i deadline h.now ms) (a : Action)
    (hs : h.sessions[i]? = some s) (hp : s.phase = .awaiting deadline) :
    Waits i deadline h'.now (ms ++ [⟨h, a, h'⟩]) := by
  cases hw with
  | intro before after prompt hprompt hdeadline htime =>
    rw [List.append_assoc, List.cons_append]
    refine .intro before _ prompt hprompt hdeadline ?_
    by_cases hlate : h'.now ≤ deadline
    · exact .inl hlate
    · right
      rcases htime with hearly | ⟨t, ht, hover⟩
      · exact ⟨⟨h, a, h'⟩, by simp, s, deadline, hs, hp, hearly, Nat.lt_of_not_le hlate⟩
      · exact ⟨t, List.mem_append_left _ ht, hover⟩

theorem Proven.not_unproved (hp : Proven i u ms) : ¬Unproved i ms := by
  cases hp with
  | intro before between after prompt read hprompt hproves hfirst htime =>
    intro hu
    exact hu read (by simp) u hproves

theorem presented?_of_move {m : Move} (hm : m.session? = some i) (hs : h.sessions[i]? = some s) :
    Moment.presented? ⟨h, .move m, h'⟩ i = s.presents? m := by
  simp [Moment.presented?, own?_of_move hm hs]

theorem presented?_of_ne (hi : a.session? ≠ some i) : Moment.presented? ⟨h, a, h'⟩ i = none := by
  simp [Moment.presented?, own?_of_ne hi]

theorem not_proves_of_none (ht : t.presented? i = none) (u : UserId) : ¬t.Proves i u := by
  rintro ⟨f, hf, -⟩
  rw [ht] at hf
  cases hf

/-- What is so of a session that came without a user, from its opening on. -/
structure Seeking (i : Nat) (ms : List Moment) (h : Hub) (s : Session) : Prop where
  prompting : ∀ t, s.phase = .prompting t → Unproved i ms
  awaiting : ∀ t, s.phase = .awaiting t → Unproved i ms ∧ Waits i t h.now ms
  proven : ∀ c, (i, c) ∈ connections ms → Proven i c.user ms

theorem Seeking.opened {line : Line} {deadline : Nat} (hu : Unproved i ms)
    (hnone : ∀ c, (i, c) ∉ connections ms) : Seeking i ms h ⟨line, .prompting deadline⟩ where
  prompting _ _ := hu
  awaiting _ hp := nomatch hp
  proven c hc := absurd hc (hnone c)

theorem Seeking.rest (hk : Seeking i ms h s) (hs : h.sessions[i]? = some s)
    (hp : s'.phase = s.phase) (hshow : Moment.presented? ⟨h, a, h'⟩ i = none)
    (hnone : ∀ c, Moment.allotted? ⟨h, a, h'⟩ ≠ some (i, c)) :
    Seeking i (ms ++ [⟨h, a, h'⟩]) h' s' where
  prompting t ht := (hk.prompting t (hp ▸ ht)).snoc (not_proves_of_none hshow)
  awaiting t ht := by
    obtain ⟨hu, hw⟩ := hk.awaiting t (hp ▸ ht)
    exact ⟨hu.snoc (not_proves_of_none hshow), hw.snoc a hs (hp ▸ ht)⟩
  proven c hc := by
    rw [connections_snoc] at hc
    rcases List.mem_append.mp hc with hold | hnew
    · exact (hk.proven c hold).snoc _
    · exact absurd (Option.mem_toList.mp hnew) (hnone c)

theorem Seeking.moved {m : Move} (hk : Seeking i ms h s) (hm : m.session? = some i)
    (hs : h.sessions[i]? = some s) (hs' : h'.sessions[i]? = some s') (hnow : h'.now = h.now)
    (hseeks : s.Seeks h.surroundings m s') : Seeking i (ms ++ [⟨h, .move m, h'⟩]) h' s' := by
  have hshow : Moment.presented? ⟨h, .move m, h'⟩ i = s.presents? m := presented?_of_move hm hs
  -- Whoever came to a connection before is still proven, so only a new one has to be looked at.
  have hproven (hnew : ∀ c, s'.phase = .registering c false →
      Proven i c.user (ms ++ [⟨h, .move m, h'⟩])) (c : Handle)
      (hc : (i, c) ∈ connections (ms ++ [⟨h, .move m, h'⟩])) :
      Proven i c.user (ms ++ [⟨h, .move m, h'⟩]) := by
    rw [connections_snoc] at hc
    rcases List.mem_append.mp hc with hold | hlast
    · exact (hk.proven c hold).snoc _
    · exact hnew c (registering_of_allotted hs hs' (Option.mem_toList.mp hlast)).2
  cases hseeks with
  | asked deadline hp hu hp' =>
    have hnone : s.presents? m = none := Session.presents?_eq_none (by simp [hp])
    refine ⟨fun t ht => ?_, fun t ht => ?_, hproven fun c hc => ?_⟩
    · rw [hp'] at ht
      cases ht
    · rw [hp'] at ht
      cases ht
      refine ⟨(hk.prompting _ hp).snoc (not_proves_of_none (hshow.trans hnone)), ?_⟩
      refine .intro ms [] _ ⟨_, (utters?_of_move hm hs).trans hu⟩ rfl (.inl ?_)
      rw [hnow]
      exact Nat.le_add_right _ _
    · rw [hp'] at hc
      cases hc
  | unproved deadline f hp hf hn hp' =>
    refine ⟨fun t ht => ?_, fun t ht => ?_, hproven fun c hc => ?_⟩
    · rw [hp'] at ht
      cases ht
    · rw [hp'] at ht
      cases ht
      obtain ⟨hu, hw⟩ := hk.awaiting deadline hp
      refine ⟨hu.snoc ?_, hw.snoc _ hs hp⟩
      rintro u ⟨g, hg, hproves⟩
      cases (hshow.trans hf).symm.trans hg
      exact hn u hproves
    · rw [hp'] at hc
      cases hc
  | proved deadline f c hp hf hu hp' =>
    refine ⟨fun t ht => ?_, fun t ht => ?_, hproven fun d hd => ?_⟩
    · rw [hp'] at ht
      cases ht
    · rw [hp'] at ht
      cases ht
    · cases hp'.symm.trans hd
      obtain ⟨hunproved, hw⟩ := hk.awaiting deadline hp
      cases hw with
      | intro before after prompt hprompt hdeadline htime =>
        subst hdeadline
        exact .intro before after [] prompt _ hprompt ⟨f, hshow.trans hf, hu⟩ hunproved htime
  | other hn hprompting hawaiting hregistering =>
    refine ⟨fun t ht => ?_, fun t ht => ?_, hproven fun c hc => ?_⟩
    · exact absurd ht (hprompting t)
    · exact absurd ht (hawaiting t)
    · exact absurd hc (hregistering c)

theorem Seeking.turn (hk : Seeking i ms h s) (hv : h.service.running = true)
    (hs : h.sessions[i]? = some s) (hs' : h'.sessions[i]? = some s') (ht : h.Turn i s a h' s') :
    Seeking i (ms ++ [⟨h, a, h'⟩]) h' s' := by
  cases ht with
  | own m d s' hm hmove => exact hk.moved hm hs hs' rfl (Session.seeks_of_move hv hm hmove)
  | client c => exact hk.rest hs rfl rfl nofun
  | other a h' ha hi =>
    refine hk.rest hs rfl (presented?_of_ne hi) fun c hc => ?_
    exact hi (registering_of_allotted hs hs' hc).1

end

section

variable {start h h' : Hub} {a : Action} {i : Nat} {s : Session} {ms : List Moment} {c : Handle}

theorem Run.seeking (hr : Run start ms h) (hs : start.Fresh) (ho : (i, none) ∈ openings ms) :
    ∃ s, h.sessions[i]? = some s ∧ Seeking i ms h s := by
  refine hr.along (P := Seeking i) hs ho ?_ ?_
  · intro ms h h' a s hr ha hlen hopens
    cases hopens with
    | accepted line =>
      have habsent := hr.absent hs (Nat.le_of_eq hlen)
      have hl := hr.ledger hs
      apply Seeking.opened
      · refine Unproved.snoc (fun t ht => not_proves_of_none ?_) (not_proves_of_none rfl)
        simp [Moment.presented?, own?_of_absent (habsent t ht)]
      · intro c hc
        rw [connections_snoc] at hc
        rcases List.mem_append.mp hc with hold | hnew
        · exact hl.not_mem (hl.lookup_eq_none (Nat.le_of_eq hlen)) hold
        · cases hnew
  · intro ms h h' a s s' hr ha ho hi hi' hturn hp
    exact hp.turn (hr.ledger hs).running hi hi' hturn

theorem Run.proven (hr : Run start ms h) (hs : start.Fresh) (ho : (i, none) ∈ openings ms)
    (hc : (i, c) ∈ connections ms) : Proven i c.user ms := by
  obtain ⟨s, -, hseeking⟩ := hr.seeking hs ho
  exact hseeking.proven c hc

theorem Run.user_of_opening {u : UserId} (hr : Run start ms h) (hs : start.Fresh)
    (ho : (i, some u) ∈ openings ms) (hc : (i, c) ∈ connections ms) : c.user = u := by
  have hfirst : ∃ s, h.sessions[i]? = some s ∧ ∃ d, (i, d) ∈ connections ms ∧ d.user = u := by
    refine hr.along (P := fun ms _ _ => ∃ d, (i, d) ∈ connections ms ∧ d.user = u) hs ho ?_ ?_
    · intro ms h h' a s hr ha hlen hopens
      cases hopens with
      | registered u line =>
        cases ha
        refine ⟨h.next u, ?_, rfl⟩
        have hallot : Moment.allotted? ⟨h, .register u line, (h.register u line).1⟩ =
            some (h.sessions.length, h.next u) := allotted?_registered h u line
        rw [connections_snoc, hallot, hlen]
        simp
    · rintro ms h h' a s s' hr ha ho hi hi' hturn ⟨d, hd, hu⟩
      exact ⟨d, mem_connections_append hd _, hu⟩
  obtain ⟨s, -, d, hd, hu⟩ := hfirst
  rw [(hr.ledger hs).eq_of_session hc hd, hu]

/-! ## Strangers -/

/-- What a session does that has come to no connection reaches nothing but the session. -/
theorem Acts.alikeBut {conns : List (Nat × Handle)} (ha : h.Acts a h') (hl : Ledger conns h)
    (hi : a.session? = some i) (hnone : conns.lookup i = none)
    (hallot : ∀ c, Moment.allotted? ⟨h, a, h'⟩ ≠ some (i, c)) : AlikeBut i h h' := by
  cases ha with
  | served => cases hi
  | swept => cases hi
  | worked j m s s' v hs hw =>
    have hj : j = i := by
      rcases hw.part with rfl | rfl | rfl | rfl <;> exact Option.some.inj hi
    subst hj
    have hfit := hl.fits j s hs
    rw [hnone] at hfit
    rw [hw.alone hfit]
    exact .setSession h j s'
  | proved j line line' deadline u hs hline =>
    cases hi
    exact absurd (allotted?_proved u hs) (hallot _)
  | client j c s hs =>
    cases hi
    exact .setSession h i _
  | nobody j c hs => exact .refl i h
  | _ => cases hi

/-- A transport without a user, through which no good credential comes, leaves all but itself as it
would be without it. -/
structure Stranger (start : Hub) (i : Nat) (ms : List Moment) (h : Hub) : Prop where
  unconnected : ∀ c, (i, c) ∉ connections ms
  untouched : ∀ t ∈ ms, t.action.session? = some i ∨ t.opened? = some (i, none) →
    t.after.service = t.before.service ∧ t.after.nextId = t.before.nextId ∧
      ∀ j : Nat, j ≠ i → t.after.sessions[j]? = t.before.sessions[j]?
  without : ∃ ms' h', Run start ms' h' ∧
    ms'.map Moment.action = (ms.map Moment.action).filter (fun a => a.session? ≠ some i) ∧
    AlikeBut i h h'

theorem Run.stranger (hr : Run start ms h) (hs : start.Fresh) (ho : (i, none) ∈ openings ms)
    (hu : Unproved i ms) : Stranger start i ms h := by
  have hnone (c : Handle) : (i, c) ∉ connections ms := fun hc => (hr.proven hs ho hc).not_unproved hu
  have hself : ∀ t ∈ ms, t.action.session? = some i → AlikeBut i t.before t.after := by
    intro t ht hi
    obtain ⟨before, after, rfl⟩ := List.append_of_mem ht
    obtain ⟨hl, hacts⟩ := hr.moment hs
    rw [connections_append] at hnone
    refine hacts.alikeBut hl hi ?_ fun c hc => ?_
    · cases hlook : (connections before).lookup i with
      | none => rfl
      | some c =>
        exact absurd (List.mem_append_left _ (hl.lookup_eq_some.mp hlook)) (hnone c)
    · refine hnone c (List.mem_append_right _ ?_)
      exact List.mem_filterMap.mpr ⟨t, List.mem_cons_self, hc⟩
  refine ⟨hnone, ?_, hr.without hself⟩
  rintro t ht (hi | hopen)
  · have halike := hself t ht hi
    exact ⟨halike.service, halike.nextId, halike.others⟩
  · obtain ⟨before, after, rfl⟩ := List.append_of_mem ht
    obtain ⟨-, ha⟩ := hr.split
    obtain ⟨b, a, b'⟩ := t
    cases a with
    | accept line =>
      change b.act (.accept line) = some b' at ha
      cases ha
      cases hopen
      exact ⟨rfl, rfl, fun j hj => getElem?_concat_ne b.sessions _ hj⟩
    | _ => cases hopen

end

/-! ## Two ways in -/

/-- A connection is of the user with whom its transport came, or else of the one who was proven. -/
structure Entitled (i : Nat) (c : Handle) (ms : List Moment) : Prop where
  opened : ∃ o, (i, o) ∈ openings ms
  given : ∀ u, (i, some u) ∈ openings ms → c.user = u
  proven : (i, none) ∈ openings ms → Proven i c.user ms

theorem Run.entitled {start h : Hub} {ms : List Moment} {i : Nat} {c : Handle}
    (hr : Run start ms h) (hs : start.Fresh) (hc : (i, c) ∈ connections ms) : Entitled i c ms where
  opened := hr.opening_of_lt hs ((hr.ledger hs).held i c hc)
  given _ ho := hr.user_of_opening hs ho hc
  proven ho := hr.proven hs ho hc

theorem queued_of_registers? {t : Moment} {c : Handle} (hc : t.registers? = some c) :
    ∃ q ∈ t.before.service.queue, q.command = .register c := by
  unfold Moment.registers? at hc
  split at hc
  · obtain ⟨q, hq, hcommand⟩ := Option.bind_eq_some_iff.mp hc
    refine ⟨q, List.mem_of_head? hq, ?_⟩
    split at hcommand
    · rename_i heq
      cases hcommand
      exact heq
    · cases hcommand
  · cases hc

theorem admission_of_overdue {h : Hub} {i : Nat} {s : Session} {deadline : Nat}
    (hs : h.sessions[i]? = some s) (hp : s.phase = .awaiting deadline) (hnow : deadline ≤ h.now) :
    (h.move (.admission i)).isSome = true := by
  obtain ⟨line, phase⟩ := s
  cases hp
  have hstep : (Admission.step h.surroundings i h.desk ⟨line, .awaiting deadline⟩).isSome = true := by
    simp only [Admission.step]
    generalize line.receive = o
    obtain ⟨line', r⟩ := o
    cases r with
    | frame f =>
      dsimp only
      split <;> rfl
    | failed err => rfl
    | waiting =>
      dsimp only
      rw [if_pos (show deadline ≤ h.surroundings.now from hnow)]
      rfl
  obtain ⟨⟨d, s'⟩, hs'⟩ := Option.isSome_iff_exists.mp hstep
  simp [move, hs, hs']

theorem nextDue?_of_awaiting {h : Hub} {i : Nat} {s : Session} {deadline : Nat}
    (hs : h.sessions[i]? = some s) (hp : s.phase = .awaiting deadline) (hnow : h.now < deadline) :
    ∃ t, h.nextDue? = some t ∧ t ≤ deadline := by
  have hdue : deadline ∈ s.due? := by simp [Session.due?, hp]
  have hmem : deadline ∈ ((h.service.sweeper.map Registry.Ticker.next).toList ++
      h.sessions.flatMap Session.due?).filter (h.now < ·) := by
    rw [List.mem_filter, List.mem_append]
    exact ⟨.inr (List.mem_flatMap.mpr ⟨s, List.mem_of_getElem? hs, hdue⟩), by simpa using hnow⟩
  unfold nextDue?
  cases hmin : (((h.service.sweeper.map Registry.Ticker.next).toList ++
      h.sessions.flatMap Session.due?).filter (h.now < ·)).min? with
  | none =>
    rw [List.min?_eq_none_iff.mp hmin] at hmem
    cases hmem
  | some t => exact ⟨t, rfl, (List.min?_eq_some_iff.mp hmin).2 deadline hmem⟩

end Hub

namespace Http

def Request.tokens (r : Request) : List String :=
  ((formPairs r.query).filter fun p => p.1 == "token").map Prod.snd

/-- What comes of a request for a connection with a token in its query. -/
inductive Site.Connects (s : Site) (target : String) : Prop
  | registered (token : String) (u : UserId) (line : Line) (s' : Site) (r : Response)
      (hquery : (Request.webSocket target).tokens = [token]) (hne : token ≠ "")
      (htoken : s.hub.verifier s.hub.clock token = .ok u)
      (hopen : s.openSocket target = (s', r, some s.hub.sessions.length))
      (hact : s.hub.act (.register u line) = some s'.hub)
  | turnedAway (r : Response) (hopen : s.openSocket target = (s, r, none))

/-- Only a query with one token, which is good, goes on as a connection. -/
theorem Site.token_of_upgrade {s : Site} {r : Request} {o : Option UserId}
    (hc : s.connect r = .upgrade o) : ∃ token u, r.tokens = [token] ∧ token ≠ "" ∧
      s.hub.verifier s.hub.clock token = .ok u ∧ o = some u := by
  unfold connect at hc
  split at hc
  · cases hc
  · rename_i token htokens
    split at hc
    · cases hc
    · rename_i hne
      split at hc
      · rename_i u htoken
        refine ⟨token, u, htokens, ?_, htoken, ?_⟩
        · rintro rfl
          exact hne rfl
        · unfold upgrade at hc
          split at hc
          · cases hc
          · cases hc
            rfl
      · cases hc
  · cases hc

theorem Site.connects (s : Site) (target : String)
    (hroute : Route.ofPath? (Request.webSocket target).path = some .socketWithToken) :
    s.Connects target := by
  have hhandle : s.handle (.webSocket target) = (s, s.connect (.webSocket target)) := by
    unfold handle
    rw [hroute]
    rfl
  cases hc : s.connect (.webSocket target) with
  | response r =>
    refine .turnedAway r ?_
    unfold openSocket
    rw [hhandle, hc]
  | upgrade o =>
    obtain ⟨token, u, htokens, hne, htoken, rfl⟩ := token_of_upgrade hc
    let line : Line := ⟨.socket (.create s.hub.settings.maxTransportBytes), {}⟩
    refine .registered token u line { s with hub := (s.hub.register u line).1 }
      (Reply.upgrade (some u)).head htokens hne htoken ?_ rfl
    unfold openSocket
    rw [hhandle, hc]
    rfl

end Http

namespace Hub

/-- What keeps those out of a hub who prove nothing. -/
structure Guards (start : Hub) (ms : List Moment) (h : Hub) : Prop where
  /-- Every connection, and so every one that is registered or is to be, belongs to a user who was
  given or proven before. -/
  connected : ∀ i c, (i, c) ∈ connections ms → Entitled i c ms
  registered : ∀ before t after, ms = before ++ t :: after → ∀ c, t.registers? = some c →
    ∃ i, (i, c) ∈ connections before ∧ Entitled i c before
  listed : ∀ c ∈ h.service.members.entries, ∃ i, (i, c) ∈ connections ms ∧ Entitled i c ms
  single : ∀ i c d, (i, c) ∈ connections ms → (i, d) ∈ connections ms → d = c
  fits : ∀ i c, (i, c) ∈ connections ms → ∀ s : Session, h.sessions[i]? = some s →
    s.phase.Fits (some c)
  kept : ∀ i c, (i, c) ∈ connections ms → ∀ g ∈ h.service.members.entries,
    g.endpoint = c.endpoint → g = c
  fixed : ∀ t ∈ ms, t.before.verifier = h.verifier ∧ t.before.settings = h.settings
  /-- A clock that stops whenever something falls due lets nobody oversleep: it stops at every
  deadline for a credential, and there the session can move. -/
  alarmed : ∀ (i : Nat) (s : Session) (deadline : Nat), h.sessions[i]? = some s →
    s.phase = .awaiting deadline → h.now < deadline → ∃ t, h.nextDue? = some t ∧ t ≤ deadline
  enforced : ∀ (i : Nat) (s : Session) (deadline : Nat), h.sessions[i]? = some s →
    s.phase = .awaiting deadline → deadline ≤ h.now → (h.move (.admission i)).isSome = true
  stranger : ∀ i, (i, none) ∈ openings ms → Unproved i ms → Stranger start i ms h
  connect : ∀ (s : Http.Site) (target : String), s.hub = h →
    Http.Route.ofPath? (Http.Request.webSocket target).path = some .socketWithToken →
    s.Connects target

theorem Run.guards {start h : Hub} {ms : List Moment} (hr : Run start ms h) (hs : start.Fresh) :
    Guards start ms h where
  connected i c hc := hr.entitled hs hc
  registered := by
    rintro before t after rfl c hc
    obtain ⟨hbefore, -⟩ := hr.split
    obtain ⟨q, hq, hcommand⟩ := queued_of_registers? hc
    obtain ⟨i, hi⟩ := ((hbefore.ledger hs).queued q hq).known (show q.command.handle? = some c by
      rw [hcommand]; rfl)
    exact ⟨i, hi, hbefore.entitled hs hi⟩
  listed c hc := by
    obtain ⟨i, hi⟩ := (hr.ledger hs).listed c hc
    exact ⟨i, hi, hr.entitled hs hi⟩
  single i c d hc hd := (hr.ledger hs).eq_of_session hd hc
  fits i c hc s hi := (hr.ledger hs).fits_of_mem hc hi
  kept i c hc g hg he := by
    obtain ⟨j, hj⟩ := (hr.ledger hs).listed g hg
    exact ((hr.ledger hs).eq_of_endpoint hj hc he).2
  fixed t ht := by
    obtain ⟨before, after, rfl⟩ := List.append_of_mem ht
    obtain ⟨hsettings, hverifier⟩ := hr.fixed hs
    obtain ⟨hsettings', hverifier'⟩ := hr.split.1.fixed hs
    exact ⟨hverifier'.trans hverifier.symm, hsettings'.trans hsettings.symm⟩
  alarmed i s deadline hi hp hnow := nextDue?_of_awaiting hi hp hnow
  enforced i s deadline hi hp hnow := admission_of_overdue hi hp hnow
  stranger i ho hu := hr.stranger hs ho hu
  connect s target _ hroute := s.connects target hroute

theorem visited_guards : Guards gate visited.1 visited.2 ∧
    connections visited.1 = [(0, ⟨⟨1⟩, ⟨42, by decide⟩, 0⟩), (1, ⟨⟨2⟩, ⟨42, by decide⟩, 1⟩)] ∧
    (visited.1.filterMap fun t => t.presented? 0).length = 3 ∧
    visited.2.service.members.entries = [⟨⟨2⟩, ⟨42, by decide⟩, 1⟩] :=
  ⟨(run_trace trace_visit).guards ⟨_, _, _, _, _, rfl⟩, by decide +kernel⟩

end Hub

end PushHub
