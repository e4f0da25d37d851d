import PushHub.Proofs.Hub.Traffic
import Mathlib.Data.List.Induction

/-! From publishers to transports. Requests are handled once each and in order, mailboxes accept the
frames of those that are meant for them, and transports get what mailboxes accepted, in that order
and without gaps, until the connection ends. -/
namespace PushHub

open Registry (Handle Service Queued Command Membership Mailroom)

/-! ## A mailbox between those who deliver and the loop that writes -/

/-- What was accepted has been written, is being written or is queued; once the loop has stopped,
what was written comes first. -/
def Outbound.Flow (accepted written : List Frame) (m : Mailbox) : Outbound → Prop
  | .idle _ => accepted = written ++ m.queue ∧ m.abandoned = false
  | .writing f false _ _ => accepted = written ++ f :: m.queue ∧ m.abandoned = false
  | .writing _ true _ _ => accepted = written ++ m.queue ∧ m.abandoned = false
  | _ => written <+: accepted

def Phase.Flow (accepted written : List Frame) (m : Mailbox) : Phase → Prop
  | .registering _ _ => written = [] ∧ accepted = m.queue ∧ m.abandoned = false
  | .greeting _ _ => written = [] ∧ accepted = m.queue ∧ m.abandoned = false
  | .admitted _ _ outbound => outbound.Flow accepted written m
  | _ => written = []

theorem Outbound.Flow.isPrefix {accepted written : List Frame} {m : Mailbox} {outbound : Outbound}
    (hf : outbound.Flow accepted written m) : written <+: accepted := by
  cases outbound with
  | idle keepalive => exact hf.1 ▸ List.prefix_append _ _
  | writing f keeping deadline keepalive =>
    cases keeping with
    | false => exact hf.1 ▸ List.prefix_append _ _
    | true => exact hf.1 ▸ List.prefix_append _ _
  | _ => exact hf

theorem Phase.Flow.isPrefix {accepted written : List Frame} {m : Mailbox} {p : Phase}
    (hf : p.Flow accepted written m) : written <+: accepted := by
  cases p with
  | registering h asked => exact hf.1 ▸ List.nil_prefix
  | greeting h deadline => exact hf.1 ▸ List.nil_prefix
  | admitted h inbound outbound => exact Outbound.Flow.isPrefix hf
  | _ => exact (show written = [] from hf) ▸ List.nil_prefix

theorem Outbound.Flow.extends {accepted written : List Frame} {m m' : Mailbox}
    {outbound : Outbound} (hf : outbound.Flow accepted written m) (he : m.Extends m') :
    outbound.Flow (accepted ++ m'.queue.drop m.queue.length) written m' := by
  obtain ⟨more, hq⟩ := he.queue
  have hb := he.abandoned
  rw [← hq, List.drop_left]
  cases outbound with
  | idle keepalive =>
    obtain ⟨ha, hn⟩ := hf
    refine ⟨?_, hb.trans hn⟩
    rw [ha, ← hq, List.append_assoc]
  | writing f keeping deadline keepalive =>
    cases keeping with
    | false =>
      obtain ⟨ha, hn⟩ := hf
      refine ⟨?_, hb.trans hn⟩
      rw [ha, ← hq, List.append_assoc, List.cons_append]
    | true =>
      obtain ⟨ha, hn⟩ := hf
      refine ⟨?_, hb.trans hn⟩
      rw [ha, ← hq, List.append_assoc]
  | _ => exact List.IsPrefix.trans hf (List.prefix_append _ _)

theorem Phase.Flow.extends {accepted written : List Frame} {m m' : Mailbox} {p : Phase}
    (hf : p.Flow accepted written m) (he : m.Extends m') :
    p.Flow (accepted ++ m'.queue.drop m.queue.length) written m' := by
  cases p with
  | registering h asked =>
    obtain ⟨hw, ha, hn⟩ := hf
    obtain ⟨more, hq⟩ := he.queue
    refine ⟨hw, ?_, he.abandoned.trans hn⟩
    rw [← hq, List.drop_left, ha]
  | greeting h deadline =>
    obtain ⟨hw, ha, hn⟩ := hf
    obtain ⟨more, hq⟩ := he.queue
    refine ⟨hw, ?_, he.abandoned.trans hn⟩
    rw [← hq, List.drop_left, ha]
  | admitted h inbound outbound => exact Outbound.Flow.extends hf he
  | _ => exact hf

/-- The loop of a session takes a frame that is queued, from a mailbox that is open for its part. -/
structure Takes (v v' : Service) (c : Handle) (s s' : Session) (f : Frame) : Prop where
  idle : ∃ inbound keepalive, s.phase = .admitted c inbound (.idle keepalive)
  writing : ∃ inbound deadline keepalive,
    s'.phase = .admitted c inbound (.writing f false deadline keepalive)
  front : v.members.room.mailbox c.endpoint =
    { v'.members.room.mailbox c.endpoint with
      queue := f :: (v'.members.room.mailbox c.endpoint).queue }
  signalled : (v.members.room.mailbox c.endpoint).signalled = false

namespace Session.Works

variable {v v' : Service} {i : Nat} {c : Handle} {s s' : Session} {m : Move}

theorem takes_took (line : Line) (inbound : Inbound) (k k' : Registry.Ticker) {f : Frame}
    {rest : List Frame} (deadline : Nat) (hn : c.endpoint < v.members.room.length)
    (hs : (v.members.room.mailbox c.endpoint).signalled = false)
    (hq : (v.members.room.mailbox c.endpoint).queue = f :: rest) :
    Takes v
      (v.withRoom fun room =>
        room.setMailbox c.endpoint { v.members.room.mailbox c.endpoint with queue := rest })
      c ⟨line, .admitted c inbound (.idle k)⟩
      ⟨line, .admitted c inbound (.writing f false deadline k')⟩ f where
  idle := ⟨_, _, rfl⟩
  writing := ⟨_, _, _, rfl⟩
  front := by
    rw [Service.mailbox_setMailbox hn]
    dsimp only
    rw [← hq]
  signalled := hs

theorem mailbox (hw : s.Works i v m v' s') (hf : s.phase.Fits (some c))
    (hn : c.endpoint < v.members.room.length) :
    ((v.members.room.mailbox c.endpoint).Extends (v'.members.room.mailbox c.endpoint) ∧
      ((v'.members.room.mailbox c.endpoint).queue = (v.members.room.mailbox c.endpoint).queue ∨
        m = .inbound i)) ∨
    (∃ f, m = .outbound i ∧ Takes v v' c s s' f) ∨
    v'.members.room.mailbox c.endpoint = (v.members.room.mailbox c.endpoint).abandon := by
  have hclose := v.members.room.extends_close c.endpoint c.endpoint
  have hqueue := congrArg Mailbox.queue (v.members.room.mailbox_close_self c.endpoint)
  have habandon := v.members.room.mailbox_abandon_self c.endpoint
  cases hw with
  | released line line' why deadline n =>
    cases hf
    exact .inr (.inr habandon)
  | withdrawn =>
    cases hf
    exact .inr (.inr habandon)
  | heard line line' h deadline deadline' followed followed' reactions =>
    cases hf
    exact .inl ⟨Inbound.extends_perform reactions v.members.room _ _, .inr rfl⟩
  | unregistered =>
    cases hf
    exact .inl ⟨hclose, .inr rfl⟩
  | took line h inbound keepalive f rest deadline hs hq =>
    cases hf
    exact .inr (.inl ⟨f, rfl, takes_took line inbound keepalive keepalive deadline hn hs hq⟩)
  | stopped =>
    cases hf
    exact .inl ⟨hclose, .inl hqueue⟩
  | cut =>
    cases hf
    exact .inl ⟨hclose, .inl hqueue⟩
  | closed =>
    cases hf
    exact .inr (.inr habandon)
  | _ => exact .inl ⟨.refl _, .inl rfl⟩

theorem takes {d : Handle} {inbound inbound' : Inbound} {k k' : Registry.Ticker} {f : Frame}
    {deadline : Nat} (hw : s.Works i v m v' s') (hn : c.endpoint < v.members.room.length)
    (hp : s.phase = .admitted c inbound (.idle k))
    (hp' : s'.phase = .admitted d inbound' (.writing f false deadline k')) :
    Takes v v' c s s' f := by
  cases hw with
  | took line h inbound keepalive f rest deadline hs hq =>
    cases hp
    cases hp'
    exact takes_took line _ _ _ _ hn hs hq
  | left =>
    cases hp
    cases hp'
  | heard =>
    cases hp
    cases hp'
  | unregistered =>
    cases hp
    cases hp'
  | sent => cases hp
  | cut => cases hp
  | closed => cases hp
  | greeted => cases hp
  | _ => cases hp'

def wrote? (s : Session) : Move → Option Frame
  | .outbound _ => s.writes?
  | _ => none

theorem wrote?_of_pinging {line : Line} {inbound : Inbound} {k : Registry.Ticker}
    (hm : m = .outbound i ∨ m = .keepalive i) :
    wrote? ⟨line, .admitted c inbound (.idle k)⟩ m = none := by
  rcases hm with rfl | rfl <;> rfl

theorem wrote?_of_cut {line : Line} {inbound : Inbound} {f : Frame} {keeping : Bool}
    {deadline : Nat} {k : Registry.Ticker} (hf : (line.send f).2 ≠ .sent) :
    wrote? ⟨line, .admitted c inbound (.writing f keeping deadline k)⟩ (.outbound i) = none := by
  cases keeping with
  | true => rfl
  | false =>
    unfold wrote? Session.writes?
    dsimp only
    split
    · contradiction
    · rfl

theorem flow {accepted written : List Frame} (hw : s.Works i v m v' s')
    (hf : s.phase.Fits (some c)) (hn : c.endpoint < v.members.room.length)
    (hflow : s.phase.Flow accepted written (v.members.room.mailbox c.endpoint)) :
    s'.phase.Flow (accepted ++ (v'.members.room.mailbox c.endpoint).queue.drop
        (v.members.room.mailbox c.endpoint).queue.length)
      (written ++ (wrote? s m).toList) (v'.members.room.mailbox c.endpoint) := by
  have hrest {p : Phase} {b : Mailbox} (he : (v.members.room.mailbox c.endpoint).Extends b)
      (hp : p.Flow accepted written (v.members.room.mailbox c.endpoint)) :
      p.Flow (accepted ++ b.queue.drop (v.members.room.mailbox c.endpoint).queue.length)
        (written ++ (none : Option Frame).toList) b := by
    rw [Option.toList_none, List.append_nil]
    exact hp.extends he
  -- Most moves add to the mailbox at most. A frame that is taken goes from the queue to the loop, and
  -- one that is sent from the loop to what is written.
  have hclose := v.members.room.extends_close c.endpoint c.endpoint
  cases hw with
  | prompted => cases hf
  | unprompted => cases hf
  | ignored => cases hf
  | unproved => cases hf
  | asked => exact hrest (p := .registering _ true) (.refl _) hflow
  | granted line h r deadline => exact hrest (p := .greeting h deadline) (.refl _) hflow
  | denied line h err deadline =>
    exact hrest (p := .rejecting (.registry err) deadline _) (.refl _) hflow.1
  | refused => cases hf
  | released => exact (List.append_nil _).trans hflow
  | greeted line line' h deadline deadline' followed keepalive =>
    obtain ⟨hw, ha, hb⟩ := hflow
    refine hrest (p := .admitted h (.running deadline' followed) (.idle keepalive)) (.refl _) ⟨?_, hb⟩
    rw [hw, List.nil_append, ha]
  | ungreeted line line' h deadline err =>
    exact hrest (p := .withdrawing h err) (.refl _) hflow.1
  | withdrawn => exact (List.append_nil _).trans hflow
  | left line line' h deadline followed exit outbound =>
    exact hrest (p := .admitted h (.leaving exit) outbound) (.refl _) hflow
  | heard line line' h deadline deadline' followed followed' reactions outbound =>
    exact hrest (p := .admitted h (.running deadline' followed') outbound)
      (Inbound.extends_perform reactions v.members.room h.endpoint _) hflow
  | unregistered line line' h exit outbound =>
    cases hf
    exact hrest (p := .admitted c (.ended exit) outbound) hclose hflow
  | took line h inbound keepalive f rest deadline hs hq =>
    cases hf
    obtain ⟨ha, hb⟩ := hflow
    rw [Service.mailbox_setMailbox hn]
    rw [hq] at ha ⊢
    refine ⟨?_, hb⟩
    simp [ha, wrote?, Session.writes?]
  | stopped line h inbound keepalive exit =>
    cases hf
    exact hrest (p := .admitted c inbound (.closing exit)) hclose (Phase.Flow.isPrefix hflow)
  | pinging line h inbound keepalive keepalive' f deadline m hm =>
    rw [wrote?_of_pinging hm]
    exact hrest (p := .admitted h inbound (.writing f true deadline keepalive')) (.refl _) hflow
  | sent line line' h inbound keepalive f keeping deadline hl hsent =>
    cases keeping with
    | false =>
      obtain ⟨ha, hb⟩ := hflow
      refine ⟨?_, hb⟩
      simp [ha, wrote?, Session.writes?, hsent]
    | true => exact hrest (p := .admitted h inbound (.idle keepalive)) (.refl _) hflow
  | cut line line' h inbound keepalive f keeping deadline exit hl hsent =>
    cases hf
    rw [wrote?_of_cut hsent]
    exact hrest (p := .admitted c inbound (.closing exit)) hclose (Phase.Flow.isPrefix hflow)
  | closed line line' h inbound exit =>
    show written ++ [] <+: accepted ++ _
    rw [List.append_nil]
    exact List.IsPrefix.trans hflow (List.prefix_append _ _)

end Session.Works

namespace Hub

/-! ## Every mailbox at once -/

structure Flowing (ms : List Moment) (h : Hub) : Prop where
  flow : ∀ i c, (i, c) ∈ connections ms → ∃ s, h.sessions[i]? = some s ∧
    s.phase.Flow (accepted ms c.endpoint) (written ms i) (h.mailbox c.endpoint)
  unborn : ∀ n, h.service.members.room.length ≤ n → accepted ms n = []
  silent : ∀ i, (connections ms).lookup i = none → written ms i = []

section

variable {ms : List Moment} {h h' : Hub} {a : Action} {i : Nat} {c : Handle}

theorem Elsewhere.wrote?_eq_none (he : Elsewhere h a h' i c) :
    Moment.wrote? ⟨h, a, h'⟩ i = none := by
  unfold Moment.wrote?
  dsimp only
  split
  · rename_i j
    rw [if_neg]
    rintro rfl
    exact he.part rfl
  · rfl

theorem wrote?_worked {m : Move} {s s' : Session} {v : Service} (hs : h.sessions[i]? = some s)
    (hw : s.Works i h.service m v s') :
    Moment.wrote? ⟨h, .move m, h'⟩ i = Session.Works.wrote? s m := by
  rcases hw.part with rfl | rfl | rfl | rfl
  · rfl
  · rfl
  · simp [Moment.wrote?, Session.Works.wrote?, hs]
  · rfl

theorem wrote?_of_lookup {conns : List (Nat × Handle)} (hl : Ledger conns h)
    (hi : conns.lookup i = none) : Moment.wrote? ⟨h, a, h'⟩ i = none := by
  unfold Moment.wrote?
  dsimp only
  split
  · split
    · cases hs : h.sessions[i]? with
      | none => rfl
      | some s =>
        have hf := hl.fits i s hs
        rw [hi] at hf
        obtain ⟨line, phase⟩ := s
        cases phase with
        | admitted d inbound outbound => cases hf
        | _ => rfl
    · rfl
  · rfl

theorem Flowing.old (hf : Flowing ms h) (hl : Ledger (connections ms) h) (ha : h.Acts a h')
    (hc : (i, c) ∈ connections ms) : ∃ s, h'.sessions[i]? = some s ∧
      s.phase.Flow (accepted (ms ++ [⟨h, a, h'⟩]) c.endpoint) (written (ms ++ [⟨h, a, h'⟩]) i)
        (h'.mailbox c.endpoint) := by
  obtain ⟨s, hs, hflow⟩ := hf.flow i c hc
  rw [accepted_snoc, written_snoc]
  rcases ha.elsewhere_or_own hl hc with he | ⟨m, t, t', v, rfl, rfl, ht, hw⟩
  · obtain ⟨s', hs', heq⟩ := he.phase s hs
    refine ⟨s', hs', ?_⟩
    rw [he.wrote?_eq_none, Option.toList_none, List.append_nil, heq]
    exact hflow.extends he.extends_mailbox
  · rw [hs] at ht
    cases ht
    refine ⟨t', (getElem?_setSession { h with service := v } t' hs i).trans (if_pos rfl), ?_⟩
    rw [wrote?_worked hs hw]
    exact hw.flow (hl.fits_of_mem hc hs) (hl.lt_length hc) hflow

theorem Flowing.new (hf : Flowing ms h) (hl : Ledger (connections ms) h)
    (ha : h.Acts a h') (hnew : Moment.allotted? ⟨h, a, h'⟩ = some (i, c)) :
    ∃ s, h'.sessions[i]? = some s ∧
      s.phase.Flow (accepted (ms ++ [⟨h, a, h'⟩]) c.endpoint) (written (ms ++ [⟨h, a, h'⟩]) i)
        (h'.mailbox c.endpoint) := by
  have hempty (u : UserId) (hi : (connections ms).lookup i = none)
      (hm : (h'.mailbox (h.next u).endpoint) = .create h.settings.mailboxCapacity) :
      (Phase.registering (h.next u) false).Flow (accepted (ms ++ [⟨h, a, h'⟩]) (h.next u).endpoint)
        (written (ms ++ [⟨h, a, h'⟩]) i) (h'.mailbox (h.next u).endpoint) := by
    have hnone : accepted ms (h.next u).endpoint = [] := hf.unborn _ (Nat.le_refl _)
    rw [accepted_snoc, written_snoc, hnone, hf.silent i hi, wrote?_of_lookup hl hi]
    unfold Moment.gained
    dsimp only
    rw [hm]
    exact ⟨rfl, List.drop_nil, rfl⟩
  have hborn (room : Mailroom) (e : Registry.Endpoint) :
      Mailroom.mailbox (room ++ [e]) room.length = e.mailbox :=
    congrArg Registry.Endpoint.mailbox (Mailroom.get_append_length room e)
  cases ha with
  | worked j m s s' v hs hw =>
    rw [allotted?_worked hs hw] at hnew
    cases hnew
  | proved j line line' deadline u hs hline =>
    rw [allotted?_proved u hs] at hnew
    cases hnew
    have hget := getElem?_setSession h.allot ⟨line', .registering (h.next u) false⟩ hs i
    exact ⟨_, hget.trans (if_pos rfl), hempty u (hl.fits i _ hs) (hborn _ _)⟩
  | registered u line =>
    rw [allotted?_registered] at hnew
    cases hnew
    exact ⟨_, List.getElem?_concat_length,
      hempty u (hl.lookup_eq_none (Nat.le_refl _)) (hborn _ _)⟩
  | _ => cases hnew

theorem Run.flowing {start : Hub} (hr : Run start ms h) (hs : start.Fresh) : Flowing ms h := by
  induction hr with
  | nil =>
    obtain ⟨settings, registry, verifier, channels, clock, rfl⟩ := hs
    exact ⟨fun _ _ hc => (nomatch hc), fun _ _ => rfl, fun _ _ => rfl⟩
  | @snoc ms h h' a hr ha ih =>
    have hl := hr.ledger hs
    have hl' := (hr.snoc ha).ledger hs
    have hacts := acts_of_act hl.running ha
    refine ⟨?_, ?_, ?_⟩
    · intro i c hc
      -- A connection that has just got its number has an empty mailbox and a silent session.
      rw [connections_snoc] at hc
      rcases List.mem_append.mp hc with hold | hnew
      · exact ih.old hl hacts hold
      · exact ih.new hl hacts (Option.mem_toList.mp hnew)
    · intro n hn
      have hle : h.service.members.room.length ≤ n := by
        rw [hl'.length, connections_snoc, List.length_append, ← hl.length] at hn
        omega
      rw [accepted_snoc, ih.unborn n hle]
      unfold Moment.gained
      rw [hacts.queue_unborn hl hle]
      exact List.drop_nil
    · intro i hi
      rw [connections_snoc, List.lookup_append, Option.or_eq_none_iff] at hi
      rw [written_snoc, ih.silent i hi.1, wrote?_of_lookup hl hi.1]
      rfl

end

/-! ## Every moment of a run -/

section

variable {start h h' : Hub} {ms before after : List Moment} {t : Moment} {a : Action} {i : Nat}
  {c : Handle}

theorem known_or_unborn (hl : Ledger (connections before) h)
    (hl' : Ledger (connections (before ++ after)) h') (hc : (i, c) ∈ connections (before ++ after)) :
    (i, c) ∈ connections before ∨ h.service.members.room.length ≤ c.endpoint := by
  obtain ⟨k, hk⟩ := List.mem_iff_getElem?.mp hc
  have hkc := (hl'.numbered k i c hk).1
  rw [connections_append] at hk
  by_cases hlt : k < (connections before).length
  · rw [List.getElem?_append_left hlt] at hk
    exact .inl (List.mem_of_getElem? hk)
  · right
    rw [hl.length, hkc]
    exact Nat.le_of_not_lt hlt

/-- The events a mailbox accepts at a moment are those that are meant for its connection. -/
theorem Run.events_eq (hr : Run start (before ++ t :: after) h) (hs : start.Fresh)
    (hc : (i, c) ∈ connections (before ++ t :: after)) :
    t.events c.endpoint = (t.event? c).toList := by
  obtain ⟨hl, hacts⟩ := hr.moment hs
  have hother : ∀ g ∈ t.before.service.members.entries, g.endpoint = c.endpoint → g = c := by
    intro g hg he
    obtain ⟨j, hj⟩ := hl.listed g hg
    exact ((hr.ledger hs).eq_of_endpoint (mem_connections_append hj _) hc he).2
  obtain ⟨b, a, b'⟩ := t
  dsimp only at hacts hl hother
  cases hacts with
  | served q rest hq => exact gained_served hl hq hother
  | worked j m s s' v hi hw => rcases hw.part with rfl | rfl | rfl | rfl <;> rfl
  | _ => rfl

/-- Besides the registry only the loop of the connection that reads puts frames into a mailbox. -/
theorem Run.gained_from (hr : Run start (before ++ t :: after) h) (hs : start.Fresh)
    (hc : (i, c) ∈ connections (before ++ t :: after)) (hg : t.gained c.endpoint ≠ []) :
    t.action = .move .serve ∨ t.action = .move (.inbound i) := by
  obtain ⟨hl, hacts⟩ := hr.moment hs
  have hsame (he : (t.after.mailbox c.endpoint).queue = (t.before.mailbox c.endpoint).queue) :
      t.gained c.endpoint = [] := by
    unfold Moment.gained
    rw [he]
    exact List.drop_length
  rcases known_or_unborn hl (hr.ledger hs) hc with hold | hunborn
  · rcases hacts.elsewhere_or_own hl hold with he | ⟨m, s, s', v, ha, hb, hi, hw⟩
    · rcases he.quiet with hserve | hq
      · exact .inl hserve
      · exact absurd (hsame hq) hg
    · rcases hw.mailbox (hl.fits_of_mem hold hi) (hl.lt_length hold) with
        ⟨-, hq | rfl⟩ | ⟨f, -, htakes⟩ | habandon
      · refine absurd (hsame ?_) hg
        rw [hb]
        exact hq
      · exact .inr ha
      · refine absurd ?_ hg
        unfold Moment.gained mailbox
        rw [hb, htakes.front]
        exact List.drop_eq_nil_of_le (Nat.le_succ _)
      · refine absurd ?_ hg
        unfold Moment.gained
        rw [hb]
        show List.drop _ (v.members.room.mailbox c.endpoint).queue = []
        rw [habandon]
        exact List.drop_nil
  · refine absurd ?_ hg
    unfold Moment.gained
    rw [hacts.queue_unborn hl hunborn]
    exact List.drop_nil

theorem took?_eq_some {f : Frame} (ht : t.took? i = some f) : t.action = .move (.outbound i) ∧
    ∃ s s' d d' inbound inbound' k k' deadline, t.before.sessions[i]? = some s ∧
      t.after.sessions[i]? = some s' ∧ s.phase = .admitted d inbound (.idle k) ∧
      s'.phase = .admitted d' inbound' (.writing f false deadline k') := by
  unfold Moment.took? at ht
  split at ht
  · rename_i j ha
    split at ht
    · rename_i hj
      subst hj
      split at ht
      · rename_i d inbound k d' inbound' g deadline k' hs hs'
        cases ht
        obtain ⟨s, hi, hp⟩ := Option.map_eq_some_iff.mp hs
        obtain ⟨s', hi', hp'⟩ := Option.map_eq_some_iff.mp hs'
        exact ⟨ha, s, s', d, d', inbound, inbound', k, k', deadline, hi, hi', hp, hp'⟩
      · cases ht
    · cases ht
  · cases ht

theorem Run.took_open {f : Frame} (hr : Run start (before ++ t :: after) h) (hs : start.Fresh)
    (hc : (i, c) ∈ connections (before ++ t :: after)) (ht : t.took? i = some f) :
    (t.before.mailbox c.endpoint).isClosed = false ∧
      (t.before.mailbox c.endpoint).queue = f :: (t.after.mailbox c.endpoint).queue := by
  obtain ⟨hl, hacts⟩ := hr.moment hs
  obtain ⟨hact', s, s', d, d', inbound, inbound', k, k', deadline, hi, hi', hp, hp'⟩ :=
    took?_eq_some ht
  have hfit := hl.fits i s hi
  rw [hp] at hfit
  have hd : (i, d) ∈ connections before := hl.lookup_eq_some.mp hfit
  have hdc : d = c := (hr.ledger hs).eq_of_session (mem_connections_append hd _) hc
  subst hdc
  obtain ⟨t₀, ht₀, hflow⟩ := (hr.split.1.flowing hs).flow i d hd
  rw [hi] at ht₀
  cases ht₀
  rw [hp] at hflow
  rcases hacts.elsewhere_or_own hl hd with he | ⟨m, u, u', v, ha, hb, hu, hw⟩
  · exact absurd hact' he.part
  · rw [hi] at hu
    cases hu
    have hu' : t.after.sessions[i]? = some u' := by
      rw [hb]
      exact (getElem?_setSession { t.before with service := v } u' hi i).trans (if_pos rfl)
    rw [hu'] at hi'
    cases hi'
    have htakes := hw.takes (hl.lt_length hd) hp hp'
    have hfront := htakes.front
    unfold mailbox
    rw [hb]
    refine ⟨?_, congrArg Mailbox.queue hfront⟩
    unfold Mailbox.isClosed
    rw [htakes.signalled]
    exact hflow.2

theorem Run.kept (hr : Run start (before ++ t :: after) h) (hs : start.Fresh)
    (hc : (i, c) ∈ connections (before ++ t :: after)) (ht : t.took? i = none) :
    (t.before.mailbox c.endpoint).queue <+: (t.after.mailbox c.endpoint).queue ∨
      (t.after.mailbox c.endpoint).abandoned = true := by
  obtain ⟨hl, hacts⟩ := hr.moment hs
  rcases known_or_unborn hl (hr.ledger hs) hc with hold | hunborn
  · rcases hacts.elsewhere_or_own hl hold with he | ⟨m, s, s', v, ha, hb, hi, hw⟩
    · exact .inl he.extends_mailbox.queue
    · have hi' : t.after.sessions[i]? = some s' := by
        rw [hb]
        exact (getElem?_setSession { t.before with service := v } s' hi i).trans (if_pos rfl)
      rcases hw.mailbox (hl.fits_of_mem hold hi) (hl.lt_length hold) with
        ⟨hext, -⟩ | ⟨f, rfl, htakes⟩ | habandon
      · rw [hb]
        exact .inl hext.queue
      · obtain ⟨inbound, k, hp⟩ := htakes.idle
        obtain ⟨inbound', deadline, k', hp'⟩ := htakes.writing
        unfold Moment.took? at ht
        simp [ha, hi, hi', hp, hp'] at ht
      · rw [hb]
        refine .inr ?_
        show (v.members.room.mailbox c.endpoint).abandoned = true
        rw [habandon]
        rfl
  · left
    unfold mailbox Mailroom.mailbox
    rw [Mailroom.get_of_length_le hunborn]
    exact List.nil_prefix

theorem Run.isClosed_after (hr : Run start (before ++ t :: after) h) (hs : start.Fresh)
    (hc : (i, c) ∈ connections before) (hclosed : (t.before.mailbox c.endpoint).isClosed = true) :
    (t.after.mailbox c.endpoint).isClosed = true := by
  obtain ⟨hl, hacts⟩ := hr.moment hs
  rcases hacts.elsewhere_or_own hl hc with he | ⟨m, s, s', v, -, hb, hi, hw⟩
  · exact he.extends_mailbox.isClosed hclosed
  · rw [hb]
    show (v.members.room.mailbox c.endpoint).isClosed = true
    rcases hw.mailbox (hl.fits_of_mem hc hi) (hl.lt_length hc) with
      ⟨hext, -⟩ | ⟨f, -, htakes⟩ | habandon
    · exact hext.isClosed hclosed
    · unfold mailbox at hclosed
      rw [htakes.front] at hclosed
      exact hclosed
    · rw [habandon]
      exact Mailbox.isClosed_abandon _

theorem Run.last_eq (hr : Run start (before ++ [t]) h) : h = t.after := by
  generalize hms : before ++ [t] = ms at hr
  cases hr with
  | nil => simp at hms
  | snoc hr ha =>
    obtain ⟨-, heq⟩ := List.append_inj' hms rfl
    cases heq
    rfl

theorem Run.isClosed_later (hr : Run start (before ++ t :: after) h) (hs : start.Fresh)
    (hc : (i, c) ∈ connections before) (hclosed : (t.before.mailbox c.endpoint).isClosed = true) :
    (h.mailbox c.endpoint).isClosed = true := by
  induction after using List.reverseRecOn generalizing h with
  | nil =>
    rw [hr.last_eq]
    exact hr.isClosed_after hs hc hclosed
  | append_singleton after u ih =>
    rw [← List.cons_append, ← List.append_assoc] at hr
    have hu := ih hr.split.1
    rw [hr.last_eq]
    exact hr.isClosed_after hs (mem_connections_append hc _) hu

end

/-- What a run of a hub owes to publishers and connections. -/
structure Delivers (start : Hub) (ms : List Moment) (h : Hub) : Prop where
  /-- Requests that were accepted are handled once each in the order in which they were accepted; those
  that are not handled yet are queued. -/
  handled : submitted ms = handled ms ++ h.service.pending
  /-- Whenever the registry has nothing left to do, all of them are handled, and it can get there. -/
  caughtUp : h.move .serve = none → Hub.handled ms = submitted ms
  finishes : ∃ more last, Run start (ms ++ more) last ∧ (∀ t ∈ more, t.action = .move .serve) ∧
    Hub.handled (ms ++ more) = submitted ms
  refused : ∀ t ∈ ms, ∀ r e, t.action = .dispatch r → (t.before.dispatch r).2 = .error e →
    e = .queueFull ∧ t.after = t.before
  /-- The events that a mailbox accepts are those of the requests handled, in their order, that are for
  its connection, pass its filter, and find it open and not full. -/
  events : ∀ i c, (i, c) ∈ connections ms →
    (ms.flatMap fun t => t.events c.endpoint) = ms.filterMap fun t => t.event? c
  ordered : ∀ c, List.Sublist (ms.filterMap fun t => t.event? c)
    ((Hub.handled ms).map Membership.frameOf)
  replies : ∀ i c, (i, c) ∈ connections ms → ∀ t ∈ ms, t.gained c.endpoint ≠ [] →
    t.action = .move .serve ∨ t.action = .move (.inbound i)
  written : ∀ i c, (i, c) ∈ connections ms → Hub.written ms i <+: accepted ms c.endpoint
  taken : ∀ i c, (i, c) ∈ connections ms → ∀ t ∈ ms, match t.took? i with
    | some f => (t.before.mailbox c.endpoint).isClosed = false ∧
      (t.before.mailbox c.endpoint).queue = f :: (t.after.mailbox c.endpoint).queue
    | none => (t.before.mailbox c.endpoint).queue <+: (t.after.mailbox c.endpoint).queue ∨
      (t.after.mailbox c.endpoint).abandoned = true
  closed : ∀ before t after, ms = before ++ t :: after → ∀ i c, (i, c) ∈ connections before →
    (t.before.mailbox c.endpoint).isClosed = true → ∀ t' ∈ t :: after, t'.took? i = none

theorem sublist_event? (ms : List Moment) (c : Handle) :
    List.Sublist (ms.filterMap fun t => t.event? c) ((handled ms).map Membership.frameOf) := by
  unfold handled
  rw [List.map_filterMap]
  induction ms with
  | nil => exact .slnil
  | cons t rest ih =>
    rw [List.filterMap_cons, List.filterMap_cons]
    unfold Moment.event?
    cases t.handled? with
    | none => exact ih
    | some r =>
      rw [Option.bind_some, Option.map_some]
      split
      · rename_i hnone
        exact ih.cons _
      · rename_i f hsome
        split at hsome
        · cases hsome
          exact ih.cons_cons _
        · cases hsome

theorem Run.delivers {start h : Hub} {ms : List Moment} (hr : Run start ms h) (hs : start.Fresh) :
    Delivers start ms h where
  handled := hr.balance hs
  caughtUp hwaits := by
    have hempty : h.service.queue = [] := by simpa [move] using hwaits
    rw [hr.balance hs, Service.pending_eq_nil hempty, List.append_nil]
  finishes := by
    obtain ⟨more, last, hrun, hserve, hempty⟩ := hr.drains
    refine ⟨more, last, hrun, hserve, ?_⟩
    have hsub : submitted (ms ++ more) = submitted ms := by
      unfold submitted
      rw [List.filterMap_append]
      have hnone : more.filterMap Moment.submitted? = [] := by
        rw [List.filterMap_eq_nil_iff]
        intro t ht
        unfold Moment.submitted?
        rw [hserve t ht]
      rw [hnone, List.append_nil]
    rw [← hsub, hrun.balance hs, Service.pending_eq_nil hempty, List.append_nil]
  refused t ht r e ha he := hr.refuses hs ht ha he
  events i c hc := by
    rw [List.filterMap_eq_flatMap_toList]
    apply List.flatMap_congr
    intro t ht
    obtain ⟨before, after, rfl⟩ := List.append_of_mem ht
    exact hr.events_eq hs hc
  ordered c := sublist_event? ms c
  replies i c hc t ht hg := by
    obtain ⟨before, after, rfl⟩ := List.append_of_mem ht
    exact hr.gained_from hs hc hg
  written i c hc := by
    obtain ⟨s, -, hflow⟩ := (hr.flowing hs).flow i c hc
    exact hflow.isPrefix
  taken i c hc t ht := by
    obtain ⟨before, after, rfl⟩ := List.append_of_mem ht
    cases htook : t.took? i with
    | some f => exact hr.took_open hs hc htook
    | none => exact hr.kept hs hc htook
  closed := by
    rintro before t after rfl i c hc hclosed t' ht'
    cases htook : t'.took? i with
    | none => rfl
    | some f =>
      rcases List.mem_cons.mp ht' with rfl | hlater
      · have hopen := (hr.took_open hs (mem_connections_append hc _) htook).1
        rw [hclosed] at hopen
        cases hopen
      · -- Nothing opens a mailbox again, and frames are taken from open ones alone.
        obtain ⟨mid, rest, rfl⟩ := List.append_of_mem hlater
        rw [← List.cons_append, ← List.append_assoc] at hr
        have hcs : (i, c) ∈ connections ((before ++ t :: mid) ++ t' :: rest) := by
          rw [List.append_assoc]
          exact mem_connections_append hc _
        have hopen := (hr.took_open hs hcs htook).1
        rw [hr.split.1.isClosed_later hs hc hclosed] at hopen
        cases hopen

theorem tookOver_delivers : Delivers plain tookOver.1 tookOver.2 ∧
    (handled tookOver.1).length = 2 ∧ (accepted tookOver.1 0).length = 2 ∧
    (written tookOver.1 0).length = 1 :=
  ⟨(run_of_trace trace_takeover).delivers ⟨_, _, _, _, _, rfl⟩, by decide +kernel,
    by decide +kernel, by decide +kernel⟩

end Hub

end PushHub
