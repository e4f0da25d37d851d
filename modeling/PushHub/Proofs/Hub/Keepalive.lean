import PushHub.Proofs.Config.Validation
import PushHub.Proofs.Hub.Hearing
import PushHub.Proofs.Hub.Conversation
import PushHub.Proofs.Hub.Lasting
import PushHub.Proofs.Hub.Timers

/-! A client that answers is never taken for dead. The loop that writes pings once in every period, an
answer moves the deadline of the loop that reads, and the deadline is further away than the period. -/
namespace PushHub

open Registry (Handle Service Ticker)

/-! ## Frames that wait to be read -/

theorem ClientAct.frames_prefix (a : ClientAct) (w : Wire) : w.frames <+: (a.on w).frames := by
  cases w with
  | pipe p =>
    cases a with
    | send f =>
      show p.fromPeer <+: (p.peerSend f).1.fromPeer
      unfold Pipe.peerSend
      split
      · exact List.prefix_refl _
      · exact List.prefix_append _ _
    | read =>
      show p.fromPeer <+: p.peerRead.1.fromPeer
      unfold Pipe.peerRead
      split
      · exact List.prefix_refl _
      · split <;> exact List.prefix_refl _
    | _ => exact List.prefix_refl _
  | socket s =>
    cases a with
    | send f =>
      show s.fromClient <+: (s.clientSend f).1.fromClient
      unfold Socket.clientSend
      split
      · exact List.prefix_refl _
      · exact List.prefix_append _ _
    | read =>
      show s.fromClient <+: s.clientRead.1.fromClient
      unfold Socket.clientRead
      split
      · dsimp only
        split
        · split
          · exact List.prefix_refl _
          · exact List.prefix_append _ _
        · exact List.prefix_refl _
        · exact List.prefix_refl _
      · split <;> exact List.prefix_refl _
    | _ => exact List.prefix_refl _

theorem ClientAct.unread_le (a : ClientAct) (w : Wire) : w.unread ≤ (a.on w).unread := by
  rw [← Wire.length_frames, ← Wire.length_frames]
  exact (a.frames_prefix w).length_le

namespace Outbound

variable {e : Surroundings} {c : Handle} {line line' : Line} {v v' : Service}
  {outbound outbound' : Outbound}

theorem line_of_keepAlive (hs : outbound.keepAlive e line v = some (line', v', outbound')) :
    line' = line := by
  cases outbound with
  | idle k =>
    simp only [keepAlive] at hs
    split at hs <;> cases hs
    rfl
  | _ => cases hs

theorem frames_of_step (hs : outbound.step e c line v = some (line', v', outbound')) :
    line'.wire.frames = line.wire.frames := by
  cases outbound with
  | idle k =>
    simp only [step] at hs
    split at hs
    · cases hs
      rfl
    · cases hs
      rfl
    · rw [line_of_keepAlive hs]
  | writing f keeping deadline k =>
    have hline := line.frames_send f
    simp only [step] at hs
    generalize line.send f = o at hs hline
    obtain ⟨line₁, r⟩ := o
    cases r with
    | waiting =>
      dsimp only at hs
      split at hs <;> cases hs
      exact hline
    | _ =>
      cases hs
      exact hline
  | closing exit =>
    cases hs
    rw [Line.frames_dropSink, Line.frames_close]
  | ended exit => cases hs
  | absent => cases hs

end Outbound

theorem Outbound.signalled_of_step {e : Surroundings} {c : Handle} {line line' : Line}
    {v v' : Service} {outbound outbound' : Outbound}
    (hs : outbound.step e c line v = some (line', v', outbound'))
    (hbefore : outbound.Stopping → v.Signalled c) (hstop : outbound'.Stopping) :
    v'.Signalled c := by
  cases outbound with
  | idle k =>
    simp only [step] at hs
    split at hs
    · cases hs
      cases hstop
    · cases hs
      exact Service.signalled_close
    · simp only [keepAlive] at hs
      split at hs <;> cases hs
      cases hstop
  | writing f keeping deadline k =>
    simp only [step] at hs
    split at hs
    · cases hs
      cases hstop
    · cases hs
      exact Service.signalled_close
    · split at hs <;> cases hs
      exact Service.signalled_close
  | closing exit =>
    cases hs
    exact Service.signalled_abandon.mpr (hbefore trivial)
  | ended exit => cases hs
  | absent => cases hs

theorem Inbound.unread_of_waits {e : Surroundings} {c : Handle} {line : Line} {v : Service}
    {deadline : Nat} {followed : SubscriptionSet}
    (hs : Inbound.step e c line v (.running deadline followed) = none) :
    ¬v.Signalled c ∧ line.wire.unread = 0 := by
  have hu (hr : line.receive.2 = .waiting) : line.wire.unread = 0 := by
    rw [← Wire.length_frames, Line.frames_of_waiting hr, List.length_nil]
  simp only [step] at hs
  split at hs
  · cases hs
  · rename_i hopen
    refine ⟨hopen, hu ?_⟩
    generalize line.receive = o at hs
    obtain ⟨line', r⟩ := o
    cases r with
    | waiting => rfl
    | frame f => cases f <;> cases hs
    | failed err => cases hs

/-! ## The ticker of pings and the deadline -/

/-- The loop that writes pings at every multiple of the period: `n` pings were written since `began`,
and the next one falls due in time. -/
def Outbound.Beats (began period now n : Nat) : Outbound → Prop
  | .idle k => k.period = period ∧ k.next = began + (n + 1) * period ∧ now ≤ k.next ∧
      k.next ≤ now + period
  | .writing _ false _ k => k.period = period ∧ k.next = began + (n + 1) * period ∧ now ≤ k.next ∧
      k.next ≤ now + period
  | .writing f true _ k => k.period = period ∧ f = .ping [] ∧ now = began + (n + 1) * period ∧
      k.next = now + period
  | .closing _ => True
  | .ended _ => True
  | .absent => False

/-- The deadline is a wait from now when the next ping falls due, or a ping has just been written
and its answer is on its way. -/
def Registry.Ticker.Leads (period wait now deadline : Nat) (owed : Prop) (k : Ticker) : Prop :=
  k.next + wait ≤ deadline + period ∨
    (k.next = now + period ∧ now + wait ≤ deadline + period ∧ owed)

def Outbound.Leads (period wait now deadline : Nat) (owed : Prop) : Outbound → Prop
  | .idle k => k.Leads period wait now deadline owed
  | .writing _ false _ k => k.Leads period wait now deadline owed
  | .writing _ true _ _ => now + wait ≤ deadline + period
  | _ => True

/-- The loop that reads has not taken its client for dead, nor is it about to. -/
def Inbound.Safe (period wait now : Nat) (owed : Prop) (outbound : Outbound) : Inbound → Prop
  | .running deadline _ => now < deadline ∧ outbound.Leads period wait now deadline owed
  | .leaving exit => exit ≠ .livenessTimeout
  | .ended exit => exit ≠ .livenessTimeout
  | .absent => True

namespace Outbound.Steps

variable {e : Surroundings} {line : Line} {said : Option Utterance} {inbound : Inbound}
  {outbound outbound' : Outbound} {began period wait n deadline : Nat} {owed owed' : Prop}

theorem on_time (hs : outbound.Steps e line said outbound')
    (hb : outbound.Beats began period e.now n) (f : Frame) (hsaid : said = some (.keepalive f)) :
    f = .ping [] ∧ e.now = began + (n + 1) * period := by
  cases hs with
  | pinged g deadline k =>
    cases hsaid
    obtain ⟨-, hf, hnow, -⟩ := hb
    exact ⟨hf, hnow⟩
  | _ => cases hsaid

theorem beats (hs : outbound.Steps e line said outbound')
    (hb : outbound.Beats began period e.now n) :
    outbound'.Beats began period e.now
      (n + if said = some (.keepalive (.ping [])) then 1 else 0) := by
  cases hs with
  | took f deadline k => exact hb
  | pinging deadline k hk =>
    obtain ⟨hperiod, hnext, hle, -⟩ := hb
    have hnow : e.now = k.next := Nat.le_antisymm hle hk
    have hlate : ¬k.next + Registry.Ticker.tolerance < e.now := by omega
    refine ⟨hperiod, rfl, hnow.trans hnext, ?_⟩
    show (if k.next + Registry.Ticker.tolerance < e.now then e.now + k.period
      else k.next + k.period) = e.now + period
    rw [if_neg hlate, hperiod, hnow]
  | sent f deadline k => exact hb
  | pinged f deadline k =>
    obtain ⟨hperiod, rfl, hnow, hnext⟩ := hb
    rw [if_pos rfl]
    have hmul : (n + 1 + 1) * period = (n + 1) * period + period := Nat.succ_mul _ _
    exact ⟨hperiod, by omega, by omega, by omega⟩
  | _ => trivial

theorem leads (hs : outbound.Steps e line said outbound') (hp : 0 < period)
    (hb : outbound.Beats began period e.now n)
    (hl : outbound.Leads period wait e.now deadline owed) (howed : owed → owed')
    (hping : said = some (.keepalive (.ping [])) → owed') :
    outbound'.Leads period wait e.now deadline owed' := by
  cases hs with
  | took f deadline k => exact hl.imp_right fun h => ⟨h.1, h.2.1, howed h.2.2⟩
  | pinging deadline k hk =>
    obtain ⟨-, -, hle, -⟩ := hb
    rcases hl with hl | ⟨hnext, -, -⟩
    · show e.now + wait ≤ _ + period
      omega
    · omega
  | sent f deadline k => exact hl.imp_right fun h => ⟨h.1, h.2.1, howed h.2.2⟩
  | pinged f deadline k =>
    obtain ⟨-, rfl, -, hnext⟩ := hb
    exact .inr ⟨hnext, hl, hping rfl⟩
  | _ => trivial

theorem safe (hs : outbound.Steps e line said outbound') (hp : 0 < period)
    (hb : outbound.Beats began period e.now n)
    (hsafe : inbound.Safe period wait e.now owed outbound) (howed : owed → owed')
    (hping : said = some (.keepalive (.ping [])) → owed') :
    inbound.Safe period wait e.now owed' outbound' := by
  cases inbound with
  | running deadline followed => exact ⟨hsafe.1, hs.leads hp hb hsafe.2 howed hping⟩
  | _ => exact hsafe

end Outbound.Steps

/-- A frame that is heard moves the deadline further than the next ping. -/
theorem Inbound.Steps.safe {e : Surroundings} {inbound inbound' : Inbound} {outbound : Outbound}
    {began period n : Nat} {owed owed' : Prop} (hs : inbound.Steps e inbound')
    (hwait : 0 < e.settings.pongWait) (hb : outbound.Beats began period e.now n)
    (hsafe : inbound.Safe period e.settings.pongWait e.now owed outbound) :
    inbound'.Safe period e.settings.pongWait e.now owed' outbound := by
  cases hs with
  | heard deadline followed followed' =>
    refine ⟨Nat.lt_add_of_pos_right hwait, ?_⟩
    cases outbound with
    | idle k =>
      obtain ⟨-, -, -, hle⟩ := hb
      exact .inl (by omega)
    | writing f keeping deadline k =>
      cases keeping with
      | false =>
        obtain ⟨-, -, -, hle⟩ := hb
        exact .inl (by omega)
      | true => exact Nat.le_add_right _ _
    | _ => trivial
  | left deadline followed exit hx =>
    intro hexit
    exact absurd (hx hexit) (Nat.not_le_of_lt hsafe.1)
  | done exit => exact hsafe

theorem Inbound.Safe.mono {inbound : Inbound} {outbound : Outbound} {period wait now : Nat}
    {owed owed' : Prop} (hsafe : inbound.Safe period wait now owed outbound) (howed : owed → owed') :
    inbound.Safe period wait now owed' outbound := by
  have hlead {deadline : Nat} {k : Ticker} (hl : k.Leads period wait now deadline owed) :
      k.Leads period wait now deadline owed' :=
    hl.imp_right fun h => ⟨h.1, h.2.1, howed h.2.2⟩
  cases inbound with
  | running deadline followed =>
    refine ⟨hsafe.1, ?_⟩
    cases outbound with
    | idle k => exact hlead hsafe.2
    | writing f keeping deadline k =>
      cases keeping with
      | false => exact hlead hsafe.2
      | true => exact hsafe.2
    | _ => trivial
  | _ => exact hsafe

/-! ## A client that answers -/

def Phase.isWriting : Phase → Bool
  | .admitted _ _ (.writing _ _ _ _) => true
  | _ => false

namespace Hub

def Moment.pinged? (t : Moment) (i : Nat) : Option Nat :=
  if t.utters? i = some (.keepalive (.ping [])) then some t.before.now else none

def pings (ms : List Moment) (i : Nat) : List Nat := ms.filterMap (Moment.pinged? · i)

theorem pings_snoc (ms : List Moment) (t : Moment) (i : Nat) :
    pings (ms ++ [t]) i = pings ms i ++ (t.pinged? i).toList :=
  filterMap_snoc _ ms t

/-- The client of session `i` sends a frame that gets through. -/
def Moment.answers (t : Moment) (i : Nat) : Bool :=
  match t.action, t.before.sessions[i]?, t.after.sessions[i]? with
  | .client j _, some s, some s' => j = i && s.line.wire.unread < s'.line.wire.unread
  | _, _, _ => false

/-- A ping was written on session `i`, and its client has sent nothing since. -/
def owes (i : Nat) (ms : List Moment) : Bool :=
  ms.foldl (fun owed t => (t.pinged? i).isSome || owed && !t.answers i) false

theorem owes_snoc (ms : List Moment) (t : Moment) (i : Nat) :
    owes i (ms ++ [t]) = ((t.pinged? i).isSome || owes i ms && !t.answers i) :=
  List.foldl_concat _ _ _ _

theorem owes_of_quiet {ms : List Moment} {t : Moment} {i : Nat} (hu : owes i ms = true)
    (ht : t.answers i = false) : owes i (ms ++ [t]) = true := by
  rw [owes_snoc, hu, ht]
  exact Bool.or_true _

/-- The clock moves on at `t`: the loops of session `i` have done what they could, no write is under
way, no timer of the session is passed over, and while the session is read from, its client has
answered every ping. -/
structure Attends (i : Nat) (first : List Moment) (t : Moment) : Prop where
  read : t.before.move (.inbound i) = none
  wrote : t.before.move (.outbound i) = none
  written : ∀ s ∈ t.before.sessions[i]?, s.phase.isWriting = false
  due : ∀ s ∈ t.before.sessions[i]?, ∀ due ∈ s.due?, t.before.now < due → t.after.now ≤ due
  answered : ∀ s ∈ t.before.sessions[i]?, s.phase.mayHear = true → owes i first = false

instance (i : Nat) (first : List Moment) (t : Moment) : Decidable (Attends i first t) :=
  decidable_of_iff
    (t.before.move (.inbound i) = none ∧ t.before.move (.outbound i) = none ∧
      (∀ s ∈ t.before.sessions[i]?, s.phase.isWriting = false) ∧
      (∀ s ∈ t.before.sessions[i]?, ∀ due ∈ s.due?, t.before.now < due → t.after.now ≤ due) ∧
      ∀ s ∈ t.before.sessions[i]?, s.phase.mayHear = true → owes i first = false)
    ⟨fun h => ⟨h.1, h.2.1, h.2.2.1, h.2.2.2.1, h.2.2.2.2⟩,
      fun h => ⟨h.read, h.wrote, h.written, h.due, h.answered⟩⟩

def Attended (i : Nat) (ms : List Moment) : Prop :=
  ∀ k < ms.length, ∀ t ∈ ms[k]?, t.before.now < t.after.now → Attends i (ms.take k) t

instance (i : Nat) (ms : List Moment) : Decidable (Attended i ms) :=
  inferInstanceAs (Decidable (∀ k < ms.length, ∀ t ∈ ms[k]?, _ → Attends i (ms.take k) t))

theorem Attended.attends {ms first rest : List Moment} {t : Moment} {i : Nat} (ha : Attended i ms)
    (hms : ms = first ++ t :: rest) (hlt : t.before.now < t.after.now) : Attends i first t := by
  subst hms
  have := ha first.length (by simp) t (by simp) hlt
  rwa [List.take_left] at this

structure Keeping (i began period wait : Nat) (ms : List Moment) (h : Hub) (line : Line) (c : Handle)
    (inbound : Inbound) (outbound : Outbound) : Prop where
  session : h.sessions[i]? = some ⟨line, .admitted c inbound outbound⟩
  beats : outbound.Beats began period h.now (pings ms i).length
  safe : inbound.Safe period wait h.now (owes i ms = true ∨ 0 < line.wire.unread) outbound
  stopped : outbound.Stopping → h.service.Signalled c
  punctual : pings ms i = (List.range (pings ms i).length).map fun n => began + (n + 1) * period

section

variable {start h h' : Hub} {ms : List Moment} {a : Action} {i began period wait : Nat} {line : Line}
  {c : Handle} {inbound : Inbound} {outbound : Outbound} {s' : Session}

theorem pings_of_silent {t : Moment} (ht : t.utters? i = none) : pings (ms ++ [t]) i = pings ms i := by
  rw [pings_snoc, Moment.pinged?, ht, if_neg nofun, Option.toList_none, List.append_nil]

theorem answers_of_other (hi : ∀ b, a ≠ .client i b) : Moment.answers ⟨h, a, h'⟩ i = false := by
  unfold Moment.answers
  split
  · rename_i j b s s' ha _ _
    have hj : j ≠ i := by
      rintro rfl
      exact hi b ha
    simp [hj]
  · rfl

theorem answers_of_client {b : ClientAct} {s s' : Session} (hs : h.sessions[i]? = some s)
    (hs' : h'.sessions[i]? = some s') (hle : ¬s.line.wire.unread < s'.line.wire.unread) :
    Moment.answers ⟨h, .client i b, h'⟩ i = false := by
  simp [Moment.answers, hs, hs', hle]

theorem Acts.signalled (ha : h.Acts a h') (hn : c.endpoint < h.service.members.room.length)
    (hs : h.service.Signalled c) : h'.service.Signalled c := by
  rcases ha.lasts c.endpoint with hlasts | ⟨heq, -⟩
  · exact hlasts.signalled hs
  · exact absurd hn (Nat.not_lt_of_le (Nat.le_of_eq heq.symm))

namespace Keeping

variable (hk : Keeping i began period wait ms h line c inbound outbound)

include hk

theorem reads {m : Move} {line' : Line} {v : Service} {inbound' : Inbound} {d : Desk}
    (hwait : h.settings.pongWait = wait) (hpos : 0 < wait)
    (hacts : h.Acts (.move m) h') (hn : c.endpoint < h.service.members.room.length)
    (hm : m = .inbound i)
    (hstep : inbound.step h.surroundings c line h.service = some (line', v, inbound'))
    (hh : h' = { h with service := d.service, nextId := d.nextId }.setSession i
      ⟨line', .admitted c inbound' outbound⟩) :
    Keeping i began period wait (ms ++ [⟨h, .move m, h'⟩]) h' line' c inbound' outbound := by
  subst hm
  have hget := getElem?_setSession { h with service := d.service, nextId := d.nextId }
    ⟨line', .admitted c inbound' outbound⟩ hk.session i
  rw [if_pos rfl, ← hh] at hget
  have hnow : h'.now = h.now := by rw [hh]; rfl
  have hsilent : Moment.utters? ⟨h, .move (.inbound i), h'⟩ i = none := by
    rw [utters?_of_move rfl hk.session]
    rfl
  subst hwait
  exact
    { session := hget
      beats := by
        rw [pings_of_silent hsilent, hnow]
        exact hk.beats
      safe := by
        rw [hnow]
        exact (Session.steps_of_inbound hstep).safe hpos hk.beats hk.safe
      stopped := fun hstop => hacts.signalled hn (hk.stopped hstop)
      punctual := by
        rw [pings_of_silent hsilent]
        exact hk.punctual }

theorem writes {m : Move} {line' : Line} {outbound' : Outbound} {said : Option Utterance}
    (hp : 0 < period)
    (hget : h'.sessions[i]? = some ⟨line', .admitted c inbound outbound'⟩) (hnow : h'.now = h.now)
    (hunread : line'.wire.unread = line.wire.unread)
    (hsaid : Moment.utters? ⟨h, .move m, h'⟩ i = said)
    (hstep : outbound.Steps h.surroundings line said outbound')
    (hstopped : outbound'.Stopping → h'.service.Signalled c) :
    Keeping i began period wait (ms ++ [⟨h, .move m, h'⟩]) h' line' c inbound outbound' := by
  have hbeats := hstep.beats hk.beats
  have hlast : pings (ms ++ [⟨h, .move m, h'⟩]) i =
      pings ms i ++ if said = some (.keepalive (.ping [])) then [h.now] else [] := by
    rw [pings_snoc, Moment.pinged?, hsaid]
    split <;> rfl
  have hping (hs : said = some (.keepalive (.ping []))) :
      owes i (ms ++ [⟨h, .move m, h'⟩]) = true := by
    rw [owes_snoc, Moment.pinged?, hsaid, if_pos hs]
    rfl
  have hquiet : Moment.answers ⟨h, .move m, h'⟩ i = false := answers_of_other nofun
  have hsafe := hstep.safe hp hk.beats hk.safe
    (Or.imp (owes_of_quiet · hquiet) fun hu => hunread ▸ hu) fun hs => .inl (hping hs)
  refine ⟨hget, ?_, hnow ▸ hsafe, hstopped, ?_⟩
  · rw [hlast, hnow]
    by_cases hs : said = some (.keepalive (.ping []))
    · rw [if_pos hs] at hbeats ⊢
      rw [List.length_append]
      exact hbeats
    · rw [if_neg hs] at hbeats ⊢
      rw [List.append_nil]
      exact hbeats
  · rw [hlast]
    by_cases hs : said = some (.keepalive (.ping []))
    · rw [if_pos hs, List.length_append, List.length_singleton, List.range_succ, List.map_append,
        ← hk.punctual, List.map_singleton, ← (hstep.on_time hk.beats _ hs).2]
      rfl
    · rw [if_neg hs, List.append_nil]
      exact hk.punctual

theorem client (b : ClientAct) (hacts : h.Acts (.client i b) h')
    (hn : c.endpoint < h.service.members.room.length)
    (hget : h'.sessions[i]? =
      some ⟨{ line with wire := b.on line.wire }, .admitted c inbound outbound⟩)
    (hnow : h'.now = h.now) :
    Keeping i began period wait (ms ++ [⟨h, .client i b, h'⟩]) h'
      { line with wire := b.on line.wire } c inbound outbound := by
  have hsilent : Moment.utters? ⟨h, .client i b, h'⟩ i = none := rfl
  have howed : owes i ms = true ∨ 0 < line.wire.unread →
      owes i (ms ++ [⟨h, .client i b, h'⟩]) = true ∨ 0 < (b.on line.wire).unread := by
    intro howed
    rcases Nat.eq_or_lt_of_le (b.unread_le line.wire) with heq | hlt
    · have hquiet := answers_of_client (b := b) hk.session hget (Nat.not_lt_of_le (Nat.le_of_eq heq.symm))
      exact howed.imp (owes_of_quiet · hquiet) (heq ▸ ·)
    · exact .inr (Nat.lt_of_le_of_lt (Nat.zero_le _) hlt)
  exact
    { session := hget
      beats := by
        rw [pings_of_silent hsilent, hnow]
        exact hk.beats
      safe := by
        rw [hnow]
        exact hk.safe.mono howed
      stopped := fun hstop => hacts.signalled hn (hk.stopped hstop)
      punctual := by
        rw [pings_of_silent hsilent]
        exact hk.punctual }

theorem elsewhere (hi : a.session? ≠ some i) (hacts : h.Acts a h')
    (hn : c.endpoint < h.service.members.room.length)
    (hget : h'.sessions[i]? = h.sessions[i]?) (hnow : h'.now = h.now) :
    Keeping i began period wait (ms ++ [⟨h, a, h'⟩]) h' line c inbound outbound := by
  have hsilent : Moment.utters? ⟨h, a, h'⟩ i = none := utters?_of_ne hi
  have hquiet : Moment.answers ⟨h, a, h'⟩ i = false :=
    answers_of_other fun b heq => hi (congrArg Action.session? heq)
  exact
    { session := hget.trans hk.session
      beats := by
        rw [pings_of_silent hsilent, hnow]
        exact hk.beats
      safe := by
        rw [hnow]
        exact hk.safe.mono (Or.imp_left (owes_of_quiet · hquiet))
      stopped := fun hstop => hacts.signalled hn (hk.stopped hstop)
      punctual := by
        rw [pings_of_silent hsilent]
        exact hk.punctual }

theorem waits (hat : Attends i ms ⟨h, a, h'⟩) :
    (∃ k, outbound = .idle k ∧ h'.now ≤ k.next) ∨ ∃ exit, outbound = .ended exit := by
  have hwrote := step_of_outbound_none hat.wrote hk.session
  rcases Outbound.waits hwrote with ⟨⟨k, rfl⟩, -⟩ | ⟨f, keeping, deadline, k, rfl, -⟩ | hended | habsent
  · refine .inl ⟨k, rfl, ?_⟩
    have hlt : h.now < k.next := by
      refine Nat.lt_of_not_le fun hdue => ?_
      have hkeep : (Outbound.keepAlive h.surroundings line h.service (.idle k)).isSome = true := by
        simp only [Outbound.keepAlive]
        rw [if_pos (show k.isDue h.surroundings.now = true from decide_eq_true hdue)]
        rfl
      have hstep := Outbound.step_isSome_of_keepAlive (c := c) hkeep
      rw [hwrote] at hstep
      cases hstep
    exact hat.due _ hk.session k.next (by simp [Session.due?]) hlt
  · cases hat.written _ hk.session
  · exact .inr hended
  · have hbeats := hk.beats
    rw [habsent] at hbeats
    exact hbeats.elim

/-- The clock moves on: to the next ping at most, and with every ping answered that is earlier than
the deadline. -/
theorem passes (hw : period < wait) (hi : a.session? ≠ some i) (hacts : h.Acts a h')
    (hn : c.endpoint < h.service.members.room.length)
    (hget : h'.sessions[i]? = h.sessions[i]?) (hlt : h.now < h'.now)
    (hat : Attends i ms ⟨h, a, h'⟩) :
    Keeping i began period wait (ms ++ [⟨h, a, h'⟩]) h' line c inbound outbound := by
  have hsilent : Moment.utters? ⟨h, a, h'⟩ i = none := utters?_of_ne hi
  have hwaits := hk.waits hat
  refine
    { session := hget.trans hk.session
      beats := ?_
      safe := ?_
      stopped := fun hstop => hacts.signalled hn (hk.stopped hstop)
      punctual := by
        rw [pings_of_silent hsilent]
        exact hk.punctual }
  · rw [pings_of_silent hsilent]
    have hbeats := hk.beats
    rcases hwaits with ⟨k, rfl, hle⟩ | ⟨exit, rfl⟩
    · obtain ⟨hperiod, hnext, -, hahead⟩ := hbeats
      exact ⟨hperiod, hnext, hle, by omega⟩
    · trivial
  · have hsafe := hk.safe
    cases inbound with
    | running deadline followed =>
      have hread := step_of_inbound_none hat.read hk.session
      obtain ⟨hopen, hnone⟩ := Inbound.unread_of_waits hread
      rcases hwaits with ⟨k, rfl, hle⟩ | ⟨exit, rfl⟩
      · rcases hsafe.2 with hlead | ⟨-, -, hunanswered | hunread⟩
        · exact ⟨by omega, .inl hlead⟩
        · cases hunanswered.symm.trans (hat.answered _ hk.session rfl)
        · omega
      · exact absurd (hk.stopped trivial) hopen
    | _ => exact hsafe

theorem turn (hp : 0 < period) (hw : period < wait) (hwait : h.settings.pongWait = wait)
    (hacts : h.Acts a h') (hact : h.act a = some h')
    (hn : c.endpoint < h.service.members.room.length)
    (hat : h.now < h'.now → Attends i ms ⟨h, a, h'⟩) :
    ∃ line inbound outbound,
      Keeping i began period wait (ms ++ [⟨h, a, h'⟩]) h' line c inbound outbound := by
  obtain ⟨s', hget, hturn⟩ := turn_of_act hk.session hact
  cases hturn with
  | own m d s' hm hmove =>
    cases m with
    | serve => cases hm
    | sweep => cases hm
    | admission j => cases hmove
    | inbound j =>
      cases hm
      obtain ⟨⟨line', v, inbound'⟩, hstep, heq⟩ := Option.map_eq_some_iff.mp hmove
      cases heq
      exact ⟨line', inbound', outbound,
        hk.reads hwait (Nat.lt_trans hp hw) hacts hn rfl hstep rfl⟩
    | outbound j =>
      cases hm
      obtain ⟨⟨line', v, outbound'⟩, hstep, heq⟩ := Option.map_eq_some_iff.mp hmove
      cases heq
      exact ⟨line', inbound, outbound',
        hk.writes hp hget rfl (Wire.unread_congr (Outbound.frames_of_step hstep))
          (utters?_of_move rfl hk.session) (Session.steps_of_outbound i inbound hstep)
          (Outbound.signalled_of_step hstep hk.stopped)⟩
    | keepalive j =>
      cases hm
      obtain ⟨⟨line', v, outbound'⟩, hstep, heq⟩ := Option.map_eq_some_iff.mp hmove
      cases heq
      have hsteps := Session.steps_of_keepAlive hstep
      refine ⟨line', inbound, outbound',
        hk.writes hp hget rfl (by rw [Outbound.line_of_keepAlive hstep]) (utters?_of_move rfl hk.session)
          hsteps fun hstop => ?_⟩
      cases outbound with
      | idle k =>
        simp only [Outbound.keepAlive] at hstep
        split at hstep <;> cases hstep
        cases hstop
      | _ => cases hstep
  | client b => exact ⟨_, inbound, outbound, hk.client b hacts hn hget rfl⟩
  | other a h' ha hi =>
    have hsame := hget.trans hk.session.symm
    -- Only where time passes does it matter that the client has answered.
    rcases Nat.eq_or_lt_of_le hacts.now_le with heq | hlt
    · exact ⟨line, inbound, outbound, hk.elsewhere hi hacts hn hsame heq.symm⟩
    · exact ⟨line, inbound, outbound, hk.passes hw hi hacts hn hsame hlt (hat hlt)⟩

end Keeping

end

/-! ## From the greeting on -/

theorem Session.connected_of_greeting {e : Surroundings} {d d' : Desk} {s s' : Session}
    {m : Move} {u : UserId} (hu : s.utters? e m = some (.control (.authSuccess u)))
    (hs : s.move e d m = some (d', s')) : ∃ c, s'.phase = Admission.connected e c := by
  obtain ⟨ho, hsent⟩ := Option.filter_eq_some_iff.mp hu
  obtain ⟨c, deadline, hphase, rfl⟩ := Session.phase_of_greeting hu
  obtain ⟨line, phase⟩ := s
  cases hphase
  cases m with
  | admission j =>
    have hsent : (line.send (ServerFrame.authSuccess c.user).frame).2 = .sent :=
      of_decide_eq_true hsent
    simp only [Session.move, Admission.step] at hs
    generalize line.send (ServerFrame.authSuccess c.user).frame = o at hs hsent
    obtain ⟨line', r⟩ := o
    cases hsent
    cases hs
    exact ⟨c, rfl⟩
  | _ => cases ho

section

variable {start h : Hub} {before after : List Moment} {t : Moment} {i period : Nat} {u : UserId}

theorem keeping_greeted {h' : Hub} {m : Move} {s : Session} (hm : m.session? = some i)
    (hi : h.sessions[i]? = some s) (hact : h.act (.move m) = some h')
    (hsaid : s.utters? h.surroundings m = some (.control (.authSuccess u)))
    (hperiod : max h.settings.pingPeriod Outbound.minPeriod = period)
    (hw : 0 < h.settings.pongWait) : ∃ line c inbound outbound,
      Keeping i h.now period h.settings.pongWait [] h' line c inbound outbound := by
  obtain ⟨d, ⟨line, phase⟩, hmove, hget, rfl⟩ := moved_of_act hm hi hact
  obtain ⟨c, hc⟩ := Session.connected_of_greeting hsaid hmove
  obtain rfl : phase = Admission.connected h.surroundings c := hc
  have hnext : h.surroundings.now + max h.surroundings.settings.pingPeriod Outbound.minPeriod =
      h.now + period := by
    rw [← hperiod]
    rfl
  refine ⟨line, c, _, _, hget, ?_, ?_, nofun, rfl⟩
  · refine ⟨hperiod, ?_, ?_, ?_⟩
    · rw [hnext]
      show h.now + period = h.now + (0 + 1) * period
      rw [Nat.zero_add, Nat.one_mul]
    · rw [hnext]
      exact Nat.le_add_right _ _
    · rw [hnext]
      exact Nat.le_refl _
  · refine ⟨Nat.lt_add_of_pos_right hw, .inl ?_⟩
    rw [hnext]
    exact Nat.le_of_eq (Nat.add_right_comm _ _ _)

theorem Run.keeping (hr : Run start (before ++ t :: after) h) (hs : start.Fresh)
    (hg : t.utters? i = some (.control (.authSuccess u)))
    (hperiod : max start.settings.pingPeriod Outbound.minPeriod = period)
    (hw : period < start.settings.pongWait) (hat : Attended i after) : ∃ line c inbound outbound,
      Keeping i t.before.now period start.settings.pongWait after h line c inbound outbound := by
  have hp : 0 < period :=
    hperiod ▸ Nat.lt_of_lt_of_le Nat.one_pos (Nat.le_max_right _ Outbound.minPeriod)
  have hgreeted : ∃ line c inbound outbound,
      Keeping i t.before.now period start.settings.pongWait [] t.after line c inbound outbound := by
    obtain ⟨hbefore, hact⟩ := hr.split
    obtain ⟨⟨s, m⟩, ho, hsaid⟩ := Option.bind_eq_some_iff.mp hg
    obtain ⟨ha, hm, hi⟩ := own?_eq_some.mp ho
    rw [ha] at hact
    rw [← (hbefore.fixed hs).1] at hperiod hw ⊢
    exact keeping_greeted hm hi hact hsaid hperiod (Nat.lt_trans hp hw)
  refine hr.onward (P := fun first h => ∃ line c inbound outbound,
    Keeping i t.before.now period start.settings.pongWait first h line c inbound outbound) hgreeted ?_
  rintro first v rest heq hrun hact ⟨line, c, inbound, outbound, hk⟩
  have hl := hrun.ledger hs
  have hc := hl.lookup_eq_some.mp (hl.fits i _ hk.session)
  obtain ⟨line', inbound', outbound', hk'⟩ := hk.turn hp hw ((hrun.fixed hs).1 ▸ rfl)
    (acts_of_act hl.running hact) hact (hl.lt_length hc) (hat.attends heq)
  exact ⟨line', c, inbound', outbound', hk'⟩

/-- A session whose client answers, when `ms` have happened since it was greeted: the client is not
taken for dead, and is pinged once in every period. -/
structure Alive (i began period : Nat) (ms : List Moment) (h : Hub) : Prop where
  admitted : ∃ line c inbound outbound, h.sessions[i]? = some ⟨line, .admitted c inbound outbound⟩ ∧
    inbound ≠ .leaving .livenessTimeout ∧ inbound ≠ .ended .livenessTimeout ∧
    (∀ deadline, inbound.deadline? = some deadline → h.now < deadline) ∧
    (outbound.keepalive? ≠ none → began + (pings ms i).length * period ≤ h.now ∧
      h.now ≤ began + ((pings ms i).length + 1) * period)
  punctual : pings ms i = (List.range (pings ms i).length).map fun n => began + (n + 1) * period

theorem Keeping.alive {began wait : Nat} {ms : List Moment} {line : Line} {c : Handle}
    {inbound : Inbound} {outbound : Outbound}
    (hk : Keeping i began period wait ms h line c inbound outbound) :
    Alive i began period ms h where
  admitted := by
    have hsafe := hk.safe
    have hbeats := hk.beats
    refine ⟨line, c, inbound, outbound, hk.session, ?_, ?_, ?_, ?_⟩
    · rintro rfl
      exact hsafe rfl
    · rintro rfl
      exact hsafe rfl
    · intro deadline hd
      cases inbound with
      | running t followed =>
        cases hd
        exact hsafe.1
      | _ => cases hd
    · intro hruns
      have hmul : ((pings ms i).length + 1) * period = (pings ms i).length * period + period :=
        Nat.succ_mul _ _
      cases outbound with
      | idle k =>
        obtain ⟨-, hnext, hle, hahead⟩ := hbeats
        omega
      | writing f keeping deadline k =>
        cases keeping with
        | false =>
          obtain ⟨-, hnext, hle, hahead⟩ := hbeats
          omega
        | true =>
          obtain ⟨-, -, hnow, -⟩ := hbeats
          omega
      | _ => exact absurd rfl hruns
  punctual := hk.punctual

/-- A client of a hub with an accepted configuration that answers every ping before the clock moves on
is never taken for dead, whatever else happens. -/
theorem Run.keepsAlive {c : Config} {clock : UInt64} (hc : c.validate = .ok ())
    (hof : ofConfig c clock = .ok start) (hr : Run start (before ++ t :: after) h)
    (hg : t.utters? i = some (.control (.authSuccess u))) (hat : Attended i after) :
    Alive i t.before.now (1000 * c.connection.pingPeriodSecs) after h := by
  have hv := Config.validate_eq_ok.mp hc
  obtain ⟨verifier, channels, rfl⟩ := eq_start_of_ofConfig hof
  have hping := hv.pingPeriodSecs_pos
  have hpong := hv.pingPeriod
  have hperiod : max c.connectionSettings.pingPeriod Outbound.minPeriod =
      1000 * c.connection.pingPeriodSecs :=
    Nat.max_eq_left (show 1 ≤ 1000 * c.connection.pingPeriodSecs by omega)
  have hwait : 1000 * c.connection.pingPeriodSecs < c.connectionSettings.pongWait :=
    Nat.mul_lt_mul_of_pos_left hpong (by decide)
  obtain ⟨line, d, inbound, outbound, hk⟩ := hr.keeping ⟨_, _, _, _, _, rfl⟩ hg hperiod hwait hat
  exact hk.alive

end

def lively : Config := { connection := { pingPeriodSecs := 1, pongWaitSecs := 2 } }

theorem lively_builds : (ofConfig lively 0).toOption.isSome = true := by decide +kernel

def livelyHub : Hub := (ofConfig lively 0).toOption.get lively_builds

def arrival : List Action :=
  [.register known ⟨.pipe (.create 4), {}⟩, .move (.admission 0), .move .serve, .move (.admission 0)]

theorem arrival_runs : (livelyHub.trace arrival).isSome = true := by decide +kernel

def arrived : List Moment × Hub := (livelyHub.trace arrival).get arrival_runs

theorem greeting_acts : (arrived.2.act (.move (.admission 0))).isSome = true := by decide +kernel

def welcomed : Hub := (arrived.2.act (.move (.admission 0))).get greeting_acts

/-- A second goes by, the client is pinged, reads and answers. -/
def heartbeat : List Action :=
  [.pass 1000 0, .move (.outbound 0), .move (.outbound 0), .client 0 .read, .client 0 .read,
    .client 0 (.send (.pong [])), .move (.inbound 0)]

theorem heartbeats_run : (welcomed.trace (heartbeat ++ heartbeat ++ heartbeat)).isSome = true := by
  decide +kernel

def attended : List Moment × Hub :=
  (welcomed.trace (heartbeat ++ heartbeat ++ heartbeat)).get heartbeats_run

/-- The client is alive, though it would have been taken for dead if it had not answered. -/
theorem attended_keepsAlive :
    Alive 0 0 1000 attended.1 attended.2 ∧ pings attended.1 0 = [1000, 2000, 3000] ∧
      lively.connectionSettings.pongWait < attended.2.now := by
  have hof : ofConfig lively 0 = .ok livelyHub :=
    toOption_eq_some.mp (Option.some_get lively_builds).symm
  have harrived : Run livelyHub arrived.1 arrived.2 := run_trace (Option.some_get arrival_runs).symm
  have hwelcomed := harrived.snoc (Option.some_get greeting_acts).symm
  have htrace : welcomed.trace (heartbeat ++ heartbeat ++ heartbeat) =
      some (attended.1, attended.2) := (Option.some_get heartbeats_run).symm
  have hr := run_append_trace hwelcomed htrace
  rw [List.append_assoc] at hr
  have hnow : arrived.2.now = 0 := by decide +kernel
  have hgreets : Moment.utters? ⟨arrived.2, .move (.admission 0), welcomed⟩ 0 =
      some (.control (.authSuccess known)) := by decide +kernel
  have hattended : Attended 0 attended.1 := by decide +kernel
  have halive := Run.keepsAlive (by decide +kernel) hof hr hgreets hattended
  rw [hnow] at halive
  exact ⟨halive, by decide +kernel, by decide +kernel⟩

end Hub

end PushHub
