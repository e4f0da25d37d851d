import PushHub.Proofs.Hub.Advance

/-! The parts of a hub come to rest. Every move takes something away from what is left to do, whichever
part makes it, so only so many of them follow one another without the clock or new input. -/
namespace PushHub

open Registry (Handle Service Ticker Mailroom Membership Queued)

/-! ## What is left to do -/

def total {α : Type} (f : α → Nat) : List α → Nat
  | [] => 0
  | a :: l => f a + total f l

theorem total_set {α : Type} (f : α → Nat) {l : List α} {i : Nat} {a : α} (hi : l[i]? = some a)
    (b : α) : total f (l.set i b) + f a = total f l + f b := by
  induction l generalizing i with
  | nil => cases hi
  | cons c l ih =>
    cases i with
    | zero =>
      cases hi
      simp only [List.set_cons_zero, total]
      omega
    | succ i =>
      have := ih hi
      simp only [List.set_cons_succ, total]
      omega

theorem total_append {α : Type} (f : α → Nat) (l more : List α) :
    total f (l ++ more) = total f l + total f more := by
  induction l with
  | nil => exact (Nat.zero_add _).symm
  | cons a l ih =>
    simp only [List.cons_append, total]
    omega

def Registry.Mailroom.frames (room : Mailroom) : Nat := total (fun e => e.mailbox.size) room

/-- How late the next tick is, if it is due; not at all otherwise. -/
def Registry.Ticker.lateness (k : Ticker) (now : Nat) : Nat := now + 1 - k.next

/-- What a service has left to do, where every command that is queued costs `price`. -/
def Registry.Service.load (price : Nat) (v : Service) : Nat :=
  price * v.queue.length + 2 * v.members.room.frames

def Registry.Service.lateness (v : Service) (now : Nat) : Nat :=
  (v.sweeper.map fun t => t.lateness now).getD 0

def Inbound.load (price : Nat) : Inbound → Nat
  | .running _ _ => price + 2
  | .leaving _ => price + 1
  | .ended _ => 0
  | .absent => 0

def Outbound.load (now : Nat) : Outbound → Nat
  | .idle k => 2 + 2 * k.lateness now
  | .writing _ _ _ k => 3 + 2 * k.lateness now
  | .closing _ => 1
  | .ended _ => 0
  | .absent => 0

/-- A phase has more left to do than the phases that it leads to and the commands that it queues. -/
def Phase.load (price now : Nat) : Phase → Nat
  | .prompting _ => 2 * price + 9
  | .awaiting _ => 2 * price + 8
  | .rejecting _ _ _ => 1
  | .registering _ false => 2 * price + 7
  | .registering _ true => price + 6
  | .greeting _ _ => price + 5
  | .withdrawing _ _ => price + 1
  | .admitted _ inbound outbound => inbound.load price + outbound.load now
  | .refused _ => 0

/-- A frame that is yet to be read may lead to three reactions. -/
def Session.load (price now : Nat) (s : Session) : Nat :=
  7 * s.line.wire.unread + s.phase.load price now

namespace Hub

/-- More than handling one command can add elsewhere: a frame for every session. -/
def price (h : Hub) : Nat := 2 * h.sessions.length + 1

def load (h : Hub) : Nat :=
  h.service.load h.price + (h.price + 1) * h.service.lateness h.now +
    total (fun s => s.load h.price h.now) h.sessions

end Hub

/-! ## Frames -/

namespace Registry.Mailroom

theorem frames_update (room : Mailroom) {n : Nat} (f : Registry.Endpoint → Registry.Endpoint)
    (hn : n < room.length) :
    (room.update n f).frames + (room.mailbox n).size = room.frames + (f (room.get n)).mailbox.size := by
  have hget : room[n]? = some (room.get n) := by simp [get, List.getElem?_eq_getElem hn]
  have hset : room.update n f = room.set n (f (room.get n)) := by
    simp [update, List.modify_eq_set_getElem?, hget]
  rw [hset]
  exact total_set (fun e => e.mailbox.size) hget _

theorem frames_setMailbox (room : Mailroom) {n : Nat} (m : Mailbox) (hn : n < room.length) :
    (room.setMailbox n m).frames + (room.mailbox n).size = room.frames + m.size :=
  room.frames_update (fun e => { e with mailbox := m }) hn

theorem frames_update_le (room : Mailroom) (n : Nat) {f : Registry.Endpoint → Registry.Endpoint}
    {k : Nat} (hf : ∀ e, (f e).mailbox.size ≤ e.mailbox.size + k) :
    (room.update n f).frames ≤ room.frames + k := by
  by_cases hn : n < room.length
  · have hframes := room.frames_update f hn
    have hsize := hf (room.get n)
    change _ ≤ (room.mailbox n).size + k at hsize
    omega
  · have hsame : room.update n f = room := List.modify_eq_self (Nat.le_of_not_lt hn)
    rw [hsame]
    exact Nat.le_add_right _ _

theorem frames_close (room : Mailroom) (n : Nat) : (room.close n).frames ≤ room.frames :=
  room.frames_update_le n (k := 0) fun _ => Nat.le_refl _

theorem frames_abandon (room : Mailroom) (n : Nat) : (room.abandon n).frames ≤ room.frames :=
  room.frames_update_le n (k := 0) fun _ => Nat.zero_le _

theorem frames_publish (room : Mailroom) (n : Nat) (s : SubscriptionSet) :
    (room.publish n s).frames ≤ room.frames :=
  room.frames_update_le n (k := 0) fun _ => Nat.le_refl _

theorem frames_closeAll (room : Mailroom) (hs : List Handle) :
    (hs.foldl (fun room h => room.close h.endpoint) room).frames ≤ room.frames := by
  induction hs generalizing room with
  | nil => exact Nat.le_refl _
  | cons h hs ih => exact (ih _).trans (room.frames_close h.endpoint)

theorem frames_deliver (room : Mailroom) (n : Nat) (f : Frame) :
    (room.deliver n f).1.frames ≤ room.frames + 1 := by
  have hsize : ((room.mailbox n).deliver f).1.size ≤ (room.mailbox n).size + 1 := by
    unfold Mailbox.size
    rw [Mailbox.queue_deliver]
    split <;> simp
  by_cases hn : n < room.length
  · have hframes := room.frames_setMailbox ((room.mailbox n).deliver f).1 hn
    change (room.deliver n f).1.frames + _ = _ at hframes
    omega
  · have hsame : (room.deliver n f).1 = room := List.modify_eq_self (Nat.le_of_not_lt hn)
    rw [hsame]
    exact Nat.le_add_right _ _

end Registry.Mailroom

namespace Registry.Membership

theorem frames_offerAll (r : DispatchRequest) (f : Frame) (m : Membership) (hs : List Handle) :
    (m.offerAll r f hs).state.room.frames ≤ m.room.frames + hs.length := by
  induction hs generalizing m with
  | nil => exact Nat.le_refl _
  | cons h hs ih =>
    have hoffer : (m.offer r f h).state.room.frames ≤ m.room.frames + 1 := by
      rw [offer_eq]
      dsimp only
      split
      · refine m.room.frames_update_le h.endpoint fun e => ?_
        simp [Registry.Endpoint.push, Mailbox.size]
      · exact Nat.le_add_right _ _
    have hrest := ih (m.offer r f h).state
    change ((m.offer r f h).state.offerAll r f hs).state.room.frames ≤ _
    rw [List.length_cons]
    omega

theorem length_recipients_le (m : Membership) (t : Target) :
    (m.recipients t).length ≤ m.entries.length := by
  cases t with
  | all => exact Nat.le_refl _
  | user u =>
    show (m.find? u).toList.length ≤ m.entries.length
    cases hf : m.find? u with
    | none => exact Nat.zero_le _
    | some c => exact List.length_pos_of_mem (mem_of_find? hf)

theorem frames_handle (m : Membership) (c : Registry.Command) :
    (m.handle c).state.room.frames ≤ m.room.frames + m.entries.length := by
  have hclose (n : Nat) : (m.room.close n).frames ≤ m.room.frames + m.entries.length :=
    (m.room.frames_close n).trans (Nat.le_add_right _ _)
  have ho := m.handles_handle c
  generalize m.handle c = o at ho ⊢
  cases ho with
  | late h hs => exact hclose _
  | again h current hs hf hid => exact Nat.le_add_right _ _
  | superseded h current hs hf hid => exact hclose _
  | full h hs hf hm => exact Nat.le_add_right _ _
  | admitted h hs hf hm => exact Nat.le_add_right _ _
  | removed h current hf hid => exact hclose _
  | stale h hf => exact hclose _
  | dispatched r =>
    rw [dispatch_eq]
    have hoffer := frames_offerAll r (frameOf r) m.counted (m.recipients r.target)
    exact hoffer.trans (Nat.add_le_add_left (m.length_recipients_le r.target) _)
  | counted => exact Nat.le_add_right _ _
  | looked u => exact Nat.le_add_right _ _
  | swept => exact Nat.le_add_right _ _
  | ended => exact (m.room.frames_closeAll m.entries).trans (Nat.le_add_right _ _)

end Registry.Membership

/-! ## What the registry has left -/

theorem Registry.Ticker.lateness_advance {k : Ticker} {now : Nat} (hp : 0 < k.period)
    (hdue : k.next ≤ now) : (k.advance now).lateness now < k.lateness now := by
  unfold lateness
  show now + 1 - (if k.next + tolerance < now then now + k.period else k.next + k.period) < _
  split <;> omega

theorem Registry.Ticker.lateness_of_start {period now : Nat} (hp : 0 < period) :
    Ticker.lateness ⟨period, now + period⟩ now = 0 :=
  Nat.sub_eq_zero_of_le (Nat.add_le_add_left hp now)

namespace Registry.Service

variable (v : Service) (price : Nat)

theorem load_enqueue (c : Registry.Command) (t : Option Nat) :
    (v.enqueue c t).load price = v.load price + price := by
  simp only [load, enqueue, List.length_append, List.length_singleton, Nat.mul_succ]
  omega

theorem load_withRoom {f : Mailroom → Mailroom} {k : Nat}
    (hf : (f v.members.room).frames ≤ v.members.room.frames + k) :
    (v.withRoom f).load price ≤ v.load price + 2 * k := by
  simp only [load, withRoom]
  omega

theorem load_close (n : Nat) : (v.withRoom fun room => room.close n).load price ≤ v.load price :=
  v.load_withRoom price (k := 0) (v.members.room.frames_close n)

theorem load_abandon (n : Nat) :
    (v.withRoom fun room => room.abandon n).load price ≤ v.load price :=
  v.load_withRoom price (k := 0) (v.members.room.frames_abandon n)

theorem load_addEndpoint (capacity : Nat) :
    (v.addEndpoint capacity).1.load price = v.load price := by
  simp [load, addEndpoint, Mailroom.frames, total_append, total, Mailbox.create, Mailbox.size]

theorem load_take {n : Nat} {m : Mailbox} (hm : m.size < (v.members.room.mailbox n).size) :
    (v.withRoom fun room => room.setMailbox n m).load price + 2 ≤ v.load price := by
  have hn : n < v.members.room.length := by
    refine Nat.lt_of_not_le fun hle => ?_
    rw [Mailroom.mailbox, Mailroom.get_of_length_le hle] at hm
    exact Nat.not_lt_zero _ hm
  have hframes := v.members.room.frames_setMailbox m hn
  simp only [load, withRoom]
  omega

variable {v}

theorem load_serve {q : Queued} {rest : List Queued} (hq : v.queue = q :: rest)
    (hprice : 2 * v.members.entries.length < price) : v.serve.load price < v.load price := by
  have hframes := v.members.frames_handle q.command
  unfold load
  rw [members_serve hq, queue_serve hq, hq, List.length_cons, Nat.mul_succ]
  omega

theorem lateness_serve (v : Service) (now : Nat) : v.serve.lateness now = v.lateness now := by
  unfold lateness serve
  split <;> rfl

theorem load_sweep {now : Nat} (hv : v.running = true) (hdue : v.sweepDue now = true)
    (hp : ∀ t, v.sweeper = some t → 0 < t.period) :
    (v.sweep now).load price + (price + 1) * (v.sweep now).lateness now <
      v.load price + (price + 1) * v.lateness now := by
  cases hk : v.sweeper with
  | none => simp [sweepDue, hk] at hdue
  | some k =>
    simp only [sweepDue, hk, Bool.and_eq_true] at hdue
    have hless := Ticker.lateness_advance (hp k hk) (of_decide_eq_true hdue.1)
    have hqueued := v.load_enqueue price .sweep none
    have hsweep : v.sweep now = { v.enqueue .sweep none with sweeper := some (k.advance now) } := by
      simp [sweep, hv, hk]
    have hlate : v.lateness now = k.lateness now := by simp [lateness, hk]
    rw [hsweep, hlate]
    show (v.enqueue .sweep none).load price + (price + 1) * (k.advance now).lateness now < _
    have hscaled := Nat.mul_le_mul_left (price + 1) hless
    rw [Nat.mul_succ] at hscaled
    omega

end Registry.Service

/-! ## Steps of the loops -/

namespace Inbound

theorem length_handleFrame_le (e : Surroundings) (followed : SubscriptionSet) (f : Frame) :
    (handleFrame e followed f).2.length ≤ 3 := by
  have hreact (c : ClientFrame) : (react e.stamp followed c).2.length ≤ 3 := by
    cases c with
    | subscribe names =>
      simp only [react]
      split <;> simp
    | _ => simp [react]
  cases f with
  | text t =>
    simp only [handleFrame]
    split
    · exact hreact _
    · exact Nat.zero_le _
  | _ => exact Nat.zero_le _

theorem frames_perform (reactions : List Reaction) (room : Mailroom) (n : Nat) :
    Mailroom.frames (reactions.foldl (perform n) room) ≤ room.frames + reactions.length := by
  induction reactions generalizing room with
  | nil => exact Nat.le_refl _
  | cons r rest ih =>
    have hone : (perform n room r).frames ≤ room.frames + 1 := by
      cases r with
      | publish s => exact (room.frames_publish n s).trans (Nat.le_succ _)
      | reply f => exact room.frames_deliver n f.frame
    have hrest := ih (perform n room r)
    rw [List.foldl_cons, List.length_cons]
    omega

end Inbound

section

variable {e : Surroundings} {c : Handle} {line line' : Line} {v v' : Service} (price : Nat)

theorem Inbound.load_lt {inbound inbound' : Inbound} (hv : v.running = true)
    (hs : inbound.step e c line v = some (line', v', inbound')) :
    v'.load price + 7 * line'.wire.unread + inbound'.load price <
      v.load price + 7 * line.wire.unread + inbound.load price := by
  cases inbound with
  | running deadline followed =>
    have hu := line.unread_receive_le
    have hless (f : Frame) := line.unread_of_received (f := f)
    simp only [step] at hs
    split at hs
    · cases hs
      simp only [load]
      omega
    · generalize line.receive = o at hs hu hless
      obtain ⟨line₁, r⟩ := o
      dsimp only at hu hless
      cases r with
      | frame f =>
        -- A frame that is read was counted for more than the reactions to it can add.
        have hheard := hless f rfl
        have hframes := frames_perform (handleFrame e followed f).2 v.members.room c.endpoint
        have hreacted := v.load_withRoom price
          (f := fun room => (handleFrame e followed f).2.foldl (perform c.endpoint) room)
          (hframes.trans (Nat.add_le_add_left (length_handleFrame_le e followed f) _))
        cases f with
        | close =>
          cases hs
          simp only [load]
          omega
        | _ =>
          cases hs
          simp only [load]
          omega
      | failed err =>
        cases hs
        simp only [load]
        omega
      | waiting =>
        dsimp only at hs
        split at hs
        · cases hs
          simp only [load]
          omega
        · cases hs
  | leaving exit =>
    have hu := line.unread_dropSource_le
    have hclosed := (v.enqueue (.unregister c) none).load_close price c.endpoint
    have hqueued := v.load_enqueue price (.unregister c) none
    simp only [step, hv, Bool.true_and, if_true] at hs
    split at hs
    · cases hs
    · cases hs
      simp only [load]
      omega
  | ended exit => cases hs
  | absent => cases hs

theorem Outbound.load_lt_of_keepAlive {outbound outbound' : Outbound}
    (hk : ∀ k, outbound.keepalive? = some k → 0 < k.period)
    (hs : outbound.keepAlive e line v = some (line', v', outbound')) :
    v'.load price + 7 * line'.wire.unread + outbound'.load e.now <
      v.load price + 7 * line.wire.unread + outbound.load e.now := by
  cases outbound with
  | idle k =>
    simp only [keepAlive] at hs
    split at hs
    · rename_i hdue
      have hless := Ticker.lateness_advance (hk k rfl) (of_decide_eq_true hdue)
      cases hs
      simp only [load]
      omega
    · cases hs
  | _ => cases hs

theorem Outbound.load_lt {outbound outbound' : Outbound}
    (hk : ∀ k, outbound.keepalive? = some k → 0 < k.period)
    (hs : outbound.step e c line v = some (line', v', outbound')) :
    v'.load price + 7 * line'.wire.unread + outbound'.load e.now <
      v.load price + 7 * line.wire.unread + outbound.load e.now := by
  have hu := Wire.unread_congr (frames_of_step hs)
  have hclosed := v.load_close price c.endpoint
  cases outbound with
  | idle k =>
    simp only [step, Mailbox.take] at hs
    cases hsig : (v.members.room.mailbox c.endpoint).signalled with
    | true =>
      rw [if_pos hsig] at hs
      cases hs
      simp only [load]
      omega
    | false =>
      rw [if_neg (by simp [hsig])] at hs
      cases hq : (v.members.room.mailbox c.endpoint).queue with
      | nil =>
        rw [hq] at hs
        exact load_lt_of_keepAlive price hk hs
      | cons f rest =>
        rw [hq] at hs
        cases hs
        have htaken := v.load_take price (n := c.endpoint)
          (m := { v.members.room.mailbox c.endpoint with queue := rest })
          (by simp [Mailbox.size, hq])
        dsimp only at htaken
        simp only [load]
        omega
  | writing f keeping deadline k =>
    simp only [step] at hs
    split at hs
    · cases hs
      simp only [load]
      omega
    · cases hs
      simp only [load]
      omega
    · split at hs <;> cases hs
      simp only [load]
      omega
  | closing exit =>
    have habandoned := v.load_abandon price c.endpoint
    cases hs
    simp only [load]
    omega
  | ended exit => cases hs
  | absent => cases hs

end

/-! ## Steps of a session -/

namespace Session

variable {e : Surroundings} {i price : Nat} {d d' : Desk} {s s' : Session} {m : Move}

theorem load_mk (price now : Nat) (line : Line) (p : Phase) :
    load price now ⟨line, p⟩ = 7 * line.wire.unread + p.load price now := rfl

theorem load_lt_of_admission (hv : d.service.running = true)
    (hs : Admission.step e i d s = some (d', s')) :
    d'.service.load price + s'.load price e.now < d.service.load price + s.load price e.now := by
  obtain ⟨hsteps, hu⟩ := Admission.steps_of_step hs
  obtain ⟨v, n⟩ := d
  obtain ⟨v', n'⟩ := d'
  rcases works_of_admission hv hs with ⟨hw, -⟩ | ⟨line, line', deadline, u, rfl, heq, -⟩
  · dsimp only at hw hsteps hu ⊢
    cases hw with
    | ignored line line' deadline =>
      cases hsteps with
      | ignored _ hless =>
        dsimp only at hless
        simp only [load_mk, Phase.load]
        omega
    | asked line c =>
      have hqueued := v.load_enqueue price (.register c) (some i)
      simp only [load_mk, Phase.load]
      omega
    | granted line c =>
      show v.load price + _ < _
      simp only [load_mk, Phase.load]
      omega
    | denied line c =>
      show v.load price + _ < _
      simp only [load_mk, Phase.load]
      omega
    | released line line' why deadline n =>
      have habandoned := v.load_abandon price n
      dsimp only at hu
      simp only [load_mk, Phase.load]
      omega
    | greeted line line' c deadline deadline' followed k =>
      cases hsteps with
      | greeted =>
        dsimp only at hu
        -- The ticker starts now, and so is not late.
        have hlate : Ticker.lateness ⟨max e.settings.pingPeriod Outbound.minPeriod,
            e.now + max e.settings.pingPeriod Outbound.minPeriod⟩ e.now = 0 :=
          Ticker.lateness_of_start (Nat.lt_of_lt_of_le (show 0 < Outbound.minPeriod by decide)
            (Nat.le_max_right e.settings.pingPeriod Outbound.minPeriod))
        simp only [load_mk, Phase.load, Inbound.load, Outbound.load, hlate]
        omega
    | withdrawn line line' c err =>
      have hqueued := v.load_enqueue price (.unregister c) none
      have habandoned := (v.enqueue (.unregister c) none).load_abandon price c.endpoint
      dsimp only at hu
      simp only [load_mk, Phase.load]
      omega
    | pinging line c inbound k k' f deadline m hm => rcases hm with hm | hm <;> cases hm
    | _ =>
      dsimp only at hu
      simp only [load_mk, Phase.load]
      omega
  · cases heq
    show (v.addEndpoint e.settings.mailboxCapacity).1.load price + _ < _
    rw [v.load_addEndpoint]
    simp only [load_mk, Phase.load, Admission.assign]
    dsimp only at hu
    omega

/-- Every move of a part of a session leaves less to do than there was before. -/
theorem load_lt_of_move (hv : d.service.running = true)
    (hk : ∀ c inbound outbound k, s.phase = .admitted c inbound outbound →
      outbound.keepalive? = some k → 0 < k.period)
    (hs : s.move e d m = some (d', s')) :
    d'.service.load price + s'.load price e.now < d.service.load price + s.load price e.now := by
  obtain ⟨line, phase⟩ := s
  cases m with
  | serve => cases hs
  | sweep => cases hs
  | admission j => exact load_lt_of_admission hv hs
  | inbound j =>
    cases phase with
    | admitted c inbound outbound =>
      obtain ⟨⟨line', v, inbound'⟩, hstep, heq⟩ := Option.map_eq_some_iff.mp hs
      cases heq
      have hless := Inbound.load_lt price hv hstep
      dsimp only at hless
      simp only [load_mk, Phase.load]
      omega
    | _ => cases hs
  | outbound j =>
    cases phase with
    | admitted c inbound outbound =>
      obtain ⟨⟨line', v, outbound'⟩, hstep, heq⟩ := Option.map_eq_some_iff.mp hs
      cases heq
      have hless := Outbound.load_lt price (hk c inbound outbound · rfl) hstep
      dsimp only at hless
      simp only [load_mk, Phase.load]
      omega
    | _ => cases hs
  | keepalive j =>
    cases phase with
    | admitted c inbound outbound =>
      obtain ⟨⟨line', v, outbound'⟩, hstep, heq⟩ := Option.map_eq_some_iff.mp hs
      cases heq
      have hless := Outbound.load_lt_of_keepAlive price (hk c inbound outbound · rfl) hstep
      dsimp only at hless
      simp only [load_mk, Phase.load]
      omega
    | _ => cases hs

theorem Works.sweeper {v v' : Service} (hw : s.Works i v m v' s') : v'.sweeper = v.sweeper := by
  cases hw <;> rfl

end Session

/-! ## Steps of a hub -/

theorem Ledger.length_entries_le {conns : List (Nat × Handle)} {h : Hub} (hl : Ledger conns h) :
    h.service.members.entries.length ≤ h.sessions.length := by
  have hentries : h.service.members.entries.length ≤ (conns.map Prod.snd).length := by
    refine (List.subperm_of_subset (List.Nodup.of_map _ hl.keyed) fun c hc => ?_).length_le
    obtain ⟨i, hi⟩ := hl.listed c hc
    exact List.mem_map_of_mem hi
  have hconns : (conns.map Prod.fst).length ≤ (List.range h.sessions.length).length := by
    refine (List.subperm_of_subset hl.single fun i hi => ?_).length_le
    obtain ⟨⟨j, c⟩, hc, rfl⟩ := List.mem_map.mp hi
    exact List.mem_range.mpr (hl.held j c hc)
  rw [List.length_map] at hentries hconns
  rw [List.length_range] at hconns
  exact hentries.trans hconns

namespace Hub

variable {start h h' last : Hub} {ms more : List Moment} {a : Action} {m : Move}

theorem Acts.sweeper (ha : h.Acts a h') (hne : a ≠ .move .sweep) :
    h'.service.sweeper = h.service.sweeper := by
  cases ha with
  | served q rest hq =>
    show h.service.serve.sweeper = h.service.sweeper
    unfold Service.serve
    rw [hq]
  | swept t => exact absurd rfl hne
  | worked i m s s' v hs hw => exact hw.sweeper
  | _ => rfl

theorem Run.sweeper_period (hr : Run start ms h) (hs : start.Fresh) {t : Ticker}
    (ht : h.service.sweeper = some t) : 0 < t.period := by
  induction hr generalizing t with
  | nil =>
    obtain ⟨settings, registry, verifier, channels, clock, rfl⟩ := hs
    cases ht
    exact Nat.le_max_right _ 1
  | @snoc ms h h' a hr ha ih =>
    have hv := (hr.ledger hs).running
    by_cases hne : a = .move .sweep
    · subst hne
      simp only [act, move] at ha
      split at ha
      · cases ha
        cases hold : h.service.sweeper with
        | none => simp [Service.sweep, hv, hold] at ht
        | some k =>
          simp only [Service.sweep, hv, hold, Bool.not_true, Bool.false_eq_true, if_false] at ht
          cases ht
          exact ih (t := k) hold
      · cases ha
    · exact ih ((acts_of_act hv ha).sweeper hne ▸ ht)

theorem price_of_move (hv : h.service.running = true) (hm : h.move m = some h') :
    h'.price = h.price := by
  unfold price
  rw [(acts_of_move hv hm).length_sessions]
  rfl

theorem sweeper_of_part {i : Nat} {s s' : Session} {d : Desk} (hv : h.service.running = true)
    (hpart : m.session? = some i) (hi : h.sessions[i]? = some s)
    (hmove : s.move h.surroundings h.desk m = some (d, s')) :
    d.service.sweeper = h.service.sweeper := by
  have hm := (move_eq_some hpart).mpr ⟨s, d, s', hi, hmove, rfl⟩
  refine (acts_of_move hv hm).sweeper fun heq => ?_
  cases heq
  cases hpart

theorem Run.load_lt_of_part (hr : Run start ms h) (hs : start.Fresh) {i : Nat}
    (hpart : m.session? = some i) (hm : h.move m = some h') : h'.load < h.load := by
  have hv := (hr.ledger hs).running
  have hprice := price_of_move hv hm
  obtain ⟨s, d, s', hi, hmove, rfl⟩ := (move_eq_some hpart).mp hm
  have hperiod (c inbound outbound k) (hp : s.phase = .admitted c inbound outbound)
      (hk : outbound.keepalive? = some k) : 0 < k.period := by
    have hperiod := ((hr.timed hs hi).keepalive c inbound outbound k hp hk).1
    have hpos := Nat.le_max_right start.settings.pingPeriod Outbound.minPeriod
    exact Nat.lt_of_lt_of_le Nat.one_pos (hperiod ▸ hpos)
  have hless : d.service.load h.price + s'.load h.price h.now <
      h.service.load h.price + s.load h.price h.now :=
    Session.load_lt_of_move (e := h.surroundings) (d := h.desk) hv hperiod hmove
  have hsum := total_set (fun s : Session => s.load h.price h.now) hi s'
  have hlate : d.service.lateness h.now = h.service.lateness h.now := by
    unfold Service.lateness
    rw [sweeper_of_part hv hpart hi hmove]
  unfold load
  rw [hprice]
  show d.service.load h.price + (h.price + 1) * d.service.lateness h.now +
    total (fun s => s.load h.price h.now) (h.sessions.set i s') < _
  rw [hlate]
  omega

theorem Run.load_lt_of_serve (hr : Run start ms h) (hs : start.Fresh)
    (hm : h.move .serve = some h') : h'.load < h.load := by
  have hl := hr.ledger hs
  have hprice := price_of_move hl.running hm
  have hentries := hl.length_entries_le
  unfold load
  rw [hprice]
  simp only [move] at hm
  cases hq : h.service.queue with
  | nil => simp [hq] at hm
  | cons q rest =>
    simp only [hq, List.isEmpty_cons, Bool.false_eq_true, if_false] at hm
    cases hm
    have hless := Service.load_serve h.price hq (Nat.lt_succ_of_le (by omega))
    show h.service.serve.load h.price + (h.price + 1) * h.service.serve.lateness h.now + _ < _
    rw [Service.lateness_serve]
    exact Nat.add_lt_add_right (Nat.add_lt_add_right hless _) _

theorem Run.load_lt_of_sweep (hr : Run start ms h) (hs : start.Fresh)
    (hm : h.move .sweep = some h') : h'.load < h.load := by
  have hv := (hr.ledger hs).running
  have hprice := price_of_move hv hm
  unfold load
  rw [hprice]
  simp only [move] at hm
  split at hm
  · rename_i hdue
    cases hm
    exact Nat.add_lt_add_right
      (Service.load_sweep h.price hv hdue fun t ht => hr.sweeper_period hs ht) _
  · cases hm

theorem Run.load_lt (hr : Run start ms h) (hs : start.Fresh) (hm : h.move m = some h') :
    h'.load < h.load := by
  cases m with
  | serve => exact hr.load_lt_of_serve hs hm
  | sweep => exact hr.load_lt_of_sweep hs hm
  | admission i => exact hr.load_lt_of_part hs (i := i) rfl hm
  | inbound i => exact hr.load_lt_of_part hs (i := i) rfl hm
  | outbound i => exact hr.load_lt_of_part hs (i := i) rfl hm
  | keepalive i => exact hr.load_lt_of_part hs (i := i) rfl hm

/-! ## The parts by themselves -/

/-- Only parts of the hub move: nobody acts on it, and no time passes. -/
def Working (ms : List Moment) : Prop := ∀ t ∈ ms, ∃ m, t.action = .move m

theorem Run.nil_eq (hr : Run start [] h) : h = start := by
  generalize hnil : ([] : List Moment) = ms at hr
  cases hr with
  | nil => rfl
  | snoc => simp at hnil

theorem Run.unique (hr : Run start ms h) (hr' : Run start ms h') : h = h' := by
  induction ms using List.reverseRecOn with
  | nil => exact hr.nil_eq.trans hr'.nil_eq.symm
  | append_singleton ms t ih => rw [hr.last_eq, hr'.last_eq]

theorem Run.length_le_of_working (hr : Run start ms h) (hs : start.Fresh)
    (hrun : Run start (ms ++ more) last) (hw : Working more) :
    more.length + last.load ≤ h.load := by
  induction more using List.reverseRecOn generalizing last with
  | nil =>
    rw [List.append_nil] at hrun
    rw [hr.unique hrun]
    exact Nat.le_of_eq (Nat.zero_add _)
  | append_singleton more t ih =>
    rw [← List.append_assoc] at hrun
    obtain ⟨hbefore, hact⟩ := hrun.split
    obtain ⟨m, hm⟩ := hw t (List.mem_append_right _ (List.mem_singleton_self t))
    rw [hm] at hact
    have hless := hbefore.load_lt hs hact
    have hmore := ih hbefore fun u hu => hw u (List.mem_append_left _ hu)
    rw [hrun.last_eq, List.length_append, List.length_singleton]
    omega

/-- From wherever a run has led, the parts come to rest. -/
theorem Run.comesToRest (hr : Run start ms h) (hs : start.Fresh) :
    ∃ more last, Run start (ms ++ more) last ∧ Working more ∧ last.Still := by
  induction hload : h.load using Nat.strong_induction_on generalizing ms h with
  | _ n ih =>
    by_cases hstill : h.Still
    · refine ⟨[], h, ?_, fun t ht => ?_, hstill⟩
      · rw [List.append_nil]
        exact hr
      · cases ht
    · obtain ⟨m, hm⟩ := not_forall.mp hstill
      obtain ⟨h', hmove⟩ := Option.ne_none_iff_exists'.mp hm
      have hless := hr.load_lt hs hmove
      have hnext : Run start (ms ++ [⟨h, .move m, h'⟩]) h' := hr.snoc hmove
      obtain ⟨more, last, hrun, hw, hrest⟩ := ih h'.load (hload ▸ hless) hnext rfl
      refine ⟨⟨h, .move m, h'⟩ :: more, last, ?_, fun t ht => ?_, hrest⟩
      · rw [List.append_assoc] at hrun
        exact hrun
      · rcases List.mem_cons.mp ht with rfl | ht
        · exact ⟨m, rfl⟩
        · exact hw t ht

end Hub

end PushHub
