import PushHub.Mailbox
import Mathlib.Data.List.Induction

/-! What a mailbox keeps to. What comes out of it is what was let in, in that order; it never holds
more than it has room for, and once it is closed nothing goes in or comes out any more. -/
namespace PushHub

namespace Mailbox

@[simp] theorem isClosed_close (m : Mailbox) : m.close.isClosed = true := rfl

@[simp] theorem signalled_close (m : Mailbox) : m.close.signalled = true := rfl
@[simp] theorem abandoned_close (m : Mailbox) : m.close.abandoned = m.abandoned := rfl

@[simp] theorem signalled_abandon (m : Mailbox) : m.abandon.signalled = m.signalled := rfl
@[simp] theorem abandoned_abandon (m : Mailbox) : m.abandon.abandoned = true := rfl
@[simp] theorem isClosed_abandon (m : Mailbox) : m.abandon.isClosed = true := by
  simp [isClosed]

theorem refusal?_eq_none {m : Mailbox} :
    m.refusal? = none ↔ m.isClosed = false ∧ m.isFull = false := by
  unfold refusal?
  split
  · simp [*]
  · split <;> simp [*]

theorem deliver_of_refusal {m : Mailbox} {e : DeliveryError} (f : Frame)
    (h : m.refusal? = some e) : m.deliver f = (m, .error e) := by
  unfold deliver
  rw [h]

theorem deliver_of_none {m : Mailbox} (f : Frame) (h : m.refusal? = none) :
    m.deliver f = ({ m with queue := m.queue ++ [f] }, .ok ()) := by
  unfold deliver
  rw [h]

theorem deliver_of_not_ok {m : Mailbox} {f : Frame} (h : (m.deliver f).2 ≠ .ok ()) :
    (m.deliver f).1 = m := by
  cases href : m.refusal? with
  | some e => rw [deliver_of_refusal f href]
  | none =>
    rw [deliver_of_none f href] at h
    exact absurd rfl h

theorem queue_deliver (m : Mailbox) (f : Frame) :
    (m.deliver f).1.queue = m.queue ++ if m.refusal? = none then [f] else [] := by
  cases h : m.refusal? with
  | none => simp [deliver_of_none f h]
  | some e => simp [deliver_of_refusal f h]

@[simp] theorem capacity_deliver (m : Mailbox) (f : Frame) :
    (m.deliver f).1.capacity = m.capacity := by
  unfold deliver
  split <;> rfl

@[simp] theorem signalled_deliver (m : Mailbox) (f : Frame) :
    (m.deliver f).1.signalled = m.signalled := by
  unfold deliver
  split <;> rfl

@[simp] theorem abandoned_deliver (m : Mailbox) (f : Frame) :
    (m.deliver f).1.abandoned = m.abandoned := by
  unfold deliver
  split <;> rfl

@[simp] theorem isClosed_deliver (m : Mailbox) (f : Frame) :
    (m.deliver f).1.isClosed = m.isClosed := by
  simp [isClosed]

/-- What a mailbox may become while its receiver rests: frames are appended, and the close signal
may be given. -/
structure Extends (m m' : Mailbox) : Prop where
  capacity : m'.capacity = m.capacity
  queue : m.queue <+: m'.queue
  signalled : m.signalled = true → m'.signalled = true
  abandoned : m'.abandoned = m.abandoned

namespace Extends

theorem refl (m : Mailbox) : m.Extends m :=
  ⟨rfl, List.prefix_refl _, id, rfl⟩

theorem trans {a b c : Mailbox} (hab : a.Extends b) (hbc : b.Extends c) : a.Extends c :=
  ⟨hbc.capacity.trans hab.capacity, hab.queue.trans hbc.queue,
    fun h => hbc.signalled (hab.signalled h), hbc.abandoned.trans hab.abandoned⟩

theorem close (m : Mailbox) : m.Extends m.close :=
  ⟨rfl, List.prefix_refl _, fun _ => rfl, rfl⟩

theorem deliver (m : Mailbox) (f : Frame) : m.Extends (m.deliver f).1 :=
  ⟨capacity_deliver m f, queue_deliver m f ▸ List.prefix_append _ _, by simp, abandoned_deliver m f⟩

theorem isClosed {m m' : Mailbox} (h : m.Extends m') (hc : m.isClosed = true) :
    m'.isClosed = true := by
  unfold Mailbox.isClosed at hc ⊢
  rw [h.abandoned]
  rcases Bool.or_eq_true_iff.mp hc with hs | ha
  · simp [h.signalled hs]
  · simp [ha]

end Extends

/-! ## Taking -/

theorem take_of_signalled {m : Mailbox} (h : m.signalled = true) : m.take = (m, .ended) := by
  unfold take
  exact if_pos h

theorem take_of_nil {m : Mailbox} (h : m.signalled = false) (hq : m.queue = []) :
    m.take = (m, .waiting) := by
  unfold take
  rw [h, hq]
  rfl

theorem take_of_cons {m : Mailbox} {f : Frame} {rest : List Frame} (h : m.signalled = false)
    (hq : m.queue = f :: rest) : m.take = ({ m with queue := rest }, .frame f) := by
  unfold take
  rw [h, hq]
  rfl

theorem take_cases (m : Mailbox) :
    (m.take.1 = m ∧ ∀ f, m.take.2 ≠ .frame f) ∨ ∃ f rest, m.signalled = false ∧
      m.queue = f :: rest ∧ m.take = ({ m with queue := rest }, .frame f) := by
  by_cases hs : m.signalled = true
  · rw [take_of_signalled hs]
    exact .inl ⟨rfl, nofun⟩
  · have hs : m.signalled = false := by simpa using hs
    cases hq : m.queue with
    | nil =>
      rw [take_of_nil hs hq]
      exact .inl ⟨rfl, nofun⟩
    | cons f rest => exact .inr ⟨f, rest, hs, rfl, take_of_cons hs hq⟩

@[simp] theorem signalled_take (m : Mailbox) : m.take.1.signalled = m.signalled := by
  rcases m.take_cases with ⟨h, -⟩ | ⟨f, rest, -, -, h⟩ <;> rw [h]

@[simp] theorem abandoned_take (m : Mailbox) : m.take.1.abandoned = m.abandoned := by
  rcases m.take_cases with ⟨h, -⟩ | ⟨f, rest, -, -, h⟩ <;> rw [h]

@[simp] theorem isClosed_take (m : Mailbox) : m.take.1.isClosed = m.isClosed := by
  simp [isClosed]

/-! ## Calls -/

def Taken.frame? : Taken → Option Frame
  | .frame f => some f
  | _ => none

inductive Call
  | deliver (f : Frame)
  | take
  | close
  | abandon
deriving DecidableEq, Repr

namespace Call

def on (m : Mailbox) : Call → Mailbox
  | .deliver f => (m.deliver f).1
  | .take => m.take.1
  | .close => m.close
  | .abandon => m.abandon

def accepted? (m : Mailbox) : Call → Option Frame
  | .deliver f => (m.deliver f).2.toOption.map fun _ => f
  | _ => none

def received? (m : Mailbox) : Call → Option Frame
  | .take => m.take.2.frame?
  | _ => none

variable {m : Mailbox}

theorem accepted?_of_refusal {e : DeliveryError} (f : Frame) (h : m.refusal? = some e) :
    (Call.deliver f).accepted? m = none := by
  show ((m.deliver f).2.toOption.map fun _ => f) = none
  rw [deliver_of_refusal f h]
  rfl

theorem accepted?_of_none (f : Frame) (h : m.refusal? = none) :
    (Call.deliver f).accepted? m = some f := by
  show ((m.deliver f).2.toOption.map fun _ => f) = some f
  rw [deliver_of_none f h]
  rfl

end Call

def after (m : Mailbox) (calls : List Call) : Mailbox := calls.foldl Call.on m

/-- What is seen of each call, one after the other. -/
def seen (look : Mailbox → Call → Option Frame) (m : Mailbox) : List Call → List Frame
  | [] => []
  | c :: calls => (look m c).toList ++ seen look (c.on m) calls

theorem after_append (m : Mailbox) (calls later : List Call) :
    m.after (calls ++ later) = (m.after calls).after later :=
  List.foldl_append

theorem after_snoc (m : Mailbox) (calls : List Call) (c : Call) :
    m.after (calls ++ [c]) = c.on (m.after calls) :=
  after_append m calls [c]

theorem seen_append (look : Mailbox → Call → Option Frame) (m : Mailbox) (calls later : List Call) :
    m.seen look (calls ++ later) = m.seen look calls ++ (m.after calls).seen look later := by
  induction calls generalizing m with
  | nil => rfl
  | cons c calls ih =>
    rw [List.cons_append, seen, seen, ih, List.append_assoc]
    rfl

theorem seen_snoc (look : Mailbox → Call → Option Frame) (m : Mailbox) (calls : List Call) (c : Call) :
    m.seen look (calls ++ [c]) = m.seen look calls ++ (look (m.after calls) c).toList := by
  rw [seen_append]
  simp [seen]

def accepted (m : Mailbox) (calls : List Call) : List Frame := m.seen Call.accepted? calls

def received (m : Mailbox) (calls : List Call) : List Frame := m.seen Call.received? calls

/-- A mailbox against the calls that it has had: what was let in has been handed out or is queued,
unless the receiver is gone. -/
structure Accounts (n : Nat) (calls : List Call) (m : Mailbox) (accepted received : List Frame) :
    Prop where
  capacity : m.capacity = max n 1
  signalled : m.signalled = true ↔ .close ∈ calls
  abandoned : m.abandoned = true ↔ .abandon ∈ calls
  size : m.size ≤ max n 1
  held : .abandon ∉ calls → accepted = received ++ m.queue
  lost : .abandon ∈ calls → m.queue = []
  ordered : received <+: accepted

namespace Accounts

variable {n : Nat} {calls : List Call} {m : Mailbox} {ins outs : List Frame}

theorem isClosed_iff (hm : Accounts n calls m ins outs) :
    m.isClosed = true ↔ .close ∈ calls ∨ .abandon ∈ calls := by
  rw [← hm.signalled, ← hm.abandoned, isClosed, Bool.or_eq_true]

theorem isFull_iff (hm : Accounts n calls m ins outs) : m.isFull = true ↔ m.size = max n 1 := by
  unfold isFull
  rw [hm.capacity, decide_eq_true_iff]
  exact ⟨fun hle => Nat.le_antisymm hm.size hle, fun heq => Nat.le_of_eq heq.symm⟩

theorem idle (hm : Accounts n calls m ins outs) {c : Call} (hc : c ≠ .close) (ha : c ≠ .abandon) :
    Accounts n (calls ++ [c]) m ins outs where
  capacity := hm.capacity
  signalled := by simp [hm.signalled, hc.symm]
  abandoned := by simp [hm.abandoned, ha.symm]
  size := hm.size
  held hnot := hm.held fun hmem => hnot (List.mem_append_left _ hmem)
  lost hmem := hm.lost (by simpa [ha.symm] using hmem)
  ordered := hm.ordered

theorem deliver (hm : Accounts n calls m ins outs) (f : Frame) :
    Accounts n (calls ++ [.deliver f]) (m.deliver f).1
      (ins ++ ((Call.deliver f).accepted? m).toList) outs := by
  have hidle := hm.idle (c := .deliver f) nofun nofun
  cases href : m.refusal? with
  | some e =>
    rw [Call.accepted?_of_refusal f href, deliver_of_refusal f href]
    simpa using hidle
  | none =>
    obtain ⟨hopen, hroom⟩ := refusal?_eq_none.mp href
    have hthere : .abandon ∉ calls := fun hmem => by
      rw [hm.isClosed_iff.mpr (.inr hmem)] at hopen
      cases hopen
    have hless : m.size < max n 1 := Nat.lt_of_le_of_ne hm.size fun heq => by
      rw [hm.isFull_iff.mpr heq] at hroom
      cases hroom
    rw [Call.accepted?_of_none f href, deliver_of_none f href]
    refine ⟨hidle.capacity, hidle.signalled, hidle.abandoned, ?_, fun _ => ?_, fun hmem => ?_, ?_⟩
    · show (m.queue ++ [f]).length ≤ _
      rw [List.length_append, List.length_singleton]
      exact hless
    · show ins ++ [f] = outs ++ (m.queue ++ [f])
      rw [hm.held hthere, List.append_assoc]
    · exact absurd (by simpa using hmem) hthere
    · exact hm.ordered.trans (List.prefix_append _ _)

theorem take (hm : Accounts n calls m ins outs) :
    Accounts n (calls ++ [.take]) m.take.1 ins (outs ++ (Call.take.received? m).toList) := by
  have hidle := hm.idle (c := .take) nofun nofun
  unfold Call.received?
  rcases m.take_cases with ⟨hsame, hnone⟩ | ⟨f, rest, hs, hq, heq⟩
  · have hnot : m.take.2.frame? = none := by
      cases htake : m.take.2 with
      | frame f => exact absurd htake (hnone f)
      | ended => rfl
      | waiting => rfl
    rw [hnot, hsame]
    simpa using hidle
  · have hthere : .abandon ∉ calls := fun hmem => by
      rw [hm.lost hmem] at hq
      cases hq
    have hheld : ins = (outs ++ [f]) ++ rest := by
      rw [hm.held hthere, hq, List.append_assoc]
      rfl
    rw [heq]
    refine ⟨hidle.capacity, hidle.signalled, hidle.abandoned, ?_, fun _ => hheld, fun hmem => ?_, ?_⟩
    · have hsize : m.queue.length ≤ max n 1 := hm.size
      rw [hq, List.length_cons] at hsize
      exact Nat.le_of_succ_le hsize
    · exact absurd (by simpa using hmem) hthere
    · exact ⟨rest, hheld.symm⟩

theorem close (hm : Accounts n calls m ins outs) : Accounts n (calls ++ [.close]) m.close ins outs where
  capacity := hm.capacity
  signalled := by simp
  abandoned := by simpa using hm.abandoned
  size := hm.size
  held hnot := hm.held fun hmem => hnot (List.mem_append_left _ hmem)
  lost hmem := hm.lost (by simpa using hmem)
  ordered := hm.ordered

theorem abandon (hm : Accounts n calls m ins outs) :
    Accounts n (calls ++ [.abandon]) m.abandon ins outs where
  capacity := hm.capacity
  signalled := by simpa using hm.signalled
  abandoned := by simp
  size := Nat.zero_le _
  held hnot := absurd (by simp) hnot
  lost _ := rfl
  ordered := hm.ordered

end Accounts

theorem accounts (n : Nat) (calls : List Call) :
    Accounts n calls ((create n).after calls) ((create n).accepted calls)
      ((create n).received calls) := by
  unfold accepted received
  induction calls using List.reverseRecOn with
  | nil =>
    exact ⟨rfl, by simp [after, create], by simp [after, create], Nat.zero_le _, fun _ => rfl,
      fun _ => rfl, List.prefix_refl _⟩
  | append_singleton calls c ih =>
    rw [after_snoc, seen_snoc, seen_snoc]
    cases c with
    | deliver f => simpa [Call.on, Call.received?] using ih.deliver f
    | take => simpa [Call.on, Call.accepted?] using ih.take
    | close => simpa [Call.on, Call.received?, Call.accepted?] using ih.close
    | abandon => simpa [Call.on, Call.received?, Call.accepted?] using ih.abandon

/-! ## After the end -/

/-- The mailbox has been closed, or its receiver is gone. -/
def Over (calls : List Call) : Prop := .close ∈ calls ∨ .abandon ∈ calls

instance (calls : List Call) : Decidable (Over calls) :=
  inferInstanceAs (Decidable (.close ∈ calls ∨ .abandon ∈ calls))

theorem Call.isClosed_on {m : Mailbox} (c : Call) (h : m.isClosed = true) :
    (c.on m).isClosed = true := by
  cases c with
  | deliver f => exact (isClosed_deliver m f).trans h
  | take => exact (isClosed_take m).trans h
  | close => exact isClosed_close m
  | abandon => exact isClosed_abandon m

theorem Call.signalled_on {m : Mailbox} (c : Call) (h : m.signalled = true) :
    (c.on m).signalled = true := by
  cases c with
  | deliver f => exact (signalled_deliver m f).trans h
  | take => exact (signalled_take m).trans h
  | close => exact signalled_close m
  | abandon => exact h

theorem refusal?_of_isClosed {m : Mailbox} (h : m.isClosed = true) : m.refusal? = some .closed := by
  unfold refusal?
  exact if_pos h

theorem accepted_of_isClosed {m : Mailbox} (h : m.isClosed = true) (calls : List Call) :
    m.accepted calls = [] := by
  unfold accepted
  induction calls generalizing m with
  | nil => rfl
  | cons c calls ih =>
    have hnone : c.accepted? m = none := by
      cases c with
      | deliver f => exact Call.accepted?_of_refusal f (refusal?_of_isClosed h)
      | _ => rfl
    rw [seen, hnone, ih (c.isClosed_on h)]
    rfl

theorem received_of_signalled {m : Mailbox} (h : m.signalled = true) (calls : List Call) :
    m.received calls = [] := by
  unfold received
  induction calls generalizing m with
  | nil => rfl
  | cons c calls ih =>
    have hnone : c.received? m = none := by
      cases c with
      | take =>
        show m.take.2.frame? = none
        rw [take_of_signalled h]
        rfl
      | _ => rfl
    rw [seen, hnone, ih (c.signalled_on h)]
    rfl

/-- A mailbox with room for `n` frames, or for one if that is none, after any calls. -/
structure Carries (n : Nat) (calls : List Call) (m : Mailbox) : Prop where
  ordered : (create n).received calls <+: (create n).accepted calls
  bounded : m.size ≤ max n 1
  counted : .abandon ∉ calls →
    m.size + ((create n).received calls).length = ((create n).accepted calls).length
  answers : ∀ f, (m.deliver f).2 =
    if Over calls then .error .closed else if m.size = max n 1 then .error .full else .ok ()
  /-- A frame that is refused might as well not have been offered. -/
  refused : ∀ f, (m.deliver f).2 ≠ .ok () → ∀ later,
    (create n).received (calls ++ .deliver f :: later) = (create n).received (calls ++ later)
  next : ¬Over calls → ∀ f rest,
    (create n).accepted calls = (create n).received calls ++ f :: rest → m.take.2 = .frame f
  closed : m.isClosed = true ↔ Over calls
  final : Over calls → ∀ later, (create n).accepted (calls ++ later) = (create n).accepted calls
  /-- After the signal nothing is handed out, even if frames are queued. -/
  ended : .close ∈ calls → m.take.2 = .ended ∧
    ∀ later, (create n).received (calls ++ later) = (create n).received calls

namespace Accounts

variable {n : Nat} {calls : List Call} {m : Mailbox} {ins outs : List Frame}

theorem deliver_eq (hm : Accounts n calls m ins outs) (f : Frame) : (m.deliver f).2 =
    if Over calls then .error .closed else if m.size = max n 1 then .error .full else .ok () := by
  have hrefusal : m.refusal? =
      if Over calls then some .closed else if m.size = max n 1 then some .full else none := by
    unfold refusal?
    simp only [hm.isClosed_iff, hm.isFull_iff]
    rfl
  split at hrefusal
  · rw [deliver_of_refusal f hrefusal, if_pos ‹_›]
  · split at hrefusal
    · rw [deliver_of_refusal f hrefusal, if_neg ‹_›, if_pos ‹_›]
    · rw [deliver_of_none f hrefusal, if_neg ‹_›, if_neg ‹_›]

theorem take_next (hm : Accounts n calls m ins outs) (hopen : ¬Over calls) {f : Frame}
    {rest : List Frame} (hrest : ins = outs ++ f :: rest) : m.take.2 = .frame f := by
  obtain ⟨hclose, habandon⟩ := not_or.mp hopen
  have hs : m.signalled = false := by
    rw [← Bool.not_eq_true, hm.signalled]
    exact hclose
  have hq : m.queue = f :: rest := List.append_cancel_left ((hm.held habandon).symm.trans hrest)
  rw [take_of_cons hs hq]

end Accounts

theorem create_carries (n : Nat) (calls : List Call) :
    Carries n calls ((create n).after calls) := by
  have hm := accounts n calls
  refine ⟨hm.ordered, hm.size, fun hthere => ?_, hm.deliver_eq, fun f hrefused later => ?_,
    fun hopen f rest => hm.take_next hopen, hm.isClosed_iff, fun hover later => ?_, fun hclose => ?_⟩
  · rw [hm.held hthere, List.length_append, Nat.add_comm]
    rfl
  · unfold received
    rw [seen_append, seen_append, seen]
    show _ ++ ([] ++ seen _ (((create n).after calls).deliver f).1 later) = _
    rw [deliver_of_not_ok hrefused]
    rfl
  · unfold accepted
    rw [seen_append]
    exact (congrArg _ (accepted_of_isClosed (hm.isClosed_iff.mpr hover) later)).trans
      (List.append_nil _)
  · have hs := hm.signalled.mpr hclose
    refine ⟨congrArg Prod.snd (take_of_signalled hs), fun later => ?_⟩
    unfold received
    rw [seen_append]
    exact (congrArg _ (received_of_signalled hs later)).trans (List.append_nil _)

/-- There is room for one frame at a time, and what is queued when the signal is given stays there. -/
example : (create 0).received [.deliver (.text "a"), .deliver (.text "b"), .take, .take,
    .deliver (.text "c"), .close, .take, .deliver (.text "d")] = [.text "a"] := by decide

end Mailbox

end PushHub
