import PushHub.Proofs.Attempts
import PushHub.Proofs.Envelope
import PushHub.Proofs.Http.Broadcast
import PushHub.Proofs.Hub.Delivery

/-! What publishers say reaches clients word for word. A frame that a connection gets from the registry
is the text of an envelope, and plain data is read back from it as it was given. -/
namespace PushHub

open Json (Outline Decoded)
open Registry (Handle Membership)

/-! ## Bodies of requests -/

namespace Json

variable {α : Type} {read : Outline → Decoded α} {a : α}

theorem exists_outline {text : String} (h : decodeText read text = .ok a) : ∃ v, read v = .ok a := by
  unfold decodeText at h
  dsimp only at h
  split at h
  · rename_i b hb
    split at h
    · cases h
      exact ⟨_, hb⟩
    · cases h
  · cases h

theorem Row.getD_eq_ok {row : Row} {name : String} {d : α} (h : row.getD name read d = .ok a) :
    a = d ∨ ∃ v, read v = .ok a := by
  unfold getD at h
  split at h
  · exact .inr ⟨_, h⟩
  · cases h
    exact .inl rfl

end Json

namespace Http

theorem BroadcastBody.plain_data {r : Request} {b : BroadcastBody}
    (hb : r.jsonBody BroadcastBody.decode = .ok b) (hexact : b.data.isExact = true) :
    b.data.Plain := by
  have hread : ∃ text, Json.decodeText BroadcastBody.decode text = .ok b := by
    unfold Request.jsonBody at hb
    split at hb
    · cases hb
    · split at hb
      · cases hb
      · exact ⟨_, mapError_eq_ok.mp hb⟩
  obtain ⟨text, htext⟩ := hread
  obtain ⟨v, hv⟩ := Json.exists_outline htext
  unfold decode at hv
  obtain ⟨row, -, hv⟩ := bind_eq_ok.mp hv
  obtain ⟨messageType, -, hv⟩ := bind_eq_ok.mp hv
  obtain ⟨data, hdata, hv⟩ := bind_eq_ok.mp hv
  obtain ⟨channels, -, hv⟩ := bind_eq_ok.mp hv
  cases hv
  rcases Json.Row.getD_eq_ok hdata with rfl | ⟨o, ho⟩
  · exact ⟨rfl, rfl, Nat.zero_le _⟩
  · have hvalue : o.value? (Json.depthLimit - 1) = some data := by
      unfold readData Outline.asJson at ho
      split at ho
      · rename_i heq
        cases ho
        exact heq
      · cases ho
    obtain ⟨hordered, hdepth⟩ := Outline.ordered_of_value? o (by decide) hvalue
    exact ⟨hexact, hordered, Nat.le_of_lt_succ hdepth⟩

/-- A request that is answered with 202 puts the event of its body into the hub's queue, as a publisher
inside the program does. -/
theorem Site.dispatches {hub : Hub} {configured : Option String} {r : Request} (hr : r.Publishes)
    (hs : ((create hub configured).respond r).2.status = 202) :
    ∃ b d, r.jsonBody BroadcastBody.decode = .ok b ∧ b.Asks d ∧
      hub.act (.dispatch d) = some ((create hub configured).respond r).1.hub := by
  rw [respond_of_publishes hr] at hs ⊢
  unfold broadcast at hs ⊢
  cases hd : (create hub configured).requested r with
  | error e =>
    rw [hd] at hs
    exact absurd hs (status_response_ne e)
  | ok d =>
    obtain ⟨-, b, hb, hasks⟩ := requested_eq_ok.mp hd
    exact ⟨b, d, hb, hasks, rfl⟩

end Http

/-! ## From publishers to clients -/

namespace Hub

variable {start h : Hub} {ms before after : List Moment} {t : Moment} {i : Nat} {c : Handle}

/-- What becomes of types and data that publishers hand over, in a run of a hub. -/
structure Conveys (start : Hub) (ms : List Moment) (h : Hub) : Prop where
  read : ∀ type data, data.Plain → Envelope.parse (Envelope.mk type data).render = .ok ⟨type, data⟩
  apart : ∀ e e' : Envelope, e.data.Plain → e'.data.Plain → e.render = e'.render → e = e'
  delivered : ∀ i c, (i, c) ∈ connections ms → ∀ t ∈ ms, ∀ f ∈ t.events c.endpoint, ∃ r text,
    t.handled? = some r ∧ f = .text text ∧
    (r.payload.Plain → Envelope.parse text = .ok ⟨r.messageType, r.payload⟩)
  /-- What is written to a transport is such a text, or an answer of the loop that reads from it. -/
  written : ∀ i c, (i, c) ∈ connections ms → ∀ f ∈ Hub.written ms i, ∃ t ∈ ms,
    f ∈ t.events c.endpoint ∨ t.action = .move (.inbound i) ∧ f ∈ t.gained c.endpoint
  published : ∀ configured (r : Http.Request), r.Publishes →
    ((Http.Site.create h configured).respond r).2.status = 202 →
    ∃ b d, r.jsonBody Http.BroadcastBody.decode = .ok b ∧
      d.messageType = b.messageType ∧ d.payload = b.data ∧ (b.data.isExact = true → b.data.Plain) ∧
      Run start (ms ++ [⟨h, .dispatch d, ((Http.Site.create h configured).respond r).1.hub⟩])
        ((Http.Site.create h configured).respond r).1.hub

theorem event?_eq_some {f : Frame} (h : t.event? c = some f) :
    ∃ r, t.handled? = some r ∧ f = Membership.frameOf r := by
  unfold Moment.event? at h
  obtain ⟨r, hr, hf⟩ := Option.bind_eq_some_iff.mp h
  split at hf
  · cases hf
    exact ⟨r, hr, rfl⟩
  · cases hf

theorem Run.conveys (hr : Run start ms h) (hs : start.Fresh) : Conveys start ms h where
  read _ _ := Envelope.parse_render
  apart e e' he he' htext := by
    have hparse := Envelope.parse_render (t := e.eventType) he
    rw [show (Envelope.mk e.eventType e.data).render = e'.render from htext,
      Envelope.parse_render (t := e'.eventType) he'] at hparse
    exact (Except.ok.inj hparse).symm
  delivered i c hc t ht f hf := by
    obtain ⟨before, after, rfl⟩ := List.append_of_mem ht
    rw [hr.events_eq hs hc, Option.mem_toList] at hf
    obtain ⟨r, hhandled, rfl⟩ := event?_eq_some hf
    exact ⟨r, _, hhandled, rfl, Envelope.parse_render⟩
  written i c hc f hf := by
    obtain ⟨s, -, hflow⟩ := (hr.flowing hs).flow i c hc
    obtain ⟨t, ht, hgained⟩ := List.mem_flatMap.mp (hflow.isPrefix.subset hf)
    obtain ⟨before, after, rfl⟩ := List.append_of_mem ht
    refine ⟨t, ht, ?_⟩
    rcases hr.gained_from hs hc (List.ne_nil_of_mem hgained) with hserve | hinbound
    · left
      unfold Moment.events
      rw [hserve]
      exact hgained
    · exact .inr ⟨hinbound, hgained⟩
  published configured r hp hstatus := by
    obtain ⟨b, d, hb, hasks, hact⟩ := Http.Site.dispatches hp hstatus
    exact ⟨b, d, hb, hasks.messageType, hasks.payload, Http.BroadcastBody.plain_data hb, hr.snoc hact⟩

def tidings : Json :=
  .object [("\"é\n", .list [.number (.integer (.ofInt64 (-1))), .nat 0xffffffffffffffff]), ("data", .null)]

def telling : List Action :=
  [.register known ⟨.pipe (.create 4), {}⟩, .move (.admission 0), .move .serve,
    .move (.admission 0), .move (.admission 0), .dispatch ⟨.all, "note", tidings, []⟩,
    .move .serve, .move (.outbound 0), .move (.outbound 0)]

theorem telling_runs : (plain.trace telling).isSome = true := by decide +kernel

def told : List Moment × Hub := (plain.trace telling).get telling_runs

theorem told_conveys : Conveys plain told.1 told.2 ∧ tidings.Plain ∧
    (handled told.1).map DispatchRequest.messageType = ["note"] ∧ (written told.1 0).length = 1 :=
  ⟨(run_of_trace (Option.some_get telling_runs).symm).conveys ⟨_, _, _, _, _, rfl⟩,
    ⟨by decide, by decide +kernel, by decide⟩, by decide +kernel, by decide +kernel⟩

end Hub

end PushHub
