import PushHub.Envelope
import PushHub.Proofs.Json.Canonical

/-! An envelope is read back from its text, as long as its data can be: no doubles, and no more
levels than a reader allows. -/
namespace PushHub

open Json (Outline)
open Json.Members (row_of_check)

/-- A value as it is held, without doubles and with at most 126 levels of lists and objects. -/
structure Json.Plain (v : Json) : Prop where
  exact : v.isExact = true
  ordered : v.isOrdered = true
  shallow : v.depth ≤ 126

namespace Envelope

variable {t : String} {v : Json}

theorem readData_ofJson (hv : v.depth ≤ 126) : readData (.ofJson v) = .ok v.canonical := by
  have hroom : v.depth < Json.depthLimit - 1 := Nat.lt_succ_of_le hv
  unfold readData Outline.asJson
  rw [Outline.value?_ofJson v hroom]

theorem decode_toJson (hv : v.Plain) : Json.decodeValue decode (toJson ⟨t, v⟩) = .ok ⟨t, v⟩ := by
  have hdata : readData (.ofJson v) = .ok v :=
    (readData_ofJson hv.shallow).trans (congrArg Except.ok (v.canonical_of_ordered hv.ordered))
  have hrow : (Outline.ofJson (toJson ⟨t, v⟩)).record "struct EventEnvelope"
      [.of "type" Outline.asText, .defaulted "data" readData] =
        .ok [("type", .text (some t)), ("data", .ofJson v)] := by
    simp only [toJson, Outline.ofJson, Outline.membersOfJson, Outline.record]
    refine (row_of_check rfl rfl rfl _).trans ?_
    exact row_of_check rfl rfl (congrArg (Except.map _) hdata) _
  unfold Json.decodeValue decode
  rw [hrow]
  show (readData (.ofJson v) >>= fun data => Except.ok (Envelope.mk t data)) = _
  rw [hdata]
  rfl

theorem isExact_toJson (hv : v.isExact = true) : (toJson ⟨t, v⟩).isExact = true := by
  simp [toJson, Json.isExact, Json.membersExact, hv]

theorem parse_render (hv : v.Plain) : parse (render ⟨t, v⟩) = .ok ⟨t, v⟩ :=
  Json.decodeText_render (isExact_toJson hv.exact) (decode_toJson hv)

/-- Members that are listed in another order come out in the order of their names, and a key that
looks like the envelope's own does no harm. -/
example : (parse "\x7b\"data\":\x7b\"type\":[-7,\"\\u00e9\"],\"b\":null\x7d,\"type\":\"t\"\x7d").toOption.map
    render = some "\x7b\"type\":\"t\",\"data\":\x7b\"b\":null,\"type\":[-7,\"é\"]\x7d\x7d" := by
  decide +kernel

end Envelope

end PushHub
