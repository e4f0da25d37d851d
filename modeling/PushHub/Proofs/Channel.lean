import PushHub.Channel

/-! Names of channels, one by one and in lists. -/
namespace PushHub

namespace ChannelName

theorem parse_eq_ok {s : String} {c : ChannelName} : parse s = .ok c ↔ c.name = s := by
  obtain ⟨name, hvalid⟩ := c
  unfold parse
  split
  · simp [eq_comm]
  · rename_i f hf
    constructor
    · intro h
      cases h
    · rintro rfl
      rw [hvalid] at hf
      cases hf

theorem parseAll_eq_ok {names : List String} {cs : List ChannelName} :
    parseAll names = .ok cs ↔ cs.map ChannelName.name = names := by
  unfold parseAll
  induction names generalizing cs with
  | nil =>
    rw [List.mapM_nil, List.map_eq_nil_iff]
    exact ⟨fun h => (Except.ok.inj h).symm, fun h => congrArg Except.ok h.symm⟩
  | cons s rest ih =>
    rw [List.mapM_cons]
    constructor
    · intro h
      cases hs : parse s with
      | error e => rw [hs] at h; cases h
      | ok c =>
        cases hrest : rest.mapM parse with
        | error e => rw [hs, hrest] at h; cases h
        | ok others =>
          rw [hs, hrest] at h
          cases h
          rw [List.map_cons, parse_eq_ok.mp hs, ih.mp hrest]
    · rintro h
      cases cs with
      | nil => cases h
      | cons c cs =>
        obtain ⟨hs, hrest⟩ := List.cons.inj h
        rw [parse_eq_ok.mpr hs, ih.mpr hrest]
        rfl

end ChannelName

end PushHub
