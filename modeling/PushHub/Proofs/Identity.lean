import PushHub.Identity
import PushHub.Proofs.Text.Numeral

/-! Numbers and texts as ids of users: a text is an id if it stands for the number of one, whatever
zeros and blanks are around its digits. -/
namespace PushHub.UserId

open Text (Numeral Digits)

variable {u : UserId} {n : Nat} {s : String} {digits : List Char}

/-! ## Numbers -/

theorem eq_of_value {v : UserId} (h : u.value = v.value) : u = v := by
  cases u
  cases v
  cases h
  rfl

theorem ofUInt64_eq_ok {m : UInt64} : ofUInt64 m = .ok u ↔ u.value = m := by
  constructor
  · intro h
    unfold ofUInt64 at h
    split at h <;> cases h
    rfl
  · rintro rfl
    exact dif_neg u.nonzero

theorem error_of_ofUInt64 {m : UInt64} {e : InvalidUserId} (h : ofUInt64 m = .error e) :
    m = 0 ∧ e.text = "0" := by
  unfold ofUInt64 at h
  split at h <;> cases h
  exact ⟨‹_›, rfl⟩

def word? (n : Nat) : Option UInt64 := if n < UInt64.size then some (UInt64.ofNat n) else none

theorem word?_eq_some {n : Nat} {m : UInt64} : word? n = some m ↔ n = m.toNat := by
  unfold word?
  constructor
  · intro h
    split at h
    · cases h
      exact (UInt64.toNat_ofNat_of_lt ‹_›).symm
    · cases h
  · rintro rfl
    rw [if_pos m.toNat_lt, UInt64.ofNat_toNat]

theorem numeral?_signed (digits : List Char) :
    numeral? ('+' :: digits) = (Text.decimal? digits).bind word? := by
  unfold numeral?
  simp only
  cases Text.decimal? digits <;> rfl

theorem numeral?_plain (h : digits.head? ≠ some '+') :
    numeral? digits = (Text.decimal? digits).bind word? := by
  unfold numeral?
  split
  · exact absurd rfl h
  · dsimp only
    cases Text.decimal? digits <;> rfl

/-- A numeral is read if its number fits, and nothing else is. -/
theorem numeral?_eq_some {cs : List Char} {m : UInt64} :
    numeral? cs = some m ↔ Numeral cs m.toNat := by
  -- What comes behind a sign is read as if it stood alone.
  have hread : ∀ digits, (Text.decimal? digits).bind word? = some m ↔ Digits digits m.toNat := by
    intro digits
    simp only [Option.bind_eq_some_iff, word?_eq_some, Text.decimal?_eq_some, exists_eq_right]
  constructor
  · intro h
    by_cases hplus : cs.head? = some '+'
    · obtain ⟨digits, rfl⟩ := List.head?_eq_some_iff.mp hplus
      rw [numeral?_signed, hread] at h
      exact ⟨['+'], digits, rfl, .inr rfl, h⟩
    · rw [numeral?_plain hplus, hread] at h
      exact ⟨[], cs, rfl, .inl rfl, h⟩
  · rintro ⟨sign, digits, rfl, rfl | rfl, hdigits⟩
    · rw [List.nil_append, numeral?_plain hdigits.head?_ne_plus, hread]
      exact hdigits
    · rw [List.singleton_append, numeral?_signed, hread]
      exact hdigits

/-! ## Texts -/

/-- A text stands for the number of the numeral that blanks may surround in it. -/
def Denotes (s : String) (n : Nat) : Prop :=
  ∃ before cs after, s.toList = before ++ cs ++ after ∧ (∀ c ∈ before, Text.isBlank c = true) ∧
    (∀ c ∈ after, Text.isBlank c = true) ∧ Numeral cs n

theorem denotes_iff : Denotes s n ↔ Numeral (Text.trim s.toList) n := by
  constructor
  · rintro ⟨before, cs, after, htext, hbefore, hafter, hnumeral⟩
    rw [htext, hnumeral.trim_margins hbefore hafter]
    exact hnumeral
  · intro hnumeral
    obtain ⟨before, after, htext, hbefore, hafter⟩ := Text.exists_margins s.toList
    exact ⟨before, _, after, htext, hbefore, hafter, hnumeral⟩

theorem parse_of_numeral {m : UInt64} (h : Denotes s m.toNat) : parse s = ofUInt64 m := by
  unfold parse
  rw [numeral?_eq_some.mpr (denotes_iff.mp h)]

theorem parse_of_unfit (h : ∀ n < UInt64.size, ¬ Denotes s n) : parse s = .error ⟨s⟩ := by
  unfold parse
  cases hread : numeral? (Text.trim s.toList) with
  | none => rfl
  | some m => exact absurd (denotes_iff.mpr (numeral?_eq_some.mp hread)) (h m.toNat m.toNat_lt)

theorem parse_eq_ok : parse s = .ok u ↔ Denotes s u.value.toNat := by
  constructor
  · intro h
    unfold parse at h
    cases hread : numeral? (Text.trim s.toList) with
    | none =>
      rw [hread] at h
      cases h
    | some m =>
      rw [hread] at h
      rw [ofUInt64_eq_ok.mp h, denotes_iff]
      exact numeral?_eq_some.mp hread
  · intro h
    rw [parse_of_numeral h]
    exact ofUInt64_eq_ok.mpr rfl

theorem Denotes.unique {m : Nat} (hm : Denotes s m) (hn : Denotes s n) : m = n :=
  (denotes_iff.mp hm).unique (denotes_iff.mp hn)

theorem parse_eq_error {e : InvalidUserId} : parse s = .error e ↔
    (Denotes s 0 ∧ e.text = "0") ∨ ((∀ n < UInt64.size, ¬ Denotes s n) ∧ e.text = s) := by
  constructor
  · intro h
    by_cases hunfit : ∀ n < UInt64.size, ¬ Denotes s n
    · rw [parse_of_unfit hunfit] at h
      cases h
      exact .inr ⟨hunfit, rfl⟩
    · -- A number that fits is refused only if it is zero.
      simp only [not_forall, not_not] at hunfit
      obtain ⟨n, hfits, hn⟩ := hunfit
      have hvalue : (UInt64.ofNat n).toNat = n := UInt64.toNat_ofNat_of_lt hfits
      rw [← hvalue] at hn
      rw [parse_of_numeral hn] at h
      obtain ⟨hzero, htext⟩ := error_of_ofUInt64 h
      rw [hzero] at hn
      exact .inl ⟨hn, htext⟩
  · obtain ⟨text⟩ := e
    rintro (⟨hzero, rfl⟩ | ⟨hunfit, rfl⟩)
    · exact parse_of_numeral (m := 0) hzero
    · exact parse_of_unfit hunfit

theorem parse_display (u : UserId) : parse u.display = .ok u := by
  have htext : u.display.toList = [] ++ Text.decimal u.value.toNat ++ [] := by
    rw [display, String.toList_ofList, List.nil_append, List.append_nil]
  exact parse_eq_ok.mpr ⟨[], _, [], htext, List.forall_mem_nil _, List.forall_mem_nil _,
    [], _, rfl, .inl rfl, Text.digits_decimal u.value.toNat⟩

end PushHub.UserId
