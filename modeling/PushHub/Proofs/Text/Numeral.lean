import PushHub.Proofs.Text.Decimal
import PushHub.Proofs.Text.Digits
import Mathlib.Data.List.Induction
import Mathlib.Data.List.TakeWhile
import Mathlib.Data.Nat.Digits.Defs

/-! What trimming leaves of a text, and what number a numeral stands for: the last of its digits counts
for itself, each digit before it ten times as much as the next one. -/
namespace PushHub.Text

/-! ## Trimming -/

section

variable {before core after : List Char}

theorem Stops.append {p : Char → Bool} (h : Stops p core) (hne : core ≠ []) (after : List Char) :
    Stops p (core ++ after) := by
  cases core with
  | nil => exact absurd rfl hne
  | cons c rest => exact stops_cons (h c rfl) (rest ++ after)

theorem exists_margins (cs : List Char) : ∃ before after, cs = before ++ trim cs ++ after ∧
    (∀ c ∈ before, isBlank c = true) ∧ ∀ c ∈ after, isBlank c = true := by
  have hend : trim cs ++ ((cs.dropWhile isBlank).reverse.takeWhile isBlank).reverse =
      cs.dropWhile isBlank := by
    rw [trim, ← List.reverse_append, List.takeWhile_append_dropWhile, List.reverse_reverse]
  refine ⟨cs.takeWhile isBlank, ((cs.dropWhile isBlank).reverse.takeWhile isBlank).reverse, ?_,
    fun c hc => List.mem_takeWhile_imp hc,
    fun c hc => List.mem_takeWhile_imp (List.mem_reverse.mp hc)⟩
  rw [List.append_assoc, hend, List.takeWhile_append_dropWhile]

/-- Blanks around what neither begins nor ends with one are trimmed away. -/
theorem trim_of_margins (hbefore : ∀ c ∈ before, isBlank c = true)
    (hafter : ∀ c ∈ after, isBlank c = true) (hne : core ≠ [])
    (hstart : Stops isBlank core) (hend : Stops isBlank core.reverse) :
    trim (before ++ core ++ after) = core := by
  unfold trim
  rw [List.append_assoc, (hstart.append hne after).dropWhile_append hbefore, List.reverse_append,
    hend.dropWhile_append fun c hc => hafter c (List.mem_reverse.mp hc), List.reverse_reverse]

end

/-! ## Numerals -/

structure Digits (cs : List Char) (n : Nat) : Prop where
  nonempty : cs ≠ []
  digits : ∀ c ∈ cs, c.isDigit = true
  value : Nat.ofDigits 10 (cs.reverse.map fun c => c.toNat - 48) = n

/-- Digits that may have a plus sign before them. -/
def Numeral (cs : List Char) (n : Nat) : Prop :=
  ∃ sign digits, cs = sign ++ digits ∧ (sign = [] ∨ sign = ['+']) ∧ Digits digits n

variable {cs : List Char} {n : Nat}

theorem digitsValue_eq (cs : List Char) :
    digitsValue cs = Nat.ofDigits 10 (cs.reverse.map fun c => c.toNat - 48) := by
  induction cs using List.reverseRecOn with
  | nil => rfl
  | append_singleton cs c ih =>
    have hlast : digitsValue (cs ++ [c]) = 10 * digitsValue cs + (c.toNat - 48) :=
      List.foldl_append
    rw [hlast, ih, List.reverse_append, List.reverse_singleton, List.singleton_append, List.map_cons,
      Nat.ofDigits_cons, Nat.add_comm]

theorem decimal?_eq_some : decimal? cs = some n ↔ Digits cs n := by
  have hdigits : decimal? cs = some n ↔
      cs ≠ [] ∧ (∀ c ∈ cs, c.isDigit = true) ∧ digitsValue cs = n := by
    unfold decimal?
    simp [List.isEmpty_iff, and_assoc]
  rw [hdigits, digitsValue_eq]
  exact ⟨fun h => ⟨h.1, h.2.1, h.2.2⟩, fun h => ⟨h.nonempty, h.digits, h.value⟩⟩

theorem digits_decimal (n : Nat) : Digits (decimal n) n := decimal?_eq_some.mp (decimal?_decimal n)

theorem Digits.stops {p : Char → Bool} (h : Digits cs n) (hp : ∀ c, c.isDigit = true → p c = false) :
    Stops p cs ∧ Stops p cs.reverse :=
  ⟨fun c hc => hp c (h.digits c (List.mem_of_mem_head? hc)),
    fun c hc => hp c (h.digits c (List.mem_reverse.mp (List.mem_of_mem_head? hc)))⟩

theorem Digits.head?_ne_plus (h : Digits cs n) : cs.head? ≠ some '+' := fun hplus => by
  cases h.digits '+' (List.mem_of_mem_head? hplus)

theorem Numeral.unique {m : Nat} (hm : Numeral cs m) (hn : Numeral cs n) : m = n := by
  obtain ⟨sign, digits, rfl, hsign, hdigits⟩ := hm
  obtain ⟨sign', digits', heq, hsign', hdigits'⟩ := hn
  rcases hsign with rfl | rfl <;> rcases hsign' with rfl | rfl
  · cases heq
    exact hdigits.value.symm.trans hdigits'.value
  · cases heq
    exact absurd rfl hdigits.head?_ne_plus
  · cases heq
    exact absurd rfl hdigits'.head?_ne_plus
  · cases heq
    exact hdigits.value.symm.trans hdigits'.value

theorem Numeral.trim_margins {before after : List Char} (h : Numeral cs n)
    (hbefore : ∀ c ∈ before, isBlank c = true) (hafter : ∀ c ∈ after, isBlank c = true) :
    trim (before ++ cs ++ after) = cs := by
  obtain ⟨sign, digits, rfl, hsign, hdigits⟩ := h
  obtain ⟨hstart, hend⟩ := hdigits.stops fun _ => isBlank_of_isDigit
  have hends : Stops isBlank (sign ++ digits).reverse := by
    rw [List.reverse_append]
    exact hend.append (List.reverse_ne_nil_iff.mpr hdigits.nonempty) sign.reverse
  refine trim_of_margins hbefore hafter (List.append_ne_nil_of_right_ne_nil _ hdigits.nonempty) ?_ hends
  rcases hsign with rfl | rfl
  · exact hstart
  · exact stops_cons (by decide) digits

end PushHub.Text
