import PushHub.Text.Decimal

/-! A run of characters of one kind is taken up to where it stops, and a number is read back from its
digits in any radix. -/
namespace PushHub.Text

section

variable {p : Char → Bool} {cs rest : List Char}

theorem drop_length_takeWhile {α : Type} (p : α → Bool) (xs : List α) :
    xs.drop (xs.takeWhile p).length = xs.dropWhile p := by
  have hdrop : (xs.takeWhile p ++ xs.dropWhile p).drop (xs.takeWhile p).length = xs.dropWhile p :=
    List.drop_left
  rwa [List.takeWhile_append_dropWhile] at hdrop

def Stops (p : Char → Bool) (rest : List Char) : Prop := ∀ c, rest.head? = some c → p c = false

theorem stops_nil : Stops p [] := by
  rintro c hc
  cases hc

theorem stops_cons {c : Char} (hc : p c = false) (cs : List Char) : Stops p (c :: cs) := by
  rintro d hd
  cases hd
  exact hc

theorem eq_false_of_mem {marks : List Char} {c : Char} (hc : c ∈ marks) (h : marks.any p = false) :
    p c = false :=
  Bool.eq_false_iff.mpr (List.any_eq_false.mp h c hc)

theorem Stops.takeWhile_eq_nil (h : Stops p rest) : rest.takeWhile p = [] := by
  cases rest with
  | nil => rfl
  | cons c rest => exact List.takeWhile_cons_of_neg (by rw [h c rfl]; decide)

theorem Stops.dropWhile_eq_self (h : Stops p rest) : rest.dropWhile p = rest := by
  cases rest with
  | nil => rfl
  | cons c rest => exact List.dropWhile_cons_of_neg (by rw [h c rfl]; decide)

theorem Stops.takeWhile_append (h : Stops p rest) (hcs : ∀ c ∈ cs, p c = true) :
    (cs ++ rest).takeWhile p = cs := by
  rw [List.takeWhile_append_of_pos hcs, h.takeWhile_eq_nil, List.append_nil]

theorem Stops.dropWhile_append (h : Stops p rest) (hcs : ∀ c ∈ cs, p c = true) :
    (cs ++ rest).dropWhile p = rest := by
  rw [List.dropWhile_append_of_pos hcs, h.dropWhile_eq_self]

end

section

variable {radix : Nat} {digit? : Char → Option Nat}

/-- Every digit of a radix is taken for what it is. -/
def ReadsDigits (radix : Nat) (digit? : Char → Option Nat) : Prop :=
  ∀ d < radix, digit? (Nat.digitChar d) = some d

theorem readsDigits_hex : ReadsDigits 16 hexDigit? := by
  unfold ReadsDigits
  decide

theorem mem_toDigits (hr : 1 < radix) {n : Nat} {c : Char} (hc : c ∈ Nat.toDigits radix n) :
    ∃ d < radix, c = Nat.digitChar d := by
  induction n using Nat.strongRecOn with
  | ind n ih =>
    rw [Nat.toDigits_eq_if hr] at hc
    split at hc
    · rename_i hlt
      exact ⟨n, hlt, List.mem_singleton.mp hc⟩
    · rename_i hge
      rcases List.mem_append.mp hc with hc | hc
      · exact ih (n / radix) (Nat.div_lt_self (by omega) hr) hc
      · exact ⟨n % radix, Nat.mod_lt n (by omega), List.mem_singleton.mp hc⟩

theorem ReadsDigits.isSome (hd : ReadsDigits radix digit?) (hr : 1 < radix) {n : Nat} {c : Char}
    (hc : c ∈ Nat.toDigits radix n) : (digit? c).isSome = true := by
  obtain ⟨d, hlt, rfl⟩ := mem_toDigits hr hc
  rw [hd d hlt]
  rfl

theorem ReadsDigits.foldl_toDigits (hd : ReadsDigits radix digit?) (hr : 1 < radix) (n : Nat) :
    (Nat.toDigits radix n).foldl (fun m c => radix * m + (digit? c).getD 0) 0 = n := by
  induction n using Nat.strongRecOn with
  | ind n ih =>
    rw [Nat.toDigits_eq_if hr]
    split
    · rename_i hlt
      simp [hd n hlt]
    · rename_i hge
      have hmod := Nat.mod_lt n (show radix > 0 by omega)
      rw [List.foldl_append, ih (n / radix) (Nat.div_lt_self (by omega) hr), List.foldl_cons,
        List.foldl_nil, hd _ hmod, Option.getD_some, Nat.div_add_mod]

end

theorem hexPadded_one (n : Nat) : hexPadded 1 n = Nat.toDigits 16 n := by
  have hpos : 1 - (Nat.toDigits 16 n).length = 0 := Nat.sub_eq_zero_of_le Nat.length_toDigits_pos
  unfold hexPadded
  dsimp only
  rw [hpos, List.replicate_zero, List.nil_append]

end PushHub.Text
