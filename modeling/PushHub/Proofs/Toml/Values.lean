import PushHub.Proofs.Text.Decimal
import PushHub.Proofs.Toml.Texts

/-! Numbers, texts and arrays of texts are read back as values from what is written for them. -/
namespace PushHub.Toml

open Text

variable {rest : List Char}

/-! ## Numbers -/

section

variable {digit? : Char → Option Nat}

theorem moreDigits?_append {cs : List Char} (hcs : ∀ c ∈ cs, (digit? c).isSome = true)
    (hrest : Stops (fun c => (digit? c).isSome) rest) (hscore : rest.head? ≠ some '_') :
    moreDigits? digit? (cs ++ rest) = some (cs.map fun c => (digit? c).getD 0, rest) := by
  induction cs with
  | nil =>
    cases rest with
    | nil => rfl
    | cons c rest =>
      have hnone : digit? c = none := by simpa using hrest c rfl
      have hc : c ≠ '_' := fun heq => hscore (congrArg some heq)
      simp [moreDigits?, hnone, hc]
  | cons c cs ih =>
    obtain ⟨d, hd⟩ := Option.isSome_iff_exists.mp (hcs c List.mem_cons_self)
    simp [moreDigits?, hd, ih fun e he => hcs e (List.mem_cons_of_mem c he)]

theorem digits?_append {cs : List Char} (hne : cs ≠ []) (hcs : ∀ c ∈ cs, (digit? c).isSome = true)
    (hrest : Stops (fun c => (digit? c).isSome) rest) (hscore : rest.head? ≠ some '_') :
    digits? digit? (cs ++ rest) = some (cs.map fun c => (digit? c).getD 0, rest) := by
  have hread := moreDigits?_append hcs hrest hscore
  obtain ⟨c, ds, rfl⟩ := List.exists_cons_of_ne_nil hne
  unfold digits?
  rw [if_pos (by simpa using hcs c List.mem_cons_self), hread]

end

theorem isSome_decimalDigit? (c : Char) : (decimalDigit? c).isSome = c.isDigit := by
  unfold decimalDigit?
  cases c.isDigit <;> rfl

theorem readsDigits_decimal : ReadsDigits 10 decimalDigit? := by
  unfold ReadsDigits
  decide

theorem isDigit_of_mapM {cs : List Char} {ds : List Nat} (h : cs.mapM decimalDigit? = some ds) :
    ∀ c ∈ cs, c.isDigit = true := by
  induction cs generalizing ds with
  | nil => simp
  | cons c cs ih =>
    simp only [List.mapM_cons, Option.bind_eq_bind, Option.bind_eq_some_iff] at h
    obtain ⟨d, hd, es, hes, -⟩ := h
    have hc : c.isDigit = true := by
      rw [← isSome_decimalDigit?, hd]
      rfl
    simpa [hc] using ih hes

/-- What may come behind digits of a number: more of them, or what closes it. -/
def Continues (cs : List Char) : Prop :=
  ∃ c ds, cs = c :: ds ∧ (c.isDigit = true ∨ c ∈ ['\n', ',', ']'])

theorem continues_append {cs : List Char} (hcs : ∀ c ∈ cs, c.isDigit = true) (h : Closes rest) :
    Continues (cs ++ rest) := by
  cases cs with
  | nil =>
    obtain ⟨c, ds, rfl, hc⟩ := h
    exact ⟨c, ds, rfl, .inr hc⟩
  | cons c cs => exact ⟨c, cs ++ rest, rfl, .inl (hcs c List.mem_cons_self)⟩

theorem Continues.head?_ne {cs : List Char} (h : Continues cs) {c : Char} (hc : c.isDigit = false)
    (hclose : c ∉ ['\n', ',', ']']) : cs.head? ≠ some c := by
  obtain ⟨d, ds, rfl, hd⟩ := h
  rintro heq
  cases heq
  rcases hd with hd | hd
  · rw [hc] at hd
    cases hd
  · exact hclose hd

theorem continues_of_fixed? {width m : Nat} {cs tail : List Char} (hcs : ∀ c ∈ cs, c.isDigit = true)
    (h : Closes rest) (hf : fixed? width (cs ++ rest) = some (m, tail)) : Continues tail := by
  obtain ⟨c, more, rfl, hc⟩ := h
  simp only [fixed?, Option.bind_eq_bind, Option.bind_eq_some_iff] at hf
  obtain ⟨ds, hds, hf⟩ := hf
  have hdigits := isDigit_of_mapM hds
  have hwidth : width ≤ cs.length := by
    apply Nat.le_of_not_lt
    intro hlt
    have hmem : c ∈ (cs ++ c :: more).take width := by
      rw [List.take_append, show width - cs.length = (width - cs.length - 1) + 1 by omega,
        List.take_succ_cons]
      simp
    have hdigit := hdigits c hmem
    have hother : c.isDigit = false := eq_false_of_mem hc (by decide)
    rw [hother] at hdigit
    cases hdigit
  split at hf
  · cases hf
  · simp only [Option.some.injEq, Prod.mk.injEq] at hf
    rw [← hf.2, List.drop_append_of_le_length hwidth]
    exact continues_append (fun d hd => hcs d (List.mem_of_mem_drop hd)) ⟨c, more, rfl, hc⟩

theorem after?_eq_none {c : Char} {cs : List Char} (h : cs.head? ≠ some c) : after? c cs = none := by
  cases cs with
  | nil => rfl
  | cons d ds => exact if_neg fun heq => h (congrArg some heq.symm)

theorem year?_decimal (n : Nat) (h : Closes rest) : year? (decimal n ++ rest) = none := by
  cases hf : fixed? 4 (decimal n ++ rest) with
  | none => simp [year?, hf]
  | some r =>
    have hnext := continues_of_fixed? (fun c hc => isDigit_of_mem_decimal hc) h hf
    simp [year?, hf, after?_eq_none (hnext.head?_ne (c := '-') (by decide) (by decide))]

theorem hour?_decimal (n : Nat) (h : Closes rest) : hour? (decimal n ++ rest) = none := by
  cases hf : fixed? 2 (decimal n ++ rest) with
  | none => simp [hour?, pair?, hf]
  | some r =>
    have hnext := continues_of_fixed? (fun c hc => isDigit_of_mem_decimal hc) h hf
    have hafter := after?_eq_none (hnext.head?_ne (c := ':') (by decide) (by decide))
    simp only [hour?, pair?, hf, Option.bind_eq_bind, Option.bind_some]
    split_ifs <;> simp [hafter]

theorem integer?_ofNat {n : Nat} (hn : n ≤ greatest) :
    integer? (n : Int) = some (.integer (Int64.ofInt n)) := by
  unfold greatest at hn
  unfold integer?
  rw [if_pos (by omega)]

def digitsOf (n : Nat) : List Nat := (decimal n).map fun c => (decimalDigit? c).getD 0

theorem valueIn_digitsOf (n : Nat) : valueIn 10 (digitsOf n) = n := by
  rw [valueIn, digitsOf, List.foldl_map]
  exact readsDigits_decimal.foldl_toDigits (by decide) n

theorem digits?_decimal (n : Nat) (h : Closes rest) :
    digits? decimalDigit? (decimal n ++ rest) = some (digitsOf n, rest) := by
  have hdigits : ∀ c ∈ decimal n, (decimalDigit? c).isSome = true := by
    intro c hc
    rw [isSome_decimalDigit?]
    exact isDigit_of_mem_decimal hc
  exact digits?_append (decimal_ne_nil n) hdigits (h.stops (by decide)) (h.head?_ne (by decide))

theorem digitsOf_leading (n : Nat) : ¬ ((digitsOf n).head? = some 0 ∧ (digitsOf n).length ≠ 1) := by
  rintro ⟨hhead, hlength⟩
  obtain rfl | hpos := Nat.eq_zero_or_pos n
  · exact hlength rfl
  · obtain ⟨c, cs, heq⟩ := List.exists_cons_of_ne_nil (decimal_ne_nil n)
    have hdigit : c.isDigit = true := isDigit_of_mem_decimal (heq ▸ List.mem_cons_self)
    have hbounds := bounds_of_isDigit hdigit
    have hzero : c.toNat = '0'.toNat := by
      simp only [digitsOf, heq, List.map_cons, List.head?_cons, decimalDigit?, hdigit, if_true,
        Option.getD_some, Option.some.injEq] at hhead
      show c.toNat = 48
      omega
    apply head?_decimal_of_pos hpos
    rw [heq, List.head?_cons, Char.toNat_inj.mp hzero]

theorem head?_decimal (n : Nat) (rest : List Char) :
    ∃ c cs, decimal n ++ rest = c :: cs ∧ c.isDigit = true := by
  obtain ⟨c, cs, heq⟩ := List.exists_cons_of_ne_nil (decimal_ne_nil n)
  exact ⟨c, cs ++ rest, by rw [heq, List.cons_append], isDigit_of_mem_decimal (heq ▸ List.mem_cons_self)⟩

theorem sign_decimal (n : Nat) (rest : List Char) :
    sign (decimal n ++ rest) = (false, decimal n ++ rest) := by
  obtain ⟨c, cs, heq, hc⟩ := head?_decimal n rest
  rw [heq]
  unfold sign
  split
  · rename_i heq'
    exact absurd heq' (cons_ne_cons hc rfl _ _)
  · rename_i heq'
    exact absurd heq' (cons_ne_cons hc rfl _ _)
  · rfl

theorem number?_decimal {n : Nat} (hn : n ≤ greatest) (h : Closes rest) :
    number? (decimal n ++ rest) = some (.integer (Int64.ofInt n), rest) := by
  have hexponent : ¬ (rest.head? = some 'e' ∨ rest.head? = some 'E') :=
    not_or.mpr ⟨h.head?_ne (by decide), h.head?_ne (by decide)⟩
  simp only [number?, sign_decimal, digits?_decimal n h, Option.bind_eq_bind, Option.bind_some,
    if_neg (digitsOf_leading n), valueIn_digitsOf]
  split
  · exact absurd rfl (h.head?_ne (c := '.') (by decide))
  · rw [if_neg hexponent]
    simp [integer?_ofNat hn]

theorem continues_decimal {n : Nat} {c : Char} {cs : List Char} (h : Closes rest)
    (heq : decimal n ++ rest = c :: cs) : Continues cs := by
  obtain ⟨d, ds, hds⟩ := List.exists_cons_of_ne_nil (decimal_ne_nil n)
  rw [hds, List.cons_append] at heq
  rw [← (List.cons.inj heq).2]
  exact continues_append (fun e he => isDigit_of_mem_decimal (hds ▸ List.mem_cons_of_mem d he)) h

theorem plain?_decimal {n : Nat} (hn : n ≤ greatest) (h : Closes rest) :
    plain? (decimal n ++ rest) = some (.integer (Int64.ofInt n), rest) := by
  obtain ⟨c, cs, heq, hc⟩ := head?_decimal n rest
  have hnext := continues_decimal h heq
  have hyear := year?_decimal n h
  have hhour := hour?_decimal n h
  have hsign := sign_decimal n rest
  have hnumber := number?_decimal hn h
  rw [heq] at hyear hhour hsign hnumber ⊢
  unfold plain?
  split
  case h_6 =>
    rw [hyear, hhour, hsign]
    dsimp only
    split
    · rename_i heq'
      exact absurd (Prod.mk.inj heq').2 (cons_ne_cons hc rfl _ _)
    · rename_i heq'
      exact absurd (Prod.mk.inj heq').2 (cons_ne_cons hc rfl _ _)
    · exact hnumber
  case h_1 heq' => exact absurd heq' (cons_ne_cons hc rfl _ _)
  case h_2 heq' => exact absurd heq' (cons_ne_cons hc rfl _ _)
  all_goals
    rename_i heq'
    rw [(List.cons.inj heq').2] at hnext
    exact absurd rfl (hnext.head?_ne (by decide) (by decide))

/-! ## Values -/

/-- Characters are read as a value wherever one may end behind them. -/
structure Written (v : Node) (cs : List Char) : Prop where
  solid : ∃ c ds, cs = c :: ds ∧ isSpace c = false
  read : ∀ rest, Closes rest → ∀ fuel, cs.length ≤ fuel →
    value? fuel 0 (cs ++ rest) = some (v, rest)

def isQuote (c : Char) : Bool := c == '"' || c == '\''

theorem eq_of_isQuote {c : Char} (hc : isQuote c = true) : c = '"' ∨ c = '\'' := by
  simpa [isQuote] using hc

theorem quoted_of_text? {cs : List Char} {r : String × List Char} (h : text? cs = some r) :
    ∃ c ds, cs = c :: ds ∧ isQuote c = true := by
  unfold text? at h
  split at h
  · exact ⟨_, _, rfl, rfl⟩
  · exact ⟨_, _, rfl, rfl⟩
  · exact ⟨_, _, rfl, rfl⟩
  · exact ⟨_, _, rfl, rfl⟩
  · cases h

theorem value?_of_text? {cs : List Char} {s : String} (h : text? cs = some (s, rest))
    (fuel depth : Nat) : value? (fuel + 1) depth cs = some (.text s, rest) := by
  obtain ⟨c, ds, rfl, hc⟩ := quoted_of_text? h
  unfold value?
  split
  · rename_i heq
    exact absurd heq (cons_ne_cons hc rfl _ _)
  · rename_i heq
    exact absurd heq (cons_ne_cons hc rfl _ _)
  · rw [h]

theorem text?_of_isDigit {c : Char} (hc : c.isDigit = true) (cs : List Char) :
    text? (c :: cs) = none := by
  cases ht : text? (c :: cs) with
  | none => rfl
  | some r =>
    obtain ⟨d, ds, heq, hd⟩ := quoted_of_text? ht
    rw [(List.cons.inj heq).1] at hc
    rcases eq_of_isQuote hd with rfl | rfl <;> cases hc

theorem value?_decimal {n : Nat} (hn : n ≤ greatest) (h : Closes rest) (fuel depth : Nat) :
    value? (fuel + 1) depth (decimal n ++ rest) = some (.integer (Int64.ofInt n), rest) := by
  obtain ⟨c, cs, heq, hc⟩ := head?_decimal n rest
  have hplain := plain?_decimal hn h
  rw [heq] at hplain ⊢
  unfold value?
  split
  · rename_i heq'
    exact absurd heq' (cons_ne_cons hc rfl _ _)
  · rename_i heq'
    exact absurd heq' (cons_ne_cons hc rfl _ _)
  · rw [text?_of_isDigit hc]
    exact hplain

theorem written_decimal {n : Nat} (hn : n ≤ greatest) :
    Written (.integer (Int64.ofInt n)) (decimal n) := by
  refine ⟨?_, fun rest h fuel hfuel => ?_⟩
  · obtain ⟨c, cs, heq, hc⟩ := head?_decimal n []
    rw [List.append_nil] at heq
    exact ⟨c, cs, heq, isSpace_of_isBareChar (by simp [isBareChar, Char.isAlphanum, hc])⟩
  · have := List.length_pos_iff.mpr (decimal_ne_nil n)
    obtain ⟨fuel, rfl⟩ : ∃ k, fuel = k + 1 := ⟨fuel - 1, by omega⟩
    exact value?_decimal hn h fuel 0

theorem textForm_solid (cs : List Char) : ∃ c ds, textForm cs = c :: ds ∧ isQuote c = true := by
  have hread := text?_textForm cs (closes_cons (c := '\n') (by decide) [])
  obtain ⟨c, ds, heq, hc⟩ := quoted_of_text? hread
  cases hform : textForm cs with
  | nil =>
    rw [hform, List.nil_append] at heq
    rw [← (List.cons.inj heq).1] at hc
    cases hc
  | cons d es =>
    rw [hform, List.cons_append] at heq
    exact ⟨d, es, rfl, (List.cons.inj heq).1 ▸ hc⟩

theorem written_text (cs : List Char) : Written (.text (String.ofList cs)) (textForm cs) := by
  obtain ⟨c, ds, heq, hc⟩ := textForm_solid cs
  have hspace : isSpace c = false := by rcases eq_of_isQuote hc with rfl | rfl <;> rfl
  refine ⟨⟨c, ds, heq, hspace⟩, fun rest h fuel hfuel => ?_⟩
  rw [heq, List.length_cons] at hfuel
  obtain ⟨fuel, rfl⟩ : ∃ k, fuel = k + 1 := ⟨fuel - 1, by omega⟩
  exact value?_of_text? (text?_textForm cs h) fuel 0

/-! ## Arrays of texts -/

theorem skipLines_solid {c : Char} (hc : c ∈ ['"', '\'', ',', ']']) (cs : List Char) :
    skipLines false (c :: cs) = c :: cs := by
  simp only [List.mem_cons, List.not_mem_nil, or_false] at hc
  rcases hc with rfl | rfl | rfl | rfl <;> simp [skipLines]

theorem skipLines_newline (cs : List Char) : skipLines false ('\n' :: cs) = skipLines false cs := by
  simp [skipLines]

theorem skipLines_space (cs : List Char) : skipLines false (' ' :: cs) = skipLines false cs := by
  simp [skipLines]

def itemLine (s : String) : List Char :=
  [' ', ' ', ' ', ' '] ++ textForm s.toList ++ [',', '\n']

theorem textsForm_eq (ss : List String) (h : 2 ≤ ss.length) :
    textsForm ss = '[' :: '\n' :: (ss.flatMap itemLine ++ [']']) := by
  unfold textsForm
  split
  · simp at h
  · simp at h
  · rfl

theorem skipLines_textForm (cs rest : List Char) :
    skipLines false (textForm cs ++ rest) = textForm cs ++ rest := by
  obtain ⟨c, ds, heq, hc⟩ := textForm_solid cs
  have hsolid : c ∈ ['"', '\'', ',', ']'] := by rcases eq_of_isQuote hc with rfl | rfl <;> decide
  rw [heq]
  exact skipLines_solid hsolid _

/-- The items of an array, each behind its comma, up to the end of the array. -/
theorem items?_itemLines (ss : List String) {fuel : Nat} (hfuel : ss.length + 2 ≤ fuel) (depth : Nat) :
    items? fuel depth (skipLines false (ss.flatMap itemLine ++ ']' :: rest)) =
      some (ss.map .text, rest) := by
  induction ss generalizing fuel with
  | nil =>
    obtain ⟨fuel, rfl⟩ : ∃ k, fuel = k + 1 := ⟨fuel - 1, by omega⟩
    rw [List.flatMap_nil, List.nil_append, skipLines_solid (by decide)]
    rfl
  | cons s ss ih =>
    rw [List.length_cons] at hfuel
    obtain ⟨fuel, rfl⟩ : ∃ k, fuel = k + 1 + 1 := ⟨fuel - 2, by omega⟩
    have hvalue := value?_of_text? (text?_textForm s.toList (closes_cons (c := ',') (by decide)
      ('\n' :: (ss.flatMap itemLine ++ ']' :: rest)))) fuel depth
    have hline : (s :: ss).flatMap itemLine ++ ']' :: rest = ' ' :: ' ' :: ' ' :: ' ' ::
        (textForm s.toList ++ ',' :: '\n' :: (ss.flatMap itemLine ++ ']' :: rest)) := by
      simp [itemLine]
    rw [hline, skipLines_space, skipLines_space, skipLines_space, skipLines_space,
      skipLines_textForm]
    unfold items?
    obtain ⟨c, ds, heq, hc⟩ := textForm_solid s.toList
    split
    · rename_i heq'
      rw [heq, List.cons_append] at heq'
      exact absurd heq' (cons_ne_cons hc rfl _ _)
    · rw [hvalue]
      dsimp only
      rw [skipLines_solid (by decide)]
      show (items? (fuel + 1) depth (skipLines false ('\n' :: _))).map _ = _
      rw [skipLines_newline, ih (by omega), String.ofList_toList]
      rfl

theorem length_textsForm (ss : List String) (h : 2 ≤ ss.length) :
    ss.length + 3 ≤ (textsForm ss).length := by
  have hitems : ss.length ≤ (ss.flatMap itemLine).length := by
    clear h
    induction ss with
    | nil => simp
    | cons s ss ih =>
      simp only [List.flatMap_cons, itemLine, List.length_append, List.length_cons] at ih ⊢
      omega
  rw [textsForm_eq ss h]
  simp only [List.length_cons, List.length_append]
  omega

theorem value?_items {fuel : Nat} {cs : List Char} {vs : List Node}
    (h : items? fuel 1 (skipLines false cs) = some (vs, rest)) :
    value? (fuel + 1) 0 ('[' :: cs) = some (.array vs, rest) := by
  have hdepth : ¬ nestingLimit ≤ 0 + 1 := by decide
  simp only [value?, if_neg hdepth, h, Option.map_some]

theorem items?_one (s : String) (fuel : Nat) :
    items? (fuel + 2) 1 (skipLines false (textForm s.toList ++ ']' :: rest)) =
      some ([.text s], rest) := by
  have hvalue := value?_of_text? (text?_textForm s.toList (closes_cons (c := ']') (by decide) rest))
    fuel 1
  obtain ⟨c, ds, heq, hc⟩ := textForm_solid s.toList
  rw [skipLines_textForm]
  unfold items?
  split
  · rename_i heq'
    rw [heq, List.cons_append] at heq'
    exact absurd heq' (cons_ne_cons hc rfl _ _)
  · rw [hvalue]
    dsimp only
    rw [skipLines_solid (by decide), String.ofList_toList]
    rfl

theorem written_texts (ss : List String) : Written (.array (ss.map .text)) (textsForm ss) := by
  rcases Nat.lt_or_ge ss.length 2 with hshort | hlong
  · match ss with
    | [] =>
      refine ⟨⟨'[', _, rfl, rfl⟩, fun rest h fuel hfuel => ?_⟩
      rw [textsForm, List.length_cons, List.length_singleton] at hfuel
      obtain ⟨fuel, rfl⟩ : ∃ k, fuel = k + 1 + 1 := ⟨fuel - 2, by omega⟩
      apply value?_items
      show items? (fuel + 1) 1 (skipLines false (']' :: rest)) = some ([], rest)
      rw [skipLines_solid (by decide)]
      rfl
    | [s] =>
      refine ⟨⟨'[', _, rfl, rfl⟩, fun rest h fuel hfuel => ?_⟩
      obtain ⟨c, ds, heq, -⟩ := textForm_solid s.toList
      rw [textsForm, heq, List.length_cons, List.length_append, List.length_cons,
        List.length_singleton] at hfuel
      obtain ⟨fuel, rfl⟩ : ∃ k, fuel = k + 2 + 1 := ⟨fuel - 3, by omega⟩
      rw [textsForm, List.cons_append, List.append_assoc]
      exact value?_items (items?_one s fuel)
  · rw [textsForm_eq ss hlong]
    refine ⟨⟨'[', _, rfl, rfl⟩, fun rest h fuel hfuel => ?_⟩
    have := length_textsForm ss hlong
    rw [textsForm_eq ss hlong, List.length_cons] at this
    rw [List.length_cons] at hfuel
    obtain ⟨fuel, rfl⟩ : ∃ k, fuel = k + 1 := ⟨fuel - 1, by omega⟩
    rw [List.cons_append, List.cons_append, List.append_assoc]
    apply value?_items
    rw [skipLines_newline]
    exact items?_itemLines ss (by omega) 1

end PushHub.Toml
