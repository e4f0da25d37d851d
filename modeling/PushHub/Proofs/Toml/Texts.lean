import PushHub.Toml.Reader
import PushHub.Toml.Printer
import PushHub.Proofs.Text.Digits
import Mathlib.Tactic.SplitIfs

/-! Every text is read back from the form in which it is written, whatever it holds: quotes, backslashes,
newlines and control characters. So is every key. -/
namespace PushHub.Toml

open Text

variable {cs rest done : List Char}

/-- What comes behind a value: the end of its line, or another item, or the end of an array. -/
def Closes (rest : List Char) : Prop := ∃ c cs, rest = c :: cs ∧ c ∈ ['\n', ',', ']']

theorem closes_cons {c : Char} (hc : c ∈ ['\n', ',', ']']) (cs : List Char) : Closes (c :: cs) :=
  ⟨c, cs, rfl, hc⟩

theorem Closes.stops (h : Closes rest) {p : Char → Bool}
    (hp : ['\n', ',', ']'].any p = false) : Stops p rest := by
  obtain ⟨c, cs, rfl, hc⟩ := h
  exact stops_cons (eq_false_of_mem hc hp) cs

theorem Closes.head?_ne (h : Closes rest) {c : Char} (hc : c ∉ ['\n', ',', ']']) :
    rest.head? ≠ some c := by
  obtain ⟨d, cs, rfl, hd⟩ := h
  rintro heq
  cases heq
  exact hc hd

theorem cons_ne_cons {p : Char → Bool} {c d : Char} (hc : p c = true) (hd : p d = false)
    (cs ds : List Char) : c :: cs ≠ d :: ds := by
  intro heq
  rw [(List.cons.inj heq).1, hd] at hc
  cases hc

/-! ## Characters -/

theorem hex?_append {width : Nat} {ds : List Char} (hlength : ds.length = width)
    {n : Nat} (h : hex? width ds = some (n, [])) : hex? width (ds ++ rest) = some (n, rest) := by
  subst hlength
  unfold hex? at h ⊢
  rw [List.take_length] at h
  rw [List.take_left, List.drop_left]
  cases hm : ds.mapM hexDigit? with
  | none => simp [hm] at h
  | some values =>
    simp only [hm, Option.bind_eq_bind, Option.bind_some] at h ⊢
    split_ifs at h ⊢ with hl
    · cases h
    · simpa using h

theorem hex?_hexPadded : ∀ n < 128,
    ((hexPadded 4 n).map Char.toUpper).length = 4 ∧
      hex? 4 ((hexPadded 4 n).map Char.toUpper) = some (n, []) := by
  decide

theorem scalar?_toNat (c : Char) : scalar? (some (c.toNat, rest)) = some (c, rest) := by
  have hvalid : c.toNat.isValidChar := c.valid
  simp [scalar?, hvalid, Char.ofNat_toNat]

theorem basicChar_cases (c : Char) :
    (∃ e es, basicChar c = '\\' :: e :: es ∧ e ∉ [' ', '\t', '\n', '\r'] ∧
      ∀ rest, escape? (e :: (es ++ rest)) = some (c, rest)) ∨
    (basicChar c = [c] ∧ c ≠ '"' ∧ c ≠ '\\' ∧ c ≠ '\n' ∧ c ≠ '\r' ∧ isLineChar c = true) := by
  unfold basicChar
  split_ifs with hback htab hline hfeed hreturn hslash hquote hcontrol
  iterate 7
    subst c
    exact .inl ⟨_, [], rfl, by decide, fun _ => rfl⟩
  · refine .inl ⟨'u', (hexPadded 4 c.toNat).map Char.toUpper, rfl, by decide, fun rest => ?_⟩
    obtain ⟨hlength, hvalue⟩ := hex?_hexPadded c.toNat (by omega)
    rw [escape?, hex?_append hlength hvalue, scalar?_toNat]
  · refine .inr ⟨rfl, hquote, hslash, hline, hreturn, ?_⟩
    simp only [isLineChar, Bool.or_eq_true, Bool.and_eq_true, decide_eq_true_eq]
    omega

theorem head?_basicChar (c : Char) (cs : List Char) : (basicChar c ++ cs).head? ≠ some '"' := by
  rcases basicChar_cases c with ⟨e, es, heq, -⟩ | ⟨heq, hquote, -⟩
  · simp [heq]
  · simpa [heq] using hquote

/-! ## Texts on one line -/

theorem basic_basicChar (c : Char) (fuel : Nat) :
    basic done (fuel + 1) (basicChar c ++ rest) = basic (c :: done) fuel rest := by
  rcases basicChar_cases c with ⟨e, es, heq, -, hescape⟩ | ⟨heq, hquote, hslash, -, -, hline⟩
  · simp [heq, basic, hescape]
  · simp [heq, basic, hquote, hslash, hline]

theorem basic_flatMap (cs : List Char) (fuel : Nat) :
    basic done (cs.length + fuel) (cs.flatMap basicChar ++ rest) =
      basic (cs.reverse ++ done) fuel rest := by
  induction cs generalizing done with
  | nil => simp
  | cons c cs ih =>
    rw [List.flatMap_cons, List.append_assoc, List.length_cons, Nat.add_right_comm, basic_basicChar,
      ih, List.reverse_cons, List.append_assoc]
    rfl

theorem length_basicChar (c : Char) : 1 ≤ (basicChar c).length := by
  rcases basicChar_cases c with ⟨e, es, heq, -⟩ | ⟨heq, -⟩ <;> simp [heq]

theorem length_le_flatMap (cs : List Char) : cs.length ≤ (cs.flatMap basicChar).length := by
  induction cs with
  | nil => simp
  | cons c cs ih =>
    have := length_basicChar c
    rw [List.flatMap_cons, List.length_append, List.length_cons]
    omega

theorem basic_basicForm (cs rest : List Char) :
    basic [] (cs.flatMap basicChar ++ '"' :: rest).length (cs.flatMap basicChar ++ '"' :: rest) =
      some (String.ofList cs, rest) := by
  obtain ⟨fuel, hfuel⟩ : ∃ fuel,
      (cs.flatMap basicChar ++ '"' :: rest).length = cs.length + (fuel + 1) := by
    have := length_le_flatMap cs
    refine ⟨(cs.flatMap basicChar ++ '"' :: rest).length - cs.length - 1, ?_⟩
    simp only [List.length_append, List.length_cons]
    omega
  rw [hfuel, basic_flatMap]
  simp [basic]

def Literal (cs : List Char) : Prop := ∀ c ∈ cs, c ≠ '\'' ∧ isLineChar c = true

theorem literal_literalForm (h : Literal cs) :
    literal done (cs ++ '\'' :: rest) = some (String.ofList (done.reverse ++ cs), rest) := by
  induction cs generalizing done with
  | nil => simp [literal]
  | cons c cs ih =>
    obtain ⟨hmark, hline⟩ := h c List.mem_cons_self
    rw [List.cons_append, literal, if_neg hmark, if_pos hline,
      ih fun d hd => h d (List.mem_cons_of_mem c hd)]
    simp

/-! ## Texts over several lines -/

theorem marks_inside {mark : Char} {n : Nat} (hn : n ≤ 2) (hrest : rest.head? ≠ some mark) :
    marks mark (List.replicate n mark ++ rest) = .inside n := by
  have hstop : Stops (· = mark) rest := fun c hc => decide_eq_false fun heq => hrest (heq ▸ hc)
  have htake := hstop.takeWhile_append fun c (hc : c ∈ List.replicate n mark) =>
    decide_eq_true (List.eq_of_mem_replicate hc)
  unfold marks
  dsimp only
  rw [htake, List.length_replicate, if_pos (by omega)]

theorem marks_ending {mark : Char} {n : Nat} (hn : n ≤ 2) (hrest : rest.head? ≠ some mark) :
    marks mark (List.replicate (n + 3) mark ++ rest) = .ending n := by
  have hstop : Stops (· = mark) rest := fun c hc => decide_eq_false fun heq => hrest (heq ▸ hc)
  have htake := hstop.takeWhile_append fun c (hc : c ∈ List.replicate (n + 3) mark) =>
    decide_eq_true (List.eq_of_mem_replicate hc)
  unfold marks
  dsimp only
  rw [htake, List.length_replicate, if_neg (by omega), show min (n + 3) 5 - 3 = n by omega]

theorem replicate_marks (mark : Char) (n : Nat) (rest : List Char) :
    List.replicate n mark ++ mark :: mark :: mark :: rest = List.replicate (n + 3) mark ++ rest := by
  rw [← List.replicate_append_replicate]
  simp [List.replicate_succ]

/-- A character of a basic text over several lines, unless it is a mark that may stand as it is. -/
def linesChar (c : Char) : List Char := if c = '\n' then [c] else basicChar c

theorem basicLinesChars_cons (run : Nat) (c : Char) (cs : List Char) :
    basicLinesChars run (c :: cs) =
      if c = '"' ∧ run < 2 then c :: basicLinesChars (run + 1) cs
      else linesChar c ++ basicLinesChars 0 cs := by
  unfold linesChar
  rw [basicLinesChars]
  split_ifs <;> simp_all [basicChar]

theorem head?_linesChar (c : Char) (cs : List Char) : (linesChar c ++ cs).head? ≠ some '"' := by
  unfold linesChar
  split_ifs with hline
  · simp [hline]
  · exact head?_basicChar c cs

theorem basicLines_linesChar (c : Char) (fuel : Nat) :
    basicLines done (fuel + 1) (linesChar c ++ rest) = basicLines (c :: done) fuel rest := by
  unfold linesChar
  split_ifs with hline
  · subst c
    simp [basicLines, newline?]
  · rcases basicChar_cases c with ⟨e, es, heq, he, hescape⟩ | ⟨heq, hquote, hslash, hn, hr, hline⟩
    · have hblank : newline? (skipSpaces (e :: (es ++ rest))) = none := by
        simp only [List.mem_cons, List.not_mem_nil, or_false, not_or] at he
        simp [skipSpaces, isSpace, he.1, he.2.1, newline?, he.2.2.1, he.2.2.2]
      simp [heq, basicLines, hblank, hescape]
    · simp [heq, basicLines, hquote, hslash, newline?, hn, hr, hline]

/-- How many steps the marks before a character take that is none. -/
def flushed (run : Nat) : Nat := min run 1

theorem basicLines_marks {run : Nat} (hrun : run ≤ 2) (hrest : rest.head? ≠ some '"') (fuel : Nat) :
    basicLines done (flushed run + fuel) (List.replicate run '"' ++ rest) =
      basicLines (List.replicate run '"' ++ done) fuel rest := by
  cases run with
  | zero => simp [flushed]
  | succ run =>
    have hmarks := marks_inside hrun hrest
    rw [List.replicate_succ, List.cons_append] at hmarks
    rw [flushed, Nat.min_eq_right (by omega), Nat.add_comm, List.replicate_succ, List.cons_append,
      basicLines, if_pos rfl, hmarks]
    simp [List.replicate_succ]

theorem basicLines_end {run : Nat} (hrun : run ≤ 2) (hrest : rest.head? ≠ some '"') (fuel : Nat) :
    basicLines done (fuel + 1) (List.replicate run '"' ++ '"' :: '"' :: '"' :: rest) =
      some (String.ofList (done.reverse ++ List.replicate run '"'), rest) := by
  have hmarks := marks_ending hrun hrest
  rw [replicate_marks]
  rw [List.replicate_succ, List.cons_append] at hmarks ⊢
  rw [basicLines, if_pos rfl, hmarks]
  have hdrop : (List.replicate (run + 2) '"' ++ rest).drop (run + 2) = rest := by
    simp
  simp [hdrop]

/-- The characters of a text are read with the marks that already stand before them. -/
theorem basicLines_basicLinesChars (cs done : List Char) (run fuel : Nat) (hrun : run ≤ 2)
    (hrest : rest.head? ≠ some '"') (hfuel : flushed run + cs.length + 1 ≤ fuel) :
    basicLines done fuel (List.replicate run '"' ++ (basicLinesChars run cs ++ '"' :: '"' :: '"' :: rest)) =
      some (String.ofList (done.reverse ++ (List.replicate run '"' ++ cs)), rest) := by
  induction cs generalizing run done fuel with
  | nil =>
    obtain ⟨fuel, rfl⟩ : ∃ n, fuel = n + 1 := ⟨fuel - 1, by omega⟩
    rw [basicLinesChars, List.nil_append, basicLines_end hrun hrest, List.append_nil]
  | cons c cs ih =>
    rw [List.length_cons] at hfuel
    rw [basicLinesChars_cons]
    split_ifs with hmark
    · obtain ⟨rfl, hlt⟩ := hmark
      have hread := ih done (run + 1) fuel (by omega) (by
        unfold flushed at hfuel ⊢
        omega)
      rw [List.replicate_succ', List.append_assoc, List.append_assoc] at hread
      exact hread
    · obtain ⟨fuel, rfl⟩ : ∃ n, fuel = flushed run + (n + 1) :=
        ⟨fuel - flushed run - 1, by omega⟩
      have hread := ih (c :: (List.replicate run '"' ++ done)) 0 fuel (by omega) (by
        unfold flushed at hfuel ⊢
        omega)
      rw [List.append_assoc, basicLines_marks hrun (head?_linesChar c _), basicLines_linesChar]
      simpa using hread

/-- What a literal text over several lines may hold besides marks. -/
def Plain (cs : List Char) : Prop := ∀ c ∈ cs, c = '\n' ∨ c ≠ '\r' ∧ isLineChar c = true

theorem le_longestRun (mark : Char) (cs : List Char) (run best : Nat) :
    best ≤ longestRun mark run best cs := by
  induction cs generalizing run best with
  | nil => exact Nat.le_refl _
  | cons c cs ih =>
    unfold longestRun
    split_ifs
    · exact Nat.le_trans (Nat.le_max_left _ _) (ih _ _)
    · exact ih _ _

theorem longestRun_mono (mark : Char) (cs : List Char) (run : Nat) {best best' : Nat}
    (h : best ≤ best') : longestRun mark run best cs ≤ longestRun mark run best' cs := by
  induction cs generalizing run best best' with
  | nil => exact h
  | cons c cs ih =>
    unfold longestRun
    split_ifs
    · apply ih
      omega
    · exact ih _ h

theorem longestRun_eq_zero {mark : Char} {cs : List Char} (h : longestRun mark 0 0 cs = 0) :
    ∀ c ∈ cs, c ≠ mark := by
  induction cs with
  | nil => simp
  | cons c cs ih =>
    unfold longestRun at h
    split_ifs at h with hc
    · have := le_longestRun mark cs (0 + 1) (max 0 (0 + 1))
      omega
    · simpa [hc] using ih h

theorem literalLines_marks {run : Nat} (hrun : run ≤ 2) (hrest : rest.head? ≠ some '\'') (fuel : Nat) :
    literalLines done (flushed run + fuel) (List.replicate run '\'' ++ rest) =
      literalLines (List.replicate run '\'' ++ done) fuel rest := by
  cases run with
  | zero => simp [flushed]
  | succ run =>
    have hmarks := marks_inside hrun hrest
    rw [List.replicate_succ, List.cons_append] at hmarks
    rw [flushed, Nat.min_eq_right (by omega), Nat.add_comm, List.replicate_succ, List.cons_append,
      literalLines, if_pos rfl, hmarks]
    simp [List.replicate_succ]

theorem literalLines_end {run : Nat} (hrun : run ≤ 2) (hrest : rest.head? ≠ some '\'') (fuel : Nat) :
    literalLines done (fuel + 1) (List.replicate run '\'' ++ '\'' :: '\'' :: '\'' :: rest) =
      some (String.ofList (done.reverse ++ List.replicate run '\''), rest) := by
  have hmarks := marks_ending hrun hrest
  rw [replicate_marks]
  rw [List.replicate_succ, List.cons_append] at hmarks ⊢
  rw [literalLines, if_pos rfl, hmarks]
  have hdrop : (List.replicate (run + 2) '\'' ++ rest).drop (run + 2) = rest := by
    simp
  simp [hdrop]

theorem literalLines_char {c : Char} (hmark : c ≠ '\'') (hc : c = '\n' ∨ c ≠ '\r' ∧ isLineChar c = true)
    (fuel : Nat) : literalLines done (fuel + 1) (c :: rest) = literalLines (c :: done) fuel rest := by
  by_cases hline : c = '\n'
  · subst c
    simp [literalLines, newline?]
  · obtain ⟨hreturn, hchar⟩ := hc.resolve_left hline
    simp [literalLines, hmark, newline?, hline, hreturn, hchar]

theorem literalLines_plain {cs : List Char} (hcs : Plain cs) (done : List Char) (run fuel : Nat)
    (hruns : longestRun '\'' run run cs ≤ 2) (hrest : rest.head? ≠ some '\'')
    (hfuel : flushed run + cs.length + 1 ≤ fuel) :
    literalLines done fuel (List.replicate run '\'' ++ (cs ++ '\'' :: '\'' :: '\'' :: rest)) =
      some (String.ofList (done.reverse ++ (List.replicate run '\'' ++ cs)), rest) := by
  have hrun := Nat.le_trans (le_longestRun '\'' cs run run) hruns
  induction cs generalizing run done fuel with
  | nil =>
    obtain ⟨fuel, rfl⟩ : ∃ n, fuel = n + 1 := ⟨fuel - 1, by omega⟩
    rw [List.nil_append, literalLines_end hrun hrest, List.append_nil]
  | cons c cs ih =>
    have hc := hcs c List.mem_cons_self
    have hcs' : Plain cs := fun d hd => hcs d (List.mem_cons_of_mem c hd)
    rw [List.length_cons] at hfuel
    unfold longestRun at hruns
    split_ifs at hruns with hmark
    · subst hmark
      rw [show max run (run + 1) = run + 1 by omega] at hruns
      have hlt := le_longestRun '\'' cs (run + 1) (run + 1)
      have hread := ih hcs' done (run + 1) fuel hruns (by
        unfold flushed at hfuel ⊢
        omega) (by omega)
      rw [List.replicate_succ', List.append_assoc, List.append_assoc] at hread
      exact hread
    · obtain ⟨fuel, rfl⟩ : ∃ n, fuel = flushed run + (n + 1) :=
        ⟨fuel - flushed run - 1, by omega⟩
      have hread := ih hcs' (c :: (List.replicate run '\'' ++ done)) 0 fuel
        (Nat.le_trans (longestRun_mono '\'' cs 0 (Nat.zero_le run)) hruns) (by
          unfold flushed at hfuel ⊢
          omega) (by omega)
      rw [List.cons_append, literalLines_marks hrun (by simpa using hmark), literalLines_char hmark hc]
      simpa using hread

/-! ## The form that is chosen -/

theorem text?_basic (h : ∀ r, cs ≠ '"' :: '"' :: r) : text? ('"' :: cs) = basic [] cs.length cs := by
  rw [text?]
  rintro r heq
  exact h r heq

theorem text?_literal (h : ∀ r, cs ≠ '\'' :: '\'' :: r) : text? ('\'' :: cs) = literal [] cs := by
  rw [text?]
  rintro r heq
  exact h r heq

theorem text?_basicForm (cs : List Char) (h : Closes rest) :
    text? (basicForm cs ++ rest) = some (String.ofList cs, rest) := by
  have hmarks : ∀ r, cs.flatMap basicChar ++ '"' :: rest ≠ '"' :: '"' :: r := by
    intro r heq
    cases cs with
    | nil =>
      rw [List.flatMap_nil, List.nil_append, List.cons.injEq] at heq
      exact h.head?_ne (c := '"') (by decide) (heq.2 ▸ rfl)
    | cons c cs =>
      have hhead := head?_basicChar c (cs.flatMap basicChar ++ '"' :: rest)
      rw [← List.append_assoc, ← List.flatMap_cons, heq] at hhead
      exact hhead rfl
  rw [show basicForm cs ++ rest = '"' :: (cs.flatMap basicChar ++ '"' :: rest) by simp [basicForm],
    text?_basic hmarks, basic_basicForm]

theorem text?_literalForm (hcs : Literal cs) (hne : cs ≠ []) :
    text? (literalForm cs ++ rest) = some (String.ofList cs, rest) := by
  have hmarks : ∀ r, cs ++ '\'' :: rest ≠ '\'' :: '\'' :: r := by
    intro r heq
    obtain ⟨c, ds, rfl⟩ := List.exists_cons_of_ne_nil hne
    exact (hcs c List.mem_cons_self).1 (List.cons.inj heq).1
  rw [show literalForm cs ++ rest = '\'' :: (cs ++ '\'' :: rest) by simp [literalForm],
    text?_literal hmarks, literal_literalForm hcs]
  rfl

theorem afterMarks_of_stops (h : Stops (fun c => c = '\n' ∨ c = '\r') cs) : afterMarks cs = cs := by
  have hnone : newline? cs = none := by
    unfold newline?
    split
    · exact absurd (h _ rfl) (by decide)
    · exact absurd (h _ rfl) (by decide)
    · rfl
  rw [afterMarks, hnone, Option.getD_none]

theorem afterMarks_linesForm {newline : Bool} {body : List Char}
    (h : newline = false → Stops (fun c => c = '\n' ∨ c = '\r') body) :
    afterMarks ((if newline then ['\n'] else []) ++ body) = body := by
  cases newline with
  | true => rfl
  | false => exact afterMarks_of_stops (h rfl)

theorem length_le_basicLinesChars (cs : List Char) (run : Nat) :
    cs.length ≤ (basicLinesChars run cs).length := by
  induction cs generalizing run with
  | nil => simp
  | cons c cs ih =>
    have hpos : 1 ≤ (linesChar c).length := by
      unfold linesChar
      split_ifs
      · simp
      · exact length_basicChar c
    rw [basicLinesChars_cons]
    split_ifs
    · simpa using ih (run + 1)
    · have := ih 0
      rw [List.length_append, List.length_cons]
      omega

theorem stops_basicLinesChars (hline : '\n' ∉ cs) :
    Stops (fun c => c = '\n' ∨ c = '\r') (basicLinesChars 0 cs ++ '"' :: rest) := by
  cases cs with
  | nil => exact stops_cons (by decide) _
  | cons c cs =>
    have hc : c ≠ '\n' := fun heq => hline (heq ▸ List.mem_cons_self)
    rw [basicLinesChars_cons]
    split_ifs with hmark
    · rw [hmark.1]
      exact stops_cons (by decide) _
    · rw [linesChar, if_neg hc]
      rcases basicChar_cases c with ⟨e, es, heq, -⟩ | ⟨heq, -, -, -, hreturn, -⟩
      · rw [heq]
        exact stops_cons (by decide) _
      · rw [heq]
        exact stops_cons (by simp [hc, hreturn]) _

theorem text?_basicLines (cs : List Char) (h : Closes rest) {newline : Bool}
    (hline : newline = false → '\n' ∉ cs) :
    text? (linesForm '"' newline (basicLinesChars 0 cs) ++ rest) = some (String.ofList cs, rest) := by
  have hform : linesForm '"' newline (basicLinesChars 0 cs) ++ rest = '"' :: '"' :: '"' ::
      ((if newline then ['\n'] else []) ++ (basicLinesChars 0 cs ++ '"' :: '"' :: '"' :: rest)) := by
    simp [linesForm]
  have hrest : rest.head? ≠ some '"' := h.head?_ne (by decide)
  rw [hform, text?, afterMarks_linesForm fun hn => stops_basicLinesChars (hline hn)]
  refine basicLines_basicLinesChars cs [] 0 _ (by omega) hrest ?_
  have := length_le_basicLinesChars cs 0
  simp only [flushed, List.length_append]
  omega

theorem text?_literalLines (hcs : Plain cs) (hruns : longestRun '\'' 0 0 cs ≤ 2) (h : Closes rest)
    {newline : Bool} (hline : newline = false → '\n' ∉ cs) :
    text? (linesForm '\'' newline cs ++ rest) = some (String.ofList cs, rest) := by
  have hform : linesForm '\'' newline cs ++ rest = '\'' :: '\'' :: '\'' ::
      ((if newline then ['\n'] else []) ++ (cs ++ '\'' :: '\'' :: '\'' :: rest)) := by
    simp [linesForm]
  have hrest : rest.head? ≠ some '\'' := h.head?_ne (by decide)
  have hstops : newline = false →
      Stops (fun c => c = '\n' ∨ c = '\r') (cs ++ '\'' :: '\'' :: '\'' :: rest) := by
    intro hn
    cases cs with
    | nil => exact stops_cons (by decide) _
    | cons c cs =>
      have hc : c ≠ '\n' := fun heq => hline hn (heq ▸ List.mem_cons_self)
      have hreturn := ((hcs c List.mem_cons_self).resolve_left hc).1
      exact stops_cons (by simp [hc, hreturn]) _
  rw [hform, text?, afterMarks_linesForm hstops]
  refine literalLines_plain hcs [] 0 _ hruns hrest ?_
  simp only [flushed, List.length_append]
  omega

theorem isLineChar_of_control {c : Char} (hcontrol : isControl c = false) (hline : c ≠ '\n') :
    c ≠ '\r' ∧ isLineChar c = true := by
  refine ⟨fun heq => ?_, ?_⟩
  · subst c
    cases hcontrol
  · simp only [isControl, Bool.or_eq_false_iff, Bool.and_eq_false_iff, decide_eq_false_iff_not,
      beq_eq_false_iff_ne, ne_eq] at hcontrol
    simp only [isLineChar, Bool.or_eq_true, Bool.and_eq_true, decide_eq_true_eq]
    grind

theorem plain_of_traits (h : (traits cs).controls = false) : Plain cs := by
  intro c hc
  have hcontrol : isControl c = false :=
    Bool.eq_false_iff.mpr fun hyes => Bool.eq_false_iff.mp h (List.any_eq_true.mpr ⟨c, hc, hyes⟩)
  by_cases hline : c = '\n'
  · exact .inl hline
  · exact .inr (isLineChar_of_control hcontrol hline)

theorem not_mem_of_traits (h : (traits cs).newline = false) : '\n' ∉ cs := by
  simpa [traits] using h

theorem literal_of_traits (hcontrols : (traits cs).controls = false) (hsingles : (traits cs).singles = 0)
    (hline : (traits cs).newline = false) : Literal cs := by
  intro c hc
  have hne : c ≠ '\n' := fun heq => not_mem_of_traits hline (heq ▸ hc)
  exact ⟨longestRun_eq_zero hsingles c hc, ((plain_of_traits hcontrols c hc).resolve_left hne).2⟩

theorem text?_textForm (cs : List Char) (h : Closes rest) :
    text? (textForm cs ++ rest) = some (String.ofList cs, rest) := by
  unfold textForm
  dsimp only
  split_ifs with hbasic hliteral hlines hliterals hline
  · exact text?_basicForm cs h
  · simp only [Bool.and_eq_true, Bool.not_eq_true', beq_iff_eq] at hliteral
    have hne : cs ≠ [] := by
      rintro rfl
      exact hbasic rfl
    exact text?_literalForm (literal_of_traits hliteral.1.1 hliteral.1.2 hliteral.2) hne
  · exact text?_basicLines cs h not_mem_of_traits
  · simp only [Bool.and_eq_true, Bool.not_eq_true', decide_eq_true_eq] at hliterals
    exact text?_literalLines (plain_of_traits hliterals.1) hliterals.2 h not_mem_of_traits
  · exact text?_basicLines cs h not_mem_of_traits
  · exact text?_basicForm cs h

/-! ## Keys -/

theorem isSpace_of_isBareChar {c : Char} (hc : isBareChar c = true) : isSpace c = false := by
  apply Bool.eq_false_iff.mpr
  intro hspace
  simp only [isSpace, Bool.or_eq_true, decide_eq_true_eq] at hspace
  rcases hspace with rfl | rfl <;> cases hc

theorem key?_basicForm (cs rest : List Char) :
    key? (basicForm cs ++ rest) = some (String.ofList cs, rest) := by
  rw [show basicForm cs ++ rest = '"' :: (cs.flatMap basicChar ++ '"' :: rest) by simp [basicForm],
    key?, basic_basicForm]

theorem key?_literalForm (hcs : Literal cs) :
    key? (literalForm cs ++ rest) = some (String.ofList cs, rest) := by
  rw [show literalForm cs ++ rest = '\'' :: (cs ++ '\'' :: rest) by simp [literalForm], key?,
    literal_literalForm hcs]
  rfl

theorem key?_bare (hne : cs ≠ []) (hcs : ∀ c ∈ cs, isBareChar c = true) (h : Stops isBareChar rest) :
    key? (cs ++ rest) = some (String.ofList cs, rest) := by
  obtain ⟨c, ds, rfl⟩ := List.exists_cons_of_ne_nil hne
  have hc := hcs c List.mem_cons_self
  have htake := h.takeWhile_append hcs
  unfold key?
  split
  · rename_i heq
    exact absurd heq (cons_ne_cons hc rfl _ _)
  · rename_i heq
    exact absurd heq (cons_ne_cons hc rfl _ _)
  · rw [htake, h.dropWhile_append hcs]

theorem key?_keyForm (cs : List Char) (h : Stops isBareChar rest) :
    key? (keyForm cs ++ rest) = some (String.ofList cs, rest) := by
  unfold keyForm
  dsimp only
  split_ifs with hbare hbasic hliteral
  · simp only [Bool.and_eq_true, Bool.not_eq_true', List.isEmpty_eq_false_iff, List.all_eq_true]
      at hbare
    exact key?_bare hbare.1 hbare.2 h
  · exact key?_basicForm cs rest
  · simp only [Bool.and_eq_true, Bool.not_eq_true', beq_iff_eq] at hliteral
    exact key?_literalForm (literal_of_traits hliteral.1.1 hliteral.1.2 hliteral.2)
  · exact key?_basicForm cs rest

end PushHub.Toml
