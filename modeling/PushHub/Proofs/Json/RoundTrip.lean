import PushHub.Json.Decode
import PushHub.Proofs.Text.Decimal
import Mathlib.Tactic.SplitIfs
import Mathlib.Data.List.TakeDrop

/-! A value without doubles is read back from its text as it was written. Its characters spell its
tokens, wherever it stands in a text, and its tokens are read as its outline. -/
namespace PushHub

theorem WireInt.ofInt?_value (n : WireInt) : WireInt.ofInt? n.value = some n := by
  unfold ofInt?
  rw [dif_pos ⟨n.lower, n.upper⟩]

namespace Json

mutual

def isExact : Json → Bool
  | .number (.float _) => false
  | .list items => areExact items
  | .object members => membersExact members
  | _ => true

def areExact : List Json → Bool
  | [] => true
  | v :: rest => isExact v && areExact rest

def membersExact : List (String × Json) → Bool
  | [] => true
  | (_, v) :: rest => isExact v && membersExact rest

end

/-! ## The tokens of a value -/

namespace Token

def separated : List (List Token) → List Token
  | [] => []
  | [ts] => ts
  | ts :: rest => ts ++ .comma :: separated rest

end Token

mutual

def tokens : Json → List Token
  | .null => [.null]
  | .bool b => [.bool b]
  | .number n => [.number (some n)]
  | .text s => [.text (some s)]
  | .list items => .openList :: (Token.separated (itemTokens items) ++ [.closeList])
  | .object members => .openObject :: (Token.separated (memberTokens members) ++ [.closeObject])

def itemTokens : List Json → List (List Token)
  | [] => []
  | v :: rest => tokens v :: itemTokens rest

def memberTokens : List (String × Json) → List (List Token)
  | [] => []
  | (k, v) :: rest => (.text (some k) :: .colon :: tokens v) :: memberTokens rest

end

/-! ## Numbers -/

namespace Token

/-- What may follow a value in a text. -/
def Ends (rest : List Char) : Prop := ∀ c, rest.head? = some c → c ∈ [',', ':', ']', '}']

theorem ends_cons {c : Char} (hc : c ∈ [',', ':', ']', '}']) (cs : List Char) : Ends (c :: cs) := by
  rintro d hd
  cases hd
  exact hc

end Token

namespace Numeral

open Token

variable {rest : List Char}

theorem le_ofDigitChars (cs : List Char) (n : Nat) : n ≤ Nat.ofDigitChars 10 cs n := by
  induction cs generalizing n with
  | nil => exact Nat.le_refl _
  | cons c cs ih =>
    rw [Nat.ofDigitChars_cons]
    exact Nat.le_trans (by omega) (ih _)

theorem whole_eq {cs : List Char} {n : Nat} (h : Nat.ofDigitChars 10 cs n < UInt64.size) (p : Int) :
    Scaled.whole ⟨n, p⟩ cs false = ⟨Nat.ofDigitChars 10 cs n, p⟩ := by
  induction cs generalizing n with
  | nil => rfl
  | cons c cs ih =>
    rw [Nat.ofDigitChars_cons] at h ⊢
    have hlt := Nat.lt_of_le_of_lt (le_ofDigitChars cs _) h
    rw [Scaled.whole, if_neg]
    · exact ih h
    · simp only [Bool.false_or, decide_eq_true_eq, Nat.not_le]
      exact hlt

theorem digitsAfter_decimal (n : Nat) (hr : Ends rest) :
    digitsAfter (Text.decimal n ++ rest) = some (Text.decimal n, rest) := by
  have hdigit : ∀ c ∈ Text.decimal n, c.isDigit = true := fun c hc => Text.isDigit_of_mem_decimal hc
  have hstop : rest.takeWhile Char.isDigit = [] ∧ rest.dropWhile Char.isDigit = rest := by
    cases rest with
    | nil => exact ⟨rfl, rfl⟩
    | cons c rest =>
      have hc : ∀ d ∈ [',', ':', ']', '}'], ¬ d.isDigit = true := by simp
      have hnot := hc c (hr c rfl)
      exact ⟨List.takeWhile_cons_of_neg hnot, List.dropWhile_cons_of_neg hnot⟩
  unfold digitsAfter digits
  rw [List.span_eq_takeWhile_dropWhile, List.takeWhile_append_of_pos hdigit,
    List.dropWhile_append_of_pos hdigit, hstop.1, hstop.2, List.append_nil]
  split
  · rename_i heq
    exact absurd (congrArg Prod.fst heq) (Text.decimal_ne_nil n)
  · rename_i heq
    cases heq
    rfl

theorem leading_zero (n : Nat) :
    ¬ ((Text.decimal n).head? = some '0' ∧ (Text.decimal n).length ≠ 1) := by
  rintro ⟨hhead, hlength⟩
  obtain rfl | hn := Nat.eq_zero_or_pos n
  · exact hlength rfl
  · exact Text.head?_decimal_of_pos hn hhead

theorem scanFraction_of_ends (hr : Ends rest) : scanFraction rest = some (none, rest) := by
  cases rest with
  | nil => rfl
  | cons c rest =>
    have hc : ∀ d ∈ [',', ':', ']', '}'], d ≠ '.' := by simp
    rw [scanFraction]
    rintro r heq
    exact hc c (hr c rfl) (List.cons.inj heq).1

theorem scanExponent_of_ends (hr : Ends rest) : scanExponent rest = some (none, rest) := by
  cases rest with
  | nil => rfl
  | cons c rest =>
    have hc : ∀ d ∈ [',', ':', ']', '}'], ¬ (d = 'e' ∨ d = 'E') := by simp
    exact if_neg (hc c (hr c rfl))

theorem decimal_append_ne_minus (n : Nat) (r : List Char) : Text.decimal n ++ rest ≠ '-' :: r := by
  intro heq
  obtain ⟨c, ds, hds⟩ := List.exists_cons_of_ne_nil (Text.decimal_ne_nil n)
  have hdigit : c.isDigit = true := Text.isDigit_of_mem_decimal (hds ▸ List.mem_cons_self)
  rw [hds, List.cons_append] at heq
  rw [(List.cons.inj heq).1] at hdigit
  cases hdigit

theorem scan_integer (i : Int) (hr : Ends rest) :
    scan (Text.integer i ++ rest) = some (⟨i < 0, Text.decimal i.natAbs, none, none⟩, rest) := by
  unfold Text.integer
  split_ifs with hneg
  · simp only [scan, List.cons_append, digitsAfter_decimal _ hr, Option.bind_eq_bind,
      Option.bind_some, if_neg (leading_zero _), scanFraction_of_ends hr, scanExponent_of_ends hr,
      decide_eq_true hneg]
  · simp only [scan]
    split
    case h_1 heq => exact absurd heq (decimal_append_ne_minus _ _)
    simp only [digitsAfter_decimal _ hr, Option.bind_eq_bind, Option.bind_some,
      if_neg (leading_zero _), scanFraction_of_ends hr, scanExponent_of_ends hr,
      decide_eq_false hneg]

theorem value_integer (n : WireInt) :
    value ⟨n.value < 0, Text.decimal n.value.natAbs, none, none⟩ = some (.integer n) := by
  have hlt : n.value.natAbs < UInt64.size := by
    have := n.lower
    have := n.upper
    simp only [UInt64.size]
    omega
  have hwhole : Scaled.whole ⟨0, 0⟩ (Text.decimal n.value.natAbs) false = ⟨n.value.natAbs, 0⟩ := by
    have hvalue := Text.digitsValue_decimal n.value.natAbs
    unfold Text.digitsValue at hvalue
    rw [whole_eq (by rw [hvalue]; exact hlt), hvalue]
  have hsigned : (if decide (n.value < 0) = true then -(n.value.natAbs : Int) else n.value.natAbs) =
      n.value := by
    split_ifs with hneg
    · have := of_decide_eq_true hneg
      omega
    · have := of_decide_eq_false (Bool.eq_false_iff.mpr hneg)
      omega
  have hzero : ¬ (decide (n.value < 0) = true ∧ n.value.natAbs = 0) := by
    rintro ⟨hneg, hnone⟩
    have := of_decide_eq_true hneg
    omega
  unfold value
  rw [hwhole]
  dsimp only
  rw [if_pos ⟨rfl, hzero⟩, hsigned, WireInt.ofInt?_value]

end Numeral

namespace Token

theorem next?_integer (n : WireInt) {rest : List Char} (hr : Ends rest) :
    next? ((Text.integer n.value ++ rest).dropWhile isSpace) =
      some (.number (some (.integer n)), rest) := by
  have hcs : ∃ c cs, Text.integer n.value ++ rest = c :: cs ∧ (c = '-' ∨ c.isDigit) := by
    unfold Text.integer
    split_ifs
    · exact ⟨_, _, rfl, .inl rfl⟩
    · obtain ⟨c, cs, heq⟩ := List.exists_cons_of_ne_nil (Text.decimal_ne_nil n.value.natAbs)
      refine ⟨c, cs ++ rest, by rw [heq, List.cons_append], .inr ?_⟩
      exact Text.isDigit_of_mem_decimal (heq ▸ List.mem_cons_self)
  have hscan := Numeral.scan_integer n.value hr
  obtain ⟨c, cs, heq, hc⟩ := hcs
  have hspace : ¬ isSpace c = true := by
    intro hspace
    simp only [isSpace, Bool.or_eq_true, decide_eq_true_eq] at hspace
    rcases hspace with ((rfl | rfl) | rfl) | rfl <;> exact absurd hc (by decide)
  rw [heq] at hscan ⊢
  rw [List.dropWhile_cons_of_neg hspace]
  simp only [next?]
  split
  case h_11 =>
    rw [if_pos hc, hscan]
    dsimp only
    rw [Numeral.value_integer]
  all_goals exact absurd hc (by decide)

/-! ## Texts -/

theorem hexValue?_hexPadded : ∀ n < 32,
    (Text.hexPadded 4 n).length = 4 ∧ hexValue? (Text.hexPadded 4 n) = some (n, []) := by decide

theorem unit_of_small {n : Nat} (hn : n < 32) (h : Held) : h.unit n = h.char (Char.ofNat n) := by
  unfold Held.unit
  rw [if_neg (by omega), if_neg (by omega)]

theorem scanText_control {c : Char} (hc : c.toNat < 32) (h : Held) (rest : List Char) :
    scanText h ('\\' :: 'u' :: (Text.hexPadded 4 c.toNat ++ rest)) = scanText (h.char c) rest := by
  obtain ⟨hlength, hvalue⟩ := hexValue?_hexPadded c.toNat hc
  match hcs : Text.hexPadded 4 c.toNat, hlength with
  | [x, y, z, w], _ =>
    rw [hcs] at hvalue
    show scanText h ('\\' :: 'u' :: x :: y :: z :: w :: rest) = _
    rw [scanText, hvalue]
    dsimp only
    rw [unit_of_small hc, Char.ofNat_toNat]

theorem scanText_plain {c : Char} (hquote : c ≠ '"') (hslash : c ≠ '\\') (hc : ¬ c.toNat < 32)
    (h : Held) (rest : List Char) : scanText h (c :: rest) = scanText (h.char c) rest := by
  rw [scanText]
  · exact if_neg (not_or.mpr ⟨hc, hslash⟩)
  · exact hquote
  · rintro _ _ _ _ _ heq _
    exact hslash heq
  · rintro _ _ heq _
    exact hslash heq

theorem escape_cases (c : Char) :
    (∃ e, e ≠ 'u' ∧ simpleEscape? e = some c ∧ escape c = ['\\', e]) ∨
    (c.toNat < 32 ∧ escape c = '\\' :: 'u' :: Text.hexPadded 4 c.toNat) ∨
    (c ≠ '"' ∧ c ≠ '\\' ∧ ¬ c.toNat < 32 ∧ escape c = [c]) := by
  unfold escape
  split_ifs with hquote hslash hback hfeed hline hreturn htab hcontrol
  iterate 7
    subst c
    exact .inl ⟨_, by decide, rfl, rfl⟩
  · exact .inr (.inl ⟨hcontrol, rfl⟩)
  · exact .inr (.inr ⟨hquote, hslash, hcontrol, rfl⟩)

theorem scanText_escape (c : Char) (h : Held) (rest : List Char) :
    scanText h (escape c ++ rest) = scanText (h.char c) rest := by
  rcases escape_cases c with ⟨e, hu, he, heq⟩ | ⟨hc, heq⟩ | ⟨hquote, hslash, hc, heq⟩
  · rw [heq, List.cons_append, List.singleton_append, scanText, he]
    rintro _ _ _ _ _ hu' _
    exact hu hu'
  · rw [heq]
    exact scanText_control hc h rest
  · rw [heq]
    exact scanText_plain hquote hslash hc h rest

theorem scanText_escapes (cs : List Char) (h : Held) (rest : List Char) :
    scanText h (cs.flatMap escape ++ rest) = scanText (cs.foldl Held.char h) rest := by
  induction cs generalizing h with
  | nil => rfl
  | cons c cs ih => rw [List.flatMap_cons, List.append_assoc, scanText_escape, ih, List.foldl_cons]

theorem foldl_char (cs done : List Char) :
    cs.foldl Held.char ⟨done, true, none⟩ = ⟨cs.reverse ++ done, true, none⟩ := by
  induction cs generalizing done with
  | nil => rfl
  | cons c cs ih =>
    rw [List.foldl_cons, List.reverse_cons, List.append_assoc]
    exact ih (c :: done)

theorem next?_quoted (s : String) (rest : List Char) :
    next? (quoted s.toList ++ rest) = some (.text (some s), rest) := by
  have hscan : scanText ⟨[], true, none⟩ (s.toList.flatMap escape ++ '"' :: rest) =
      some (some s, rest) := by
    rw [scanText_escapes, foldl_char, List.append_nil, scanText]
    simp [Held.finish]
  have hquoted : quoted s.toList ++ rest = '"' :: (s.toList.flatMap escape ++ '"' :: rest) := by
    simp [quoted]
  rw [hquoted, next?, hscan]

/-! ## From characters to tokens -/

/-- Characters are scanned as some tokens wherever a value may end behind them. -/
structure Spelled (cs : List Char) (ts : List Token) : Prop where
  length_le : ts.length ≤ cs.length
  scan : ∀ rest, Ends rest → ∀ done n,
    scanOnto done (ts.length + n) (cs ++ rest) = scanOnto (ts.reverse ++ done) n rest

theorem scanOnto_of_next {cs rest : List Char} {t : Token} (done : List Token) (n : Nat)
    (h : next? (cs.dropWhile isSpace) = some (t, rest)) :
    scanOnto done (n + 1) cs = scanOnto (t :: done) n rest := by
  simp only [scanOnto, h]

theorem scanOnto_nil (done : List Token) (n : Nat) : scanOnto done n [] = done.reverse := by
  cases n <;> rfl

namespace Spelled

variable {cs cs' : List Char} {ts ts' : List Token}

theorem nil : Spelled [] [] := by
  refine ⟨Nat.le_refl _, fun rest _ done n => ?_⟩
  rw [List.length_nil, Nat.zero_add]
  rfl

theorem single {t : Token} (hne : cs ≠ [])
    (h : ∀ rest, Ends rest → next? ((cs ++ rest).dropWhile isSpace) = some (t, rest)) :
    Spelled cs [t] := by
  refine ⟨List.length_pos_iff.mpr hne, fun rest hr done n => ?_⟩
  rw [List.length_singleton, Nat.add_comm]
  exact scanOnto_of_next done n (h rest hr)

theorem mark {c : Char} {t : Token}
    (h : ∀ rest, next? ((c :: rest).dropWhile isSpace) = some (t, rest)) (hs : Spelled cs ts) :
    Spelled (c :: cs) (t :: ts) := by
  refine ⟨Nat.succ_le_succ hs.length_le, fun rest hr done n => ?_⟩
  have hn : (t :: ts).length + n = (ts.length + n) + 1 := by
    rw [List.length_cons]
    omega
  rw [hn, List.cons_append, scanOnto_of_next done _ (h (cs ++ rest)), hs.scan rest hr]
  simp

theorem append (hs : Spelled cs ts) (hs' : Spelled cs' ts')
    (hends : ∀ rest, Ends rest → Ends (cs' ++ rest)) : Spelled (cs ++ cs') (ts ++ ts') := by
  refine ⟨?_, fun rest hr done n => ?_⟩
  · rw [List.length_append, List.length_append]
    exact Nat.add_le_add hs.length_le hs'.length_le
  · rw [List.length_append, Nat.add_assoc, List.append_assoc, hs.scan _ (hends rest hr),
      hs'.scan rest hr]
    simp

end Spelled

theorem Spelled.commaSeparated {texts : List (List Char)} {parts : List (List Token)}
    (h : List.Forall₂ Spelled texts parts) :
    Spelled (commaSeparated texts) (separated parts) := by
  induction h with
  | nil => exact .nil
  | cons hs hrest ih =>
    cases hrest with
    | nil => exact hs
    | cons => exact hs.append (ih.mark fun _ => rfl) fun rest _ => ends_cons (by decide) _

theorem spelled_quoted (s : String) : Spelled (quoted s.toList) [.text (some s)] :=
  .single (List.cons_ne_nil _ _) fun rest _ => next?_quoted s rest

theorem spelled_integer (n : WireInt) :
    Spelled (Text.integer n.value) [.number (some (.integer n))] := by
  refine .single ?_ fun rest hr => next?_integer n hr
  unfold Text.integer
  split_ifs
  · exact List.cons_ne_nil _ _
  · exact Text.decimal_ne_nil _

end Token

open Token

mutual

theorem spelled : ∀ v : Json, v.isExact = true → Spelled v.chars v.tokens
  | .null, _ => .single (List.cons_ne_nil _ _) fun _ _ => rfl
  | .bool true, _ => .single (List.cons_ne_nil _ _) fun _ _ => rfl
  | .bool false, _ => .single (List.cons_ne_nil _ _) fun _ _ => rfl
  | .number (.integer n), _ => spelled_integer n
  | .number (.float _), h => absurd h Bool.false_ne_true
  | .text s, _ => spelled_quoted s
  | .list items, h =>
    have hclosed : Spelled [']'] [.closeList] := .single (List.cons_ne_nil _ _) fun _ _ => rfl
    have hitems := Spelled.commaSeparated (spelled_items items h)
    (hitems.append hclosed fun _ _ => ends_cons (by decide) _).mark fun _ => rfl
  | .object members, h =>
    have hclosed : Spelled ['}'] [.closeObject] := .single (List.cons_ne_nil _ _) fun _ _ => rfl
    have hmembers := Spelled.commaSeparated (spelled_members members h)
    (hmembers.append hclosed fun _ _ => ends_cons (by decide) _).mark fun _ => rfl

theorem spelled_items : ∀ items : List Json, areExact items = true →
    List.Forall₂ Spelled (itemTexts items) (itemTokens items)
  | [], _ => .nil
  | v :: rest, h =>
    have ⟨hv, hrest⟩ := Bool.and_eq_true_iff.mp h
    .cons (spelled v hv) (spelled_items rest hrest)

theorem spelled_members : ∀ members : List (String × Json), membersExact members = true →
    List.Forall₂ Spelled (memberTexts members) (memberTokens members)
  | [], _ => .nil
  | (k, v) :: rest, h =>
    have ⟨hv, hrest⟩ := Bool.and_eq_true_iff.mp h
    have hvalue : Spelled (':' :: v.chars) (.colon :: v.tokens) := (spelled v hv).mark fun _ => rfl
    .cons ((spelled_quoted k).append hvalue fun _ _ => ends_cons (by decide) _)
      (spelled_members rest hrest)

end

theorem scan_render {v : Json} (hv : v.isExact = true) : Token.scan v.render = v.tokens := by
  have hs := spelled v hv
  have hends : Ends [] := fun c hc => nomatch hc
  have hlength : v.tokens.length + (v.chars.length - v.tokens.length) = v.chars.length :=
    Nat.add_sub_of_le hs.length_le
  have hscan := hs.scan [] hends [] (v.chars.length - v.tokens.length)
  rw [hlength, List.append_nil, List.append_nil, scanOnto_nil, List.reverse_reverse] at hscan
  unfold Token.scan render
  rw [String.toList_ofList]
  exact hscan

/-! ## From tokens to the outline -/

namespace Outline

theorem read_firstItem (v : Json) (frames : List Frame) (rest : List Token) :
    read .firstItem frames (v.tokens ++ rest) = read .value frames (v.tokens ++ rest) := by
  cases v <;> cases frames <;> rfl

theorem separated_cons (ts : List Token) (parts : List (List Token)) :
    ∃ more, separated (ts :: parts) = ts ++ more := by
  cases parts with
  | nil => exact ⟨[], (List.append_nil ts).symm⟩
  | cons => exact ⟨_, rfl⟩

mutual

theorem read_tokens : ∀ (v : Json) (frames : List Frame) (rest : List Token),
    read .value frames (v.tokens ++ rest) = read (.settled (ofJson v)) frames rest
  | .null, _, _ => rfl
  | .bool _, _, _ => rfl
  | .number _, _, _ => rfl
  | .text _, _, _ => rfl
  | .list [], _, _ => rfl
  | .list (v :: items), frames, rest => by
    have htokens : (Json.list (v :: items)).tokens ++ rest =
        .openList :: (separated (itemTokens (v :: items)) ++ .closeList :: rest) := by
      simp [tokens]
    -- In front of its first item a list might also end, but no value begins with its end.
    have hfirst : read .firstItem (.list [] :: frames)
          (separated (itemTokens (v :: items)) ++ .closeList :: rest) =
        read .value (.list [] :: frames)
          (separated (itemTokens (v :: items)) ++ .closeList :: rest) := by
      obtain ⟨more, hmore⟩ := separated_cons v.tokens (itemTokens items)
      rw [itemTokens, hmore, List.append_assoc]
      exact read_firstItem v _ _
    rw [htokens]
    exact hfirst.trans (read_items (v :: items) (List.cons_ne_nil v items) [] frames rest)
  | .object [], _, _ => rfl
  | .object ((k, v) :: members), frames, rest => by
    have htokens : (Json.object ((k, v) :: members)).tokens ++ rest =
        .openObject :: (separated (memberTokens ((k, v) :: members)) ++ .closeObject :: rest) := by
      simp [tokens]
    rw [htokens]
    exact read_members ((k, v) :: members) (List.cons_ne_nil _ _) [] true frames rest

theorem read_items : ∀ (items : List Json), items ≠ [] → ∀ (done : List Outline)
    (frames : List Frame) (rest : List Token),
    read .value (.list done :: frames) (separated (itemTokens items) ++ .closeList :: rest) =
      read (.settled (.list (itemsOf done (itemsOfJson items)))) frames rest
  | [], hne, _, _, _ => absurd rfl hne
  | [v], _, done, frames, rest => read_tokens v (.list done :: frames) (.closeList :: rest)
  | v :: w :: items, _, done, frames, rest => by
    have htokens : separated (itemTokens (v :: w :: items)) ++ .closeList :: rest =
        v.tokens ++ .comma :: (separated (itemTokens (w :: items)) ++ .closeList :: rest) := by
      simp [itemTokens, separated]
    rw [htokens, read_tokens v]
    exact read_items (w :: items) (List.cons_ne_nil w items) (ofJson v :: done) frames rest

theorem read_members : ∀ (members : List (String × Json)), members ≠ [] →
    ∀ (done : List (Option String × Outline)) (first : Bool) (frames : List Frame)
    (rest : List Token),
    read (.name done first) frames (separated (memberTokens members) ++ .closeObject :: rest) =
      read (.settled (.object (membersOf done (membersOfJson members)))) frames rest
  | [], hne, _, _, _, _ => absurd rfl hne
  | [(k, v)], _, done, _, frames, rest =>
    read_tokens v (.object done (some k) :: frames) (.closeObject :: rest)
  | (k, v) :: (l, w) :: members, _, done, _, frames, rest => by
    have htokens : separated (memberTokens ((k, v) :: (l, w) :: members)) ++ .closeObject :: rest =
        .text (some k) :: .colon :: (v.tokens ++
          .comma :: (separated (memberTokens ((l, w) :: members)) ++ .closeObject :: rest)) := by
      simp [memberTokens, separated]
    have hvalue := read_tokens v (.object done (some k) :: frames)
      (.comma :: (separated (memberTokens ((l, w) :: members)) ++ .closeObject :: rest))
    rw [htokens]
    exact hvalue.trans (read_members ((l, w) :: members) (List.cons_ne_nil _ _)
      ((some k, ofJson v) :: done) false frames rest)

end

/-- A value that is written is read as its outline, and nothing is left over. -/
theorem ofString_render {v : Json} (hv : v.isExact = true) :
    ofString v.render = (ofJson v, true) := by
  have hread := read_tokens v [] []
  rw [List.append_nil] at hread
  unfold ofString
  rw [scan_render hv, hread]
  rfl

end Outline

theorem Members.row_of_check {fields : List Field} {seen : Row} {name : String} {v : Outline}
    {f : Field} (hfield : (fields.find? fun f => f.name == name) = some f)
    (hseen : seen.find? name = none) (hcheck : f.check v = .ok ()) (rest : Members) :
    row fields seen (.cons (some name) v rest) = row fields (seen ++ [(name, v)]) rest := by
  rw [row, hfield]
  dsimp only
  rw [hseen, hcheck]
  rfl

/-- What can be read from a value can be read from its text. -/
theorem decodeText_render {read : Outline → Decoded α} {v : Json} {a : α} (hv : v.isExact = true)
    (h : decodeValue read v = .ok a) : decodeText read v.render = .ok a := by
  unfold decodeValue at h
  unfold decodeText
  rw [Outline.ofString_render hv]
  dsimp only
  rw [h]
  rfl

end Json

end PushHub
