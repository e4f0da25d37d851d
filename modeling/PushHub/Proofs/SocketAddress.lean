import PushHub.SocketAddress
import PushHub.Proofs.Text.Decimal
import PushHub.Proofs.Text.Digits
import Mathlib.Tactic.SplitIfs

/-! A socket address is read back from its text, of either family, with or without a scope and however
its zeros are written. -/
namespace PushHub.SocketAddress

open Text

variable {rest : List Char}

/-! ## Numbers -/

section

variable {radix bound n : Nat} {digit? : Char → Option Nat} {room : Option Nat}

theorem number?_toDigits (hd : ReadsDigits radix digit?) (hr : 1 < radix) (hn : n < bound)
    (hroom : ∀ r, room = some r → (Nat.toDigits radix n).length ≤ r)
    (hrest : Stops (fun c => (digit? c).isSome) rest) :
    number? radix digit? room bound (Nat.toDigits radix n ++ rest) = some (n, rest) := by
  have htake := hrest.takeWhile_append fun c hc => hd.isSome hr (n := n) hc
  have hdigits : (Nat.toDigits radix n).isEmpty = false :=
    List.isEmpty_eq_false_iff.mpr Nat.toDigits_ne_nil
  have hshort : ((room.map fun r => decide (r < (Nat.toDigits radix n).length)).getD false) =
      false := by
    cases room with
    | none => rfl
    | some r => exact decide_eq_false (Nat.not_lt_of_le (hroom r rfl))
  unfold number?
  dsimp only
  rw [htake, hd.foldl_toDigits hr, hdigits, hshort, List.drop_left]
  simp [hn]

theorem number?_of_stops (h : Stops (fun c => (digit? c).isSome) rest) :
    number? radix digit? room bound rest = none := by
  unfold number?
  rw [h.takeWhile_eq_nil]
  rfl

end

theorem isSome_decimalDigit? (c : Char) : (decimalDigit? c).isSome = c.isDigit := by
  unfold decimalDigit?
  cases c.isDigit <;> rfl

theorem stops_decimal : Stops (fun c => (decimalDigit? c).isSome) rest ↔ Stops Char.isDigit rest := by
  simp only [Stops, isSome_decimalDigit?]

theorem readsDigits_decimal : ReadsDigits 10 decimalDigit? := by
  unfold ReadsDigits
  decide

theorem octet?_decimal (b : UInt8) (hrest : Stops Char.isDigit rest) :
    octet? (decimal b.toNat ++ rest) = some (b, rest) := by
  have hnumber : number? 10 decimalDigit? (some 3) 256 (decimal b.toNat ++ rest) =
      some (b.toNat, rest) := by
    refine number?_toDigits readsDigits_decimal (by decide) b.toNat_lt ?_ (stops_decimal.mpr hrest)
    rintro r hr
    cases hr
    exact (Nat.length_toDigits_le_iff (by decide) (by decide)).mpr
      (Nat.lt_trans b.toNat_lt (by decide))
  have hzero : ¬ ((decimal b.toNat ++ rest).head? = some '0' ∧
      rest.length + 1 < (decimal b.toNat ++ rest).length) := by
    rintro ⟨hhead, hlength⟩
    rw [List.head?_append, Option.or_of_isSome (List.isSome_head?.mpr (decimal_ne_nil _))] at hhead
    rcases Nat.eq_zero_or_pos b.toNat with hb | hb
    · rw [hb, List.length_append, show (decimal 0).length = 1 from rfl] at hlength
      omega
    · exact head?_decimal_of_pos hb hhead
  unfold octet?
  rw [hnumber]
  dsimp only
  rw [if_neg hzero, UInt8.ofNat_toNat]

theorem port?_decimal (port : UInt16) : port? (':' :: decimal port.toNat) = some (port, []) := by
  have hnumber : number? 10 decimalDigit? none 65536 (decimal port.toNat ++ []) =
      some (port.toNat, []) :=
    number?_toDigits readsDigits_decimal (by decide) port.toNat_lt (by simp) stops_nil
  rw [List.append_nil] at hnumber
  simp [port?, char?, hnumber]

theorem scope?_decimal (scope : UInt32) (hrest : Stops Char.isDigit rest) :
    scope? ('%' :: (decimal scope.toNat ++ rest)) = some (scope, rest) := by
  have hnumber : number? 10 decimalDigit? none UInt32.size (decimal scope.toNat ++ rest) =
      some (scope.toNat, rest) :=
    number?_toDigits readsDigits_decimal (by decide) scope.toNat_lt (by simp)
      (stops_decimal.mpr hrest)
  simp [scope?, char?, hnumber]

/-! ## Addresses of four bytes -/

theorem ipv4?_ipv4Chars (a : IPv4) (hrest : Stops Char.isDigit rest) :
    ipv4? (ipv4Chars a ++ rest) = some (a, rest) := by
  have hdot : ∀ cs, Stops Char.isDigit ('.' :: cs) := stops_cons rfl
  simp [ipv4?, ipv4Chars, char?, octet?_decimal _ (hdot _), octet?_decimal _ hrest]

theorem ipv4?_of_stops (h : Stops Char.isDigit rest) : ipv4? rest = none := by
  have hoctet : octet? rest = none := by
    unfold octet?
    rw [number?_of_stops (stops_decimal.mpr h)]
  simp [ipv4?, hoctet]

theorem dropWhile_of_octet? {cs : List Char} {b : UInt8} (h : octet? cs = some (b, rest)) :
    rest = cs.dropWhile Char.isDigit := by
  have hkind : (fun c => (decimalDigit? c).isSome) = Char.isDigit := funext isSome_decimalDigit?
  unfold octet? number? at h
  dsimp only at h
  rw [hkind] at h
  split_ifs at h
  dsimp only at h
  split_ifs at h
  simp only [Option.some.injEq, Prod.mk.injEq] at h
  rw [← h.2, drop_length_takeWhile]

theorem ipv4?_eq_none {cs : List Char} (h : (cs.dropWhile Char.isDigit).head? ≠ some '.') :
    ipv4? cs = none := by
  cases ho : octet? cs with
  | none => simp [ipv4?, ho]
  | some r =>
    obtain ⟨b, rest⟩ := r
    rw [← dropWhile_of_octet? ho] at h
    have hdot : char? '.' rest = none := by
      cases rest with
      | nil => rfl
      | cons c rest => exact if_neg fun hc => h (congrArg some hc.symm)
    simp [ipv4?, ho, hdot]

/-! ## Groups -/

inductive Ends : List Char → Prop
  | bracket (rest : List Char) : Ends (']' :: rest)
  | scope (rest : List Char) : Ends ('%' :: rest)
  | zeros (rest : List Char) : Ends (':' :: ':' :: rest)

/-- What comes behind a group: another one or an end. -/
def Follows (rest : List Char) : Prop := ∃ c cs, rest = c :: cs ∧ c ∈ [':', ']', '%']

theorem Ends.follows (h : Ends rest) : Follows rest := by
  cases h with
  | bracket rest => exact ⟨_, _, rfl, by decide⟩
  | scope rest => exact ⟨_, _, rfl, by decide⟩
  | zeros rest => exact ⟨_, _, rfl, by decide⟩

theorem Follows.stops_hex (h : Follows rest) : Stops (fun c => (hexDigit? c).isSome) rest := by
  obtain ⟨c, cs, rfl, hc⟩ := h
  exact stops_cons (eq_false_of_mem hc (by decide)) cs

theorem Follows.stops_digit (h : Follows rest) : Stops Char.isDigit rest := by
  obtain ⟨c, cs, rfl, hc⟩ := h
  exact stops_cons (eq_false_of_mem hc (by decide)) cs

theorem Follows.head?_ne (h : Follows rest) : rest.head? ≠ some '.' := by
  obtain ⟨c, cs, rfl, hc⟩ := h
  revert c
  simp

def hex (g : UInt16) : List Char := hexPadded 1 g.toNat

theorem dropWhile_hex (g : UInt16) (h : Follows rest) :
    ((hex g ++ rest).dropWhile Char.isDigit).head? ≠ some '.' := by
  have hdigits : ∀ c ∈ hex g, c ≠ '.' := by
    intro c hc
    rw [hex, hexPadded_one] at hc
    have := readsDigits_hex.isSome (by decide) hc
    rintro rfl
    cases this
  revert hdigits
  generalize hex g = cs
  intro hdigits
  induction cs with
  | nil =>
    rw [List.nil_append, h.stops_digit.dropWhile_eq_self]
    exact h.head?_ne
  | cons c cs ih =>
    rw [List.cons_append, List.dropWhile_cons]
    split
    · exact ih fun d hd => hdigits d (List.mem_cons_of_mem c hd)
    · simpa using hdigits c List.mem_cons_self

theorem number?_hex (g : UInt16) (h : Follows rest) :
    number? 16 hexDigit? (some 4) 65536 (hex g ++ rest) = some (g.toNat, rest) := by
  rw [hex, hexPadded_one]
  refine number?_toDigits readsDigits_hex (by decide) g.toNat_lt ?_ h.stops_hex
  rintro r hr
  cases hr
  exact (Nat.length_toDigits_le_iff (by decide) (by decide)).mpr g.toNat_lt

def lead (first : Bool) : List Char := if first then [] else [':']

theorem groups_cons (first : Bool) (room : Nat) (g : UInt16) (h : Follows rest) :
    groups first (room + 1) (lead first ++ (hex g ++ rest)) =
      ⟨g :: (groups false room rest).groups, (groups false room rest).ended,
        (groups false room rest).rest⟩ := by
  have hstart : (if first then some (lead first ++ (hex g ++ rest))
      else char? ':' (lead first ++ (hex g ++ rest))) = some (hex g ++ rest) := by
    cases first <;> rfl
  have hfour : (if room = 0 then none else ipv4? (hex g ++ rest)) = none := by
    rw [ipv4?_eq_none (dropWhile_hex g h), ite_self]
  simp only [groups, hstart, Option.bind_some, hfour, number?_hex g h, UInt16.ofNat_toNat]

theorem groups_of_ends (h : Ends rest) (first : Bool) (room : Nat) :
    groups first room rest = ⟨[], false, rest⟩ := by
  cases room with
  | zero => rfl
  | succ room =>
    have hfour : ipv4? rest = none := ipv4?_of_stops h.follows.stops_digit
    have hnumber : number? 16 hexDigit? (some 4) 65536 rest = none :=
      number?_of_stops h.follows.stops_hex
    cases first with
    | true => simp [groups, hfour, hnumber]
    | false =>
      cases h with
      | bracket rest => simp [groups, char?]
      | scope rest => simp [groups, char?]
      | zeros rest =>
        have hstop : Stops Char.isDigit (':' :: rest) := stops_cons rfl _
        have hhex : Stops (fun c => (hexDigit? c).isSome) (':' :: rest) := stops_cons rfl _
        simp [groups, char?, ipv4?_of_stops hstop, number?_of_stops hhex]

/-- Groups with colons before all of them, the first one excepted if it is so. -/
def run (first : Bool) : List UInt16 → List Char
  | [] => []
  | g :: gs => lead first ++ (hex g ++ run false gs)

theorem run_false_cons (g : UInt16) (gs : List UInt16) :
    run false (g :: gs) = ':' :: run true (g :: gs) := rfl

theorem groupChars_eq (gs : List UInt16) : groupChars gs = run true gs := by
  induction gs with
  | nil => rfl
  | cons g gs ih =>
    cases gs with
    | nil => simp [groupChars, run, lead, hex]
    | cons g' gs =>
      rw [groupChars, ih, ← run_false_cons]
      · rfl
      · exact List.cons_ne_nil _ _

theorem Ends.follows_run (h : Ends rest) (gs : List UInt16) : Follows (run false gs ++ rest) := by
  cases gs with
  | nil => exact h.follows
  | cons g gs => exact ⟨':', _, rfl, by decide⟩

theorem groups_run (h : Ends rest) (first : Bool) (gs : List UInt16) {room : Nat}
    (hroom : gs.length ≤ room) : groups first room (run first gs ++ rest) = ⟨gs, false, rest⟩ := by
  induction gs generalizing first room with
  | nil => exact groups_of_ends h first room
  | cons g gs ih =>
    cases room with
    | zero => simp at hroom
    | succ room =>
      rw [run, List.append_assoc, List.append_assoc, groups_cons first room g (h.follows_run gs),
        ih false (Nat.le_of_succ_le_succ hroom)]

/-! ## Addresses of eight groups -/

/-- A stretch of zeros, as its start and its length. -/
structure Zeros (gs : List UInt16) (z : Nat × Nat) : Prop where
  start_le : z.1 ≤ gs.length
  parts : gs.take z.1 ++ List.replicate z.2 0 ++ gs.drop (z.1 + z.2) = gs

theorem Zeros.length_le {gs : List UInt16} {z : Nat × Nat} (h : Zeros gs z) :
    z.1 + z.2 ≤ gs.length := by
  have := congrArg List.length h.parts
  have := h.start_le
  simp only [List.length_append, List.length_take, List.length_replicate, List.length_drop] at *
  omega

theorem zeros_at (gs : List UInt16) {i : Nat} (hi : i ≤ gs.length) :
    Zeros gs (i, ((gs.drop i).takeWhile (· == 0)).length) := by
  refine ⟨hi, ?_⟩
  have hzeros : (gs.drop i).takeWhile (· == 0) =
      List.replicate ((gs.drop i).takeWhile (· == 0)).length 0 := by
    apply List.eq_replicate_of_mem
    intro g hg
    exact eq_of_beq (List.all_eq_true.mp List.all_takeWhile g hg)
  dsimp only
  rw [← hzeros, ← List.drop_drop, drop_length_takeWhile, List.append_assoc,
    List.takeWhile_append_dropWhile, List.take_append_drop]

theorem zeros_longestZeros (gs : List UInt16) : Zeros gs (longestZeros gs) := by
  unfold longestZeros
  apply List.foldlRecOn
  · exact ⟨Nat.zero_le _, by simp⟩
  · intro best hbest i hi
    dsimp only
    split
    · exact zeros_at gs (Nat.le_of_lt (List.mem_range.mp hi))
    · exact hbest

theorem joined_eq (a : IPv6) {head tail : List UInt16}
    (h : head ++ List.replicate (8 - head.length - tail.length) 0 ++ tail = a.groups) :
    joined head tail = some a := by
  unfold joined
  dsimp only
  rw [dif_pos (by rw [h]; exact a.eight)]
  exact congrArg some (IPv6.mk.injEq .. ▸ h)

theorem ipv6?_whole (a : IPv6) (h : Ends rest) :
    ipv6? (groupChars a.groups ++ rest) = some (a, rest) := by
  have hgroups := groups_run h true a.groups (Nat.le_of_eq a.eight)
  have hjoined : joined a.groups [] = some a := joined_eq a (by simp [a.eight])
  rw [groupChars_eq]
  simp [ipv6?, hgroups, a.eight, hjoined]

theorem ipv6?_joined (a : IPv6) (head : List UInt16) {cs : List Char} {r : Groups}
    (hhead : head.length < 8) (hr : groups true (7 - head.length) cs = r)
    (hjoined : joined head r.groups = some a) :
    ipv6? (groupChars head ++ ':' :: ':' :: cs) = some (a, r.rest) := by
  have hgroups := groups_run (.zeros cs) true head (Nat.le_of_lt hhead)
  rw [groupChars_eq]
  simp [ipv6?, hgroups, Nat.ne_of_lt hhead, char?, hr, hjoined]

theorem ipv6?_compressed (a : IPv6) (h : Ends rest) (hn : 1 < (longestZeros a.groups).2) :
    ipv6? (groupChars (a.groups.take (longestZeros a.groups).1) ++ ':' :: ':' ::
      (groupChars (a.groups.drop ((longestZeros a.groups).1 + (longestZeros a.groups).2)) ++ rest)) =
      some (a, rest) := by
  have hzeros := zeros_longestZeros a.groups
  generalize longestZeros a.groups = z at *
  obtain ⟨i, n⟩ := z
  have hlength := a.eight ▸ hzeros.length_le
  have htake : (a.groups.take i).length = i := by simp [a.eight]; omega
  have hdrop : (a.groups.drop (i + n)).length = 8 - (i + n) := by simp [a.eight]
  have hroom : (a.groups.drop (i + n)).length ≤ 7 - (a.groups.take i).length := by omega
  have htail := groups_run h true (a.groups.drop (i + n)) hroom
  rw [groupChars_eq (a.groups.drop (i + n))]
  refine ipv6?_joined a _ (by omega) htail (joined_eq a ?_)
  rw [htake, hdrop, show 8 - i - (8 - (i + n)) = n by omega]
  exact hzeros.parts

theorem ofNat_bytes (w : UInt16) :
    UInt16.ofNat ((w >>> 8).toUInt8.toNat * 256 + w.toUInt8.toNat) = w := by
  have := w.toNat_lt
  apply UInt16.toNat_inj.mp
  simp [Nat.shiftRight_eq_div_pow]
  omega

theorem mapped?_eq_some {gs : List UInt16} {tail : IPv4} (h : mapped? gs = some tail) :
    gs = [0, 0, 0, 0, 0, 0xffff] ++ IPv4.groups tail := by
  unfold mapped? at h
  split at h
  · rename_i g k
    cases h
    rw [IPv4.groups, ofNat_bytes, ofNat_bytes]
    rfl
  · cases h

theorem groups_ipv4 (a : IPv4) (h : Ends rest) {room : Nat} (hroom : 1 < room) :
    groups false room (':' :: (ipv4Chars a ++ rest)) = ⟨IPv4.groups a, true, rest⟩ := by
  obtain ⟨room, rfl⟩ : ∃ r, room = r + 1 := ⟨room - 1, by omega⟩
  have hne : room ≠ 0 := by omega
  simp [groups, char?, hne, ipv4?_ipv4Chars a h.follows.stops_digit]

theorem ipv6?_mapped (a : IPv6) (h : Ends rest) {tail : IPv4} (ht : mapped? a.groups = some tail) :
    ipv6? ([':', ':', 'f', 'f', 'f', 'f', ':'] ++ ipv4Chars tail ++ rest) = some (a, rest) := by
  have hfollows : Follows (':' :: (ipv4Chars tail ++ rest)) := ⟨':', _, rfl, by decide⟩
  have hgroups := groups_cons true 6 0xffff hfollows
  rw [groups_ipv4 tail h (by decide)] at hgroups
  refine ipv6?_joined a [] (by decide) hgroups (joined_eq a ?_)
  rw [mapped?_eq_some ht]
  rfl

theorem ipv6?_ipv6Chars (a : IPv6) (h : Ends rest) :
    ipv6? (ipv6Chars a ++ rest) = some (a, rest) := by
  unfold ipv6Chars
  split
  · rename_i tail ht
    exact ipv6?_mapped a h ht
  · dsimp only
    split
    · rename_i hn
      rw [List.append_assoc]
      exact ipv6?_compressed a h hn
    · exact ipv6?_whole a h

/-! ## Addresses with their ports -/

theorem readV4_chars (a : IPv4) (port : UInt16) :
    readV4 (chars (.v4 a port)) = some (.v4 a port, []) := by
  have hcolon : Stops Char.isDigit (':' :: decimal port.toNat) := stops_cons rfl _
  simp [readV4, chars, ipv4?_ipv4Chars a hcolon, port?_decimal]

theorem readV4_bracket (cs : List Char) : readV4 ('[' :: cs) = none := by
  have hbracket : Stops Char.isDigit ('[' :: cs) := stops_cons rfl _
  simp [readV4, ipv4?_of_stops hbracket]

theorem readV6_chars (a : IPv6) (scope : UInt32) (port : UInt16) :
    readV6 (chars (.v6 a scope port)) = some (.v6 a scope port, []) := by
  unfold chars
  dsimp only
  split
  · rename_i hscope
    subst hscope
    have hnone : scope? (']' :: ':' :: decimal port.toNat) = none := by simp [scope?, char?]
    simp [readV6, char?, ipv6?_ipv6Chars a (.bracket _), hnone, port?_decimal]
  · have hbracket : Stops Char.isDigit (']' :: ':' :: decimal port.toNat) := stops_cons rfl _
    simp [readV6, char?, ipv6?_ipv6Chars a (.scope _), scope?_decimal _ hbracket, port?_decimal]

theorem parse?_display (a : SocketAddress) : parse? a.display = some a := by
  unfold parse? display
  rw [String.toList_ofList]
  cases a with
  | v4 a port => rw [readV4_chars]; rfl
  | v6 a scope port =>
    have hnone : readV4 (chars (.v6 a scope port)) = none := readV4_bracket _
    rw [hnone, readV6_chars]
    rfl

end PushHub.SocketAddress
