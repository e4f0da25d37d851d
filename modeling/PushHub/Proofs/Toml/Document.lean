import PushHub.Proofs.Toml.Values
import Mathlib.Data.List.Forall2

/-! A document is read line by line: every line that is written gives its key its value, every header
opens its table, and so the tables come out of it that went into it. -/
namespace PushHub.Toml

open Text

variable {rest : List Char}

/-! ## Lines -/

/-- Characters that end a line take one draft to another, whatever comes behind them. -/
structure Feeds (d : Draft) (cs : List Char) (d' : Draft) : Prop where
  feeds : ∃ n, n ≤ cs.length ∧ ∀ rest fuel, lines? d (n + fuel) (cs ++ rest) = lines? d' fuel rest

namespace Feeds

variable {d d' d'' : Draft} {cs cs' : List Char}

theorem nil (d : Draft) : Feeds d [] d :=
  ⟨0, Nat.le_refl _, fun _ _ => by rw [Nat.zero_add, List.nil_append]⟩

theorem append (h : Feeds d cs d') (h' : Feeds d' cs' d'') : Feeds d (cs ++ cs') d'' := by
  obtain ⟨n, hn, hread⟩ := h.feeds
  obtain ⟨n', hn', hread'⟩ := h'.feeds
  refine ⟨n + n', ?_, fun rest fuel => ?_⟩
  · rw [List.length_append]
    omega
  · rw [List.append_assoc, Nat.add_assoc, hread, hread']

theorem blank (d : Draft) : Feeds d ['\n'] d :=
  ⟨1, Nat.le_refl _, fun rest fuel => by
    rw [Nat.add_comm, List.singleton_append]
    simp [lines?, skipSpaces, isSpace, newline?]⟩

theorem line {c : Char} (hc : c ∉ [' ', '\t', '\n', '\r', '#'])
    (h : ∀ rest, line? d (c :: cs ++ rest) = some (d', rest)) : Feeds d (c :: cs) d' := by
  refine ⟨1, by simp, fun rest fuel => ?_⟩
  simp only [List.mem_cons, List.not_mem_nil, or_false, not_or] at hc
  obtain ⟨hspace, htab, hline, hreturn, hcomment⟩ := hc
  have hskip : skipSpaces (c :: cs ++ rest) = c :: cs ++ rest := by
    simp [skipSpaces, isSpace, hspace, htab]
  have hnewline : newline? (c :: cs ++ rest) = none := by
    simp [newline?, hline, hreturn]
  rw [Nat.add_comm]
  conv => lhs; unfold lines?
  rw [hskip]
  split
  · rename_i heq
    cases heq
  · rename_i heq
    exact absurd (List.cons.inj heq).1 hcomment
  · rw [hnewline, h]

end Feeds

/-! ## Keys with their values -/

theorem solid_of_key? {cs : List Char} {r : String × List Char} (h : key? cs = some r) :
    ∃ c ds, cs = c :: ds ∧ c ∉ [' ', '\t', '\n', '\r', '#', '['] := by
  unfold key? at h
  split at h
  · exact ⟨_, _, rfl, by decide⟩
  · exact ⟨_, _, rfl, by decide⟩
  · cases cs with
    | nil => cases h
    | cons c cs =>
      refine ⟨c, cs, rfl, fun hc => ?_⟩
      have hbare : isBareChar c = false := eq_false_of_mem hc (by decide)
      rw [List.takeWhile_cons_of_neg (by rw [hbare]; decide)] at h
      cases h

theorem keyForm_solid (k : List Char) :
    ∃ c ds, keyForm k = c :: ds ∧ c ∉ [' ', '\t', '\n', '\r', '#', '['] := by
  have hread := key?_keyForm k (stops_cons (p := isBareChar) (c := ' ') (by decide) [])
  obtain ⟨c, ds, heq, hc⟩ := solid_of_key? hread
  cases hform : keyForm k with
  | nil =>
    rw [hform, List.nil_append] at heq
    rw [← (List.cons.inj heq).1] at hc
    simp at hc
  | cons d es =>
    rw [hform, List.cons_append] at heq
    exact ⟨d, es, rfl, (List.cons.inj heq).1 ▸ hc⟩

theorem skipSpaces_solid {c : Char} (hc : isSpace c = false) (cs : List Char) :
    skipSpaces (c :: cs) = c :: cs :=
  List.dropWhile_cons_of_neg (by rw [hc]; decide)

theorem skipSpaces_keyForm (k rest : List Char) :
    skipSpaces (keyForm k ++ rest) = keyForm k ++ rest := by
  obtain ⟨c, ds, heq, hc⟩ := keyForm_solid k
  have hspace : isSpace c = false := by
    simp only [List.mem_cons, not_or] at hc
    simp [isSpace, hc.1, hc.2.1]
  rw [heq]
  exact skipSpaces_solid hspace _

theorem path?_keyForm (k rest : List Char) :
    path? (keyForm k ++ ' ' :: '=' :: rest) = some ([String.ofList k], '=' :: rest) := by
  obtain ⟨fuel, hfuel⟩ : ∃ n, (keyForm k ++ ' ' :: '=' :: rest).length = n + 1 :=
    ⟨(keyForm k ++ '=' :: rest).length, by simp [Nat.add_assoc]⟩
  have hkey := key?_keyForm k (stops_cons (p := isBareChar) (c := ' ') (by decide) ('=' :: rest))
  have hskip : skipSpaces (' ' :: '=' :: rest) = '=' :: rest := by simp [skipSpaces, isSpace]
  have hlimit : ¬ nestingLimit ≤ 1 := by decide
  simp [path?, hfuel, parts?, skipSpaces_keyForm, hkey, hskip, hlimit]

theorem feeds_line {d d' : Draft} {k value : List Char} {v : Node} (hw : Written v value)
    (hadd : d.add [] (String.ofList k) v = some d') : Feeds d (line k value) d' := by
  obtain ⟨c, ds, heq, hc⟩ := keyForm_solid k
  have hline : line k value = c :: (ds ++ ' ' :: '=' :: ' ' :: value ++ ['\n']) := by
    simp [line, heq]
  have hc' : c ∉ [' ', '\t', '\n', '\r', '#'] := fun h => hc (List.mem_append_left ['['] h)
  rw [hline]
  refine Feeds.line hc' fun rest => ?_
  have hall : c :: (ds ++ ' ' :: '=' :: ' ' :: value ++ ['\n']) ++ rest =
      keyForm k ++ ' ' :: '=' :: ' ' :: (value ++ '\n' :: rest) := by
    simp [heq]
  have hpath := path?_keyForm k (' ' :: (value ++ '\n' :: rest))
  have hskip : skipSpaces (' ' :: (value ++ '\n' :: rest)) = value ++ '\n' :: rest := by
    obtain ⟨e, es, rfl, he⟩ := hw.solid
    exact skipSpaces_solid he _
  have hread := hw.read ('\n' :: rest) (closes_cons (by decide) rest)
    (2 * (' ' :: (value ++ '\n' :: rest)).length + 2) (by simp; omega)
  have hsnoc : unsnoc? [String.ofList k] = some ([], String.ofList k) := rfl
  have hend : lineEnd? ('\n' :: rest) = some rest := rfl
  rw [hall]
  unfold line?
  split
  · rename_i heq'
    rw [heq, List.cons_append] at heq'
    simp [(List.cons.inj heq').1] at hc
  · rename_i heq'
    rw [heq, List.cons_append] at heq'
    simp [(List.cons.inj heq').1] at hc
  · have hafter : ∀ cs, after? '=' ('=' :: cs) = some cs := by
      intro cs
      simp [after?]
    simp only [hpath, hsnoc, hafter, hskip, hread, hadd, hend, Option.bind_eq_bind, Option.bind_some]

inductive Lines : List Char → Members → Prop
  | nil : Lines [] []
  | cons {k value cs : List Char} {v : Node} {ms : Members} (hw : Written v value) (h : Lines cs ms) :
      Lines (line k value ++ cs) ((String.ofList k, v) :: ms)

namespace Lines

variable {cs cs' : List Char} {ms ms' : Members}

theorem single {k value : List Char} {v : Node} (hw : Written v value) :
    Lines (line k value) [(String.ofList k, v)] := by
  have h := Lines.cons (k := k) hw .nil
  rwa [List.append_nil] at h

theorem append (h : Lines cs ms) (h' : Lines cs' ms') : Lines (cs ++ cs') (ms ++ ms') := by
  induction h with
  | nil => exact h'
  | cons hw _ ih =>
    rw [List.append_assoc]
    exact .cons hw ih

theorem flatten {parts : List (List Char)} {members : List Members}
    (h : List.Forall₂ Lines parts members) : Lines parts.flatten members.flatten := by
  induction h with
  | nil => exact .nil
  | cons hpart _ ih => exact hpart.append ih

end Lines

namespace Members

variable {ms : Members} {k : String} {v w : Node}

theorem find?_eq_none : ms.find? k = none ↔ k ∉ ms.map Prod.fst := by
  unfold find?
  rw [List.lookup_eq_none_iff]
  constructor
  · intro h hmem
    obtain ⟨m, hm, rfl⟩ := List.mem_map.mp hmem
    simpa using h m hm
  · intro h m hm
    exact bne_iff_ne.mpr fun heq => h (List.mem_map.mpr ⟨m, hm, heq.symm⟩)

theorem find?_snoc (h : ms.find? k = none) : find? (ms ++ [(k, v)]) k = some v := by
  unfold find? at h ⊢
  rw [List.lookup_append, h]
  simp

theorem put_snoc (h : ms.find? k = none) : put (ms ++ [(k, v)]) k w = ms ++ [(k, w)] := by
  have hold : ms.map (fun m => if m.1 = k then (k, w) else m) = ms := by
    refine (List.map_congr_left fun m hm => ?_).trans (List.map_id ms)
    exact if_neg fun heq => find?_eq_none.mp h (List.mem_map.mpr ⟨m, hm, heq⟩)
  unfold put
  rw [find?_snoc h, Option.isSome_some, if_pos rfl, List.map_append, hold]
  simp

end Members

namespace Draft

variable {d : Draft} {root ms current : Members} {j k : String} {v : Node}

theorem add_of_new (h : d.current.find? k = none) :
    d.add [] k v = some { d with current := d.current ++ [(k, v)] } := by
  simp [add, assign, alter, h]

theorem settle_table (h : root.find? k = none) :
    settle ⟨root, current, [k], false⟩ = some (root ++ [(k, .table .header current)]) := by
  simp [settle, alter, h]

theorem openTable_new (hs : d.settle = some root) (h : root.find? k = none) :
    d.openTable [k] = some ⟨root, [], [k], false⟩ := by
  simp [openTable, hs, reach, h, alter]

theorem openTable_inner (hs : d.settle = some (root ++ [(j, .table .header ms)]))
    (hj : root.find? j = none) (hk : ms.find? k = none) :
    d.openTable [j, k] = some ⟨root ++ [(j, .table .header ms)], [], [j, k], false⟩ := by
  have hfind := Members.find?_snoc (v := .table .header ms) hj
  have hput := Members.put_snoc (v := .table .header ms) (w := .table .header ms) hj
  simp [openTable, hs, reach, hfind, hk, alter, hput]

theorem settle_inner (hj : root.find? j = none) (hk : ms.find? k = none) :
    settle ⟨root ++ [(j, .table .header ms)], current, [j, k], false⟩ =
      some (root ++ [(j, .table .header (ms ++ [(k, .table .header current)]))]) := by
  have hfind := Members.find?_snoc (v := .table .header ms) hj
  have hput := Members.put_snoc (v := .table .header ms)
    (w := .table .header (ms ++ [(k, .table .header current)])) hj
  simp [settle, alter, hfind, hk, hput]

end Draft

theorem Lines.feeds {cs : List Char} {ms : Members} (h : Lines cs ms) (d : Draft)
    (hnew : ((d.current ++ ms).map Prod.fst).Nodup) :
    Feeds d cs { d with current := d.current ++ ms } := by
  induction h generalizing d with
  | nil =>
    rw [List.append_nil]
    exact .nil d
  | @cons k value cs v ms hw _ ih =>
    have hk : d.current.find? (String.ofList k) = none := by
      rw [Members.find?_eq_none]
      rw [List.map_append, List.nodup_append] at hnew
      exact fun hmem => hnew.2.2 _ hmem _ List.mem_cons_self rfl
    have hrest := ih { d with current := d.current ++ [(String.ofList k, v)] } (by simpa using hnew)
    have hfirst := feeds_line hw (Draft.add_of_new (v := v) hk)
    simpa using hfirst.append hrest

/-! ## Headers -/

def Bare (k : List Char) : Prop := k ≠ [] ∧ k.all isBareChar = true

namespace Bare

variable {k : List Char}

theorem isBareChar_of_mem (hk : Bare k) {c : Char} (hc : c ∈ k) : isBareChar c = true :=
  List.all_eq_true.mp hk.2 c hc

theorem key? (hk : Bare k) (h : Stops isBareChar rest) :
    key? (skipSpaces (k ++ rest)) = some (String.ofList k, rest) := by
  have hskip : skipSpaces (k ++ rest) = k ++ rest := by
    obtain ⟨c, cs, rfl⟩ := List.exists_cons_of_ne_nil hk.1
    exact skipSpaces_solid (isSpace_of_isBareChar (hk.isBareChar_of_mem List.mem_cons_self)) _
  rw [hskip, key?_bare hk.1 (fun _ => hk.isBareChar_of_mem) h]

theorem parts?_last (hk : Bare k) (fuel : Nat) :
    parts? (fuel + 1) (k ++ ']' :: rest) = some ([String.ofList k], ']' :: rest) := by
  have hskip : skipSpaces (']' :: rest) = ']' :: rest := skipSpaces_solid (by decide) rest
  simp [parts?, hk.key? (stops_cons (c := ']') (by decide) rest), hskip]

theorem parts?_dot (hk : Bare k) {fuel : Nat} {cs : List Char} {ks : List String}
    (h : parts? fuel cs = some (ks, rest)) :
    parts? (fuel + 1) (k ++ '.' :: cs) = some (String.ofList k :: ks, rest) := by
  have hskip : skipSpaces ('.' :: cs) = '.' :: cs := skipSpaces_solid (by decide) cs
  simp [parts?, hk.key? (stops_cons (c := '.') (by decide) cs), hskip, h]

end Bare

/-- What stands between the brackets of a header. -/
def Names (name : List Char) (path : List String) : Prop :=
  (∀ cs rest, name ++ ']' :: cs ≠ '[' :: rest) ∧ ∀ rest, path? (name ++ ']' :: rest) = some (path, ']' :: rest)

theorem Bare.append_ne {k : List Char} (hk : Bare k) (cs rest : List Char) :
    k ++ cs ≠ '[' :: rest := by
  obtain ⟨c, ds, rfl⟩ := List.exists_cons_of_ne_nil hk.1
  exact cons_ne_cons (hk.isBareChar_of_mem List.mem_cons_self) rfl _ _

theorem names_one {k : List Char} (hk : Bare k) : Names k [String.ofList k] := by
  refine ⟨fun _ _ => hk.append_ne _ _, fun rest => ?_⟩
  have hlimit : ¬ nestingLimit ≤ 1 := by decide
  obtain ⟨fuel, hfuel⟩ : ∃ n, (k ++ ']' :: rest).length = n + 1 :=
    ⟨(k ++ rest).length, by simp [Nat.add_assoc]⟩
  simp [path?, hfuel, hk.parts?_last, hlimit]

theorem names_two {j k : List Char} (hj : Bare j) (hk : Bare k) :
    Names (j ++ '.' :: k) [String.ofList j, String.ofList k] := by
  refine ⟨fun _ _ => by simpa using hj.append_ne _ _, fun rest => ?_⟩
  have hlimit : ¬ nestingLimit ≤ 2 := by decide
  obtain ⟨fuel, hfuel⟩ : ∃ n, (j ++ '.' :: (k ++ ']' :: rest)).length = n + 2 :=
    ⟨(j ++ (k ++ rest)).length, by simp; omega⟩
  rw [List.append_assoc, List.cons_append]
  have hlast : parts? (fuel + 1) (k ++ ']' :: rest) = some ([String.ofList k], ']' :: rest) :=
    hk.parts?_last fuel
  simp [path?, hfuel, hj.parts?_dot hlast, hlimit]

theorem feeds_header {d d' : Draft} {name : List Char} {path : List String} (hn : Names name path)
    (hopen : d.openTable path = some d') : Feeds d (header name) d' := by
  have hheader : header name = ['\n'] ++ '[' :: (name ++ [']', '\n']) := rfl
  rw [hheader]
  refine (Feeds.blank d).append (Feeds.line (by decide) fun rest => ?_)
  have hall : '[' :: (name ++ [']', '\n']) ++ rest = '[' :: (name ++ ']' :: '\n' :: rest) := by simp
  have hpath := hn.2 ('\n' :: rest)
  have hafter : ∀ cs, after? ']' (']' :: cs) = some cs := by
    intro cs
    simp [after?]
  have hend : lineEnd? ('\n' :: rest) = some rest := rfl
  rw [hall]
  unfold line?
  split
  · rename_i heq
    exact absurd (List.cons.inj heq).2 (hn.1 _ _)
  · rename_i heq
    rw [← (List.cons.inj heq).2]
    simp only [hpath, hafter, hopen, hend, Option.bind_eq_bind, Option.bind_some]
  · rename_i hnot
    exact absurd rfl (hnot _)

/-! ## Documents -/

theorem feeds_table {d : Draft} {name cs : List Char} {path : List String} {root ms : Members}
    (hn : Names name path) (hopen : d.openTable path = some ⟨root, [], path, false⟩)
    (hl : Lines cs ms) (hnew : (ms.map Prod.fst).Nodup) :
    Feeds d (header name ++ cs) ⟨root, ms, path, false⟩ :=
  (feeds_header hn hopen).append (hl.feeds ⟨root, [], path, false⟩ hnew)

theorem parse?_of_feeds {cs : List Char} {d : Draft} {ms : Members} (hf : Feeds .empty cs d)
    (hs : d.settle = some ms) (hmark : cs.head? ≠ some '\ufeff') :
    parse? (String.ofList cs) = some ms := by
  obtain ⟨n, hn, hread⟩ := hf.feeds
  have hend : ∀ fuel, lines? d (fuel + 1) [] = some ms := by
    intro fuel
    simp [lines?, skipSpaces, hs]
  have hlines := hread [] (cs.length - n + 1)
  rw [List.append_nil, hend, show n + (cs.length - n + 1) = cs.length + 1 by omega] at hlines
  unfold parse?
  rw [String.toList_ofList]
  dsimp only
  split
  · exact absurd rfl hmark
  · exact hlines

end PushHub.Toml
