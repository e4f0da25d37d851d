import PushHub.Text.Base64Url
import PushHub.Text.Bytes

/-! Texts as bytes, and bytes as letters of a small alphabet. Both are read back as they were written,
and nothing else is read as the same bytes. -/
namespace PushHub.Text

/-! ## UTF-8 -/

theorem toList_loop (bytes : ByteArray) (i : Nat) (done : List UInt8) :
    ByteArray.toList.loop bytes i done = done.reverse ++ bytes.data.toList.drop i := by
  fun_induction ByteArray.toList.loop bytes i done with
  | case1 i done hi ih =>
    have hlt : i < bytes.data.toList.length := hi
    have hget : bytes.get! i = bytes.data.toList[i] := by
      show bytes.data[i]! = _
      rw [getElem!_pos bytes.data i hi, Array.getElem_toList]
    rw [ih, List.reverse_cons, List.append_assoc, hget, List.drop_eq_getElem_cons hlt]
    rfl
  | case2 i done hi =>
    rw [List.drop_eq_nil_of_le (Nat.le_of_not_lt hi), List.append_nil]

theorem utf8_eq (s : String) : utf8 s = s.toByteArray.data.toList := by
  show ByteArray.toList.loop s.toByteArray 0 [] = _
  rw [toList_loop, List.reverse_nil, List.nil_append, List.drop_zero]

theorem ofUtf8?_utf8 (s : String) : ofUtf8? (utf8 s) = some s := by
  have hbytes : (⟨(utf8 s).toArray⟩ : ByteArray) = s.toByteArray := by
    rw [utf8_eq]
  unfold ofUtf8? String.fromUTF8?
  rw [hbytes, dif_pos s.isValidUTF8]
  rfl

namespace Base64Url

/-- The numbers of the letters in which bytes are written. -/
def sextets : List UInt8 → List Nat
  | [] => []
  | [a] =>
    let n := a.toNat
    [n / 4, n % 4 * 16]
  | [a, b] =>
    let n := a.toNat * 256 + b.toNat
    [n / 1024, n / 16 % 64, n % 16 * 4]
  | a :: b :: c :: rest =>
    let n := (a.toNat * 256 + b.toNat) * 256 + c.toNat
    n / 262144 :: n / 4096 % 64 :: n / 64 % 64 :: n % 64 :: sextets rest

theorem encode_eq (bytes : List UInt8) : encode bytes = (sextets bytes).map symbol := by
  fun_induction encode bytes with
  | case1 => rfl
  | case2 a => rfl
  | case3 a b => rfl
  | case4 a b c rest n ih => simp [sextets, ih, n]

theorem sextets_lt (bytes : List UInt8) : ∀ n ∈ sextets bytes, n < 64 := by
  fun_induction sextets bytes with
  | case1 => simp
  | case2 a n =>
    have := a.toNat_lt
    simp only [List.mem_cons, List.not_mem_nil, or_false]
    omega
  | case3 a b n =>
    have := a.toNat_lt
    have := b.toNat_lt
    simp only [List.mem_cons, List.not_mem_nil, or_false]
    omega
  | case4 a b c rest n ih =>
    have := a.toNat_lt
    have := b.toNat_lt
    have := c.toNat_lt
    simp only [List.mem_cons]
    rintro k (hk | hk | hk | hk | hk)
    · omega
    · omega
    · omega
    · omega
    · exact ih k hk

theorem ofNat_eq {k : Nat} {a : UInt8} (h : k = a.toNat) : UInt8.ofNat k = a := by
  rw [h, UInt8.ofNat_toNat]

theorem ofSextets_sextets (bytes : List UInt8) : ofSextets (sextets bytes) = some bytes := by
  fun_induction sextets bytes with
  | case1 => rfl
  | case2 a n =>
    have hzero : n % 4 * 16 % 16 = 0 := by omega
    have ha : n / 4 * 4 + n % 4 * 16 / 16 = a.toNat := by omega
    simp only [ofSextets, hzero, if_true, ofNat_eq ha]
  | case3 a b n =>
    have hb := b.toNat_lt
    have hzero : n % 16 * 4 % 4 = 0 := by omega
    have hn : (n / 1024 * 64 + n / 16 % 64) * 16 + n % 16 * 4 / 4 = n := by omega
    have ha : n / 256 = a.toNat := by omega
    have hb' : n % 256 = b.toNat := by omega
    simp only [ofSextets, hzero, if_true, hn, ofNat_eq ha, ofNat_eq hb']
  | case4 a b c rest n ih =>
    have hb := b.toNat_lt
    have hc := c.toNat_lt
    have hn : ((n / 262144 * 64 + n / 4096 % 64) * 64 + n / 64 % 64) * 64 + n % 64 = n := by omega
    have ha : n / 65536 = a.toNat := by omega
    have hb' : n / 256 % 256 = b.toNat := by omega
    have hc' : n % 256 = c.toNat := by omega
    simp only [ofSextets, ih, Option.map_some, hn, ofNat_eq ha, ofNat_eq hb', ofNat_eq hc']

/-- Bytes have one written form: the bits that fill up the last letter are zero. -/
theorem eq_sextets_of_ofSextets {ns : List Nat} {bytes : List UInt8} (hlt : ∀ n ∈ ns, n < 64)
    (h : ofSextets ns = some bytes) : ns = sextets bytes := by
  fun_induction ofSextets ns generalizing bytes with
  | case1 =>
    cases h
    rfl
  | case2 => cases h
  | case3 a b hzero =>
    cases h
    simp only [List.mem_cons, List.not_mem_nil, or_false, forall_eq_or_imp, forall_eq] at hlt
    simp only [sextets, UInt8.toNat_ofNat', List.cons.injEq, and_true]
    omega
  | case4 => cases h
  | case5 a b c hzero =>
    cases h
    simp only [List.mem_cons, List.not_mem_nil, or_false, forall_eq_or_imp, forall_eq] at hlt
    simp only [sextets, UInt8.toNat_ofNat', List.cons.injEq, and_true]
    omega
  | case6 => cases h
  | case7 a b c d rest n =>
    rename_i ih
    obtain ⟨others, hothers, rfl⟩ := Option.map_eq_some_iff.mp h
    simp only [List.mem_cons, forall_eq_or_imp] at hlt
    obtain ⟨ha, hb, hc, hd, hrest⟩ := hlt
    simp only [sextets, UInt8.toNat_ofNat', List.cons.injEq, ← ih hrest hothers, and_true]
    omega

/-! ## Letters -/

theorem value?_symbol {n : Nat} (hn : n < 64) : value? (symbol n) = some n := by
  revert n
  decide

theorem symbol_ne_dot {n : Nat} (hn : n < 64) : symbol n ≠ '.' := by
  revert n
  decide

theorem symbol_of_value? {c : Char} {n : Nat} (h : value? c = some n) : symbol n = c ∧ n < 64 := by
  -- Each range of letters is shifted by a constant, which is undone.
  have hback {k m : Nat} (hk : k = c.toNat) (hm : m < 64) (hs : symbol m = Char.ofNat k) :
      symbol m = c ∧ m < 64 := by
    rw [hs, hk, Char.ofNat_toNat]
    exact ⟨rfl, hm⟩
  unfold value? at h
  split at h
  · rename_i hc
    cases h
    have hlow : 65 ≤ c.toNat := hc.1
    have hhigh : c.toNat ≤ 90 := hc.2
    refine hback (k := 65 + (c.toNat - 65)) (by omega) (by omega) ?_
    rw [symbol, if_pos (by omega)]
  · split at h
    · rename_i hc
      cases h
      have hlow : 97 ≤ c.toNat := hc.1
      have hhigh : c.toNat ≤ 122 := hc.2
      refine hback (k := 97 + (c.toNat - 97 + 26 - 26)) (by omega) (by omega) ?_
      rw [symbol, if_neg (by omega), if_pos (by omega)]
    · split at h
      · rename_i hc
        cases h
        have hlow : 48 ≤ c.toNat := hc.1
        have hhigh : c.toNat ≤ 57 := hc.2
        refine hback (k := 48 + (c.toNat - 48 + 52 - 52)) (by omega) (by omega) ?_
        rw [symbol, if_neg (by omega), if_neg (by omega), if_pos (by omega)]
      · split at h
        · rename_i hc
          cases h
          exact ⟨hc.symm, by decide⟩
        · split at h
          · rename_i hc
            cases h
            exact ⟨hc.symm, by decide⟩
          · cases h

theorem mapM_value? {cs : List Char} {ns : List Nat} :
    cs.mapM value? = some ns ↔ cs = ns.map symbol ∧ ∀ n ∈ ns, n < 64 := by
  induction cs generalizing ns with
  | nil =>
    constructor
    · intro h
      cases h
      exact ⟨rfl, nofun⟩
    · rintro ⟨h, -⟩
      rw [List.map_eq_nil_iff.mp h.symm]
      rfl
  | cons c cs ih =>
    simp only [List.mapM_cons, Option.bind_eq_bind, Option.bind_eq_some_iff, ih]
    constructor
    · rintro ⟨n, hn, ms, ⟨rfl, hlt⟩, h⟩
      cases h
      obtain ⟨rfl, hbound⟩ := symbol_of_value? hn
      exact ⟨rfl, List.forall_mem_cons.mpr ⟨hbound, hlt⟩⟩
    · rintro ⟨h, hlt⟩
      cases ns with
      | nil => cases h
      | cons n ns =>
        cases h
        obtain ⟨hn, hlt⟩ := List.forall_mem_cons.mp hlt
        exact ⟨n, value?_symbol hn, ns, ⟨rfl, hlt⟩, rfl⟩

theorem decode_eq_some {cs : List Char} {bytes : List UInt8} :
    decode cs = some bytes ↔ cs = encode bytes := by
  unfold decode
  rw [Option.bind_eq_some_iff, encode_eq]
  constructor
  · rintro ⟨ns, hns, hbytes⟩
    obtain ⟨rfl, hlt⟩ := mapM_value?.mp hns
    rw [eq_sextets_of_ofSextets hlt hbytes]
  · rintro rfl
    exact ⟨sextets bytes, mapM_value?.mpr ⟨rfl, sextets_lt bytes⟩, ofSextets_sextets bytes⟩

theorem dot_not_mem_encode (bytes : List UInt8) : '.' ∉ encode bytes := by
  rw [encode_eq]
  intro h
  obtain ⟨n, hn, hdot⟩ := List.mem_map.mp h
  exact symbol_ne_dot (sextets_lt bytes n hn) hdot

end Base64Url

end PushHub.Text
