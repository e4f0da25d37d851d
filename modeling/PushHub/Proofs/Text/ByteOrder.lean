import PushHub.Proofs.Text.Base64Url
import Mathlib.Data.List.Lex

/-! Texts are in the order of their bytes: of two characters, the one with the smaller number is
written with the smaller bytes. -/
namespace PushHub.Text

/-- The order of bytes, decided where two lists first differ. -/
def Below (as bs : List UInt8) : Prop := List.Lex (· < ·) as bs

theorem below_byte {a b : Nat} {as bs : List UInt8} (hle : a ≤ b) (hb : b < 256)
    (h : a = b → Below as bs) : Below (UInt8.ofNat a :: as) (UInt8.ofNat b :: bs) := by
  rcases Nat.lt_or_eq_of_le hle with hlt | heq
  · exact .rel ((UInt8.ofNat_lt_iff_lt (Nat.lt_trans hlt hb) hb).mpr hlt)
  · rw [heq]
    exact .cons (h heq)

theorem below_utf8EncodeChar {c d : Char} (h : c < d) (as bs : List UInt8) :
    Below (String.utf8EncodeChar c ++ as) (String.utf8EncodeChar d ++ bs) := by
  have hlt : c.val.toNat < d.val.toNat := h
  have hmax : d.val.toNat < 0x110000 := by
    have hvalid := d.valid
    unfold UInt32.isValidChar Nat.isValidChar at hvalid
    omega
  unfold String.utf8EncodeChar
  dsimp only
  generalize c.val.toNat = v at hlt
  generalize d.val.toNat = w at hlt hmax
  -- A greater number is written with no fewer bytes. Where it is written with more, the first byte
  -- is greater; otherwise the bytes agree until a digit of the number is greater.
  split_ifs <;> try omega
  all_goals
    repeat
      first
      | omega
      | refine below_byte (by omega) (by omega) fun _ => ?_

theorem below_flatMap {cs ds : List Char} (h : List.Lex (· < ·) cs ds) :
    Below (cs.flatMap String.utf8EncodeChar) (ds.flatMap String.utf8EncodeChar) := by
  induction h with
  | @nil d ds =>
    have hsome : String.utf8EncodeChar d ≠ [] := by simp
    obtain ⟨b, bs, hbytes⟩ := List.exists_cons_of_ne_nil hsome
    rw [List.flatMap_cons, hbytes]
    exact .nil
  | rel hlt => exact below_utf8EncodeChar hlt _ _
  | cons _ ih => exact ih.append_left (· < ·) _

theorem utf8_eq_flatMap (s : String) : utf8 s = s.toList.flatMap String.utf8EncodeChar := by
  rw [utf8_eq, ← String.utf8Encode_toList, List.utf8Encode, List.data_toByteArray]

theorem below_utf8 {s t : String} (h : s < t) : Below (utf8 s) (utf8 t) := by
  rw [utf8_eq_flatMap, utf8_eq_flatMap]
  exact below_flatMap h

end PushHub.Text
