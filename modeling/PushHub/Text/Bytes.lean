/-!
Texts as bytes: the UTF-8 encoding, its strict reading, and a reading that puts a replacement
character where bytes are no encoding.
-/
namespace PushHub.Text

def utf8 (s : String) : List UInt8 := s.toUTF8.toList

def ofUtf8? (bytes : List UInt8) : Option String := String.fromUTF8? ⟨bytes.toArray⟩

/-- How many bytes follow a leading byte, and the bounds of the first of them. -/
def continuation? (b : UInt8) : Option (Nat × Nat × Nat) :=
  let n := b.toNat
  if 0xC2 ≤ n ∧ n ≤ 0xDF then some (1, 0x80, 0xBF)
  else if n = 0xE0 then some (2, 0xA0, 0xBF)
  else if n = 0xED then some (2, 0x80, 0x9F)
  else if 0xE1 ≤ n ∧ n ≤ 0xEF then some (2, 0x80, 0xBF)
  else if n = 0xF0 then some (3, 0x90, 0xBF)
  else if 0xF1 ≤ n ∧ n ≤ 0xF3 then some (3, 0x80, 0xBF)
  else if n = 0xF4 then some (3, 0x80, 0x8F)
  else none

def replacement : Char := '\ufffd'

def continued (n low high : Nat) : List UInt8 → Nat
  | [] => 0
  | b :: rest =>
    match n with
    | 0 => 0
    | n + 1 => if low ≤ b.toNat ∧ b.toNat ≤ high then continued n 0x80 0xBF rest + 1 else 0

def codePoint (lead : Nat) (tail : List UInt8) : Nat :=
  let head := if lead < 0xE0 then lead - 0xC0 else if lead < 0xF0 then lead - 0xE0 else lead - 0xF0
  tail.foldl (fun n b => n * 64 + (b.toNat - 0x80)) head

/-- Reads bytes, with `mark` for each longest start of a sequence that is cut off. -/
def markedOnto (mark : List Char) (done : List Char) : Nat → List UInt8 → List Char
  | 0, _ => done.reverse
  | _, [] => done.reverse
  | fuel + 1, b :: rest =>
    if b.toNat < 0x80 then markedOnto mark (Char.ofNat b.toNat :: done) fuel rest
    else match continuation? b with
      | none => markedOnto mark (mark.reverse ++ done) fuel rest
      | some (n, low, high) =>
        let k := continued n low high rest
        if k = n then
          markedOnto mark (Char.ofNat (codePoint b.toNat (rest.take n)) :: done) fuel (rest.drop n)
        else markedOnto mark (mark.reverse ++ done) fuel (rest.drop k)

def markedUtf8 (mark : List Char) (bytes : List UInt8) : String :=
  String.ofList (markedOnto mark [] bytes.length bytes)

def lossyUtf8 (bytes : List UInt8) : String := markedUtf8 [replacement] bytes

end PushHub.Text
