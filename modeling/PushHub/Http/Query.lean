import PushHub.Text.Bytes
/-!
Queries of the kind forms send: pairs joined by ampersands, a plus for a blank, and bytes that are
written as a percent sign and two digits. The bytes are read as UTF-8.
-/
namespace PushHub.Http

def hexValue? (b : UInt8) : Option UInt8 :=
  let n := b.toNat
  if 0x30 ≤ n ∧ n ≤ 0x39 then some (b - 0x30)
  else if 0x41 ≤ n ∧ n ≤ 0x46 then some (b - 0x37)
  else if 0x61 ≤ n ∧ n ≤ 0x66 then some (b - 0x57)
  else none

/-- Replaces what is written with a percent sign; one without two digits stands for itself. -/
def percentDecoded : List UInt8 → List UInt8
  | b :: x :: y :: rest =>
    if b = 0x25 then
      match hexValue? x, hexValue? y with
      | some high, some low => (16 * high + low) :: percentDecoded rest
      | _, _ => b :: percentDecoded (x :: y :: rest)
    else b :: percentDecoded (x :: y :: rest)
  | bytes => bytes

def plusToBlank (b : UInt8) : UInt8 := if b = 0x2B then 0x20 else b

def formText (cs : List Char) : String :=
  Text.lossyUtf8 (percentDecoded ((Text.utf8 (String.ofList cs)).map plusToBlank))

/-- The pairs of a query in their order; one without an equals sign has an empty value. -/
def formPairs (query : List Char) : List (String × String) :=
  ((query.splitOn '&').filter (· ≠ [])).map fun pair =>
    (formText (pair.takeWhile (· ≠ '=')), formText ((pair.dropWhile (· ≠ '=')).drop 1))

end PushHub.Http
