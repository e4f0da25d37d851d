import PushHub.Json.Basic
/-!
The tokens of a JSON text. Scanning stops at the first fault of spelling, which is a token too, so
that what stands before a fault can be judged first.
-/
namespace PushHub.Json

structure Numeral where
  negative : Bool
  whole : List Char
  fraction : Option (List Char)
  /-- Whether the exponent is negative, and its digits. -/
  exponent : Option (Bool × List Char)
deriving Repr

namespace Numeral

def digits (cs : List Char) : List Char × List Char := cs.span Char.isDigit

def digitsAfter (cs : List Char) : Option (List Char × List Char) :=
  match digits cs with
  | ([], _) => none
  | (ds, rest) => some (ds, rest)

def scanFraction : List Char → Option (Option (List Char) × List Char)
  | '.' :: rest => (digitsAfter rest).map fun (ds, rest) => (some ds, rest)
  | cs => some (none, cs)

def scanExponent : List Char → Option (Option (Bool × List Char) × List Char)
  | c :: rest =>
    if c = 'e' ∨ c = 'E' then
      let (minus, rest) := match rest with
        | '-' :: r => (true, r)
        | '+' :: r => (false, r)
        | r => (false, r)
      (digitsAfter rest).map fun (ds, rest) => (some (minus, ds), rest)
    else some (none, c :: rest)
  | [] => some (none, [])

def scan (cs : List Char) : Option (Numeral × List Char) := do
  let (negative, cs) := match cs with
    | '-' :: r => (true, r)
    | r => (false, r)
  let (whole, rest) ← digitsAfter cs
  if whole.head? = some '0' ∧ whole.length ≠ 1 then none else
  let (fraction, rest) ← scanFraction rest
  let (exponent, rest) ← scanExponent rest
  some (⟨negative, whole, fraction, exponent⟩, rest)

/-- A significand of at most 64 bits with the power of ten it is scaled by. -/
structure Scaled where
  significand : Nat
  power : Int

def Scaled.whole (s : Scaled) : List Char → Bool → Scaled
  | [], _ => s
  | c :: rest, full =>
    let next := 10 * s.significand + (c.toNat - 48)
    if full || UInt64.size ≤ next then Scaled.whole ⟨s.significand, s.power + 1⟩ rest true
    else Scaled.whole ⟨next, s.power⟩ rest false

/-- Takes fraction digits while they fit a word and drops the rest. -/
def Scaled.fraction (s : Scaled) : List Char → Scaled
  | [] => s
  | c :: rest =>
    let next := 10 * s.significand + (c.toNat - 48)
    if UInt64.size ≤ next then s else Scaled.fraction ⟨next, s.power - 1⟩ rest

def powerOfTen (n : Nat) : Numeric.Double :=
  (Numeric.Double.ofDecimal false 1 n).getD (.zero false)

/-- The significand as a double, multiplied or divided by a power of ten; a power above 308 is out
of range, and one below -308 is applied in strides. -/
def scaleDouble : Nat → Numeric.Double → Int → Option Numeric.Double
  | 0, x, _ => some x
  | fuel + 1, x, e =>
    if e.natAbs ≤ 308 then
      if 0 ≤ e then x.mul (powerOfTen e.natAbs) else x.div (powerOfTen e.natAbs)
    else if x.mantissa = 0 then some x
    else if 0 ≤ e then none
    else (x.div (powerOfTen 308)).bind fun x => scaleDouble fuel x (e + 308)

def Scaled.double (s : Scaled) (negative : Bool) : Option Numeric.Double :=
  (Numeric.Double.ofQuotient negative s.significand 1).bind fun x =>
    scaleDouble (s.power.natAbs / 308 + 1) x s.power

/-- The number spelled, and `none` when it is too great for a double. Without fraction and exponent
it is an integer where 64 bits hold it, a negative zero excepted. -/
def value (n : Numeral) : Option JsonNumber :=
  let whole := Scaled.whole ⟨0, 0⟩ n.whole false
  match n.fraction, n.exponent with
  | none, none =>
    let i : Int := if n.negative then -whole.significand else whole.significand
    if whole.power = 0 ∧ ¬ (n.negative ∧ whole.significand = 0) then
      match WireInt.ofInt? i with
      | some w => some (.integer w)
      | none => (whole.double n.negative).map .float
    else (whole.double n.negative).map .float
  | fraction, exponent =>
    let s := match fraction with
      | some ds => whole.fraction ds
      | none => whole
    match exponent with
    | none => (s.double n.negative).map .float
    | some (minus, ds) =>
      let e := Text.digitsValue ds
      if 0x80000000 ≤ e then
        if s.significand ≠ 0 ∧ !minus then none else some (.float (.zero n.negative))
      else
        (Scaled.double ⟨s.significand, if minus then s.power - e else s.power + e⟩ n.negative).map
          .float

end Numeral

inductive Token
  | openList
  | closeList
  | openObject
  | closeObject
  | comma
  | colon
  | null
  | bool (b : Bool)
  | number (value : Option JsonNumber)
  /-- A text; it has no value when half of a surrogate pair stands alone in it. -/
  | text (value : Option String)
  | fault
deriving Repr

namespace Token

def hexValue? : List Char → Option (Nat × List Char)
  | a :: b :: c :: d :: rest => do
    let a ← Text.hexDigit? a
    let b ← Text.hexDigit? b
    let c ← Text.hexDigit? c
    let d ← Text.hexDigit? d
    some (((a * 16 + b) * 16 + c) * 16 + d, rest)
  | _ => none

def simpleEscape? : Char → Option Char
  | '"' => some '"'
  | '\\' => some '\\'
  | '/' => some '/'
  | 'b' => some '\x08'
  | 'f' => some '\x0c'
  | 'n' => some '\n'
  | 'r' => some '\r'
  | 't' => some '\t'
  | _ => none

/-- What a text holds so far, latest character first, and a leading surrogate that waits for its
trailing half. -/
structure Held where
  done : List Char
  whole : Bool
  lead : Option Nat

def Held.char (h : Held) (c : Char) : Held :=
  ⟨c :: h.done, h.whole && h.lead.isNone, none⟩

/-- Adds a code unit; a surrogate counts only as half of a pair. -/
def Held.unit (h : Held) (n : Nat) : Held :=
  if 0xD800 ≤ n ∧ n ≤ 0xDBFF then ⟨h.done, h.whole && h.lead.isNone, some n⟩
  else if 0xDC00 ≤ n ∧ n ≤ 0xDFFF then
    match h.lead with
    | some lead => ⟨Char.ofNat (0x10000 + (lead - 0xD800) * 0x400 + (n - 0xDC00)) :: h.done, h.whole, none⟩
    | none => ⟨h.done, false, none⟩
  else h.char (Char.ofNat n)

def Held.finish (h : Held) : Option String :=
  if h.whole && h.lead.isNone then some (String.ofList h.done.reverse) else none

def scanText (h : Held) : List Char → Option (Option String × List Char)
  | [] => none
  | '"' :: rest => some (h.finish, rest)
  | '\\' :: 'u' :: a :: b :: c :: d :: rest =>
    match hexValue? [a, b, c, d] with
    | some (n, _) => scanText (h.unit n) rest
    | none => none
  | '\\' :: e :: rest =>
    match simpleEscape? e with
    | some c => scanText (h.char c) rest
    | none => none
  | c :: rest => if c.toNat < 32 ∨ c = '\\' then none else scanText (h.char c) rest

def next? : List Char → Option (Token × List Char)
  | [] => none
  | c :: rest =>
    match c with
    | '[' => some (.openList, rest)
    | ']' => some (.closeList, rest)
    | '{' => some (.openObject, rest)
    | '}' => some (.closeObject, rest)
    | ',' => some (.comma, rest)
    | ':' => some (.colon, rest)
    | '"' =>
      match scanText ⟨[], true, none⟩ rest with
      | some (value, rest) => some (.text value, rest)
      | none => some (.fault, [])
    | 'n' =>
      match rest with
      | 'u' :: 'l' :: 'l' :: rest => some (.null, rest)
      | _ => some (.fault, [])
    | 't' =>
      match rest with
      | 'r' :: 'u' :: 'e' :: rest => some (.bool true, rest)
      | _ => some (.fault, [])
    | 'f' =>
      match rest with
      | 'a' :: 'l' :: 's' :: 'e' :: rest => some (.bool false, rest)
      | _ => some (.fault, [])
    | c =>
      if c = '-' ∨ c.isDigit then
        match Numeral.scan (c :: rest) with
        | some (n, rest) => some (.number n.value, rest)
        | none => some (.fault, [])
      else some (.fault, [])

def isSpace (c : Char) : Bool := c = ' ' || c = '\n' || c = '\t' || c = '\r'

/-- All tokens of a text after those of `done`, of which the latest stands first. Every token takes
at least a character. -/
def scanOnto (done : List Token) : Nat → List Char → List Token
  | 0, _ => done.reverse
  | fuel + 1, cs =>
    match next? (cs.dropWhile isSpace) with
    | none => done.reverse
    | some (t, rest) => scanOnto (t :: done) fuel rest

def scan (s : String) : List Token :=
  let cs := s.toList
  scanOnto [] cs.length cs

end Token

end PushHub.Json
