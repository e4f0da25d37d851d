import PushHub.Numeric.Double
import PushHub.Text.Decimal
/-!
The shortest decimal that reads back: the fewest significant digits whose value rounds to the
given double, and of those with that many digits the nearest one.
-/
namespace PushHub.Numeric

structure Scientific where
  digits : Nat
  exponent : Int
deriving DecidableEq, Repr

namespace Double

/-- The reals that round to a double, scaled to a common denominator: lower end, the number
itself, upper end, denominator. The ends belong to it when the mantissa is even. -/
structure Basin where
  low : Nat
  value : Nat
  high : Nat
  den : Nat
  closed : Bool

def basin (x : Double) : Basin :=
  let m := x.mantissa
  let quarter := m == 1 <<< 52 && x.exponent > -1074
  let scale (k : Nat) := if 0 ≤ x.exponent then k <<< x.exponent.toNat else k
  let den := if 0 ≤ x.exponent then 4 else 4 <<< (-x.exponent).toNat
  ⟨scale (if quarter then 4 * m - 1 else 4 * m - 2), scale (4 * m), scale (4 * m + 2), den,
    m % 2 == 0⟩

def Basin.holds (b : Basin) (d : Nat) (e : Int) : Bool :=
  let (n, k) := if 0 ≤ e then (d * Nat.pow 10 e.toNat, 1) else (d, Nat.pow 10 (-e).toNat)
  let v := n * b.den
  let lo := b.low * k
  let hi := b.high * k
  if b.closed then lo ≤ v && v ≤ hi else lo < v && v < hi

def Basin.distance (b : Basin) (d : Nat) (e : Int) : Nat :=
  let (n, k) := if 0 ≤ e then (d * Nat.pow 10 e.toNat, 1) else (d, Nat.pow 10 (-e).toNat)
  let v := n * b.den
  let x := b.value * k
  if v ≤ x then x - v else v - x

/-- The point of the grid of multiples of `10 ^ e` that stands for the double, if one does. -/
def Basin.onGrid (b : Basin) (e : Int) : Option Nat :=
  let (n, k) := if 0 ≤ e then (b.value, b.den * Nat.pow 10 e.toNat) else (b.value * Nat.pow 10 (-e).toNat, b.den)
  let below := n / k
  let above := below + 1
  match b.holds below e && below != 0, b.holds above e with
  | true, true =>
    let down := b.distance below e
    let up := b.distance above e
    some (if down < up || (down == up && below % 2 == 0) then below else above)
  | true, false => some below
  | false, true => some above
  | false, false => none

/-- The first grid with a hit, from the coarsest of `steps` many down to finer ones. -/
def Basin.search (b : Basin) : Nat → Int → Scientific
  | 0, e => ⟨b.value * Nat.pow 10 (-e).toNat / b.den, e⟩
  | steps + 1, e =>
    match b.onGrid e with
    | some d => ⟨d, e⟩
    | none => b.search steps (e - 1)

def Scientific.strip : Nat → Scientific → Scientific
  | 0, s => s
  | fuel + 1, s =>
    if s.digits % 10 = 0 ∧ s.digits ≠ 0 then strip fuel ⟨s.digits / 10, s.exponent + 1⟩ else s

def leadingPlace (num den : Nat) : Int :=
  let guess : Int := ((Nat.toDigits 10 num).length : Int) - ((Nat.toDigits 10 den).length : Int)
  if 0 ≤ guess then (if num < den * Nat.pow 10 guess.toNat then guess - 1 else guess)
  else (if num * Nat.pow 10 (-guess).toNat < den then guess - 1 else guess)

def shortest (x : Double) : Scientific :=
  let b := x.basin
  let (num, den) := x.fraction
  let s := b.search 20 (leadingPlace num den + 1)
  Scientific.strip 20 s

end Double

structure Layout where
  /-- The greatest place of the point, counted from the first digit, written positionally. -/
  widest : Int
  narrowest : Int
  plus : Bool
  exponentWidth : Nat

def positional (digits : List Char) (point : Int) : List Char :=
  let n := digits.length
  if point ≤ 0 then '0' :: '.' :: (List.replicate (-point).toNat '0' ++ digits)
  else if (n : Int) ≤ point then
    digits ++ List.replicate (point - n).toNat '0' ++ ['.', '0']
  else digits.take point.toNat ++ '.' :: digits.drop point.toNat

def Layout.exponential (style : Layout) (digits : List Char) (e : Int) : List Char :=
  let sign := if 0 ≤ e then (if style.plus then ['+'] else []) else ['-']
  let power := Text.decimal e.natAbs
  let head := match digits with
    | [] => []
    | [d] => [d]
    | d :: rest => d :: '.' :: rest
  head ++ 'e' :: sign ++ List.replicate (style.exponentWidth - power.length) '0' ++ power

def Layout.write (style : Layout) (x : Double) : List Char :=
  let sign := if x.negative then ['-'] else []
  if x.mantissa = 0 then sign ++ ['0', '.', '0'] else
    let s := x.shortest
    let digits := Text.decimal s.digits
    let point := (digits.length : Int) + s.exponent
    sign ++
      if style.narrowest ≤ point ∧ point ≤ style.widest then positional digits point
      else style.exponential digits (point - 1)

end PushHub.Numeric
