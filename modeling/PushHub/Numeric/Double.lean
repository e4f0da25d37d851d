/-!
Finite binary64 numbers held exactly: a sign, and a magnitude `mantissa · 2 ^ exponent`. Every
operation is computed on natural numbers and rounded once, to the nearest representable number and
on a tie to the even mantissa.
-/
namespace PushHub.Numeric

/-- The number `± mantissa · 2 ^ exponent`. Rounding yields a mantissa below `2 ^ 53`. -/
structure Double where
  negative : Bool
  mantissa : Nat
  exponent : Int
deriving DecidableEq, Repr

namespace Double

def zero (negative : Bool) : Double := ⟨negative, 0, -1074⟩

/-- The quotient rounded to a whole number, a half going to the even neighbour. -/
def roundDiv (num den : Nat) : Nat :=
  let q := num / den
  let r := num % den
  if 2 * r > den || (2 * r == den && q % 2 == 1) then q + 1 else q

def scaled (num den : Nat) (e : Int) : Nat × Nat :=
  if 0 ≤ e then (num, den <<< e.toNat) else (num <<< (-e).toNat, den)

/-- The double nearest to `± num / den`, and `none` beyond the greatest one. -/
def ofQuotient (negative : Bool) (num den : Nat) : Option Double :=
  if num = 0 then some (zero negative) else
    let guess : Int := (Nat.log2 num : Int) - (Nat.log2 den : Int) - 52
    let (n, d) := scaled num den guess
    let exact := if n / d < 1 <<< 52 then guess - 1 else guess
    let e := max exact (-1074)
    let (n, d) := scaled num den e
    let m := roundDiv n d
    let (m, e) := if m = 1 <<< 53 then (1 <<< 52, e + 1) else (m, e)
    if 971 < e then none else some ⟨negative, m, e⟩

/-- The double nearest to `± significand · 10 ^ e`. Powers far outside the range of doubles decide
the answer without being computed. -/
def ofDecimal (negative : Bool) (significand : Nat) (e : Int) : Option Double :=
  let bits : Int := Nat.log2 significand
  if significand = 0 ∨ bits + 3 * e < -1200 ∧ e < 0 then some (zero negative)
  else if 1100 < bits + 3 * e ∧ 0 ≤ e then none
  else if 0 ≤ e then ofQuotient negative (significand * Nat.pow 10 e.toNat) 1
  else ofQuotient negative significand (Nat.pow 10 (-e).toNat)

def fraction (x : Double) : Nat × Nat :=
  if 0 ≤ x.exponent then (x.mantissa <<< x.exponent.toNat, 1)
  else (x.mantissa, 1 <<< (-x.exponent).toNat)

def mul (x y : Double) : Option Double :=
  let (a, b) := x.fraction
  let (c, d) := y.fraction
  ofQuotient (x.negative != y.negative) (a * c) (b * d)

def div (x y : Double) : Option Double :=
  let (a, b) := x.fraction
  let (c, d) := y.fraction
  ofQuotient (x.negative != y.negative) (a * d) (b * c)

end Double

end PushHub.Numeric
