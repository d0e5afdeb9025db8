import Pedalboard.Decimal.Numeral

/-!
# Reading decimals quickly

**The rule** (`Decimal.quick?`). A decimal is read as a double in three roundings: its coefficient
and its power of ten are each rounded to a double, and so is their product or quotient. The result
can miss the nearest double by its last place. It is the nearest one when the coefficient is below
`2 ^ 53` and the power of ten at most `10 ^ 22`, since these two are then exact.

**Clipping** (`Numeral.clip`). A coefficient has 64 bits. The leading digits of a numeral that fit
are its coefficient; further digits before the point count as zeros, and further digits after the
point are dropped.

**Range.** Powers of ten beyond `10 ^ 308` are no doubles. Dividing by one takes several divisions;
multiplying by one overflows, unless the coefficient is zero.
-/

namespace Pedalboard

/-- The exponent of the greatest power of ten that is a double. -/
def maxTenPower : Nat := 308

/-! ## Clipping -/

/-- Appends digits to a coefficient while it stays below `naturalBound`; also how many are left. -/
def gather (coefficient : Nat) : List Char → Nat × Nat
  | [] => (coefficient, 0)
  | c :: cs =>
    let next := 10 * coefficient + (c.toNat - '0'.toNat)
    if next < naturalBound then gather next cs else (coefficient, (c :: cs).length)

/-- The decimal of a numeral, its coefficient cut to 64 bits. -/
def Numeral.clip (n : Numeral) : Decimal :=
  let fraction := n.fraction.getD []
  let (whole, beyond) := gather 0 n.whole
  let (coefficient, dropped) := gather whole fraction
  ⟨coefficient, n.exponent.getD 0 + beyond - ((fraction.length - dropped : Nat) : Int)⟩

/-! ## Rounding three times -/

namespace Binary

/-- The nearest double to `10 ^ k`. -/
def tenPower (k : Nat) : Double := ofDecimal false ⟨1, k⟩

/-- `x / 10 ^ k`, in divisions by at most `10 ^ 308`. -/
def divideByTenPower (x : Double) (k : Nat) : Double :=
  if k ≤ maxTenPower then x / tenPower k
  else if x.isZero then x
  else divideByTenPower (x / tenPower maxTenPower) (k - maxTenPower)
termination_by k
decreasing_by simp only [maxTenPower] at *; omega

end Binary

/-- The double that is read for a decimal, unless it overflows. -/
def Decimal.quick? (d : Decimal) : Option Double :=
  let x : Double := .ofNat d.coefficient
  let y :=
    if d.exponent < 0 then x.divideByTenPower (-d.exponent).toNat
    else if x.isZero then x
    else if (maxTenPower : Int) < d.exponent then .infinity false
    else x * .tenPower d.exponent.toNat
  if y.isFinite then some y else none

end Pedalboard
