import Pedalboard.Binary.Arithmetic

/-!
# Decimal numerals

**Values** (`Decimal`). A natural coefficient times a power of ten.

**Nearest** (`Binary.ofDecimal`). The binary number nearest to a decimal, a tie going to the even
magnitude. Exponents far outside the format are decided by the number of digits alone, so no
power of ten is ever computed that the format cannot need.

**Literals.** Numerals such as `0.05` in the tables of this library are binary numbers through
`Binary.ofDecimal`.
-/

namespace Pedalboard

/-- `coefficient * 10 ^ exponent`. -/
structure Decimal where
  coefficient : Nat
  exponent : Int
deriving DecidableEq, Repr

/-- The value of a string of decimal digits. -/
def digitsValue (digits : List Char) : Nat :=
  digits.foldl (fun n c => 10 * n + (c.toNat - '0'.toNat)) 0

/-- The number of decimal digits; `0` has one. -/
def digitCount (n : Nat) : Nat := (Nat.toDigits 10 n).length

namespace Decimal

/-- The value as a quotient of naturals, times a natural. -/
def numerator (d : Decimal) (times : Nat) : Nat := d.coefficient * 10 ^ d.exponent.toNat * times

def denominator (d : Decimal) : Nat := 10 ^ (-d.exponent).toNat

end Decimal

/-- The magnitude nearest to a decimal. -/
def Format.nearestDecimal (f : Format) (d : Decimal) : Nat :=
  let e := digitCount d.coefficient + d.exponent
  if d.coefficient = 0 ∨ e < -(f.scale : Int) then 0
  else if (f.scale : Int) < e then f.infinity
  else f.nearest (d.numerator (2 ^ f.scale)) d.denominator

theorem Format.nearestDecimal_lt (f : Format) (d : Decimal) :
    f.nearestDecimal d < 2 ^ f.magnitudeBits := by
  unfold Format.nearestDecimal
  have hz := Nat.two_pow_pos f.magnitudeBits
  have hi := f.infinity_lt
  have hn := f.nearest_lt (d.numerator (2 ^ f.scale)) d.denominator
  dsimp only
  repeat' split
  all_goals assumption

namespace Binary

variable {f : Format}

/-- The number nearest to a decimal of the given sign. -/
def ofDecimal (negative : Bool) (d : Decimal) : Binary f :=
  ⟨negative, f.nearestDecimal d, f.nearestDecimal_lt d⟩

instance : OfScientific (Binary f) where
  ofScientific m negativeExponent e :=
    ofDecimal false ⟨m, if negativeExponent then -(e : Int) else e⟩

end Binary

end Pedalboard
