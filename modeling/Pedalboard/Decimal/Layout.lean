import Pedalboard.Decimal.Shortest

/-!
# Writing numbers

**Shortest form** (`Layout`). The digits are those of `Binary.shortest`; a layout says where they
are written positionally and what surrounds them. Each output of the program that shows such
numbers has one layout value.

**Fixed places** (`Binary.fixed`). The exact value rounded to a number of decimal places, a half
going to the even neighbour. The sign is kept also when every digit is zero.
-/

namespace Pedalboard

/-- The decisions of an output format on how a finite number is written. -/
structure Layout where
  /-- Which of two equally near shortest decimals is taken. -/
  tie : Tie
  /-- The exponents of the first digit for which no exponent is written. -/
  positional : Int → Bool
  /-- Integers in positional form end in `.0`. -/
  pointAlways : Bool
  /-- Positive exponents carry a sign. -/
  plusSign : Bool

namespace Layout

variable (l : Layout)

def sign (negative : Bool) : List Char := if negative then ['-'] else []

def exponentText (e : Int) : List Char :=
  let mark := if e < 0 then ['-'] else if l.plusSign then ['+'] else []
  'e' :: mark ++ Nat.toDigits 10 e.natAbs

/-- Digits whose last place is `10 ^ k`, with no exponent. -/
def positionalText (digits : List Char) (k : Int) : List Char :=
  let whole := digits.length + k
  if 0 ≤ k then
    digits ++ List.replicate k.toNat '0' ++ if l.pointAlways then ['.', '0'] else []
  else if 0 < whole then
    digits.take whole.toNat ++ '.' :: digits.drop whole.toNat
  else
    '0' :: '.' :: List.replicate (-whole).toNat '0' ++ digits

/-- Digits whose first place is `10 ^ e`, with an exponent. -/
def scientificText (digits : List Char) (e : Int) : List Char :=
  match digits with
  | [] => []
  | [c] => c :: l.exponentText e
  | c :: cs => c :: '.' :: cs ++ l.exponentText e

def decimalText (d : Decimal) : List Char :=
  let digits := Nat.toDigits 10 d.coefficient
  let e := digits.length + d.exponent - 1
  if l.positional e then l.positionalText digits d.exponent else l.scientificText digits e

/-- A finite number in its shortest form. -/
def render {f : Format} (x : Binary f) : List Char :=
  sign x.negative ++ l.decimalText (x.shortest l.tie)

end Layout

/-- `n` units of `10 ^ -places`, with all its places. -/
def fixedText (places n : Nat) : List Char :=
  let digits := Nat.toDigits 10 n
  let digits := List.replicate (places + 1 - digits.length) '0' ++ digits
  let whole := digits.length - places
  if places = 0 then digits else digits.take whole ++ '.' :: digits.drop whole

/-- A number with a fixed number of decimal places. -/
def Binary.fixed {f : Format} (places : Nat) (x : Binary f) : String :=
  if x.isNaN then "NaN"
  else if x.isInfinite then (if x.negative then "-inf" else "inf")
  else
    let n := roundHalfEven (x.steps * 10 ^ places) (2 ^ f.scale)
    String.ofList (Layout.sign x.negative ++ fixedText places n)

end Pedalboard
