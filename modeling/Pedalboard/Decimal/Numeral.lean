import Pedalboard.Decimal.Basic

/-!
# Numerals

A numeral is a run of digits with an optional fraction and exponent, as it stands in a text. The
scanners take the longest run and return what follows it; what may be left out is up to the
grammars that use them.
-/

namespace Pedalboard

/-- Naturals below this fit 64 bits. -/
def naturalBound : Nat := 0x10000000000000000

/-- Integers from its opposite to below it fit 64 bits with sign. -/
def integerBound : Nat := 0x8000000000000000

/-- The parts of a number as it is written. -/
structure Numeral where
  negative : Bool
  whole : List Char
  /-- The digits after the point; `none` without a point. -/
  fraction : Option (List Char)
  exponent : Option Int
deriving Repr

namespace Numeral

/-- The absolute value. -/
def decimal (n : Numeral) : Decimal where
  coefficient := digitsValue (n.whole ++ n.fraction.getD [])
  exponent := n.exponent.getD 0 - ((n.fraction.getD []).length : Int)

/-- Neither point nor exponent. -/
def isInteger (n : Numeral) : Bool := n.fraction.isNone && n.exponent.isNone

end Numeral

def digitsOf (cs : List Char) : List Char := cs.takeWhile Char.isDigit

def afterDigits (cs : List Char) : List Char := cs.dropWhile Char.isDigit

/-- The value of an exponent after its mark, and what follows; it has at least one digit. -/
def exponentTail (cs : List Char) : Option (Int × List Char) :=
  let read (negative : Bool) (cs : List Char) : Option (Int × List Char) :=
    let digits := digitsOf cs
    if digits.isEmpty then none
    else
      let n : Int := digitsValue digits
      some (if negative then -n else n, afterDigits cs)
  match cs with
  | '+' :: rest => read false rest
  | '-' :: rest => read true rest
  | _ => read false cs

/-- An exponent, if a mark stands here. -/
def optionalExponent (cs : List Char) : Option (Option Int × List Char) :=
  match cs with
  | c :: rest =>
    if c = 'e' ∨ c = 'E' then (exponentTail rest).map fun (n, rest) => (some n, rest)
    else some (none, cs)
  | [] => some (none, [])

end Pedalboard
