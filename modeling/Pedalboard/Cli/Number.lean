import Pedalboard.Decimal.Layout
import Pedalboard.Decimal.Numeral

/-!
# Numbers that users type

**Singles** (`single?`). A sign is optional, and so is one of the two runs of digits around the
point. `inf`, `infinity` and `nan` are understood in letters of either case. A number that is too
large is infinite.

**Naturals** (`natural64`). Decimal digits after an optional plus sign, up to 64 bits. The first
character at which the number cannot go on decides why it is refused.

**Showing singles.** `plainText` never uses an exponent and adds no point; `exactText` marks every
number as one that can have a fraction, and uses an exponent for the very large and very small.
-/

namespace Pedalboard.Cli

/-! ## Singles -/

/-- The absolute value of a numeral that fills the whole text. -/
def unsigned? (cs : List Char) : Option Decimal := do
  let whole := digitsOf cs
  let (fraction, cs) := match afterDigits cs with
    | '.' :: rest => (digitsOf rest, afterDigits rest)
    | cs => ([], cs)
  if whole.isEmpty && fraction.isEmpty then none
  let (exponent, cs) ← optionalExponent cs
  if !cs.isEmpty then none
  return ({ negative := false, whole, fraction := some fraction, exponent } : Numeral).decimal

/-- A number without its sign. -/
def magnitude? (negative : Bool) (cs : List Char) : Option Single :=
  match unsigned? cs with
  | some d => some (.ofDecimal negative d)
  | none =>
    let word := String.ofList (cs.map Char.toLower)
    if word = "inf" ∨ word = "infinity" then some (.infinity negative)
    else if word = "nan" then some .nan
    else none

def single? (text : String) : Option Single :=
  match text.toList with
  | '+' :: rest => magnitude? false rest
  | '-' :: rest => magnitude? true rest
  | cs => magnitude? false cs

def plainLayout : Layout where
  tie := .up
  positional _ := true
  pointAlways := false
  plusSign := false

def exactLayout : Layout where
  tie := .up
  positional e := -4 ≤ e && e ≤ 15
  pointAlways := true
  plusSign := false

def singleText (l : Layout) (x : Single) : String :=
  if x.isNaN then "NaN"
  else if x.isInfinite then (if x.negative then "-inf" else "inf")
  else String.ofList (l.render x)

def plainText (x : Single) : String := singleText plainLayout x

def exactText (x : Single) : String := singleText exactLayout x

/-! ## Naturals -/

/-- Why a text is no natural of 64 bits. -/
inductive NaturalProblem
  | empty
  | notDigit
  | tooLarge
deriving DecidableEq, Repr

def NaturalProblem.message : NaturalProblem → String
  | empty => "cannot parse integer from empty string"
  | notDigit => "invalid digit found in string"
  | tooLarge => "number too large to fit in target type"

/-- Goes on with a number by further digits. -/
def naturalTail (n : Nat) : List Char → Except NaturalProblem Nat
  | [] => .ok n
  | c :: cs =>
    let next := 10 * n + (c.toNat - '0'.toNat)
    if !c.isDigit then .error .notDigit
    else if naturalBound ≤ next then .error .tooLarge
    else naturalTail next cs

def natural64 (text : String) : Except NaturalProblem Nat :=
  match text.toList with
  | [] => .error .empty
  | ['+'] => .error .notDigit
  | '+' :: digits => naturalTail 0 digits
  | digits => naturalTail 0 digits

end Pedalboard.Cli
