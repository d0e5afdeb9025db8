import Pedalboard.Decimal.Basic

/-!
# The shortest decimal that reads back

**The rule.** Of the decimals that round to a given number, take one with the fewest digits, and
of those the nearest to the number. A digit count is tried by looking at the two neighbours of
the number on that decimal grid: if any decimal of the grid reads back, one of them does.

**Ties.** The two neighbours can be equally near. Formats differ here, so a tie is an argument:
it goes to the even coefficient or up.
-/

namespace Pedalboard

/-- What becomes of a number halfway between two decimals. -/
inductive Tie
  | even
  | up
deriving DecidableEq, Repr

/-- Drops trailing zeros of the coefficient; `fuel` bounds their number. -/
def Decimal.strip : Nat → Decimal → Decimal
  | 0, d => d
  | fuel + 1, d =>
    if d.coefficient ≠ 0 ∧ d.coefficient % 10 = 0 then
      strip fuel ⟨d.coefficient / 10, d.exponent + 1⟩
    else d

/-- The least `j ≥ start` with `d ≤ n * 10 ^ j`, looking at `fuel` places. -/
def leadingZeros (n d : Nat) : Nat → Nat → Nat
  | 0, start => start
  | fuel + 1, start => if d ≤ n * 10 ^ start then start else leadingZeros n d fuel (start + 1)

namespace Format

variable (f : Format)

/-- The exponent of the first decimal digit of a positive number of steps. -/
def leadingExponent (steps : Nat) : Int :=
  let unit := 2 ^ f.scale
  if unit ≤ steps then digitCount (steps / unit) - 1
  else -(leadingZeros steps unit f.scale 1 : Int)

/-- The decimal of the grid of `10 ^ k` that reads back as `m`, if there is one. -/
def onGrid? (tie : Tie) (m : Nat) (k : Int) : Option Decimal :=
  let n := f.steps m * 10 ^ (-k).toNat
  let d := 2 ^ f.scale * 10 ^ k.toNat
  let low : Decimal := ⟨n / d, k⟩
  let high : Decimal := ⟨n / d + 1, k⟩
  let lowReads := low.coefficient ≠ 0 ∧ f.nearestDecimal low = m
  let highReads := f.nearestDecimal high = m
  if lowReads ∧ highReads then
    let r := 2 * (n % d)
    if r < d then some low
    else if d < r then some high
    else match tie with
      | .even => some (if low.coefficient % 2 = 0 then low else high)
      | .up => some high
  else if lowReads then some low
  else if highReads then some high
  else none

/-- Tries grids from `10 ^ k` on, each ten times finer than the one before. -/
def searchGrids (tie : Tie) (m : Nat) : Nat → Int → Option Decimal
  | 0, _ => none
  | fuel + 1, k => (f.onGrid? tie m k).orElse fun _ => searchGrids tie m fuel (k - 1)

/-- Digits enough to tell any two numbers of the format apart. -/
def maxDigits : Nat := f.fractionBits * 30103 / 100000 + 3

/-- The shortest decimal that reads back as a finite positive magnitude, with no trailing zeros. -/
def shortest (tie : Tie) (m : Nat) : Decimal :=
  let e := f.leadingExponent (f.steps m)
  ((f.searchGrids tie m f.maxDigits e).getD ⟨0, 0⟩).strip f.maxDigits

end Format

/-- The shortest decimal of the absolute value of a finite number; `0` for zero. -/
def Binary.shortest {f : Format} (tie : Tie) (x : Binary f) : Decimal :=
  if x.isZero then ⟨0, 0⟩ else f.shortest tie x.magnitude

end Pedalboard
