import Pedalboard.Binary.Basic

/-!
# Arithmetic on binary numbers

**The rule.** An operation on finite numbers is done exactly, on numbers of steps, and its result
is rounded once to the nearest number. What is not a value (`∞ - ∞`, `0 / 0`, …) is `nan`.

**Signs of zero.** A product or quotient takes its sign from both operands, also when it is zero.
A sum that vanishes is `+0`, unless both summands are negative.

**Roots.** The integer root of a scaled argument, followed by one bit that says whether it is
exact, rounds as the true root does.
-/

namespace Pedalboard.Binary

variable {f : Format}

/-! ## The four operations -/

def add (x y : Binary f) : Binary f :=
  if x.isNaN || y.isNaN then nan
  else if x.isInfinite then
    if y.isInfinite && x.negative != y.negative then nan else x
  else if y.isInfinite then y
  else
    let s := x.signedSteps + y.signedSteps
    if s = 0 then zero (x.negative && y.negative) else ofRatio (s < 0) s.natAbs 1

def sub (x y : Binary f) : Binary f := x.add y.neg

def mul (x y : Binary f) : Binary f :=
  let sign := x.negative != y.negative
  if x.isNaN || y.isNaN then nan
  else if x.isInfinite || y.isInfinite then
    if x.isZero || y.isZero then nan else infinity sign
  else ofRatio sign (x.steps * y.steps) (2 ^ f.scale)

def div (x y : Binary f) : Binary f :=
  let sign := x.negative != y.negative
  if x.isNaN || y.isNaN then nan
  else if x.isInfinite then
    if y.isInfinite then nan else infinity sign
  else if y.isInfinite then zero sign
  else if y.isZero then
    if x.isZero then nan else infinity sign
  else ofRatio sign (x.steps * 2 ^ f.scale) y.steps

instance : Add (Binary f) := ⟨add⟩

instance : Sub (Binary f) := ⟨sub⟩

instance : Mul (Binary f) := ⟨mul⟩

instance : Div (Binary f) := ⟨div⟩

/-! ## Rounding to integers and scaling -/

/-- The greatest integer not above `x`; a number that is no finite value stays. -/
def floor (x : Binary f) : Binary f :=
  if !x.isFinite || x.isZero then x else ofInt (x.signedSteps / (2 ^ f.scale : Nat))

/-- The integer part of a number that is not negative; `0` for every other number. -/
def toNat (x : Binary f) : Nat :=
  if x.isFinite && !x.negative then x.steps / 2 ^ f.scale else 0

/-- `x * 2 ^ n`, rounded once. -/
def scaleByPowerOfTwo (x : Binary f) (n : Int) : Binary f :=
  if !x.isFinite then x
  else if 0 ≤ n then ofRatio x.negative (x.steps * 2 ^ n.toNat) 1
  else ofRatio x.negative x.steps (2 ^ (-n).toNat)

/-! ## Roots -/

/-- The nearest number to a root of which `root` steps is the integer part. -/
def ofRoot (root : Nat) (exact : Bool) : Binary f :=
  ofRatio false (2 * root + if exact then 0 else 1) 2

def sqrt (x : Binary f) : Binary f :=
  if x.isNaN || x.isZero then x
  else if x.negative then nan
  else if x.isInfinite then x
  else
    let n := x.steps * 2 ^ f.scale
    let r := n.sqrt
    ofRoot r (r * r == n)

/-- The fourth root; the root of either zero is `+0`. -/
def fourthRoot (x : Binary f) : Binary f :=
  if x.isZero then zero false
  else if x.isNaN then x
  else if x.negative then nan
  else if x.isInfinite then x
  else
    let n := x.steps * 2 ^ (3 * f.scale)
    let r := n.sqrt.sqrt
    ofRoot r (r * r * (r * r) == n)

/-! ## Changing the format -/

/-- The nearest number of another format. -/
def convert {f : Format} (g : Format) (x : Binary f) : Binary g :=
  if x.isNaN then nan
  else if x.isInfinite then infinity x.negative
  else ofRatio x.negative (x.steps * 2 ^ g.scale) (2 ^ f.scale)

/-- The double with the same value; it is exact. -/
def widen (x : Single) : Double := x.convert .double

/-- The nearest single, a tie going to the even magnitude. -/
def narrow (x : Double) : Single := x.convert .single

end Pedalboard.Binary
