/-!
# Binary floating-point numbers

Numbers of a binary interchange format, held as their bit pattern.

**Patterns** (`Binary`). A sign and a *magnitude*: the pattern without its sign bit, read as a
natural number. Magnitudes are ordered as the values that they stand for. Equality of `Binary`
is equality of bits; comparison of values is `Binary.ieeeEq` and its relatives.

**Steps** (`Binary.steps`). Every finite value is a whole number of steps of `2 ^ -scale`, so
exact arithmetic on values is arithmetic on integers.

**Rounding** (`Format.nearest`). The magnitude nearest to a quotient of two naturals, a tie going
to the even magnitude, infinity when the quotient is too large. Every operation of
`Pedalboard.Binary.Arithmetic` computes exactly and rounds once with it.
-/

namespace Pedalboard

/-- Powers of naturals are those of the core library, also where a monoid provides others. -/
scoped instance (priority := 2000) naturalPower : Pow Nat Nat := instPowNat

/-- The widths of the two fields below the sign bit. -/
structure Format where
  fractionBits : Nat
  exponentBits : Nat
  fractionBits_pos : 0 < fractionBits := by decide
  exponentBits_pos : 0 < exponentBits := by decide

namespace Format

def single : Format := { fractionBits := 23, exponentBits := 8 }

def double : Format := { fractionBits := 52, exponentBits := 11 }

def magnitudeBits (f : Format) : Nat := f.exponentBits + f.fractionBits

/-- The magnitude of infinity; larger magnitudes are not numbers. -/
def infinity (f : Format) : Nat := (2 ^ f.exponentBits - 1) * 2 ^ f.fractionBits

/-- The least positive value is `2 ^ -scale`. -/
def scale (f : Format) : Nat := 2 ^ (f.exponentBits - 1) - 2 + f.fractionBits

theorem infinity_add_lt (f : Format) {r : Nat} (h : r < 2 ^ f.fractionBits) :
    f.infinity + r < 2 ^ f.magnitudeBits := by
  have he : 0 < 2 ^ f.exponentBits := Nat.two_pow_pos _
  have hm : 2 ^ f.magnitudeBits = (2 ^ f.exponentBits - 1) * 2 ^ f.fractionBits + 2 ^ f.fractionBits := by
    rw [magnitudeBits, Nat.pow_add, ← Nat.succ_mul]
    congr 1
    omega
  rw [hm, infinity]
  omega

theorem infinity_lt (f : Format) : f.infinity < 2 ^ f.magnitudeBits := by
  simpa using f.infinity_add_lt (Nat.two_pow_pos _)

/-- The exponent of the last place of a finite magnitude, in steps. -/
def shift (f : Format) (m : Nat) : Nat := m / 2 ^ f.fractionBits - 1

/-- The number of steps that a finite magnitude stands for. -/
def steps (f : Format) (m : Nat) : Nat :=
  (m - f.shift m * 2 ^ f.fractionBits) * 2 ^ f.shift m

end Format

/-- `n / d` to the nearest integer, a tie going to the even one. -/
def roundHalfEven (n d : Nat) : Nat :=
  let q := n / d
  let r := n % d
  if 2 * r < d then q else if d < 2 * r then q + 1 else q + q % 2

/-- The magnitude nearest to `n / d` steps, a tie going to the even magnitude. -/
def Format.nearest (f : Format) (n d : Nat) : Nat :=
  let s := (n / d).log2 - f.fractionBits
  min f.infinity (s * 2 ^ f.fractionBits + roundHalfEven n (d * 2 ^ s))

theorem Format.nearest_lt (f : Format) (n d : Nat) : f.nearest n d < 2 ^ f.magnitudeBits :=
  Nat.lt_of_le_of_lt (Nat.min_le_left _ _) f.infinity_lt

/-- A floating-point number: a sign and a magnitude. -/
structure Binary (f : Format) where
  negative : Bool
  magnitude : Nat
  magnitude_lt : magnitude < 2 ^ f.magnitudeBits
deriving DecidableEq

abbrev Single := Binary .single

abbrev Double := Binary .double

namespace Binary

variable {f : Format}

/-! ## Patterns -/

def ofBits (f : Format) (bits : Nat) : Binary f :=
  ⟨bits / 2 ^ f.magnitudeBits % 2 == 1, bits % 2 ^ f.magnitudeBits,
    Nat.mod_lt _ (Nat.two_pow_pos _)⟩

def toBits (x : Binary f) : Nat :=
  if x.negative then 2 ^ f.magnitudeBits + x.magnitude else x.magnitude

def zero (negative : Bool) : Binary f := ⟨negative, 0, Nat.two_pow_pos _⟩

def infinity (negative : Bool) : Binary f := ⟨negative, f.infinity, f.infinity_lt⟩

/-- The quiet pattern that operations answer when there is no value. -/
def nan : Binary f :=
  ⟨false, f.infinity + 2 ^ (f.fractionBits - 1),
    f.infinity_add_lt (Nat.pow_lt_pow_right (by decide) (by have := f.fractionBits_pos; omega))⟩

instance : Inhabited (Binary f) := ⟨zero false⟩

def isNaN (x : Binary f) : Bool := f.infinity < x.magnitude

def isInfinite (x : Binary f) : Bool := x.magnitude == f.infinity

def isFinite (x : Binary f) : Bool := x.magnitude < f.infinity

def isZero (x : Binary f) : Bool := x.magnitude == 0

def neg (x : Binary f) : Binary f := { x with negative := !x.negative }

instance : Neg (Binary f) := ⟨neg⟩

def abs (x : Binary f) : Binary f := { x with negative := false }

/-! ## Values -/

/-- The absolute value of a finite number, in steps. -/
def steps (x : Binary f) : Nat := f.steps x.magnitude

/-- The value of a finite number, in steps. -/
def signedSteps (x : Binary f) : Int := if x.negative then -(x.steps : Int) else x.steps

/-- The number nearest to `n / d` steps of the given sign. -/
def ofRatio (negative : Bool) (n d : Nat) : Binary f := ⟨negative, f.nearest n d, f.nearest_lt n d⟩

/-- The number nearest to an integer; `0` is positive. -/
def ofInt (n : Int) : Binary f := ofRatio (n < 0) (n.natAbs * 2 ^ f.scale) 1

def ofNat (n : Nat) : Binary f := ofRatio false (n * 2 ^ f.scale) 1

instance (n : Nat) : OfNat (Binary f) n := ⟨ofNat n⟩

/-! ## Comparison -/

/-- Ordered as the values, with the two zeros equal and infinities at the ends. -/
def rank (x : Binary f) : Int := if x.negative then -(x.magnitude : Int) else x.magnitude

/-- Equality of values: a NaN differs from itself, and the two zeros are equal. -/
def ieeeEq (x y : Binary f) : Bool := !x.isNaN && !y.isNaN && x.rank == y.rank

def lt (x y : Binary f) : Bool := !x.isNaN && !y.isNaN && decide (x.rank < y.rank)

def le (x y : Binary f) : Bool := !x.isNaN && !y.isNaN && decide (x.rank ≤ y.rank)

instance : LT (Binary f) := ⟨fun x y => x.lt y⟩

instance : LE (Binary f) := ⟨fun x y => x.le y⟩

instance (x y : Binary f) : Decidable (x < y) := inferInstanceAs (Decidable (x.lt y = true))

instance (x y : Binary f) : Decidable (x ≤ y) := inferInstanceAs (Decidable (x.le y = true))

/-- `x` kept between `lo` and `hi`; a NaN is kept as it is. -/
def clamp (x lo hi : Binary f) : Binary f :=
  let x := if x < lo then lo else x
  if hi < x then hi else x

end Binary

end Pedalboard
