import Pedalboard.Decimal.Basic

/-!
# Logarithm and power in single precision

Both functions are fixed schedules of single-precision operations, each rounded once. Their last
bit can differ from that of the true value, and engine slots are compared bit for bit, so the
schedule and its constants are part of what the functions mean.

**Logarithm** (`Binary.log`). The argument is `2 ^ k * x` with `x` between `√2 / 2` and `√2`; the
logarithm of `x` is a polynomial in `s = (x - 1) / (x + 1)`.

**Power** (`Binary.pow`). `x ^ y = 2 ^ (y * log2 x)`. The logarithm is kept as the sum of a head
of few bits and a tail (`Binary.log2Split`), so that the product with `y` loses nothing; the
power of two is a polynomial on `[-1/2, 1/2]` scaled by a whole power (`Binary.exp2Split`).
-/

namespace Pedalboard.Binary

/-! ## Bits of singles -/

/-- A single given by its bits. -/
abbrev hex (bits : Nat) : Single := ofBits .single bits

/-- The number with the `n` lowest bits of its magnitude cleared. -/
def clearLow {f : Format} (n : Nat) (x : Binary f) : Binary f :=
  { x with
    magnitude := x.magnitude - x.magnitude % 2 ^ n
    magnitude_lt := Nat.lt_of_le_of_lt (Nat.sub_le _ _) x.magnitude_lt }

/-- `c₀ + x * (c₁ + x * (c₂ + …))`, from the inside out. -/
def horner (x : Single) : List Single → Single
  | [] => 0
  | [c] => c
  | c :: cs => c + x * horner x cs

/-- How many magnitudes of normal singles have one exponent. -/
def binade : Nat := 0x00800000

/-- The exponent of a normal single. -/
def exponent (magnitude : Nat) : Int := (magnitude / binade : Nat) - 127

/-! ## Logarithm -/

/-- The logarithm of `2 ^ k * x` for a positive normal `x`. -/
def logScaled (x : Single) (k : Int) : Single :=
  let m := x.magnitude + (0x3f800000 - 0x3f3504f3)
  let k := k + exponent m
  let x := hex (m % binade + 0x3f3504f3)
  let f := x - 1
  let s := f / (2 + f)
  let z := s * s
  let w := z * z
  let t1 := w * horner w [hex 0x3eccce13, hex 0x3e789e26]
  let t2 := z * horner w [hex 0x3f2aaaaa, hex 0x3e91e9ee]
  let r := t2 + t1
  let hfsq := 0.5 * f * f
  let dk : Single := ofInt k
  s * (hfsq + r) + dk * hex 0x3717f7d1 - hfsq + f + dk * hex 0x3f317180

/-- The natural logarithm. -/
def log (x : Single) : Single :=
  if x.isZero then infinity true
  else if x.negative then nan
  else if !x.isFinite then x
  else if x.magnitude = 0x3f800000 then 0
  else if x.magnitude < binade then logScaled (x * hex 0x4c000000) (-25)
  else logScaled x 0

/-! ## Power -/

/-- Whether a single is an integer, and which kind. -/
inductive Integrality
  | fractional
  | odd
  | even
deriving DecidableEq

def integrality (y : Single) : Integrality :=
  let one := 2 ^ Format.single.scale
  if y.steps % one ≠ 0 then .fractional
  else if y.steps / one % 2 = 1 then .odd else .even

/-- A head and a tail of the binary logarithm of a positive single near `1`. -/
def log2SplitNearOne (x : Single) : Single × Single :=
  let t := x - 1
  let w := (t * t) * (0.5 - t * (0.333333333333 - t * 0.25))
  let u := 1.4426879883 * t
  let v := t * 7.0526075433e-06 - w * 1.4426950216
  let head := (u + v).clearLow 12
  (head, v - (head - u))

/-- A head and a tail of the binary logarithm of a positive single. -/
def log2Split (x : Single) : Single × Single :=
  let subnormal := x.magnitude < binade
  let m := (if subnormal then x * 16777216 else x).magnitude
  let n : Int := exponent m - if subnormal then 24 else 0
  let j := m % binade
  -- The argument is brought near `1` or near `3 / 2`.
  let near32 : Bool := 0x1cc471 < j && j < 0x5db3d7
  let above : Bool := !(j < 0x5db3d7)
  let n := if above then n + 1 else n
  let ix := j + 0x3f800000 - if above then binade else 0
  let ax := hex ix
  let bp : Single := if near32 then 1.5 else 1
  let dpHead : Single := if near32 then hex 0x3f15c000 else 0
  let dpTail : Single := if near32 then hex 0x35d1cfdc else 0
  -- `s = (ax - bp) / (ax + bp)`, as a head and a tail
  let u := ax - bp
  let v := 1 / (ax + bp)
  let s := u * v
  let sHead := s.clearLow 12
  let half := ix / 2 - ix / 2 % 0x1000
  let tHead := hex ((half ||| 0x20000000) + 0x00400000 + if near32 then 0x00200000 else 0)
  let tTail := ax - (tHead - bp)
  let sTail := v * ((u - sHead * tHead) - sHead * tTail)
  let s2 := s * s
  let r := s2 * s2 * horner s2
    [hex 0x3f19999a, hex 0x3edb6db7, hex 0x3eaaaaab, hex 0x3e8ba305, hex 0x3e6c3255, hex 0x3e53f142]
  let r := r + sTail * (sHead + s)
  let s2 := sHead * sHead
  let tHead := (3 + s2 + r).clearLow 12
  let tTail := r - ((tHead - 3) - s2)
  let u := sHead * tHead
  let v := sTail * tHead + tTail * s
  let pHead := (u + v).clearLow 12
  let pTail := v - (pHead - u)
  let zHead := hex 0x3f764000 * pHead
  let zTail := hex 0xb8f623c6 * pHead + pTail * hex 0x3f76384f + dpTail
  let t : Single := ofInt n
  let head := (((zHead + zTail) + dpHead) + t).clearLow 12
  (head, zTail - (((head - t) - dpHead) - zHead))

/-- `2 ^ (head + tail)`, where `z = tail + head` is within the exponent range. -/
def exp2Split (z head tail : Single) : Single :=
  let i := z.magnitude
  let large : Bool := 0x3f000000 < i
  let rounded := i + binade / 2 ^ (exponent i + 1).toNat
  let place := (23 - exponent rounded).toNat
  let whole := hex (rounded - rounded % 2 ^ place)
  let whole := if z.negative then whole.neg else whole
  let n : Int := ((rounded % binade + binade) / 2 ^ place : Nat)
  let n := if large then (if z.negative then -n else n) else 0
  let head := if large then head - whole else head
  let t := (tail + head).clearLow 15
  let u := t * hex 0x3f317200
  let v := (tail - (t - head)) * hex 0x3f317218 + t * hex 0x35bfbe8c
  let z := u + v
  let w := v - (z - u)
  let t := z * z
  let t1 := z - t * horner t
    [hex 0x3e2aaaab, hex 0xbb360b61, hex 0x388ab355, hex 0xb5ddea0e, hex 0x3331bb4c]
  let r := (z * t1) / (t1 - 2) - (w + z * w)
  let z := 1 - (r - z)
  let j := (z.magnitude : Int) + n * binade
  if j < binade then z.scaleByPowerOfTwo n else hex j.toNat

/-- `x ^ y` for a finite `x` other than `±0`, `±1` and a finite `y` other than `0`, up to sign. -/
def powFinite (x y : Single) : Single :=
  let huge : Bool := 0x4d000000 < y.magnitude
  if huge && decide (x.magnitude < 0x3f7ffff8) then (if y.negative then infinity false else 0)
  else if huge && decide (0x3f800007 < x.magnitude) then (if y.negative then 0 else infinity false)
  else
    let (t1, t2) := if huge then log2SplitNearOne x.abs else log2Split x.abs
    let y1 := y.clearLow 12
    let tail := (y - y1) * t1 + y * t2
    let head := y1 * t1
    let z := tail + head
    let i := z.magnitude
    if !z.negative && decide (0x43000000 < i) then infinity false
    else if !z.negative && i == 0x43000000 && decide (z - head < tail + 4.2995665694e-08) then
      infinity false
    else if decide (0x43160000 < i) then 0
    else if z.negative && i == 0x43160000 && decide (tail ≤ z - head) then 0
    else exp2Split z head tail

/-- `x ^ y`. -/
def pow (x y : Single) : Single :=
  let one := 0x3f800000
  if y.isZero then 1
  else if !x.negative && x.magnitude == one then 1
  else if x.isNaN || y.isNaN then nan
  else if y.isInfinite then
    if x.magnitude = one then 1
    else if one < x.magnitude then (if y.negative then 0 else y)
    else if y.negative then y.neg else 0
  else if y.magnitude = one then (if y.negative then 1 / x else x)
  else if !y.negative && y.magnitude == 0x40000000 then x * x
  else if !y.negative && y.magnitude == 0x3f000000 && !x.negative then x.sqrt
  else
    let kind := y.integrality
    let special := x.isInfinite || x.isZero || x.magnitude == one
    let z := if special then (if y.negative then 1 / x.abs else x.abs) else powFinite x y
    if !x.negative then z
    else match kind with
      | .odd => z.neg
      | .even => z
      | .fractional => if special && x.magnitude != one then z else nan

end Pedalboard.Binary
