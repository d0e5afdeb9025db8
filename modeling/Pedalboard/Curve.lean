import Pedalboard.Binary.Elementary

/-!
# Curves

Maps between a control's own range and `[0, 1]`, and the two conversions that go with them. All of
them are evaluated in single precision in the order written, since engine slots are compared bit
for bit.
-/

namespace Pedalboard.Curve

open Binary

/-- Decibels to linear gain. -/
def dbToLinear (db : Single) : Single := pow 10 (db / 20)

/-- To the nearest integer, a half going up. -/
def roundHalfUp (x : Single) : Single := (x + 0.5).floor

/-- `[lo, hi]` onto `[0, 1]`, kept within it; `0` when the range is empty. -/
def unit (x lo hi : Single) : Single :=
  if hi ≤ lo then 0 else ((x - lo) / (hi - lo)).clamp 0 1

/-- `[lo, hi]` onto `[0, 1]` on a logarithmic axis, kept within it; `0` when the range is empty or
not positive. -/
def logUnit (x lo hi : Single) : Single :=
  if lo ≤ 0 ∨ hi ≤ lo ∨ x ≤ 0 then 0
  else
    let base := log lo
    ((log x - base) / (log hi - base)).clamp 0 1

/-- The modulation rate, in hertz, that stands for `1`. -/
def maxChorusRate : Single := 0.001 * 48000 / hex 0x40c90fdb

/-- The perceived modulation rate: the fourth root of a rate's share of the greatest one. -/
def chorusRate (hertz : Single) : Single := ((hertz / maxChorusRate).clamp 0 1).fourthRoot

end Pedalboard.Curve
