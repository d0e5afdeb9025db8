import Pedalboard.Curve
import Pedalboard.Decimal.Layout

/-!
# Controls

A `Control` describes one knob of an effect: its key among a node's parameters, its range, the
value that it has until it is set, the mapping to a slider and the way its value is shown.

**Resolving.** A value that is missing, not finite or out of range counts as the default. The
engine only ever sees resolved values.
-/

namespace Pedalboard

/-- The mapping between a value and the position of its slider. -/
inductive Scale
  | linear
  /-- Position is the logarithm of the ratio to the least value. -/
  | logarithmic
deriving DecidableEq, Repr

/-- How a value is shown. -/
inductive Readout
  | percent
  | milliseconds
  | decibels
  | ratio
  | unitless
  /-- Two places below one hertz, else one. -/
  | rateHz
  | hertz
  | seconds
  /-- The name of a filter mode. -/
  | filterMode
deriving DecidableEq, Repr

/-- The names of the filter modes, by number. -/
def filterModes : List String := ["LP", "HP", "BP", "Notch", "Peak", "All-pass"]

/-- A value as its readout shows it. -/
def Readout.text (r : Readout) (x : Single) : String :=
  match r with
  | percent => (Curve.roundHalfUp x).fixed 0 ++ "%"
  | milliseconds => (Curve.roundHalfUp x).fixed 0 ++ " ms"
  | hertz => (Curve.roundHalfUp x).fixed 0 ++ " Hz"
  | decibels => if 0 ≤ x then "+" ++ x.abs.fixed 1 ++ " dB" else x.fixed 1 ++ " dB"
  | ratio => x.fixed 1 ++ ":1"
  | unitless => x.fixed 2
  | rateHz => if x < 1 then x.fixed 2 ++ " Hz" else x.fixed 1 ++ " Hz"
  | seconds => x.fixed 1 ++ " s"
  | filterMode =>
    let last : Single := .ofNat (filterModes.length - 1)
    filterModes[((Curve.roundHalfUp x).clamp 0 last).toNat]?.getD ""

structure Control where
  key : String
  label : String
  least : Single
  greatest : Single
  step : Single
  default : Single
  readout : Readout
  scale : Scale := .linear
deriving DecidableEq

namespace Control

/-- Finite and in range. -/
def accepts (c : Control) (x : Single) : Bool := x.isFinite && c.least ≤ x && x ≤ c.greatest

/-- The value that counts for a value that may be missing. -/
def resolve (c : Control) (raw : Option Single) : Single :=
  match raw with
  | some x => if c.accepts x then x else c.default
  | none => c.default

def clamp (c : Control) (x : Single) : Single :=
  if x < c.least then c.least else if c.greatest < x then c.greatest else x

/-- The slider position of a value, `0` to `1` over the range. -/
def normalize (c : Control) (x : Single) : Single :=
  let range := c.greatest - c.least
  if range.ieeeEq 0 then 0
  else match c.scale with
    | .linear => (x - c.least) / range
    | .logarithmic =>
      if c.least ≤ 0 ∨ x ≤ 0 then 0 else (x / c.least).log / (c.greatest / c.least).log

/-- The value at a slider position. -/
def denormalize (c : Control) (position : Single) : Single :=
  match c.scale with
  | .linear => c.least + position * (c.greatest - c.least)
  | .logarithmic =>
    if c.least ≤ 0 then c.least else c.least * (c.greatest / c.least).pow position

def text (c : Control) (x : Single) : String := c.readout.text x

end Control

end Pedalboard
