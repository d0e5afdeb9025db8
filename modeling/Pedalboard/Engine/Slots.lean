import Pedalboard.Control.Schema

/-!
# Engine slots

The engine knows a node by nine numbers. Each kind maps its controls to the first few of them and
leaves the rest at zero:

| kind       | 1         | 2           | 3       | 4      | 5    |
|------------|-----------|-------------|---------|--------|------|
| anchors    | `1`       |             |         |        |      |
| chorus     | depth     | rate curve  | mix     |        |      |
| compressor | threshold | ratio       | attack  |        |      |
| delay      | feedback  | mix         | time    |        |      |
| distortion | drive     | warmth      | aura    | output | mix  |
| eq         | tilt      | mid gain    | low     | mid    | high |
| filter     | cutoff    | q           | mode    | mix    |      |
| reverb     | mix       | decay       | damping |        |      |

Controls are read through the schema, so a value that is missing, not finite or out of range
counts as the default, and other keys never reach the engine.
-/

namespace Pedalboard

/-- The number of engine slots of a node. -/
def slotCount : Nat := 9

abbrev Slots := Vector Single slotCount

namespace Slots

open Curve

/-- The given numbers, followed by zeros. -/
def ofList (xs : List Single) : Slots := Vector.ofFn fun i => xs[i.val]?.getD 0

/-- A percentage onto `[0, 1]`. -/
def percent (x : Single) : Single := unit x 0 100

/-- The engine slots of a node of a kind whose controls are read as given. -/
def ofReadings (kind : Kind) (get : String → Single) : Slots :=
  ofList <| match kind with
    | .input | .output => [1]
    | .chorus => [percent (get "depth"), chorusRate (get "rate"), percent (get "mix")]
    | .compressor =>
      [(dbToLinear (get "threshold")).clamp 0 1, (get "ratio").clamp 1 20, unit (get "attack") 1 100]
    | .delay => [percent (get "feedback"), percent (get "mix"), unit (get "time") 1 1200]
    | .distortion =>
      [percent (get "drive"), percent (get "warmth"), percent (get "aura"), percent (get "output"),
        percent (get "mix")]
    | .eq =>
      [((get "high" - get "low") / 24).clamp (-1) 1, (1 + get "mid" / 12).clamp 0 2,
        unit (get "low") (-12) 12, unit (get "mid") (-12) 12, unit (get "high") (-12) 12]
    | .filter =>
      [0.01 + 0.99 * logUnit (get "cutoff") 40 20000, (get "q").clamp 0.2 20,
        (roundHalfUp (get "mode")).clamp 0 5, percent (get "mix")]
    | .reverb => [percent (get "mix"), unit (get "decay") 0.1 10, (get "damping").clamp 0 1]

/-- The engine slots of a node of a kind with the given parameters. -/
def ofParams (kind : Kind) (params : Keyed Single) : Slots :=
  ofReadings kind fun key => (kind.resolve? params key).getD 0

end Slots

end Pedalboard
