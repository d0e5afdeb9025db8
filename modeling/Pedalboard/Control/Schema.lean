import Pedalboard.Control.Spec
import Pedalboard.Graph.Node

/-!
# The controls of each kind

The schema gives every kind its ordered list of controls; anchors have none. A node holds only the
values that have been set, so the schema is consulted wherever a value is shown or compiled.
-/

namespace Pedalboard

/-- The controls of a kind, in the order in which they are shown. -/
def Kind.controls : Kind → List Control
  | .input | .output => []
  | .chorus => [
    ⟨"rate", "Rate", 0.05, 5, 0.01, 1.2, .rateHz, .linear⟩,
    ⟨"depth", "Depth", 0, 100, 1, 55, .percent, .linear⟩,
    ⟨"mix", "Mix", 0, 100, 1, 35, .percent, .linear⟩]
  | .compressor => [
    ⟨"threshold", "Threshold", -48, 0, 0.5, -18, .decibels, .linear⟩,
    ⟨"ratio", "Ratio", 1, 20, 0.1, 4, .ratio, .linear⟩,
    ⟨"attack", "Attack", 1, 100, 1, 10, .milliseconds, .linear⟩]
  | .delay => [
    ⟨"time", "Time", 1, 1200, 1, 375, .milliseconds, .linear⟩,
    ⟨"feedback", "Feedback", 0, 100, 1, 35, .percent, .linear⟩,
    ⟨"mix", "Mix", 0, 100, 1, 25, .percent, .linear⟩]
  | .distortion => [
    ⟨"drive", "Drive", 0, 100, 1, 60, .percent, .linear⟩,
    ⟨"warmth", "Warmth", 0, 100, 1, 50, .percent, .linear⟩,
    ⟨"aura", "Aura", 0, 100, 1, 50, .percent, .linear⟩,
    ⟨"output", "Output", 0, 100, 1, 100, .percent, .linear⟩,
    ⟨"mix", "Dry/Wet", 0, 100, 1, 100, .percent, .linear⟩]
  | .eq => [
    ⟨"low", "Low", -12, 12, 0.1, 1.8, .decibels, .linear⟩,
    ⟨"mid", "Mid", -12, 12, 0.1, -0.6, .decibels, .linear⟩,
    ⟨"high", "High", -12, 12, 0.1, 2.1, .decibels, .linear⟩]
  | .filter => [
    ⟨"cutoff", "Cutoff", 40, 20000, 10, 2500, .hertz, .logarithmic⟩,
    ⟨"q", "Q", 0.2, 20, 0.01, 0.707, .unitless, .linear⟩,
    ⟨"mode", "Mode", 0, 5, 1, 0, .filterMode, .linear⟩,
    ⟨"mix", "Mix", 0, 100, 1, 100, .percent, .linear⟩]
  | .reverb => [
    ⟨"decay", "Decay", 0.1, 10, 0.1, 2.4, .seconds, .linear⟩,
    ⟨"damping", "Damping", 0, 1, 0.01, 0.7, .unitless, .linear⟩,
    ⟨"mix", "Mix", 0, 100, 1, 30, .percent, .linear⟩]

/-- The control of a kind with a key. -/
def Kind.control? (k : Kind) (key : String) : Option Control := k.controls.find? (·.key = key)

/-- Every control of a kind at its default. -/
def Kind.defaults (k : Kind) : Keyed Single := .ofList (k.controls.map fun c => (c.key, c.default))

/-- The value of a control that the engine uses; `none` if the kind has no such control. -/
def Kind.resolve? (k : Kind) (params : Keyed Single) (key : String) : Option Single :=
  (k.control? key).map fun c => c.resolve (params.get? key)

namespace Node

/-- The value set for a key, else the default of its control. -/
def value? (n : Node) (key : String) : Option Single :=
  (n.param? key).or ((n.kind.control? key).map (·.default))

/-- The value of a key as text; a value that no control describes is shown with two places. -/
def paramText (n : Node) (key : String) : String :=
  match n.kind.control? key, n.param? key with
  | some c, value => c.text (value.getD c.default)
  | none, some value => value.fixed 2
  | none, none => "--"

end Node

end Pedalboard
