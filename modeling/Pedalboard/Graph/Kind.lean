/-!
# Node kinds

The closed set of roles that a node can have: the two anchors, where the signal enters and leaves
the board, and seven effects. Effects are numbered from `1` for the engine; the anchors are `0`.
-/

namespace Pedalboard

inductive Kind
  | input
  | output
  | chorus
  | compressor
  | delay
  | distortion
  | eq
  | filter
  | reverb
deriving DecidableEq, Repr, Inhabited

namespace Kind

/-- Every kind, anchors first. -/
def all : List Kind :=
  [.input, .output, .chorus, .compressor, .delay, .distortion, .eq, .filter, .reverb]

/-- The name on the wire and on the command line. -/
def name : Kind → String
  | input => "input"
  | output => "output"
  | chorus => "chorus"
  | compressor => "compressor"
  | delay => "delay"
  | distortion => "distortion"
  | eq => "eq"
  | filter => "filter"
  | reverb => "reverb"

/-- The name shown to the user. -/
def label : Kind → String
  | input => "Input"
  | output => "Output"
  | chorus => "Chorus"
  | compressor => "Compressor"
  | delay => "Delay"
  | distortion => "Distortion"
  | eq => "EQ"
  | filter => "Filter"
  | reverb => "Reverb"

def isAnchor : Kind → Bool
  | input | output => true
  | _ => false

/-- The effects, in the order of their engine numbers. -/
def effects : List Kind := all.filter (!·.isAnchor)

/-- The engine's number for the kind. -/
def effectType : Kind → Nat
  | input | output => 0
  | chorus => 1
  | compressor => 2
  | delay => 3
  | distortion => 4
  | eq => 5
  | filter => 6
  | reverb => 7

def ofName? (name : String) : Option Kind := all.find? (·.name = name)

theorem ofName?_name (k : Kind) : ofName? k.name = some k := by cases k <;> decide

end Kind

end Pedalboard
