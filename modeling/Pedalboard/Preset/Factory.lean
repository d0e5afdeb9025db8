import Pedalboard.Graph.Reducer

/-!
# Factory presets

Three boards come with the program. Each is a chain of effects from input to output, with some of
its controls set, and is made by the edits that a user would make.
-/

namespace Pedalboard

structure FactoryPreset where
  name : String
  description : String
  graph : State

namespace FactoryPreset

/-- Adds effects one after the other, each connected to the one before. -/
def chainActions (source : String) (place : Nat) : List Kind → List Action
  | [] => [.connect source outputId]
  | kind :: kinds =>
    let id := numberedId (place + 1)
    [.addNode kind (160 + 100 * .ofNat place) 120 none, .connect source id] ++
      chainActions id (place + 1) kinds

/-- A chain of effects from input to output with the given settings. -/
def chain (kinds : List Kind) (settings : List (String × String × Single)) : State :=
  (State.initial minNodeLimit).applyAll <|
    .disconnect inputId outputId :: chainActions inputId 0 kinds ++
      settings.map fun (id, key, value) => .setParam id key value

def clean : FactoryPreset where
  name := "clean"
  description := "Input straight to output"
  graph := State.initial minNodeLimit

def crunch : FactoryPreset where
  name := "crunch"
  description := "Compressor into hard distortion, tamed by EQ"
  graph := chain [.compressor, .distortion, .eq]
    [("fx-1", "ratio", 6), ("fx-1", "threshold", -24), ("fx-2", "drive", 85), ("fx-2", "warmth", 65),
      ("fx-3", "low", 3), ("fx-3", "high", -2.5)]

def ambient : FactoryPreset where
  name := "ambient"
  description := "Slow chorus, long echoes and a big room"
  graph := chain [.chorus, .delay, .reverb]
    [("fx-1", "rate", 0.4), ("fx-1", "depth", 70), ("fx-2", "time", 520), ("fx-2", "feedback", 55),
      ("fx-2", "mix", 35), ("fx-3", "decay", 6.5), ("fx-3", "mix", 45)]

/-- Every factory preset, in the order in which they are listed. -/
def all : List FactoryPreset := [clean, crunch, ambient]

/-- Whether a name is that of a factory preset, in letters of either case. -/
def isNamed (name : String) (p : FactoryPreset) : Bool :=
  p.name.toList == name.toList.map Char.toLower

/-- The factory preset with a name, in letters of either case. -/
def find? (name : String) : Option FactoryPreset := all.find? (isNamed name)

end FactoryPreset

end Pedalboard
