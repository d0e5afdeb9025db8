import Pedalboard.Json.Parser
import Pedalboard.Json.Printer
import Pedalboard.Store.Basic
import Pedalboard.Text.Blank
import Pedalboard.Wire.Codec

/-!
# Presets

**Presets** (`Preset`). A graph under a name, as the text of its payload, with the times of its
first and its latest save.

**Lists.** A list of presets has the newest first and at most `maxPresets` of them. Saving under a
name that is in the list replaces the graph there; saving under a new name puts a preset in front,
and the oldest gives way when there is no room. Names are taken without white space at their ends.

**Storing.** The whole list is stored under one key. What is stored may be damaged, so reading
drops every record that is no preset and never fails.
-/

namespace Pedalboard

/-- The key of the stored list. -/
def presetsKey : String := "fxgraph:presets:v1"

/-- The greatest number of presets in a list. -/
def maxPresets : Nat := 32

structure Preset where
  id : String
  name : String
  /-- In milliseconds. -/
  createdAt : Nat
  updatedAt : Nat
  /-- The text of a payload. -/
  graph : String
deriving DecidableEq, Repr

namespace Preset

/-- The state that a preset holds. -/
def hydrate (p : Preset) (nodeLimit : Nat) : Except StoreError State :=
  (Payload.deserialize p.graph >>= (·.hydrate nodeLimit)).mapError .contract

/-! ## Lists -/

/-- Replaces the graph of the first preset with a name. -/
def replaceGraph (name graph : String) (now : Nat) : List Preset → List Preset
  | [] => []
  | p :: rest =>
    if p.name = name then { p with graph, updatedAt := now } :: rest
    else p :: replaceGraph name graph now rest

/-- The list after a save; a blank name saves nothing. -/
def upsert (presets : List Preset) (name : String) (s : State) (now : Nat) :
    Except StoreError (List Preset) := do
  let name := trimmed name
  if name.isEmpty then return presets
  let graph ← (Payload.serializeState s).mapError .contract
  if presets.any (·.name = name) then return replaceGraph name graph now presets
  let fresh : Preset :=
    { id := "preset-" ++ toString now, name, createdAt := now, updatedAt := now, graph }
  return (fresh :: presets).take maxPresets

/-- The list without the presets with a name. -/
def remove (presets : List Preset) (name : String) : Except StoreError (List Preset) :=
  let name := trimmed name
  if presets.any (·.name = name) then .ok (presets.filter (·.name ≠ name))
  else .error (.presetNotFound name)

def find? (presets : List Preset) (name : String) : Option Preset :=
  presets.find? (·.name = trimmed name)

/-! ## Records -/

def toJson (p : Preset) : Json :=
  .object [("id", .string p.id), ("name", .string p.name), ("createdAt", .natural p.createdAt),
    ("updatedAt", .natural p.updatedAt), ("graphPayload", .string p.graph)]

/-- A preset from the values of its fields, in the order in which they are written. -/
def ofValues? (id name createdAt updatedAt graph : Json) : Option Preset := do
  return { id := ← id.string?, name := ← name.string?, createdAt := ← createdAt.natural?,
           updatedAt := ← updatedAt.natural?, graph := ← graph.string? }

/-- The preset that a record holds: an object with its fields, or a list of their values. -/
def ofJson? : Json → Option Preset
  | .object fields => do
    ofValues? (← Json.field? "id" fields) (← Json.field? "name" fields)
      (← Json.field? "createdAt" fields) (← Json.field? "updatedAt" fields)
      (← Json.field? "graphPayload" fields)
  | .array [id, name, createdAt, updatedAt, graph] => ofValues? id name createdAt updatedAt graph
  | _ => none

/-- The presets in a stored text, as far as they can be read. -/
def ofText (text : String) : List Preset :=
  match Json.parse? text with
  | some (.array records) => (records.filterMap ofJson?).take maxPresets
  | _ => []

/-! ## Storing -/

variable {m : Type → Type} [Monad m]

/-- The stored list; empty if there is none that can be read. -/
def load (store : Store m) : m (List Preset) := do
  match ← (store.get presetsKey).run with
  | .ok (some text) => return ofText text
  | _ => return []

def save (store : Store m) (presets : List Preset) : ExceptT StoreError m Unit :=
  store.set presetsKey (Json.array ((presets.take maxPresets).map toJson)).compact

end Preset

end Pedalboard
