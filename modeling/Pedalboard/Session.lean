import Pedalboard.History
import Pedalboard.Json.Parser
import Pedalboard.Json.Printer
import Pedalboard.Store.Basic
import Pedalboard.Text.Blank
import Pedalboard.Wire.Codec

/-!
# Sessions

**Sessions** (`Session`). What an editor keeps from one run to the next: the text of the graph and
the name of the preset that was used last. A blank name is read as that of the default preset.

**Restoring.** A stored session is read, then its graph is; if either fails there is no session.
A restored graph replaces the present of a history without a step to undo.
-/

namespace Pedalboard

/-- The name that stands in for a blank one. -/
def defaultPresetName : String := "Default Preset"

structure Session where
  /-- The text of a payload. -/
  graph : String
  presetName : String
deriving DecidableEq, Repr

/-- A session with its graph read. -/
structure RestoredSession where
  state : State
  presetName : String

/-- The command that makes a restored graph the present. -/
def RestoredSession.command (r : RestoredSession) : Command := .replace r.state false

namespace Session

/-- The key of the stored session. -/
def storeKey : String := "fxgraph:ui-state:v1"

/-- The version of the record that is written and read. -/
def version : Nat := 1

def capture (s : State) (presetName : String) : Except StoreError Session := do
  return { graph := ← (Payload.serializeState s).mapError .contract, presetName }

def toJson (s : Session) : Json :=
  .object [("version", .natural version), ("graphPayload", .string s.graph),
    ("lastPresetName", .string s.presetName)]

/-- The session in a stored text. -/
def parse (text : String) : Except StoreError Session :=
  match Json.parse? text with
  | none => .error .notJson
  | some (.object fields) =>
    if (Json.field? "version" fields).bind Json.natural? ≠ some version then
      .error (.invalidSession .unsupportedVersion)
    else match (Json.field? "graphPayload" fields).bind Json.string? with
      | none => .error (.invalidSession .payloadNotString)
      | some graph =>
        let name := ((Json.field? "lastPresetName" fields).bind Json.string?).getD ""
        .ok { graph, presetName := if onlyWhiteSpace name then defaultPresetName else name }
  | some _ => .error (.invalidSession .notObject)

def hydrate (s : Session) (nodeLimit : Nat) : Except StoreError RestoredSession := do
  let state ← (Payload.deserialize s.graph >>= (·.hydrate nodeLimit)).mapError StoreError.contract
  return { state, presetName := s.presetName }

variable {m : Type → Type} [Monad m]

def save (store : Store m) (s : State) (presetName : String) : ExceptT StoreError m Unit := do
  let session ← liftExcept (capture s presetName)
  store.set storeKey session.toJson.compact
where
  liftExcept {α : Type} (r : Except StoreError α) : ExceptT StoreError m α := ExceptT.mk (pure r)

/-- The stored session; `none` if there is none that can be restored. -/
def load (store : Store m) (nodeLimit : Nat) : m (Option RestoredSession) := do
  match ← (store.get storeKey).run with
  | .ok (some text) => return (parse text >>= (·.hydrate nodeLimit)).toOption
  | _ => return none

end Session

end Pedalboard
