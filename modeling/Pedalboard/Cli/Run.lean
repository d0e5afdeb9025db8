import Pedalboard.Cli.Command
import Pedalboard.Cli.Host
import Pedalboard.Control.Schema
import Pedalboard.Engine.Bank
import Pedalboard.Preset.Basic
import Pedalboard.Preset.Factory
import Pedalboard.Text.Column

/-!
# Running commands

A command runs in any host. It prints lines, and ends or fails with a message. Settings are loaded
before it starts, so damaged settings fail every command.

**Documents.** A file named `-` is the input. Payloads are printed with their fields in the order of
their keys, indented unless compact text is asked for.
-/

namespace Pedalboard.Cli

/-- Why an invocation failed. -/
inductive Failure
  | usage (e : UsageError)
  | failed (message : String)
deriving DecidableEq, Repr

/-- A command in a host, which can fail with a message. -/
abbrev Run (m : Type → Type) := ExceptT String m

variable {m : Type → Type} [Monad m] [Host m]

/-! ## Documents -/

def print (line : String) : Run m Unit := ExceptT.lift (Host.print line)

def fail {α : Type} (message : String) : Run m α := throw message

/-- A stored value, or the failure with the message of the error and its causes. -/
def stored {α : Type} (r : ExceptT StoreError m α) : Run m α := do
  match ← (r.run : m _) with
  | .ok x => return x
  | .error e => fail e.report

/-- The text of a file or of the input. -/
def readText (file : String) : Run m String := do
  if file = "-" then
    match ← (Host.input : m _) with
    | .ok text => return text
    | .error e => fail ("failed to read stdin: " ++ e.message)
  else
    match ← (Files.read file : m _) with
    | .ok text => return text
    | .error e => fail ("failed to read '" ++ file ++ "': " ++ e.message)

/-- A result about a file, or the failure that names the file. -/
def about {α : Type} (file : String) (r : Except WireError α) : Run m α :=
  match r with
  | .ok x => return x
  | .error e => fail (file ++ ": " ++ e.message)

def readPayload (file : String) : Run m Payload := do
  about file (Payload.deserialize (← readText file))

/-- Writes a text as a line of a file or of the output. -/
def writeText (file : Option String) (text : String) : Run m Unit := do
  match file with
  | none => print text
  | some file =>
    match ← (Files.write file (text ++ "\n") : m _) with
    | .ok () => return ()
    | .error e => fail ("failed to write '" ++ file ++ "': " ++ e.message)

/-- A JSON text, indented and with its fields in the order of their keys. -/
def prettyText? (text : String) : Option String := (Json.parse? text).map Json.pretty

/-- The indented text of a payload text. -/
def pretty (text : String) : Run m String :=
  match prettyText? text with
  | some t => return t
  | none => fail ShapeError.notJson.message

/-- The canonical text of a state. -/
def stateText (s : State) : Run m String :=
  match Payload.serializeState s with
  | .ok text => return text
  | .error e => fail e.message

/-! ## Kinds -/

def scaleText : Scale → String
  | .linear => "linear"
  | .logarithmic => "log"

/-- A line of the table of controls. -/
def controlLine (key label least greatest default scale : String) : String :=
  "  " ++ "  ".intercalate [alignLeft 10 key, alignLeft 10 label, alignRight 9 least,
    alignRight 9 greatest, alignRight 10 default, scale]

def controlLineOf (c : Control) : String :=
  controlLine c.key c.label (plainText c.least) (plainText c.greatest) (c.text c.default)
    (scaleText c.scale)

def kindTitle (k : Kind) : String :=
  k.label ++ " (" ++ k.name ++ ", engine id " ++ toString k.effectType ++ ")"

/-- The lines that show a kind. -/
def kindLines (k : Kind) : List String :=
  [kindTitle k, underline (kindTitle k)] ++
  (if k.controls.isEmpty then ["  (no parameters)"]
  else [controlLine "Key" "Label" "Min" "Max" "Default" "Scale",
    controlLine "---" "-----" "---" "---" "-------" "-----"] ++ k.controls.map controlLineOf) ++
  [""]

def runSchema (kind : Option String) : Run m Unit := do
  let kinds ← match kind with
    | none => pure Kind.effects
    | some name => match Kind.ofName? name with
      | some k => pure [k]
      | none => fail (unknownKindMessage name)
  (kinds.flatMap kindLines).forM print

/-! ## Payloads -/

def runValidate (settings : Settings) (file : String) : Run m Unit := do
  let p ← readPayload file
  let s ← about file (p.hydrate settings.nodeLimit)
  print (file ++ ": valid (schema " ++ toString p.version ++ ", " ++ toString p.nodes.length ++
    " nodes, " ++ toString p.edges.length ++ " edges, node limit " ++ toString s.nodeLimit ++ ")")

def runCompile (file : String) (output : Option String) : Run m Unit := do
  writeText output (compile (← readPayload file)).toJson.pretty

def writeLine (w : ParamWrite) : String :=
  alignRight 4 (toString w.index) ++ " " ++ plainText w.value

def runBank (file : String) (revision : Nat) (nonZero : Bool) : Run m Unit := do
  let writes := encode (compile (← readPayload file)) revision
  (writes.filter fun w => !nonZero || !w.value.ieeeEq 0).forM fun w => print (writeLine w)

/-! ## Editing -/

/-- Applies operations in order, numbered from `n`. A rejected one is a warning, or the failure of
a strict run. -/
def applyOperations (strict : Bool) : Nat → History → List Operation → Run m History
  | _, h, [] => return h
  | n, h, op :: ops => do
    let (next, rejection) := op.apply h
    match rejection with
    | none => applyOperations strict (n + 1) next ops
    | some r =>
      let place := "operation " ++ toString n ++ " (" ++ op.describe ++ ")"
      if strict then fail (place ++ " rejected: " ++ r.message)
      else
        ExceptT.lift (Host.warn ("warning: " ++ place ++ ": " ++ r.message))
        applyOperations strict (n + 1) next ops

def runEdit (settings : Settings) (input output : Option String) (strict compact : Bool)
    (operations : List Operation) : Run m Unit := do
  let initial ← match input with
    | some file => do about file ((← readPayload file).hydrate settings.nodeLimit)
    | none => pure (State.initial settings.nodeLimit)
  let h ← applyOperations strict 1 (.new initial settings.historyLimit) operations
  let text ← stateText h.present
  writeText output (← if compact then pure text else pretty text)

/-! ## Presets -/

/-- A line of a list of presets. -/
def presetLine (name description : String) : String := "  " ++ alignLeft 20 name ++ " - " ++ description

/-- What a list says about a preset of the user. -/
def presetSummary (p : Preset) : String :=
  match p.hydrate maxNodeLimit with
  | .ok s => toString (s.nodes.length - 2) ++ " effects, " ++ toString s.edges.length ++ " edges"
  | .error _ => "(error loading)"

def presetListLines (presets : List Preset) : List String :=
  ["Factory Presets:", "================"] ++
  FactoryPreset.all.map (fun p => presetLine p.name p.description) ++
  ["", "User Presets:", "============="] ++
  (if presets.isEmpty then
    ["  (none)", "", "  Create a preset with: fxgraph presets save <name> --input graph.json"]
  else presets.map fun p => presetLine p.name (presetSummary p)) ++
  [""]

def nodeLines (n : Node) : List String :=
  ("  " ++ n.id ++ " (" ++ n.kind.label ++ ")" ++ if n.bypass then " [BYPASSED]" else "") ::
    n.kind.controls.map fun c => "      " ++ alignLeft 10 c.key ++ " = " ++ n.paramText c.key

/-- The lines that show a graph under a title. -/
def summaryLines (title : String) (s : State) : List String :=
  let heading := "Preset: " ++ title
  [heading, underline heading, "", "Nodes (" ++ toString s.nodes.length ++ "):"] ++
  s.nodes.flatMap nodeLines ++
  ["", "Edges (" ++ toString s.edges.length ++ "):"] ++
  s.edges.map fun e => "  " ++ e.source ++ " -> " ++ e.target

def factoryGraph (name : String) : Run m State :=
  match FactoryPreset.find? name with
  | some p => return p.graph
  | none => fail ("Unknown factory preset: " ++ name)

/-- The title and the graph of a preset of the user or else of the factory. -/
def findPreset (settings : Settings) (presets : List Preset) (name : String) :
    Run m (String × State) := do
  match Preset.find? presets name, FactoryPreset.find? name with
  | some p, _ => return (p.name, ← stored (ExceptT.mk (pure (p.hydrate settings.nodeLimit))))
  | none, some p => return (p.name ++ " (factory)", p.graph)
  | none, none =>
    fail ("Preset '" ++ name ++ "' not found. Use 'fxgraph presets list' to see available presets.")

def printPretty (s : State) : Run m Unit := do
  print (← pretty (← stateText s))

/-- The state that is to be saved under a name. -/
def stateToSave (settings : Settings) (input factory : Option String) : Run m State := do
  match input, factory with
  | some file, _ =>
    match (← readPayload file).hydrate settings.nodeLimit with
    | .ok s => return s
    | .error e => fail e.message
  | none, some name => factoryGraph name
  | none, none => fail "Nothing to save: pass --input <file> or --factory <name>"

def runPresets (settings : Settings) (dir : String) (c : PresetCommand) : Run m Unit := do
  let store : Store m := Store.directory dir
  let load : Run m (List Preset) := ExceptT.lift (Preset.load store)
  match c with
  | .list => (presetListLines (← load)).forM print
  | .display name json =>
    let (title, s) ← findPreset settings (← load) name
    if json then printPretty s else (summaryLines title s).forM print
  | .save name input factory =>
    let s ← stateToSave settings input factory
    if (trimmed name).isEmpty then fail "Preset name must not be blank"
    let presets ← stored (ExceptT.mk (pure (Preset.upsert (← load) name s (← (Host.now : m _)))))
    stored (Preset.save store presets)
    print ("Saved preset '" ++ trimmed name ++ "' to " ++ dir)
  | .delete name =>
    let presets ← stored (ExceptT.mk (pure (Preset.remove (← load) name)))
    stored (Preset.save store presets)
    print ("Deleted preset '" ++ trimmed name ++ "'")
  | .factory name => printPretty (← factoryGraph name)

/-! ## Invocations -/

/-- The settings of an invocation, and the directory for state. -/
def loadSettings (i : Invocation) : Run m (Settings × String) := do
  let home ← (Host.configHome : m _)
  let path := i.settings.getD (ConfigHome.settingsFile home)
  let settings ← stored (Settings.load path)
  let settings := { settings with stateDir := i.stateDir.or settings.stateDir }
  return (settings, settings.storeDir home)

def runInvocation (i : Invocation) : Run m Unit := do
  let (settings, dir) ← loadSettings i
  match i.command with
  | .schema kind => runSchema kind
  | .validate file => runValidate settings file
  | .compile file output => runCompile file output
  | .bank file revision nonZero => runBank file revision nonZero
  | .edit input output strict compact operations =>
    runEdit settings input output strict compact operations
  | .presets c => runPresets settings dir c

/-- Runs the words after the name of the program. -/
def run (words : List String) : m (Except Failure Unit) := do
  match Invocation.parse words with
  | .error e => return .error (.usage e)
  | .ok i =>
    match ← (runInvocation i).run with
    | .ok () => return .ok ()
    | .error message => return .error (.failed message)

end Pedalboard.Cli
