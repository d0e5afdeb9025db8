import Pedalboard.Cli.Arguments

/-!
# Commands

**Commands** (`Command`). What can be asked of the program, with all that was said about it.

**Invocations** (`Invocation`). A command, with the settings file and the directory for state if
they were named. Both can be named at any step on the way to the command, and the innermost counts.
-/

namespace Pedalboard.Cli

inductive PresetCommand
  | list
  | display (name : String) (json : Bool)
  | save (name : String) (input factory : Option String)
  | delete (name : String)
  | factory (name : String)
deriving DecidableEq, Repr

inductive Command
  /-- Shows the controls of one kind or of every effect. -/
  | schema (kind : Option String)
  | validate (file : String)
  | compile (file : String) (output : Option String)
  | bank (file : String) (revision : Nat) (nonZero : Bool)
  | edit (input output : Option String) (strict compact : Bool) (operations : List Operation)
  | presets (command : PresetCommand)
deriving DecidableEq

structure Invocation where
  settings : Option String
  stateDir : Option String
  command : Command
deriving DecidableEq

/-! ## Grammars -/

/-- The options that every command has. -/
def commonOptions : List OptionRule :=
  [⟨"settings", none, .value .path⟩, ⟨"state-dir", none, .value .path⟩, ⟨"help", some 'h', .help⟩]

def file : PositionalRule := { name := "file", kind := .path }

def presetName : PositionalRule := { name := "name", kind := .text }

/-- The grammar of the command with a path. -/
def grammar : List String → Grammar
  | [] => {
      options := commonOptions ++ [⟨"version", some 'V', .version⟩]
      subcommands := ["schema", "validate", "compile", "bank", "edit", "presets", "help"] }
  | ["schema"] => {
      options := commonOptions
      positionals := [{ name := "kind", kind := .text, required := false }] }
  | ["validate"] => { options := commonOptions, positionals := [file] }
  | ["compile"] => {
      options := ⟨"output", some 'o', .value .path⟩ :: commonOptions
      positionals := [file] }
  | ["bank"] => {
      options := [⟨"revision", some 'r', .value .natural⟩, ⟨"nonzero", none, .flag⟩] ++ commonOptions
      positionals := [file] }
  | ["edit"] => {
      options := [⟨"input", some 'i', .value .path⟩, ⟨"output", some 'o', .value .path⟩,
        ⟨"strict", none, .flag⟩, ⟨"compact", none, .flag⟩] ++ commonOptions
      positionals := [{ name := "ops", kind := .operation, required := false, repeats := true }] }
  | ["presets"] => {
      options := commonOptions
      subcommands := ["list", "show", "save", "delete", "factory", "help"] }
  | ["presets", "list"] => { options := commonOptions }
  | ["presets", "show"] => {
      options := ⟨"json", none, .flag⟩ :: commonOptions
      positionals := [presetName] }
  | ["presets", "save"] => {
      options := [⟨"input", some 'i', .value .path⟩, ⟨"factory", some 'f', .value .text⟩] ++ commonOptions
      positionals := [presetName]
      conflicts := [("input", "factory")] }
  | ["presets", "delete"] => { options := commonOptions, positionals := [presetName] }
  | ["presets", "factory"] => { options := commonOptions, positionals := [presetName] }
  | _ => {}

/-! ## Reading -/

/-- The revision that a bank gets unless one is given. -/
def defaultRevision : Nat := 1

/-- The command with a path, from its arguments. -/
def Command.ofFound? (path : List String) (f : Found) : Option Command :=
  let name := f.text? "name"
  match path with
  | ["schema"] => some (.schema (f.text? "kind"))
  | ["validate"] => (f.text? "file").map .validate
  | ["compile"] => (f.text? "file").map fun file => .compile file (f.text? "output")
  | ["bank"] => (f.text? "file").map fun file =>
      .bank file ((f.natural? "revision").getD defaultRevision) (f.has "nonzero")
  | ["edit"] => some <| .edit (f.text? "input") (f.text? "output") (f.has "strict") (f.has "compact")
      (f.operations "ops")
  | ["presets", "list"] => some (.presets .list)
  | ["presets", "show"] => name.map fun name => .presets (.display name (f.has "json"))
  | ["presets", "save"] => name.map fun name =>
      .presets (.save name (f.text? "input") (f.text? "factory"))
  | ["presets", "delete"] => name.map fun name => .presets (.delete name)
  | ["presets", "factory"] => name.map fun name => .presets (.factory name)
  | _ => none

/-- The innermost value of an option that every command has. -/
def innermost? (levels : List Found) (name : String) : Option String :=
  (levels.filterMap (·.text? name)).getLast?

/-- The invocation that the words after the name of the program stand for. -/
def Invocation.parse (words : List String) : Except UsageError Invocation := do
  let (path, levels) ← readArguments grammar [] {} words
  match Command.ofFound? path (levels.getLast?.getD []) with
  | some command =>
    return { settings := innermost? levels "settings", stateDir := innermost? levels "state-dir", command }
  | none => .error .missingArgument

end Pedalboard.Cli
