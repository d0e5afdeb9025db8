import Pedalboard.Cli.Operation

/-!
# Arguments

**Grammars** (`Grammar`). A command has options, positional arguments and commands below it. Options
with a value take it from the same word, after `=` or directly after a letter, or from the next.

**Reading** (`readArguments`). Words are taken from left to right. A value is checked when the next
argument is recognised or the words of its command end, so an unknown word is reported before a bad
value in front of it. A command is finished after the commands below it.

**Rules.** A flag or an option can be given once, `--` ends the options, a single dash is a value,
and a path cannot be empty.
-/

namespace Pedalboard.Cli

/-- Why a list of words is no command. -/
inductive UsageError
  /-- A value is missing or empty. -/
  | invalidValue
  /-- A value is refused, for a reason. -/
  | refusedValue (reason : String)
  | invalidSubcommand
  | unknownArgument
  | missingArgument
  | missingSubcommand
  /-- There is nothing at all where a command should be. -/
  | nothingGiven
  | conflict
  /-- A flag has a value. -/
  | tooManyValues
  /-- No mistake: help is asked for. -/
  | help
  /-- No mistake: the version is asked for. -/
  | version
deriving DecidableEq, Repr

/-! ## Grammars -/

/-- What a value has to be. -/
inductive ValueKind
  | path
  | text
  | natural
  | operation
deriving DecidableEq, Repr

/-- What an option does. -/
inductive OptionKind
  | flag
  | value (kind : ValueKind)
  | help
  | version
deriving DecidableEq, Repr

structure OptionRule where
  name : String
  letter : Option Char
  kind : OptionKind
deriving DecidableEq, Repr

/-- A positional argument; one that repeats takes every further word. -/
structure PositionalRule where
  name : String
  kind : ValueKind
  required : Bool := true
  repeats : Bool := false
deriving DecidableEq, Repr

structure Grammar where
  options : List OptionRule := []
  positionals : List PositionalRule := []
  /-- Options that exclude each other. -/
  conflicts : List (String × String) := []
  subcommands : List String := []
deriving DecidableEq, Repr

/-- A value that has been checked. -/
inductive Value
  | text (s : String)
  | natural (n : Nat)
  | operation (op : Operation)
deriving DecidableEq

def ValueKind.read (kind : ValueKind) (word : String) : Except UsageError Value :=
  match kind with
  | path => if word.isEmpty then .error .invalidValue else .ok (.text word)
  | text => .ok (.text word)
  | natural => match natural64 word with
    | .ok n => .ok (.natural n)
    | .error p => .error (.refusedValue p.message)
  | operation => match Operation.parse word with
    | .ok op => .ok (.operation op)
    | .error p => .error (.refusedValue p.message)

/-! ## Found arguments -/

/-- The arguments of one command, by name; a flag has no values. -/
abbrev Found := List (String × List Value)

namespace Found

def has (f : Found) (name : String) : Bool := (f.lookup name).isSome

def values (f : Found) (name : String) : List Value := (f.lookup name).getD []

def text? (f : Found) (name : String) : Option String :=
  (f.values name).head?.bind fun
    | .text s => some s
    | _ => none

def natural? (f : Found) (name : String) : Option Nat :=
  (f.values name).head?.bind fun
    | .natural n => some n
    | _ => none

def operations (f : Found) (name : String) : List Operation :=
  (f.values name).filterMap fun
    | .operation op => some op
    | _ => none

/-- Adds values after those that are there. -/
def append (f : Found) (name : String) (vs : List Value) : Found :=
  if f.has name then f.map fun (k, ws) => if k = name then (k, ws ++ vs) else (k, ws)
  else f ++ [(name, vs)]

end Found

/-! ## Reading -/

/-- Words that wait to be checked as values of an argument. -/
structure Pending where
  name : String
  kind : ValueKind
  repeats : Bool
  words : List String
deriving DecidableEq, Repr

/-- How far the words of a command have been read. -/
structure Reading where
  found : Found := []
  pending : Option Pending := none
  /-- The pending option still lacks its value. -/
  awaiting : Bool := false
  /-- The number of positional arguments that are done. -/
  position : Nat := 0
  /-- No more options can follow. -/
  trailing : Bool := false

namespace Reading

/-- Checks words as values of an argument. -/
def accept (r : Reading) (p : Pending) : Except UsageError Reading := do
  if p.words.isEmpty then .error .invalidValue
  else if !p.repeats && r.found.has p.name then .error .conflict
  else return { r with found := r.found.append p.name (← p.words.mapM p.kind.read) }

/-- Checks the words that wait. -/
def settle (r : Reading) : Except UsageError Reading :=
  match r.pending with
  | none => .ok r
  | some p => { r with pending := none, awaiting := false }.accept p

/-- Takes an option, with the value attached to it if there is one. -/
def takeOption (r : Reading) (o : OptionRule) (attached : Option String) : Except UsageError Reading := do
  match o.kind, attached with
  | .value kind, some word => (← r.settle).accept { name := o.name, kind, repeats := false, words := [word] }
  | .value kind, none =>
    return { ← r.settle with
      pending := some { name := o.name, kind, repeats := false, words := [] }
      awaiting := true }
  | _, some _ => .error .tooManyValues
  | .help, none => let _ ← r.settle; .error .help
  | .version, none => let _ ← r.settle; .error .version
  | .flag, none =>
    let r ← r.settle
    if r.found.has o.name then .error .conflict
    else return { r with found := r.found.append o.name [] }

/-- Takes a word that is no option. -/
def takePositional (g : Grammar) (r : Reading) (word : String) : Except UsageError Reading := do
  match g.positionals[r.position]? with
  | none =>
    if g.subcommands.isEmpty || (r.trailing && g.subcommands.contains word) then .error .unknownArgument
    else .error .invalidSubcommand
  | some rule =>
    match r.pending with
    | some p =>
      if p.repeats && p.name = rule.name then
        return { r with pending := some { p with words := p.words ++ [word] } }
    | none => pure ()
    let r ← r.settle
    return { r with
      pending := some { name := rule.name, kind := rule.kind, repeats := rule.repeats, words := [word] }
      position := if rule.repeats then r.position else r.position + 1 }

/-- The name of a long option, and the value after its first equals sign. -/
def splitLong (cs : List Char) : String × Option String :=
  match cs.dropWhile (· ≠ '=') with
  | [] => (String.ofList cs, none)
  | _ :: value => (String.ofList (cs.takeWhile (· ≠ '=')), some (String.ofList value))

/-- The value in the same word as a letter. -/
def attachedToLetter : List Char → Option String
  | [] => none
  | '=' :: value => some (String.ofList value)
  | value => some (String.ofList value)

/-- Takes one word. -/
def take (g : Grammar) (r : Reading) (word : String) : Except UsageError Reading :=
  if r.trailing then takePositional g r word
  else match word.toList with
    | ['-', '-'] => .ok { r with trailing := true }
    | '-' :: '-' :: cs =>
      let (name, attached) := splitLong cs
      match g.options.find? (·.name = name) with
      | some o => r.takeOption o attached
      | none => .error .unknownArgument
    | '-' :: c :: cs =>
      match g.options.find? (·.letter = some c) with
      | some o =>
        -- Letters without a value end the reading, so nothing can follow them.
        r.takeOption o (match o.kind with
          | .value _ => attachedToLetter cs
          | _ => none)
      | none => .error .unknownArgument
    | _ =>
      match r.awaiting, r.pending with
      | true, some p => .ok { r with pending := some { p with words := [word] }, awaiting := false }
      | _, _ => takePositional g r word

/-- The arguments of a command whose words have ended. -/
def finish (g : Grammar) (r : Reading) (hasSubcommand : Bool) : Except UsageError Found := do
  let r ← r.settle
  if !hasSubcommand && !g.subcommands.isEmpty then
    .error (if r.found.isEmpty then .nothingGiven else .missingSubcommand)
  else if g.conflicts.any fun (a, b) => r.found.has a && r.found.has b then .error .conflict
  else if g.positionals.any fun p => p.required && !r.found.has p.name then .error .missingArgument
  else return r.found

end Reading

/-- What asking for help about a command below a command comes to. -/
def helpFor (grammar : List String → Grammar) (path : List String) : List String → UsageError
  | [] => .help
  | word :: words =>
    if (grammar path).subcommands.contains word then helpFor grammar (path ++ [word]) words
    else .invalidSubcommand

/-- The command that words name, as a path, with the arguments at each step of the path. -/
def readArguments (grammar : List String → Grammar) (path : List String) (r : Reading) :
    List String → Except UsageError (List String × List Found)
  | [] => do return (path, [← r.finish (grammar path) false])
  | word :: words =>
    if !r.trailing && !r.awaiting && (grammar path).subcommands.contains word then
      if word = "help" then .error (helpFor grammar path words)
      else do
        let (leaf, levels) ← readArguments grammar (path ++ [word]) {} words
        return (leaf, (← r.finish (grammar path) true) :: levels)
    else do readArguments grammar path (← r.take (grammar path) word) words

end Pedalboard.Cli
