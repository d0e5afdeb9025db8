import Pedalboard.Cli.Run
import Std.Time.DateTime

/-!
# The program

The host that the system provides, and the entry point. Everything else is decided by
`Pedalboard.Cli.run`.
-/

namespace Pedalboard.Cli.Terminal

/-- The cause of a refused access. -/
def fileError (e : IO.Error) : FileError :=
  let known (code : UInt32) (details : String) : FileError :=
    if code = 2 then .notFound
    else if code = 17 then .alreadyExists
    else if code = 20 then .notDirectory
    else if code = 21 then .isDirectory
    else if code = 36 then .nameTooLong
    else .other (details ++ " (os error " ++ toString code.toNat ++ ")")
  match e with
  | .noFileOrDirectory _ code details => known code details
  | .alreadyExists _ code details => known code details
  | .inappropriateType _ code details => known code details
  | .invalidArgument _ code details => known code details
  | .permissionDenied _ code details => known code details
  | .resourceExhausted _ code details => known code details
  | .unsatisfiedConstraints code details => known code details
  | .resourceBusy code details => known code details
  | .otherError code details => known code details
  | e => .other (toString e)

/-- Accesses a path that the system can be asked for. -/
def attempt {α : Type} (path : String) (action : IO α) : IO (Except FileError α) := do
  if path.toList.contains '\x00' then return .error .nulInPath
  try return .ok (← action)
  catch e => return .error (fileError e)

def decode (bytes : ByteArray) : Except FileError String :=
  match String.fromUTF8? bytes with
  | some text => .ok text
  | none => .error .notText

/-- Whether a path leads to something that has a property; never an error. -/
def leadsTo (path : String) (isDirectory : Bool) : IO Bool := do
  match ← attempt path (IO.FS.realPath path) with
  | .ok place => if isDirectory then place.isDir else place.pathExists
  | .error _ => return false

instance : Host IO where
  read path := return (← attempt path (IO.FS.readBinFile path)).bind decode
  write path content := attempt path (IO.FS.writeFile path content)
  remove path := attempt path (IO.FS.removeFile path)
  makeDirectory path := attempt path (IO.FS.createDir path)
  isDirectory path := leadsTo path true
  present path := leadsTo path false
  input := do
    let stdin ← IO.getStdin
    return decode (← stdin.readBinToEnd)
  print line := IO.println line
  warn line := IO.eprintln line
  now := return (← Std.Time.Timestamp.now).toMillisecondsSinceUnixEpoch.val.toNat
  configHome := do
    match ← IO.getEnv "XDG_CONFIG_HOME" with
    | some dir => if Path.isAbsolute dir then return some dir
    | none => pure ()
    return (← IO.getEnv "HOME").map (Path.join · ".config")

/-! ## Messages -/

def versionText : String := "fxgraph 0.1.0"

def helpText : String :=
  "Usage: fxgraph [--settings <file>] [--state-dir <dir>] <command>\n\n" ++
  "Commands:\n" ++
  "  schema [kind]                       show effect kinds and their parameters\n" ++
  "  validate <file>                     check a graph payload\n" ++
  "  compile <file> [-o <file>]          compile a graph payload for the engine\n" ++
  "  bank <file> [-r <n>] [--nonzero]    encode a graph payload as parameter writes\n" ++
  "  edit [-i <file>] [-o <file>] [--strict] [--compact] <op>...\n" ++
  "                                      apply edit operations to a graph\n" ++
  "  presets list|show|save|delete|factory\n" ++
  "                                      list and manage presets"

def usageText : UsageError → String
  | .invalidValue => "a value is required"
  | .refusedValue reason => "invalid value: " ++ reason
  | .invalidSubcommand => "unrecognized subcommand"
  | .unknownArgument => "unexpected argument"
  | .missingArgument => "a required argument is missing"
  | .missingSubcommand => "a subcommand is required"
  | .nothingGiven => helpText
  | .conflict => "an argument cannot be used here, or more than once"
  | .tooManyValues => "a flag takes no value"
  | .help => helpText
  | .version => versionText

end Pedalboard.Cli.Terminal

open Pedalboard.Cli in
def main (words : List String) : IO UInt32 := do
  match ← run words with
  | .ok () => return 0
  | .error (.usage .help) => IO.println Terminal.helpText; return 0
  | .error (.usage .version) => IO.println Terminal.versionText; return 0
  | .error (.usage e) => IO.eprintln ("error: " ++ Terminal.usageText e); return 2
  | .error (.failed message) => IO.eprintln ("Error: " ++ message); return 1
