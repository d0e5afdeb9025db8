import Pedalboard.Wire.Error

/-!
# Why stored data is out of reach

**Files** (`FileError`). What the system says when it refuses to touch a file.

**Stored data** (`StoreError`). A file that cannot be used, with what was to be done to it, or data
that was found and does not hold what it should. `StoreError.message` is the message alone, and
`StoreError.report` adds the messages of its causes.
-/

namespace Pedalboard

inductive FileError
  | notFound
  | notDirectory
  | isDirectory
  | alreadyExists
  | nameTooLong
  /-- The bytes of a file are no text in UTF-8. -/
  | notText
  | nulInPath
  /-- Any other refusal, in the words of the system. -/
  | other (text : String)
deriving DecidableEq, Repr, Inhabited

def FileError.message : FileError → String
  | notFound => "No such file or directory (os error 2)"
  | alreadyExists => "File exists (os error 17)"
  | notDirectory => "Not a directory (os error 20)"
  | isDirectory => "Is a directory (os error 21)"
  | nameTooLong => "File name too long (os error 36)"
  | notText => "stream did not contain valid UTF-8"
  | nulInPath => "file name contained an unexpected NUL byte"
  | other text => text

/-- What was to be done to a file. -/
inductive FileAccess
  | read
  | write
  | remove
  | createDirectory
deriving DecidableEq, Repr

def FileAccess.failure : FileAccess → String
  | read => "failed to read file"
  | write => "failed to write file"
  | remove => "failed to remove file"
  | createDirectory => "failed to create directory"

/-- What is wrong with the record of a session. -/
inductive SessionProblem
  | notObject
  | unsupportedVersion
  | payloadNotString
deriving DecidableEq, Repr

def SessionProblem.text : SessionProblem → String
  | notObject => "ui state must be an object"
  | unsupportedVersion => "unsupported ui state version"
  | payloadNotString => "graphPayload must be a string"

inductive StoreError
  | file (access : FileAccess) (path : String) (cause : FileError)
  /-- A record is no JSON document. -/
  | notJson
  /-- A settings file is no TOML document, or holds values of other types. -/
  | notSettings
  /-- A number is too large for a settings file. -/
  | integerTooLarge
  /-- A graph breaks a rule of the wire. -/
  | contract (e : WireError)
  | invalidSession (problem : SessionProblem)
  | presetNotFound (name : String)
deriving DecidableEq, Repr

namespace StoreError

def message : StoreError → String
  | file access path cause => access.failure ++ " '" ++ path ++ "': " ++ cause.message
  | notJson => "invalid JSON: " ++ ShapeError.notJson.message
  | notSettings => "failed to parse TOML: not a settings document"
  | integerTooLarge => "failed to serialize TOML: out-of-range value for u64 type"
  | contract e => "graph contract violation (" ++ e.code ++ "): " ++ e.message
  | invalidSession problem => "invalid stored record: " ++ problem.text
  | presetNotFound name => "preset not found: " ++ name

/-- The message of the cause, if there is one. -/
def cause? : StoreError → Option String
  | file _ _ cause => some cause.message
  | notJson => some ShapeError.notJson.message
  | notSettings => some "not a settings document"
  | integerTooLarge => some "out-of-range value for u64 type"
  | contract e => some e.message
  | invalidSession _ => none
  | presetNotFound _ => none

/-- The message, followed by that of its cause. -/
def report (e : StoreError) : String :=
  match e.cause? with
  | some cause => e.message ++ ": " ++ cause
  | none => e.message

end StoreError

end Pedalboard
