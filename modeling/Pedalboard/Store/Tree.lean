import Pedalboard.Keyed
import Pedalboard.Store.Files

/-!
# Trees of files

**Trees** (`Tree`). A file system as a value: what stands at each path that has something, and the
directory from which relative paths start. Directories hold no list of their own; what is in them
is what stands below their path.

**Walking a path** (`Tree.walk`). Names are followed one at a time, and each has to be looked up in
a directory that is there, so a path through a missing directory is not found and a path through a
file is refused. A dot stays, and two dots go up.

**Limits.** A name has at most `maxNameSize` bytes and a path at most `maxPathSize`.
-/

namespace Pedalboard

/-- What can stand at a path. -/
inductive Entry
  | directory
  | text (content : String)
  /-- A file whose bytes are no text. -/
  | binary
deriving DecidableEq, Repr

structure Tree where
  /-- By absolute path. The root is always there and has no entry. -/
  entries : Keyed Entry := .empty
  /-- The names of the directory from which relative paths start. -/
  current : List String := []
deriving Inhabited

namespace Tree

def maxNameSize : Nat := 255

def maxPathSize : Nat := 4095

/-- The absolute path of a list of names. -/
def key (names : List String) : String := String.join (names.map ("/" ++ ·))

def entry? (t : Tree) (names : List String) : Option Entry :=
  if names.isEmpty then some .directory else t.entries.get? (key names)

def put (t : Tree) (names : List String) (e : Entry) : Tree :=
  { t with entries := t.entries.insert (key names) e }

def erase (t : Tree) (names : List String) : Tree := { t with entries := t.entries.erase (key names) }

/-! ## Walking -/

/-- One name further from a directory. -/
def step (place : List String) (name : String) : Except FileError (List String) :=
  if name = "." then .ok place
  else if name = ".." then .ok place.dropLast
  else if maxNameSize < name.utf8ByteSize then .error .nameTooLong
  else .ok (place ++ [name])

/-- Follows names, each from a directory that is there. -/
def walk (t : Tree) : List String → List String → Except FileError (List String)
  | place, [] => .ok place
  | place, name :: rest =>
    match t.entry? place with
    | some .directory => step place name >>= fun next => walk t next rest
    | some _ => .error .notDirectory
    | none => .error .notFound

/-- The path ends in a slash, so that it can only mean a directory. -/
def endsInSlash (path : String) : Bool := path.toList.getLast? == some '/'

/-- The path ends in no name of its own, so that it can only mean a directory that is there. -/
def endsInDots (path : String) : Bool :=
  match (Path.names path).getLast? with
  | some name => name == "." || name == ".."
  | none => true

/-- The place that a path leads to. -/
def resolve (t : Tree) (path : String) : Except FileError (List String) :=
  if path.toList.contains '\x00' then .error .nulInPath
  else if path.isEmpty then .error .notFound
  else if maxPathSize < path.utf8ByteSize then .error .nameTooLong
  else t.walk (if Path.isAbsolute path then [] else t.current) (Path.names path)

/-- What stands at a path. -/
def find (t : Tree) (path : String) : Except FileError Entry := do
  match t.entry? (← t.resolve path) with
  | some .directory => return .directory
  | some e => if endsInSlash path then .error .notDirectory else return e
  | none => .error .notFound

/-! ## Access -/

def read (t : Tree) (path : String) : Except FileError String := do
  match ← t.find path with
  | .text content => return content
  | .binary => .error .notText
  | .directory => .error .isDirectory

/-- Puts a file in place of one that may be there. -/
def writeEntry (t : Tree) (path : String) (e : Entry) : Except FileError Tree := do
  let place ← t.resolve path
  if endsInSlash path || endsInDots path || t.entry? place = some .directory then .error .isDirectory
  else return t.put place e

def remove (t : Tree) (path : String) : Except FileError Tree := do
  let place ← t.resolve path
  if endsInDots path then .error .isDirectory
  else match ← t.find path with
    | .directory => .error .isDirectory
    | _ => return t.erase place

def makeDirectory (t : Tree) (path : String) : Except FileError Tree := do
  let place ← t.resolve path
  if endsInDots path || (t.entry? place).isSome then .error .alreadyExists
  else return t.put place .directory

def isDirectory (t : Tree) (path : String) : Bool :=
  match t.find path with
  | .ok .directory => true
  | _ => false

def present (t : Tree) (path : String) : Bool :=
  match t.find path with
  | .ok _ => true
  | .error _ => false

/-- The names of what a directory holds, in order. -/
def list (t : Tree) (path : String) : List String :=
  match t.resolve path with
  | .ok place =>
    let start := (key place ++ "/").toList
    t.entries.entries.filterMap fun (k, _) =>
      if start.isPrefixOf k.toList && !(k.toList.drop start.length).contains '/' then
        some (String.ofList (k.toList.drop start.length))
      else none
  | .error _ => []

/-- A change of the tree; a refused one leaves it as it is. -/
def change (f : Tree → Except FileError Tree) : StateM Tree (Except FileError Unit) := do
  match f (← get) with
  | .ok t => set t; return .ok ()
  | .error e => return .error e

instance : Files (StateM Tree) where
  read path := return (← getThe Tree).read path
  write path content := change (·.writeEntry path (.text content))
  remove path := change (·.remove path)
  makeDirectory path := change (·.makeDirectory path)
  isDirectory path := return (← getThe Tree).isDirectory path
  present path := return (← getThe Tree).present path

end Tree

end Pedalboard
