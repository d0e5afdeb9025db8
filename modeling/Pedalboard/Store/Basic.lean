import Pedalboard.Keyed
import Pedalboard.Store.Files

/-!
# Stores

**Stores** (`Store`). Texts by key, behind three operations. What is kept in them decides on its own
keys; a store knows none.

**In memory** (`Store.memory`). A map.

**In a directory** (`Store.directory`). A file for each key, named for the key with every character
that is not safe in a file name replaced, so keys can share a file. The directory is created with
the first text. A file that is not there is no text, and can be removed.
-/

namespace Pedalboard

/-- Texts by key. -/
structure Store (m : Type → Type) where
  get : String → ExceptT StoreError m (Option String)
  set : String → String → ExceptT StoreError m Unit
  /-- Forgets a key, which need not be there. -/
  remove : String → ExceptT StoreError m Unit

/-- The contents of a store in memory. -/
abbrev Memory := Keyed String

/-- The store in memory. -/
def Store.memory : Store (StateM Memory) where
  get key := return (← getThe Memory).get? key
  set key value := modifyThe Memory (·.insert key value)
  remove key := modifyThe Memory (·.erase key)

/-! ## Directories -/

/-- A character that stands for itself in the name of a file. -/
def isSafe (c : Char) : Bool := c.isAlphanum || c == '-' || c == '_' || c == '.'

/-- A key as the name of a file. -/
def safeName (key : String) : String :=
  String.ofList (key.toList.map fun c => if isSafe c then c else '_')

/-- The file that holds the text of a key. -/
def fileFor (dir key : String) : String := Path.join dir (safeName key ++ ".json")

namespace Store

variable {m : Type → Type} [Monad m] [Files m]

/-- The result of an access, or the error that names what was to be done. -/
def accessing (access : FileAccess) (path : String) (result : m (Except FileError Unit)) :
    ExceptT StoreError m Unit := do
  match ← (result : m _) with
  | .ok () => return ()
  | .error e => throw (.file access path e)

/-- A directory and the missing ones on the way to it, unless something stands there. -/
def prepareDirectory (dir : String) : ExceptT StoreError m Unit := do
  if !(← (Files.present dir : m Bool)) then
    accessing .createDirectory dir (Files.createDirectories dir)

/-- The store in a directory. -/
def directory (dir : String) : Store m where
  get key := do
    match ← (Files.read (fileFor dir key) : m _) with
    | .ok content => return some content
    | .error .notFound => return none
    | .error e => throw (.file .read (fileFor dir key) e)
  set key value := do
    prepareDirectory dir
    accessing .write (fileFor dir key) (Files.write (fileFor dir key) value)
  remove key := do
    match ← (Files.remove (fileFor dir key) : m _) with
    | .ok () => return ()
    | .error .notFound => return ()
    | .error e => throw (.file .remove (fileFor dir key) e)

end Store

end Pedalboard
