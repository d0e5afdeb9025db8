import Pedalboard.Store.Error
import Pedalboard.Store.Path

/-!
# Files

**Access** (`Files`). What this library asks of a file system. Programs that store data are written
for any monad with file access, so they run on the files of the system and on a `Tree` alike.

**Creating directories** (`createDirectories`). A directory is created together with the missing
ones on the way to it.
-/

namespace Pedalboard

/-- Access to files, by path. -/
class Files (m : Type → Type) where
  /-- The text of a file. -/
  read : String → m (Except FileError String)
  /-- Replaces the text of a file, or makes a file with it. -/
  write : String → String → m (Except FileError Unit)
  remove : String → m (Except FileError Unit)
  /-- Makes one directory in one that is there. -/
  makeDirectory : String → m (Except FileError Unit)
  isDirectory : String → m Bool
  /-- Something stands at the path. -/
  present : String → m Bool

namespace Files

variable {m : Type → Type} [Monad m] [Files m]

/-- Makes a directory unless it is there. -/
def ensureDirectory (path : String) : m (Except FileError Unit) := do
  match ← makeDirectory path with
  | .ok () => return .ok ()
  | .error e => if ← isDirectory path then return .ok () else return .error e

/-- Makes the first of a list of directories, each inside the one after it. -/
def createWithin : List String → m (Except FileError Unit)
  | [] => return .ok ()
  | path :: outer => do
    match ← makeDirectory path with
    | .ok () => return .ok ()
    | .error .notFound =>
      match ← createWithin outer with
      | .ok () => ensureDirectory path
      | .error e => return .error e
    | .error e => if ← isDirectory path then return .ok () else return .error e

/-- Makes a directory and the missing ones on the way to it. -/
def createDirectories (path : String) : m (Except FileError Unit) := createWithin (Path.ancestors path)

end Files

end Pedalboard
