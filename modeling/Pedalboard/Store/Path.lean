import Pedalboard.Text.Split

/-!
# Paths

Paths are texts with `/` between names; one that starts with `/` is absolute. They are taken as
they are written: joining and cutting paths looks at no file.
-/

namespace Pedalboard.Path

def isAbsolute (path : String) : Bool := path.toList.head? == some '/'

/-- `path` as seen from `base`; an absolute path stands for itself. -/
def join (base path : String) : String :=
  if isAbsolute path || base.isEmpty then path
  else if base.toList.getLast? == some '/' then base ++ path
  else base ++ "/" ++ path

/-- The names of a path, in order; slashes in a row count as one. -/
def names (path : String) : List String := (splitText '/' path).filter (!·.isEmpty)

/-- A reversed path without slashes and single dots at its end. -/
def trimEnd : List Char → List Char
  | '/' :: c :: rest => trimEnd (c :: rest)
  | '.' :: '/' :: rest => trimEnd ('/' :: rest)
  | cs => cs

/-- The path without its last name; the root and the empty path have none. -/
def parent? (path : String) : Option String :=
  match trimEnd path.toList.reverse with
  | [] => none
  | ['/'] => none
  | cs => some (String.ofList (trimEnd (cs.dropWhile (· ≠ '/'))).reverse)

/-- The parent, its parent and so on; `fuel` bounds their number. -/
def parents : Nat → String → List String
  | 0, _ => []
  | fuel + 1, path =>
    match parent? path with
    | some p => if p.isEmpty then [] else p :: parents fuel p
    | none => []

/-- The path and the directories that it leads through, innermost first. -/
def ancestors (path : String) : List String :=
  if path.isEmpty then [] else path :: parents path.length path

end Pedalboard.Path
