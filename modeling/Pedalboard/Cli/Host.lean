import Pedalboard.Settings.Location
import Pedalboard.Store.Tree

/-!
# Hosts

**Hosts** (`Host`). What a command asks of the world besides files: what stands at its input, places
for output and warnings, the time, and the user's directory for configurations.

**Worlds** (`World`). A host as a value, with a tree of files. Running a command in a world gives
the world after it.
-/

namespace Pedalboard.Cli

class Host (m : Type → Type) extends Files m where
  /-- The whole text at the input. -/
  input : m (Except FileError String)
  /-- Writes a line of output. -/
  print : String → m Unit
  /-- Writes a line beside the output. -/
  warn : String → m Unit
  /-- Milliseconds since the epoch. -/
  now : m Nat
  configHome : m ConfigHome

structure World where
  tree : Tree
  input : String := ""
  now : Nat := 0
  configHome : ConfigHome := none
  /-- Lines of output, the latest first. -/
  printed : List String := []
  /-- Lines beside the output, the latest first. -/
  warned : List String := []

namespace World

/-- Lines as a text, each ended. -/
def textOf (lines : List String) : String := String.join (lines.reverse.map (· ++ "\n"))

def output (w : World) : String := textOf w.printed

def warnings (w : World) : String := textOf w.warned

/-- Does something to the tree of a world. -/
def onTree {α : Type} (f : StateM Tree α) : StateM World α := fun w =>
  let (a, tree) := f.run w.tree
  (a, { w with tree })

instance : Host (StateM World) where
  read path := onTree (Files.read path)
  write path content := onTree (Files.write path content)
  remove path := onTree (Files.remove path)
  makeDirectory path := onTree (Files.makeDirectory path)
  isDirectory path := onTree (Files.isDirectory path)
  present path := onTree (Files.present path)
  input := return .ok (← getThe World).input
  print line := modifyThe World fun w => { w with printed := line :: w.printed }
  warn line := modifyThe World fun w => { w with warned := line :: w.warned }
  now := return (← getThe World).now
  configHome := return (← getThe World).configHome

end World

end Pedalboard.Cli
