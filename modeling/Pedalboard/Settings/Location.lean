import Pedalboard.Settings.Basic
import Pedalboard.Store.Basic

/-!
# Where settings are kept

**Locations.** The program has a directory of its own in the user's directory for configurations,
and the settings file and the state are kept there unless the user chose other places. Without a
directory for configurations the current one is used.

**Files.** A settings file that is not there stands for the defaults. Saving creates the directory
of the file.
-/

namespace Pedalboard

/-- The user's directory for configurations, if there is one. -/
abbrev ConfigHome := Option String

namespace ConfigHome

/-- The directory of the program. -/
def userDir (home : ConfigHome) : String := Path.join (home.getD ".") "fxgraph"

/-- The settings file. -/
def settingsFile (home : ConfigHome) : String := Path.join (userDir home) "settings.toml"

/-- The directory for state, unless the user chose one. -/
def stateDir (home : ConfigHome) : String := Path.join (userDir home) "state"

/-- Makes the directory of the program if nothing stands there, and answers it. -/
def ensureUserDir {m : Type → Type} [Monad m] [Files m] (home : ConfigHome) :
    ExceptT StoreError m String := do
  Store.prepareDirectory (userDir home)
  return userDir home

end ConfigHome

namespace Settings

/-- The directory in which state is kept. -/
def storeDir (s : Settings) (home : ConfigHome) : String := s.stateDir.getD (ConfigHome.stateDir home)

variable {m : Type → Type} [Monad m] [Files m]

def load (path : String) : ExceptT StoreError m Settings := do
  match ← (Files.read path : m _) with
  | .ok text => ExceptT.mk (pure (parse text))
  | .error .notFound => return {}
  | .error e => throw (.file .read path e)

def save (s : Settings) (path : String) : ExceptT StoreError m Unit := do
  match Path.parent? path with
  | some dir => if !dir.isEmpty then Store.prepareDirectory dir
  | none => pure ()
  let text ← ExceptT.mk (pure s.print)
  Store.accessing .write path (Files.write path text)

end Settings

end Pedalboard
