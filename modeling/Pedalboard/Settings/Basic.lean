import Pedalboard.History
import Pedalboard.Store.Error
import Pedalboard.Toml.Parser

/-!
# Settings

**Settings** (`Settings`). The limits of the editor and, if the user chose one, the directory in
which state is kept.

**As text.** A settings file is a TOML document. Whatever is missing from it has its default, and
what is not known is ignored. Limits that are read are clamped; limits that are written are not,
but they have to fit a TOML integer.
-/

namespace Pedalboard

structure Settings where
  nodeLimit : Nat := minNodeLimit
  historyLimit : Nat := defaultHistoryLimit
  stateDir : Option String := none
deriving DecidableEq, Repr, Inhabited

namespace Settings

/-- Limits brought into the ranges that the editor accepts. -/
def clamped (s : Settings) : Settings :=
  { s with nodeLimit := clampNodeLimit s.nodeLimit, historyLimit := max s.historyLimit 1 }

/-- A history of the initial board within the limits. -/
def newHistory (s : Settings) : History := .new (State.initial s.nodeLimit) s.historyLimit

/-! ## Reading -/

/-- The limit under a key; it is missing, or an integer that is not negative. -/
def limitField (fields : List (String × Toml.Value)) (key : String) (missing : Nat) : Option Nat :=
  match fields.lookup key with
  | none => some missing
  | some (.integer n) => if 0 ≤ n then some n.toNat else none
  | some _ => none

/-- The directory under a key; it is missing, or a string. -/
def pathField (fields : List (String × Toml.Value)) (key : String) : Option (Option String) :=
  match fields.lookup key with
  | none => some none
  | some (.string path) => some (some path)
  | some _ => none

def ofFields? (fields : List (String × Toml.Value)) : Option Settings := do
  let defaults : Settings := {}
  return { nodeLimit := ← limitField fields "node_limit" defaults.nodeLimit
           historyLimit := ← limitField fields "history_limit" defaults.historyLimit
           stateDir := ← pathField fields "state_dir" }

/-- The settings in a text, clamped. -/
def parse (text : String) : Except StoreError Settings :=
  match (Toml.parse? text).bind ofFields? with
  | some s => .ok s.clamped
  | none => .error .notSettings

/-! ## Writing -/

def line (key : String) (value : List Char) : List Char := key.toList ++ [' ', '=', ' '] ++ value ++ ['\n']

def lines (s : Settings) : List Char :=
  line "node_limit" (Nat.toDigits 10 s.nodeLimit) ++
    line "history_limit" (Nat.toDigits 10 s.historyLimit) ++
    match s.stateDir with
    | some path => line "state_dir" (Toml.quote path.toList)
    | none => []

/-- The settings as a text, unless a limit does not fit. -/
def print (s : Settings) : Except StoreError String :=
  if integerBound ≤ s.nodeLimit ∨ integerBound ≤ s.historyLimit then .error .integerTooLarge
  else .ok (String.ofList s.lines)

end Settings

end Pedalboard
