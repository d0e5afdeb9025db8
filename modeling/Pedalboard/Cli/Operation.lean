import Pedalboard.Cli.Number
import Pedalboard.History
import Pedalboard.Text.Quoted
import Pedalboard.Text.Split

/-!
# Edit operations

**Operations** (`Operation`). What the command line can do to a history, one word each, with colons
between the parts of a word.

**Applying.** An operation is an edit of the present, or a step in the history. It reports a problem
exactly when the edit is refused, or there is nothing to undo or redo.

**Showing.** Messages name an operation by its fields, so that what was understood can be checked.
-/

namespace Pedalboard.Cli

inductive Operation
  | add (kind : Kind) (id : Option String)
  | remove (id : String)
  | move (id : String) (x y : Single)
  | connect (source target : String)
  | disconnect (source target : String)
  | set (id key : String) (value : Single)
  | bypass (id : String)
  | undo
  | redo
  | reset
deriving DecidableEq

/-- Why a word is no operation. -/
inductive OperationProblem
  | unknown (word : String)
  | unknownKind (name : String)
  | notNumber (text word : String)
deriving DecidableEq, Repr

def unknownKindMessage (name : String) : String := "unknown node kind: " ++ name

def OperationProblem.message : OperationProblem → String
  | unknown word => "invalid operation '" ++ word ++ "'"
  | unknownKind name => unknownKindMessage name
  | notNumber text word => "invalid number '" ++ text ++ "' in '" ++ word ++ "'"

/-- Why an operation had no effect. -/
inductive Rejection
  | refused (e : GraphError)
  | nothingToUndo
  | nothingToRedo
deriving DecidableEq, Repr

def Rejection.message : Rejection → String
  | refused e => e.message
  | nothingToUndo => "nothing to undo"
  | nothingToRedo => "nothing to redo"

namespace Operation

/-! ## Reading -/

def parseKind (name : String) : Except OperationProblem Kind :=
  match Kind.ofName? name with
  | some kind => .ok kind
  | none => .error (.unknownKind name)

def parseNumber (word text : String) : Except OperationProblem Single :=
  match single? text with
  | some x => .ok x
  | none => .error (.notNumber text word)

/-- The operation that a word stands for. -/
def parse (word : String) : Except OperationProblem Operation := do
  match splitText ':' word with
  | ["add", kind] => return add (← parseKind kind) none
  | ["add", kind, id] => return add (← parseKind kind) (some id)
  | ["remove", id] => return remove id
  | ["move", id, x, y] => return move id (← parseNumber word x) (← parseNumber word y)
  | ["connect", source, target] => return connect source target
  | ["disconnect", source, target] => return disconnect source target
  | ["set", id, key, value] => return set id key (← parseNumber word value)
  | ["bypass", id] => return bypass id
  | ["undo"] => return undo
  | ["redo"] => return redo
  | ["reset"] => return reset
  | _ => .error (.unknown word)

/-! ## Applying -/

/-- Where the next effect is put: effects stand in a row between the anchors. -/
def nextX (s : State) : Single := 160 + 100 * .ofNat (s.nodes.length - 2)

/-- The edit that an operation stands for, unless it is a step in the history. -/
def action? (s : State) : Operation → Option Action
  | add kind id => some (.addNode kind (nextX s) 120 id)
  | remove id => some (.removeNode id)
  | move id x y => some (.moveNode id x y)
  | connect source target => some (.connect source target)
  | disconnect source target => some (.disconnect source target)
  | set id key value => some (.setParam id key value)
  | bypass id => some (.toggleBypass id)
  | undo | redo | reset => none

/-- The history after an operation, and why it had no effect, if it had none. -/
def apply (h : History) (op : Operation) : History × Option Rejection :=
  match op.action? h.present with
  | some a =>
    let next := h.dispatch a
    (next, next.present.lastError.map .refused)
  | none =>
    match op with
    | undo => match h.undo with
      | some next => (next, none)
      | none => (h, some .nothingToUndo)
    | redo => match h.redo with
      | some next => (next, none)
      | none => (h, some .nothingToRedo)
    | _ => (h.reset, none)

/-! ## Showing -/

/-- The name of a kind in messages. -/
def kindText (kind : Kind) : String := kind.name.capitalize

def optionText : Option String → String
  | some text => "Some(" ++ quoted text ++ ")"
  | none => "None"

/-- A name with fields in braces. -/
def record (name : String) (fields : List (String × String)) : String :=
  name ++ " \x7b " ++ ", ".intercalate (fields.map fun (k, v) => k ++ ": " ++ v) ++ " \x7d"

def describe : Operation → String
  | add kind id => record "Add" [("kind", kindText kind), ("id", optionText id)]
  | remove id => "Remove(" ++ quoted id ++ ")"
  | move id x y => record "Move" [("id", quoted id), ("x", exactText x), ("y", exactText y)]
  | connect source target => record "Connect" [("from", quoted source), ("to", quoted target)]
  | disconnect source target => record "Disconnect" [("from", quoted source), ("to", quoted target)]
  | set id key value => record "Set" [("id", quoted id), ("key", quoted key), ("value", exactText value)]
  | bypass id => "Bypass(" ++ quoted id ++ ")"
  | undo => "Undo"
  | redo => "Redo"
  | reset => "Reset"

end Operation

end Pedalboard.Cli
