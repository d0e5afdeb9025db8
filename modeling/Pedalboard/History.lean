import Pedalboard.Graph.Reducer

/-!
# Undo and redo

**Histories.** A present state between two stacks: `past` with the most recent state first, and
`future` with the next state first. Neither holds more than `limit` states, and no stacked state
carries an error.

**Recording.** A tracked edit that is carried out and changes the graph pushes the old present and
empties the future. Refused edits, untracked edits and navigation replace the present only.
Resetting records; replacing the state records when it is tracked, and empties the future either
way.
-/

namespace Pedalboard

/-- The depth of the stacks when none is chosen. -/
def defaultHistoryLimit : Nat := 200

structure History where
  past : List State
  present : State
  future : List State
  limit : Nat

/-- A command to a history. -/
inductive Command
  | edit (action : Action) (tracked : Bool)
  | undo
  | redo
  | reset
  | replace (state : State) (tracked : Bool)

namespace History

/-- A history with empty stacks; the depth is at least `1`. -/
def new (initial : State) (limit : Nat) : History :=
  { past := [], present := initial.withoutError, future := [], limit := max limit 1 }

def canUndo (h : History) : Bool := !h.past.isEmpty

def canRedo (h : History) : Bool := !h.future.isEmpty

/-- Puts a state on top of the past; the oldest one gives way when there is no room. -/
def push (h : History) (s : State) : List State := (s.withoutError :: h.past).take h.limit

def undo (h : History) : Option History :=
  match h.past with
  | [] => none
  | previous :: rest => some { h with
      past := rest
      present := previous
      future := (h.present.withoutError :: h.future).take h.limit }

def redo (h : History) : Option History :=
  match h.future with
  | [] => none
  | next :: rest => some { h with past := h.push h.present, present := next, future := rest }

/-- Makes `next` the present and records the old one. -/
def record (h : History) (next : State) : History :=
  { h with past := h.push h.present, present := next, future := [] }

/-- Applies an edit, recording it if it is tracked and changes the graph. -/
def edit (h : History) (a : Action) (tracked : Bool) : History :=
  let next := h.present.apply a
  if next.lastError.isSome || !tracked || a.isNavigation then { h with present := next }
  else if next.sameGraph h.present then
    if h.present.lastError.isSome then { h with present := next } else h
  else h.record next

/-- Applies a tracked edit. -/
def dispatch (h : History) (a : Action) : History := h.edit a true

/-- Starts over from the initial board, with the same node limit. -/
def reset (h : History) : History := h.record (State.initial h.present.nodeLimit)

def replace (h : History) (s : State) (tracked : Bool) : History :=
  if tracked then h.record s.withoutError
  else { h with present := s.withoutError, future := [] }

/-- Carries out a command; undoing or redoing with an empty stack does nothing. -/
def apply (h : History) : Command → History
  | .edit a tracked => h.edit a tracked
  | .undo => h.undo.getD h
  | .redo => h.redo.getD h
  | .reset => h.reset
  | .replace s tracked => h.replace s tracked

end History

end Pedalboard
