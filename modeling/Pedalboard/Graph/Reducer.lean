import Pedalboard.Graph.Action
import Pedalboard.Graph.State

/-!
# Applying edits

`State.attempt` carries out an edit or names the cause for which it is refused; where several
causes apply, the one tested first is named. `State.apply` turns a refusal into the old state with
that cause as its error; nothing else changes. An edit that is carried out clears the error.
-/

namespace Pedalboard.State

def replaceNode (id : String) (edit : Node → Node) : List Node → List Node
  | [] => []
  | n :: rest => if n.id = id then edit n :: rest else n :: replaceNode id edit rest

/-- Edits the node with an id in place. -/
def editNode (s : State) (id : String) (edit : Node → Node) : State :=
  { s with nodes := replaceNode id edit s.nodes, lastError := none }

def attemptAdd (s : State) (kind : Kind) (x y : Single) (id : Option String) :
    Except GraphError State :=
  let newId := id.getD (numberedId s.nextSerial)
  if kind.isAnchor then .error .ioNodeRequired
  else if !(x.isFinite && y.isFinite) then .error .invalidNodeParam
  else if s.isFull then .error .nodeLimitReached
  else if s.contains newId then .error .duplicateNodeId
  else .ok { s with
    nodes := s.nodes ++ [{ id := newId, kind, x, y }]
    nextSerial := if id.isNone then nextSerialAfter s.nextSerial else s.nextSerial
    lastError := none }

def attemptRemove (s : State) (id : String) : Except GraphError State :=
  if isAnchorId id then .error .ioNodeRequired
  else if !s.contains id then .error .nodeNotFound
  else .ok { s with
    nodes := s.nodes.filter (·.id ≠ id)
    labelled := s.labelled.filter (!·.touches id)
    selected := if s.selected = some id then none else s.selected
    lastError := none }

def attemptMove (s : State) (id : String) (x y : Single) : Except GraphError State :=
  if !s.contains id then .error .nodeNotFound
  else if !(x.isFinite && y.isFinite) then .error .invalidNodeParam
  else .ok (s.editNode id fun n => { n with x, y })

def attemptConnect (s : State) (source target : String) : Except GraphError State :=
  let labelled := s.labelled ++ [Edge.labelled ⟨source, target⟩]
  if source = target then .error .selfEdgeForbidden
  else if !s.contains source || !s.contains target then .error .nodeNotFound
  else if s.hasEdge source target then .error .edgeAlreadyExists
  else if hasCycle s.ids (labelled.map (·.toEdge)) then .error .cycleDetected
  else .ok { s with labelled, lastError := none }

def attemptDisconnect (s : State) (source target : String) : Except GraphError State :=
  if !s.hasEdge source target then .error .edgeNotFound
  else .ok { s with
    labelled := s.labelled.filter (!·.connects source target)
    lastError := none }

def attemptSelect (s : State) (id : Option String) : Except GraphError State :=
  if id.any (!s.contains ·) then .error .nodeNotFound
  else .ok { s with selected := id, lastError := none }

def attemptSetParam (s : State) (id key : String) (value : Single) : Except GraphError State :=
  if !s.contains id then .error .nodeNotFound
  else if !value.isFinite then .error .invalidNodeParam
  else .ok (s.editNode id fun n => { n with params := n.params.insert key value })

def attemptToggleBypass (s : State) (id : String) : Except GraphError State :=
  if !s.contains id then .error .nodeNotFound
  else .ok (s.editNode id fun n => { n with bypass := !n.bypass })

/-- Carries out an edit, or names the cause for which it is refused. -/
def attempt (s : State) : Action → Except GraphError State
  | .addNode kind x y id => s.attemptAdd kind x y id
  | .removeNode id => s.attemptRemove id
  | .moveNode id x y => s.attemptMove id x y
  | .connect source target => s.attemptConnect source target
  | .disconnect source target => s.attemptDisconnect source target
  | .selectNode id => s.attemptSelect id
  | .setParam id key value => s.attemptSetParam id key value
  | .toggleBypass id => s.attemptToggleBypass id

/-- The state after an edit. -/
def apply (s : State) (a : Action) : State :=
  match s.attempt a with
  | .ok next => next
  | .error e => s.withError e

/-- The state after a list of edits, refused ones included. -/
def applyAll (s : State) (actions : List Action) : State := actions.foldl apply s

end Pedalboard.State
