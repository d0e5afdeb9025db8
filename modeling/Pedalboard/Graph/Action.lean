import Pedalboard.Graph.Node

/-!
# Edits

The closed set of edits of a graph. Selecting is navigation: it changes what is in focus and is
never recorded by a history.
-/

namespace Pedalboard

inductive Action
  /-- Adds an effect; without an id, the next numbered one is used. -/
  | addNode (kind : Kind) (x y : Single) (id : Option String)
  /-- Removes a node and the edges that touch it. -/
  | removeNode (id : String)
  | moveNode (id : String) (x y : Single)
  | connect (source target : String)
  | disconnect (source target : String)
  /-- Selects a node, or nothing. -/
  | selectNode (id : Option String)
  | setParam (id key : String) (value : Single)
  | toggleBypass (id : String)
deriving DecidableEq

namespace Action

def name : Action → String
  | addNode .. => "addNode"
  | removeNode .. => "removeNode"
  | moveNode .. => "moveNode"
  | connect .. => "connect"
  | disconnect .. => "disconnect"
  | selectNode .. => "selectNode"
  | setParam .. => "updateNodeParam"
  | toggleBypass .. => "toggleNodeBypass"

def isNavigation : Action → Bool
  | selectNode .. => true
  | _ => false

end Action

end Pedalboard
