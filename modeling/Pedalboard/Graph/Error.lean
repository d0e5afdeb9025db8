/-!
# Why an edit is refused

Each cause has a stable code, used on the wire and by scripts, and a short description.
-/

namespace Pedalboard

inductive GraphError
  | nodeLimitReached
  | duplicateNodeId
  | ioNodeRequired
  | nodeNotFound
  | selfEdgeForbidden
  | edgeAlreadyExists
  | cycleDetected
  | edgeNotFound
  | invalidNodeParam
deriving DecidableEq, Repr, Inhabited

namespace GraphError

def all : List GraphError :=
  [.nodeLimitReached, .duplicateNodeId, .ioNodeRequired, .nodeNotFound, .selfEdgeForbidden,
    .edgeAlreadyExists, .cycleDetected, .edgeNotFound, .invalidNodeParam]

def code : GraphError → String
  | nodeLimitReached => "ERR_NODE_LIMIT_REACHED"
  | duplicateNodeId => "ERR_DUPLICATE_NODE_ID"
  | ioNodeRequired => "ERR_IO_NODE_REQUIRED"
  | nodeNotFound => "ERR_NODE_NOT_FOUND"
  | selfEdgeForbidden => "ERR_SELF_EDGE_FORBIDDEN"
  | edgeAlreadyExists => "ERR_EDGE_ALREADY_EXISTS"
  | cycleDetected => "ERR_CYCLE_DETECTED"
  | edgeNotFound => "ERR_EDGE_NOT_FOUND"
  | invalidNodeParam => "ERR_INVALID_NODE_PARAM"

def description : GraphError → String
  | nodeLimitReached => "node limit reached"
  | duplicateNodeId => "duplicate node id"
  | ioNodeRequired => "input and output nodes are required"
  | nodeNotFound => "node not found"
  | selfEdgeForbidden => "a node cannot connect to itself"
  | edgeAlreadyExists => "edge already exists"
  | cycleDetected => "connection would create a cycle"
  | edgeNotFound => "edge not found"
  | invalidNodeParam => "parameter and position values must be finite"

def message (e : GraphError) : String := e.code ++ ": " ++ e.description

end GraphError

end Pedalboard
