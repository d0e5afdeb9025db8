import Pedalboard.Graph.Cycle
import Pedalboard.Graph.Error

/-!
# Graph states

**States.** A graph with its selection, its limits, the serial of the next numbered id, and the
cause for which the last edit was refused. Edges are stored with their ids; `State.edges` forgets
the ids. States are values; `Pedalboard.Graph.Reducer` makes new ones from old ones.

**Building one.** `State.initial` is the board that passes its input through.
`State.ofLabelledParts` accepts arbitrary parts exactly when they form a graph that editing could
have made, and names the first reason when they do not. Edges that it accepts are made anew, so the
ids they came with are lost.
-/

namespace Pedalboard

/-- The least node limit, used when none is chosen. -/
def minNodeLimit : Nat := 8

/-- The greatest node limit. -/
def maxNodeLimit : Nat := 16

def clampNodeLimit (limit : Nat) : Nat := max minNodeLimit (min limit maxNodeLimit)

structure State where
  nodes : List Node
  /-- The edges with their ids. -/
  labelled : List LabelledEdge
  selected : Option String
  nodeLimit : Nat
  nextSerial : Nat
  lastError : Option GraphError
deriving DecidableEq

namespace State

/-- Both anchors and an edge that passes the input through. -/
def initial (nodeLimit : Nat) : State where
  nodes := [{ id := inputId, kind := .input, x := 80, y := 120 },
    { id := outputId, kind := .output, x := 460, y := 120 }]
  labelled := [Edge.labelled ⟨inputId, outputId⟩]
  selected := none
  nodeLimit := clampNodeLimit nodeLimit
  nextSerial := 1
  lastError := none

instance : Inhabited State := ⟨initial minNodeLimit⟩

/-! ## Queries -/

def ids (s : State) : List String := s.nodes.map (·.id)

/-- The ends of the edges. -/
def edges (s : State) : List Edge := s.labelled.map (·.toEdge)

def node? (s : State) (id : String) : Option Node := s.nodes.find? (·.id = id)

def contains (s : State) (id : String) : Bool := s.nodes.any (·.id = id)

def hasEdge (s : State) (source target : String) : Bool :=
  s.labelled.any (·.connects source target)

def selectedNode? (s : State) : Option Node := s.selected.bind s.node?

/-- No further node fits. -/
def isFull (s : State) : Bool := s.nodeLimit ≤ s.nodes.length

def withoutError (s : State) : State := { s with lastError := none }

def withError (s : State) (e : GraphError) : State := { s with lastError := some e }

/-- Everything but the error agrees, numbers compared as values. -/
def sameGraph (s t : State) : Bool :=
  s.nodes.length == t.nodes.length && (s.nodes.zip t.nodes).all (fun (a, b) => a.ieeeEq b) &&
    s.labelled == t.labelled && s.selected == t.selected && s.nodeLimit == t.nodeLimit &&
    s.nextSerial == t.nextSerial

/-! ## States from parts -/

def hasDuplicate : List String → Bool
  | [] => false
  | id :: rest => rest.contains id || hasDuplicate rest

/-- Exactly one node has the kind of an anchor, and it carries the anchor's id. -/
def anchorPresent (nodes : List Node) (kind : Kind) (id : String) : Bool :=
  match nodes.filter (·.kind = kind) with
  | [n] => n.id = id
  | _ => false

/-- The first thing wrong with one of the edges, each looked at with those before it. -/
def edgeProblem? (ids : List String) (earlier : List Edge) : List Edge → Option GraphError
  | [] => none
  | e :: rest =>
    if e.source = e.target then some .selfEdgeForbidden
    else if !ids.contains e.source || !ids.contains e.target then some .nodeNotFound
    else if earlier.contains e then some .edgeAlreadyExists
    else edgeProblem? ids (e :: earlier) rest

/-- The first thing wrong with the parts of a graph. -/
def partsProblem? (nodes : List Node) (edges : List Edge) : Option GraphError :=
  let ids := nodes.map (·.id)
  if maxNodeLimit < nodes.length then some .nodeLimitReached
  else if hasDuplicate ids then some .duplicateNodeId
  else if !anchorPresent nodes .input inputId || !anchorPresent nodes .output outputId then
    some .ioNodeRequired
  else match edgeProblem? ids [] edges with
    | some e => some e
    | none => if hasCycle ids edges then some .cycleDetected else none

/-- The serial after the greatest one in use, and `1` if none is. -/
def resumeSerial (ids : List String) : Nat :=
  match (ids.filterMap serialOf?).max? with
  | some n => nextSerialAfter n
  | none => 1

/-- A state with the given parts. Each edge is made anew from its ends, whatever id it came with. The
limit is raised to fit the nodes, and a selection that names no node is dropped. -/
def ofLabelledParts (nodes : List Node) (edges : List LabelledEdge) (selected : Option String)
    (nodeLimit : Nat) : Except GraphError State :=
  match partsProblem? nodes (edges.map (·.toEdge)) with
  | some e => .error e
  | none => .ok {
      nodes
      labelled := edges.map fun e => e.toEdge.labelled
      selected := selected.filter fun id => nodes.any (·.id = id)
      nodeLimit := max (clampNodeLimit nodeLimit) nodes.length
      nextSerial := resumeSerial (nodes.map (·.id))
      lastError := none }

/-- A state with the given parts, where the edges are new. -/
def ofParts (nodes : List Node) (edges : List Edge) (selected : Option String) (nodeLimit : Nat) :
    Except GraphError State :=
  ofLabelledParts nodes (edges.map Edge.labelled) selected nodeLimit

end State

end Pedalboard
