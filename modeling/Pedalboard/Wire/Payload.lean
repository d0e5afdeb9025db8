import Pedalboard.Graph.State
import Pedalboard.Wire.Error

/-!
# Payloads

**Payloads** (`Payload`). A graph as it travels: a schema version, nodes and edges. Selection,
limits and errors stay behind.

**Canonical order.** Nodes by id, edges by source and then target, the parameters of a node by
key. Ids are compared by code point. Equal ids keep their order.

**Validity** (`Payload.problem?`). The rules are tested in a fixed order, and the first broken one
is reported. A valid payload need not be a graph: it can have cycles, repeated ids and no anchors.
-/

namespace Pedalboard

/-- The version of the schema that is written and read. -/
def schemaVersion : Nat := 1

structure Payload where
  version : Nat := schemaVersion
  nodes : List Node
  edges : List Edge
deriving DecidableEq

/-- The order of edges: by source, then by target. -/
def Edge.le (a b : Edge) : Bool :=
  a.source < b.source || (a.source == b.source && a.target ≤ b.target)

namespace Payload

def sortNodes (nodes : List Node) : List Node := nodes.mergeSort fun a b => a.id ≤ b.id

def sortEdges (edges : List Edge) : List Edge := edges.mergeSort Edge.le

/-- The payload in canonical order. -/
def sort (p : Payload) : Payload :=
  { p with nodes := sortNodes p.nodes, edges := sortEdges p.edges }

def node? (p : Payload) (id : String) : Option Node := p.nodes.find? (·.id = id)

/-- The coordinate or parameter of a node that is not finite. -/
def nonFinite? (n : Node) : Option String :=
  if !n.x.isFinite then some "x"
  else if !n.y.isFinite then some "y"
  else (n.params.entries.find? (!·.2.isFinite)).map (·.1)

/-- The first rule that a payload breaks. -/
def problem? (p : Payload) : Option WireError :=
  let ids := p.nodes.map (·.id)
  if p.version ≠ schemaVersion then some (.unsupportedVersion (toString p.version))
  else if p.nodes.length = 0 ∨ maxPayloadNodes < p.nodes.length then
    some (.nodeLimitReached p.nodes.length)
  else if maxPayloadEdges < p.edges.length then some (.edgeLimitReached p.edges.length)
  else (p.nodes.findSome? fun n => (nonFinite? n).map (.invalidParam n.id)).or
    (p.edges.findSome? fun e =>
      if ids.contains e.source && ids.contains e.target then none
      else some (.endpointMissing e.source e.target))

def validate (p : Payload) : Except WireError Unit :=
  match p.problem? with
  | some e => .error e
  | none => .ok ()

/-- The payload of a state: its graph in canonical order, if that is valid. -/
def normalize (s : State) : Except WireError Payload := do
  let p := sort { nodes := s.nodes, edges := s.edges }
  p.validate
  return p

/-- The state of a payload that is valid and forms a graph. Nothing is selected, numbered ids go
on after the greatest in use, and the limit is raised to fit. -/
def hydrate (p : Payload) (nodeLimit : Nat) : Except WireError State := do
  p.validate
  (State.ofParts p.nodes p.edges none nodeLimit).mapError .invalidGraph

end Payload

end Pedalboard
