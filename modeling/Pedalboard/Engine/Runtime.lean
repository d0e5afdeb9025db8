import Pedalboard.Engine.Slots
import Pedalboard.Wire.Codec

/-!
# Compiled graphs

**Compiling** (`compile`). A payload becomes lists of nodes and edges in which an edge names its
ends by position. Nodes and edges keep their order, so positions are stable for a given payload.
An id stands for the last node that carries it, and an edge with an unknown end is dropped.

**Output path.** Whether the output anchor can be reached from the input anchor along edges. It is
decided on ids: `reach` grows the list of reached ids one at a time, first found first followed.
-/

namespace Pedalboard

/-- A node as the engine knows it. -/
structure RuntimeNode where
  effectType : Nat
  bypass : Bool
  slots : Slots
deriving DecidableEq

structure RuntimeEdge where
  source : Int
  target : Int
deriving DecidableEq, Repr

structure RuntimeGraph where
  version : Nat
  hasOutputPath : Bool
  nodes : List RuntimeNode
  edges : List RuntimeEdge
deriving DecidableEq

namespace RuntimeNode

/-- Anchors are always bypassed. -/
def ofNode (n : Node) : RuntimeNode where
  effectType := n.kind.effectType
  bypass := n.kind.isAnchor || n.bypass
  slots := .ofParams n.kind n.params

end RuntimeNode

/-! ## Output path -/

/-- The ids that edges lead to from an id, in the order of the edges. -/
def successors (edges : List Edge) (id : String) : List String :=
  (edges.filter (·.source = id)).map (·.target)

/-- Adds ids that are not yet reached to those reached and to those waiting. -/
def visit (reached waiting : List String) : List String → List String × List String
  | [] => (reached, waiting)
  | id :: rest =>
    if reached.contains id then visit reached waiting rest
    else visit (id :: reached) (waiting ++ [id]) rest

/-- Every id reached from those waiting; each is followed once, so the number of edges bounds the
steps. -/
def reach (edges : List Edge) : Nat → List String → List String → List String
  | _, reached, [] => reached
  | 0, reached, _ => reached
  | fuel + 1, reached, id :: waiting =>
    let (reached, waiting) := visit reached waiting (successors edges id)
    reach edges fuel reached waiting

/-- The ids reached from the input anchor; none if there is no such node. -/
def reachedFromInput (p : Payload) : List String :=
  if (p.node? inputId).isNone then []
  else reach p.edges (p.edges.length + 1) [inputId] [inputId]

/-! ## Compiling -/

/-- The edge between positions, if both ends are known. -/
def RuntimeEdge.ofEdge? (ids : List String) (e : Edge) : Option RuntimeEdge := do
  let source ← lastIndex? ids e.source
  let target ← lastIndex? ids e.target
  some { source, target }

def compile (p : Payload) : RuntimeGraph where
  version := p.version
  hasOutputPath := (reachedFromInput p).contains outputId
  nodes := p.nodes.map .ofNode
  edges := p.edges.filterMap (RuntimeEdge.ofEdge? (p.nodes.map (·.id)))

/-! ## As JSON -/

namespace RuntimeNode

def toJson (n : RuntimeNode) : Json :=
  .object <| ("effectType", .natural n.effectType) :: ("bypass", .bool n.bypass) ::
    n.slots.toList.mapIdx fun i x => ("p" ++ toString (i + 1), .single x)

end RuntimeNode

def RuntimeEdge.toJson (e : RuntimeEdge) : Json :=
  .object [("fromIndex", .number (.integer e.source)), ("toIndex", .number (.integer e.target))]

namespace RuntimeGraph

def nodesJson (g : RuntimeGraph) : Json := .array (g.nodes.map RuntimeNode.toJson)

def edgesJson (g : RuntimeGraph) : Json := .array (g.edges.map RuntimeEdge.toJson)

def toJson (g : RuntimeGraph) : Json :=
  .object [("schemaVersion", .natural g.version), ("hasOutputPath", .bool g.hasOutputPath),
    ("nodes", g.nodesJson), ("edges", g.edgesJson)]

end RuntimeGraph

end Pedalboard
