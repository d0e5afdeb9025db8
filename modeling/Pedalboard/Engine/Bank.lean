import Pedalboard.Engine.Runtime

/-!
# The parameter bank

Some engines take a graph only as a flat array of numbers. The bank has a fixed layout:

| index      | holds                                                     |
|------------|-----------------------------------------------------------|
| `0..6`     | parameters of the host, never written here                |
| `6..10`    | schema version, number of nodes, number of edges, whether there is an output path |
| `10..186`  | sixteen nodes of eleven: effect type, bypass, nine slots  |
| `186..314` | sixty-four edges of two: positions of source and target   |
| `314`      | revision                                                  |

**Encoding** (`encode`) writes every index after the host's, in ascending order. Places for nodes
and edges that the graph does not have get fixed values, so a graph that shrinks leaves nothing
behind.
-/

namespace Pedalboard

namespace Bank

def hostSize : Nat := 6

def headerSize : Nat := 4

def nodeStride : Nat := 2 + slotCount

def nodesStart : Nat := hostSize + headerSize

def edgeStride : Nat := 2

def edgesStart : Nat := nodesStart + nodeStride * maxPayloadNodes

def revisionIndex : Nat := edgesStart + edgeStride * maxPayloadEdges

def size : Nat := revisionIndex + 1

end Bank

/-- One number for one place of the bank. -/
structure ParamWrite where
  index : Nat
  value : Single
deriving DecidableEq

/-! ## Encoding -/

/-- What stands in place of a node that the graph does not have. -/
def unusedNode : RuntimeNode := ⟨0, true, .ofList [1]⟩

/-- What stands in place of an edge that the graph does not have. -/
def unusedEdge : RuntimeEdge := ⟨-1, -1⟩

def flag (b : Bool) : Single := if b then 1 else 0

def RuntimeNode.values (n : RuntimeNode) : List Single :=
  .ofNat n.effectType :: flag n.bypass :: n.slots.toList

def RuntimeEdge.values (e : RuntimeEdge) : List Single := [.ofInt e.source, .ofInt e.target]

def headerValues (g : RuntimeGraph) : List Single :=
  [.ofNat g.version, .ofNat (min g.nodes.length maxPayloadNodes),
    .ofNat (min g.edges.length maxPayloadEdges), flag g.hasOutputPath]

/-- The numbers of the bank after the host's, in order. -/
def bankValues (g : RuntimeGraph) (revision : Nat) : List Single :=
  headerValues g ++
  (List.range maxPayloadNodes).flatMap (fun i => (g.nodes[i]?.getD unusedNode).values) ++
  (List.range maxPayloadEdges).flatMap (fun i => (g.edges[i]?.getD unusedEdge).values) ++
  [.ofNat revision]

/-- The writes that put a graph into a bank. Nodes and edges beyond the layout are left out. -/
def encode (g : RuntimeGraph) (revision : Nat) : List ParamWrite :=
  (bankValues g revision).mapIdx fun i x => ⟨Bank.hostSize + i, x⟩

/-! ## Banks -/

/-- The whole array, the host's parameters included. -/
structure Bank where
  values : Vector Single Bank.size

/-- What a bank says about its graph. -/
structure BankHeader where
  version : Single
  nodeCount : Single
  edgeCount : Single
  hasOutputPath : Bool

namespace Bank

def empty : Bank := ⟨Vector.replicate size 0⟩

instance : Inhabited Bank := ⟨empty⟩

def get? (b : Bank) (index : Nat) : Option Single := b.values[index]?

/-- Writes one place; an index outside the bank is ignored. -/
def set (b : Bank) (index : Nat) (value : Single) : Bank := ⟨b.values.setIfInBounds index value⟩

def write (b : Bank) (w : ParamWrite) : Bank := b.set w.index w.value

def apply (b : Bank) (writes : List ParamWrite) : Bank := writes.foldl write b

/-- The numbers in `start ..< start + count`. -/
def slice (b : Bank) (start count : Nat) : List Single := (b.values.toList.drop start).take count

def header (b : Bank) : BankHeader where
  version := (b.get? hostSize).getD 0
  nodeCount := (b.get? (hostSize + 1)).getD 0
  edgeCount := (b.get? (hostSize + 2)).getD 0
  hasOutputPath := !((b.get? (hostSize + 3)).getD 0).ieeeEq 0

/-- The numbers of the `i`-th node. -/
def node? (b : Bank) (i : Nat) : Option (List Single) :=
  if i < maxPayloadNodes then some (b.slice (nodesStart + i * nodeStride) nodeStride) else none

/-- The numbers of the `i`-th edge. -/
def edge? (b : Bank) (i : Nat) : Option (List Single) :=
  if i < maxPayloadEdges then some (b.slice (edgesStart + i * edgeStride) edgeStride) else none

def revision (b : Bank) : Single := (b.get? revisionIndex).getD 0

end Bank

end Pedalboard
