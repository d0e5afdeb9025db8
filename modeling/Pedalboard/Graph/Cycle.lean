import Pedalboard.Graph.Node

/-!
# Cycles

`hasCycle` tells whether edges close a directed cycle over a list of node ids. Edges with an
unknown endpoint are ignored; an edge from a node to itself is a cycle.

**The sweep** (`Sweep`). A node without incoming edges lies on no cycle, and neither do its
outgoing edges. The sweep keeps the number of incoming edges of every node and a stack of nodes
that have none left; it takes a node off the stack, discounts its outgoing edges, and pushes the
nodes that have become free. The nodes that it never reaches are those on or behind a cycle.

**Repeated ids.** An id stands for the last node that carries it; earlier ones have no edges.
-/

namespace Pedalboard

/-- The position of the last occurrence of an id. -/
def lastIndex? (ids : List String) (id : String) : Option Nat :=
  match ids with
  | [] => none
  | head :: rest =>
    match lastIndex? rest id with
    | some i => some (i + 1)
    | none => if head = id then some 0 else none

/-- The edges between known nodes, as pairs of positions. -/
def resolveEdges (ids : List String) (edges : List Edge) : List (Nat × Nat) :=
  edges.filterMap fun e => do
    let source ← lastIndex? ids e.source
    let target ← lastIndex? ids e.target
    some (source, target)

/-- Progress of a sweep over a graph. -/
structure Sweep where
  /-- Incoming edges not yet discounted, by node. -/
  degrees : List Nat
  /-- Nodes with none, waiting to be taken. -/
  free : List Nat
  /-- Nodes taken so far. -/
  taken : Nat
deriving Repr

namespace Sweep

def start (size : Nat) (edges : List (Nat × Nat)) : Sweep :=
  let degrees := (List.range size).map fun i => edges.countP (·.2 = i)
  { degrees
    free := ((List.range size).filter fun i => degrees[i]?.getD 0 = 0).reverse
    taken := 0 }

/-- Discounts one edge into a node, which becomes free with its last edge. -/
def discount (s : Sweep) (target : Nat) : Sweep :=
  let left := s.degrees[target]?.getD 0 - 1
  { s with
    degrees := s.degrees.set target left
    free := if left = 0 then target :: s.free else s.free }

/-- Takes one free node. -/
def step (edges : List (Nat × Nat)) (s : Sweep) : Sweep :=
  match s.free with
  | [] => s
  | i :: rest =>
    ((edges.filter (·.1 = i)).map (·.2)).foldl discount { s with free := rest, taken := s.taken + 1 }

/-- Takes free nodes until none is left; a node is taken once, so their number bounds the steps. -/
def run (edges : List (Nat × Nat)) : Nat → Sweep → Sweep
  | 0, s => s
  | fuel + 1, s => run edges fuel (s.step edges)

end Sweep

/-- Whether the edges between the listed ids contain a directed cycle. -/
def hasCycle (ids : List String) (edges : List Edge) : Bool :=
  let pairs := resolveEdges ids edges
  let size := ids.length
  ((Sweep.start size pairs).run pairs size).taken != size

end Pedalboard
