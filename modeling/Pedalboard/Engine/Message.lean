import Pedalboard.Engine.Runtime

/-!
# Engine messages

Engines with a message channel take a compiled graph as one JSON message, tagged with its type and
the revision of the graph.
-/

namespace Pedalboard

/-- The tag of a message that carries a graph. -/
def applyRuntimeGraph : String := "applyRuntimeGraph"

/-- The message that carries a compiled graph. -/
def RuntimeGraph.message (g : RuntimeGraph) (revision : Nat) : Json :=
  .object [("type", .string applyRuntimeGraph), ("schemaVersion", .natural g.version),
    ("hasOutputPath", .bool g.hasOutputPath), ("nodes", g.nodesJson), ("edges", g.edgesJson),
    ("revision", .natural revision)]

/-- The text of the message for the graph that a payload text describes. -/
def messageText (text : String) (revision : Nat) : Except WireError String :=
  (Payload.deserialize text).map fun p => ((compile p).message revision).compact

end Pedalboard
