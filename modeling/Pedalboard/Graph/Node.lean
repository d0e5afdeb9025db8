import Pedalboard.Decimal.Basic
import Pedalboard.Graph.Kind
import Pedalboard.Keyed

/-!
# Nodes and edges

**Nodes.** An id, a kind, a place on the canvas, a bypass switch and the values of controls that
have been set. Controls are an open record: keys that no kind knows are kept.

**Edges.** An ordered pair of node ids (`Edge`), and such a pair as a graph stores it, with an id of
its own (`LabelledEdge`). Edges are told apart by their ends. The id is for display only, since two
pairs can share the one that is made from their ends when node ids contain `-`.

**Numbered ids.** Ids that the editor makes up are `fx-1`, `fx-2`, …; `serialOf?` recognises them.
-/

namespace Pedalboard

/-- The fixed id of the input anchor. -/
def inputId : String := "input"

/-- The fixed id of the output anchor. -/
def outputId : String := "output"

def isAnchorId (id : String) : Bool := id == inputId || id == outputId

structure Node where
  id : String
  kind : Kind
  x : Single
  y : Single
  bypass : Bool := false
  params : Keyed Single := .empty
deriving DecidableEq, Inhabited

namespace Node

def isAnchor (n : Node) : Bool := n.kind.isAnchor

/-- The value set for a control. -/
def param? (n : Node) (key : String) : Option Single := n.params.get? key

/-- Equality with numbers compared as values, so that `0` equals `-0` and a NaN differs from itself. -/
def ieeeEq (a b : Node) : Bool :=
  a.id == b.id && a.kind == b.kind && a.x.ieeeEq b.x && a.y.ieeeEq b.y && a.bypass == b.bypass &&
    a.params.entries.map (·.1) == b.params.entries.map (·.1) &&
    (a.params.entries.zip b.params.entries).all fun (p, q) => p.2.ieeeEq q.2

end Node

structure Edge where
  source : String
  target : String
deriving DecidableEq, Repr, Inhabited

namespace Edge

/-- The id that is made from the ends. -/
def label (e : Edge) : String := "edge-" ++ e.source ++ "-" ++ e.target

def connects (e : Edge) (source target : String) : Bool := e.source == source && e.target == target

def touches (e : Edge) (id : String) : Bool := e.source == id || e.target == id

end Edge

/-- An edge with an id. Nothing in the type ties the id to the ends. -/
structure LabelledEdge extends Edge where
  id : String
deriving DecidableEq, Repr

/-- A new edge, with its id made from its ends. -/
def Edge.labelled (e : Edge) : LabelledEdge := { e with id := e.label }

@[simp] theorem Edge.toEdge_labelled (e : Edge) : e.labelled.toEdge = e := rfl

@[simp] theorem Edge.id_labelled (e : Edge) : e.labelled.id = e.label := rfl

/-! ## Numbered ids -/

/-- The greatest serial. -/
def maxSerial : Nat := 0xffffffff

/-- The serial after `n`; the greatest one is its own successor. -/
def nextSerialAfter (n : Nat) : Nat := min (n + 1) maxSerial

def numberedId (serial : Nat) : String := "fx-" ++ toString serial

/-- The serial of an id made of `fx-` and decimal digits, unless it is too large. -/
def serialOf? (id : String) : Option Nat :=
  match id.toList with
  | 'f' :: 'x' :: '-' :: digits =>
    if digits ≠ [] ∧ digits.all Char.isDigit ∧ digitsValue digits ≤ maxSerial then
      some (digitsValue digits)
    else none
  | _ => none

end Pedalboard
