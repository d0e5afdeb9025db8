import Mathlib
import Pedalboard.Proofs.Graph.Fresh

/-!
# States from parts

**Accepted parts** (`State.exists_ofLabelledParts_iff`). Nodes and edges make a state exactly when no
rule of a graph is broken, and `State.partsProblem?_eq_none_iff` says what these rules are.

**What becomes of the parts** (`State.ofLabelledParts_eq_ok`). Nodes and the ends of edges stay as
they are, a selection that names no node is dropped, the limit is raised to fit, and numbering goes
on after the serials in use.

**Ids of edges** (`State.ofLabelledParts_eq_ofParts`). The ids that edges come with are never looked
at: the state is the one of new edges with the same ends.

**Theorem (`labelled_parts_law`).** All of this, in terms of the parts alone.
-/

namespace Pedalboard

open Relation

namespace State

variable {nodes : List Node} {selected : Option String} {limit : Nat}

/-- **The ids that edges come with do not matter.** -/
theorem ofLabelledParts_eq_ofParts (nodes : List Node) (edges : List LabelledEdge)
    (selected : Option String) (limit : Nat) :
    ofLabelledParts nodes edges selected limit =
      ofParts nodes (edges.map (·.toEdge)) selected limit := by
  rw [ofParts, ofLabelledParts, ofLabelledParts, map_toEdge_map_labelled, List.map_map, List.map_map]
  rfl

/-- Parts are accepted if nothing is wrong with nodes and edges, whatever the ids of the edges, the
selection and the limit. -/
theorem exists_ofLabelledParts_iff {edges : List LabelledEdge} :
    (∃ s, ofLabelledParts nodes edges selected limit = .ok s) ↔
      partsProblem? nodes (edges.map (·.toEdge)) = none := by
  simp only [ofLabelledParts_eq_ok, exists_and_left, exists_eq, and_true]

/-- A selection is kept if it names a node. -/
theorem filter_selected_eq_some {id : String} :
    selected.filter (fun id => nodes.any (·.id = id)) = some id ↔
      selected = some id ∧ ∃ n ∈ nodes, n.id = id := by
  simp [Option.filter_eq_some_iff, List.any_eq]

/-- **Exactly the parts of a graph are accepted**, and kept. Whatever nodes, labelled edges, selection
and limit are given, they make a state if and only if there are at most 16 nodes with different ids,
one input and one output under their own ids, and edges that join different nodes, each pair once,
and close no cycle. Nodes and the ends of edges stand in the state as they were given. Every edge
gets the id made from its ends, whatever id it came with; a selection is kept if it names a node;
the limit fits the nodes; and the next serial is greater than those in use. Other ids of the given
edges would change neither the state nor the cause for which parts are refused. -/
theorem labelled_parts_law (nodes : List Node) (edges : List LabelledEdge)
    (selected : Option String) (limit : Nat) :
    ((∃ s, ofLabelledParts nodes edges selected limit = .ok s) ↔
      nodes.length ≤ 16 ∧ (nodes.map (·.id)).Nodup ∧
      (∃ n, nodes.filter (·.kind = .input) = [n] ∧ n.id = "input") ∧
      (∃ n, nodes.filter (·.kind = .output) = [n] ∧ n.id = "output") ∧
      (∀ e ∈ edges, e.source ≠ e.target ∧ (∃ n ∈ nodes, n.id = e.source) ∧
        ∃ n ∈ nodes, n.id = e.target) ∧
      (edges.map fun e => (e.source, e.target)).Nodup ∧
      ∀ a, ¬TransGen (fun a b => ∃ e ∈ edges, e.source = a ∧ e.target = b) a a) ∧
    (∀ s, ofLabelledParts nodes edges selected limit = .ok s →
      s.nodes = nodes ∧
      (s.labelled.map fun e => (e.id, e.source, e.target)) =
        (edges.map fun e => ("edge-" ++ e.source ++ "-" ++ e.target, e.source, e.target)) ∧
      (∀ id, s.selected = some id ↔ selected = some id ∧ ∃ n ∈ nodes, n.id = id) ∧
      s.nodeLimit = max (clampNodeLimit limit) nodes.length ∧
      s.lastError = none ∧
      ∀ n ∈ nodes, ∀ digits, n.id.toList = 'f' :: 'x' :: '-' :: digits → digits ≠ [] →
        (∀ c ∈ digits, c.isDigit) → digitsValue digits < 2 ^ 32 - 1 →
          digitsValue digits < s.nextSerial) ∧
    ∀ others : List LabelledEdge, others.map (·.toEdge) = edges.map (·.toEdge) →
      ofLabelledParts nodes others selected limit = ofLabelledParts nodes edges selected limit := by
  refine ⟨?_, ?_, fun others hends => ?_⟩
  · rw [exists_ofLabelledParts_iff, partsProblem?_eq_none_iff, nodup_pairs_iff, Acyclic,
      linked_map_toEdge, List.map_eq_singleton_iff, List.map_eq_singleton_iff, List.forall_mem_map]
    simp only [List.mem_map, maxNodeLimit, inputId, outputId]
  · intro s hs
    obtain ⟨-, rfl⟩ := ofLabelledParts_eq_ok.1 hs
    refine ⟨rfl, by simp [Edge.label], fun id => filter_selected_eq_some, rfl, rfl, ?_⟩
    intro n hn digits hid hne hdigits hlt
    exact lt_resumeSerial (List.mem_map.2 ⟨n, hn, rfl⟩)
      (serialOf?_of_digits hid hne hdigits (le_of_lt hlt)) hlt
  · rw [ofLabelledParts_eq_ofParts, ofLabelledParts_eq_ofParts, hends]

/-- Nodes in no order, one of them with leading zeros in a numbered id. -/
def zeroPaddedNodes : List Node :=
  [{ id := "fx-007", kind := .delay, x := 0, y := 0 },
    { id := "output", kind := .output, x := 0, y := 0 },
    { id := "input", kind := .input, x := 0, y := 0 }]

/-- An edge with the id of another. -/
def mislabelledEdges : List LabelledEdge :=
  [{ source := "input", target := "fx-007", id := "edge-input-output" }]

theorem labelled_parts_law_mislabelled :
    ∃ s, ofLabelledParts zeroPaddedNodes mislabelledEdges (some "fx-7") 99 = .ok s ∧
      s.labelled.map (·.id) = ["edge-input-fx-007"] ∧ s.selected ≠ some "fx-7" ∧
      s.nodeLimit = 16 ∧ 7 < s.nextSerial := by
  obtain ⟨s, hs⟩ : ∃ s, ofLabelledParts zeroPaddedNodes mislabelledEdges (some "fx-7") 99 = .ok s :=
    exists_ofLabelledParts_iff.2 (by decide)
  obtain ⟨-, hkept, -⟩ := labelled_parts_law _ _ _ _
  obtain ⟨-, hedges, hselected, hlimit, -, hserial⟩ := hkept s hs
  refine ⟨s, hs, ?_, ?_, hlimit, ?_⟩
  · have hlabels := congrArg (List.map Prod.fst) hedges
    simpa [mislabelledEdges] using hlabels
  · rw [ne_eq, hselected]
    simp [zeroPaddedNodes]
  · exact hserial _ List.mem_cons_self ['0', '0', '7'] (by decide) (by decide) (by simp) (by decide)

end State

end Pedalboard
