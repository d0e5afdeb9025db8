import Mathlib
import Pedalboard.Proofs.Graph.Acyclic
import Pedalboard.Proofs.Graph.Invariant

/-!
# Order does not matter to edits

**Alike states** (`State.Alike`). The same nodes, the same edges and the same limit; the orders,
the selection, the serial and the error may differ.

**Theorem (`Alike.apply`).** An edit that does not ask for a numbered id is refused by both of two
alike states for the same cause, or carried out by both, and then the next states are alike.

Every test an edit makes, for an id, an edge, room or a cycle, is a question about which nodes and
edges there are. Editing a node in place changes the node of an id wherever it stands, because ids
are unique.
-/

namespace Pedalboard

/-- The edit does not ask for a numbered id. -/
def Action.Explicit (a : Action) : Prop := ∀ kind x y, a ≠ .addNode kind x y none

instance : DecidablePred Action.Explicit := fun a =>
  match a with
  | .addNode kind x y none => isFalse fun h => h kind x y rfl
  | .addNode _ _ _ (some _) | .removeNode _ | .moveNode .. | .connect .. | .disconnect ..
  | .selectNode _ | .setParam .. | .toggleBypass _ => isTrue (by simp [Action.Explicit])

theorem hasCycle_eq_of_perm {ids ids' : List String} {edges edges' : List Edge}
    (hids : ids.Perm ids') (hedges : edges.Perm edges') :
    hasCycle ids edges = hasCycle ids' edges' := by
  have hmem : ∀ e, e ∈ known ids edges ↔ e ∈ known ids' edges' := fun e => by
    rw [mem_known, mem_known, hedges.mem_iff, hids.mem_iff, hids.mem_iff]
  rw [Bool.eq_iff_iff, ← not_iff_not, Bool.not_eq_true, Bool.not_eq_true, hasCycle_eq_false_iff,
    hasCycle_eq_false_iff]
  exact ⟨fun h => h.mono fun e he => (hmem e).2 he, fun h => h.mono fun e he => (hmem e).1 he⟩

namespace State

theorem replaceNode_eq_map {nodes : List Node} {id : String} {edit : Node → Node}
    (hids : (nodes.map (·.id)).Nodup) :
    replaceNode id edit nodes = nodes.map fun n => if n.id = id then edit n else n := by
  induction nodes with
  | nil => rfl
  | cons n rest ih =>
    obtain ⟨hn, hrest⟩ := List.nodup_cons.1 hids
    rw [replaceNode, List.map_cons]
    split
    · rename_i hid
      congr 1
      refine (List.map_id' rest).symm.trans (List.map_congr_left fun m hm => ?_)
      rw [if_neg]
      exact fun hm' => id_ne_of_notMem hn m hm (hm'.trans hid.symm)
    · rw [ih hrest]

/-! ## Alike states -/

/-- The same nodes, the same edges, the same limit. -/
structure Alike (s t : State) : Prop where
  nodes : s.nodes.Perm t.nodes
  labelled : s.labelled.Perm t.labelled
  nodeLimit : s.nodeLimit = t.nodeLimit

/-- Two outcomes of an edit: the same refusal, or alike states that show no error. -/
inductive Alike.Outcome : Except GraphError State → Except GraphError State → Prop
  | refused (e : GraphError) : Outcome (.error e) (.error e)
  | done {s t : State} : Alike s t → s.lastError = none → t.lastError = none →
      Outcome (.ok s) (.ok t)

variable {s t : State}

namespace Alike

theorem Outcome.test {c : Prop} [Decidable c] {a a' b b' : Except GraphError State}
    (ha : Outcome a a') (hb : Outcome b b') :
    Outcome (if c then a else b) (if c then a' else b') := by
  split
  · exact ha
  · exact hb

theorem ids (h : Alike s t) : s.ids.Perm t.ids := h.nodes.map _

theorem edges (h : Alike s t) : s.edges.Perm t.edges := h.labelled.map _

theorem contains_eq (h : Alike s t) (id : String) : s.contains id = t.contains id := by
  simp [h.ids.mem_iff]

theorem hasEdge_eq (h : Alike s t) (a b : String) : s.hasEdge a b = t.hasEdge a b := by
  simp [h.edges.mem_iff]

theorem isFull_eq (h : Alike s t) : s.isFull = t.isFull := by
  rw [isFull, isFull, h.nodeLimit, h.nodes.length_eq]

theorem editNode {edit : Node → Node} (h : Alike s t) (hs : s.ids.Nodup) (id : String) :
    Alike (s.editNode id edit) (t.editNode id edit) where
  nodes := by
    simp only [State.editNode, replaceNode_eq_map hs, replaceNode_eq_map (h.ids.nodup_iff.1 hs)]
    exact h.nodes.map _
  labelled := h.labelled
  nodeLimit := h.nodeLimit

/-! ## One edit -/

/-- **Alike states refuse an edit for the same cause** or both carry it out. -/
theorem attempt (h : Alike s t) (hs : s.ids.Nodup) {a : Action} (ha : a.Explicit) :
    Outcome (s.attempt a) (t.attempt a) := by
  cases a with
  | addNode kind x y id =>
    cases id with
    | none => exact absurd rfl (ha kind x y)
    | some id =>
      rw [State.attempt, State.attempt, attemptAdd, attemptAdd, h.isFull_eq]
      simp only [Option.getD_some, h.contains_eq]
      refine .test (.refused _) <| .test (.refused _) <| .test (.refused _) <|
        .test (.refused _) <| .done ⟨?_, h.labelled, h.nodeLimit⟩ rfl rfl
      exact h.nodes.append_right _
  | removeNode id =>
    rw [State.attempt, State.attempt, attemptRemove, attemptRemove, h.contains_eq]
    exact .test (.refused _) <| .test (.refused _) <|
      .done ⟨h.nodes.filter _, h.labelled.filter _, h.nodeLimit⟩ rfl rfl
  | moveNode id x y =>
    rw [State.attempt, State.attempt, attemptMove, attemptMove, h.contains_eq]
    exact .test (.refused _) <| .test (.refused _) <| .done (h.editNode hs id) rfl rfl
  | connect source target =>
    have hedges := h.labelled.append_right [Edge.labelled ⟨source, target⟩]
    rw [State.attempt, State.attempt, attemptConnect, attemptConnect]
    simp only [h.contains_eq, h.hasEdge_eq, hasCycle_eq_of_perm h.ids (hedges.map _)]
    exact .test (.refused _) <| .test (.refused _) <| .test (.refused _) <|
      .test (.refused _) <| .done ⟨h.nodes, hedges, h.nodeLimit⟩ rfl rfl
  | disconnect source target =>
    rw [State.attempt, State.attempt, attemptDisconnect, attemptDisconnect, h.hasEdge_eq]
    exact .test (.refused _) <| .done ⟨h.nodes, h.labelled.filter _, h.nodeLimit⟩ rfl rfl
  | selectNode id =>
    rw [State.attempt, State.attempt, attemptSelect, attemptSelect]
    simp only [h.contains_eq]
    exact .test (.refused _) <| .done ⟨h.nodes, h.labelled, h.nodeLimit⟩ rfl rfl
  | setParam id key value =>
    rw [State.attempt, State.attempt, attemptSetParam, attemptSetParam, h.contains_eq]
    exact .test (.refused _) <| .test (.refused _) <| .done (h.editNode hs id) rfl rfl
  | toggleBypass id =>
    rw [State.attempt, State.attempt, attemptToggleBypass, attemptToggleBypass, h.contains_eq]
    exact .test (.refused _) <| .done (h.editNode hs id) rfl rfl

/-- **Alike states stay alike** and show the same error after an edit. -/
theorem apply (h : Alike s t) (hs : s.ids.Nodup) {a : Action} (ha : a.Explicit) :
    Alike (s.apply a) (t.apply a) ∧ (s.apply a).lastError = (t.apply a).lastError := by
  have hout := h.attempt hs ha
  simp only [State.apply]
  generalize s.attempt a = left, t.attempt a = right at hout
  cases hout with
  | refused e => exact ⟨⟨h.nodes, h.labelled, h.nodeLimit⟩, rfl⟩
  | done halike hleft hright => exact ⟨halike, hleft.trans hright.symm⟩

/-! ## A list of edits -/

theorem applyAll (h : Alike s t) (hs : s.WellFormed) {actions : List Action}
    (ha : ∀ a ∈ actions, a.Explicit) : Alike (s.applyAll actions) (t.applyAll actions) := by
  induction actions generalizing s t with
  | nil => exact h
  | cons a rest ih =>
    obtain ⟨ha, hrest⟩ := List.forall_mem_cons.1 ha
    exact ih (h.apply hs.ids_nodup ha).1 (hs.apply a) hrest

end Alike

end State

end Pedalboard
