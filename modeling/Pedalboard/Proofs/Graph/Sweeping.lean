import Mathlib
import Pedalboard.Proofs.Graph.Acyclic
import Pedalboard.Proofs.Graph.Reordering

/-!
# The cycle check as a loop

**The loop** (`Sweep.Sweeps`). A sweep with no bound on its turns: as long as a node is free, one is
taken and the edges out of it are discounted, each where its target has an edge left
(`Sweep.Discounts`). `Sweep.run` has a bound on its steps and subtracts in the naturals;
`Sweep.sweeps_run` says that the loop ends before the bound does, and that no degree is ever taken
below zero. Both come from the invariant: a node is taken once, and what is yet to be discounted is
still counted.

**Theorem (`hasCycle_law`).** For any ids and edges the loop ends, and some node is left exactly when
the edges between listed ids close a cycle. The order of ids and edges makes no difference.
-/

namespace Pedalboard

open Relation

namespace Sweep

/-! ## The loop -/

/-- Edges into the given nodes are discounted one after the other, none of them from a node that has
none left. -/
inductive Discounts : List Nat → Sweep → Sweep → Prop
  | done (s : Sweep) : Discounts [] s s
  | next {s s' : Sweep} {target : Nat} {rest : List Nat} :
      0 < s.degrees[target]?.getD 0 → Discounts rest (s.discount target) s' →
      Discounts (target :: rest) s s'

/-- The loop that takes free nodes until none is left, from its start to its end. -/
inductive Sweeps (pairs : List (Nat × Nat)) : Sweep → Sweep → Prop
  | done {s : Sweep} : s.free = [] → Sweeps pairs s s
  | take {s s' final : Sweep} {i : Nat} {rest : List Nat} :
      s.free = i :: rest →
      Discounts (targets pairs i) { s with free := rest, taken := s.taken + 1 } s' →
      Sweeps pairs s' final → Sweeps pairs s final

variable {size : Nat} {pairs : List (Nat × Nat)} {done pending : List Nat} {s : Sweep}

/-- **No degree is taken below zero**: it still counts every edge that is yet to be discounted. -/
theorem discounts_foldl (h : Inv size pairs done pending s) (hlt : ∀ t ∈ pending, t < size) :
    Discounts pending s (pending.foldl discount s) := by
  induction pending generalizing s with
  | nil => exact .done s
  | cons t pending ih =>
    obtain ⟨ht, hlt⟩ := List.forall_mem_cons.1 hlt
    exact .next (h.pending_pos ht) (ih (inv_discount h ht) hlt)

/-- **The loop ends** within as many turns as there are nodes that are not taken. -/
theorem sweeps_run (h : Inv size pairs done [] s) (hlt : ∀ p ∈ pairs, p.1 < size ∧ p.2 < size)
    (fuel : Nat) (hfuel : size ≤ done.length + fuel) : Sweeps pairs s (run pairs fuel s) := by
  induction fuel generalizing s done with
  | zero =>
    have hle := h.length_le
    exact .done (List.eq_nil_of_length_eq_zero (by omega))
  | succ fuel ih =>
    cases hs : s.free with
    | nil =>
      rw [run_eq_self hs]
      exact .done hs
    | cons i rest =>
      have htake := discounts_foldl (inv_take h hs) (targets_lt hlt i)
      rw [← step_eq hs] at htake
      refine .take hs htake (ih (inv_step h hlt hs) ?_)
      rw [List.length_cons]
      omega

/-- Degrees count edges. -/
theorem degree_start_le {d : Nat} (hd : d ∈ (start size pairs).degrees) : d ≤ pairs.length := by
  obtain ⟨i, -, rfl⟩ := List.mem_map.1 hd
  exact List.countP_le_length

end Sweep

/-! ## The answer -/

theorem length_resolveEdges_le (ids : List String) (edges : List Edge) :
    (resolveEdges ids edges).length ≤ edges.length := List.length_filterMap_le _ _

/-- Ids that are joined by an edge and both listed. -/
theorem linked_known {ids : List String} {edges : List Edge} {a b : String} :
    Linked (known ids edges) a b ↔ a ∈ ids ∧ b ∈ ids ∧ Edge.mk a b ∈ edges := by
  rw [Linked, mem_known]
  tauto

/-- **The cycle check is exact.** Whatever ids and edges it is given, the loop ends; a degree is at
most the number of edges, and none is taken below zero. A node is left exactly when a walk along
edges between listed ids leads back to its start, in whatever order ids and edges are listed. -/
theorem hasCycle_law (ids : List String) (edges : List Edge) :
    (∃ final, Sweep.Sweeps (resolveEdges ids edges)
        (Sweep.start ids.length (resolveEdges ids edges)) final ∧
      hasCycle ids edges = (final.taken != ids.length)) ∧
    (∀ d ∈ (Sweep.start ids.length (resolveEdges ids edges)).degrees, d ≤ edges.length) ∧
    (hasCycle ids edges = true ↔
      ∃ id, TransGen (fun a b => a ∈ ids ∧ b ∈ ids ∧ Edge.mk a b ∈ edges) id id) ∧
    ∀ ids' edges', ids.Perm ids' → edges.Perm edges' → hasCycle ids' edges' = hasCycle ids edges := by
  refine ⟨⟨_, Sweep.sweeps_run (Sweep.inv_start _ _) joined_lt ids.length (by simp), rfl⟩,
    fun d hd => (Sweep.degree_start_le hd).trans (length_resolveEdges_le ids edges), ?_,
    fun ids' edges' hids hedges => (hasCycle_eq_of_perm hids hedges).symm⟩
  have hlinked : Linked (known ids edges) =
      fun a b => a ∈ ids ∧ b ∈ ids ∧ Edge.mk a b ∈ edges :=
    funext fun a => funext fun b => propext linked_known
  rw [hasCycle_eq_true_iff, hlinked]

/-- An id that is listed twice, an edge that is listed twice, one with an unknown end, and a cycle. -/
theorem hasCycle_law_repeated :
    let ids := ["a", "b", "a"]
    let edges : List Edge := [⟨"a", "b"⟩, ⟨"c", "a"⟩, ⟨"a", "b"⟩, ⟨"b", "a"⟩]
    (∃ id, TransGen (fun a b => a ∈ ids ∧ b ∈ ids ∧ Edge.mk a b ∈ edges) id id) ∧
    ids.Perm ids.reverse ∧ edges.Perm edges.reverse ∧
    hasCycle ids.reverse edges.reverse = true := by
  intro ids edges
  obtain ⟨-, -, hcycle, horder⟩ := hasCycle_law ids edges
  have htrue : hasCycle ids edges = true := by decide
  have hids : ids.Perm ids.reverse := ids.reverse_perm.symm
  have hedges : edges.Perm edges.reverse := edges.reverse_perm.symm
  exact ⟨hcycle.1 htrue, hids, hedges, (horder _ _ hids hedges).trans htrue⟩

end Pedalboard
