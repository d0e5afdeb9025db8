import Mathlib
import Pedalboard.Proofs.Graph.Edit
import Pedalboard.Wire.Payload

/-!
# Canonical order

**Sorting is a normal form.** Two lists of nodes with unique ids have the same canonical order
exactly when one is a permutation of the other, and so have any two lists of edges. Whether a
payload is valid, and which rule it breaks, is seen on its canonical order, so `Payload.normalize`
depends on the nodes and edges of a state only, and not on their order.
-/

namespace Pedalboard

/-! ## The order of edges -/

theorem Edge.le_iff {a b : Edge} :
    a.le b ↔ a.source < b.source ∨ a.source = b.source ∧ a.target ≤ b.target := by
  simp [Edge.le]

theorem Edge.le_trans {a b c : Edge} (hab : a.le b) (hbc : b.le c) : a.le c := by
  rw [Edge.le_iff] at *
  rcases hab with hab | ⟨hab, hab'⟩ <;> rcases hbc with hbc | ⟨hbc, hbc'⟩
  · exact .inl (hab.trans hbc)
  · exact .inl (hbc ▸ hab)
  · exact .inl (hab ▸ hbc)
  · exact .inr ⟨hab.trans hbc, hab'.trans hbc'⟩

theorem Edge.le_total (a b : Edge) : a.le b || b.le a := by
  rw [Bool.or_eq_true, Edge.le_iff, Edge.le_iff]
  rcases lt_trichotomy a.source b.source with h | h | h
  · exact .inl (.inl h)
  · exact (String.le_total a.target b.target).imp (fun ht => .inr ⟨h, ht⟩)
      fun ht => .inr ⟨h.symm, ht⟩
  · exact .inr (.inl h)

theorem Edge.le_antisymm {a b : Edge} (hab : a.le b) (hba : b.le a) : a = b := by
  obtain ⟨s, t⟩ := a
  obtain ⟨s', t'⟩ := b
  simp only [Edge.le_iff] at hab hba
  rcases hab with hab | ⟨rfl, hab⟩
  · rcases hba with hba | ⟨rfl, -⟩
    · exact absurd hba hab.asymm
    · exact absurd hab (lt_irrefl _)
  · rcases hba with hba | ⟨-, hba⟩
    · exact absurd hba (lt_irrefl _)
    · rw [hab.antisymm hba]

/-- The same nodes and the same edges, in any order. Numbers are the same if their bits are. -/
def State.SameParts (s t : State) : Prop :=
  (∀ n, n ∈ s.nodes ↔ n ∈ t.nodes) ∧ ∀ e, e ∈ s.edges ↔ e ∈ t.edges

namespace Payload

/-! ## Sorting -/

theorem sortNodes_perm (nodes : List Node) : (sortNodes nodes).Perm nodes := List.mergeSort_perm _ _

theorem sortEdges_perm (edges : List Edge) : (sortEdges edges).Perm edges := List.mergeSort_perm _ _

theorem pairwise_sortNodes (nodes : List Node) :
    (sortNodes nodes).Pairwise fun a b => decide (a.id ≤ b.id) :=
  List.pairwise_mergeSort (fun _ _ _ hab hbc => by simp at *; exact hab.trans hbc)
    (fun a b => by simpa using le_total a.id b.id) nodes

theorem pairwise_sortEdges (edges : List Edge) : (sortEdges edges).Pairwise (Edge.le · ·) := by
  rw [sortEdges]
  exact @List.pairwise_mergeSort _ Edge.le (fun _ _ _ => Edge.le_trans) Edge.le_total edges

@[simp] theorem sortNodes_sortNodes (nodes : List Node) :
    sortNodes (sortNodes nodes) = sortNodes nodes := List.mergeSort_of_pairwise (pairwise_sortNodes _)

@[simp] theorem sortEdges_sortEdges (edges : List Edge) :
    sortEdges (sortEdges edges) = sortEdges edges := List.mergeSort_of_pairwise (pairwise_sortEdges _)

/-- **The canonical order of nodes** forgets their order and nothing else. -/
theorem sortNodes_eq_iff {a b : List Node} (hids : (a.map (·.id)).Nodup) :
    sortNodes a = sortNodes b ↔ a.Perm b := by
  constructor
  · exact fun h => (sortNodes_perm a).symm.trans (h ▸ sortNodes_perm b)
  intro h
  have hperm : (sortNodes a).Perm (sortNodes b) :=
    (sortNodes_perm a).trans (h.trans (sortNodes_perm b).symm)
  refine hperm.eq_of_pairwise (fun m n hm hn hmn hnm => ?_) (pairwise_sortNodes a)
    (pairwise_sortNodes b)
  have hid : m.id = n.id := le_antisymm (by simpa using hmn) (by simpa using hnm)
  exact List.inj_on_of_nodup_map hids ((sortNodes_perm a).mem_iff.1 hm)
    (h.mem_iff.2 ((sortNodes_perm b).mem_iff.1 hn)) hid

theorem sortNodes_eq {a sorted : List Node} (hids : (a.map (·.id)).Nodup)
    (hsorted : sorted.Pairwise fun m n => decide (m.id ≤ n.id)) (h : a.Perm sorted) :
    sortNodes a = sorted :=
  ((sortNodes_eq_iff hids).2 h).trans (List.mergeSort_of_pairwise hsorted)

/-- **The canonical order of edges** forgets their order and nothing else. -/
theorem sortEdges_eq_iff {a b : List Edge} : sortEdges a = sortEdges b ↔ a.Perm b := by
  constructor
  · exact fun h => (sortEdges_perm a).symm.trans (h ▸ sortEdges_perm b)
  intro h
  have hperm : (sortEdges a).Perm (sortEdges b) :=
    (sortEdges_perm a).trans (h.trans (sortEdges_perm b).symm)
  exact hperm.eq_of_pairwise (fun _ _ _ _ => Edge.le_antisymm) (pairwise_sortEdges a)
    (pairwise_sortEdges b)

/-! ## The payload of a state -/

theorem validate_eq_ok {p : Payload} : p.validate = .ok () ↔ p.problem? = none := by
  rw [validate]
  cases p.problem? <;> simp

theorem normalize_eq_ok {s : State} {p : Payload} :
    normalize s = .ok p ↔
      p = { nodes := sortNodes s.nodes, edges := sortEdges s.edges } ∧ p.problem? = none := by
  simp only [normalize, sort, validate]
  constructor
  · intro h
    split at h
    · cases h
    · cases h
      exact ⟨rfl, ‹_›⟩
  · rintro ⟨rfl, h⟩
    simp only [h]
    rfl

theorem normalize_eq_error {s : State} {e : WireError} :
    normalize s = .error e ↔
      problem? { nodes := sortNodes s.nodes, edges := sortEdges s.edges } = some e := by
  simp only [normalize, sort, validate]
  constructor
  · intro h
    split at h
    · cases h
      assumption
    · cases h
  · intro h
    simp only [h]
    rfl

/-- **States with the same nodes and edges have the same payload**, or break the same rule. -/
theorem normalize_eq_of_perm {s t : State} (hids : s.ids.Nodup) (hnodes : s.nodes.Perm t.nodes)
    (hedges : s.edges.Perm t.edges) : normalize s = normalize t := by
  simp only [normalize, sort, (sortNodes_eq_iff hids).2 hnodes, sortEdges_eq_iff.2 hedges]

end Payload

end Pedalboard
