import Mathlib
import Pedalboard.Proofs.Wire.Valid

/-!
# Loading and saving are inverse

**Canonical order** (`NodesInOrder`, `EdgesInOrder`). The nodes of a graph by increasing id, and its
edges by increasing source and target. A list has one such order at most, and sorting finds it if
ids are unique and no edge stands twice.

**Loading a saved graph** (`hydrate_eq_of_normalize`). Whatever edits made a state, its payload
passes every test of a payload and of a graph, under any limit, because these tests do not see the
order of nodes and edges.

**Saving a loaded graph** (`normalize_of_hydrate`). Loading keeps the parts of a payload as they
stand, so saving again gives the payload back in canonical order.

**Theorem (`hydrate_normalize_inverse`).** Both together.
-/

namespace Pedalboard

variable {s t : State} {p q : Payload}

/-! ## Canonical order -/

/-- The order of different edges: by source, then by target. -/
def Edge.Before (a b : Edge) : Prop :=
  a.source < b.source ∨ a.source = b.source ∧ a.target < b.target

instance : DecidableRel Edge.Before := fun _ _ => inferInstanceAs (Decidable (_ ∨ _))

theorem Edge.before_of_le {a b : Edge} (hle : a.le b) (hne : a ≠ b) : a.Before b := by
  rcases Edge.le_iff.1 hle with hsource | ⟨hsource, htarget⟩
  · exact .inl hsource
  · refine .inr ⟨hsource, lt_of_le_of_ne htarget fun heq => hne ?_⟩
    cases a
    cases b
    simp_all

namespace Payload

/-- `sorted` lists `nodes` by increasing id. -/
structure NodesInOrder (nodes sorted : List Node) : Prop where
  perm : sorted.Perm nodes
  increasing : sorted.Pairwise fun a b => a.id < b.id

/-- `sorted` lists `edges` by increasing source and target. -/
structure EdgesInOrder (edges sorted : List Edge) : Prop where
  perm : sorted.Perm edges
  increasing : sorted.Pairwise Edge.Before

theorem nodesInOrder_sortNodes {nodes : List Node} (hids : (nodes.map (·.id)).Nodup) :
    NodesInOrder nodes (sortNodes nodes) := by
  have hperm := sortNodes_perm nodes
  have hsorted : ((sortNodes nodes).map (·.id)).Nodup := (hperm.map _).nodup_iff.2 hids
  refine ⟨hperm, ((pairwise_sortNodes nodes).and (List.pairwise_map.1 hsorted)).imp fun h => ?_⟩
  exact lt_of_le_of_ne (of_decide_eq_true h.1) h.2

theorem edgesInOrder_sortEdges {edges : List Edge} (hedges : edges.Nodup) :
    EdgesInOrder edges (sortEdges edges) := by
  have hperm := sortEdges_perm edges
  have hdistinct : (sortEdges edges).Pairwise (· ≠ ·) := hperm.nodup_iff.2 hedges
  exact ⟨hperm, ((pairwise_sortEdges edges).and hdistinct).imp fun h => Edge.before_of_le h.1 h.2⟩

end Payload

/-! ## Loading a saved graph -/

/-- The parts of a well-formed state are accepted in any order. -/
theorem State.WellFormed.partsProblem? {nodes : List Node} {edges : List Edge} (h : s.WellFormed)
    (hnodes : s.nodes.Perm nodes) (hedges : s.edges.Perm edges) :
    State.partsProblem? nodes edges = none := by
  have hids : s.ids.Perm (nodes.map (·.id)) := hnodes.map _
  have hanchor : ∀ {k : Kind} {id : String}, s.idsOf k = [id] →
      (nodes.filter (·.kind = k)).map (·.id) = [id] := fun hk =>
    List.perm_singleton.1 (hk ▸ ((hnodes.filter _).map _).symm)
  refine partsProblem?_eq_none_iff.2 ⟨?_, hids.nodup_iff.1 h.ids_nodup, hanchor h.input,
    hanchor h.output, fun e he => ?_, hedges.nodup_iff.1 h.edges_nodup,
    h.acyclic.mono hedges.symm.subset⟩
  · exact hnodes.length_eq ▸ h.fits.trans h.limit.2
  · obtain ⟨hne, hsource, htarget⟩ := h.ends e (hedges.mem_iff.2 he)
    exact ⟨hne, hids.mem_iff.1 hsource, hids.mem_iff.1 htarget⟩

namespace Payload

/-- **What a state was saved as loads**, under any limit, as its parts in canonical order. -/
theorem hydrate_eq_of_normalize (hs : s.WellFormed) (hp : normalize s = .ok p) (limit : Nat) :
    p.hydrate limit = .ok {
      nodes := sortNodes s.nodes
      labelled := (sortEdges s.edges).map Edge.labelled
      selected := none
      nodeLimit := max (clampNodeLimit limit) s.nodes.length
      nextSerial := State.resumeSerial ((sortNodes s.nodes).map (·.id))
      lastError := none } := by
  obtain ⟨rfl, hvalid⟩ := normalize_eq_ok.1 hp
  have hparts := hs.partsProblem? (sortNodes_perm s.nodes).symm (sortEdges_perm s.edges).symm
  have hmade : State.ofParts (sortNodes s.nodes) (sortEdges s.edges) none limit = .ok _ :=
    State.ofParts_eq_ok.2 ⟨hparts, rfl⟩
  rw [hydrate, validate_eq_ok.2 hvalid, hmade, (sortNodes_perm _).length_eq]
  rfl

/-- The edges that a saved graph loads with, seen without their ids. -/
theorem edgesInOrder_loaded (hs : s.WellFormed) :
    EdgesInOrder s.edges (((sortEdges s.edges).map Edge.labelled).map (·.toEdge)) := by
  rw [State.map_toEdge_map_labelled]
  exact edgesInOrder_sortEdges hs.edges_nodup

/-! ## Saving a loaded graph -/

/-- **A document that loads is saved as itself**, in canonical order. -/
theorem normalize_of_hydrate {limit : Nat} (h : q.hydrate limit = .ok t) :
    normalize t = .ok q.sort := by
  have hopened : State.Reaches State.Opened t := .start (.inr ⟨q, limit, h⟩)
  obtain ⟨hvalid, hparts⟩ := State.hydrate_eq_ok h
  obtain ⟨hnodes, hkept⟩ := State.kept_of_ofParts hparts
  obtain ⟨hversion, -, -, hedges, -⟩ := problem?_eq_none_iff.1 hvalid
  rw [normalize_of_reaches hopened (hkept ▸ hedges), hnodes, hkept, sort, hversion]

/-- **Loading and saving are inverse.** The payload of a state that occurs loads under any limit,
into the state's nodes by id and its edges by source and target, with nothing selected, no error,
and the limit raised to fit; and any document that loads, in order or not, is saved as itself in
that order. -/
theorem hydrate_normalize_inverse :
    (∀ s p limit, State.Reaches State.Opened s → normalize s = .ok p →
      ∃ t, p.hydrate limit = .ok t ∧
        NodesInOrder s.nodes t.nodes ∧ EdgesInOrder s.edges t.edges ∧
        t.selected = none ∧ t.lastError = none ∧
        t.nodeLimit = max (clampNodeLimit limit) s.nodes.length) ∧
    ∀ (q : Payload) limit t, q.hydrate limit = .ok t →
      ∃ p, normalize t = .ok p ∧ p.version = q.version ∧
        NodesInOrder q.nodes p.nodes ∧ EdgesInOrder q.edges p.edges := by
  constructor
  · intro s p limit hreaches hp
    have hs := hreaches.wellFormed_of_opened
    exact ⟨_, hydrate_eq_of_normalize hs hp limit, nodesInOrder_sortNodes hs.ids_nodup,
      edgesInOrder_loaded hs, rfl, rfl, rfl⟩
  · intro q limit t hload
    obtain ⟨-, hparts⟩ := State.hydrate_eq_ok hload
    have ht := State.wellFormed_ofParts hparts
    obtain ⟨hnodes, hedges⟩ := State.kept_of_ofParts hparts
    exact ⟨q.sort, normalize_of_hydrate hload, rfl, nodesInOrder_sortNodes (hnodes ▸ ht.ids_nodup),
      edgesInOrder_sortEdges (hedges ▸ ht.edges_nodup)⟩

theorem exists_hydrate {limit : Nat} (h : (p.hydrate limit).toOption.isSome) :
    ∃ t, p.hydrate limit = .ok t := by
  cases hload : p.hydrate limit with
  | error e => simp [hload, Except.toOption] at h
  | ok t => exact ⟨t, rfl⟩

/-- A document with nothing in order. -/
def unsortedPayload : Payload where
  nodes := [{ id := outputId, kind := .output, x := 0, y := 0 },
    { id := inputId, kind := .input, x := 0, y := 0 },
    { id := "fx-9", kind := .delay, x := 0, y := 0 }]
  edges := [⟨outputId, "fx-9"⟩, ⟨inputId, outputId⟩, ⟨inputId, "fx-9"⟩]

/-- It loads as it stands, is saved in another order, and what was saved loads under any limit. -/
theorem hydrate_normalize_inverse_unsortedPayload :
    ∃ t p u, unsortedPayload.hydrate 3 = .ok t ∧ t.nodes = unsortedPayload.nodes ∧
      normalize t = .ok p ∧ p.nodes ≠ t.nodes ∧ p.edges ≠ t.edges ∧
      p.hydrate 99 = .ok u ∧ u.nodes ≠ t.nodes ∧ u.nodeLimit = 16 := by
  have hnodes : ∀ sorted, NodesInOrder unsortedPayload.nodes sorted →
      sorted ≠ unsortedPayload.nodes := by
    rintro _ h rfl
    exact absurd h.increasing (by decide)
  have hedges : ∀ sorted, EdgesInOrder unsortedPayload.edges sorted →
      sorted ≠ unsortedPayload.edges := by
    rintro _ h rfl
    exact absurd h.increasing (by decide)
  obtain ⟨hsaved, hloaded⟩ := hydrate_normalize_inverse
  obtain ⟨t, hload⟩ : ∃ t, unsortedPayload.hydrate 3 = .ok t := exists_hydrate (by decide)
  obtain ⟨p, hp, -, hpnodes, hpedges⟩ := hloaded _ _ _ hload
  have hreaches : State.Reaches State.Opened t := .start (.inr ⟨_, _, hload⟩)
  obtain ⟨u, hu, hunodes, -, -, -, hlimit⟩ := hsaved t p 99 hreaches hp
  obtain ⟨-, rfl⟩ := State.ofParts_eq_ok.1 (State.hydrate_eq_ok hload).2
  exact ⟨_, p, u, hload, rfl, hp, hnodes _ hpnodes, hedges _ hpedges, hu, hnodes _ hunodes, hlimit⟩

end Payload

end Pedalboard
