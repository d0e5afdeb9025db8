import Mathlib
import Pedalboard.Engine.Message
import Pedalboard.Proofs.Engine.Paths
import Pedalboard.Proofs.Wire.RoundTrip

/-!
# Messages that are read back

**What a message carries** (`RuntimeGraph.CarriedBy`). The document with the fields of a message, in
the order of their keys, and with no other fields: integers and flags as they are, and a slot as its
single, or as no number if it is not finite.

**Integers** (`RuntimeGraph.Small`). Integers of 64 bits are read back as they are, and a compiled
graph has no others (`small_compile`).

**Theorem (`carriedBy_message`).** The text of a message is read as the document that
carries its graph and its revision.
-/

namespace Pedalboard

open Json

/-! ## What is carried -/

/-- A document that gives a single as it is if it is finite, and no number if not. -/
def Json.GivesSingle (w : Json) (x : Single) : Prop :=
  ∀ y, w.finiteSingle? = some y ↔ x.isFinite ∧ y = x

/-- The field of the slot at a place. -/
def slotField (i : Nat) (w : Json) : String × Json := ("p" ++ toString (i + 1), w)

/-- A document with the fields of a compiled node and no others. -/
def RuntimeNode.CarriedBy (n : RuntimeNode) (v : Json) : Prop :=
  ∃ slots, List.Forall₂ GivesSingle slots n.slots.toList ∧
    v = .object (("bypass", .bool n.bypass) :: ("effectType", .natural n.effectType) ::
      slots.mapIdx slotField)

/-- A document with the fields of a message and no others. -/
def RuntimeGraph.CarriedBy (g : RuntimeGraph) (revision : Nat) (v : Json) : Prop :=
  ∃ nodes, List.Forall₂ RuntimeNode.CarriedBy g.nodes nodes ∧
    v = .object [("edges", g.edgesJson), ("hasOutputPath", .bool g.hasOutputPath),
      ("nodes", .array nodes), ("revision", .natural revision),
      ("schemaVersion", .natural g.version), ("type", .string applyRuntimeGraph)]

/-! ## Integers -/

/-- Every integer of a graph is one of 64 bits. -/
structure RuntimeGraph.Small (g : RuntimeGraph) : Prop where
  version : g.version < naturalBound
  effectType : ∀ n ∈ g.nodes, n.effectType < naturalBound
  ends : ∀ e ∈ g.edges, (0 ≤ e.source ∧ e.source < naturalBound) ∧
    (0 ≤ e.target ∧ e.target < naturalBound)

theorem effectType_lt (kind : Kind) : kind.effectType < naturalBound := by
  cases kind <;> decide

theorem small_compile {p : Payload} (h : p.problem? = none) : (compile p).Small := by
  obtain ⟨hversion, -, hnodes, -, -, hends⟩ := Payload.problem?_eq_none_iff.1 h
  have hknown : p.EndsKnown := hends
  have hposition : ∀ id ∈ p.ids, (0 : Int) ≤ p.position id ∧ (p.position id : Int) < naturalBound := by
    intro id hid
    obtain ⟨hi, -⟩ := position_spec hid
    have hlt : p.position id < naturalBound := (hi.trans_le hnodes).trans (by decide)
    exact ⟨Int.natCast_nonneg _, by exact_mod_cast hlt⟩
  refine ⟨?_, fun n hn => ?_, fun e he => ?_⟩
  · show p.version < naturalBound
    rw [hversion]
    decide
  · obtain ⟨m, -, rfl⟩ := List.mem_map.1 hn
    exact effectType_lt m.kind
  · rw [edges_compile hknown] at he
    obtain ⟨e, hmem, rfl⟩ := List.mem_map.1 he
    exact ⟨hposition _ (hknown e hmem).1, hposition _ (hknown e hmem).2⟩

theorem reads_integer {n : Int} (h : 0 ≤ n ∧ n < naturalBound) (k : Nat) :
    Reads k (compactText (.number (.integer n))) (.number (.integer n)) := by
  rw [compactText]
  exact reads_number (readsAs_integer (by omega) h.2) k

/-! ## Reading the parts -/

/-- Fields with different keys are read in the order of their keys, in whatever order they stand. -/
theorem reads_object_of_perm {k : Nat} {fs gs es : List (String × Json)}
    (h : List.Forall₂ (fun f g => f.1 = g.1 ∧ Reads k (compactText f.2) g.2) fs gs)
    (hperm : gs.Perm es) (hes : Increasing es) :
    Reads (k + 1) (compactText (.object fs)) (.object es) := by
  rw [← Keyed.entries_ofList_of_perm hperm hes]
  exact reads_compact_object h

theorem increasing_of_keys {es : List (String × Json)} (keys : List String)
    (h : es.map (·.1) = keys) (hkeys : keys.Pairwise (· < ·)) : Increasing es := by
  subst h
  exact List.pairwise_map.1 hkeys

theorem keys_slotFields (slots : List Json) :
    (slots.mapIdx slotField).map (·.1) =
      (List.range slots.length).map fun i => "p" ++ toString (i + 1) := by
  refine List.ext_getElem (by simp) fun i _ _ => ?_
  simp [slotField]

/-- The slots of a node are read one by one, each under its key. -/
theorem reads_slots (k : Nat) (xs : List Single) :
    ∃ slots, List.Forall₂ GivesSingle slots xs ∧
      List.Forall₂ (fun f g => f.1 = g.1 ∧ Reads k (compactText f.2) g.2)
        (xs.mapIdx fun i x => ("p" ++ toString (i + 1), .single x)) (slots.mapIdx slotField) := by
  obtain ⟨slots, hslots⟩ := exists_forall₂ fun x (_ : x ∈ xs) => reads_single x
  refine ⟨slots, hslots.flip.imp fun _ _ h => h.2, List.forall₂_iff_get.2 ⟨?_, fun i hi hi' => ?_⟩⟩
  · simp [hslots.length_eq]
  · simp only [List.length_mapIdx] at hi hi'
    have hread := (List.forall₂_iff_get.1 hslots).2 i hi hi'
    simpa [slotField] using hread.1 k

/-- **A node is read** as the document that carries it. -/
theorem reads_runtimeNode (k : Nat) {n : RuntimeNode} (h : n.effectType < naturalBound) :
    ∃ v, Reads (k + 1) (compactText n.toJson) v ∧ n.CarriedBy v := by
  obtain ⟨slots, hslots, hreads⟩ := reads_slots k n.slots.toList
  have hlength : slots.length = slotCount := by
    rw [hslots.length_eq, Vector.length_toList]
  refine ⟨_, reads_object_of_perm (.cons ⟨rfl, reads_natural h k⟩ <|
    .cons ⟨rfl, reads_bool k n.bypass⟩ hreads) (.swap _ _ _) ?_, slots, hslots, rfl⟩
  refine increasing_of_keys ("bypass" :: "effectType" ::
    (List.range slotCount).map fun i => "p" ++ toString (i + 1)) ?_ (by decide +kernel)
  rw [List.map_cons, List.map_cons, keys_slotFields, hlength]

/-- **An edge is read** as itself. -/
theorem reads_runtimeEdge (k : Nat) {e : RuntimeEdge} (hsource : 0 ≤ e.source ∧ e.source < naturalBound)
    (htarget : 0 ≤ e.target ∧ e.target < naturalBound) :
    Reads (k + 1) (compactText e.toJson) e.toJson := by
  let fields : List (String × Json) :=
    [("fromIndex", .number (.integer e.source)), ("toIndex", .number (.integer e.target))]
  have hincreasing : Increasing fields :=
    increasing_of_keys ["fromIndex", "toIndex"] rfl (by decide)
  exact reads_object_of_perm (.cons ⟨rfl, reads_integer hsource k⟩ <|
    .cons ⟨rfl, reads_integer htarget k⟩ .nil) (.refl fields) hincreasing

/-! ## Reading a message -/

/-- The fields of a message in the order of their keys. -/
theorem message_fields_perm (type version path nodes edges revision : Json) :
    [("type", type), ("schemaVersion", version), ("hasOutputPath", path), ("nodes", nodes),
      ("edges", edges), ("revision", revision)].Perm
    [("edges", edges), ("hasOutputPath", path), ("nodes", nodes), ("revision", revision),
      ("schemaVersion", version), ("type", type)] := by
  classical
  refine List.perm_iff_count.2 fun f => ?_
  simp only [List.count_cons, List.count_nil]
  omega

/-- **A message is read** as the document that carries its graph and its revision. -/
theorem carriedBy_message {g : RuntimeGraph} (h : g.Small) {revision : Nat}
    (hrevision : revision < naturalBound) :
    ∃ v, parse? (g.message revision).compact = some v ∧ g.CarriedBy revision v := by
  obtain ⟨nodes, hnodes⟩ := exists_forall₂ fun n (hn : n ∈ g.nodes) =>
    reads_runtimeNode 124 (h.effectType n hn)
  have hreadnodes : Reads 126 (compactText g.nodesJson) (.array nodes) :=
    reads_compact_array (List.forall₂_map_left_iff.2 (hnodes.imp fun _ _ hn => hn.1))
  have hreadedges : Reads 126 (compactText g.edgesJson) g.edgesJson := by
    refine reads_compact_array (List.forall₂_same.2 fun v hv => ?_)
    obtain ⟨e, he, rfl⟩ := List.mem_map.1 hv
    exact reads_runtimeEdge 124 (h.ends e he).1 (h.ends e he).2
  refine ⟨_, parse?_compact (reads_object_of_perm ?_ (message_fields_perm _ _ _ _ _ _)
    (increasing_of_keys ["edges", "hasOutputPath", "nodes", "revision", "schemaVersion", "type"]
      rfl (by decide))), nodes, hnodes.imp fun _ _ hn => hn.2, rfl⟩
  exact .cons ⟨rfl, reads_string 126 applyRuntimeGraph⟩ <| .cons ⟨rfl, reads_natural h.version 126⟩ <|
    .cons ⟨rfl, reads_bool 126 g.hasOutputPath⟩ <| .cons ⟨rfl, hreadnodes⟩ <|
    .cons ⟨rfl, hreadedges⟩ <| .cons ⟨rfl, reads_natural hrevision 126⟩ .nil

end Pedalboard
