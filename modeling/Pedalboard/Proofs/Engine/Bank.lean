import Mathlib
import Pedalboard.Engine.Sink

/-!
# Banks that show a graph

**Encoding.** The numbers that `encode` writes fill the places from `Bank.hostSize` to the end of
the bank (`length_bankValues`), one after the other.

**Theorem (`Bank.get?_apply_encode`).** After the writes, every place from there on holds the
number that was encoded for it, whatever it held before, and the host's places are as they were.
So the bank *shows* the graph (`Bank.Shows`), and shows no other one.
-/

namespace Pedalboard

/-! ## The size of an encoding -/

@[simp] theorem RuntimeNode.length_values (n : RuntimeNode) : n.values.length = Bank.nodeStride := by
  simp only [RuntimeNode.values, List.length_cons, Vector.length_toList, Bank.nodeStride]
  omega

@[simp] theorem RuntimeEdge.length_values (e : RuntimeEdge) : e.values.length = Bank.edgeStride := rfl

/-- Blocks of one length, one after the other. -/
theorem length_blocks {α : Type} {f : Nat → List α} {stride : Nat} (hf : ∀ i, (f i).length = stride)
    (count : Nat) : ((List.range count).flatMap f).length = count * stride := by
  simp [List.length_flatMap, hf]

/-- The numbers of the nodes, unused places included. -/
def nodeValues (g : RuntimeGraph) : List Single :=
  (List.range maxPayloadNodes).flatMap fun i => (g.nodes[i]?.getD unusedNode).values

/-- The numbers of the edges, unused places included. -/
def edgeValues (g : RuntimeGraph) : List Single :=
  (List.range maxPayloadEdges).flatMap fun i => (g.edges[i]?.getD unusedEdge).values

theorem bankValues_eq (g : RuntimeGraph) (revision : Nat) :
    bankValues g revision = headerValues g ++ nodeValues g ++ edgeValues g ++ [.ofNat revision] := rfl

@[simp] theorem length_headerValues (g : RuntimeGraph) :
    (headerValues g).length = Bank.headerSize := rfl

@[simp] theorem length_nodeValues (g : RuntimeGraph) :
    (nodeValues g).length = maxPayloadNodes * Bank.nodeStride :=
  length_blocks (fun _ => RuntimeNode.length_values _) _

@[simp] theorem length_edgeValues (g : RuntimeGraph) :
    (edgeValues g).length = maxPayloadEdges * Bank.edgeStride :=
  length_blocks (fun _ => RuntimeEdge.length_values _) _

/-- The numbers of the bank reach from the host's to the end. -/
theorem length_bankValues (g : RuntimeGraph) (revision : Nat) :
    Bank.hostSize + (bankValues g revision).length = Bank.size := by
  rw [bankValues_eq, List.length_append, List.length_append, List.length_append,
    length_headerValues, length_nodeValues, length_edgeValues]
  rfl

theorem mem_encode {g : RuntimeGraph} {revision : Nat} {w : ParamWrite} :
    w ∈ encode g revision ↔
      Bank.hostSize ≤ w.index ∧ (bankValues g revision)[w.index - Bank.hostSize]? = some w.value := by
  rw [encode, List.mem_iff_getElem?]
  simp only [List.getElem?_mapIdx, Option.map_eq_some_iff]
  constructor
  · rintro ⟨i, x, hx, rfl⟩
    exact ⟨Nat.le_add_right _ _, by rwa [Nat.add_sub_cancel_left]⟩
  · rintro ⟨hle, hx⟩
    refine ⟨w.index - Bank.hostSize, w.value, hx, ?_⟩
    rw [Nat.add_sub_cancel' hle]

namespace Bank

/-! ## Writing -/

theorem get?_set (b : Bank) (i j : Nat) (v : Single) (hi : i < size) :
    (b.set i v).get? j = if j = i then some v else b.get? j := by
  rw [get?, set, Vector.getElem?_setIfInBounds, if_pos hi]
  simp only [eq_comm, get?]

/-- Numbers that are written one after the other stand one after the other. -/
theorem get?_apply_consecutive (xs : List Single) {start : Nat} (h : start + xs.length ≤ size)
    (b : Bank) (j : Nat) :
    (b.apply (xs.mapIdx fun i x => ⟨start + i, x⟩)).get? j =
      if start ≤ j ∧ j < start + xs.length then xs[j - start]? else b.get? j := by
  induction xs generalizing start b with
  | nil =>
    rw [if_neg (by simp), List.mapIdx_nil]
    rfl
  | cons x xs ih =>
    rw [List.length_cons] at h
    have htail : (fun i x => (⟨start + (i + 1), x⟩ : ParamWrite)) =
        fun i x => ⟨start + 1 + i, x⟩ := by
      funext i y
      rw [Nat.add_assoc, Nat.add_comm 1 i]
    rw [List.mapIdx_cons, htail]
    change ((b.set start x).apply (xs.mapIdx fun i x => ⟨start + 1 + i, x⟩)).get? j = _
    rw [ih (by omega), get?_set b start j x (by omega), List.length_cons]
    -- The head is written first, and no later write reaches its place.
    rcases Nat.lt_trichotomy j start with hlt | rfl | hgt
    · rw [if_neg (by omega), if_neg hlt.ne, if_neg (by omega)]
    · rw [if_neg (by omega), if_pos rfl, if_pos ⟨le_rfl, by omega⟩]
      simp
    · have hindex : j - start = j - (start + 1) + 1 := by omega
      rw [hindex, List.getElem?_cons_succ, if_neg hgt.ne']
      exact if_congr (by omega) rfl rfl

/-- **What a bank holds after the writes of a graph.** -/
theorem get?_apply_encode (b : Bank) (g : RuntimeGraph) (revision j : Nat) :
    (b.apply (encode g revision)).get? j =
      if hostSize ≤ j then (bankValues g revision)[j - hostSize]? else b.get? j := by
  have hsize := length_bankValues g revision
  rw [encode, get?_apply_consecutive _ hsize.le, hsize]
  split_ifs with hwritten hhost hhost
  · rfl
  · exact absurd hwritten.1 hhost
  · -- A place behind the bank is in neither.
    have hout : size ≤ j := not_lt.1 fun hlt => hwritten ⟨hhost, hlt⟩
    rw [List.getElem?_eq_none (by omega), get?, Vector.getElem?_eq_none hout]
  · rfl

/-! ## Showing a graph -/

/-- From the host's places on, the bank holds what is encoded for a graph and a revision. -/
def Shows (b : Bank) (g : RuntimeGraph) (revision : Nat) : Prop :=
  ∀ i v, hostSize ≤ i → (b.get? i = some v ↔ ⟨i, v⟩ ∈ encode g revision)

theorem shows_apply_encode (b : Bank) (g : RuntimeGraph) (revision : Nat) :
    (b.apply (encode g revision)).Shows g revision := by
  intro i v hi
  rw [get?_apply_encode, if_pos hi, mem_encode]
  exact (and_iff_right hi).symm

theorem get?_apply_encode_host (b : Bank) (g : RuntimeGraph) (revision : Nat) {i : Nat}
    (hi : i < hostSize) : (b.apply (encode g revision)).get? i = b.get? i := by
  rw [get?_apply_encode, if_neg hi.not_ge]

end Bank

end Pedalboard
