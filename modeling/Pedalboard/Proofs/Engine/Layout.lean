import Mathlib
import Pedalboard.Proofs.Binary.Rounding
import Pedalboard.Proofs.Engine.Bank

/-!
# Reading a bank back

The encoding lays numbers down one after the other; a reader of the bank looks for a node or an edge
at a place that it computes. Both agree, for graphs of any size.

**Contents** (`Bank.toList_apply_encode`). After the writes of a graph a bank holds the numbers of the
host, as they were, and behind them those that are encoded: the header, sixteen blocks of one length,
sixty-four of another, the revision.

**Blocks** (`Bank.slice_block`). Where blocks of one length follow each other, the `i`-th one stands
`i` lengths behind the first. The places of nodes and those of edges are two cases of it.

**Theorem (`encode_law`).** So every part of a graph is read back from its place, and what the graph
does not have reads as unused, whatever the bank held before. For graphs that fit the bank this is
all there is to know: different ones are never shown by the same bank.
-/

namespace Pedalboard

namespace Bank

variable {g : RuntimeGraph} {revision : Nat} {b : Bank} {i : Nat}

/-! ## Contents -/

/-- The numbers of the host. -/
def hostValues (b : Bank) : List Single := b.values.toList.take hostSize

@[simp] theorem length_hostValues (b : Bank) : b.hostValues.length = hostSize := by
  rw [hostValues, List.length_take, Vector.length_toList]
  rfl

/-- **What a bank holds** after the writes of a graph, from its first place to its last. -/
theorem toList_apply_encode (b : Bank) (g : RuntimeGraph) (revision : Nat) :
    (b.apply (encode g revision)).values.toList = b.hostValues ++ bankValues g revision := by
  refine List.ext_getElem? fun j => ?_
  have hget := get?_apply_encode b g revision j
  rw [get?, get?, ← Vector.getElem?_toList, ← Vector.getElem?_toList] at hget
  rw [hget]
  split_ifs with hj
  · rw [List.getElem?_append_right (b.length_hostValues.trans_le hj), b.length_hostValues]
  · have hlt := not_le.1 hj
    rw [List.getElem?_append_left (b.length_hostValues.symm ▸ hlt), hostValues,
      List.getElem?_take_of_lt hlt]

/-! ## Blocks -/

theorem blocks_eq {α : Type} (f : Nat → List α) {count : Nat} (hi : i < count) :
    ∃ rest, (List.range count).flatMap f = (List.range i).flatMap f ++ (f i ++ rest) := by
  obtain ⟨k, rfl⟩ := Nat.exists_eq_add_of_lt hi
  rw [Nat.add_assoc, List.range_add, List.flatMap_append, List.range_succ_eq_map, List.map_cons,
    List.flatMap_cons, Nat.add_zero]
  exact ⟨_, rfl⟩

/-- **A block stands where its number says**, if all blocks have one length. -/
theorem slice_block {before after : List Single} {f : Nat → List Single} {start stride count : Nat}
    (h : b.values.toList = before ++ ((List.range count).flatMap f ++ after))
    (hstart : before.length = start) (hf : ∀ i, (f i).length = stride) (hi : i < count) :
    b.slice (start + i * stride) stride = f i := by
  obtain ⟨rest, hblocks⟩ := blocks_eq f hi
  have hskip : (before ++ (List.range i).flatMap f).length = start + i * stride := by
    rw [List.length_append, hstart, length_blocks hf]
  have hsplit : b.values.toList =
      (before ++ (List.range i).flatMap f) ++ (f i ++ (rest ++ after)) := by
    rw [h, hblocks]
    simp only [List.append_assoc]
  rw [slice, hsplit, List.drop_left' hskip, List.take_left' (hf i)]

/-! ## Readers -/

theorem header_apply_encode (b : Bank) (g : RuntimeGraph) (revision : Nat) :
    (b.apply (encode g revision)).header = {
      version := .ofNat g.version
      nodeCount := .ofNat (min g.nodes.length maxPayloadNodes)
      edgeCount := .ofNat (min g.edges.length maxPayloadEdges)
      hasOutputPath := g.hasOutputPath } := by
  have hget : ∀ k < 4, (b.apply (encode g revision)).get? (hostSize + k) = (headerValues g)[k]? := by
    intro k hk
    rw [get?_apply_encode, if_pos (Nat.le_add_right _ _), Nat.add_sub_cancel_left, bankValues,
      List.append_assoc, List.append_assoc]
    exact List.getElem?_append_left hk
  have hflag : (!(flag g.hasOutputPath).ieeeEq 0) = g.hasOutputPath := by
    cases g.hasOutputPath <;> decide
  have hfirst := hget 0 (by decide)
  rw [Nat.add_zero] at hfirst
  simp only [header, hfirst, hget 1 (by decide), hget 2 (by decide), hget 3 (by decide)]
  simp [headerValues, hflag]

/-- **A node is read back from its place**, or what stands for one that is not there. -/
theorem node?_apply_encode (b : Bank) (g : RuntimeGraph) (revision : Nat)
    (hi : i < maxPayloadNodes) :
    (b.apply (encode g revision)).node? i = some (g.nodes[i]?.getD unusedNode).values := by
  have hlist : (b.apply (encode g revision)).values.toList =
      (b.hostValues ++ headerValues g) ++ (nodeValues g ++ (edgeValues g ++ [.ofNat revision])) := by
    rw [toList_apply_encode, bankValues_eq]
    simp only [List.append_assoc]
  have hstart : (b.hostValues ++ headerValues g).length = nodesStart := by
    rw [List.length_append, length_hostValues, length_headerValues]
    rfl
  rw [node?, if_pos hi, slice_block hlist hstart (fun _ => RuntimeNode.length_values _) hi]

/-- **An edge is read back from its place**, or what stands for one that is not there. -/
theorem edge?_apply_encode (b : Bank) (g : RuntimeGraph) (revision : Nat)
    (hi : i < maxPayloadEdges) :
    (b.apply (encode g revision)).edge? i = some (g.edges[i]?.getD unusedEdge).values := by
  have hlist : (b.apply (encode g revision)).values.toList =
      (b.hostValues ++ headerValues g ++ nodeValues g) ++ (edgeValues g ++ [.ofNat revision]) := by
    rw [toList_apply_encode, bankValues_eq]
    simp only [List.append_assoc]
  have hstart : (b.hostValues ++ headerValues g ++ nodeValues g).length = edgesStart := by
    rw [List.length_append, List.length_append, length_hostValues, length_headerValues,
      length_nodeValues]
    rfl
  rw [edge?, if_pos hi, slice_block hlist hstart (fun _ => RuntimeEdge.length_values _) hi]

theorem revision_apply_encode (b : Bank) (g : RuntimeGraph) (revision : Nat) :
    (b.apply (encode g revision)).revision = .ofNat revision := by
  have hfront : (headerValues g ++ nodeValues g ++ edgeValues g).length =
      revisionIndex - hostSize := by
    rw [List.length_append, List.length_append, length_headerValues, length_nodeValues,
      length_edgeValues]
    rfl
  rw [Bank.revision, get?_apply_encode, if_pos (by decide), bankValues_eq, ← hfront,
    List.getElem?_concat_length, Option.getD_some]

end Bank

/-! ## Different graphs -/

theorem flag_inj {a b : Bool} : flag a = flag b ↔ a = b := by
  cases a <;> cases b <;> decide

/-- A graph that the bank has room for: it has the version that is supported, its effect types are
bytes, and its edges name places of nodes. -/
structure RuntimeGraph.Fits (g : RuntimeGraph) : Prop where
  version : g.version = schemaVersion
  nodes : g.nodes.length ≤ maxPayloadNodes
  edges : g.edges.length ≤ maxPayloadEdges
  effectType : ∀ n ∈ g.nodes, n.effectType < 256
  ends : ∀ e ∈ g.edges, (0 ≤ e.source ∧ e.source ≤ 15) ∧ 0 ≤ e.target ∧ e.target ≤ 15

theorem RuntimeNode.values_inj {m n : RuntimeNode} (hm : m.effectType < 256)
    (hn : n.effectType < 256) (h : m.values = n.values) : m = n := by
  obtain ⟨kind, bypass, slots⟩ := m
  obtain ⟨kind', bypass', slots'⟩ := n
  simp only [RuntimeNode.values, List.cons.injEq, flag_inj, Vector.toList_inj] at h
  obtain ⟨hkind, rfl, rfl⟩ := h
  obtain rfl := Binary.ofNat_single_inj (hm.trans (by decide)) (hn.trans (by decide)) hkind
  rfl

/-- Small positions are different singles. -/
theorem position_inj {i j : Int} (hi : 0 ≤ i ∧ i ≤ 15) (hj : 0 ≤ j ∧ j ≤ 15)
    (h : (Binary.ofInt i : Single) = .ofInt j) : i = j := by
  lift i to Nat using hi.1
  lift j to Nat using hj.1
  rw [Binary.ofInt_natCast, Binary.ofInt_natCast] at h
  rw [Binary.ofNat_single_inj (by omega) (by omega) h]

theorem RuntimeEdge.values_inj {d e : RuntimeEdge}
    (hd : (0 ≤ d.source ∧ d.source ≤ 15) ∧ 0 ≤ d.target ∧ d.target ≤ 15)
    (he : (0 ≤ e.source ∧ e.source ≤ 15) ∧ 0 ≤ e.target ∧ e.target ≤ 15)
    (h : d.values = e.values) : d = e := by
  obtain ⟨source, target⟩ := d
  obtain ⟨source', target'⟩ := e
  simp only [RuntimeEdge.values, List.cons.injEq, and_true] at h
  obtain rfl := position_inj hd.1 he.1 h.1
  obtain rfl := position_inj hd.2 he.2 h.2
  rfl

namespace RuntimeGraph.Fits

variable {g h : RuntimeGraph}

theorem values_node (hg : g.Fits) {i : Nat} (hi : i < g.nodes.length) (b : Bank) (revision : Nat) :
    (b.apply (encode g revision)).node? i = some g.nodes[i].values := by
  rw [Bank.node?_apply_encode b g revision (hi.trans_le hg.nodes), List.getElem?_eq_getElem hi,
    Option.getD_some]

theorem values_edge (hg : g.Fits) {i : Nat} (hi : i < g.edges.length) (b : Bank) (revision : Nat) :
    (b.apply (encode g revision)).edge? i = some g.edges[i].values := by
  rw [Bank.edge?_apply_encode b g revision (hi.trans_le hg.edges), List.getElem?_eq_getElem hi,
    Option.getD_some]

/-- **The bank tells graphs apart**: the header says how many nodes and edges there are, and each is
read back from its place. -/
theorem eq_of_apply_encode (hg : g.Fits) (hh : h.Fits) {b c : Bank} {r r' : Nat}
    (heq : b.apply (encode g r) = c.apply (encode h r')) : g = h := by
  have hheader := congrArg Bank.header heq
  simp only [Bank.header_apply_encode, min_eq_left hg.nodes, min_eq_left hh.nodes,
    min_eq_left hg.edges, min_eq_left hh.edges, BankHeader.mk.injEq] at hheader
  obtain ⟨-, hnodes, hedges, hpath⟩ := hheader
  replace hnodes : g.nodes.length = h.nodes.length :=
    Binary.ofNat_single_inj (hg.nodes.trans_lt (by decide)) (hh.nodes.trans_lt (by decide)) hnodes
  replace hedges : g.edges.length = h.edges.length :=
    Binary.ofNat_single_inj (hg.edges.trans_lt (by decide)) (hh.edges.trans_lt (by decide)) hedges
  have hnode : g.nodes = h.nodes := by
    refine List.ext_getElem hnodes fun i hi hi' => ?_
    have hvalues := congrArg (Bank.node? · i) heq
    simp only [hg.values_node hi, hh.values_node hi', Option.some.injEq] at hvalues
    exact RuntimeNode.values_inj (hg.effectType _ (List.getElem_mem hi))
      (hh.effectType _ (List.getElem_mem hi')) hvalues
  have hedge : g.edges = h.edges := by
    refine List.ext_getElem hedges fun i hi hi' => ?_
    have hvalues := congrArg (Bank.edge? · i) heq
    simp only [hg.values_edge hi, hh.values_edge hi', Option.some.injEq] at hvalues
    exact RuntimeEdge.values_inj (hg.ends _ (List.getElem_mem hi))
      (hh.ends _ (List.getElem_mem hi')) hvalues
  obtain ⟨version, path, nodes, edges⟩ := g
  obtain ⟨version', path', nodes', edges'⟩ := h
  obtain rfl : version = version' := hg.version.trans hh.version.symm
  obtain rfl : path = path' := hpath
  obtain rfl : nodes = nodes' := hnode
  obtain rfl : edges = edges' := hedge
  rfl

end RuntimeGraph.Fits

/-! ## The law of the bank -/

/-- **Every place is written once**, from the first after the host's to the last. -/
theorem map_index_encode (g : RuntimeGraph) (revision : Nat) :
    (encode g revision).map (·.index) =
      List.range' Bank.hostSize (bankValues g revision).length := by
  refine List.ext_getElem (by simp [encode]) fun i _ _ => ?_
  simp [encode]

/-- **What is written is what is read.** For a graph of any size, a revision and a bank with any
content: each place from 6 to 314 is written once, in order, and those before keep what they hold.
Then the header reads the version, the numbers of nodes and edges up to what there is room for, and
whether there is an output path; each node and each edge that there is room for is read back bit for
bit from its place, and the other places read as unused; the revision is read back as a single.
Nothing of what the bank held before shows in these places. Two graphs that fit the bank and leave
it with the same content are the same. -/
theorem encode_law (g : RuntimeGraph) (revision : Nat) (b : Bank) :
    let shown := b.apply (encode g revision)
    (encode g revision).map (·.index) = List.range' 6 309 ∧
    (∀ i < 6, shown.get? i = b.get? i) ∧
    shown.header = {
      version := .ofNat g.version
      nodeCount := .ofNat (min g.nodes.length 16)
      edgeCount := .ofNat (min g.edges.length 64)
      hasOutputPath := g.hasOutputPath } ∧
    (∀ (i : Nat) (hi : i < g.nodes.length), i < 16 → shown.node? i =
      some (.ofNat g.nodes[i].effectType :: flag g.nodes[i].bypass :: g.nodes[i].slots.toList)) ∧
    (∀ i, g.nodes.length ≤ i → i < 16 → shown.node? i = some [0, 1, 1, 0, 0, 0, 0, 0, 0, 0, 0]) ∧
    (∀ (i : Nat) (hi : i < g.edges.length), i < 64 → shown.edge? i =
      some [.ofInt g.edges[i].source, .ofInt g.edges[i].target]) ∧
    (∀ i, g.edges.length ≤ i → i < 64 → shown.edge? i = some [-1, -1]) ∧
    shown.revision = .ofNat revision ∧
    (∀ (c : Bank) (i : Nat), 6 ≤ i → shown.get? i = (c.apply (encode g revision)).get? i) ∧
    ∀ (h : RuntimeGraph) (c : Bank), g.Fits → h.Fits → shown = c.apply (encode h revision) →
      g = h := by
  intro shown
  refine ⟨?_, fun i hi => Bank.get?_apply_encode_host b g revision hi,
    Bank.header_apply_encode b g revision, fun i hi hroom => ?_, fun i hi hroom => ?_,
    fun i hi hroom => ?_, fun i hi hroom => ?_, Bank.revision_apply_encode b g revision,
    fun c i hi => ?_, fun h c hg hh heq => hg.eq_of_apply_encode hh heq⟩
  · rw [map_index_encode, Nat.eq_sub_of_add_eq' (length_bankValues g revision)]
    rfl
  · rw [Bank.node?_apply_encode b g revision hroom, List.getElem?_eq_getElem hi]
    rfl
  · rw [Bank.node?_apply_encode b g revision hroom, List.getElem?_eq_none hi]
    decide
  · rw [Bank.edge?_apply_encode b g revision hroom, List.getElem?_eq_getElem hi]
    rfl
  · rw [Bank.edge?_apply_encode b g revision hroom, List.getElem?_eq_none hi]
    decide
  · have hwritten : Bank.hostSize ≤ i := hi
    rw [Bank.get?_apply_encode, Bank.get?_apply_encode, if_pos hwritten, if_pos hwritten]

/-- More nodes and edges than there is room for. The slots of a node begin with what is no number and
a negative zero. -/
def crowdedGraph : RuntimeGraph where
  version := 1
  hasOutputPath := true
  nodes := List.replicate 17 ⟨7, false, .ofList [.nan, .zero true]⟩
  edges := List.replicate 65 ⟨0, 15⟩

/-- One node, in whose slots one of the two zeros comes first. -/
def loneGraph (negative : Bool) : RuntimeGraph where
  version := 1
  hasOutputPath := false
  nodes := [⟨4, true, .ofList [.zero negative]⟩]
  edges := [⟨0, 0⟩]

/-- A bank of a host that uses its own places shows a crowded graph, then a small one. -/
theorem encode_law_crowdedGraph :
    let crowded := (Bank.empty.set 2 7).apply (encode crowdedGraph 3)
    let lone := crowded.apply (encode (loneGraph false) 4)
    crowded.header.nodeCount = 16 ∧ crowded.edge? 63 = some [0, 15] ∧
    crowded.node? 15 = some [7, 0, .nan, .zero true, 0, 0, 0, 0, 0, 0, 0] ∧
    lone.get? 2 = some 7 ∧ lone.edge? 63 = some [-1, -1] ∧ lone.header.hasOutputPath = false ∧
    lone ≠ crowded.apply (encode (loneGraph true) 4) := by
  intro crowded lone
  obtain ⟨-, hhost, hheader, hnode, -, hedge, -, -, -, -⟩ :=
    encode_law crowdedGraph 3 (Bank.empty.set 2 7)
  obtain ⟨-, hhost', hheader', -, -, -, hunused, -, -, hsame⟩ := encode_law (loneGraph false) 4 crowded
  have hset : (Bank.empty.set 2 7).get? 2 = some 7 :=
    (Bank.get?_set _ 2 2 7 (by decide)).trans (if_pos rfl)
  have hfits : ∀ negative, (loneGraph negative).Fits := fun negative =>
    ⟨rfl, by simp [loneGraph, maxPayloadNodes], by simp [loneGraph, maxPayloadEdges],
      by simp [loneGraph], by simp [loneGraph]⟩
  refine ⟨?_, ?_, ?_, ?_, hunused 63 (by decide) (by decide), ?_, fun heq => ?_⟩
  · rw [hheader]
    decide
  · rw [hedge 63 (by decide) (by decide)]
    decide
  · rw [hnode 15 (by decide) (by decide)]
    decide
  · exact (hhost' 2 (by decide)).trans ((hhost 2 (by decide)).trans hset)
  · rw [hheader']
    rfl
  · exact absurd (hsame _ _ (hfits false) (hfits true) heq) (by decide)

end Pedalboard
