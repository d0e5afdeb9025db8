import Mathlib
import Pedalboard.Proofs.Json.Accepted
import Pedalboard.Proofs.Wire.Loading
import Pedalboard.Proofs.Wire.Reading

/-!
# Documents that describe a payload

**The contract** (`Describes`). What a document has to be in order to describe a payload, said of the
document as it stands in the text: which fields it has, of what kind they are, how many nodes and edges
there are, and which order they get. Of fields with one key the last one counts, and no other field is
looked at.

**Order** (`ByIds`, `ByEnds`). Nodes by id, those with one id as they stand, and edges by source and
target. There is one such order (`byIds_iff`, `byEnds_iff`).

**Theorem (`deserialize_eq_ok_iff`).** A text is read as a payload exactly if it is a document that
describes the payload.
-/

namespace Pedalboard

open Json

/-! ## Fields as they stand -/

/-- The field with a key; of several the last. -/
def Json.lastField? (key : String) (fields : List (String × Json)) : Option Json :=
  fields.reverse.lookup key

namespace Json

theorem field?_canonical (key : String) (fields : List (String × Json)) :
    field? key (Keyed.ofList (fields.map fun f => (f.1, f.2.canonical))).entries =
      (lastField? key fields).map canonical := by
  unfold field? lastField?
  rw [Keyed.lookup_ofList_eq_reverse, ← List.map_reverse, lookup_map]

variable {v : Json}

theorem canonical_eq_string {s : String} : v.canonical = .string s ↔ v = .string s := by
  cases v <;> simp [canonical]

theorem canonical_eq_bool {b : Bool} : v.canonical = .bool b ↔ v = .bool b := by
  cases v <;> simp [canonical]

theorem canonical_eq_array {ws : List Json} :
    v.canonical = .array ws ↔ ∃ vs, v = .array vs ∧ vs.map canonical = ws := by
  cases v <;> simp [canonical, canonicalItems_eq]

theorem canonical_eq_object {gs : List (String × Json)} : v.canonical = .object gs ↔
    ∃ fs, v = .object fs ∧ (Keyed.ofList (fs.map fun f => (f.1, f.2.canonical))).entries = gs := by
  cases v <;> simp [canonical, canonicalFields_eq]

@[simp] theorem finiteSingle?_canonical (v : Json) : v.canonical.finiteSingle? = v.finiteSingle? := by
  cases v <;> simp [canonical, finiteSingle?, double?]

theorem natural?_canonical {n : Nat} :
    v.canonical.natural? = some n ↔ v = .number (.integer n) := by
  cases v with
  | number m =>
    cases m with
    | integer i =>
      simp [canonical, natural?]
      omega
    | _ => simp [canonical, natural?]
  | _ => simp [canonical, natural?]

end Json

namespace Payload

/-! ## The contract -/

/-- A number whose double is finite as a single, and this single. -/
def DescribesSingle (w : Json) (x : Single) : Prop :=
  ∃ y, w.double? = some y ∧ y.narrow = x ∧ x.isFinite

/-- The last field with a key, for each key, is the parameter with this key. -/
def DescribesParams (raw : Fields) (params : Keyed Single) : Prop :=
  ∀ key, Option.Rel DescribesSingle (lastField? key raw) (params.get? key)

/-- An object with the fields of a node. -/
structure DescribesNode (fields : Fields) (n : Node) : Prop where
  id : lastField? "id" fields = some (.string n.id)
  kind : lastField? "kind" fields = some (.string n.kind.name)
  bypass : lastField? "bypass" fields = some (.bool n.bypass)
  x : ∃ w, lastField? "x" fields = some w ∧ DescribesSingle w n.x
  y : ∃ w, lastField? "y" fields = some w ∧ DescribesSingle w n.y
  params : ∃ raw, lastField? "params" fields = some (.object raw) ∧ DescribesParams raw n.params

/-- An object with the fields of an edge. -/
structure DescribesEdge (fields : Fields) (e : Edge) : Prop where
  source : lastField? "fromNodeId" fields = some (.string e.source)
  target : lastField? "toNodeId" fields = some (.string e.target)

/-- An object that satisfies `P`. -/
def ObjectWith (P : Fields → Prop) (v : Json) : Prop := ∃ fields, v = .object fields ∧ P fields

/-! ## Reading what is described -/

theorem finiteSingle?_eq_some {w : Json} {x : Single} :
    w.finiteSingle? = some x ↔ DescribesSingle w x := by
  unfold finiteSingle? DescribesSingle
  rw [Option.bind_eq_some_iff]
  refine exists_congr fun y => and_congr_right fun _ => ?_
  rw [Option.ite_none_right_eq_some, Option.some_inj]
  constructor
  · rintro ⟨hfinite, rfl⟩
    exact ⟨rfl, hfinite⟩
  · rintro ⟨rfl, hfinite⟩
    exact ⟨hfinite, rfl⟩

@[simp] theorem describesSingle_canonical {w : Json} {x : Single} :
    DescribesSingle w.canonical x ↔ DescribesSingle w x := by
  rw [← finiteSingle?_eq_some, finiteSingle?_canonical, finiteSingle?_eq_some]

/-- Singles that one document describes are the same. -/
theorem describesSingle_unique {a : Option Json} {b c : Option Single}
    (hb : Option.Rel DescribesSingle a b) (hc : Option.Rel DescribesSingle a c) : b = c := by
  cases hb with
  | none =>
    cases hc
    rfl
  | some hx =>
    cases hc with
    | some hy =>
      rw [← finiteSingle?_eq_some] at hx hy
      exact hx.symm.trans hy

section Params

variable {raw fields : Fields} {params : Keyed Single} {entries : List (String × Single)}
  (hfields : ∀ key, fields.lookup key = (lastField? key raw).map canonical)

include hfields

/-- What the canonical form of an object is read as, the object describes, key by key. -/
theorem describes_lookup (hread : List.Forall₂
      (fun f e => f.1 = e.1 ∧ f.2.finiteSingle? = some e.2) fields entries) (key : String) :
    Option.Rel DescribesSingle (lastField? key raw) (entries.lookup key) := by
  have hrel : Option.Rel (fun w x => w.finiteSingle? = some x) (fields.lookup key)
    (entries.lookup key) := lookup_rel hread key
  rw [hfields key] at hrel
  cases hfield : lastField? key raw <;> cases hentry : entries.lookup key <;>
    simp_all [finiteSingle?_eq_some]

/-- An object that describes parameters can be read. -/
theorem exists_read (hkeys : (fields.map Prod.fst).Nodup) (h : DescribesParams raw params) :
    ∃ entries : List (String × Single), List.Forall₂
      (fun f e => f.1 = e.1 ∧ f.2.finiteSingle? = some e.2) fields entries := by
  refine exists_forall₂ ?_
  rintro ⟨key, w⟩ hf
  have hfield := (lookup_eq_some_iff hkeys).2 hf
  rw [hfields key, Option.map_eq_some_iff] at hfield
  obtain ⟨v, hv, rfl⟩ := hfield
  have hrel := h key
  rw [hv] at hrel
  cases hx : params.get? key with
  | none => simp [hx] at hrel
  | some x =>
    refine ⟨(key, x), rfl, ?_⟩
    simpa [hx, finiteSingle?_eq_some] using hrel

end Params

theorem paramsOf_canonical {raw : Fields} {id : String} {params : Keyed Single} :
    paramsOf id (Keyed.ofList (raw.map fun f => (f.1, f.2.canonical))).entries = .ok params ↔
      DescribesParams raw params := by
  have hfields : ∀ key, List.lookup key _ = (lastField? key raw).map canonical :=
    fun key => field?_canonical key raw
  have hincreasing := (Keyed.ofList (raw.map fun f => (f.1, f.2.canonical))).increasing
  generalize (Keyed.ofList (raw.map fun f => (f.1, f.2.canonical))).entries = fields at *
  rw [paramsOf_eq_ok]
  constructor
  · rintro ⟨entries, hread, rfl⟩ key
    unfold Keyed.get?
    rw [Keyed.entries_ofList (hincreasing.of_same_keys (hread.imp fun _ _ h => h.1))]
    exact describes_lookup hfields hread key
  · intro h
    obtain ⟨entries, hread⟩ := exists_read hfields hincreasing.keys_nodup h
    have hsame : entries = params.entries :=
      (hincreasing.of_same_keys (hread.imp fun _ _ h => h.1)).eq_of_lookup_eq params.increasing
        fun key => describesSingle_unique (describes_lookup hfields hread key) (h key)
    exact ⟨entries, hread, by rw [hsame, Keyed.ofList_entries]⟩

/-- A field of the canonical object is the canonical form of the last field with its key. -/
theorem object_canonical {v : Json} {P : Fields → Prop} :
    (∃ fields, v.canonical = .object fields ∧ P fields) ↔
      ∃ fs, v = .object fs ∧ P (Keyed.ofList (fs.map fun f => (f.1, f.2.canonical))).entries := by
  simp only [canonical_eq_object]
  constructor
  · rintro ⟨_, ⟨fs, hv, rfl⟩, h⟩
    exact ⟨fs, hv, h⟩
  · rintro ⟨fs, hv, h⟩
    exact ⟨_, ⟨fs, hv, rfl⟩, h⟩

theorem nodeOf_canonical {v : Json} {n : Node} :
    nodeOf v.canonical = .ok n ↔ ObjectWith (DescribesNode · n) v := by
  rw [nodeOf_eq_ok]
  simp only [exists_and_left]
  rw [object_canonical]
  refine exists_congr fun fs => and_congr_right fun _ => ?_
  simp only [field?_canonical, Option.map_eq_some_iff, canonical_eq_string, canonical_eq_bool,
    exists_eq_right, Option.bind_eq_some_iff, exists_exists_and_eq_and,
    finiteSingle?_eq_some, describesSingle_canonical]
  constructor
  · rintro ⟨hid, hkind, hbypass, hx, hy, _, ⟨w, hw, hobject⟩, hparams⟩
    obtain ⟨raw, rfl, rfl⟩ := canonical_eq_object.1 hobject
    exact ⟨hid, hkind, hbypass, hx, hy, raw, hw, paramsOf_canonical.1 hparams⟩
  · rintro ⟨hid, hkind, hbypass, hx, hy, raw, hw, hparams⟩
    exact ⟨hid, hkind, hbypass, hx, hy, _, ⟨_, hw, canonical_object raw⟩,
      paramsOf_canonical.2 hparams⟩

theorem edgeOf_canonical {v : Json} {e : Edge} :
    edgeOf v.canonical = .ok e ↔ ObjectWith (DescribesEdge · e) v := by
  rw [edgeOf_eq_ok, object_canonical]
  refine exists_congr fun fs => and_congr_right fun _ => ?_
  simp only [field?_canonical, Option.map_eq_some_iff, canonical_eq_string, exists_eq_right]
  exact ⟨fun ⟨hsource, htarget⟩ => ⟨hsource, htarget⟩, fun h => ⟨h.source, h.target⟩⟩

/-! ## Canonical order -/

/-- `sorted` lists `nodes` by id, and those with one id as they stand in `nodes`. -/
structure ByIds (nodes sorted : List Node) : Prop where
  perm : sorted.Perm nodes
  ordered : sorted.Pairwise fun a b => a.id ≤ b.id
  stable : ∀ id, sorted.filter (·.id = id) = nodes.filter (·.id = id)

/-- `sorted` lists `edges` by source and target. -/
structure ByEnds (edges sorted : List Edge) : Prop where
  perm : sorted.Perm edges
  ordered : sorted.Pairwise fun a b =>
    a.source < b.source ∨ a.source = b.source ∧ a.target ≤ b.target

/-- A list by id has no node with an id before the first. -/
theorem filter_eq_nil_of_lt {a b : Node} {bs : List Node} (hlt : a.id < b.id)
    (hb : (b :: bs).Pairwise fun a b => a.id ≤ b.id) : (b :: bs).filter (·.id = a.id) = [] := by
  rw [List.filter_eq_nil_iff]
  intro n hn
  have hle : b.id ≤ n.id := by
    rcases List.mem_cons.1 hn with rfl | hn
    · exact le_rfl
    · exact (List.pairwise_cons.1 hb).1 n hn
  simpa using (hlt.trans_le hle).ne'

/-- Lists by id with the same nodes for each id, in the same order, are the same. -/
theorem eq_of_filter_id_eq {as bs : List Node} (ha : as.Pairwise fun a b => a.id ≤ b.id)
    (hb : bs.Pairwise fun a b => a.id ≤ b.id)
    (h : ∀ id, as.filter (·.id = id) = bs.filter (·.id = id)) : as = bs := by
  induction as generalizing bs with
  | nil =>
    cases bs with
    | nil => rfl
    | cons b bs => simpa using h b.id
  | cons a as ih =>
    cases bs with
    | nil => simpa using h a.id
    | cons b bs =>
      rcases lt_trichotomy a.id b.id with hlt | heq | hgt
      · simpa [filter_eq_nil_of_lt hlt hb] using h a.id
      · have hhead := h a.id
        simp only [List.filter_cons, heq, decide_true, if_true] at hhead
        obtain ⟨rfl, -⟩ := List.cons.inj hhead
        refine congrArg _ (ih ha.of_cons hb.of_cons fun id => ?_)
        have htail := h id
        by_cases hid : a.id = id <;> simpa [List.filter_cons, hid] using htail
      · simpa [filter_eq_nil_of_lt hgt ha] using h b.id

/-- Sorting keeps the order of nodes with one id. -/
theorem filter_sortNodes (nodes : List Node) (id : String) :
    (sortNodes nodes).filter (·.id = id) = nodes.filter (·.id = id) := by
  have hsame : (nodes.filter (·.id = id)).Pairwise fun a b => decide (a.id ≤ b.id) := by
    refine List.pairwise_of_forall_mem_list fun a ha b hb => ?_
    have hida : a.id = id := by simpa using (List.mem_filter.1 ha).2
    have hidb : b.id = id := by simpa using (List.mem_filter.1 hb).2
    simp [hida, hidb]
  have hsub : (nodes.filter (·.id = id)).Sublist (sortNodes nodes) :=
    List.sublist_mergeSort (fun _ _ _ hab hbc => by simp at *; exact hab.trans hbc)
      (fun a b => by simpa using le_total a.id b.id) hsame List.filter_sublist
  have hfilter : (nodes.filter (·.id = id)).Sublist ((sortNodes nodes).filter (·.id = id)) := by
    simpa using hsub.filter fun n => n.id = id
  exact (hfilter.eq_of_length ((sortNodes_perm nodes).filter _).length_eq.symm).symm

theorem byIds_iff {nodes sorted : List Node} : ByIds nodes sorted ↔ sorted = sortNodes nodes := by
  have hsorted : (sortNodes nodes).Pairwise fun a b => a.id ≤ b.id :=
    (pairwise_sortNodes nodes).imp of_decide_eq_true
  constructor
  · intro h
    exact eq_of_filter_id_eq h.ordered hsorted fun id => (h.stable id).trans (filter_sortNodes nodes id).symm
  · rintro rfl
    exact ⟨sortNodes_perm nodes, hsorted, filter_sortNodes nodes⟩

theorem byEnds_iff {edges sorted : List Edge} : ByEnds edges sorted ↔ sorted = sortEdges edges := by
  constructor
  · intro h
    have hperm := h.perm.trans (sortEdges_perm edges).symm
    exact hperm.eq_of_pairwise (fun _ _ _ _ => Edge.le_antisymm)
      (h.ordered.imp Edge.le_iff.2) (pairwise_sortEdges edges)
  · rintro rfl
    exact ⟨sortEdges_perm edges, (pairwise_sortEdges edges).imp Edge.le_iff.1⟩

/-! ## Documents -/

/-- An object with version `1` and two lists. -/
structure DescribesRoot (fields : Fields) (nodes edges : List Json) : Prop where
  version : lastField? "schemaVersion" fields = some (.number (.integer 1))
  nodes : lastField? "nodes" fields = some (.array nodes)
  edges : lastField? "edges" fields = some (.array edges)

/-- Lists of objects describe the nodes and edges of a payload: at least one node, not more of either
than a payload holds, and edges that join the nodes. -/
def DescribesLists (nodes edges : List Json) (p : Payload) : Prop :=
  ∃ ns es, List.Forall₂ (fun v n => ObjectWith (DescribesNode · n) v) nodes ns ∧
    List.Forall₂ (fun v e => ObjectWith (DescribesEdge · e) v) edges es ∧
    1 ≤ ns.length ∧ ns.length ≤ 16 ∧ es.length ≤ 64 ∧
    (∀ e ∈ es, (∃ n ∈ ns, n.id = e.source) ∧ ∃ n ∈ ns, n.id = e.target) ∧
    p.version = 1 ∧ ByIds ns p.nodes ∧ ByEnds es p.edges

/-- **The document describes the payload.** -/
def Describes (v : Json) (p : Payload) : Prop :=
  ∃ nodes edges, ObjectWith (DescribesRoot · nodes edges) v ∧ DescribesLists nodes edges p

/-- A node that is described has finite numbers. -/
theorem DescribesNode.finite {fields : Fields} {n : Node} (h : DescribesNode fields n) : n.Finite := by
  obtain ⟨_, -, _, -, -, hx⟩ := h.x
  obtain ⟨_, -, _, -, -, hy⟩ := h.y
  obtain ⟨raw, -, hparams⟩ := h.params
  refine ⟨hx, hy, fun e he => ?_⟩
  have hrel := hparams e.1
  rw [Keyed.get?, (lookup_eq_some_iff n.params.increasing.keys_nodup).2 he] at hrel
  cases hfield : lastField? e.1 raw with
  | none => simp [hfield] at hrel
  | some w =>
    rw [hfield, Option.rel_some_some] at hrel
    obtain ⟨_, -, -, hfinite⟩ := hrel
    exact hfinite

/-- What is described and sorted is valid. -/
theorem valid_sort_iff {nodes : List Json} {ns : List Node} {es : List Edge}
    (hns : List.Forall₂ (fun v n => ObjectWith (DescribesNode · n) v) nodes ns) :
    (sort { nodes := ns, edges := es }).problem? = none ↔
      1 ≤ ns.length ∧ ns.length ≤ 16 ∧ es.length ≤ 64 ∧
      ∀ e ∈ es, (∃ n ∈ ns, n.id = e.source) ∧ ∃ n ∈ ns, n.id = e.target := by
  have hfinite : ∀ n ∈ ns, n.Finite := by
    induction hns with
    | nil => simp
    | cons hv _ ih =>
      obtain ⟨fields, -, hfields⟩ := hv
      exact List.forall_mem_cons.2 ⟨hfields.finite, ih⟩
  rw [problem?_sort_eq_none_iff, problem?_eq_none_iff]
  simp only [List.mem_map]
  constructor
  · rintro ⟨-, hne, hnodes, hedges, -, hends⟩
    exact ⟨List.length_pos_iff.2 hne, hnodes, hedges, hends⟩
  · rintro ⟨hne, hnodes, hedges, hends⟩
    exact ⟨trivial, List.length_pos_iff.1 hne, hnodes, hedges, hfinite, hends⟩

theorem eq_sort_iff {p : Payload} {ns : List Node} {es : List Edge} :
    p = sort { nodes := ns, edges := es } ↔ p.version = 1 ∧ ByIds ns p.nodes ∧ ByEnds es p.edges := by
  obtain ⟨version, nodes, edges⟩ := p
  rw [byIds_iff, byEnds_iff, sort, Payload.mk.injEq]
  exact Iff.rfl

theorem forall₂_nodeOf_canonical {nodes : List Json} {ns : List Node} :
    List.Forall₂ (fun v n => nodeOf v = .ok n) (nodes.map canonical) ns ↔
      List.Forall₂ (fun v n => ObjectWith (DescribesNode · n) v) nodes ns := by
  simp only [List.forall₂_map_left_iff, nodeOf_canonical]

theorem forall₂_edgeOf_canonical {edges : List Json} {es : List Edge} :
    List.Forall₂ (fun v e => edgeOf v = .ok e) (edges.map canonical) es ↔
      List.Forall₂ (fun v e => ObjectWith (DescribesEdge · e) v) edges es := by
  simp only [List.forall₂_map_left_iff, edgeOf_canonical]

/-- **The reader of documents** gives what the canonical form of a document describes. -/
theorem ofJson_canonical {v : Json} {p : Payload} : ofJson v.canonical = .ok p ↔ Describes v p := by
  rw [ofJson_eq_ok]
  constructor
  · rintro ⟨_, _, _, ns, es, hv, hnodes, hedges, hversion, hns, hes, rfl, hvalid⟩
    obtain ⟨fs, rfl, rfl⟩ := canonical_eq_object.1 hv
    simp only [field?_canonical, Option.map_eq_some_iff, canonical_eq_array] at hnodes hedges
    obtain ⟨_, hnodes, nodes, rfl, rfl⟩ := hnodes
    obtain ⟨_, hedges, edges, rfl, rfl⟩ := hedges
    rw [forall₂_nodeOf_canonical] at hns
    rw [forall₂_edgeOf_canonical] at hes
    obtain ⟨hleast, hmost, hfew, hends⟩ := (valid_sort_iff hns).1 hvalid
    refine ⟨nodes, edges, ⟨fs, rfl, ?_, hnodes, hedges⟩, ns, es, hns, hes, hleast, hmost, hfew, hends,
      eq_sort_iff.1 rfl⟩
    rw [field?_canonical, Option.bind_eq_some_iff] at hversion
    obtain ⟨_, hfield, hnatural⟩ := hversion
    obtain ⟨w, hw, rfl⟩ := Option.map_eq_some_iff.1 hfield
    rw [hw, natural?_canonical.1 hnatural]
    rfl
  · rintro ⟨nodes, edges, ⟨fs, rfl, hversion, hnodes, hedges⟩, ns, es, hns, hes, hleast, hmost, hfew,
      hends, horder⟩
    obtain rfl := eq_sort_iff.2 horder
    refine ⟨_, nodes.map canonical, edges.map canonical, ns, es, canonical_object fs, ?_, ?_, ?_,
      forall₂_nodeOf_canonical.2 hns, forall₂_edgeOf_canonical.2 hes, rfl,
      (valid_sort_iff hns).2 ⟨hleast, hmost, hfew, hends⟩⟩
    · rw [field?_canonical, hnodes, Option.map_some, canonical_array]
    · rw [field?_canonical, hedges, Option.map_some, canonical_array]
    · rw [field?_canonical, hversion, Option.map_some, Option.bind_some, natural?_canonical]
      rfl

/-- **A text is read as a payload** exactly if it is a document that describes the payload. -/
theorem deserialize_eq_ok_iff {text : String} {p : Payload} :
    deserialize text = .ok p ↔ ∃ v, IsDocument v text ∧ Describes v p := by
  rw [deserialize_eq_ok]
  simp only [parse?_eq_some]
  constructor
  · rintro ⟨_, ⟨v, hv, rfl⟩, hp⟩
    exact ⟨v, hv, ofJson_canonical.1 hp⟩
  · rintro ⟨v, hv, hp⟩
    exact ⟨_, ⟨v, hv, rfl⟩, ofJson_canonical.2 hp⟩

end Payload

end Pedalboard
