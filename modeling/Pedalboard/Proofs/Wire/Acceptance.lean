import Mathlib
import Pedalboard.Proofs.Json.Documents
import Pedalboard.Proofs.Wire.Documents

/-!
# Documents that are accepted alike

What the reader of payloads does not look at, said of pairs of documents.

**The order of keys** (`Reordered`). Objects anywhere in a document list their fields in another order.
Such documents have one canonical form, so what is read is the same to the last error.

**Fields that are not looked at** (`Extended`). The document, its nodes and its edges have more fields.
The fields of parameters are all looked at, so there are no more of them.

**The order of nodes and edges** (`Shuffled`). The two lists are permuted. Nodes with one id stand in the
order of the document, so the payload is the same only if the ids are different.

**Theorem (`accepts_contract`).** A text is accepted exactly if it is a document that describes a payload,
and the three differences do not matter. Blanks do not either, since they are no part of a document.
-/

namespace Pedalboard

open Json

/-! ## The order of keys -/

/-- The same document, with fields of objects in another order. Fields with one key keep theirs. -/
inductive Json.Reordered : Json → Json → Prop
  | refl (v : Json) : Reordered v v
  | trans {u v w : Json} : Reordered u v → Reordered v w → Reordered u w
  | keys {fs gs : List (String × Json)} : (∀ key, fs.filter (·.1 = key) = gs.filter (·.1 = key)) →
      Reordered (.object fs) (.object gs)
  | item {v w : Json} (before after : List Json) : Reordered v w →
      Reordered (.array (before ++ v :: after)) (.array (before ++ w :: after))
  | field {v w : Json} (key : String) (before after : List (String × Json)) : Reordered v w →
      Reordered (.object (before ++ (key, v) :: after)) (.object (before ++ (key, w) :: after))

/-- Different keys can stand in any order. -/
theorem Json.Reordered.of_perm {fs gs : List (String × Json)} (h : fs.Perm gs)
    (hkeys : (fs.map (·.1)).Nodup) : Reordered (.object fs) (.object gs) := by
  refine .keys fun key => ?_
  have hsingle : ∀ {es : List (String × Json)}, (es.map (·.1)).Nodup →
      (es.filter (·.1 = key)).Pairwise fun _ _ => False := by
    intro es hes
    refine ((List.pairwise_map.1 hes).filter _).imp_of_mem fun ha hb hne => hne ?_
    have hkeya := (List.mem_filter.1 ha).2
    have hkeyb := (List.mem_filter.1 hb).2
    exact (of_decide_eq_true hkeya).trans (of_decide_eq_true hkeyb).symm
  exact (h.filter _).eq_of_pairwise (fun _ _ _ _ hfalse => hfalse.elim) (hsingle hkeys)
    (hsingle ((h.map _).nodup_iff.1 hkeys))

/-- **The order of keys is no part of the canonical form.** -/
theorem Json.Reordered.canonical_eq {v w : Json} (h : Reordered v w) : v.canonical = w.canonical := by
  induction h with
  | refl => rfl
  | trans _ _ huv hvw => exact huv.trans hvw
  | keys hkeys =>
    rw [canonical_object, canonical_object, Keyed.entries_ofList_congr fun key => ?_]
    simp only [List.filter_map, Function.comp_def, hkeys key]
  | item before after _ ih => simp only [canonical_array, List.map_append, List.map_cons, ih]
  | field key before after _ ih => simp only [canonical_object, List.map_append, List.map_cons, ih]

/-! ## More fields -/

theorem Json.lastField?_cons (key : String) (f : String × Json) (fs : List (String × Json)) :
    lastField? key (f :: fs) = (lastField? key fs).or (if key = f.1 then some f.2 else none) := by
  rw [lastField?, List.reverse_cons, List.lookup_append, lookup_cons_ite]
  rfl

namespace Payload

/-- The fields of a payload that are looked at. -/
def payloadKeys : List String := ["schemaVersion", "nodes", "edges"]

/-- The fields of a node that are looked at. -/
def nodeKeys : List String := ["id", "kind", "bypass", "x", "y", "params"]

/-- The fields of an edge that are looked at. -/
def edgeKeys : List String := ["fromNodeId", "toNodeId"]

/-- `gs` has the fields of `fs`, with values that are the same in the sense of `Same`, and more fields
with keys that are not among the known ones. -/
inductive MoreFields (known : List String) (Same : String → Json → Json → Prop) : Fields → Fields → Prop
  | nil : MoreFields known Same [] []
  | field {key : String} {v w : Json} {fs gs : Fields} : Same key v w →
      MoreFields known Same fs gs → MoreFields known Same ((key, v) :: fs) ((key, w) :: gs)
  | extra {key : String} (w : Json) {fs gs : Fields} : key ∉ known →
      MoreFields known Same fs gs → MoreFields known Same fs ((key, w) :: gs)

/-- A known field is found in both, or in none. -/
theorem MoreFields.lastField? {known : List String} {Same : String → Json → Json → Prop}
    {fs gs : Fields} (h : MoreFields known Same fs gs) {key : String} (hkey : key ∈ known) :
    Option.Rel (Same key) (lastField? key fs) (lastField? key gs) := by
  induction h with
  | nil => exact .none
  | @field key' v w fs gs hsame _ ih =>
    rw [lastField?_cons, lastField?_cons]
    cases hfs : Json.lastField? key fs <;> cases hgs : Json.lastField? key gs <;>
      simp only [hfs, hgs, Option.not_rel_none_some, Option.not_rel_some_none] at ih
    · by_cases heq : key = key'
      · subst heq
        simpa using hsame
      · simp [heq]
    · exact ih
  | @extra key' w fs gs hextra _ ih =>
    have hne : key ≠ key' := fun heq => hextra (heq ▸ hkey)
    simpa [lastField?_cons, hne] using ih

/-- A node or an edge has more fields. -/
inductive ExtendedItem (known : List String) : Json → Json → Prop
  | same (v : Json) : ExtendedItem known v v
  | object {fs gs : Fields} : MoreFields known (fun _ => Eq) fs gs →
      ExtendedItem known (.object fs) (.object gs)

/-- A field of the document is the same, or is one of the two lists, which are the same in the sense of
`Nodes` or of `Edges`. -/
inductive SameField (Nodes Edges : List Json → List Json → Prop) : String → Json → Json → Prop
  | same (key : String) (v : Json) : SameField Nodes Edges key v v
  | nodes {vs ws : List Json} : Nodes vs ws → SameField Nodes Edges "nodes" (.array vs) (.array ws)
  | edges {vs ws : List Json} : Edges vs ws → SameField Nodes Edges "edges" (.array vs) (.array ws)

/-- The second document has the fields of the first, and more. -/
def SameRoot (Nodes Edges : List Json → List Json → Prop) (v w : Json) : Prop :=
  ∃ fs gs, v = .object fs ∧ w = .object gs ∧
    MoreFields payloadKeys (SameField Nodes Edges) fs gs

/-- The second document has more fields, in itself, in its nodes and in its edges. -/
def Extended : Json → Json → Prop :=
  SameRoot (List.Forall₂ (ExtendedItem nodeKeys)) (List.Forall₂ (ExtendedItem edgeKeys))

/-- The second document has its nodes and its edges in another order. -/
def Shuffled : Json → Json → Prop := SameRoot List.Perm List.Perm

/-! ## What is described -/

theorem MoreFields.lastField?_eq {known : List String} {fs gs : Fields}
    (h : MoreFields known (fun _ => Eq) fs gs) {key : String} (hkey : key ∈ known) :
    Json.lastField? key fs = Json.lastField? key gs := by
  have hrel := h.lastField? hkey
  revert hrel
  cases Json.lastField? key fs <;> cases Json.lastField? key gs <;> simp

variable {Nodes Edges : List Json → List Json → Prop}

/-- Only lists can differ. -/
theorem SameField.eq_or {key : String} {v w : Json} (h : SameField Nodes Edges key v w) :
    v = w ∨ ∃ vs ws, v = .array vs ∧ w = .array ws := by
  cases h with
  | same => exact .inl rfl
  | nodes => exact .inr ⟨_, _, rfl, rfl⟩
  | edges => exact .inr ⟨_, _, rfl, rfl⟩

/-- A number is found in both documents, or in none. -/
theorem SameField.number_iff {key : String} {a b : Option Json}
    (h : Option.Rel (SameField Nodes Edges key) a b) {m : Number} :
    a = some (.number m) ↔ b = some (.number m) := by
  cases h with
  | none => rfl
  | some h => obtain rfl | ⟨vs, ws, rfl, rfl⟩ := h.eq_or <;> simp

/-- A list is found in both documents, or in none. -/
theorem SameField.array {key : String} {a b : Option Json}
    (h : Option.Rel (SameField Nodes Edges key) a b) :
    (∃ vs ws, a = some (.array vs) ∧ b = some (.array ws) ∧
      SameField Nodes Edges key (.array vs) (.array ws)) ∨
      ∀ vs, a ≠ some (.array vs) ∧ b ≠ some (.array vs) := by
  cases h with
  | none => exact .inr fun vs => by simp
  | @some v w h =>
    obtain rfl | ⟨vs, ws, rfl, rfl⟩ := h.eq_or
    · cases v with
      | array vs => exact .inl ⟨vs, vs, rfl, rfl, h⟩
      | _ => exact .inr fun vs => by simp
    · exact .inl ⟨vs, ws, rfl, rfl, h⟩

theorem SameField.nodes_of {key : String} {vs ws : List Json} (hkey : key = "nodes")
    (hrefl : ∀ vs, Nodes vs vs) (h : SameField Nodes Edges key (.array vs) (.array ws)) :
    Nodes vs ws := by
  cases h with
  | same => exact hrefl vs
  | nodes h => exact h
  | edges => exact absurd hkey (by decide)

theorem SameField.edges_of {key : String} {vs ws : List Json} (hkey : key = "edges")
    (hrefl : ∀ vs, Edges vs vs) (h : SameField Nodes Edges key (.array vs) (.array ws)) :
    Edges vs ws := by
  cases h with
  | same => exact hrefl vs
  | nodes => exact absurd hkey (by decide)
  | edges h => exact h

/-- Both documents have the two lists, or none has. -/
theorem MoreFields.describesRoot {fs gs : Fields}
    (h : MoreFields payloadKeys (SameField Nodes Edges) fs gs)
    (hnodes : ∀ vs, Nodes vs vs) (hedges : ∀ vs, Edges vs vs) :
    (∃ nodes nodes' edges edges', DescribesRoot fs nodes edges ∧ DescribesRoot gs nodes' edges' ∧
      Nodes nodes nodes' ∧ Edges edges edges') ∨
      ∀ nodes edges, ¬DescribesRoot fs nodes edges ∧ ¬DescribesRoot gs nodes edges := by
  have hversion : Json.lastField? "schemaVersion" fs = some (.number (.integer 1)) ↔
      Json.lastField? "schemaVersion" gs = some (.number (.integer 1)) :=
    SameField.number_iff (h.lastField? (by decide))
  by_cases hfs : Json.lastField? "schemaVersion" fs = some (.number (.integer 1))
  · obtain ⟨nodes, nodes', hn, hn', hsame⟩ | hnone :=
      SameField.array (h.lastField? (show "nodes" ∈ payloadKeys by decide))
    · obtain ⟨edges, edges', he, he', hsame'⟩ | hnone :=
        SameField.array (h.lastField? (show "edges" ∈ payloadKeys by decide))
      · exact .inl ⟨nodes, nodes', edges, edges', ⟨hfs, hn, he⟩, ⟨hversion.1 hfs, hn', he'⟩,
          hsame.nodes_of rfl hnodes, hsame'.edges_of rfl hedges⟩
      · exact .inr fun _ edges => ⟨fun h => (hnone edges).1 h.edges, fun h => (hnone edges).2 h.edges⟩
    · exact .inr fun nodes _ => ⟨fun h => (hnone nodes).1 h.nodes, fun h => (hnone nodes).2 h.nodes⟩
  · exact .inr fun _ _ => ⟨fun h => hfs h.version, fun h => hfs (hversion.2 h.version)⟩

/-- The lists of a document decide what it describes. -/
theorem DescribesRoot.describes {fs : Fields} {nodes edges : List Json}
    (h : DescribesRoot fs nodes edges) {p : Payload} :
    Describes (.object fs) p ↔ DescribesLists nodes edges p := by
  constructor
  · rintro ⟨nodes', edges', ⟨_, hobject, h'⟩, hlists⟩
    cases hobject
    cases h.nodes.symm.trans h'.nodes
    cases h.edges.symm.trans h'.edges
    exact hlists
  · intro hlists
    exact ⟨nodes, edges, ⟨fs, rfl, h⟩, hlists⟩

/-- Both documents have two lists that decide, or none describes anything. -/
theorem SameRoot.describes {v w : Json} (h : SameRoot Nodes Edges v w) (hnodes : ∀ vs, Nodes vs vs)
    (hedges : ∀ vs, Edges vs vs) : (∀ p, ¬Describes v p ∧ ¬Describes w p) ∨
      ∃ nodes nodes' edges edges', Nodes nodes nodes' ∧ Edges edges edges' ∧
        (∀ p, Describes v p ↔ DescribesLists nodes edges p) ∧
        ∀ p, Describes w p ↔ DescribesLists nodes' edges' p := by
  obtain ⟨fs, gs, rfl, rfl, hfields⟩ := h
  obtain ⟨nodes, nodes', edges, edges', hfs, hgs, hn, he⟩ | hnone :=
    hfields.describesRoot hnodes hedges
  · exact .inr ⟨nodes, nodes', edges, edges', hn, he, fun _ => hfs.describes, fun _ => hgs.describes⟩
  · left
    intro p
    constructor
    · rintro ⟨nodes, edges, ⟨_, hobject, h⟩, -⟩
      cases hobject
      exact (hnone nodes edges).1 h
    · rintro ⟨nodes, edges, ⟨_, hobject, h⟩, -⟩
      cases hobject
      exact (hnone nodes edges).2 h

/-! ## More fields do not matter -/

theorem ExtendedItem.objectWith {known : List String} {P : Fields → Prop} {v w : Json}
    (h : ExtendedItem known v w) (hP : ∀ {fs gs : Fields},
      (∀ key ∈ known, Json.lastField? key fs = Json.lastField? key gs) → P fs → P gs) :
    ObjectWith P v ↔ ObjectWith P w := by
  cases h with
  | same => rfl
  | @object fs gs hfields =>
    have heq : ∀ key ∈ known, Json.lastField? key fs = Json.lastField? key gs :=
      fun _ hkey => hfields.lastField?_eq hkey
    simp only [ObjectWith, Json.object.injEq, exists_eq_left']
    exact ⟨hP heq, hP fun key hkey => (heq key hkey).symm⟩

theorem DescribesNode.of_lastField? {fs gs : Fields} {n : Node}
    (heq : ∀ key ∈ nodeKeys, Json.lastField? key fs = Json.lastField? key gs)
    (h : DescribesNode fs n) : DescribesNode gs n := by
  obtain ⟨hid, hkind, hbypass, hx, hy, hparams⟩ := h
  simp only [nodeKeys, List.forall_mem_cons] at heq
  obtain ⟨h1, h2, h3, h4, h5, h6, -⟩ := heq
  exact ⟨h1 ▸ hid, h2 ▸ hkind, h3 ▸ hbypass, h4 ▸ hx, h5 ▸ hy, h6 ▸ hparams⟩

theorem DescribesEdge.of_lastField? {fs gs : Fields} {e : Edge}
    (heq : ∀ key ∈ edgeKeys, Json.lastField? key fs = Json.lastField? key gs)
    (h : DescribesEdge fs e) : DescribesEdge gs e := by
  obtain ⟨hsource, htarget⟩ := h
  simp only [edgeKeys, List.forall_mem_cons] at heq
  obtain ⟨h1, h2, -⟩ := heq
  exact ⟨h1 ▸ hsource, h2 ▸ htarget⟩

theorem forall₂_congr_left {α β γ : Type} {R : α → β → Prop} {P : α → γ → Prop} {Q : β → γ → Prop}
    {as : List α} {bs : List β} (h : List.Forall₂ R as bs) (hPQ : ∀ a b c, R a b → (P a c ↔ Q b c))
    (cs : List γ) : List.Forall₂ P as cs ↔ List.Forall₂ Q bs cs := by
  induction h generalizing cs with
  | nil => simp
  | cons hab _ ih => cases cs <;> simp [hPQ _ _ _ hab, ih]

/-- **Fields that are not looked at** do not change what is described. -/
theorem Extended.describes {v w : Json} (h : Extended v w) (p : Payload) :
    Describes v p ↔ Describes w p := by
  obtain hnone | ⟨nodes, nodes', edges, edges', hnodes, hedges, hv, hw⟩ :=
    SameRoot.describes h (fun vs => List.forall₂_same.2 fun v _ => .same v)
      fun vs => List.forall₂_same.2 fun v _ => .same v
  · exact iff_of_false (hnone p).1 (hnone p).2
  · have hnode := fun ns => forall₂_congr_left hnodes (fun v w n hvw =>
      ExtendedItem.objectWith (P := (DescribesNode · n)) hvw DescribesNode.of_lastField?) ns
    have hedge := fun es => forall₂_congr_left hedges (fun v w e hvw =>
      ExtendedItem.objectWith (P := (DescribesEdge · e)) hvw DescribesEdge.of_lastField?) es
    simp only [hv, hw, DescribesLists, hnode, hedge]

/-! ## The order of nodes and edges does not matter -/

/-- Lists in another order describe the same nodes and edges, in canonical order again. -/
theorem DescribesLists.perm {nodes nodes' edges edges' : List Json} {p : Payload}
    (hnodes : nodes.Perm nodes') (hedges : edges.Perm edges') (h : DescribesLists nodes edges p) :
    ∃ q, DescribesLists nodes' edges' q ∧ ((p.nodes.map (·.id)).Nodup → q = p) := by
  obtain ⟨ns, es, hns, hes, hleast, hmost, hfew, hends, horder⟩ := h
  obtain ⟨ns', hns', hn⟩ := List.perm_comp_forall₂ hnodes.symm hns
  obtain ⟨es', hes', he⟩ := List.perm_comp_forall₂ hedges.symm hes
  refine ⟨sort { nodes := ns', edges := es' }, ⟨ns', es', hns', hes', ?_, ?_, ?_, ?_,
    eq_sort_iff.1 rfl⟩, fun hids => ?_⟩
  · rwa [hn.length_eq]
  · rwa [hn.length_eq]
  · rwa [he.length_eq]
  · simpa only [hn.mem_iff, he.mem_iff] using hends
  · have hids' : (ns'.map (·.id)).Nodup :=
      ((hn.trans horder.2.1.perm.symm).map _).nodup_iff.2 hids
    rw [eq_sort_iff.2 horder, sort, sort, (sortNodes_eq_iff hids').2 hn, sortEdges_eq_iff.2 he]

/-- **The order of nodes and edges** does not change whether something is described, and not what, if
the ids are different. -/
theorem Shuffled.describes {v w : Json} (h : Shuffled v w) :
    ((∃ p, Describes v p) ↔ ∃ p, Describes w p) ∧
      ∀ p, (p.nodes.map (·.id)).Nodup → (Describes v p ↔ Describes w p) := by
  obtain hnone | ⟨nodes, nodes', edges, edges', hnodes, hedges, hv, hw⟩ :=
    SameRoot.describes h List.Perm.refl List.Perm.refl
  · exact ⟨iff_of_false (fun ⟨p, hp⟩ => (hnone p).1 hp) fun ⟨p, hp⟩ => (hnone p).2 hp,
      fun p _ => iff_of_false (hnone p).1 (hnone p).2⟩
  · simp only [hv, hw]
    refine ⟨⟨fun ⟨p, hp⟩ => ?_, fun ⟨p, hp⟩ => ?_⟩, fun p hids => ⟨fun hp => ?_, fun hp => ?_⟩⟩
    · obtain ⟨q, hq, -⟩ := hp.perm hnodes hedges
      exact ⟨q, hq⟩
    · obtain ⟨q, hq, -⟩ := hp.perm hnodes.symm hedges.symm
      exact ⟨q, hq⟩
    · obtain ⟨q, hq, heq⟩ := hp.perm hnodes hedges
      exact heq hids ▸ hq
    · obtain ⟨q, hq, heq⟩ := hp.perm hnodes.symm hedges.symm
      exact heq hids ▸ hq

/-! ## Texts -/

/-- A text is read through the canonical form of the document that it is. -/
theorem deserialize_of_isDocument {v : Json} {text : String} (h : IsDocument v text) :
    deserialize text = ofJson v.canonical := by
  rw [deserialize, parse?_eq_some.2 ⟨v, h, rfl⟩]
  rfl

/-- **The texts that are accepted** are the documents that describe a payload, and this payload is what
is read. Blanks and the order of keys make no difference at all, more fields none to what is accepted
and what is read, and the order of nodes and edges none to what is accepted, and to what is read none
if the ids are different. -/
theorem accepts_contract :
    (∀ (text : String) (p : Payload),
      deserialize text = .ok p ↔ ∃ v, IsDocument v text ∧ Describes v p) ∧
    ∀ {v w : Json} {text other : String}, IsDocument v text → IsDocument w other →
      (Reordered v w → deserialize text = deserialize other) ∧
      (Extended v w → ∀ p, deserialize text = .ok p ↔ deserialize other = .ok p) ∧
      (Shuffled v w → ((∃ p, deserialize text = .ok p) ↔ ∃ p, deserialize other = .ok p) ∧
        ∀ p, (p.nodes.map (·.id)).Nodup → (deserialize text = .ok p ↔ deserialize other = .ok p)) := by
  refine ⟨fun _ _ => deserialize_eq_ok_iff, fun {v w text other} hv hw => ?_⟩
  rw [deserialize_of_isDocument hv, deserialize_of_isDocument hw]
  refine ⟨fun h => by rw [h.canonical_eq], fun h p => ?_, fun h => ?_⟩
  · rw [ofJson_canonical, ofJson_canonical]
    exact h.describes p
  · simp only [ofJson_canonical]
    exact h.describes

/-! ### A board in four documents -/

/-- An anchor at the origin, and more fields. -/
def anchorFields (name : String) (more : Fields) : Fields :=
  [("id", .string name), ("kind", .string name), ("bypass", .bool false), ("x", natural 0),
    ("y", natural 0), ("params", .object [])] ++ more

/-- A cable between the anchors. -/
def cableFields : Fields := [("fromNodeId", .string "input"), ("toNodeId", .string "output")]

/-- A board with one cable, and more fields. -/
def boardFields (nodes : List Fields) (more : Fields) : Fields :=
  [("schemaVersion", natural 1), ("nodes", .array (nodes.map .object)),
    ("edges", .array [.object cableFields])] ++ more

def plainBoard : Fields := boardFields [anchorFields "output" [], anchorFields "input" []] []

def notedBoard : Fields :=
  boardFields [anchorFields "output" [("label", .string "out")], anchorFields "input" []] [("note", .null)]

def turnedBoard : Fields :=
  boardFields [anchorFields "input" [], anchorFields "output" [("label", .string "out")]] [("note", .null)]

def anchorsPayload : Payload where
  nodes := [{ id := inputId, kind := .input, x := 0, y := 0 },
    { id := outputId, kind := .output, x := 0, y := 0 }]
  edges := [⟨inputId, outputId⟩]

section Texts

variable (k : Nat)

theorem spells_string (s : String) : Spells k (.string s) (compactText (.string s)) := by
  rw [compactText]
  exact spells_scalar (spellsScalar_string s) k

theorem spells_natural {n : Nat} (h : n < naturalBound) :
    Spells k (natural n) (compactText (natural n)) := spells_scalar (spellsScalar_natural h) k

theorem spells_anchorFields (name : String) {more : Fields}
    (hmore : ∀ f ∈ more, Spells (k + 1) f.2 (compactText f.2)) :
    Spells (k + 2) (.object (anchorFields name more))
      (compactText (.object (anchorFields name more))) := by
  have hbypass : Spells (k + 1) (.bool false) _ := spells_scalar (spellsScalar_bool false) _
  have hzero : Spells (k + 1) (natural 0) _ := spells_natural (k + 1) (by decide)
  have hparams : Spells (k + 1) (.object []) _ := spells_compact_object (by simp)
  refine spells_compact_object ?_
  simpa [anchorFields, spells_string, hbypass, hzero, hparams] using hmore

theorem spells_boardFields {nodes : List Fields} {more : Fields}
    (hnodes : ∀ fs ∈ nodes, Spells (k + 2) (.object fs) (compactText (.object fs)))
    (hmore : ∀ f ∈ more, Spells (k + 3) f.2 (compactText f.2)) :
    ∀ f ∈ boardFields nodes more, Spells (k + 3) f.2 (compactText f.2) := by
  have hcable : Spells (k + 2) (.object cableFields) _ :=
    spells_compact_object (by simp [cableFields, spells_string])
  have hnodes : Spells (k + 3) (.array (nodes.map .object)) _ :=
    spells_compact_array (by simpa using hnodes)
  have hedges : Spells (k + 3) (.array [.object cableFields]) _ :=
    spells_compact_array (by simpa using hcable)
  have hone : Spells (k + 3) (natural 1) _ := spells_natural (k + 3) (by decide)
  simpa [boardFields, hnodes, hedges, hone] using hmore

end Texts

theorem describes_anchorFields (kind : Kind) :
    DescribesNode (anchorFields kind.name []) { id := kind.name, kind, x := 0, y := 0 } := by
  have hzero : DescribesSingle (natural 0) 0 := finiteSingle?_eq_some.1 (by decide +kernel)
  exact ⟨rfl, rfl, rfl, ⟨_, rfl, hzero⟩, ⟨_, rfl, hzero⟩, [], rfl, fun _ => .none⟩

theorem describes_plainBoard : Describes (.object plainBoard) anchorsPayload := by
  refine ⟨_, _, ⟨_, rfl, rfl, rfl, rfl⟩, anchorsPayload.nodes.reverse, anchorsPayload.edges, ?_, ?_,
    by decide, by decide, by decide, by decide, rfl, ?_, ?_⟩
  · exact .cons ⟨_, rfl, describes_anchorFields .output⟩
      (.cons ⟨_, rfl, describes_anchorFields .input⟩ .nil)
  · exact .cons ⟨_, rfl, rfl, rfl⟩ .nil
  · exact byIds_iff.2 (sortNodes_eq (by decide) (by decide) (by decide)).symm
  · exact byEnds_iff.2 (List.mergeSort_singleton _).symm

/-- The compact text of an object, with blanks around it. -/
def blankedText (fields : Fields) : String :=
  String.ofList (' ' :: (compactText (.object fields) ++ ['\n']))

theorem isDocument_blankedText {fields : Fields}
    (h : ∀ f ∈ fields, Spells 126 f.2 (compactText f.2)) :
    IsDocument (.object fields) (blankedText fields) :=
  ⟨[' '], _, ['\n'], by simp [IsBlank, isBlank], by simp [IsBlank, isBlank], spells_compact_object h,
    by simp [blankedText]⟩

/-- The keys in another order, then a note and a label more, then the anchors turned round: the board is
read all the same. -/
theorem accepts_contract_turnedBoard :
    IsDocument (.object plainBoard.reverse) (blankedText plainBoard.reverse) ∧
    IsDocument (.object plainBoard) (blankedText plainBoard) ∧
    IsDocument (.object notedBoard) (blankedText notedBoard) ∧
    IsDocument (.object turnedBoard) (blankedText turnedBoard) ∧
    Reordered (.object plainBoard.reverse) (.object plainBoard) ∧
    Extended (.object plainBoard) (.object notedBoard) ∧
    Shuffled (.object notedBoard) (.object turnedBoard) ∧
    deserialize (blankedText plainBoard.reverse) = .ok anchorsPayload ∧
    deserialize (blankedText turnedBoard) = .ok anchorsPayload := by
  have hplain : ∀ f ∈ plainBoard, Spells 126 f.2 (compactText f.2) :=
    spells_boardFields 123 (by simp [spells_anchorFields]) (by simp)
  have hnote : ∀ f ∈ [("note", Json.null)], Spells 126 f.2 (compactText f.2) :=
    List.forall_mem_singleton.2 (spells_scalar .null _)
  have hreversed := isDocument_blankedText (fun f hf => hplain f (List.mem_reverse.1 hf))
  have hnoted : IsDocument (.object notedBoard) (blankedText notedBoard) :=
    isDocument_blankedText (spells_boardFields 123 (by simp [spells_anchorFields, spells_string]) hnote)
  have hturned : IsDocument (.object turnedBoard) (blankedText turnedBoard) :=
    isDocument_blankedText (spells_boardFields 123 (by simp [spells_anchorFields, spells_string]) hnote)
  have hreordered : Reordered (.object plainBoard.reverse) (.object plainBoard) :=
    .of_perm (List.reverse_perm _) (by decide)
  have hlabel : ExtendedItem nodeKeys (.object (anchorFields "output" []))
      (.object (anchorFields "output" [("label", .string "out")])) :=
    .object (.field rfl (.field rfl (.field rfl (.field rfl (.field rfl (.field rfl
      (.extra _ (by decide) .nil)))))))
  have hextended : Extended (.object plainBoard) (.object notedBoard) :=
    ⟨_, _, rfl, rfl, .field (.same _ _) (.field (.nodes (.cons hlabel (.cons (.same _) .nil)))
      (.field (.same _ _) (.extra _ (by decide) .nil)))⟩
  have hshuffled : Shuffled (.object notedBoard) (.object turnedBoard) :=
    ⟨_, _, rfl, rfl, .field (.same _ _) (.field (.nodes (.swap _ _ _))
      (.field (.same _ _) (.field (.same _ _) .nil)))⟩
  obtain ⟨haccepts, hsame⟩ := accepts_contract
  have hread := (haccepts _ _).2 ⟨_, isDocument_blankedText hplain, describes_plainBoard⟩
  refine ⟨hreversed, isDocument_blankedText hplain, hnoted, hturned, hreordered, hextended, hshuffled,
    ?_, ?_⟩
  · rw [(hsame hreversed (isDocument_blankedText hplain)).1 hreordered, hread]
  · rw [← ((hsame hnoted hturned).2.2 hshuffled).2 _ (by decide)]
    rw [← (hsame (isDocument_blankedText hplain) hnoted).2.1 hextended, hread]

end Payload

end Pedalboard
