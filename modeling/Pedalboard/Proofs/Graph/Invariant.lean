import Mathlib
import Pedalboard.Proofs.Graph.Acyclic
import Pedalboard.Proofs.Graph.Edit
import Pedalboard.Wire.Payload

/-!
# The invariant of graph states

**States that occur** (`Reaches`). Those made by edits, refused ones included, from a start: a new
board, parts that were accepted, or a document that was loaded.

**The invariant** (`State.WellFormed`). Ids are unique, each anchor stands once and under its own
id, edges join different nodes at most once and close no cycle, every stored edge carries the id
made from its ends, the nodes fit the limit, and the selection is a node.

**Theorem (`invariant_of_reaches`).** Every state that occurs is well-formed
(`Reaches.wellFormed`), spelled out in terms of the state alone.

Parts are accepted only if they are well-formed, and each edit keeps the invariant: one lemma per
edit, from what `Pedalboard.Proofs.Graph.Edit` says about it.
-/

namespace Pedalboard

namespace State

/-! ## States that occur -/

/-- A state made by edits from one that satisfies `start`. -/
inductive Reaches (start : State → Prop) : State → Prop
  | start {s : State} : start s → Reaches start s
  | edit {s : State} (a : Action) : Reaches start s → Reaches start (s.apply a)

/-- What holds at the start and is kept by edits holds of every state that occurs. -/
theorem Reaches.invariant {start P : State → Prop} (hstart : ∀ s, start s → P s)
    (hedit : ∀ s a, P s → P (s.apply a)) {s : State} (h : Reaches start s) : P s := by
  induction h with
  | start h => exact hstart _ h
  | edit a _ ih => exact hedit _ a ih

theorem Reaches.mono {start start' : State → Prop} (hsub : ∀ s, start s → start' s) {s : State}
    (h : Reaches start s) : Reaches start' s :=
  h.invariant (fun s hs => .start (hsub s hs)) fun _ a hs => .edit a hs

theorem Reaches.applyAll {start : State → Prop} {s : State} (h : Reaches start s)
    (actions : List Action) : Reaches start (s.applyAll actions) := by
  induction actions generalizing s with
  | nil => exact h
  | cons a actions ih => exact ih (h.edit a)

/-- A new board, or a document that was loaded. -/
def Opened (s : State) : Prop :=
  (∃ limit, s = initial limit) ∨ ∃ (p : Payload) (limit : Nat), p.hydrate limit = .ok s

/-- Any edits of a new board. -/
theorem reaches_applyAll_initial (limit : Nat) (actions : List Action) :
    Reaches Opened ((initial limit).applyAll actions) :=
  (Reaches.start (.inl ⟨limit, rfl⟩)).applyAll actions

/-- A new board, a document that was loaded, or parts that were accepted, whatever ids their edges
came with. -/
def Built (s : State) : Prop :=
  Opened s ∨ ∃ nodes edges selected limit, ofLabelledParts nodes edges selected limit = .ok s

/-! ## The invariant -/

structure WellFormed (s : State) : Prop where
  ids_nodup : s.ids.Nodup
  /-- There is one input, and its id is that of the input anchor. -/
  input : s.idsOf .input = [inputId]
  output : s.idsOf .output = [outputId]
  edges_nodup : s.edges.Nodup
  /-- The stored id of an edge is the one made from its ends. -/
  labels : ∀ e ∈ s.labelled, e.id = e.label
  ends : ∀ e ∈ s.edges, e.source ≠ e.target ∧ e.source ∈ s.ids ∧ e.target ∈ s.ids
  acyclic : Acyclic s.edges
  fits : s.nodes.length ≤ s.nodeLimit
  limit : minNodeLimit ≤ s.nodeLimit ∧ s.nodeLimit ≤ maxNodeLimit
  selected : ∀ id, s.selected = some id → id ∈ s.ids

variable {s t : State}

/-- On well-formed states nothing is lost with the ids of edges. -/
theorem WellFormed.labelled_eq (h : s.WellFormed) : s.labelled = s.edges.map Edge.labelled := by
  have hsame : ∀ e ∈ s.labelled, e = e.toEdge.labelled := fun e he => by
    rw [Edge.labelled, ← h.labels e he]
  rw [edges, List.map_map]
  exact (List.map_id _).symm.trans (List.map_congr_left hsame)

theorem WellFormed.labelled_mem (h : s.WellFormed) {e : Edge} (he : e ∈ s.edges) :
    e.labelled ∈ s.labelled := by
  rw [h.labelled_eq]
  exact List.mem_map_of_mem he

/-! ## Starting points -/

theorem minNodeLimit_le_clamp (limit : Nat) : minNodeLimit ≤ clampNodeLimit limit :=
  Nat.le_max_left _ _

theorem clamp_le_maxNodeLimit (limit : Nat) : clampNodeLimit limit ≤ maxNodeLimit :=
  Nat.max_le.2 ⟨by decide, Nat.min_le_right _ _⟩

theorem hasCycle_iff_of_ends {ids : List String} {edges : List Edge}
    (hends : ∀ e ∈ edges, e.source ∈ ids ∧ e.target ∈ ids) :
    hasCycle ids edges = false ↔ Acyclic edges := by
  rw [hasCycle_eq_false_iff, known_eq_self hends]

theorem wellFormed_initial (limit : Nat) : (initial limit).WellFormed where
  ids_nodup := by simp [initial, ids, inputId, outputId]
  input := rfl
  output := rfl
  edges_nodup := by simp [initial]
  labels := by simp [initial]
  ends := by simp [initial, ids, inputId, outputId]
  acyclic := (hasCycle_iff_of_ends (by simp [initial])).1
    (by decide : hasCycle [inputId, outputId] [⟨inputId, outputId⟩] = false)
  fits := (by decide : 2 ≤ minNodeLimit).trans (minNodeLimit_le_clamp limit)
  limit := ⟨minNodeLimit_le_clamp limit, clamp_le_maxNodeLimit limit⟩
  selected := by simp [initial]

theorem hasDuplicate_eq_false_iff {ids : List String} : hasDuplicate ids = false ↔ ids.Nodup := by
  induction ids with
  | nil => simp [hasDuplicate]
  | cons id rest ih => simp [hasDuplicate, ih]

theorem anchorPresent_iff {nodes : List Node} {k : Kind} {id : String} :
    anchorPresent nodes k id = true ↔ (nodes.filter (·.kind = k)).map (·.id) = [id] := by
  unfold anchorPresent
  split
  · rename_i n hn
    simp [hn]
  · rename_i hn
    simp only [Bool.false_eq_true, false_iff, List.map_eq_singleton_iff, not_exists, not_and]
    exact fun n h _ => hn n h

theorem edgeProblem?_eq_none_iff {ids : List String} {earlier edges : List Edge} :
    edgeProblem? ids earlier edges = none ↔
      (∀ e ∈ edges, (e.source ≠ e.target ∧ e.source ∈ ids ∧ e.target ∈ ids) ∧ e ∉ earlier) ∧
        edges.Nodup := by
  induction edges generalizing earlier with
  | nil => simp [edgeProblem?]
  | cons e rest ih =>
    rw [edgeProblem?]
    split_ifs with hself hends hdup
    · simp [hself]
    · simp only [Bool.or_eq_true, Bool.not_eq_true', List.contains_eq_mem,
        decide_eq_false_iff_not] at hends
      simp only [List.forall_mem_cons, false_iff]
      tauto
    · have hmem : e ∈ earlier := by simpa using hdup
      simp [hmem]
    · simp only [Bool.or_eq_true, Bool.not_eq_true', List.contains_eq_mem,
        decide_eq_false_iff_not, not_or, not_not] at hends
      have hnot : e ∉ earlier := by simpa using hdup
      rw [ih, List.forall_mem_cons, List.nodup_cons]
      constructor
      · rintro ⟨hrest, hnodup⟩
        refine ⟨⟨⟨⟨hself, hends⟩, hnot⟩, fun f hf => ?_⟩, fun he => ?_, hnodup⟩
        · exact ⟨(hrest f hf).1, fun hmem => (hrest f hf).2 (List.mem_cons_of_mem _ hmem)⟩
        · exact (hrest e he).2 List.mem_cons_self
      · rintro ⟨⟨-, hrest⟩, he, hnodup⟩
        refine ⟨fun f hf => ⟨(hrest f hf).1, fun hmem => ?_⟩, hnodup⟩
        rcases List.mem_cons.1 hmem with rfl | hmem
        · exact he hf
        · exact (hrest f hf).2 hmem

theorem partsProblem?_eq_none {nodes : List Node} {edges : List Edge} :
    partsProblem? nodes edges = none ↔
      nodes.length ≤ maxNodeLimit ∧ hasDuplicate (nodes.map (·.id)) = false ∧
      anchorPresent nodes .input inputId ∧ anchorPresent nodes .output outputId ∧
      edgeProblem? (nodes.map (·.id)) [] edges = none ∧
      hasCycle (nodes.map (·.id)) edges = false := by
  rw [partsProblem?, ← Nat.not_lt]
  cases anchorPresent nodes .input inputId <;> cases anchorPresent nodes .output outputId <;>
    cases edgeProblem? (nodes.map (·.id)) [] edges <;> split_ifs <;> simp_all

/-- **Parts are accepted exactly when they form a graph.** -/
theorem partsProblem?_eq_none_iff {nodes : List Node} {edges : List Edge} :
    partsProblem? nodes edges = none ↔
      nodes.length ≤ maxNodeLimit ∧ (nodes.map (·.id)).Nodup ∧
      (nodes.filter (·.kind = .input)).map (·.id) = [inputId] ∧
      (nodes.filter (·.kind = .output)).map (·.id) = [outputId] ∧
      (∀ e ∈ edges, e.source ≠ e.target ∧ e.source ∈ nodes.map (·.id) ∧
        e.target ∈ nodes.map (·.id)) ∧
      edges.Nodup ∧ Acyclic edges := by
  have hedges := @edgeProblem?_eq_none_iff (nodes.map (·.id)) [] edges
  simp only [List.not_mem_nil, not_false_eq_true, and_true] at hedges
  rw [partsProblem?_eq_none, hasDuplicate_eq_false_iff, anchorPresent_iff, anchorPresent_iff,
    hedges, and_assoc]
  constructor
  · rintro ⟨hlen, hids, hinput, houtput, hends, hnodup, hcycle⟩
    exact ⟨hlen, hids, hinput, houtput, hends, hnodup,
      (hasCycle_iff_of_ends fun e he => (hends e he).2).1 hcycle⟩
  · rintro ⟨hlen, hids, hinput, houtput, hends, hnodup, hacyclic⟩
    exact ⟨hlen, hids, hinput, houtput, hends, hnodup,
      (hasCycle_iff_of_ends fun e he => (hends e he).2).2 hacyclic⟩

theorem ofLabelledParts_eq_ok {nodes : List Node} {edges : List LabelledEdge}
    {selected : Option String} {limit : Nat} :
    ofLabelledParts nodes edges selected limit = .ok s ↔
      partsProblem? nodes (edges.map (·.toEdge)) = none ∧ s = {
        nodes
        labelled := edges.map fun e => e.toEdge.labelled
        selected := selected.filter fun id => nodes.any (·.id = id)
        nodeLimit := max (clampNodeLimit limit) nodes.length
        nextSerial := resumeSerial (nodes.map (·.id))
        lastError := none } := by
  rw [ofLabelledParts]
  cases partsProblem? nodes (edges.map (·.toEdge)) <;> simp [eq_comm]

theorem ofParts_eq_ok {nodes : List Node} {edges : List Edge} {selected : Option String}
    {limit : Nat} :
    ofParts nodes edges selected limit = .ok s ↔
      partsProblem? nodes edges = none ∧ s = {
        nodes
        labelled := edges.map Edge.labelled
        selected := selected.filter fun id => nodes.any (·.id = id)
        nodeLimit := max (clampNodeLimit limit) nodes.length
        nextSerial := resumeSerial (nodes.map (·.id))
        lastError := none } := by
  rw [ofParts, ofLabelledParts_eq_ok, map_toEdge_map_labelled, List.map_map]
  rfl

/-- Accepted parts stand in the state as they were given. -/
theorem kept_of_ofParts {nodes : List Node} {edges : List Edge} {selected : Option String}
    {limit : Nat} (h : ofParts nodes edges selected limit = .ok s) :
    s.nodes = nodes ∧ s.edges = edges := by
  obtain ⟨-, rfl⟩ := ofParts_eq_ok.1 h
  exact ⟨rfl, map_toEdge_map_labelled edges⟩

/-- Whatever ids the edges of accepted parts come with, the state is well-formed. -/
theorem wellFormed_ofLabelledParts {nodes : List Node} {edges : List LabelledEdge}
    {selected : Option String} {limit : Nat}
    (h : ofLabelledParts nodes edges selected limit = .ok s) : s.WellFormed := by
  obtain ⟨hparts, rfl⟩ := ofLabelledParts_eq_ok.1 h
  obtain ⟨hlen, hids, hinput, houtput, hends, hedges, hacyclic⟩ := partsProblem?_eq_none_iff.1 hparts
  have hkept : (edges.map fun e => e.toEdge.labelled).map (·.toEdge) = edges.map (·.toEdge) := by
    simp
  exact
    { ids_nodup := hids
      input := hinput
      output := houtput
      edges_nodup := by rwa [edges_mk, hkept]
      labels := by simp
      ends := by rwa [edges_mk, hkept]
      acyclic := by rwa [edges_mk, hkept]
      fits := Nat.le_max_right _ _
      limit := ⟨(minNodeLimit_le_clamp limit).trans (Nat.le_max_left _ _),
        Nat.max_le.2 ⟨clamp_le_maxNodeLimit limit, hlen⟩⟩
      selected := fun id hid => by
        obtain ⟨-, hid⟩ := Option.filter_eq_some_iff.1 hid
        simpa [ids, List.any_eq] using hid }

theorem wellFormed_ofParts {nodes : List Node} {edges : List Edge} {selected : Option String}
    {limit : Nat} (h : ofParts nodes edges selected limit = .ok s) : s.WellFormed :=
  wellFormed_ofLabelledParts h

theorem hydrate_eq_ok {p : Payload} {limit : Nat} {s : State} (h : p.hydrate limit = .ok s) :
    p.problem? = none ∧ ofParts p.nodes p.edges none limit = .ok s := by
  rw [Payload.hydrate, Payload.validate] at h
  split at h
  · cases h
  · refine ⟨‹_›, ?_⟩
    cases hparts : ofParts p.nodes p.edges none limit <;> rw [hparts] at h <;> cases h
    rfl

theorem Opened.wellFormed (h : Opened s) : s.WellFormed := by
  obtain ⟨limit, rfl⟩ | ⟨p, limit, h⟩ := h
  · exact wellFormed_initial limit
  · exact wellFormed_ofParts (hydrate_eq_ok h).2

theorem Built.wellFormed (h : Built s) : s.WellFormed := by
  obtain h | ⟨nodes, edges, selected, limit, h⟩ := h
  · exact h.wellFormed
  · exact wellFormed_ofLabelledParts h

/-! ## Edits keep the invariant -/

theorem WellFormed.withError (h : s.WellFormed) (e : GraphError) : (s.withError e).WellFormed :=
  { h with }

/-- The limit of a graph is one that a new board could have. -/
theorem WellFormed.clamp_eq (h : s.WellFormed) : clampNodeLimit s.nodeLimit = s.nodeLimit := by
  rw [clampNodeLimit, min_eq_left h.limit.2, max_eq_right h.limit.1]

/-- The ids of the anchors are ids of nodes. -/
theorem WellFormed.anchors_mem (h : s.WellFormed) : inputId ∈ s.ids ∧ outputId ∈ s.ids := by
  have hsub : ∀ k, s.idsOf k ⊆ s.ids := fun k =>
    List.map_subset _ (List.filter_sublist.subset)
  exact ⟨hsub .input (by simp [h.input]), hsub .output (by simp [h.output])⟩

theorem WellFormed.add {kind : Kind} {x y : Single} {id : Option String} (h : s.WellFormed)
    (hok : s.attemptAdd kind x y id = .ok t) : t.WellFormed := by
  obtain ⟨hkind, -, -, hlt, hfresh, rfl⟩ := attemptAdd_eq_ok hok
  generalize id.getD (numberedId s.nextSerial) = newId at hfresh ⊢
  have hids : ∀ i ∈ s.ids,
      i ∈ (s.nodes ++ [({ id := newId, kind, x, y } : Node)]).map (·.id) := by
    intro i hi
    rw [List.map_append]
    exact List.mem_append_left _ hi
  have hother : ∀ k : Kind, k.isAnchor → ([{ id := newId, kind, x, y }] : List Node).filter
      (·.kind = k) = [] := by
    rintro k hk
    have hne : kind ≠ k := by
      rintro rfl
      simp [hkind] at hk
    simp [hne]
  exact
    { h with
      ids_nodup := by
        simpa [ids] using List.nodup_append.2 ⟨h.ids_nodup, List.nodup_singleton newId, by
          rintro i hi j hj rfl
          exact hfresh (by simpa using List.mem_singleton.1 hj ▸ hi)⟩
      input := by simpa [idsOf, hother .input rfl] using h.input
      output := by simpa [idsOf, hother .output rfl] using h.output
      ends := fun e he => (h.ends e he).imp_right fun hmem => ⟨hids _ hmem.1, hids _ hmem.2⟩
      fits := by simpa using hlt
      selected := fun i hi => hids i (h.selected i hi) }

theorem WellFormed.remove {id : String} (h : s.WellFormed) (hok : s.attemptRemove id = .ok t) :
    t.WellFormed := by
  obtain ⟨hinput, houtput, -, rfl⟩ := attemptRemove_eq_ok hok
  have hanchor : ∀ {k : Kind} {a : String}, s.idsOf k = [a] → id ≠ a →
      ((s.nodes.filter (·.id ≠ id)).filter (·.kind = k)).map (·.id) = [a] := by
    intro k a hk hne
    rw [List.filter_comm, ids_filter, ← idsOf, hk]
    simpa using hne.symm
  have hsub : ((s.labelled.filter (!·.touches id)).map (·.toEdge)).Sublist s.edges :=
    List.filter_sublist.map _
  exact
    { ids_nodup := by
        rw [ids, ids_filter]
        exact h.ids_nodup.filter _
      input := hanchor h.input hinput
      output := hanchor h.output houtput
      edges_nodup := h.edges_nodup.sublist hsub
      labels := fun e he => h.labels e (List.mem_of_mem_filter he)
      ends := fun e he => by
        rw [edges_mk, map_toEdge_touches] at he
        obtain ⟨he, htouch⟩ := List.mem_filter.1 he
        obtain ⟨hne, hs, ht⟩ := h.ends e he
        simp only [Edge.touches, Bool.not_eq_true', Bool.or_eq_false_iff, beq_eq_false_iff_ne] at htouch
        simp only [ids, ids_filter, List.mem_filter, decide_eq_true_eq]
        exact ⟨hne, ⟨hs, htouch.1⟩, ht, htouch.2⟩
      acyclic := h.acyclic.mono hsub.subset
      fits := (List.length_filter_le _ _).trans h.fits
      limit := h.limit
      selected := fun i hi => by
        simp only at hi
        split_ifs at hi with hsel
        simp only [ids, ids_filter, List.mem_filter, decide_eq_true_eq]
        exact ⟨h.selected i hi, fun heq => hsel (heq ▸ hi)⟩ }

theorem WellFormed.editNode {id : String} {edit : Node → Node} (h : s.WellFormed)
    (hedit : Gentle edit) : (s.editNode id edit).WellFormed where
  ids_nodup := by simpa [hedit] using h.ids_nodup
  input := by simpa [hedit] using h.input
  output := by simpa [hedit] using h.output
  edges_nodup := h.edges_nodup
  labels := h.labels
  ends := by simpa [hedit] using h.ends
  acyclic := h.acyclic
  fits := by simpa using h.fits
  limit := h.limit
  selected := by simpa [hedit] using h.selected

theorem WellFormed.connect {a b : String} (h : s.WellFormed) (hok : s.attemptConnect a b = .ok t) :
    t.WellFormed := by
  obtain ⟨hne, ha, hb, hfresh, hcycle, rfl⟩ := attemptConnect_eq_ok hok
  have hends : ∀ e ∈ s.edges ++ [⟨a, b⟩], e.source ≠ e.target ∧ e.source ∈ s.ids ∧
      e.target ∈ s.ids := by
    intro e he
    rcases List.mem_append.1 he with he | he
    · exact h.ends e he
    · obtain rfl := List.mem_singleton.1 he
      exact ⟨hne, ha, hb⟩
  have hnodup : (s.edges ++ [Edge.mk a b]).Nodup :=
    List.nodup_append.2 ⟨h.edges_nodup, List.nodup_singleton _, by
      rintro e he f hf rfl
      exact hfresh (List.mem_singleton.1 hf ▸ he)⟩
  exact
    { h with
      edges_nodup := by rwa [edges_mk, map_toEdge_concat]
      labels := List.forall_mem_append.2 ⟨h.labels, by simp⟩
      ends := by rwa [edges_mk, map_toEdge_concat]
      acyclic := by
        rw [edges_mk, map_toEdge_concat]
        exact (hasCycle_iff_of_ends fun e he => (hends e he).2).1 hcycle }

theorem WellFormed.disconnect {a b : String} (h : s.WellFormed)
    (hok : s.attemptDisconnect a b = .ok t) : t.WellFormed := by
  obtain ⟨-, rfl⟩ := attemptDisconnect_eq_ok hok
  have hsub : ((s.labelled.filter (!·.connects a b)).map (·.toEdge)).Sublist s.edges :=
    List.filter_sublist.map _
  exact
    { h with
      edges_nodup := h.edges_nodup.sublist hsub
      labels := fun e he => h.labels e (List.mem_of_mem_filter he)
      ends := fun e he => h.ends e (hsub.subset he)
      acyclic := h.acyclic.mono hsub.subset }

theorem WellFormed.select {id : Option String} (h : s.WellFormed)
    (hok : s.attemptSelect id = .ok t) : t.WellFormed := by
  obtain ⟨hmem, rfl⟩ := attemptSelect_eq_ok hok
  exact { h with selected := hmem }

/-- **Every edit keeps the invariant.** -/
theorem WellFormed.attempt {a : Action} (h : s.WellFormed) (hok : s.attempt a = .ok t) :
    t.WellFormed := by
  cases a with
  | addNode kind x y id => exact h.add hok
  | removeNode id => exact h.remove hok
  | moveNode id x y =>
    obtain ⟨-, -, -, rfl⟩ := attemptMove_eq_ok hok
    exact h.editNode (gentle_move x y)
  | connect a b => exact h.connect hok
  | disconnect a b => exact h.disconnect hok
  | selectNode id => exact h.select hok
  | setParam id key v =>
    obtain ⟨-, -, rfl⟩ := attemptSetParam_eq_ok hok
    exact h.editNode (gentle_setParam key v)
  | toggleBypass id =>
    obtain ⟨-, rfl⟩ := attemptToggleBypass_eq_ok hok
    exact h.editNode gentle_toggleBypass

theorem WellFormed.apply (h : s.WellFormed) (a : Action) : (s.apply a).WellFormed :=
  apply_induction a h (fun e h => h.withError e) fun _ hok => h.attempt hok

theorem WellFormed.applyAll (h : s.WellFormed) (actions : List Action) :
    (s.applyAll actions).WellFormed := by
  induction actions generalizing s with
  | nil => exact h
  | cons a actions ih => exact ih (h.apply a)

/-! ## Every state that occurs -/

/-- Edges are as different as their pairs of ends. -/
theorem nodup_pairs_iff {labelled : List LabelledEdge} :
    (labelled.map fun e => (e.source, e.target)).Nodup ↔ (labelled.map (·.toEdge)).Nodup := by
  have hpairs : (labelled.map fun e => (e.source, e.target)) =
      (labelled.map (·.toEdge)).map fun e => (e.source, e.target) := by simp
  rw [hpairs]
  refine List.nodup_map_iff ?_
  intro ⟨a, b⟩ ⟨c, d⟩ h
  simpa using h

/-- The graph of edges does not depend on their ids. -/
theorem linked_map_toEdge (labelled : List LabelledEdge) :
    Linked (labelled.map (·.toEdge)) =
      fun a b => ∃ e ∈ labelled, e.source = a ∧ e.target = b := by
  funext a b
  simp only [Linked, List.mem_map, eq_iff_iff]
  refine exists_congr fun e => and_congr_right fun _ => ?_
  rw [Edge.mk.injEq]

theorem Reaches.wellFormed (h : Reaches Built s) : s.WellFormed :=
  h.invariant (fun _ => Built.wellFormed) fun _ a hs => hs.apply a

theorem Reaches.wellFormed_of_opened (h : Reaches Opened s) : s.WellFormed :=
  (h.mono fun _ => .inl).wellFormed

/-- **Every state that occurs is a graph**, after any edits, refused ones included. -/
theorem invariant_of_reaches (h : Reaches Built s) :
    s.ids.Nodup ∧
    (∃ n, s.nodes.filter (·.kind = .input) = [n] ∧ n.id = "input") ∧
    (∃ n, s.nodes.filter (·.kind = .output) = [n] ∧ n.id = "output") ∧
    (∀ e ∈ s.labelled, e.source ≠ e.target ∧ e.source ∈ s.ids ∧ e.target ∈ s.ids ∧
      e.id = "edge-" ++ e.source ++ "-" ++ e.target) ∧
    (s.labelled.map fun e => (e.source, e.target)).Nodup ∧
    (∀ a, ¬ Relation.TransGen (fun x y => ∃ e ∈ s.labelled, e.source = x ∧ e.target = y) a a) ∧
    s.nodes.length ≤ s.nodeLimit ∧ 8 ≤ s.nodeLimit ∧ s.nodeLimit ≤ 16 ∧
    ∀ id, s.selected = some id → ∃ n ∈ s.nodes, n.id = id := by
  have hs := h.wellFormed
  refine ⟨hs.ids_nodup, List.map_eq_singleton_iff.1 hs.input, List.map_eq_singleton_iff.1 hs.output,
    fun e he => ?_, ?_, ?_, hs.fits, hs.limit.1, hs.limit.2,
    fun id hid => List.mem_map.1 (hs.selected id hid)⟩
  · obtain ⟨hne, hsource, htarget⟩ := hs.ends e.toEdge (List.mem_map_of_mem he)
    exact ⟨hne, hsource, htarget, hs.labels e he⟩
  · rw [nodup_pairs_iff]
    exact hs.edges_nodup
  · rw [← linked_map_toEdge]
    exact hs.acyclic

/-- Edits that end with one that would close a cycle. -/
def cyclicEdits : List Action :=
  [.addNode .delay 0 0 none, .connect "fx-1" "output", .selectNode (some "fx-1"),
    .connect "output" "fx-1"]

theorem invariant_of_reaches_cyclicEdits :
    Reaches Built ((initial 3).applyAll cyclicEdits) ∧
    ((initial 3).applyAll cyclicEdits).lastError = some .cycleDetected ∧
    ∃ n ∈ ((initial 3).applyAll cyclicEdits).nodes, n.id = "fx-1" := by
  have hreaches : Reaches Built ((initial 3).applyAll cyclicEdits) :=
    (Reaches.start (.inl (.inl ⟨3, rfl⟩))).applyAll cyclicEdits
  obtain ⟨-, -, -, -, -, -, -, -, -, hselected⟩ := invariant_of_reaches hreaches
  exact ⟨hreaches, by decide, hselected "fx-1" (by decide)⟩

end State

end Pedalboard
