import Mathlib
import Pedalboard.Graph.Reducer

/-!
# What an edit does

One inversion lemma for each edit: when it is carried out, and what the next state is then; and for
most the converse. Later proofs about edits use these lemmas and do not look into the reducer.
-/

namespace Pedalboard.State

/-! ## Edges without their ids

What becomes of the ends when the stored edges change.
-/

@[simp] theorem map_toEdge_labelled (s : State) : s.labelled.map (·.toEdge) = s.edges := rfl

@[simp] theorem edges_mk (nodes : List Node) (labelled : List LabelledEdge) (selected : Option String)
    (nodeLimit nextSerial : Nat) (lastError : Option GraphError) :
    edges ⟨nodes, labelled, selected, nodeLimit, nextSerial, lastError⟩ = labelled.map (·.toEdge) :=
  rfl

theorem map_toEdge_map_labelled (edges : List Edge) :
    (edges.map Edge.labelled).map (·.toEdge) = edges := by
  rw [List.map_map]
  exact List.map_id edges

theorem map_toEdge_append (s : State) (more : List Edge) :
    (s.labelled ++ more.map Edge.labelled).map (·.toEdge) = s.edges ++ more := by
  rw [List.map_append, map_toEdge_map_labelled, map_toEdge_labelled]

theorem map_toEdge_concat (s : State) (e : Edge) :
    (s.labelled ++ [e.labelled]).map (·.toEdge) = s.edges ++ [e] :=
  map_toEdge_append s [e]

theorem map_toEdge_touches (labelled : List LabelledEdge) (id : String) :
    (labelled.filter (!·.touches id)).map (·.toEdge) =
      (labelled.map (·.toEdge)).filter (!·.touches id) := by
  rw [List.filter_map]
  rfl

/-! ## Queries -/

@[simp] theorem contains_eq (s : State) (id : String) : s.contains id = decide (id ∈ s.ids) := by
  simp [contains, ids, List.any_eq]

@[simp] theorem hasEdge_eq (s : State) (a b : String) :
    s.hasEdge a b = decide (Edge.mk a b ∈ s.edges) := by
  rw [hasEdge, List.any_eq, decide_eq_decide, edges, List.mem_map]
  refine exists_congr fun ⟨⟨c, d⟩, id⟩ => and_congr_right fun _ => ?_
  simp [Edge.connects]

theorem isFull_eq_false_iff {s : State} : s.isFull = false ↔ s.nodes.length < s.nodeLimit := by
  simp [isFull]

/-- No node carries an id that is not in use. -/
theorem id_ne_of_notMem {nodes : List Node} {id : String} (h : id ∉ nodes.map (·.id)) :
    ∀ n ∈ nodes, n.id ≠ id := fun n hn heq => h (List.mem_map.2 ⟨n, hn, heq⟩)

/-- The ids of the nodes of a kind. -/
def idsOf (s : State) (k : Kind) : List String := (s.nodes.filter (·.kind = k)).map (·.id)

/-! ## Removing one node -/

theorem ids_filter (nodes : List Node) (id : String) :
    (nodes.filter (·.id ≠ id)).map (·.id) = (nodes.map (·.id)).filter (· ≠ id) := by
  rw [List.filter_map]
  rfl

/-! ## Editing one node -/

theorem replaceNode_map {β : Type*} {id : String} {edit : Node → Node} {f : Node → β}
    (hf : ∀ n, f (edit n) = f n) (nodes : List Node) :
    (replaceNode id edit nodes).map f = nodes.map f := by
  induction nodes with
  | nil => rfl
  | cons n rest ih =>
    rw [replaceNode]
    split
    · simp [hf]
    · simp [ih]

/-- The node of an id is edited where it stands. -/
theorem replaceNode_append {id : String} {edit : Node → Node} {before after : List Node} {m : Node}
    (hid : m.id = id) (hbefore : ∀ b ∈ before, b.id ≠ id) :
    replaceNode id edit (before ++ m :: after) = before ++ edit m :: after := by
  induction before with
  | nil => rw [List.nil_append, replaceNode, if_pos hid, List.nil_append]
  | cons b before ih =>
    obtain ⟨hb, hbefore⟩ := List.forall_mem_cons.1 hbefore
    rw [List.cons_append, replaceNode, if_neg hb, ih hbefore, List.cons_append]

/-- An edit of a node that changes neither id nor kind. -/
structure Gentle (edit : Node → Node) : Prop where
  id : ∀ n, (edit n).id = n.id
  kind : ∀ n, (edit n).kind = n.kind

theorem gentle_move (x y : Single) : Gentle fun n => { n with x, y } := ⟨fun _ => rfl, fun _ => rfl⟩

theorem gentle_setParam (key : String) (v : Single) :
    Gentle fun n => { n with params := n.params.insert key v } := ⟨fun _ => rfl, fun _ => rfl⟩

theorem gentle_toggleBypass : Gentle fun n => { n with bypass := !n.bypass } :=
  ⟨fun _ => rfl, fun _ => rfl⟩

variable {s t : State} {edit : Node → Node}

@[simp] theorem ids_editNode (h : Gentle edit) (id : String) : (s.editNode id edit).ids = s.ids :=
  replaceNode_map h.id s.nodes

@[simp] theorem length_editNode (id : String) :
    (s.editNode id edit).nodes.length = s.nodes.length := by
  have h : ∀ nodes : List Node, (replaceNode id edit nodes).length = nodes.length := fun nodes => by
    induction nodes with
    | nil => rfl
    | cons n rest ih =>
      rw [replaceNode]
      split <;> simp [ih]
  exact h s.nodes

@[simp] theorem edges_editNode (id : String) : (s.editNode id edit).edges = s.edges := rfl

@[simp] theorem selected_editNode (id : String) : (s.editNode id edit).selected = s.selected := rfl

@[simp] theorem nodeLimit_editNode (id : String) : (s.editNode id edit).nodeLimit = s.nodeLimit :=
  rfl

@[simp] theorem idsOf_editNode (h : Gentle edit) (id : String) (k : Kind) :
    (s.editNode id edit).idsOf k = s.idsOf k := by
  have hmap : ∀ nodes : List Node, (nodes.filter (·.kind = k)).map (·.id) =
      ((nodes.map fun n => (n.id, n.kind)).filter (·.2 = k)).map (·.1) := fun nodes => by
    rw [List.filter_map, List.map_map]
    rfl
  rw [idsOf, idsOf, hmap, hmap]
  congr 2
  exact replaceNode_map (fun n => by rw [h.id, h.kind]) s.nodes

/-! ## Edits that are carried out -/

theorem attemptAdd_eq_ok {kind : Kind} {x y : Single} {id : Option String}
    (h : s.attemptAdd kind x y id = .ok t) :
    kind.isAnchor = false ∧ x.isFinite ∧ y.isFinite ∧ s.nodes.length < s.nodeLimit ∧
      id.getD (numberedId s.nextSerial) ∉ s.ids ∧
      t = { s with
        nodes := s.nodes ++ [{ id := id.getD (numberedId s.nextSerial), kind, x, y }]
        nextSerial := if id.isNone then nextSerialAfter s.nextSerial else s.nextSerial
        lastError := none } := by
  simp only [attemptAdd, contains_eq] at h
  split_ifs at h with hkind hfinite hfull hfresh hauto
  all_goals
    cases h
    exact ⟨by simpa using hkind, by simp_all, by simp_all,
      isFull_eq_false_iff.1 (by simpa using hfull), by simpa using hfresh, by simp [hauto]⟩

theorem attemptRemove_eq_ok {id : String} (h : s.attemptRemove id = .ok t) :
    id ≠ inputId ∧ id ≠ outputId ∧ id ∈ s.ids ∧
      t = { s with
        nodes := s.nodes.filter (·.id ≠ id)
        labelled := s.labelled.filter (!·.touches id)
        selected := if s.selected = some id then none else s.selected
        lastError := none } := by
  simp only [attemptRemove, contains_eq] at h
  split_ifs at h with hanchor hmem hselected
  all_goals
    cases h
    simp only [isAnchorId, Bool.or_eq_true, beq_iff_eq, not_or] at hanchor
    exact ⟨hanchor.1, hanchor.2, by simpa using hmem, by simp [hselected]⟩

theorem attemptMove_eq_ok {id : String} {x y : Single} (h : s.attemptMove id x y = .ok t) :
    id ∈ s.ids ∧ x.isFinite ∧ y.isFinite ∧ t = s.editNode id fun n => { n with x, y } := by
  simp only [attemptMove, contains_eq] at h
  split_ifs at h with hmem hfinite
  cases h
  exact ⟨by simpa using hmem, by simp_all, by simp_all, rfl⟩

theorem attemptConnect_eq_ok {a b : String} (h : s.attemptConnect a b = .ok t) :
    a ≠ b ∧ a ∈ s.ids ∧ b ∈ s.ids ∧ Edge.mk a b ∉ s.edges ∧
      hasCycle s.ids (s.edges ++ [⟨a, b⟩]) = false ∧
      t = { s with labelled := s.labelled ++ [Edge.labelled ⟨a, b⟩], lastError := none } := by
  simp only [attemptConnect, contains_eq, hasEdge_eq] at h
  split_ifs at h with hne hmem hfresh hcycle
  cases h
  simp only [Bool.or_eq_true, Bool.not_eq_true', decide_eq_false_iff_not, not_or, not_not] at hmem
  exact ⟨hne, hmem.1, hmem.2, by simpa using hfresh, by simpa using hcycle, rfl⟩

theorem attemptDisconnect_eq_ok {a b : String} (h : s.attemptDisconnect a b = .ok t) :
    Edge.mk a b ∈ s.edges ∧
      t = { s with labelled := s.labelled.filter (!·.connects a b), lastError := none } := by
  simp only [attemptDisconnect, hasEdge_eq] at h
  split_ifs at h with hmem
  cases h
  exact ⟨by simpa using hmem, rfl⟩

theorem attemptSelect_eq_ok {id : Option String} (h : s.attemptSelect id = .ok t) :
    (∀ i, id = some i → i ∈ s.ids) ∧ t = { s with selected := id, lastError := none } := by
  simp only [attemptSelect, contains_eq] at h
  split_ifs at h with hany
  cases h
  refine ⟨fun i hi => ?_, rfl⟩
  subst hi
  simpa using hany

theorem attemptSetParam_eq_ok {id key : String} {v : Single}
    (h : s.attemptSetParam id key v = .ok t) :
    id ∈ s.ids ∧ v.isFinite ∧
      t = s.editNode id fun n => { n with params := n.params.insert key v } := by
  simp only [attemptSetParam, contains_eq] at h
  split_ifs at h with hmem hfinite
  cases h
  exact ⟨by simpa using hmem, by simpa using hfinite, rfl⟩

theorem attemptToggleBypass_eq_ok {id : String} (h : s.attemptToggleBypass id = .ok t) :
    id ∈ s.ids ∧ t = s.editNode id fun n => { n with bypass := !n.bypass } := by
  simp only [attemptToggleBypass, contains_eq] at h
  split_ifs at h with hmem
  cases h
  exact ⟨by simpa using hmem, rfl⟩

/-! ## When an edit is carried out

The converses: each edit is carried out when none of the causes to refuse it applies.
-/

theorem attempt_addNode {kind : Kind} {x y : Single} {id : String} (hkind : kind.isAnchor = false)
    (hx : x.isFinite) (hy : y.isFinite) (hroom : s.nodes.length < s.nodeLimit) (hfresh : id ∉ s.ids) :
    s.attempt (.addNode kind x y (some id)) =
      .ok { s with nodes := s.nodes ++ [{ id, kind, x, y }], lastError := none } := by
  simp [attempt, attemptAdd, hkind, hx, hy, isFull_eq_false_iff.2 hroom, hfresh]

theorem attempt_removeNode {id : String} (hid : id ∈ s.ids) (hinput : id ≠ inputId)
    (houtput : id ≠ outputId) :
    s.attempt (.removeNode id) = .ok { s with
      nodes := s.nodes.filter (·.id ≠ id)
      labelled := s.labelled.filter (!·.touches id)
      selected := if s.selected = some id then none else s.selected
      lastError := none } := by
  simp [attempt, attemptRemove, isAnchorId, hid, hinput, houtput]

theorem attempt_moveNode {id : String} {x y : Single} (hid : id ∈ s.ids) (hx : x.isFinite)
    (hy : y.isFinite) :
    s.attempt (.moveNode id x y) = .ok (s.editNode id fun n => { n with x, y }) := by
  simp [attempt, attemptMove, hid, hx, hy]

theorem attempt_connect {a b : String} (hne : a ≠ b) (ha : a ∈ s.ids) (hb : b ∈ s.ids)
    (hfresh : Edge.mk a b ∉ s.edges) (hcycle : hasCycle s.ids (s.edges ++ [⟨a, b⟩]) = false) :
    s.attempt (.connect a b) =
      .ok { s with labelled := s.labelled ++ [Edge.labelled ⟨a, b⟩], lastError := none } := by
  simp [attempt, attemptConnect, hne, ha, hb, hfresh, hcycle]

theorem attempt_disconnect {a b : String} (he : Edge.mk a b ∈ s.edges) :
    s.attempt (.disconnect a b) =
      .ok { s with labelled := s.labelled.filter (!·.connects a b), lastError := none } := by
  simp [attempt, attemptDisconnect, he]

theorem attempt_setParam {id key : String} {v : Single} (hid : id ∈ s.ids) (hv : v.isFinite) :
    s.attempt (.setParam id key v) =
      .ok (s.editNode id fun n => { n with params := n.params.insert key v }) := by
  simp [attempt, attemptSetParam, hid, hv]

theorem attempt_toggleBypass {id : String} (hid : id ∈ s.ids) :
    s.attempt (.toggleBypass id) = .ok (s.editNode id fun n => { n with bypass := !n.bypass }) := by
  simp [attempt, attemptToggleBypass, hid]

/-! ## Refused or carried out -/

/-- A property that ignores the error and is kept by every edit that is carried out is kept by
every edit. -/
theorem apply_induction {P : State → Prop} (a : Action) (hs : P s)
    (herror : ∀ e, P s → P (s.withError e)) (hok : ∀ t, s.attempt a = .ok t → P t) :
    P (s.apply a) := by
  rw [apply]
  split
  · exact hok _ ‹_›
  · exact herror _ hs

/-- An edit that is carried out clears the error. -/
theorem lastError_of_attempt {a : Action} (h : s.attempt a = .ok t) : t.lastError = none := by
  cases a with
  | addNode kind x y id =>
    obtain ⟨-, -, -, -, -, rfl⟩ := attemptAdd_eq_ok h
    rfl
  | removeNode id =>
    obtain ⟨-, -, -, rfl⟩ := attemptRemove_eq_ok h
    rfl
  | moveNode id x y =>
    obtain ⟨-, -, -, rfl⟩ := attemptMove_eq_ok h
    rfl
  | connect a b =>
    obtain ⟨-, -, -, -, -, rfl⟩ := attemptConnect_eq_ok h
    rfl
  | disconnect a b =>
    obtain ⟨-, rfl⟩ := attemptDisconnect_eq_ok h
    rfl
  | selectNode id =>
    obtain ⟨-, rfl⟩ := attemptSelect_eq_ok h
    rfl
  | setParam id key v =>
    obtain ⟨-, -, rfl⟩ := attemptSetParam_eq_ok h
    rfl
  | toggleBypass id =>
    obtain ⟨-, rfl⟩ := attemptToggleBypass_eq_ok h
    rfl

theorem apply_of_ok {a : Action} (h : s.attempt a = .ok t) : s.apply a = t := by
  rw [apply, h]

theorem apply_of_error {a : Action} {e : GraphError} (h : s.attempt a = .error e) :
    s.apply a = s.withError e := by
  rw [apply, h]

/-- **The error tells whether an edit was carried out.** -/
theorem attempt_eq_ok_iff {a : Action} :
    s.attempt a = .ok t ↔ (s.apply a).lastError = none ∧ s.apply a = t := by
  cases h : s.attempt a with
  | error e => simp [apply_of_error h, withError]
  | ok next => simp +contextual [apply_of_ok h, lastError_of_attempt h]

theorem attempt_eq_error_iff {a : Action} {e : GraphError} :
    s.attempt a = .error e ↔ (s.apply a).lastError = some e := by
  cases h : s.attempt a with
  | error cause => simp [apply_of_error h, withError]
  | ok next => simp [apply_of_ok h, lastError_of_attempt h]

theorem lastError_apply_eq_none_iff {a : Action} :
    (s.apply a).lastError = none ↔ ∃ t, s.attempt a = .ok t := by
  simp only [attempt_eq_ok_iff, exists_and_left, exists_eq', and_true]

theorem withoutError_eq_self (h : s.lastError = none) : s.withoutError = s := by
  rw [withoutError, ← h]

/-! ## Lists of edits that are carried out -/

/-- The state after a list of edits, if none of them is refused. -/
def attemptAll (s : State) (actions : List Action) : Except GraphError State :=
  actions.foldlM attempt s

variable {a : Action} {actions more : List Action}

@[simp] theorem attemptAll_nil (s : State) : s.attemptAll [] = .ok s := rfl

theorem attemptAll_cons (h : s.attempt a = .ok t) :
    s.attemptAll (a :: actions) = t.attemptAll actions := by
  rw [attemptAll, List.foldlM_cons, h]
  rfl

theorem attemptAll_cons_eq_ok :
    s.attemptAll (a :: actions) = .ok t ↔
      ∃ next, s.attempt a = .ok next ∧ next.attemptAll actions = .ok t := by
  cases ha : s.attempt a with
  | error e =>
    rw [attemptAll, List.foldlM_cons, ha]
    exact iff_of_false (fun h => by cases h) fun ⟨_, h, _⟩ => by cases h
  | ok next => simp [attemptAll_cons ha]

theorem attemptAll_append (h : s.attemptAll actions = .ok t) :
    s.attemptAll (actions ++ more) = t.attemptAll more := by
  rw [attemptAll] at h
  rw [attemptAll, List.foldlM_append, h]
  rfl

/-- Edits that are all carried out lead to the state that they are said to lead to. -/
theorem applyAll_of_attemptAll (h : s.attemptAll actions = .ok t) : s.applyAll actions = t := by
  induction actions generalizing s with
  | nil => exact Except.ok.inj h
  | cons a actions ih =>
    obtain ⟨next, ha, h⟩ := attemptAll_cons_eq_ok.1 h
    rw [applyAll, List.foldl_cons, apply_of_ok ha]
    exact ih h

end Pedalboard.State
