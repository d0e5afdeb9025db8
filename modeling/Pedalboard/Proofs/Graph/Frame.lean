import Mathlib
import Pedalboard.Proofs.Graph.Invariant
import Pedalboard.Proofs.Keyed

/-!
# What an edit leaves alone

**The frame of an edit** (`State.Framed`). An edit is about one node, one edge or the selection, and
changes nothing else: the nodes that it is not about stand as they stood, in the same order, and so
do the other edges. What it does to the node or the edge itself is said by `State.NodesAfter` and
`State.EdgesAfter`.

**One of a kind.** A list says where a node or an edge stands as what is before it and what is after
it. Because ids are unique and no edge stands twice, the node of an id and the edge of a pair have
one such place, even if another edge carries the same id.

**Theorem (`frame_law`).** In every state that occurs, an edit that is refused changes the error
only, and one that is carried out clears the error and keeps its frame.
-/

namespace Pedalboard

/-! ## One of a kind -/

theorem Edge.connects_eq (e : Edge) (a b : String) : e.connects a b = decide (e = ⟨a, b⟩) := by
  obtain ⟨c, d⟩ := e
  rw [Bool.eq_iff_iff]
  simp [Edge.connects]

theorem Edge.touches_eq (e : Edge) (id : String) :
    (!e.touches id) = decide (e.source ≠ id ∧ e.target ≠ id) := by
  rw [Bool.eq_iff_iff]
  simp [Edge.touches]

/-- Where nothing connects a pair, disconnecting it takes nothing away. -/
theorem filter_connects_of_notMem {labelled : List LabelledEdge} {a b : String}
    (h : Edge.mk a b ∉ labelled.map (·.toEdge)) :
    labelled.filter (!·.connects a b) = labelled := by
  refine List.filter_eq_self.2 fun e he => ?_
  simp only [Edge.connects_eq, Bool.not_eq_true', decide_eq_false_iff_not]
  exact fun heq => h (heq ▸ List.mem_map_of_mem he)

/-- Disconnecting a pair takes its edge away and no other. -/
theorem filter_connects_middle {before after : List LabelledEdge} {a b : String}
    (h : ((before ++ Edge.labelled ⟨a, b⟩ :: after).map (·.toEdge)).Nodup) :
    (before ++ Edge.labelled ⟨a, b⟩ :: after).filter (!·.connects a b) = before ++ after := by
  rw [List.map_append, List.map_cons, List.nodup_middle, List.nodup_cons, List.mem_append,
    not_or] at h
  obtain ⟨⟨hbefore, hafter⟩, -⟩ := h
  rw [List.filter_append, List.filter_cons_of_neg (by simp [Edge.connects_eq]),
    filter_connects_of_notMem hbefore, filter_connects_of_notMem hafter]

/-- Taking away the node of an id leaves what is before it and what is after it. -/
theorem filter_id_middle {before after : List Node} {n : Node} {id : String} (hn : n.id = id)
    (hbefore : ∀ m ∈ before, m.id ≠ id) (hafter : ∀ m ∈ after, m.id ≠ id) :
    (before ++ n :: after).filter (·.id ≠ id) = before ++ after := by
  rw [List.filter_append, List.filter_cons_of_neg (by simp [hn]),
    List.filter_eq_self.2 fun m hm => by simpa using hbefore m hm,
    List.filter_eq_self.2 fun m hm => by simpa using hafter m hm]

namespace State

variable {s t : State} {a : Action} {id : String}

/-- Where the node of an id stands. -/
theorem exists_place (hids : s.ids.Nodup) (hid : id ∈ s.ids) :
    ∃ before n after, s.nodes = before ++ n :: after ∧ n.id = id ∧
      (∀ m ∈ before, m.id ≠ id) ∧ ∀ m ∈ after, m.id ≠ id := by
  obtain ⟨n, hn, rfl⟩ := List.mem_map.1 hid
  obtain ⟨before, after, hnodes⟩ := List.append_of_mem hn
  rw [ids, hnodes, List.map_append, List.map_cons, List.nodup_middle, List.nodup_cons,
    List.mem_append, not_or] at hids
  obtain ⟨⟨hbefore, hafter⟩, -⟩ := hids
  exact ⟨before, n, after, hnodes, rfl, id_ne_of_notMem hbefore, id_ne_of_notMem hafter⟩

/-! ## The frame of an edit -/

/-- The id of the node that an edit is about, if it is about one. -/
def target? (s : State) : Action → Option String
  | .addNode _ _ _ id => some (id.getD (numberedId s.nextSerial))
  | .removeNode id | .moveNode id _ _ | .setParam id _ _ | .toggleBypass id => some id
  | .connect .. | .disconnect .. | .selectNode _ => none

/-- The node of an id is changed where it stands. -/
def Replaced (s t : State) (id : String) (change : Node → Node → Prop) : Prop :=
  ∃ before n m after, n.id = id ∧ change n m ∧
    s.nodes = before ++ n :: after ∧ t.nodes = before ++ m :: after

/-- What an edit makes of the nodes. -/
def NodesAfter (s t : State) : Action → Prop
  | .addNode kind x y id => id.getD (numberedId s.nextSerial) ∉ s.ids ∧
      t.nodes = s.nodes ++ [{ id := id.getD (numberedId s.nextSerial), kind, x, y }]
  | .removeNode id => ∃ before n after, n.id = id ∧
      s.nodes = before ++ n :: after ∧ t.nodes = before ++ after
  | .moveNode id x y => Replaced s t id fun n m => m = { n with x, y }
  | .setParam id key v => Replaced s t id fun n m =>
      m = { n with params := m.params } ∧ ∀ k, m.param? k = if k = key then some v else n.param? k
  | .toggleBypass id => Replaced s t id fun n m => m = { n with bypass := !n.bypass }
  | .connect .. | .disconnect .. | .selectNode _ => t.nodes = s.nodes

/-- What an edit makes of the edges and their ids. -/
def EdgesAfter (s t : State) : Action → Prop
  | .connect a b => Edge.mk a b ∉ s.edges ∧ t.labelled = s.labelled ++ [Edge.labelled ⟨a, b⟩]
  | .disconnect a b => ∃ before after,
      s.labelled = before ++ Edge.labelled ⟨a, b⟩ :: after ∧ t.labelled = before ++ after
  | .removeNode id => t.labelled = s.labelled.filter fun e => e.source ≠ id ∧ e.target ≠ id
  | .addNode .. | .moveNode .. | .setParam .. | .toggleBypass _ | .selectNode _ =>
      t.labelled = s.labelled

/-- `t` is `s` but for what an edit is about. -/
structure Framed (s : State) (a : Action) (t : State) : Prop where
  nodeLimit : t.nodeLimit = s.nodeLimit
  nextSerial : t.nextSerial = s.nextSerial ∨ ∃ kind x y, a = .addNode kind x y none
  selected : t.selected = s.selected ∨ a = .selectNode t.selected ∨
    ∃ id, a = .removeNode id ∧ s.selected = some id ∧ t.selected = none
  /-- The nodes that the edit is not about are the same, in the same order. -/
  others : t.nodes.filter (fun n => s.target? a ≠ some n.id) =
    s.nodes.filter (fun n => s.target? a ≠ some n.id)
  nodes : NodesAfter s t a
  edges : EdgesAfter s t a

/-! ## Edits that are carried out -/

/-- An edit in place. -/
theorem replaced_editNode {edit : Node → Node} {change : Node → Node → Prop} (hids : s.ids.Nodup)
    (hid : id ∈ s.ids) (hchange : ∀ n, change n (edit n)) :
    Replaced s (s.editNode id edit) id change := by
  obtain ⟨before, n, after, hnodes, hn, hbefore, -⟩ := exists_place hids hid
  refine ⟨before, n, edit n, after, hn, hchange n, hnodes, ?_⟩
  rw [editNode, hnodes]
  exact replaceNode_append hn hbefore

theorem Replaced.others {change : Node → Node → Prop} (h : Replaced s t id change)
    (hchange : ∀ n m, change n m → m.id = n.id) :
    t.nodes.filter (fun n => some id ≠ some n.id) = s.nodes.filter fun n => some id ≠ some n.id := by
  obtain ⟨before, n, m, after, hn, hm, hs, ht⟩ := h
  have hid : m.id = id := (hchange n m hm).trans hn
  simp [hs, ht, hn, hid]

/-- An edit in place keeps its frame. -/
theorem Replaced.framed {edit : Node → Node} {change : Node → Node → Prop}
    (h : Replaced s (s.editNode id edit) id change) (hchange : ∀ n m, change n m → m.id = n.id)
    (htarget : s.target? a = some id) (hnodes : NodesAfter s (s.editNode id edit) a)
    (hedges : EdgesAfter s (s.editNode id edit) a) : Framed s a (s.editNode id edit) where
  nodeLimit := rfl
  nextSerial := .inl rfl
  selected := .inl rfl
  others := htarget ▸ h.others hchange
  nodes := hnodes
  edges := hedges

theorem framed_attempt (hs : s.WellFormed) (h : s.attempt a = .ok t) : Framed s a t := by
  have hids := hs.ids_nodup
  cases a with
  | addNode kind x y given =>
    obtain ⟨-, -, -, -, hfresh, rfl⟩ := attemptAdd_eq_ok h
    refine ⟨rfl, ?_, .inl rfl, ?_, ⟨hfresh, rfl⟩, rfl⟩
    · cases given with
      | none => exact .inr ⟨kind, x, y, rfl⟩
      | some i => exact .inl rfl
    · simp [target?]
  | removeNode i =>
    obtain ⟨-, -, hi, rfl⟩ := attemptRemove_eq_ok h
    obtain ⟨before, n, after, hnodes, hn, hbefore, hafter⟩ := exists_place hids hi
    refine ⟨rfl, .inl rfl, ?_, ?_, ⟨before, n, after, hn, hnodes, ?_⟩, ?_⟩
    · by_cases hselected : s.selected = some i
      · exact .inr (.inr ⟨i, rfl, hselected, if_pos hselected⟩)
      · exact .inl (if_neg hselected)
    · simp [target?, eq_comm]
    · exact hnodes ▸ filter_id_middle hn hbefore hafter
    · simp only [EdgesAfter, Edge.touches_eq]
  | moveNode i x y =>
    obtain ⟨hi, -, -, rfl⟩ := attemptMove_eq_ok h
    have hplace : NodesAfter s (s.editNode i _) (.moveNode i x y) :=
      replaced_editNode hids hi fun n => rfl
    exact hplace.framed (fun n m hm => by rw [hm]) rfl hplace rfl
  | connect i j =>
    obtain ⟨-, -, -, hfresh, -, rfl⟩ := attemptConnect_eq_ok h
    exact ⟨rfl, .inl rfl, .inl rfl, rfl, rfl, hfresh, rfl⟩
  | disconnect i j =>
    obtain ⟨he, rfl⟩ := attemptDisconnect_eq_ok h
    obtain ⟨before, after, hedges⟩ := List.append_of_mem (hs.labelled_mem he)
    refine ⟨rfl, .inl rfl, .inl rfl, rfl, rfl, before, after, hedges, ?_⟩
    simp only
    rw [hedges]
    exact filter_connects_middle (hedges ▸ hs.edges_nodup)
  | selectNode i =>
    obtain ⟨-, rfl⟩ := attemptSelect_eq_ok h
    exact ⟨rfl, .inl rfl, .inr (.inl rfl), rfl, rfl, rfl⟩
  | setParam i key v =>
    obtain ⟨hi, -, rfl⟩ := attemptSetParam_eq_ok h
    have hplace : NodesAfter s (s.editNode i fun n => { n with params := n.params.insert key v })
        (.setParam i key v) :=
      replaced_editNode hids hi fun n => ⟨rfl, n.params.get?_insert key v⟩
    exact hplace.framed (fun n m hm => by rw [hm.1]) rfl hplace rfl
  | toggleBypass i =>
    obtain ⟨hi, rfl⟩ := attemptToggleBypass_eq_ok h
    have hplace : NodesAfter s (s.editNode i _) (.toggleBypass i) :=
      replaced_editNode hids hi fun n => rfl
    exact hplace.framed (fun n m hm => by rw [hm]) rfl hplace rfl

/-- **An edit changes what it is about, and nothing else.** In every state that occurs, an edit that
is refused changes the error only; one that is carried out clears the error and keeps its frame. -/
theorem frame_law (h : Reaches Built s) (a : Action) :
    (∀ e, s.attempt a = .error e → s.apply a = { s with lastError := some e }) ∧
    ∀ t, s.attempt a = .ok t → s.apply a = t ∧ t.lastError = none ∧ Framed s a t :=
  ⟨fun _ herror => apply_of_error herror, fun _ hok =>
    ⟨apply_of_ok hok, lastError_of_attempt hok, framed_attempt h.wellFormed hok⟩⟩

/-- Two edges with one id, and the error of an edit that was refused. -/
def sharedLabel : State :=
  (initial 8).applyAll [.addNode .delay 0 0 (some "a-b"), .addNode .reverb 0 0 (some "c"),
    .addNode .eq 0 0 (some "a"), .addNode .filter 0 0 (some "b-c"), .connect "a-b" "c",
    .connect "a" "b-c", .removeNode "input"]

/-- Taking one of the edges away leaves the other, and clears the error. -/
theorem frame_law_sharedLabel :
    Reaches Built sharedLabel ∧
    (Edge.labelled ⟨"a-b", "c"⟩).id = (Edge.labelled ⟨"a", "b-c"⟩).id ∧
    sharedLabel.lastError = some .ioNodeRequired ∧
    ∃ t, sharedLabel.attempt (.disconnect "a-b" "c") = .ok t ∧ t.lastError = none ∧
      t.nodes = sharedLabel.nodes ∧ Edge.labelled ⟨"a", "b-c"⟩ ∈ t.labelled := by
  have hreaches : Reaches Built sharedLabel := (reaches_applyAll_initial 8 _).mono fun _ => .inl
  have hok : sharedLabel.attempt (.disconnect "a-b" "c") =
      .ok (sharedLabel.apply (.disconnect "a-b" "c")) := rfl
  obtain ⟨-, hdone⟩ := frame_law hreaches (.disconnect "a-b" "c")
  obtain ⟨-, hclear, hframe⟩ := hdone _ hok
  obtain ⟨before, after, hbefore, hafter⟩ := hframe.edges
  have hother : Edge.labelled ⟨"a", "b-c"⟩ ∈ before ++ Edge.labelled ⟨"a-b", "c"⟩ :: after :=
    hbefore ▸ by decide
  refine ⟨hreaches, by decide, by decide, _, hok, hclear, hframe.nodes, hafter ▸ ?_⟩
  simpa [Edge.labelled] using hother

end State

end Pedalboard
