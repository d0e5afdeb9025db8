import Mathlib
import Pedalboard.Proofs.Graph.Connect
import Pedalboard.Proofs.Keyed
import Pedalboard.Proofs.Wire.Reload

/-!
# Every document could have been made by edits

**Scripts** (`State.script`). From the parts of a graph a list of edits can be read off that makes
the graph on a new board: take the first edge away, bring the anchors to their places, add the
effects one by one, then connect. Each node is dressed as soon as it stands: moved, its parameters
set, its bypass switched on if it has to be.

**Boards in progress** (`State.board`). In between the edges are none or the first few of the
graph's, and the nodes are the anchors and the first few effects; so there is room for each next
node and its id is new, and each next edge closes no cycle because all edges together close none.

**Theorem (`attemptAll_script`).** No edit of the script is refused, for any well-formed state with
finite numbers, and the outcome is alike: the same nodes and edges under the same limit.

**Theorem (`exists_edits_of_hydrate`).** So a document that loads is one that edits of a new board
could have been saved as.
-/

namespace Pedalboard

namespace State

/-! ## Boards in progress -/

/-- A board that is being put together. -/
def board (limit : Nat) (nodes : List Node) (edges : List Edge) : State :=
  { nodes, labelled := edges.map Edge.labelled, selected := none, nodeLimit := limit, nextSerial := 1
    lastError := none }

variable {s : State} {limit : Nat} {nodes before after : List Node} {edges : List Edge}
  {n m : Node} {id : String}

/-- An edit in place, of a node that stands somewhere on a board. -/
theorem editNode_board {edit : Node → Node} (hid : m.id = id)
    (hbefore : ∀ b ∈ before, b.id ≠ id) :
    (board limit (before ++ m :: after) edges).editNode id edit =
      board limit (before ++ edit m :: after) edges := by
  rw [editNode, board, replaceNode_append hid hbefore]
  rfl

theorem mem_ids_board (hid : m.id = id) : id ∈ (board limit (before ++ m :: after) edges).ids :=
  List.mem_map.2 ⟨m, List.mem_append_right _ List.mem_cons_self, hid⟩

/-! ## Dressing a node -/

/-- A node as it stands before it is dressed: the id and the kind are those of `n`. -/
structure Undressed (m n : Node) : Prop where
  id : m.id = n.id
  kind : m.kind = n.kind
  bypass : m.bypass = false
  params : m.params = .empty

/-- The edits that set parameters of a node. -/
def setParams (id : String) (entries : List (String × Single)) : List Action :=
  entries.map fun e => .setParam id e.1 e.2

/-- The edits that make a node of an undressed one. -/
def dress (n : Node) : List Action :=
  .moveNode n.id n.x n.y :: (setParams n.id n.params.entries ++
    if n.bypass then [.toggleBypass n.id] else [])

theorem attemptAll_setParams {entries : List (String × Single)} (hid : m.id = id)
    (hbefore : ∀ b ∈ before, b.id ≠ id) (hfinite : ∀ e ∈ entries, e.2.isFinite) :
    (board limit (before ++ m :: after) edges).attemptAll (setParams id entries) =
      .ok (board limit
        (before ++ { m with params := entries.foldl (fun p e => p.insert e.1 e.2) m.params } :: after)
        edges) := by
  induction entries generalizing m with
  | nil => rfl
  | cons e entries ih =>
    obtain ⟨he, hentries⟩ := List.forall_mem_cons.1 hfinite
    rw [setParams, List.map_cons, attemptAll_cons (attempt_setParam (mem_ids_board hid) he),
      editNode_board hid hbefore]
    exact ih (m := { m with params := m.params.insert e.1 e.2 }) hid hentries

/-- **A node is dressed** wherever it stands, if its numbers are finite. -/
theorem attemptAll_dress (hm : Undressed m n) (hbefore : ∀ b ∈ before, b.id ≠ n.id)
    (hn : n.Finite) :
    (board limit (before ++ m :: after) edges).attemptAll (dress n) =
      .ok (board limit (before ++ n :: after) edges) := by
  let moved : Node := { m with x := n.x, y := n.y }
  let filled : Node := { moved with params := n.params }
  have hnode : { filled with bypass := n.bypass } = n := by
    obtain ⟨hid, hkind, -, -⟩ := hm
    simp only [filled, moved, hid, hkind]
  have hmoved : moved.id = n.id := hm.id
  have hfilled : filled.id = n.id := hm.id
  have hparams : n.params.entries.foldl (fun p e => p.insert e.1 e.2) moved.params = n.params := by
    rw [show moved.params = .empty from hm.params]
    exact Keyed.ofList_entries n.params
  have hfill : (board limit (before ++ moved :: after) edges).attemptAll
      (setParams n.id n.params.entries) = .ok (board limit (before ++ filled :: after) edges) := by
    rw [attemptAll_setParams hmoved hbefore hn.params, hparams]
  rw [dress, attemptAll_cons (attempt_moveNode (mem_ids_board hm.id) hn.x hn.y),
    editNode_board hm.id hbefore, attemptAll_append hfill]
  cases hbypass : n.bypass with
  | false =>
    rw [hbypass, ← hm.bypass] at hnode
    exact congrArg (fun m => Except.ok (board limit (before ++ m :: after) edges)) hnode
  | true =>
    have hset : { filled with bypass := !filled.bypass } = n := by
      rw [← hnode, hbypass, show filled.bypass = false from hm.bypass, Bool.not_false]
    rw [if_pos rfl, attemptAll_cons (attempt_toggleBypass (mem_ids_board hfilled)),
      editNode_board hfilled hbefore, hset, attemptAll_nil]

/-! ## Adding nodes -/

/-- The edits that add an effect. -/
def install (n : Node) : List Action := .addNode n.kind n.x n.y (some n.id) :: dress n

theorem attemptAll_install (hkind : n.kind.isAnchor = false) (hn : n.Finite)
    (hroom : nodes.length < limit) (hfresh : n.id ∉ nodes.map (·.id)) :
    (board limit nodes edges).attemptAll (install n) = .ok (board limit (nodes ++ [n]) edges) := by
  rw [install, attemptAll_cons (attempt_addNode hkind hn.x hn.y hroom hfresh)]
  exact attemptAll_dress ⟨rfl, rfl, rfl, rfl⟩ (id_ne_of_notMem hfresh) hn

/-- **Effects are added one by one**, as long as their ids differ and there is room for all. -/
theorem attemptAll_installs {effects : List Node} (hids : ((nodes ++ effects).map (·.id)).Nodup)
    (hroom : (nodes ++ effects).length ≤ limit)
    (heffects : ∀ n ∈ effects, n.kind.isAnchor = false ∧ n.Finite) :
    (board limit nodes edges).attemptAll (effects.flatMap install) =
      .ok (board limit (nodes ++ effects) edges) := by
  induction effects generalizing nodes with
  | nil => simp
  | cons n effects ih =>
    obtain ⟨⟨hkind, hn⟩, heffects⟩ := List.forall_mem_cons.1 heffects
    have hlt : nodes.length < limit := by
      rw [List.length_append, List.length_cons] at hroom
      omega
    have hfresh : n.id ∉ nodes.map (·.id) := by
      rw [List.map_append, List.map_cons] at hids
      exact fun hmem => (List.disjoint_of_nodup_append hids) hmem List.mem_cons_self
    rw [List.append_cons] at hids hroom ⊢
    rw [List.flatMap_cons, attemptAll_append (attemptAll_install hkind hn hlt hfresh),
      ih hids hroom heffects]

/-! ## The script of a state -/

/-- Edits that make the graph of a state on a new board. -/
def script (s : State) : List Action :=
  .disconnect inputId outputId ::
    ((s.nodes.filter (·.kind = .input)).flatMap dress ++
      ((s.nodes.filter (·.kind = .output)).flatMap dress ++
        ((s.nodes.filter (!·.isAnchor)).flatMap install ++ s.edges.map connectEdge)))

/-- Inputs, outputs and effects are all the nodes there are. -/
theorem perm_by_kind (nodes : List Node) :
    (nodes.filter (·.kind = .input) ++
      (nodes.filter (·.kind = .output) ++ nodes.filter (!·.isAnchor))).Perm nodes := by
  have hinput := List.filter_append_perm (fun n : Node => decide (n.kind = .input)) nodes
  have houtput := List.filter_append_perm (fun n : Node => decide (n.kind = .output))
    (nodes.filter fun n => !decide (n.kind = .input))
  have hout : ∀ n : Node, (decide (n.kind = .output) && !decide (n.kind = .input)) =
      decide (n.kind = .output) := fun n => by cases n.kind <;> rfl
  have heffect : ∀ n : Node, (!decide (n.kind = .output) && !decide (n.kind = .input)) =
      !n.isAnchor := fun n => by cases h : n.kind <;> simp [Node.isAnchor, h, Kind.isAnchor]
  simp only [List.filter_filter, hout, heffect] at houtput
  exact (houtput.append_left _).trans hinput

/-- The input of a new board. -/
def newInput : Node := { id := inputId, kind := .input, x := 80, y := 120 }

/-- The output of a new board. -/
def newOutput : Node := { id := outputId, kind := .output, x := 460, y := 120 }

/-- The first edit of a script leaves the two new anchors. -/
theorem attempt_disconnect_initial (limit : Nat) :
    (initial limit).attempt (.disconnect inputId outputId) =
      .ok (board (clampNodeLimit limit) [newInput, newOutput] []) := by
  rw [attempt_disconnect (by simp [initial])]
  simp [initial, board, newInput, newOutput, Edge.connects]

/-- The two anchors of a well-formed state are dressed new ones, and the effects are all else. -/
theorem WellFormed.exists_anchors (hs : s.WellFormed) : ∃ i o,
    s.nodes.filter (·.kind = .input) = [i] ∧ s.nodes.filter (·.kind = .output) = [o] ∧
      Undressed newInput i ∧ Undressed newOutput o ∧
        ([i, o] ++ s.nodes.filter (!·.isAnchor)).Perm s.nodes := by
  obtain ⟨i, hi, hiid⟩ := List.map_eq_singleton_iff.1 hs.input
  obtain ⟨o, ho, hoid⟩ := List.map_eq_singleton_iff.1 hs.output
  have hikind := (List.mem_filter.1 (hi ▸ List.mem_singleton_self i)).2
  have hokind := (List.mem_filter.1 (ho ▸ List.mem_singleton_self o)).2
  refine ⟨i, o, hi, ho, ⟨hiid.symm, (of_decide_eq_true hikind).symm, rfl, rfl⟩,
    ⟨hoid.symm, (of_decide_eq_true hokind).symm, rfl, rfl⟩, ?_⟩
  simpa [hi, ho] using perm_by_kind s.nodes

/-- The edges of a well-formed state can be connected wherever its nodes stand, in any order. -/
theorem attemptAll_connectEdges (hs : s.WellFormed) (hperm : nodes.Perm s.nodes) :
    (board limit nodes []).attemptAll (s.edges.map connectEdge) = .ok (board limit nodes s.edges) := by
  have hids : (board limit nodes []).ids.Perm s.ids := hperm.map _
  have hends : ∀ e ∈ s.edges, e.source ≠ e.target ∧ e.source ∈ (board limit nodes []).ids ∧
      e.target ∈ (board limit nodes []).ids := fun e he => by
    obtain ⟨hne, hsource, htarget⟩ := hs.ends e he
    exact ⟨hne, hids.mem_iff.2 hsource, hids.mem_iff.2 htarget⟩
  simpa [board] using attemptAll_connects (s := board limit nodes []) hs.edges_nodup hs.acyclic hends

/-- **A script is carried out** from its first edit to its last, and makes a state alike. -/
theorem attemptAll_script (hs : s.WellFormed) (hf : s.Finite) :
    ∃ t, (initial s.nodeLimit).attemptAll s.script = .ok t ∧ s.Alike t := by
  obtain ⟨i, o, hi, ho, hnewInput, hnewOutput, hperm⟩ := hs.exists_anchors
  obtain ⟨effects, heffects⟩ : ∃ ns, ns = s.nodes.filter (!·.isAnchor) := ⟨_, rfl⟩
  rw [← heffects] at hperm
  have hne : i.id ≠ o.id := by
    rw [← hnewInput.id, ← hnewOutput.id]
    decide
  have hinput : (board s.nodeLimit ([] ++ newInput :: [newOutput]) []).attemptAll (dress i) =
      .ok (board s.nodeLimit ([] ++ i :: [newOutput]) []) :=
    attemptAll_dress hnewInput (by simp) (hf i (hperm.subset (by simp)))
  have houtput : (board s.nodeLimit ([i] ++ newOutput :: []) []).attemptAll (dress o) =
      .ok (board s.nodeLimit ([i] ++ o :: []) []) :=
    attemptAll_dress hnewOutput (by simpa using hne) (hf o (hperm.subset (by simp)))
  have hinstall : (board s.nodeLimit [i, o] []).attemptAll (effects.flatMap install) =
      .ok (board s.nodeLimit ([i, o] ++ effects) []) := by
    refine attemptAll_installs ((hperm.map _).nodup_iff.2 hs.ids_nodup)
      (hperm.length_eq ▸ hs.fits) fun n hn => ?_
    obtain ⟨hn, heffect⟩ := List.mem_filter.1 (heffects ▸ hn)
    exact ⟨by simpa [Node.isAnchor] using heffect, hf n hn⟩
  refine ⟨board s.nodeLimit ([i, o] ++ effects) s.edges, ?_, hperm.symm, .of_eq hs.labelled_eq, rfl⟩
  calc (initial s.nodeLimit).attemptAll s.script
    _ = (board s.nodeLimit [newInput, newOutput] []).attemptAll
          (dress i ++ (dress o ++ (effects.flatMap install ++ s.edges.map connectEdge))) := by
        rw [script, attemptAll_cons (attempt_disconnect_initial _), hs.clamp_eq, hi, ho, heffects,
          List.flatMap_singleton, List.flatMap_singleton]
    _ = (board s.nodeLimit [i, newOutput] []).attemptAll
          (dress o ++ (effects.flatMap install ++ s.edges.map connectEdge)) :=
        attemptAll_append hinput
    _ = (board s.nodeLimit [i, o] []).attemptAll
          (effects.flatMap install ++ s.edges.map connectEdge) := attemptAll_append houtput
    _ = (board s.nodeLimit ([i, o] ++ effects) []).attemptAll (s.edges.map connectEdge) :=
        attemptAll_append hinstall
    _ = .ok (board s.nodeLimit ([i, o] ++ effects) s.edges) := attemptAll_connectEdges hs hperm

end State

/-! ## Documents -/

namespace Payload

variable {p : Payload} {limit : Nat} {s : State}

/-- **Whatever loads could have been made by edits.** For every document that loads there are edits
of a new board with the same limit, none of which is refused, after which the board is saved as the
loaded state is. -/
theorem exists_edits_of_hydrate (h : p.hydrate limit = .ok s) :
    ∃ actions t, (State.initial s.nodeLimit).attemptAll actions = .ok t ∧
      (State.initial s.nodeLimit).applyAll actions = t ∧
      t.nodeLimit = s.nodeLimit ∧ normalize t = normalize s := by
  have hopened : State.Opened s := .inr ⟨p, limit, h⟩
  obtain ⟨t, ht, halike⟩ := State.attemptAll_script hopened.wellFormed hopened.finite
  exact ⟨s.script, t, ht, State.applyAll_of_attemptAll ht, halike.nodeLimit.symm,
    (normalize_eq_of_alike hopened.wellFormed halike).symm⟩

/-- A document whose anchors are not as on a new board, and whose edges lead from the output to the
input by way of a bypassed effect. -/
def backwardPayload : Payload where
  nodes := [
    { id := "fx-9", kind := .delay, x := 0, y := 0, bypass := true,
      params := .ofList [("mix", 1), ("", 0)] },
    { id := outputId, kind := .output, x := 7, y := 0, bypass := true },
    { id := inputId, kind := .input, x := 0, y := 0, params := .ofList [("gain", 2)] }]
  edges := [⟨outputId, "fx-9"⟩, ⟨"fx-9", inputId⟩]

theorem exists_edits_of_hydrate_backwardPayload :
    ∃ s, backwardPayload.hydrate 3 = .ok s ∧
      ∃ actions t, (State.initial 8).attemptAll actions = .ok t ∧
        normalize t = .ok backwardPayload.sort := by
  obtain ⟨s, hload⟩ : ∃ s, backwardPayload.hydrate 3 = .ok s := exists_hydrate (by decide)
  obtain ⟨actions, t, ht, -, -, hsaved⟩ := exists_edits_of_hydrate hload
  rw [normalize_of_hydrate hload] at hsaved
  obtain ⟨-, rfl⟩ := State.ofParts_eq_ok.1 (State.hydrate_eq_ok hload).2
  exact ⟨_, hload, actions, t, ht, hsaved⟩

end Payload

end Pedalboard
