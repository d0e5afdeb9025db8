import Mathlib
import Pedalboard.Engine.Runtime
import Pedalboard.Proofs.Engine.Slots
import Pedalboard.Proofs.Graph.Acyclic
import Pedalboard.Proofs.Wire.Valid

/-!
# Compiled graphs

**The search** (`Explores`). The search for an output path as a loop without a bound: as long as an
id waits, the first one is followed. `reach` has a bound on its steps, and `explores_reach` says that
the loop ends before the bound does: an id is followed once, and only ends of edges are reached.

**The invariant** (`Search`). Reached ids lie on walks from the start, and what an edge leads to
from an id that is not waiting any more is reached. When nothing waits, the reached ids are exactly
those on walks from the start (`mem_reachedFromInput`).

**Positions.** Walks along edges between ids are walks along edges between positions, an id standing
for the last node that carries it, and back.

**Nodes** (`RuntimeNode.Renders`). What the engine knows of a node, in terms of the kind, the bypass
switch and the parameters of that node.

**Theorem (`compile_faithful`).** A valid payload is compiled node by node and edge by edge, and has an
output path exactly when a walk along its compiled edges leads from an input to an output. Cycles,
repeated edges and repeated ids make no difference.
-/

namespace Pedalboard

open Relation

/-! ## Visiting -/

/-- **What is visited** is added to both lists in the same order, once each. -/
theorem visit_spec (reached waiting ids : List String) :
    ∃ new : List String, visit reached waiting ids = (new.reverse ++ reached, waiting ++ new) ∧
      new.Nodup ∧ (∀ id ∈ new, id ∈ ids ∧ id ∉ reached) ∧
      ∀ id ∈ ids, id ∈ new ∨ id ∈ reached := by
  induction ids generalizing reached waiting with
  | nil => exact ⟨[], by simp [visit]⟩
  | cons id rest ih =>
    unfold visit
    by_cases hid : id ∈ reached
    · obtain ⟨new, hvisit, hnodup, hnew, hall⟩ := ih reached waiting
      refine ⟨new, by simp [hid, hvisit], hnodup, fun a ha => ?_, fun a ha => ?_⟩
      · exact ⟨List.mem_cons_of_mem _ (hnew a ha).1, (hnew a ha).2⟩
      · rcases List.mem_cons.1 ha with rfl | ha
        · exact .inr hid
        · exact hall a ha
    · obtain ⟨new, hvisit, hnodup, hnew, hall⟩ := ih (id :: reached) (waiting ++ [id])
      refine ⟨id :: new, by simp [hid, hvisit], ?_, fun a ha => ?_, fun a ha => ?_⟩
      · exact List.nodup_cons.2 ⟨fun h => (hnew id h).2 List.mem_cons_self, hnodup⟩
      · rcases List.mem_cons.1 ha with rfl | ha
        · exact ⟨List.mem_cons_self, hid⟩
        · obtain ⟨hrest, hfresh⟩ := hnew a ha
          exact ⟨List.mem_cons_of_mem _ hrest, fun h => hfresh (List.mem_cons_of_mem _ h)⟩
      · rcases List.mem_cons.1 ha with rfl | ha
        · exact .inl List.mem_cons_self
        · rcases hall a ha with h | h
          · exact .inl (List.mem_cons_of_mem _ h)
          · rcases List.mem_cons.1 h with rfl | h
            · exact .inl List.mem_cons_self
            · exact .inr h

theorem mem_successors {edges : List Edge} {a b : String} :
    b ∈ successors edges a ↔ Linked edges a b := by
  unfold successors Linked
  constructor
  · intro h
    obtain ⟨e, he, rfl⟩ := List.mem_map.1 h
    have hsource := (List.mem_filter.1 he).2
    obtain rfl : e.source = a := by simpa using hsource
    exact (List.mem_filter.1 he).1
  · intro h
    exact List.mem_map.2 ⟨⟨a, b⟩, by simp [h], rfl⟩

/-! ## The search -/

/-- The loop that follows waiting ids until none is left, from the reached ids to those that are
reached when it ends. -/
inductive Explores (edges : List Edge) : List String → List String → List String → Prop
  | done (reached : List String) : Explores edges reached [] reached
  | follow {reached waiting reached' waiting' result : List String} {id : String} :
      visit reached waiting (successors edges id) = (reached', waiting') →
      Explores edges reached' waiting' result → Explores edges reached (id :: waiting) result

/-- What holds of a search from `start` at every turn of the loop. -/
structure Search (edges : List Edge) (start : String) (reached waiting : List String) : Prop where
  nodup : reached.Nodup
  start_mem : start ∈ reached
  walk : ∀ id ∈ reached, ReflTransGen (Linked edges) start id
  waiting_mem : ∀ id ∈ waiting, id ∈ reached
  followed : ∀ a ∈ reached, a ∉ waiting → ∀ b, Linked edges a b → b ∈ reached

namespace Search

variable {edges : List Edge} {start id : String} {reached waiting result : List String}

theorem init (edges : List Edge) (start : String) : Search edges start [start] [start] where
  nodup := List.nodup_singleton start
  start_mem := List.mem_singleton_self start
  walk := by simp [ReflTransGen.refl]
  waiting_mem := by simp
  followed := by simp

/-- **One turn of the loop** keeps the invariant; as many ids are added to those reached as to those
waiting. -/
theorem step (h : Search edges start reached (id :: waiting)) :
    ∃ new : List String,
      visit reached waiting (successors edges id) = (new.reverse ++ reached, waiting ++ new) ∧
      Search edges start (new.reverse ++ reached) (waiting ++ new) := by
  obtain ⟨new, hvisit, hnodup, hnew, hall⟩ := visit_spec reached waiting (successors edges id)
  refine ⟨new, hvisit, ?_, ?_, fun a ha => ?_, fun a ha => ?_, fun a ha hwaits b hb => ?_⟩
  · refine List.nodup_append.2 ⟨List.nodup_reverse.2 hnodup, h.nodup, ?_⟩
    rintro a ha b hb rfl
    exact (hnew a (List.mem_reverse.1 ha)).2 hb
  · exact List.mem_append_right _ h.start_mem
  · rcases List.mem_append.1 ha with ha | ha
    · have hlink := mem_successors.1 (hnew a (List.mem_reverse.1 ha)).1
      exact (h.walk id (h.waiting_mem id List.mem_cons_self)).tail hlink
    · exact h.walk a ha
  · rcases List.mem_append.1 ha with ha | ha
    · exact List.mem_append_right _ (h.waiting_mem a (List.mem_cons_of_mem _ ha))
    · exact List.mem_append_left _ (List.mem_reverse.2 ha)
  · rw [List.mem_append, not_or] at hwaits
    have hreached : a ∈ reached := by simpa [hwaits.2] using ha
    by_cases hid : a = id
    · -- The id that is followed: everything it leads to is visited now.
      subst hid
      simpa using hall b (mem_successors.2 hb)
    · exact List.mem_append_right _ (h.followed a hreached (by simp [hid, hwaits.1]) b hb)

/-- Only the start and what edges lead to is reached. -/
theorem length_le (h : Search edges start reached waiting) : reached.length ≤ edges.length + 1 := by
  have hsub : reached ⊆ start :: edges.map (·.target) := by
    intro id hid
    rcases (h.walk id hid).cases_tail with rfl | ⟨a, -, hlink⟩
    · exact List.mem_cons_self
    · exact List.mem_cons_of_mem _ (List.mem_map.2 ⟨_, hlink, rfl⟩)
  simpa using (List.subperm_of_subset h.nodup hsub).length_le

/-- **The bound on the steps is never met.** What waits has not been followed, so the steps that are
left suffice if they do for the ids that have not been followed. -/
theorem explores_reach (h : Search edges start reached waiting) (fuel : Nat)
    (hfuel : edges.length + 1 + waiting.length ≤ fuel + reached.length) :
    Explores edges reached waiting (reach edges fuel reached waiting) := by
  induction fuel generalizing reached waiting with
  | zero =>
    have hle := h.length_le
    obtain rfl : waiting = [] := List.eq_nil_of_length_eq_zero (by omega)
    simpa [reach] using Explores.done reached
  | succ fuel ih =>
    cases waiting with
    | nil => simpa [reach] using Explores.done reached
    | cons id waiting =>
      obtain ⟨new, hvisit, hnext⟩ := h.step
      refine .follow hvisit ?_
      simp only [reach, hvisit]
      refine ih hnext ?_
      simp only [List.length_append, List.length_reverse, List.length_cons] at hfuel ⊢
      omega

/-- When the loop ends, nothing waits. -/
theorem of_explores (he : Explores edges reached waiting result)
    (h : Search edges start reached waiting) : Search edges start result [] := by
  induction he with
  | done => exact h
  | follow hvisit _ ih =>
    obtain ⟨new, hvisit', hnext⟩ := h.step
    rw [hvisit, Prod.mk.injEq] at hvisit'
    obtain ⟨rfl, rfl⟩ := hvisit'
    exact ih hnext

/-- **The reached ids are those on walks from the start**, when nothing waits. -/
theorem mem_iff (h : Search edges start result []) :
    id ∈ result ↔ ReflTransGen (Linked edges) start id := by
  constructor
  · exact h.walk id
  · intro hwalk
    induction hwalk with
    | refl => exact h.start_mem
    | tail _ hlink ih => exact h.followed _ ih List.not_mem_nil _ hlink

end Search

/-! ## Output paths between ids -/

variable {p : Payload}

def Payload.ids (p : Payload) : List String := p.nodes.map (·.id)

theorem node?_eq_none_iff {id : String} : p.node? id = none ↔ id ∉ p.ids := by
  unfold Payload.node? Payload.ids
  simp

/-- **The search for an output path ends**, whatever cycles there are. -/
theorem explores_reachedFromInput (h : inputId ∈ p.ids) :
    Explores p.edges [inputId] [inputId] (reachedFromInput p) := by
  rw [reachedFromInput, if_neg (by simpa [node?_eq_none_iff] using h)]
  exact (Search.init p.edges inputId).explores_reach _ (by simp)

theorem mem_reachedFromInput {id : String} :
    id ∈ reachedFromInput p ↔ inputId ∈ p.ids ∧ ReflTransGen (Linked p.edges) inputId id := by
  by_cases hinput : inputId ∈ p.ids
  · have hsearch := (Search.init p.edges inputId).of_explores (explores_reachedFromInput hinput)
    rw [hsearch.mem_iff, and_iff_right hinput]
  · rw [reachedFromInput, if_pos (by simpa [node?_eq_none_iff] using hinput)]
    simp [hinput]

/-! ## Positions -/

/-- An edge between positions. -/
def RuntimeGraph.Joins (g : RuntimeGraph) (i j : Nat) : Prop := RuntimeEdge.mk i j ∈ g.edges

theorem RuntimeEdge.ofEdge?_eq_some {ids : List String} {e : Edge} {r : RuntimeEdge} :
    RuntimeEdge.ofEdge? ids e = some r ↔ ∃ i j : Nat, r = ⟨i, j⟩ ∧
      lastIndex? ids e.source = some i ∧ lastIndex? ids e.target = some j := by
  unfold RuntimeEdge.ofEdge?
  cases lastIndex? ids e.source <;> cases lastIndex? ids e.target <;> simp [eq_comm]

theorem joins_compile_iff {i j : Nat} :
    (compile p).Joins i j ↔
      ∃ e ∈ p.edges, lastIndex? p.ids e.source = some i ∧ lastIndex? p.ids e.target = some j := by
  unfold RuntimeGraph.Joins compile
  simp only [List.mem_filterMap]
  refine exists_congr fun e => and_congr_right fun _ => ?_
  rw [RuntimeEdge.ofEdge?_eq_some]
  constructor
  · rintro ⟨i', j', heq, hi, hj⟩
    simp only [RuntimeEdge.mk.injEq, Nat.cast_inj] at heq
    obtain ⟨rfl, rfl⟩ := heq
    exact ⟨hi, hj⟩
  · rintro ⟨hi, hj⟩
    exact ⟨i, j, rfl, hi, hj⟩

/-- The position that stands for an id. -/
def Payload.position (p : Payload) (id : String) : Nat := (lastIndex? p.ids id).getD 0

theorem lastIndex?_position {id : String} (h : id ∈ p.ids) :
    lastIndex? p.ids id = some (p.position id) := by
  obtain ⟨i, hi⟩ := Option.isSome_iff_exists.1 (lastIndex?_isSome.2 h)
  simp [Payload.position, hi]

theorem ids_position {id : String} (h : id ∈ p.ids) : p.ids[p.position id]? = some id :=
  lastIndex?_eq_some (lastIndex?_position h)

/-- The ends of every edge are ids of nodes. -/
def Payload.EndsKnown (p : Payload) : Prop := ∀ e ∈ p.edges, e.source ∈ p.ids ∧ e.target ∈ p.ids

theorem joins_of_linked (h : p.EndsKnown) {a b : String} (hab : Linked p.edges a b) :
    (compile p).Joins (p.position a) (p.position b) := by
  obtain ⟨ha, hb⟩ := h _ hab
  exact joins_compile_iff.2 ⟨_, hab, lastIndex?_position ha, lastIndex?_position hb⟩

theorem linked_of_joins {i j : Nat} (h : (compile p).Joins i j) :
    Linked p.edges (p.ids[i]?.getD "") (p.ids[j]?.getD "") := by
  obtain ⟨e, he, hi, hj⟩ := joins_compile_iff.1 h
  simpa [Linked, lastIndex?_eq_some hi, lastIndex?_eq_some hj] using he

/-- **An output path between ids is one between positions.** -/
theorem hasOutputPath_iff (h : p.EndsKnown) :
    (compile p).hasOutputPath = true ↔ ∃ i j : Nat, p.ids[i]? = some inputId ∧
      p.ids[j]? = some outputId ∧ ReflTransGen (compile p).Joins i j := by
  have hmem : (compile p).hasOutputPath = true ↔ outputId ∈ reachedFromInput p := by
    simp [compile]
  rw [hmem, mem_reachedFromInput]
  constructor
  · rintro ⟨hinput, hwalk⟩
    -- The anchors have different ids, so the walk ends with an edge, and ends of edges are known.
    have houtput : outputId ∈ p.ids := by
      rcases hwalk.cases_tail with heq | ⟨a, -, hlink⟩
      · exact absurd heq (by decide)
      · exact (h _ hlink).2
    refine ⟨p.position inputId, p.position outputId, ids_position hinput, ids_position houtput, ?_⟩
    exact hwalk.lift p.position fun _ _ => joins_of_linked h
  · rintro ⟨i, j, hi, hj, hwalk⟩
    refine ⟨List.mem_of_getElem? hi, ?_⟩
    have hlift := hwalk.lift (fun k => p.ids[k]?.getD "") fun _ _ => linked_of_joins
    simpa [Function.onFun, hi, hj] using hlift

/-! ## Faithful compilation -/

/-- What the engine knows of a node. -/
structure RuntimeNode.Renders (n : Node) (r : RuntimeNode) : Prop where
  effectType : r.effectType = n.kind.effectType
  /-- Anchors are bypassed, and so is what was switched off. -/
  bypass : r.bypass = true ↔ n.kind = .input ∨ n.kind = .output ∨ n.bypass = true
  /-- The slots are computed from the resolved values of the controls of the kind. -/
  slots : ∀ get : String → Single,
    (∀ c ∈ n.kind.controls, get c.key = c.resolve (n.params.get? c.key)) →
      r.slots = .ofReadings n.kind get
  /-- What the kind does not fill is zero. -/
  rest : ∀ i (hi : i < slotCount), n.kind.filledSlots ≤ i → r.slots[i] = 0

theorem RuntimeNode.slots_ofNode (n : Node) : (ofNode n).slots = .ofParams n.kind n.params := rfl

theorem RuntimeNode.renders_ofNode (n : Node) : Renders n (.ofNode n) where
  effectType := rfl
  bypass := by cases hkind : n.kind <;> simp [ofNode, hkind, Kind.isAnchor]
  slots _ hget := (Slots.ofParams_eq hget).symm
  rest _ hi h := by
    rw [slots_ofNode, Slots.ofParams]
    exact Slots.getElem_ofReadings _ hi h

/-- An id stands for a node that carries it. -/
theorem position_spec {id : String} (h : id ∈ p.ids) :
    ∃ hi : p.position id < p.nodes.length, p.nodes[p.position id].id = id := by
  have hid := ids_position h
  simpa [Payload.ids, List.getElem?_eq_some_iff] using hid

/-- **Every edge is compiled**, in its place, into the positions of its ends. -/
theorem edges_compile (h : p.EndsKnown) :
    (compile p).edges = p.edges.map fun e => ⟨p.position e.source, p.position e.target⟩ := by
  show p.edges.filterMap (RuntimeEdge.ofEdge? p.ids) = _
  rw [← List.filterMap_eq_map]
  refine List.filterMap_congr fun e he => ?_
  obtain ⟨hsource, htarget⟩ := h e he
  exact RuntimeEdge.ofEdge?_eq_some.2
    ⟨_, _, rfl, lastIndex?_position hsource, lastIndex?_position htarget⟩

/-- **A valid payload is compiled faithfully.** Its nodes are compiled one by one, each into what the
engine is to know of it, and so are its edges, into pairs of positions of nodes that carry the ids of
their ends; the search for an output path comes to an end, and finds one exactly if a walk along
compiled edges leads from the position of an input to that of an output. -/
theorem compile_faithful (h : p.validate = .ok ()) :
    (compile p).nodes.length = p.nodes.length ∧
    (∀ i : Nat, (compile p).nodes[i]? = p.nodes[i]?.map RuntimeNode.ofNode) ∧
    List.Forall₂ RuntimeNode.Renders p.nodes (compile p).nodes ∧
    List.Forall₂ (fun (e : Edge) (r : RuntimeEdge) =>
      ∃ (i j : Nat) (hi : i < p.nodes.length) (hj : j < p.nodes.length), r = ⟨i, j⟩ ∧
        p.nodes[i].id = e.source ∧ p.nodes[j].id = e.target) p.edges (compile p).edges ∧
    ((∃ n ∈ p.nodes, n.id = "input") →
      Explores p.edges ["input"] ["input"] (reachedFromInput p)) ∧
    ((compile p).hasOutputPath = true ↔
      ∃ (i j : Nat) (hi : i < p.nodes.length) (hj : j < p.nodes.length),
        p.nodes[i].id = "input" ∧ p.nodes[j].id = "output" ∧
        ReflTransGen (compile p).Joins i j) := by
  obtain ⟨-, -, -, -, -, hends⟩ := Payload.problem?_eq_none_iff.1 (Payload.validate_eq_ok.1 h)
  have hknown : p.EndsKnown := hends
  refine ⟨by simp [compile], fun i => by simp [compile], ?_, ?_, fun hinput => ?_, ?_⟩
  · rw [compile, List.forall₂_map_right_iff, List.forall₂_same]
    exact fun n _ => RuntimeNode.renders_ofNode n
  · rw [edges_compile hknown, List.forall₂_map_right_iff, List.forall₂_same]
    intro e he
    obtain ⟨hi, hsource⟩ := position_spec (hknown e he).1
    obtain ⟨hj, htarget⟩ := position_spec (hknown e he).2
    exact ⟨_, _, hi, hj, rfl, hsource, htarget⟩
  · exact explores_reachedFromInput (List.mem_map.2 hinput)
  · have hat : ∀ {i : Nat} {id : String}, p.ids[i]? = some id ↔
        ∃ hi : i < p.nodes.length, p.nodes[i].id = id := by
      intro i id
      simp [Payload.ids, List.getElem?_eq_some_iff]
    rw [hasOutputPath_iff hknown]
    constructor
    · rintro ⟨i, j, hi, hj, hwalk⟩
      obtain ⟨hi, hinput⟩ := hat.1 hi
      obtain ⟨hj, houtput⟩ := hat.1 hj
      exact ⟨i, j, hi, hj, hinput, houtput, hwalk⟩
    · rintro ⟨i, j, hi, hj, hinput, houtput, hwalk⟩
      exact ⟨i, j, hat.2 ⟨hi, hinput⟩, hat.2 ⟨hj, houtput⟩, hwalk⟩

/-- Cycles, an edge from a node to itself, a repeated edge, and an id that stands twice. -/
def tangledPayload : Payload where
  nodes := [{ id := "a", kind := .delay, x := 0, y := 0 },
    { id := inputId, kind := .input, x := 0, y := 0 }, { id := "a", kind := .eq, x := 0, y := 0 },
    { id := outputId, kind := .output, x := 0, y := 0 }]
  edges := [⟨"a", "a"⟩, ⟨"a", inputId⟩, ⟨inputId, "a"⟩, ⟨inputId, "a"⟩, ⟨"a", outputId⟩]

/-- The search goes round the cycles and ends; the edges lead to the second of the two nodes, which is
an equaliser. -/
theorem compile_faithful_tangledPayload :
    tangledPayload.validate = .ok () ∧
    Explores tangledPayload.edges ["input"] ["input"] (reachedFromInput tangledPayload) ∧
    (compile tangledPayload).edges = [⟨2, 2⟩, ⟨2, 1⟩, ⟨1, 2⟩, ⟨1, 2⟩, ⟨2, 3⟩] ∧
    (compile tangledPayload).nodes.map (fun r => (r.effectType, r.bypass)) =
      [(3, false), (0, true), (5, false), (0, true)] ∧
    ∃ i j : Nat, ReflTransGen (compile tangledPayload).Joins i j ∧ i ≠ j := by
  have hvalid : tangledPayload.validate = .ok () := by decide
  obtain ⟨-, -, -, -, hends, hpath⟩ := compile_faithful hvalid
  obtain ⟨i, j, hi, hj, hinput, houtput, hwalk⟩ := hpath.1 (by decide)
  refine ⟨hvalid, hends ⟨_, List.mem_cons_of_mem _ List.mem_cons_self, rfl⟩, by decide, rfl, i, j,
    hwalk, ?_⟩
  rintro rfl
  exact absurd (hinput.symm.trans houtput) (by decide)

end Pedalboard
