import Mathlib
import Pedalboard.Proofs.Graph.Invariant
import Pedalboard.Proofs.Wire.Canonical

/-!
# Connecting nodes

**One more edge** (`acyclic_concat`). An edge closes a cycle exactly when there is a walk from its
target back to its source. So the cycle check, which looks at all edges at once, asks no more than
that of a graph that has no cycle (`State.hasCycle_concat_eq_false_iff`).

**Theorem (`State.connect_law`).** An edge is made between different nodes that are not joined yet,
unless such a walk exists; that is when a cycle is reported.

**Many edges** (`State.attemptAll_connects`). Edges can be made one after the other if they can stand
together: they differ, join different nodes and close no cycle. That is so of any part of the edges
of a graph, and in any order.

**Theorem (`State.connects_commute`).** So edges that can be made in one order can be made in every
order, and the graph is saved as the same document.
-/

namespace Pedalboard

open Relation

/-! ## One more edge -/

variable {edges : List Edge} {a b : String}

theorem linked_concat {x y : String} :
    Linked (edges ++ [⟨a, b⟩]) x y ↔ Linked edges x y ∨ x = a ∧ y = b := by
  simp [Linked]

/-- A walk that uses a new edge comes to its source and goes on from its target. -/
theorem transGen_linked_concat {x y : String} (h : TransGen (Linked (edges ++ [⟨a, b⟩])) x y) :
    TransGen (Linked edges) x y ∨
      ReflTransGen (Linked edges) x a ∧ ReflTransGen (Linked edges) b y := by
  induction h with
  | single hlink =>
    rcases linked_concat.1 hlink with hold | ⟨rfl, rfl⟩
    · exact .inl (.single hold)
    · exact .inr ⟨.refl, .refl⟩
  | tail _ hlink ih =>
    rcases linked_concat.1 hlink with hold | ⟨rfl, rfl⟩
    · exact ih.imp (·.tail hold) fun ⟨hto, hfrom⟩ => ⟨hto, hfrom.tail hold⟩
    · exact .inr ⟨ih.elim TransGen.to_reflTransGen And.left, .refl⟩

/-- **An edge closes a cycle** exactly when there is a walk back along the edges that stand. -/
theorem acyclic_concat (h : Acyclic edges) :
    Acyclic (edges ++ [⟨a, b⟩]) ↔ ¬ ReflTransGen (Linked edges) b a := by
  constructor
  · intro hnew hback
    have hback' : ReflTransGen (Linked (edges ++ [⟨a, b⟩])) b a :=
      hback.lift id fun _ _ hold => linked_concat.2 (.inl hold)
    exact hnew a (.head' (linked_concat.2 (.inr ⟨rfl, rfl⟩)) hback')
  · intro hnone x hx
    rcases transGen_linked_concat hx with hold | ⟨hto, hfrom⟩
    · exact h x hold
    · exact hnone (hfrom.trans hto)

namespace State

variable {s t : State} {more : List Edge}

theorem hasCycle_concat_eq_false_iff (hs : s.WellFormed) (ha : a ∈ s.ids) (hb : b ∈ s.ids) :
    hasCycle s.ids (s.edges ++ [⟨a, b⟩]) = false ↔ ¬ ReflTransGen (Linked s.edges) b a := by
  have hends : ∀ e ∈ s.edges ++ [⟨a, b⟩], e.source ∈ s.ids ∧ e.target ∈ s.ids := by
    intro e he
    rcases List.mem_append.1 he with he | he
    · exact (hs.ends e he).2
    · obtain rfl := List.mem_singleton.1 he
      exact ⟨ha, hb⟩
  rw [hasCycle_iff_of_ends hends, acyclic_concat hs.acyclic]

/-- What an edge needs before anyone looks for cycles: different ends that stand and are not joined. -/
@[mk_iff]
structure Joinable (s : State) (a b : String) : Prop where
  ne : a ≠ b
  source : a ∈ s.ids
  target : b ∈ s.ids
  fresh : Edge.mk a b ∉ s.edges

/-- **When an edge is made**, and what is changed then. -/
theorem attempt_connect_eq_ok_iff (hs : s.WellFormed) :
    s.attempt (.connect a b) = .ok t ↔
      (s.Joinable a b ∧ ¬ ReflTransGen (Linked s.edges) b a) ∧
        t = { s with labelled := s.labelled ++ [Edge.labelled ⟨a, b⟩], lastError := none } := by
  constructor
  · intro h
    obtain ⟨hne, ha, hb, hfresh, hcycle, rfl⟩ := attemptConnect_eq_ok h
    exact ⟨⟨⟨hne, ha, hb, hfresh⟩, (hasCycle_concat_eq_false_iff hs ha hb).1 hcycle⟩, rfl⟩
  · rintro ⟨⟨⟨hne, ha, hb, hfresh⟩, hnone⟩, rfl⟩
    exact attempt_connect hne ha hb hfresh ((hasCycle_concat_eq_false_iff hs ha hb).2 hnone)

/-- **When a cycle is reported.** -/
theorem attempt_connect_eq_cycleDetected_iff (hs : s.WellFormed) :
    s.attempt (.connect a b) = .error .cycleDetected ↔
      s.Joinable a b ∧ ReflTransGen (Linked s.edges) b a := by
  simp only [attempt, attemptConnect, contains_eq, hasEdge_eq, map_toEdge_concat]
  split_ifs with hne hmem hfresh hcycle
  · exact iff_of_false (by simp) fun h => h.1.ne hne
  · exact iff_of_false (by simp) fun h => by simp [h.1.source, h.1.target] at hmem
  · exact iff_of_false (by simp) fun h => by simp [h.1.fresh] at hfresh
  · simp only [Bool.or_eq_true, Bool.not_eq_true', decide_eq_false_iff_not, not_or, not_not] at hmem
    refine iff_of_true rfl ⟨⟨hne, hmem.1, hmem.2, by simpa using hfresh⟩, ?_⟩
    by_contra hnone
    rw [(hasCycle_concat_eq_false_iff hs hmem.1 hmem.2).2 hnone] at hcycle
    exact absurd hcycle (by decide)
  · refine iff_of_false (by simp) fun h => hcycle ?_
    rw [← Bool.not_eq_false, hasCycle_concat_eq_false_iff hs h.1.source h.1.target, not_not]
    exact h.2

/-- **Connecting two nodes** of a graph that occurs. The edge is made exactly when its ends are
different nodes that are not joined yet and no walk leads from its target back to its source. With
such a walk, and only then, a cycle is reported. The new edge comes last, and nothing else changes
but that the error is cleared. -/
theorem connect_law (h : Reaches Built s) (a b : String) :
    ((s.apply (.connect a b)).lastError = none ↔
      a ≠ b ∧ a ∈ s.ids ∧ b ∈ s.ids ∧ Edge.mk a b ∉ s.edges ∧
        ¬ ReflTransGen (fun x y => Edge.mk x y ∈ s.edges) b a) ∧
    ((s.apply (.connect a b)).lastError = some .cycleDetected ↔
      a ≠ b ∧ a ∈ s.ids ∧ b ∈ s.ids ∧ Edge.mk a b ∉ s.edges ∧
        ReflTransGen (fun x y => Edge.mk x y ∈ s.edges) b a) ∧
    ((s.apply (.connect a b)).lastError = none →
      s.apply (.connect a b) =
        { s with labelled := s.labelled ++ [Edge.labelled ⟨a, b⟩], lastError := none }) := by
  have hs := h.wellFormed
  have hmade : (s.apply (.connect a b)).lastError = none ↔
      s.Joinable a b ∧ ¬ ReflTransGen (Linked s.edges) b a := by
    simp only [lastError_apply_eq_none_iff, attempt_connect_eq_ok_iff hs, exists_and_left,
      exists_eq, and_true]
  have hback : (s.apply (.connect a b)).lastError = some .cycleDetected ↔
      s.Joinable a b ∧ ReflTransGen (Linked s.edges) b a := by
    rw [← attempt_eq_error_iff, attempt_connect_eq_cycleDetected_iff hs]
  rw [joinable_iff, and_assoc, and_assoc, and_assoc] at hmade hback
  refine ⟨hmade, hback, fun hnone => ?_⟩
  obtain ⟨t, ht⟩ := lastError_apply_eq_none_iff.1 hnone
  rw [apply_of_ok ht]
  exact ((attempt_connect_eq_ok_iff hs).1 ht).2

/-- Two effects in a row before the output. -/
def twoInRow : State :=
  (initial 3).applyAll [.addNode .delay 0 0 none, .addNode .eq 0 0 none, .connect "fx-1" "fx-2",
    .connect "fx-2" "output"]

/-- An edge back from the output closes a cycle, an edge from the input does not. -/
theorem connect_law_twoInRow :
    Reaches Built twoInRow ∧
    (twoInRow.apply (.connect "output" "fx-1")).lastError = some .cycleDetected ∧
    ReflTransGen (fun x y => Edge.mk x y ∈ twoInRow.edges) "fx-1" "output" ∧
    ¬ ReflTransGen (fun x y => Edge.mk x y ∈ twoInRow.edges) "fx-1" "input" ∧
    twoInRow.apply (.connect "input" "fx-1") =
      { twoInRow with
        labelled := twoInRow.labelled ++ [Edge.labelled ⟨"input", "fx-1"⟩]
        lastError := none } := by
  have hreaches : Reaches Built twoInRow := (reaches_applyAll_initial 3 _).mono fun _ => .inl
  have hcycle : (twoInRow.apply (.connect "output" "fx-1")).lastError = some .cycleDetected := by
    decide
  have hnone : (twoInRow.apply (.connect "input" "fx-1")).lastError = none := by decide
  obtain ⟨-, hback, -⟩ := connect_law hreaches "output" "fx-1"
  obtain ⟨hmade, -, hnext⟩ := connect_law hreaches "input" "fx-1"
  exact ⟨hreaches, hcycle, (hback.1 hcycle).2.2.2.2, (hmade.1 hnone).2.2.2.2, hnext hnone⟩

/-! ## Many edges -/

/-- The edit that makes an edge. -/
def connectEdge (e : Edge) : Action := .connect e.source e.target

theorem connectEdge_injective : Function.Injective connectEdge := by
  rintro ⟨a, b⟩ ⟨c, d⟩ h
  simpa [connectEdge] using h

/-- **Edges are made one by one**, as long as they differ, join different nodes and close no cycle
together. -/
theorem attemptAll_connects (hnodup : (s.edges ++ more).Nodup) (hacyclic : Acyclic (s.edges ++ more))
    (hends : ∀ e ∈ s.edges ++ more, e.source ≠ e.target ∧ e.source ∈ s.ids ∧ e.target ∈ s.ids) :
    s.attemptAll (more.map connectEdge) = .ok { s with
      labelled := s.labelled ++ more.map Edge.labelled
      lastError := if more = [] then s.lastError else none } := by
  induction more generalizing s with
  | nil => simp
  | cons e more ih =>
    obtain ⟨hne, hsource, htarget⟩ := hends e (by simp)
    have hfresh : e ∉ s.edges := fun he =>
      (List.disjoint_of_nodup_append hnodup) he List.mem_cons_self
    rw [List.append_cons] at hnodup hacyclic hends
    -- An initial part of edges that close no cycle closes none.
    have hcycle : hasCycle s.ids (s.edges ++ [e]) = false :=
      (hasCycle_iff_of_ends fun d hd => (hends d (List.mem_append_left _ hd)).2).2
        (hacyclic.mono (List.subset_append_left _ _))
    let next : State := { s with labelled := s.labelled ++ [e.labelled], lastError := none }
    have hnext : s.attempt (connectEdge e) = .ok next :=
      attempt_connect hne hsource htarget hfresh hcycle
    have hedges : next.edges = s.edges ++ [e] := map_toEdge_concat s e
    rw [← hedges] at hnodup hacyclic hends
    rw [List.map_cons, attemptAll_cons hnext, ih hnodup hacyclic hends]
    simp [next]

/-- Edges that were made one by one stand together. -/
theorem of_attemptAll_connects (hs : s.WellFormed)
    (h : s.attemptAll (more.map connectEdge) = .ok t) :
    t.WellFormed ∧ t.nodes = s.nodes ∧ t.edges = s.edges ++ more := by
  induction more generalizing s with
  | nil =>
    obtain rfl := Except.ok.inj h
    exact ⟨hs, rfl, (List.append_nil _).symm⟩
  | cons e more ih =>
    obtain ⟨next, hnext, h⟩ := attemptAll_cons_eq_ok.1 h
    obtain ⟨ht, hnodes, hedges⟩ := ih (hs.attempt hnext) h
    obtain ⟨-, -, -, -, -, rfl⟩ := attemptConnect_eq_ok hnext
    rw [List.append_cons, ← map_toEdge_concat]
    exact ⟨ht, hnodes, hedges⟩

/-- Edits that connect are read off edges. -/
theorem exists_map_connectEdge {actions : List Action}
    (h : ∀ a ∈ actions, ∃ source target, a = .connect source target) :
    ∃ more : List Edge, actions = more.map connectEdge := by
  have hrange : actions ∈ Set.range (List.map connectEdge) := by
    rw [Set.range_list_map]
    intro a ha
    obtain ⟨source, target, rfl⟩ := h a ha
    exact ⟨⟨source, target⟩, rfl⟩
  obtain ⟨more, hmore⟩ := hrange
  exact ⟨more, hmore.symm⟩

/-- **The order of connecting does not matter.** If edits that connect are all carried out one after
the other, so are they in any other order, and the two graphs that they lead to have the same
payload. -/
theorem connects_commute {actions actions' : List Action} (h : Reaches Built s)
    (hconnects : ∀ a ∈ actions, ∃ source target, a = .connect source target)
    (hperm : actions.Perm actions') (hok : s.attemptAll actions = .ok t) :
    ∃ t', s.attemptAll actions' = .ok t' ∧ s.applyAll actions' = t' ∧
      Payload.normalize t' = Payload.normalize t := by
  obtain ⟨more, rfl⟩ := exists_map_connectEdge hconnects
  obtain ⟨more', rfl⟩ := exists_map_connectEdge fun a ha => hconnects a (hperm.mem_iff.2 ha)
  rw [List.map_perm_map_iff connectEdge_injective] at hperm
  obtain ⟨ht, hnodes, hedges⟩ := of_attemptAll_connects h.wellFormed hok
  have hall : t.edges.Perm (s.edges ++ more') := hedges ▸ hperm.append_left s.edges
  have hids : t.ids = s.ids := by rw [ids, ids, hnodes]
  have hends : ∀ e ∈ s.edges ++ more', e.source ≠ e.target ∧ e.source ∈ s.ids ∧ e.target ∈ s.ids :=
    fun e he => hids ▸ ht.ends e (hall.mem_iff.2 he)
  have hmade := attemptAll_connects (hall.nodup_iff.1 ht.edges_nodup)
    (ht.acyclic.mono hall.symm.subset) hends
  refine ⟨_, hmade, applyAll_of_attemptAll hmade, Eq.symm ?_⟩
  rw [← map_toEdge_append] at hall
  exact Payload.normalize_eq_of_perm ht.ids_nodup (.of_eq hnodes) hall

/-- Two effects that are not connected, and the error of an edit that was refused. -/
def twoApart : State :=
  (initial 3).applyAll [.addNode .delay 0 0 none, .addNode .eq 0 0 none, .connect "fx-1" "fx-3"]

/-- Edits that connect the effects in a row, from the output to the input. -/
def backwardConnects : List Action :=
  [.connect "fx-2" "output", .connect "fx-1" "fx-2", .connect "input" "fx-1"]

theorem connects_commute_backwardConnects :
    Reaches Built twoApart ∧ twoApart.lastError = some .nodeNotFound ∧
    ∃ t t', twoApart.attemptAll backwardConnects = .ok t ∧
      twoApart.attemptAll backwardConnects.reverse = .ok t' ∧ t'.edges ≠ t.edges ∧
      Payload.normalize t' = Payload.normalize t := by
  have hreaches : Reaches Built twoApart := (reaches_applyAll_initial 3 _).mono fun _ => .inl
  have hok : twoApart.attemptAll backwardConnects = .ok (twoApart.applyAll backwardConnects) := rfl
  obtain ⟨t', ht', happly, hnormal⟩ := connects_commute hreaches (by simp [backwardConnects])
    backwardConnects.reverse_perm.symm hok
  refine ⟨hreaches, by decide, _, t', hok, ht', ?_, hnormal⟩
  rw [← happly]
  decide

end State

end Pedalboard
