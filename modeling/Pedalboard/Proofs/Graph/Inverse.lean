import Mathlib
import Pedalboard.Proofs.Graph.Frame
import Pedalboard.Proofs.Wire.Canonical

/-!
# Edits that take each other back

**Edges.** A new edge stands last, so disconnecting it gives back the edges as they were. The other
way round, a graph without one of its edges accepts that edge again, because fewer edges close no
more cycles; the edge then stands last, which the canonical payload does not show.

**Guests** (`State.Hosts`). A board hosts a node that was added to it: the node stands last, and
without the edges that touch it the edges are the old ones. Edits about the guest
(`Action.About`) keep this, one lemma for an edit and one for a list of them, so removing the guest
at any time gives the board back. Only the selection may be lost, because it can have been on the
guest or dropped.

**Theorem (`inverse_pairs`).** In every state that occurs, connecting and disconnecting, adding and
removing, and two toggles of one bypass take each other back.
-/

namespace Pedalboard

/-- An edit of a node that is there, or of an edge that touches it, or a selection of that node or
of nothing. -/
def Action.About (id : String) : Action → Prop
  | .moveNode i _ _ | .setParam i _ _ | .toggleBypass i => i = id
  | .connect a b | .disconnect a b => a = id ∨ b = id
  | .selectNode i => i = none ∨ i = some id
  | .addNode .. | .removeNode _ => False

namespace State

variable {s t u : State} {a : Action} {id : String}

/-! ## Edges -/

theorem disconnect_of_connect {a b : String} (h : s.attempt (.connect a b) = .ok t) :
    t.attempt (.disconnect a b) = .ok s.withoutError := by
  obtain ⟨-, -, -, hfresh, -, rfl⟩ := attemptConnect_eq_ok h
  rw [attempt_disconnect (by simp)]
  simp only [List.filter_append, filter_connects_of_notMem hfresh]
  simp [withoutError, Edge.connects_eq]

/-- Moving an edge to the end. -/
theorem perm_moved_last (before after : List LabelledEdge) (e : LabelledEdge) :
    (before ++ after ++ [e]).Perm (before ++ e :: after) :=
  (List.perm_append_singleton e _).trans List.perm_middle.symm

/-- An edge that was taken away can be put back, and then stands last. -/
theorem connect_of_disconnect {a b : String} {before after : List LabelledEdge} (hs : s.WellFormed)
    (hedges : s.labelled = before ++ Edge.labelled ⟨a, b⟩ :: after)
    (h : s.attempt (.disconnect a b) = .ok t) :
    t.attempt (.connect a b) = .ok { s with
      labelled := before ++ after ++ [Edge.labelled ⟨a, b⟩]
      lastError := none } := by
  obtain ⟨hmem, rfl⟩ := attemptDisconnect_eq_ok h
  obtain ⟨hne, ha, hb⟩ := hs.ends _ hmem
  have hnodup : ((before ++ Edge.labelled ⟨a, b⟩ :: after).map (·.toEdge)).Nodup :=
    hedges ▸ hs.edges_nodup
  have hleft : s.labelled.filter (!·.connects a b) = before ++ after := by
    rw [hedges, filter_connects_middle hnodup]
  let left : State := { s with labelled := before ++ after, lastError := none }
  have hagain : (left.edges ++ [Edge.mk a b]).Perm s.edges := by
    rw [← map_toEdge_concat, edges, hedges]
    exact (perm_moved_last before after _).map _
  have hfresh : Edge.mk a b ∉ left.edges :=
    (List.nodup_cons.1 ((List.perm_append_singleton _ _).nodup_iff.1
      (hagain.nodup_iff.2 hs.edges_nodup))).1
  have hcycle : hasCycle left.ids (left.edges ++ [⟨a, b⟩]) = false :=
    (hasCycle_iff_of_ends fun e he => (hs.ends e (hagain.subset he)).2).2
      (hs.acyclic.mono hagain.subset)
  simp only [hleft]
  exact attempt_connect hne ha hb hfresh hcycle

/-! ## Guests -/

/-- `t` is `s` with one more node and edges that touch it, and it may have dropped its selection or
selected that node. -/
structure Hosts (s : State) (id : String) (t : State) : Prop where
  nodes : ∃ n, n.id = id ∧ t.nodes = s.nodes ++ [n]
  labelled : t.labelled.filter (!·.touches id) = s.labelled
  selected : t.selected = s.selected ∨ t.selected = none ∨ t.selected = some id
  nodeLimit : t.nodeLimit = s.nodeLimit
  nextSerial : t.nextSerial = s.nextSerial

/-- No edge touches a node that is not there. -/
theorem WellFormed.filter_touches (hs : s.WellFormed) (hfresh : id ∉ s.ids) :
    s.labelled.filter (!·.touches id) = s.labelled := by
  refine List.filter_eq_self.2 fun e he => ?_
  obtain ⟨-, hsource, htarget⟩ := hs.ends e.toEdge (List.mem_map_of_mem he)
  rw [Edge.touches_eq]
  exact decide_eq_true ⟨fun heq => hfresh (heq ▸ hsource), fun heq => hfresh (heq ▸ htarget)⟩

theorem hosts_add {kind : Kind} {x y : Single} (hs : s.WellFormed)
    (h : s.attempt (.addNode kind x y (some id)) = .ok t) : id ∉ s.ids ∧ Hosts s id t := by
  obtain ⟨-, -, -, -, hfresh, rfl⟩ := attemptAdd_eq_ok h
  exact ⟨hfresh, ⟨_, rfl, rfl⟩, hs.filter_touches hfresh, .inl rfl, rfl, rfl⟩

theorem Hosts.editNode {edit : Node → Node} (h : Hosts s id t) (hfresh : id ∉ s.ids)
    (hedit : Gentle edit) : Hosts s id (t.editNode id edit) := by
  obtain ⟨n, hn, hnodes⟩ := h.nodes
  refine { h with nodes := ⟨edit n, (hedit.id n).trans hn, ?_⟩ }
  rw [State.editNode, hnodes]
  exact replaceNode_append hn (id_ne_of_notMem hfresh)

/-- An edit about the guest keeps it a guest. -/
theorem Hosts.attempt (h : Hosts s id t) (hfresh : id ∉ s.ids) (ha : a.About id)
    (hok : t.attempt a = .ok u) : Hosts s id u := by
  cases a with
  | addNode kind x y given => exact ha.elim
  | removeNode i => exact ha.elim
  | moveNode i x y =>
    obtain rfl : i = id := ha
    obtain ⟨-, -, -, rfl⟩ := attemptMove_eq_ok hok
    exact h.editNode hfresh (gentle_move x y)
  | connect i j =>
    obtain ⟨-, -, -, -, -, rfl⟩ := attemptConnect_eq_ok hok
    refine { h with labelled := ?_ }
    have htouch : Edge.touches ⟨i, j⟩ id := by simpa [Edge.touches, Action.About] using ha
    simp only [List.filter_append, h.labelled]
    simp [htouch]
  | disconnect i j =>
    obtain ⟨-, rfl⟩ := attemptDisconnect_eq_ok hok
    refine { h with labelled := ?_ }
    -- An edge that does not touch the guest is not the one that is taken away.
    have hother : Edge.mk i j ∉ (t.labelled.filter (!·.touches id)).map (·.toEdge) := by
      rw [map_toEdge_touches, List.mem_filter, Edge.touches_eq, decide_eq_true_eq]
      exact fun he => ha.elim he.2.1 he.2.2
    rw [List.filter_comm, filter_connects_of_notMem hother, h.labelled]
  | selectNode i =>
    obtain ⟨-, rfl⟩ := attemptSelect_eq_ok hok
    exact { h with selected := .inr ha }
  | setParam i key v =>
    obtain rfl : i = id := ha
    obtain ⟨-, -, rfl⟩ := attemptSetParam_eq_ok hok
    exact h.editNode hfresh (gentle_setParam key v)
  | toggleBypass i =>
    obtain rfl : i = id := ha
    obtain ⟨-, rfl⟩ := attemptToggleBypass_eq_ok hok
    exact h.editNode hfresh gentle_toggleBypass

theorem Hosts.applyAll {edits : List Action} (h : Hosts s id t) (hfresh : id ∉ s.ids)
    (hedits : ∀ a ∈ edits, a.About id) : Hosts s id (t.applyAll edits) := by
  induction edits generalizing t with
  | nil => exact h
  | cons a edits ih =>
    obtain ⟨ha, hedits⟩ := List.forall_mem_cons.1 hedits
    have hnext : Hosts s id (t.apply a) :=
      apply_induction a h (fun _ h => { h with }) fun _ hok => h.attempt hfresh ha hok
    exact ih hnext hedits

/-- **A guest can leave at any time.** -/
theorem Hosts.remove (h : Hosts s id t) (hs : s.WellFormed) (hfresh : id ∉ s.ids) :
    ∃ selected, (selected = s.selected ∨ selected = none) ∧
      t.attempt (.removeNode id) = .ok { s with selected, lastError := none } := by
  obtain ⟨n, hn, hnodes⟩ := h.nodes
  have hid : id ∈ t.ids := by simp [ids, hnodes, hn]
  have hinput : id ≠ inputId := fun heq => hfresh (heq ▸ hs.anchors_mem.1)
  have houtput : id ≠ outputId := fun heq => hfresh (heq ▸ hs.anchors_mem.2)
  have hleft : t.nodes.filter (·.id ≠ id) = s.nodes := by
    have hmiddle := filter_id_middle hn (id_ne_of_notMem hfresh) (List.forall_mem_nil _)
    rwa [List.append_nil, ← hnodes] at hmiddle
  refine ⟨if t.selected = some id then none else t.selected, ?_, ?_⟩
  · by_cases hselected : t.selected = some id
    · exact .inr (if_pos hselected)
    · rw [if_neg hselected]
      exact h.selected.imp_right fun hother => hother.resolve_right hselected
  · rw [attempt_removeNode hid hinput houtput, hleft, h.labelled, h.nodeLimit, h.nextSerial]

/-! ## Toggling twice -/

/-- A node that is edited and then edited back. -/
theorem replaceNode_back {edit back : Node → Node} (hid : ∀ n, (edit n).id = n.id)
    (hback : ∀ n, back (edit n) = n) (nodes : List Node) :
    replaceNode id back (replaceNode id edit nodes) = nodes := by
  induction nodes with
  | nil => rfl
  | cons n rest ih =>
    by_cases hn : n.id = id
    · rw [replaceNode, if_pos hn, replaceNode, if_pos ((hid n).trans hn), hback]
    · rw [replaceNode, if_neg hn, replaceNode, if_neg hn, ih]

theorem toggleBypass_of_toggleBypass (h : s.attempt (.toggleBypass id) = .ok t) :
    t.attempt (.toggleBypass id) = .ok s.withoutError := by
  obtain ⟨hid, rfl⟩ := attemptToggleBypass_eq_ok h
  have hback : replaceNode id (fun n => { n with bypass := !n.bypass })
      (replaceNode id (fun n => { n with bypass := !n.bypass }) s.nodes) = s.nodes :=
    replaceNode_back gentle_toggleBypass.id (fun n => by simp) s.nodes
  rw [attempt_toggleBypass (by rwa [ids_editNode gentle_toggleBypass]), editNode, editNode]
  simp only [hback, withoutError]

/-! ## Inverse pairs -/

/-- **Edits that take each other back.** In every state that occurs: disconnecting a new edge
restores the state; an edge that is disconnected can be connected again, which restores the state
but for the place of that edge, and restores its payload; removing a node that was added, after
any edits about that node, restores the state but for the selection, which may be dropped; and
toggling twice restores the state. Only the error that the state shows is never restored. -/
theorem inverse_pairs (h : Reaches Built s) :
    (∀ a b t, s.attempt (.connect a b) = .ok t →
      t.attempt (.disconnect a b) = .ok s.withoutError) ∧
    (∀ a b, Edge.mk a b ∈ s.edges → ∃ before after t u,
      s.labelled = before ++ Edge.labelled ⟨a, b⟩ :: after ∧
      s.attempt (.disconnect a b) = .ok t ∧ t.attempt (.connect a b) = .ok u ∧
      u = { s with
        labelled := before ++ after ++ [Edge.labelled ⟨a, b⟩]
        lastError := none } ∧
      Payload.normalize u = Payload.normalize s) ∧
    (∀ kind x y id t edits, s.attempt (.addNode kind x y (some id)) = .ok t →
      (∀ a ∈ edits, a.About id) → ∃ selected, (selected = s.selected ∨ selected = none) ∧
        (t.applyAll edits).attempt (.removeNode id) =
          .ok { s with selected, lastError := none }) ∧
    ∀ id ∈ s.ids, ∃ t, s.attempt (.toggleBypass id) = .ok t ∧
      t.attempt (.toggleBypass id) = .ok s.withoutError := by
  have hs := h.wellFormed
  refine ⟨fun a b t => disconnect_of_connect, fun a b hmem => ?_, ?_, fun id hid => ?_⟩
  · obtain ⟨before, after, hedges⟩ := List.append_of_mem (hs.labelled_mem hmem)
    have hdone := attempt_disconnect hmem
    refine ⟨before, after, _, _, hedges, hdone, connect_of_disconnect hs hedges hdone, rfl, ?_⟩
    refine Payload.normalize_eq_of_perm hs.ids_nodup (List.Perm.refl _) ?_
    rw [edges_mk, edges, hedges]
    exact (perm_moved_last before after _).map _
  · intro kind x y id t edits hadd hedits
    obtain ⟨hfresh, hhosts⟩ := hosts_add hs hadd
    exact (hhosts.applyAll hfresh hedits).remove hs hfresh
  · have hdone := attempt_toggleBypass hid
    exact ⟨_, hdone, toggleBypass_of_toggleBypass hdone⟩

/-- A selected delay behind the input, and the error of an edit that was refused. -/
def delayed : State :=
  (initial 8).applyAll [.addNode .delay 0 0 none, .connect "input" "fx-1",
    .selectNode (some "fx-1"), .connect "fx-1" "fx-1"]

/-- Edits about one node, of which the last is refused. -/
def guestEdits : List Action :=
  [.connect "fx-1" "guest", .connect "guest" "output", .moveNode "guest" 0 0,
    .toggleBypass "guest", .selectNode (some "guest"), .disconnect "fx-1" "guest",
    .connect "output" "guest"]

theorem inverse_pairs_delayed :
    Reaches Built delayed ∧ delayed.lastError = some .selfEdgeForbidden ∧
    (∃ t, delayed.attempt (.connect "fx-1" "output") = .ok t ∧
      t.attempt (.disconnect "fx-1" "output") = .ok delayed.withoutError) ∧
    (∃ t u, delayed.attempt (.disconnect "input" "output") = .ok t ∧
      t.attempt (.connect "input" "output") = .ok u ∧ u.edges ≠ delayed.edges ∧
      Payload.normalize u = Payload.normalize delayed) ∧
    (∃ t, delayed.attempt (.addNode .eq 0 0 (some "guest")) = .ok t ∧
      (t.applyAll guestEdits).lastError = some .cycleDetected ∧
      (t.applyAll guestEdits).attempt (.removeNode "guest") =
        .ok { delayed with selected := none, lastError := none }) ∧
    ∃ t, delayed.attempt (.toggleBypass "fx-1") = .ok t ∧
      t.attempt (.toggleBypass "fx-1") = .ok delayed.withoutError := by
  have hreaches : Reaches Built delayed := (reaches_applyAll_initial 8 _).mono fun _ => .inl
  obtain ⟨hconnect, hdisconnect, hguest, htoggle⟩ := inverse_pairs hreaches
  have hmade : delayed.attempt (.connect "fx-1" "output") =
      .ok (delayed.apply (.connect "fx-1" "output")) := rfl
  have hadded : delayed.attempt (.addNode .eq 0 0 (some "guest")) =
      .ok (delayed.apply (.addNode .eq 0 0 (some "guest"))) := rfl
  refine ⟨hreaches, by decide, ⟨_, hmade, hconnect _ _ _ hmade⟩, ?_, ⟨_, hadded, by decide, ?_⟩,
    htoggle _ (by decide)⟩
  · obtain ⟨before, after, t, u, -, ht, hu, -, hnormal⟩ := hdisconnect "input" "output" (by decide)
    refine ⟨t, u, ht, hu, ?_, hnormal⟩
    rw [← apply_of_ok hu, ← apply_of_ok ht]
    decide
  · obtain ⟨selected, -, hremoved⟩ := hguest _ _ _ _ _ guestEdits hadded
      (by simp [guestEdits, Action.About])
    obtain rfl : none = selected := congrArg State.selected (apply_of_ok hremoved)
    exact hremoved

end State

end Pedalboard
