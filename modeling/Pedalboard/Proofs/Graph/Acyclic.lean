import Mathlib
import Pedalboard.Graph.Cycle

/-!
# The sweep decides acyclicity

A graph is acyclic when no walk along its edges leads back to its start.

**Theorem (`hasCycle_eq_false_iff`).** `hasCycle ids edges` is false exactly when the edges between
listed ids are acyclic. Ids may repeat, edges may repeat, and neither order matters.

The proof follows the sweep. Its invariant `Sweep.Inv` says of the nodes taken so far: a node's
degree counts the edges into it from nodes not taken, nodes without such edges are exactly those
taken or free, and each node was taken after all its predecessors. When nothing is free any more,
a node that is left has a predecessor that is left; on finitely many nodes such a graph has a cycle.
If no node is left, the order of taking is a topological order.
-/

namespace Pedalboard

open Relation

/-! ## Acyclic graphs -/

/-- An edge leads from `a` to `b`. -/
def Linked (edges : List Edge) (a b : String) : Prop := Edge.mk a b ∈ edges

/-- No walk leads back to its start. -/
def Acyclic (edges : List Edge) : Prop := ∀ a, ¬ TransGen (Linked edges) a a

/-- Dropping edges keeps a graph acyclic. -/
theorem Acyclic.mono {edges edges' : List Edge} (h : Acyclic edges') (hsub : edges ⊆ edges') :
    Acyclic edges := fun a ha => h a (ha.lift id fun _ _ hab => hsub hab)

/-! ## Positions of ids -/

theorem lastIndex?_eq_some {ids : List String} {id : String} {i : Nat}
    (h : lastIndex? ids id = some i) : ids[i]? = some id := by
  induction ids generalizing i with
  | nil => simp [lastIndex?] at h
  | cons head rest ih =>
    simp only [lastIndex?] at h
    split at h
    · rename_i j hj
      obtain rfl : j + 1 = i := by simpa using h
      simpa using ih hj
    · split at h
      · rename_i heq
        obtain rfl : 0 = i := by simpa using h
        simp [heq]
      · simp at h

theorem lastIndex?_isSome {ids : List String} {id : String} :
    (lastIndex? ids id).isSome ↔ id ∈ ids := by
  induction ids with
  | nil => simp [lastIndex?]
  | cons head rest ih =>
    simp only [lastIndex?, List.mem_cons]
    cases h : lastIndex? rest id with
    | some j => simp [← ih, h]
    | none =>
      have hrest : id ∉ rest := by simp [← ih, h]
      by_cases heq : id = head <;> simp [heq, hrest, Ne.symm]

/-- The edges whose ends are both listed. -/
def known (ids : List String) (edges : List Edge) : List Edge :=
  edges.filter fun e => ids.contains e.source && ids.contains e.target

theorem mem_known {ids : List String} {edges : List Edge} {e : Edge} :
    e ∈ known ids edges ↔ e ∈ edges ∧ e.source ∈ ids ∧ e.target ∈ ids := by
  simp [known]

theorem known_eq_self {ids : List String} {edges : List Edge}
    (h : ∀ e ∈ edges, e.source ∈ ids ∧ e.target ∈ ids) : known ids edges = edges :=
  List.filter_eq_self.2 fun e he => by simpa using h e he

theorem mem_resolveEdges {ids : List String} {edges : List Edge} {p : Nat × Nat} :
    p ∈ resolveEdges ids edges ↔
      ∃ e ∈ edges, lastIndex? ids e.source = some p.1 ∧ lastIndex? ids e.target = some p.2 := by
  obtain ⟨i, j⟩ := p
  simp only [resolveEdges, List.mem_filterMap]
  refine exists_congr fun e => and_congr_right fun _ => ?_
  cases lastIndex? ids e.source <;> cases lastIndex? ids e.target <;> simp

/-- Edges between positions. -/
def Joined (pairs : List (Nat × Nat)) (i j : Nat) : Prop := (i, j) ∈ pairs

theorem joined_of_linked {ids : List String} {edges : List Edge} {a b : String}
    (h : Linked (known ids edges) a b) :
    Joined (resolveEdges ids edges) ((lastIndex? ids a).getD 0) ((lastIndex? ids b).getD 0) := by
  obtain ⟨he, ha, hb⟩ := mem_known.1 h
  obtain ⟨i, hi⟩ := Option.isSome_iff_exists.1 (lastIndex?_isSome.2 ha)
  obtain ⟨j, hj⟩ := Option.isSome_iff_exists.1 (lastIndex?_isSome.2 hb)
  exact mem_resolveEdges.2 ⟨⟨a, b⟩, he, by simp [hi], by simp [hj]⟩

theorem linked_of_joined {ids : List String} {edges : List Edge} {i j : Nat}
    (h : Joined (resolveEdges ids edges) i j) :
    Linked (known ids edges) (ids[i]?.getD "") (ids[j]?.getD "") := by
  obtain ⟨e, he, hi, hj⟩ := mem_resolveEdges.1 h
  have hs := lastIndex?_eq_some hi
  have ht := lastIndex?_eq_some hj
  refine mem_known.2 ⟨by simpa [hs, ht] using he, ?_, ?_⟩
  · simpa [hs] using List.mem_of_getElem? hs
  · simpa [ht] using List.mem_of_getElem? ht

theorem joined_lt {ids : List String} {edges : List Edge} :
    ∀ p ∈ resolveEdges ids edges, p.1 < ids.length ∧ p.2 < ids.length := fun p hp => by
  obtain ⟨e, -, hi, hj⟩ := mem_resolveEdges.1 hp
  exact ⟨(List.getElem?_eq_some_iff.1 (lastIndex?_eq_some hi)).1,
    (List.getElem?_eq_some_iff.1 (lastIndex?_eq_some hj)).1⟩

/-- A cycle of ids is a cycle of positions. -/
theorem exists_cycle_iff {ids : List String} {edges : List Edge} :
    (∃ a, TransGen (Linked (known ids edges)) a a) ↔
      ∃ i, TransGen (Joined (resolveEdges ids edges)) i i := by
  constructor
  · rintro ⟨a, ha⟩
    exact ⟨_, ha.lift (fun a => (lastIndex? ids a).getD 0) fun _ _ => joined_of_linked⟩
  · rintro ⟨i, hi⟩
    exact ⟨_, hi.lift (fun i => ids[i]?.getD "") fun _ _ => linked_of_joined⟩

/-! ## The invariant of the sweep -/

/-- Each node stands before its predecessors, the first of the list being the last one taken. -/
def Ordered (pairs : List (Nat × Nat)) : List Nat → Prop
  | [] => True
  | v :: earlier => (∀ u, Joined pairs u v → u ∈ earlier) ∧ Ordered pairs earlier

/-- The number of edges into a node from nodes that are not taken. -/
def openDegree (pairs : List (Nat × Nat)) (done : List Nat) (v : Nat) : Nat :=
  pairs.countP fun p => p.2 = v ∧ p.1 ∉ done

theorem openDegree_eq_zero {pairs : List (Nat × Nat)} {done : List Nat} {v : Nat} :
    openDegree pairs done v = 0 ↔ ∀ u, Joined pairs u v → u ∈ done := by
  rw [openDegree, List.countP_eq_zero]
  constructor
  · intro h u hu
    simpa using h (u, v) hu
  · rintro h ⟨u, w⟩ hp
    simp only [decide_eq_true_eq, not_and, not_not]
    rintro rfl
    exact h u hp

/-- The targets of the edges out of a node. -/
def targets (pairs : List (Nat × Nat)) (i : Nat) : List Nat :=
  (pairs.filter (·.1 = i)).map (·.2)

theorem openDegree_cons_pair {pairs : List (Nat × Nat)} {done : List Nat} {u w v : Nat} :
    openDegree ((u, w) :: pairs) done v =
      openDegree pairs done v + if w = v ∧ u ∉ done then 1 else 0 := by
  simp [openDegree, List.countP_cons]

theorem targets_cons_pair {pairs : List (Nat × Nat)} {u w i : Nat} :
    targets ((u, w) :: pairs) i = if u = i then w :: targets pairs i else targets pairs i := by
  by_cases hu : u = i <;> simp [targets, hu]

/-- Taking a node discounts the edges out of it. -/
theorem openDegree_cons {pairs : List (Nat × Nat)} {done : List Nat} {i v : Nat} (hi : i ∉ done) :
    openDegree pairs done v = openDegree pairs (i :: done) v + (targets pairs i).count v := by
  induction pairs with
  | nil => simp [openDegree, targets]
  | cons p pairs ih =>
    obtain ⟨u, w⟩ := p
    rw [openDegree_cons_pair, openDegree_cons_pair, targets_cons_pair, ih]
    by_cases hu : u = i
    · subst hu
      by_cases hw : w = v <;> simp [hi, hw, Nat.add_assoc]
    · simp [hu, Nat.add_right_comm]

namespace Sweep

/-- What holds of a sweep that has taken the nodes `done`, the last one first, and has yet to
discount the edges into `pending`. -/
structure Inv (size : Nat) (pairs : List (Nat × Nat)) (done pending : List Nat) (s : Sweep) :
    Prop where
  length : s.degrees.length = size
  degree : ∀ v < size, s.degrees[v]?.getD 0 = openDegree pairs done v + pending.count v
  nodup : (s.free ++ done).Nodup
  mem : ∀ v, v ∈ s.free ++ done ↔ v < size ∧ s.degrees[v]?.getD 0 = 0
  taken : s.taken = done.length
  ordered : Ordered pairs done

variable {size : Nat} {pairs : List (Nat × Nat)} {done pending : List Nat} {s : Sweep}

theorem inv_start (size : Nat) (pairs : List (Nat × Nat)) : Inv size pairs [] [] (start size pairs) := by
  have hdegree : ∀ v < size, (start size pairs).degrees[v]?.getD 0 = pairs.countP (·.2 = v) := by
    intro v hv
    simp [start, hv]
  refine ⟨by simp [start], fun v hv => by simp [hdegree v hv, openDegree], ?_, fun v => ?_, rfl,
    trivial⟩
  · simpa [start] using List.nodup_range.filter _
  · simp [start]

/-- A node is not free while an edge into it has yet to be discounted. -/
theorem Inv.pending_pos {t : Nat} (h : Inv size pairs done (t :: pending) s) (ht : t < size) :
    0 < s.degrees[t]?.getD 0 := by
  simp [h.degree t ht]

theorem Inv.notMem_of_pending {t : Nat} (h : Inv size pairs done (t :: pending) s) (ht : t < size) :
    t ∉ s.free ++ done := fun hmem => (h.pending_pos ht).ne' ((h.mem t).1 hmem).2

/-- Discounting an edge lowers the degree of its target and no other. -/
theorem degree_discount {t : Nat} (ht : t < s.degrees.length) (v : Nat) :
    (s.discount t).degrees[v]?.getD 0 =
      if v = t then s.degrees[t]?.getD 0 - 1 else s.degrees[v]?.getD 0 := by
  by_cases hv : v = t
  · subst hv
    simp [discount, ht]
  · simp [discount, List.getElem?_set_ne (Ne.symm hv), hv]

/-- Its target becomes free if no edge into it is left, and nothing else becomes free. -/
theorem free_discount (s : Sweep) (t : Nat) : (s.discount t).free =
    if s.degrees[t]?.getD 0 - 1 = 0 then t :: s.free else s.free := rfl

/-- **Discounting an edge** keeps the invariant. -/
theorem inv_discount {t : Nat} (h : Inv size pairs done (t :: pending) s) (ht : t < size) :
    Inv size pairs done pending (s.discount t) := by
  have hpos := h.pending_pos ht
  have hfree := h.notMem_of_pending ht
  have hdegree := degree_discount (s := s) (h.length.symm ▸ ht)
  refine ⟨by simp [discount, h.length], fun v hv => ?_, ?_, fun v => ?_, h.taken, h.ordered⟩
  · rw [hdegree]
    have hd := h.degree v hv
    by_cases hvt : v = t
    · subst hvt
      simp only [if_true, List.count_cons_self] at hd ⊢
      omega
    · simpa [hvt, List.count_cons_of_ne (Ne.symm hvt)] using hd
  · rw [free_discount]
    split
    · exact List.nodup_cons.2 ⟨hfree, h.nodup⟩
    · exact h.nodup
  · rw [hdegree, free_discount]
    by_cases hv : v = t
    · subst hv
      by_cases hz : s.degrees[v]?.getD 0 - 1 = 0
      · simp [hz, ht]
      · simpa [hz] using hfree
    · rw [if_neg hv, ← h.mem v]
      by_cases hz : s.degrees[t]?.getD 0 - 1 = 0 <;> simp [hz, hv]

theorem inv_foldl_discount (h : Inv size pairs done pending s) (hlt : ∀ t ∈ pending, t < size) :
    Inv size pairs done [] (pending.foldl discount s) := by
  induction pending generalizing s with
  | nil => exact h
  | cons t pending ih =>
    exact ih (inv_discount h (hlt t List.mem_cons_self)) fun u hu => hlt u (List.mem_cons_of_mem _ hu)

/-- **Taking a free node** keeps the invariant, with the edges out of the node yet to be discounted.
Whatever is free has no predecessor left. -/
theorem inv_take (h : Inv size pairs done [] s) {i : Nat} {rest : List Nat} (hs : s.free = i :: rest) :
    Inv size pairs (i :: done) (targets pairs i) { s with free := rest, taken := s.taken + 1 } := by
  have hmem := h.mem
  have hnodup := h.nodup
  rw [hs] at hmem hnodup
  obtain ⟨hilt, hizero⟩ := (hmem i).1 (by simp)
  have hi : i ∉ done := fun hd => (List.nodup_cons.1 hnodup).1 (List.mem_append_right _ hd)
  have hpreds : ∀ u, Joined pairs u i → u ∈ done := by
    rw [← openDegree_eq_zero]
    simpa [h.degree i hilt] using hizero
  have hperm : (i :: (rest ++ done)).Perm (rest ++ i :: done) := List.perm_middle.symm
  exact
    { length := h.length
      degree := fun v hv => by simpa [h.degree v hv] using openDegree_cons hi
      nodup := hperm.nodup_iff.1 hnodup
      mem := fun v => by rw [← hperm.mem_iff]; exact hmem v
      taken := by simp [h.taken]
      ordered := ⟨hpreds, h.ordered⟩ }

theorem targets_lt (hlt : ∀ p ∈ pairs, p.1 < size ∧ p.2 < size) (i : Nat) :
    ∀ t ∈ targets pairs i, t < size := by
  intro t ht
  obtain ⟨p, hp, rfl⟩ := List.mem_map.1 ht
  exact (hlt p (List.mem_of_mem_filter hp)).2

theorem step_eq {i : Nat} {rest : List Nat} (hs : s.free = i :: rest) :
    s.step pairs =
      (targets pairs i).foldl discount { s with free := rest, taken := s.taken + 1 } := by
  simp [step, hs, targets]

/-- **One step takes one node.** -/
theorem inv_step (h : Inv size pairs done [] s) (hlt : ∀ p ∈ pairs, p.1 < size ∧ p.2 < size)
    {i : Nat} {rest : List Nat} (hs : s.free = i :: rest) :
    Inv size pairs (i :: done) [] (s.step pairs) := by
  rw [step_eq hs]
  exact inv_foldl_discount (inv_take h hs) (targets_lt hlt i)

/-- Nothing becomes free once nothing is. -/
theorem run_eq_self (hs : s.free = []) (fuel : Nat) : run pairs fuel s = s := by
  induction fuel with
  | zero => rfl
  | succ fuel ih =>
    have hstep : s.step pairs = s := by simp [step, hs]
    rw [run, hstep, ih]

/-- **A run takes as many nodes as it has steps**, unless it runs out of free nodes. -/
theorem inv_run (h : Inv size pairs done [] s) (hlt : ∀ p ∈ pairs, p.1 < size ∧ p.2 < size)
    (fuel : Nat) :
    ∃ done', Inv size pairs done' [] (run pairs fuel s) ∧
      ((run pairs fuel s).free = [] ∨ done'.length = done.length + fuel) := by
  induction fuel generalizing s done with
  | zero => exact ⟨done, h, .inr rfl⟩
  | succ fuel ih =>
    cases hs : s.free with
    | nil =>
      rw [run_eq_self hs]
      exact ⟨done, h, .inl hs⟩
    | cons i rest =>
      obtain ⟨done', hinv, hfree⟩ := ih (inv_step h hlt hs)
      refine ⟨done', hinv, hfree.imp_right fun hlen => ?_⟩
      rw [hlen, List.length_cons]
      omega

theorem Inv.subset_range (h : Inv size pairs done pending s) :
    (s.free ++ done) ⊆ List.range size := fun v hv => List.mem_range.2 ((h.mem v).1 hv).1

theorem Inv.length_le (h : Inv size pairs done pending s) :
    s.free.length + done.length ≤ size := by
  simpa using (List.subperm_of_subset h.nodup h.subset_range).length_le

/-- With as many steps as nodes, a sweep ends with nothing free. -/
theorem exists_inv_final (hlt : ∀ p ∈ pairs, p.1 < size ∧ p.2 < size) :
    ∃ done, Inv size pairs done [] (run pairs size (start size pairs)) ∧
      (run pairs size (start size pairs)).free = [] := by
  obtain ⟨done, hinv, hfree | hlen⟩ := inv_run (inv_start size pairs) hlt size
  · exact ⟨done, hinv, hfree⟩
  · have hle := hinv.length_le
    simp only [List.length_nil, Nat.zero_add] at hlen
    exact ⟨done, hinv, List.eq_nil_of_length_eq_zero (by omega)⟩

/-! ## What is left when the sweep ends -/

/-- A node that was taken has only finitely long walks into it. -/
theorem acc_of_ordered (h : Ordered pairs done) : ∀ v ∈ done, Acc (Joined pairs) v := by
  induction done with
  | nil => exact fun v hv => absurd hv List.not_mem_nil
  | cons w earlier ih =>
    intro v hv
    rcases List.mem_cons.1 hv with rfl | hv
    · exact ⟨_, fun u hu => ih h.2 u (h.1 u hu)⟩
    · exact ih h.2 v hv

theorem not_transGen_self_of_acc {α : Type*} {r : α → α → Prop} {a : α} (h : Acc r a) :
    ¬ TransGen r a a := by
  have hacc : Acc (TransGen r) a := h.transGen
  clear h
  induction hacc with
  | intro x _ ih => exact fun hx => ih x hx hx

/-- If every node that is left has a predecessor that is left, there is a cycle. -/
theorem forall_mem_of_acyclic (hacyclic : ∀ i, ¬ TransGen (Joined pairs) i i)
    (hleft : ∀ v < size, v ∉ done → ∃ u < size, u ∉ done ∧ Joined pairs u v) :
    ∀ v < size, v ∈ done := by
  let before (u v : Fin size) : Prop := TransGen (Joined pairs) u v
  have : IsTrans (Fin size) before := ⟨fun _ _ _ => TransGen.trans⟩
  have : Std.Irrefl before := ⟨fun v => hacyclic v⟩
  have hwf : WellFounded before := Finite.wellFounded_of_trans_of_irrefl before
  intro v hv
  by_contra hvd
  obtain ⟨m, hm, hmin⟩ := hwf.has_min {w : Fin size | (w : Nat) ∉ done} ⟨⟨v, hv⟩, hvd⟩
  obtain ⟨u, hu, hud, huv⟩ := hleft m m.isLt hm
  exact hmin ⟨u, hu⟩ hud (.single huv)

/-- **The sweep takes every node exactly when there is no cycle.** -/
theorem taken_eq_size_iff (hlt : ∀ p ∈ pairs, p.1 < size ∧ p.2 < size) :
    (run pairs size (start size pairs)).taken = size ↔ ∀ i, ¬ TransGen (Joined pairs) i i := by
  obtain ⟨done, hinv, hfree⟩ := exists_inv_final hlt
  have hnodup : done.Nodup := by simpa [hfree] using hinv.nodup
  have hsubset : done ⊆ List.range size := by simpa [hfree] using hinv.subset_range
  rw [hinv.taken]
  constructor
  · intro hlen i hi
    have hperm : done.Perm (List.range size) :=
      (List.subperm_of_subset hnodup hsubset).perm_of_length_le (by simp [hlen])
    obtain ⟨u, hu⟩ : ∃ u, Joined pairs u i := by
      cases hi with
      | single h => exact ⟨_, h⟩
      | tail _ h => exact ⟨_, h⟩
    have hmem : i ∈ done := hperm.mem_iff.2 (List.mem_range.2 (hlt _ hu).2)
    exact not_transGen_self_of_acc (acc_of_ordered hinv.ordered i hmem) hi
  · intro hacyclic
    have hall : ∀ v < size, v ∈ done := by
      refine forall_mem_of_acyclic hacyclic fun v hv hvd => ?_
      by_contra! hnone
      refine hvd ?_
      have hzero : openDegree pairs done v = 0 :=
        openDegree_eq_zero.2 fun u hu => by
          by_contra hud
          exact hnone u (hlt _ hu).1 hud hu
      simpa [hfree] using (hinv.mem v).2 ⟨hv, by simpa [hinv.degree v hv] using hzero⟩
    have hle : size ≤ done.length := by
      simpa using (List.subperm_of_subset List.nodup_range
        fun v hv => hall v (List.mem_range.1 hv)).length_le
    have := hinv.length_le
    omega

end Sweep

/-- **The sweep decides acyclicity**, for any ids and edges. -/
theorem hasCycle_eq_false_iff {ids : List String} {edges : List Edge} :
    hasCycle ids edges = false ↔ Acyclic (known ids edges) := by
  rw [hasCycle, bne_eq_false_iff_eq, Sweep.taken_eq_size_iff joined_lt, Acyclic, ← not_exists,
    ← not_exists, exists_cycle_iff]

theorem hasCycle_eq_true_iff {ids : List String} {edges : List Edge} :
    hasCycle ids edges = true ↔ ∃ a, TransGen (Linked (known ids edges)) a a := by
  rw [← Bool.not_eq_false, hasCycle_eq_false_iff, Acyclic, not_forall_not]

end Pedalboard
