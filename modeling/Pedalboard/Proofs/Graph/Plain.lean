import Mathlib
import Pedalboard.Proofs.Wire.Valid

/-!
# Graphs up to the signs of zeros

**Plain numbers** (`Binary.plain`). A number without the sign that a zero may have. Finite numbers
are equal as values exactly when they are the same plain number, so `State.sameGraph` compares plain
states (`State.sameGraph_iff`).

**Lockstep** (`State.plain_attempt`). No test of an edit looks at a number that is in the graph, so
an edit of a state and the same edit of the plain state are refused for the same cause, or lead to
the same plain state. What edits make of states therefore depends on signs of zeros in these signs
only (`State.plain_apply`).
-/

namespace Pedalboard

/-! ## Plain numbers -/

/-- The number with a positive zero for a negative one. -/
def Binary.plain {f : Format} (x : Binary f) : Binary f := if x.isZero then .zero false else x

@[simp] theorem Binary.plain_plain {f : Format} (x : Binary f) : x.plain.plain = x.plain := by
  by_cases hx : x.isZero
  · simp only [plain, hx, if_true, ite_self]
  · simp only [plain, hx, Bool.false_eq_true, if_false]

/-- **Equality of values** is equality but for the signs of zeros. -/
theorem Binary.ieeeEq_iff {f : Format} {x y : Binary f} (hx : x.isFinite) (hy : y.isFinite) :
    x.ieeeEq y ↔ x.plain = y.plain := by
  obtain ⟨nx, mx, hmx⟩ := x
  obtain ⟨ny, my, hmy⟩ := y
  simp only [isFinite, decide_eq_true_eq] at hx hy
  have hrank : Binary.ieeeEq (⟨nx, mx, hmx⟩ : Binary f) ⟨ny, my, hmy⟩ ↔
      mx = my ∧ (nx = ny ∨ mx = 0) := by
    simp only [ieeeEq, isNaN, hx.not_gt, hy.not_gt, decide_false, Bool.not_false, Bool.true_and,
      rank, beq_iff_eq]
    cases nx <;> cases ny <;> simp <;> omega
  rw [hrank, plain, plain, isZero, isZero]
  by_cases hmx0 : mx = 0
  · by_cases hmy0 : my = 0
    · simp [hmx0, hmy0]
    · simp [hmx0, hmy0, Ne.symm hmy0, zero]
  · by_cases hmy0 : my = 0
    · simp [hmx0, hmy0, zero]
    · simp [hmx0, hmy0, and_comm]

namespace Keyed

variable {α β : Type}

def map (g : α → β) (m : Keyed α) : Keyed β :=
  ⟨m.entries.map fun e => (e.1, g e.2), List.pairwise_map.2 (m.increasing.imp fun h => h)⟩

theorem ext {m n : Keyed α} (h : m.entries = n.entries) : m = n := by
  cases m
  cases n
  simpa using h

theorem map_insert (g : α → β) (m : Keyed α) (key : String) (v : α) :
    (m.insert key v).map g = (m.map g).insert key (g v) := by
  have hentries : ∀ entries : List (String × α),
      (Increasing.insertInto key v entries).map (fun e => (e.1, g e.2)) =
        Increasing.insertInto key (g v) (entries.map fun e => (e.1, g e.2)) := by
    intro entries
    induction entries with
    | nil => rfl
    | cons e rest ih =>
      simp only [Increasing.insertInto, List.map_cons]
      split_ifs <;> simp [ih]
  exact ext (hentries m.entries)

@[simp] theorem map_plain_plain (m : Keyed Single) :
    (m.map Binary.plain).map Binary.plain = m.map Binary.plain :=
  ext (by simp [map, Function.comp_def])

end Keyed

/-- The node with plain numbers. -/
def Node.plain (n : Node) : Node :=
  { n with x := n.x.plain, y := n.y.plain, params := n.params.map Binary.plain }

@[simp] theorem Node.plain_plain (n : Node) : n.plain.plain = n.plain := by
  simp [plain]

/-- The state with plain numbers. -/
def State.plain (s : State) : State := { s with nodes := s.nodes.map Node.plain }

/-! ## Comparing states -/

theorem map_eq_map_iff_zip {α β : Type} {g : α → β} {as bs : List α} :
    as.map g = bs.map g ↔ as.length = bs.length ∧ ∀ p ∈ as.zip bs, g p.1 = g p.2 := by
  induction as generalizing bs with
  | nil => cases bs <;> simp
  | cons a as ih =>
    cases bs with
    | nil => simp
    | cons b bs =>
      simp only [List.map_cons, List.cons.injEq, ih, List.length_cons, Nat.add_right_cancel_iff,
        List.zip_cons_cons, List.forall_mem_cons]
      tauto

theorem Node.ieeeEq_iff {m n : Node} (hm : m.Finite) (hn : n.Finite) :
    m.ieeeEq n ↔ m.plain = n.plain := by
  have hparams : ∀ p ∈ m.params.entries.zip n.params.entries,
      p.1.2.ieeeEq p.2.2 ↔ p.1.2.plain = p.2.2.plain := fun p hp =>
    Binary.ieeeEq_iff (hm.params _ (List.of_mem_zip hp).1) (hn.params _ (List.of_mem_zip hp).2)
  have hentries : m.params.map Binary.plain = n.params.map Binary.plain ↔
      m.params.entries.map (fun e => (e.1, e.2.plain)) =
        n.params.entries.map (fun e => (e.1, e.2.plain)) :=
    ⟨congrArg Keyed.entries, fun h => Keyed.ext h⟩
  simp only [Node.ieeeEq, Bool.and_eq_true, beq_iff_eq, List.all_eq_true,
    Binary.ieeeEq_iff hm.x hn.x, Binary.ieeeEq_iff hm.y hn.y, Node.plain, Node.mk.injEq, hentries,
    map_eq_map_iff_zip, Prod.mk.injEq]
  constructor
  · rintro ⟨⟨⟨⟨⟨⟨hid, hkind⟩, hx⟩, hy⟩, hbypass⟩, hlength, hkeys⟩, hvalues⟩
    exact ⟨hid, hkind, hx, hy, hbypass, hlength, fun p hp =>
      ⟨hkeys p hp, (hparams p hp).1 (hvalues p hp)⟩⟩
  · rintro ⟨hid, hkind, hx, hy, hbypass, hlength, hall⟩
    exact ⟨⟨⟨⟨⟨⟨hid, hkind⟩, hx⟩, hy⟩, hbypass⟩, hlength, fun p hp => (hall p hp).1⟩, fun p hp =>
      (hparams p hp).2 (hall p hp).2⟩

namespace State

variable {s t : State}

/-- **States are compared by their plain states**, without the errors. -/
theorem sameGraph_iff (hs : s.Finite) (ht : t.Finite) :
    s.sameGraph t ↔ s.withoutError.plain = t.withoutError.plain := by
  have hnodes : ∀ p ∈ s.nodes.zip t.nodes, p.1.ieeeEq p.2 ↔ p.1.plain = p.2.plain := fun p hp =>
    Node.ieeeEq_iff (hs _ (List.of_mem_zip hp).1) (ht _ (List.of_mem_zip hp).2)
  simp only [sameGraph, Bool.and_eq_true, beq_iff_eq, List.all_eq_true, plain, withoutError,
    State.mk.injEq, map_eq_map_iff_zip]
  constructor
  · rintro ⟨⟨⟨⟨⟨hlength, hall⟩, hedges⟩, hselected⟩, hlimit⟩, hserial⟩
    exact ⟨⟨hlength, fun p hp => (hnodes p hp).1 (hall p hp)⟩, hedges, hselected, hlimit, hserial,
      trivial⟩
  · rintro ⟨⟨hlength, hall⟩, hedges, hselected, hlimit, hserial, -⟩
    exact ⟨⟨⟨⟨⟨hlength, fun p hp => (hnodes p hp).2 (hall p hp)⟩, hedges⟩, hselected⟩, hlimit⟩,
      hserial⟩

/-! ## Edits of plain states -/

@[simp] theorem plain_comp_plain : Node.plain ∘ Node.plain = Node.plain :=
  funext Node.plain_plain

@[simp] theorem ids_plain (s : State) : s.plain.ids = s.ids := by
  simp [ids, plain, Node.plain, Function.comp_def]

theorem hasEdge_plain (s : State) (a b : String) : s.plain.hasEdge a b = s.hasEdge a b := rfl

theorem isFull_plain (s : State) : s.plain.isFull = s.isFull := by simp [isFull, plain]

theorem filter_plain (nodes : List Node) (id : String) :
    ((nodes.map Node.plain).filter (·.id ≠ id)).map Node.plain =
      (nodes.filter (·.id ≠ id)).map Node.plain := by
  rw [List.filter_map, List.map_map, plain_comp_plain]
  rfl

theorem editNode_plain {edit : Node → Node} (hedit : ∀ n, (edit n.plain).plain = (edit n).plain)
    (s : State) (id : String) : (s.plain.editNode id edit).plain = (s.editNode id edit).plain := by
  have hnodes : ∀ nodes : List Node, (replaceNode id edit (nodes.map Node.plain)).map Node.plain =
      (replaceNode id edit nodes).map Node.plain := by
    intro nodes
    induction nodes with
    | nil => rfl
    | cons n rest ih =>
      have hid : n.plain.id = n.id := rfl
      rw [List.map_cons, replaceNode, replaceNode, hid]
      split_ifs <;> simp [ih, hedit]
  simp only [plain, editNode, hnodes]

/-- Two outcomes of an edit: the same refusal, or states that are the same but for signs of zeros. -/
def PlainOutcome (a b : Except GraphError State) : Prop := a.map plain = b.map plain

namespace PlainOutcome

theorem refused (e : GraphError) : PlainOutcome (.error e) (.error e) := rfl

theorem done (h : s.plain = t.plain) : PlainOutcome (.ok s) (.ok t) := congrArg Except.ok h

theorem test {c : Prop} [Decidable c] {a a' b b' : Except GraphError State}
    (ha : PlainOutcome a a') (hb : PlainOutcome b b') :
    PlainOutcome (if c then a else b) (if c then a' else b') := by
  split
  · exact ha
  · exact hb

end PlainOutcome

open PlainOutcome in
/-- **A state and its plain state take an edit alike**: both refuse it for the same cause, or both
carry it out, and then the next states are the same but for signs of zeros. -/
theorem plain_attempt (s : State) (a : Action) : PlainOutcome (s.plain.attempt a) (s.attempt a) := by
  cases a with
  | addNode kind x y id =>
    simp only [attempt, attemptAdd, contains_eq, ids_plain, isFull_plain]
    exact .test (refused _) <| .test (refused _) <| .test (refused _) <| .test (refused _) <|
      done (by simp [plain])
  | removeNode id =>
    simp only [attempt, attemptRemove, contains_eq, ids_plain]
    refine .test (refused _) <| .test (refused _) <| done ?_
    simp only [plain, filter_plain]
    rfl
  | moveNode id x y =>
    simp only [attempt, attemptMove, contains_eq, ids_plain]
    exact .test (refused _) <| .test (refused _) <|
      done (editNode_plain (fun n => by simp [Node.plain]) s id)
  | connect a b =>
    simp only [attempt, attemptConnect, contains_eq, ids_plain, hasEdge_plain]
    exact .test (refused _) <| .test (refused _) <| .test (refused _) <| .test (refused _) <|
      done (by simp [plain])
  | disconnect a b =>
    simp only [attempt, attemptDisconnect, hasEdge_plain]
    exact .test (refused _) <| done (by simp [plain])
  | selectNode id =>
    simp only [attempt, attemptSelect, contains_eq, ids_plain]
    exact .test (refused _) <| done (by simp [plain])
  | setParam id key v =>
    simp only [attempt, attemptSetParam, contains_eq, ids_plain]
    exact .test (refused _) <| .test (refused _) <|
      done (editNode_plain (fun n => by simp [Node.plain, Keyed.map_insert]) s id)
  | toggleBypass id =>
    simp only [attempt, attemptToggleBypass, contains_eq, ids_plain]
    exact .test (refused _) <| done (editNode_plain (fun n => by simp [Node.plain]) s id)

/-- States that are the same but for signs of zeros stay so. -/
theorem plain_apply (h : s.plain = t.plain) (a : Action) : (s.apply a).plain = (t.apply a).plain := by
  have hout : PlainOutcome (s.attempt a) (t.attempt a) :=
    (plain_attempt s a).symm.trans (h ▸ plain_attempt t a)
  rw [PlainOutcome] at hout
  simp only [apply]
  generalize s.attempt a = left, t.attempt a = right at hout
  cases left with
  | error e =>
    cases right with
    | error d =>
      obtain rfl := Except.error.inj hout
      exact congrArg (withError · e) h
    | ok u => cases hout
  | ok u =>
    cases right with
    | error d => cases hout
    | ok v => exact Except.ok.inj hout

end State

end Pedalboard
