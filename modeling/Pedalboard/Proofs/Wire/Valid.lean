import Mathlib
import Pedalboard.Proofs.Graph.Invariant
import Pedalboard.Proofs.Wire.Canonical

/-!
# Which payloads are valid

**Validity** (`Payload.problem?_eq_none_iff`). A payload is valid exactly when it has the version
and the size that are supported, its numbers are finite and its edges join its nodes.

**Finite numbers** (`State.Finite`). A new board has finite numbers, so has a document that was
loaded, and edits that would bring in any other number are refused.

**Theorem (`Payload.normalize_of_reaches`).** A state that occurs has a payload, whatever was done
to it, if it has no more edges than a payload can hold; and if it has more, this is the rule that
is reported as broken (`Payload.normalize_of_overflow`).
-/

namespace Pedalboard

/-- The coordinates and parameters of a node are finite. -/
structure Node.Finite (n : Node) : Prop where
  x : n.x.isFinite
  y : n.y.isFinite
  params : ∀ e ∈ n.params.entries, e.2.isFinite

/-! ## Valid payloads -/

namespace Payload

theorem nonFinite?_eq_none_iff {n : Node} : nonFinite? n = none ↔ n.Finite := by
  have hparams : (n.params.entries.find? (!·.2.isFinite)).map (·.1) = none ↔
      ∀ e ∈ n.params.entries, e.2.isFinite := by simp
  rw [nonFinite?]
  split_ifs with hx hy
  · simp only [false_iff]
    exact fun h => by simp [h.x] at hx
  · simp only [false_iff]
    exact fun h => by simp [h.y] at hy
  · rw [hparams]
    exact ⟨fun h => ⟨by simpa using hx, by simpa using hy, h⟩, Node.Finite.params⟩

/-- **What a valid payload is.** -/
theorem problem?_eq_none_iff {p : Payload} :
    p.problem? = none ↔
      p.version = schemaVersion ∧ p.nodes ≠ [] ∧ p.nodes.length ≤ maxPayloadNodes ∧
      p.edges.length ≤ maxPayloadEdges ∧ (∀ n ∈ p.nodes, n.Finite) ∧
      ∀ e ∈ p.edges, e.source ∈ p.nodes.map (·.id) ∧ e.target ∈ p.nodes.map (·.id) := by
  have hnodes : (p.nodes.findSome? fun n => (nonFinite? n).map (WireError.invalidParam n.id)) = none ↔
      ∀ n ∈ p.nodes, n.Finite := by
    simp only [List.findSome?_eq_none_iff, Option.map_eq_none_iff, nonFinite?_eq_none_iff]
  have hends : (p.edges.findSome? fun e =>
      if (p.nodes.map (·.id)).contains e.source && (p.nodes.map (·.id)).contains e.target then none
      else some (WireError.endpointMissing e.source e.target)) = none ↔
      ∀ e ∈ p.edges, e.source ∈ p.nodes.map (·.id) ∧ e.target ∈ p.nodes.map (·.id) := by
    simp only [List.findSome?_eq_none_iff, ite_eq_left_iff, reduceCtorEq, imp_false, not_not,
      Bool.and_eq_true, List.contains_iff_mem]
  rw [problem?]
  split_ifs with hversion hlength hedges
  · simp [hversion]
  · rw [List.length_eq_zero_iff] at hlength
    simp only [false_iff]
    rintro ⟨-, hne, hle, -⟩
    exact hlength.elim hne hle.not_gt
  · simp only [false_iff]
    exact fun h => hedges.not_ge h.2.2.2.1
  · rw [not_or, List.length_eq_zero_iff, not_lt] at hlength
    rw [Option.or_eq_none_iff, hnodes, hends]
    exact ⟨fun h => ⟨not_not.1 hversion, hlength.1, hlength.2, not_lt.1 hedges, h⟩,
      fun h => h.2.2.2.2⟩

/-- Edges are counted before numbers and ends are looked at. -/
theorem problem?_of_overflow {p : Payload} (hversion : p.version = schemaVersion)
    (hne : p.nodes ≠ []) (hnodes : p.nodes.length ≤ maxPayloadNodes)
    (hedges : maxPayloadEdges < p.edges.length) :
    p.problem? = some (.edgeLimitReached p.edges.length) := by
  have hcount : ¬(p.nodes.length = 0 ∨ maxPayloadNodes < p.nodes.length) := by
    rw [List.length_eq_zero_iff]
    exact not_or.2 ⟨hne, hnodes.not_gt⟩
  simp only [problem?]
  rw [if_neg (not_not.2 hversion), if_neg hcount, if_pos hedges]

end Payload

/-! ## Finite numbers -/

namespace State

/-- Every number in the graph is finite. -/
def Finite (s : State) : Prop := ∀ n ∈ s.nodes, n.Finite

variable {s t : State}

theorem finite_initial (limit : Nat) : (initial limit).Finite := by
  simp only [Finite, initial, List.forall_mem_cons]
  exact ⟨⟨by decide, by decide, by simp [Keyed.empty]⟩, ⟨by decide, by decide, by simp [Keyed.empty]⟩,
    by simp⟩

theorem Opened.finite (h : Opened s) : s.Finite := by
  obtain ⟨limit, rfl⟩ | ⟨p, limit, h⟩ := h
  · exact finite_initial limit
  · obtain ⟨hvalid, hparts⟩ := hydrate_eq_ok h
    obtain ⟨-, -, -, -, hfinite, -⟩ := Payload.problem?_eq_none_iff.1 hvalid
    obtain ⟨-, rfl⟩ := ofParts_eq_ok.1 hparts
    exact hfinite

theorem mem_replaceNode {id : String} {edit : Node → Node} {nodes : List Node} {m : Node}
    (h : m ∈ replaceNode id edit nodes) : m ∈ nodes ∨ ∃ n ∈ nodes, m = edit n := by
  induction nodes with
  | nil => exact .inl h
  | cons n rest ih =>
    rw [replaceNode] at h
    split at h
    · rcases List.mem_cons.1 h with rfl | h
      · exact .inr ⟨n, List.mem_cons_self, rfl⟩
      · exact .inl (List.mem_cons_of_mem _ h)
    · rcases List.mem_cons.1 h with rfl | h
      · exact .inl List.mem_cons_self
      · refine (ih h).imp (List.mem_cons_of_mem _) ?_
        rintro ⟨m, hm, rfl⟩
        exact ⟨m, List.mem_cons_of_mem _ hm, rfl⟩

theorem Finite.editNode {id : String} {edit : Node → Node} (h : s.Finite)
    (hedit : ∀ n, n.Finite → (edit n).Finite) : (s.editNode id edit).Finite := by
  intro m hm
  rcases mem_replaceNode hm with hm | ⟨n, hn, rfl⟩
  · exact h m hm
  · exact hedit n (h n hn)

/-- **Every edit keeps the numbers finite.** -/
theorem Finite.attempt {a : Action} (h : s.Finite) (hok : s.attempt a = .ok t) : t.Finite := by
  cases a with
  | addNode kind x y id =>
    obtain ⟨-, hx, hy, -, -, rfl⟩ := attemptAdd_eq_ok hok
    intro n hn
    rcases List.mem_append.1 hn with hn | hn
    · exact h n hn
    · obtain rfl := List.mem_singleton.1 hn
      exact ⟨hx, hy, by simp [Keyed.empty]⟩
  | removeNode id =>
    obtain ⟨-, -, -, rfl⟩ := attemptRemove_eq_ok hok
    exact fun n hn => h n (List.mem_of_mem_filter hn)
  | moveNode id x y =>
    obtain ⟨-, hx, hy, rfl⟩ := attemptMove_eq_ok hok
    exact h.editNode fun n hn => ⟨hx, hy, hn.params⟩
  | connect a b =>
    obtain ⟨-, -, -, -, -, rfl⟩ := attemptConnect_eq_ok hok
    exact h
  | disconnect a b =>
    obtain ⟨-, rfl⟩ := attemptDisconnect_eq_ok hok
    exact h
  | selectNode id =>
    obtain ⟨-, rfl⟩ := attemptSelect_eq_ok hok
    exact h
  | setParam id key v =>
    obtain ⟨-, hv, rfl⟩ := attemptSetParam_eq_ok hok
    refine h.editNode fun n hn => ⟨hn.x, hn.y, fun e he => ?_⟩
    rcases Increasing.mem_insertInto he with rfl | he
    · exact hv
    · exact hn.params e he
  | toggleBypass id =>
    obtain ⟨-, rfl⟩ := attemptToggleBypass_eq_ok hok
    exact h.editNode fun n hn => ⟨hn.x, hn.y, hn.params⟩

theorem Finite.apply (h : s.Finite) (a : Action) : (s.apply a).Finite :=
  apply_induction a h (fun _ hs => hs) fun _ hok => h.attempt hok

theorem Reaches.finite (h : Reaches Opened s) : s.Finite :=
  h.invariant (fun _ => Opened.finite) fun _ a hs => hs.apply a

end State

/-! ## States that have a payload -/

namespace Payload

variable {s : State}

/-- The nodes of a graph fit a payload. -/
theorem sortNodes_fits (hs : s.WellFormed) :
    sortNodes s.nodes ≠ [] ∧ (sortNodes s.nodes).length ≤ maxPayloadNodes := by
  constructor
  · intro hnil
    have hmem := (((sortNodes_perm s.nodes).map (·.id)).mem_iff).2 hs.anchors_mem.1
    rw [hnil] at hmem
    exact List.not_mem_nil hmem
  · rw [(sortNodes_perm _).length_eq]
    exact hs.fits.trans (hs.limit.2.trans (by decide))

/-- **A state that occurs has a payload**, unless it has too many edges. -/
theorem normalize_of_reaches (h : State.Reaches State.Opened s)
    (hedges : s.edges.length ≤ maxPayloadEdges) :
    normalize s = .ok { nodes := sortNodes s.nodes, edges := sortEdges s.edges } := by
  have hs : s.WellFormed := h.wellFormed_of_opened
  have hids : ∀ i, i ∈ (sortNodes s.nodes).map (·.id) ↔ i ∈ s.ids := fun i =>
    ((sortNodes_perm s.nodes).map _).mem_iff
  obtain ⟨hne, hnodes⟩ := sortNodes_fits hs
  refine normalize_eq_ok.2
    ⟨rfl, problem?_eq_none_iff.2 ⟨rfl, hne, hnodes, ?_, fun n hn => ?_, fun e he => ?_⟩⟩
  · rw [(sortEdges_perm _).length_eq]
    exact hedges
  · exact h.finite n ((sortNodes_perm _).mem_iff.1 hn)
  · obtain ⟨-, hsource, htarget⟩ := hs.ends e ((sortEdges_perm _).mem_iff.1 he)
    exact ⟨(hids _).2 hsource, (hids _).2 htarget⟩

/-- **Too many edges are reported as such**, with their number. -/
theorem normalize_of_overflow (h : State.Reaches State.Opened s)
    (hedges : maxPayloadEdges < s.edges.length) :
    normalize s = .error (.edgeLimitReached s.edges.length) := by
  obtain ⟨hne, hnodes⟩ := sortNodes_fits h.wellFormed_of_opened
  have hlength : (sortEdges s.edges).length = s.edges.length := (sortEdges_perm _).length_eq
  rw [normalize_eq_error, problem?_of_overflow rfl hne hnodes (hlength.symm ▸ hedges)]
  exact congrArg (fun count => some (WireError.edgeLimitReached count)) hlength

end Payload

end Pedalboard
