import Mathlib
import Pedalboard.Proofs.Json.Documents
import Pedalboard.Proofs.Keyed
import Pedalboard.Proofs.Wire.Valid
import Pedalboard.Wire.Codec

/-!
# Payloads that are written and read

**Readers** (`OkIff`). What a reader makes of a text that was written: one value if a condition
holds, and an error if not. Conditions add up along a reader.

**Parts** (`carries_node`, `carries_edge`). However documents are carried, a node is read as the same node
if its numbers are finite, and refused if not; an edge is read as the same edge. A number loses
nothing: what it comes out as rounds to the single it was.

**Theorem (`okIff_deserialize`).** The text of a payload is read if the payload is valid, as the
payload in canonical order, and refused if not. So a valid payload in canonical order is read as
itself (`deserialize_serialize`).

**Theorem (`deserialize_of_normalize`).** So the text of a state describes the state's payload.

**Identity** (`text_eq_iff`). Two states that occur have one text exactly when they have the same
nodes and the same edges, so a text stands for a graph.
-/

namespace Pedalboard

namespace Payload

open Json

/-! ## Readers that succeed on a condition -/

/-- A reader gives `a` if `P` holds, and an error if not. -/
def OkIff {α ε : Type} (r : Except ε α) (P : Prop) (a : α) : Prop := ∀ b, r = .ok b ↔ P ∧ b = a

namespace OkIff

variable {α β ε : Type} {r : Except ε α} {P Q : Prop} {a a' : α} {b : β}

theorem eq_ok (h : OkIff r P a) (hP : P) : r = .ok a := (h a).2 ⟨hP, rfl⟩

theorem pure (a : α) : OkIff (pure a : Except ε α) True a := by
  simp [OkIff, Pure.pure, Except.pure, eq_comm]

/-- The same condition in other words, and the same value wherever it holds. -/
theorem congr (h : OkIff r P a) (hPQ : P ↔ Q) (ha : P → a = a') : OkIff r Q a' := by
  intro b
  rw [h b, ← hPQ]
  exact and_congr_right fun hP => by rw [ha hP]

/-- One reader after another succeeds if both do. -/
theorem bind {f : α → Except ε β} (hr : OkIff r P a) (hf : OkIff (f a) Q b) :
    OkIff (r >>= f) (P ∧ Q) b := by
  intro c
  cases r with
  | error e =>
    have hP : ¬P := fun hP => nomatch (hr a).2 ⟨hP, rfl⟩
    exact ⟨nofun, fun h => absurd h.1.1 hP⟩
  | ok a' =>
    obtain ⟨hP, rfl⟩ := (hr a').1 rfl
    exact (hf c).trans (by simp [hP])

/-- What a reader gives is put together with what was read before. -/
theorem bind_pure (hr : OkIff r P a) (g : α → β) : OkIff (r >>= fun a => Pure.pure (g a)) P (g a) :=
  (hr.bind (pure (g a))).congr (by simp) fun _ => rfl

theorem mapM {R : α → Prop} {f : β → Except ε α} {as : List α} {bs : List β}
    (h : List.Forall₂ (fun a b => OkIff (f b) (R a) a) as bs) :
    OkIff (bs.mapM f) (∀ a ∈ as, R a) as := by
  induction h with
  | nil => exact (pure []).congr (by simp) fun _ => rfl
  | cons hb _ ih =>
    rw [List.mapM_cons]
    exact (hb.bind (ih.bind_pure _)).congr (by simp) fun _ => rfl

theorem foldlM {σ : Type} {R : α → Prop} {f : σ → β → Except ε σ} {g : σ → α → σ} {as : List α}
    {bs : List β} (h : List.Forall₂ (fun a b => ∀ m, OkIff (f m b) (R a) (g m a)) as bs) (m : σ) :
    OkIff (bs.foldlM f m) (∀ a ∈ as, R a) (as.foldl g m) := by
  induction h generalizing m with
  | nil => exact (pure m).congr (by simp) fun _ => rfl
  | cons hb _ ih =>
    rw [List.foldlM_cons]
    exact ((hb m).bind (ih _)).congr (by simp) fun _ => rfl

end OkIff

theorem okIff_require {α : Type} {e : ShapeError} {v : Option α} {P : Prop} {a : α}
    (h : ∀ b, v = some b ↔ P ∧ b = a) : OkIff (require e v) P a := by
  intro b
  rw [← h b]
  cases v <;> simp [require, shapeError]

@[simp] theorem require_some {α : Type} (e : ShapeError) (v : α) : require e (some v) = .ok v := rfl

theorem ok_bind {α β ε : Type} (a : α) (f : α → Except ε β) : .ok a >>= f = f a := rfl

/-! ## Nodes -/

/-- A parameter and the field that it comes out as. -/
def CarriesParam (R : Json → Json → Prop) (e : String × Single) (f : String × Json) : Prop :=
  e.1 = f.1 ∧ R (.single e.2) f.2 ∧ ∀ y, f.2.finiteSingle? = some y ↔ e.2.isFinite ∧ y = e.2

theorem okIff_paramsOf {R : Json → Json → Prop} {params : Keyed Single} {fields : Fields}
    (h : List.Forall₂ (CarriesParam R) params.entries fields) (id : String) :
    OkIff (paramsOf id fields) (∀ e ∈ params.entries, e.2.isFinite) params := by
  let put (m : Keyed Single) (e : String × Single) : Keyed Single := m.insert e.1 e.2
  have hfold : OkIff (paramsOf id fields) (∀ e ∈ params.entries, e.2.isFinite)
      (params.entries.foldl put .empty) := by
    refine OkIff.foldlM (h.imp fun e f hf m => ?_) Keyed.empty
    obtain ⟨hkey, -, hvalue⟩ := hf
    intro b
    by_cases hfinite : e.2.isFinite
    · simp [(hvalue e.2).2 ⟨hfinite, rfl⟩, hfinite, hkey, put, eq_comm]
    · have hnone : f.2.finiteSingle? = none :=
        Option.eq_none_iff_forall_ne_some.2 fun y hy => hfinite ((hvalue y).1 hy).1
      simp [hnone, hfinite]
  exact hfold.congr Iff.rfl fun _ => Keyed.ofList_entries params

variable {R : Nat → Json → Json → Prop}

/-- The parameters of a node come out with their keys in the same order. -/
theorem carries_params (hR : Carries R) (k : Nat) (params : Keyed Single) :
    ∃ fields, (∀ id, OkIff (paramsOf id fields) (∀ e ∈ params.entries, e.2.isFinite) params) ∧
      R (k + 1) (.object (params.entries.map fun (k, v) => (k, .single v))) (.object fields) := by
  obtain ⟨fields, hfields⟩ := exists_forall₂ (R := CarriesParam (R k)) fun e (_ : e ∈ params.entries) => by
    obtain ⟨w, hread, hvalue⟩ := hR.single e.2
    exact ⟨(e.1, w), rfl, hread k, hvalue⟩
  have hincreasing : Increasing fields := params.increasing.of_same_keys (hfields.imp fun _ _ hf => hf.1)
  refine ⟨fields, okIff_paramsOf hfields, ?_⟩
  rw [← Keyed.entries_ofList hincreasing]
  exact hR.object (List.forall₂_map_left_iff.2 (hfields.imp fun _ _ hf => ⟨hf.1, hf.2.1⟩))

theorem okIff_nodeOf {fields params : Fields} {n : Node}
    (hid : field? "id" fields = some (.string n.id))
    (hkind : field? "kind" fields = some (.string n.kind.name))
    (hbypass : field? "bypass" fields = some (.bool n.bypass))
    (hx : ∀ y, (field? "x" fields).bind finiteSingle? = some y ↔ n.x.isFinite ∧ y = n.x)
    (hy : ∀ y, (field? "y" fields).bind finiteSingle? = some y ↔ n.y.isFinite ∧ y = n.y)
    (hraw : field? "params" fields = some (.object params))
    (hparams : OkIff (paramsOf n.id params) (∀ e ∈ n.params.entries, e.2.isFinite) n.params) :
    OkIff (nodeOf (.object fields)) n.Finite n := by
  simp only [nodeOf, stringField, kindField, hid, hkind, hbypass, hraw, Option.bind_some, object?,
    string?, bool?, Kind.ofName?_name, require_some, ok_bind]
  refine ((okIff_require hx).bind ((okIff_require hy).bind (hparams.bind_pure _))).congr ?_
    fun _ => rfl
  exact ⟨fun ⟨hx, hy, hparams⟩ => ⟨hx, hy, hparams⟩, fun h => ⟨h.x, h.y, h.params⟩⟩

/-- **A node is read back** if its numbers are finite, and refused if not. -/
theorem carries_node (hR : Carries R) (k : Nat) (n : Node) :
    ∃ w, R (k + 2) (nodeJson n) w ∧ OkIff (nodeOf w) n.Finite n := by
  obtain ⟨x, hreadx, hx⟩ := hR.single n.x
  obtain ⟨y, hready, hy⟩ := hR.single n.y
  obtain ⟨params, hparams, hreadparams⟩ := carries_params hR k n.params
  let fields : Fields := [("id", .string n.id), ("kind", .string n.kind.name), ("x", x), ("y", y),
    ("bypass", .bool n.bypass), ("params", .object params)]
  have hlookup : ∀ key, field? key (Keyed.ofList fields).entries = fields.lookup key :=
    Keyed.lookup_ofList (by simp [fields])
  refine ⟨.object (Keyed.ofList fields).entries, hR.object ?_, ?_⟩
  · exact .cons ⟨rfl, hR.string _ _⟩ <| .cons ⟨rfl, hR.string _ _⟩ <|
      .cons ⟨rfl, hreadx _⟩ <| .cons ⟨rfl, hready _⟩ <| .cons ⟨rfl, hR.bool _ _⟩ <|
      .cons ⟨rfl, hreadparams⟩ .nil
  · refine okIff_nodeOf ?_ ?_ ?_ ?_ ?_ ?_ (hparams n.id)
    all_goals simp [hlookup, fields, lookup_cons_ite, hx, hy]

/-! ## Edges -/

/-- **An edge is read back.** -/
theorem carries_edge (hR : Carries R) (k : Nat) (e : Edge) :
    ∃ w, R (k + 1) (edgeJson e) w ∧ OkIff (edgeOf w) True e := by
  let fields : Fields := [("fromNodeId", .string e.source), ("toNodeId", .string e.target)]
  have hlookup : ∀ key, field? key (Keyed.ofList fields).entries = fields.lookup key :=
    Keyed.lookup_ofList (by simp [fields])
  refine ⟨.object (Keyed.ofList fields).entries, hR.object ?_, ?_⟩
  · exact .cons ⟨rfl, hR.string _ _⟩ <| .cons ⟨rfl, hR.string _ _⟩ .nil
  · have hsource : field? "fromNodeId" (Keyed.ofList fields).entries = some (.string e.source) := by
      simp [hlookup, fields]
    have htarget : field? "toNodeId" (Keyed.ofList fields).entries = some (.string e.target) := by
      simp [hlookup, fields, lookup_cons_ite]
    have hread : edgeOf (.object (Keyed.ofList fields).entries) = .ok e := by
      simp only [edgeOf, stringField, hsource, htarget, Option.bind_some, object?, string?,
        require_some, bind, Except.bind]
      rfl
    exact hread ▸ .pure e

/-! ## Payloads -/

/-- A payload is valid in any order. -/
theorem problem?_sort_eq_none_iff {p : Payload} : p.sort.problem? = none ↔ p.problem? = none := by
  have hnodes := sortNodes_perm p.nodes
  have hedges := sortEdges_perm p.edges
  simp only [problem?_eq_none_iff, sort, ← List.length_pos_iff, hnodes.length_eq, hedges.length_eq,
    hnodes.mem_iff, hedges.mem_iff, (hnodes.map (·.id)).mem_iff]

theorem okIff_validate (p : Payload) : OkIff p.validate (p.problem? = none) () := by
  intro b
  rw [← validate_eq_ok]
  simp

theorem okIff_ofJson {fields : Fields} {nodes edges : List Json} {p : Payload}
    (hversion : field? "schemaVersion" fields = some (.natural p.version))
    (hnodes : field? "nodes" fields = some (.array nodes))
    (hedges : field? "edges" fields = some (.array edges))
    (hreadnodes : List.Forall₂ (fun n w => OkIff (nodeOf w) n.Finite n) p.nodes nodes)
    (hreadedges : List.Forall₂ (fun e w => OkIff (edgeOf w) True e) p.edges edges) :
    OkIff (ofJson (.object fields)) (p.problem? = none) p.sort := by
  have hcheck : OkIff (checkVersion fields) (p.version = schemaVersion) () := by
    intro b
    simp [checkVersion, hversion, natural?, natural]
  let unversioned : Payload := { nodes := p.nodes, edges := p.edges }
  have hsame : p.version = schemaVersion → unversioned = p := by
    rintro h
    simp only [unversioned, ← h]
  simp only [ofJson, hnodes, hedges, Option.bind_some, object?, array?, require_some, ok_bind]
  refine (hcheck.bind ((OkIff.mapM hreadnodes).bind ((OkIff.mapM hreadedges).bind
    ((okIff_validate unversioned.sort).bind_pure _)))).congr ?_
    fun h => congrArg sort (hsame h.1)
  rw [problem?_sort_eq_none_iff]
  constructor
  · rintro ⟨h, -, -, hvalid⟩
    exact hsame h ▸ hvalid
  · intro hvalid
    obtain ⟨h, -, -, -, hfinite, -⟩ := problem?_eq_none_iff.1 hvalid
    exact ⟨h, hfinite, fun _ _ => trivial, (hsame h).symm ▸ hvalid⟩

/-- **A payload is read back exactly if it is valid**, and then in canonical order, however it is carried. -/
theorem carries_payload (hR : Carries R) {p : Payload} (hversion : p.version < naturalBound) :
    ∃ w, R maxNesting p.toJson w ∧ OkIff (ofJson w) (p.problem? = none) p.sort := by
  obtain ⟨nodes, hnodes⟩ := exists_forall₂ fun n (_ : n ∈ p.nodes) => carries_node hR 123 n
  obtain ⟨edges, hedges⟩ := exists_forall₂ fun e (_ : e ∈ p.edges) => carries_edge hR 124 e
  let fields : Fields := [("schemaVersion", .natural p.version), ("nodes", .array nodes),
    ("edges", .array edges)]
  have hlookup : ∀ key, field? key (Keyed.ofList fields).entries = fields.lookup key :=
    Keyed.lookup_ofList (by simp [fields])
  refine ⟨.object (Keyed.ofList fields).entries, hR.object ?_, okIff_ofJson ?_ ?_ ?_
    (hnodes.imp fun _ _ h => h.2) (hedges.imp fun _ _ h => h.2)⟩
  · refine .cons ⟨rfl, hR.natural 126 hversion⟩ <| .cons ⟨rfl, ?_⟩ <| .cons ⟨rfl, ?_⟩ .nil
    · exact hR.array (List.forall₂_map_left_iff.2 (hnodes.imp fun _ _ h => h.1))
    · exact hR.array (List.forall₂_map_left_iff.2 (hedges.imp fun _ _ h => h.1))
  all_goals
    rw [hlookup]
    simp [fields, lookup_cons_ite]

/-- **The text of a payload is read exactly if the payload is valid.** -/
theorem okIff_deserialize {p : Payload} (hversion : p.version < naturalBound) :
    OkIff (deserialize p.serialize) (p.problem? = none) p.sort := by
  obtain ⟨w, hread, hw⟩ := carries_payload carries_compact hversion
  rwa [deserialize, serialize, parse?_compact hread]

/-- **A valid payload in canonical order is read as itself.** -/
theorem deserialize_serialize {p : Payload} (hvalid : p.problem? = none) (hsorted : p.sort = p) :
    deserialize p.serialize = .ok p := by
  have hversion : p.version < naturalBound := by
    rw [(problem?_eq_none_iff.1 hvalid).1]
    decide
  rw [(okIff_deserialize hversion).eq_ok hvalid, hsorted]

/-! ## The text of a state -/

variable {s t : State} {p q : Payload}

theorem sort_of_normalize (h : normalize s = .ok p) : p.sort = p := by
  obtain ⟨rfl, -⟩ := normalize_eq_ok.1 h
  rw [sort, sortNodes_sortNodes, sortEdges_sortEdges]

/-- **The text of a state is read as the payload of the state**: the same nodes and edges in the
same order, and every number the same single. -/
theorem deserialize_of_normalize (h : normalize s = .ok p) : deserialize p.serialize = .ok p :=
  deserialize_serialize (normalize_eq_ok.1 h).2 (sort_of_normalize h)

/-- A node with an id that is escaped, and with a mix of `7.038531e-26`: the double nearest to this
decimal rounds to the next single, but the double that is read for it does not. -/
def quotedAdded : State :=
  (State.initial 3).applyAll [.addNode .delay 0 0 (some "\"é\n"),
    .setParam "\"é\n" "mix" ⟨false, 0x15ae43fd, by decide⟩]

def quotedSaved : Payload where
  nodes := [
    { id := "\"é\n", kind := .delay, x := 0, y := 0,
      params := .ofList [("mix", ⟨false, 0x15ae43fd, by decide⟩)] },
    { id := inputId, kind := .input, x := 80, y := 120 },
    { id := outputId, kind := .output, x := 460, y := 120 }]
  edges := [⟨inputId, outputId⟩]

theorem deserialize_of_normalize_quoted :
    normalize quotedAdded = .ok quotedSaved ∧
    deserialize quotedSaved.serialize = .ok quotedSaved := by
  have hnodes : sortNodes quotedAdded.nodes = quotedSaved.nodes :=
    sortNodes_eq (by decide) (by decide) (by decide)
  have hedges : sortEdges quotedAdded.edges = quotedSaved.edges := List.mergeSort_singleton _
  have hnormal : normalize quotedAdded = .ok quotedSaved :=
    normalize_eq_ok.2 ⟨by rw [hnodes, hedges]; rfl, by decide⟩
  exact ⟨hnormal, deserialize_of_normalize hnormal⟩

theorem serializeState_eq_ok {text : String} :
    serializeState s = .ok text ↔ ∃ p, normalize s = .ok p ∧ p.serialize = text := by
  rw [serializeState]
  cases normalize s with
  | error e => simp [Except.map]
  | ok p => simp [Except.map]

/-- A text of a state is read as the payload of the state. -/
theorem exists_payload_of_text {text : String} (h : serializeState s = .ok text) :
    ∃ p, normalize s = .ok p ∧ deserialize text = .ok p := by
  obtain ⟨p, hp, rfl⟩ := serializeState_eq_ok.1 h
  exact ⟨p, hp, deserialize_serialize (normalize_eq_ok.1 hp).2 (sort_of_normalize hp)⟩

/-- **A state that occurs has a text**, unless it has too many edges. -/
theorem serializeState_of_reaches (h : State.Reaches State.Opened s)
    (hedges : s.edges.length ≤ maxPayloadEdges) :
    serializeState s =
      .ok (serialize { nodes := sortNodes s.nodes, edges := sortEdges s.edges }) := by
  rw [serializeState, normalize_of_reaches h hedges]
  rfl

theorem serializeState_of_overflow (h : State.Reaches State.Opened s)
    (hedges : maxPayloadEdges < s.edges.length) :
    serializeState s = .error (.edgeLimitReached s.edges.length) := by
  rw [serializeState, normalize_of_overflow h hedges]
  rfl

/-- Texts of valid payloads in canonical order differ if the payloads do. -/
theorem serialize_injective (hp : normalize s = .ok p) (hq : normalize t = .ok q)
    (h : p.serialize = q.serialize) : p = q := by
  have hread : deserialize p.serialize = .ok p :=
    deserialize_serialize (normalize_eq_ok.1 hp).2 (sort_of_normalize hp)
  rw [h, deserialize_serialize (normalize_eq_ok.1 hq).2 (sort_of_normalize hq)] at hread
  exact (Except.ok.inj hread).symm

/-- Texts agree exactly when the nodes and the edges do, in any order. -/
theorem serialize_eq_iff (hs : s.WellFormed) (hp : normalize s = .ok p) (hq : normalize t = .ok q) :
    p.serialize = q.serialize ↔ s.nodes.Perm t.nodes ∧ s.edges.Perm t.edges := by
  rw [← sortNodes_eq_iff hs.ids_nodup, ← sortEdges_eq_iff]
  constructor
  · intro h
    obtain rfl := serialize_injective hp hq h
    obtain ⟨rfl, -⟩ := normalize_eq_ok.1 hp
    obtain ⟨heq, -⟩ := normalize_eq_ok.1 hq
    exact ⟨congrArg Payload.nodes heq, congrArg Payload.edges heq⟩
  · rintro ⟨hnodes, hedges⟩
    rw [(normalize_eq_ok.1 hp).1, (normalize_eq_ok.1 hq).1, hnodes, hedges]

theorem sameParts_iff_perm (hs : s.WellFormed) (ht : t.WellFormed) :
    s.SameParts t ↔ s.nodes.Perm t.nodes ∧ s.edges.Perm t.edges := by
  rw [State.SameParts, List.perm_ext_iff_of_nodup (.of_map _ hs.ids_nodup) (.of_map _ ht.ids_nodup),
    List.perm_ext_iff_of_nodup hs.edges_nodup ht.edges_nodup]

/-- **Texts tell graphs apart**, and nothing but graphs. -/
theorem text_eq_iff {a b : String} (hs : State.Reaches State.Opened s)
    (ht : State.Reaches State.Opened t) (ha : serializeState s = .ok a)
    (hb : serializeState t = .ok b) : a = b ↔ s.SameParts t := by
  obtain ⟨p, hp, rfl⟩ := serializeState_eq_ok.1 ha
  obtain ⟨q, hq, rfl⟩ := serializeState_eq_ok.1 hb
  rw [serialize_eq_iff hs.wellFormed_of_opened hp hq,
    sameParts_iff_perm hs.wellFormed_of_opened ht.wellFormed_of_opened]

/-- **The text of a state identifies its graph.** States that occur have texts, and two of them
have the same text exactly when they have the same nodes and the same edges, in any order. The
selection, the limit, the serial and the error leave no trace. -/
theorem serializeState_eq_iff (hs : State.Reaches State.Opened s) (ht : State.Reaches State.Opened t)
    (hsedges : s.edges.length ≤ 64) (htedges : t.edges.length ≤ 64) :
    ∃ a b, serializeState s = .ok a ∧ serializeState t = .ok b ∧
      (a = b ↔ s.nodes.Perm t.nodes ∧ s.edges.Perm t.edges) := by
  have hp := normalize_of_reaches hs hsedges
  have hq := normalize_of_reaches ht htedges
  exact ⟨_, _, by rw [serializeState, hp]; rfl, by rw [serializeState, hq]; rfl,
    serialize_eq_iff hs.wellFormed_of_opened hp hq⟩

/-- Two effects and a selection. -/
def firstThenSecond : State :=
  (State.initial 3).applyAll [.addNode .delay 0 0 (some "first"), .addNode .eq 1 0 (some "second"),
    .selectNode (some "first")]

/-- The same graph, made in another order; the last edit is refused. -/
def secondThenFirst : State :=
  (State.initial 9).applyAll [.disconnect "input" "output", .addNode .eq 1 0 (some "second"),
    .addNode .delay 0 0 (some "first"), .connect "input" "output", .removeNode "input"]

theorem serializeState_eq_iff_firstThenSecond :
    firstThenSecond ≠ secondThenFirst ∧
    ∃ text, serializeState firstThenSecond = .ok text ∧ serializeState secondThenFirst = .ok text := by
  have hfirst : State.Reaches State.Opened firstThenSecond := State.reaches_applyAll_initial 3 _
  have hsecond : State.Reaches State.Opened secondThenFirst := State.reaches_applyAll_initial 9 _
  obtain ⟨a, b, ha, hb, heq⟩ := serializeState_eq_iff hfirst hsecond (by decide) (by decide)
  obtain rfl := heq.2 ⟨by decide, by decide⟩
  exact ⟨by decide, a, ha, hb⟩

end Payload

end Pedalboard
