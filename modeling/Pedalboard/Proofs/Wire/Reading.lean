import Mathlib
import Pedalboard.Proofs.Wire.RoundTrip

/-!
# What a reader has checked

When a document is read as a payload, every check on the way was passed. One equivalence for a reader
says which checks these are and what they give, so that nothing else can be read and nothing that
passes them is refused: parameters, nodes (`nodeOf_eq_ok`), edges (`edgeOf_eq_ok`) and whole
documents (`ofJson_eq_ok`).

What is read is valid (`problem?_of_deserialize`).
-/

namespace Pedalboard.Payload

open Json

/-! ## Readers one after the other -/

theorem bind_eq_ok {α β ε : Type} {r : Except ε α} {f : α → Except ε β} {b : β} :
    r >>= f = .ok b ↔ ∃ a, r = .ok a ∧ f a = .ok b := by
  cases r <;> simp [bind, Except.bind]

theorem pure_eq_ok {α ε : Type} {a b : α} : (pure a : Except ε α) = .ok b ↔ a = b := by
  simp [pure, Except.pure]

theorem require_eq_ok {α : Type} {e : ShapeError} {v : Option α} {a : α} :
    require e v = .ok a ↔ v = some a := by
  cases v <;> simp [require, shapeError]

theorem mapM_eq_ok {α β ε : Type} {f : α → Except ε β} {as : List α} {bs : List β} :
    as.mapM f = .ok bs ↔ List.Forall₂ (fun a b => f a = .ok b) as bs := by
  induction as generalizing bs with
  | nil => simp [List.mapM_nil, pure, Except.pure, eq_comm]
  | cons a as ih =>
    simp only [List.mapM_cons, bind_eq_ok, pure_eq_ok, ih, List.forall₂_cons_left_iff]
    constructor
    · intro ⟨b, hb, bs', hbs, h⟩
      exact ⟨b, bs', hb, hbs, h.symm⟩
    · intro ⟨b, bs', hb, hbs, h⟩
      exact ⟨b, hb, bs', hbs, h.symm⟩

/-! ## Kinds of values -/

theorem object?_eq_some {v : Json} {fields : Fields} :
    v.object? = some fields ↔ v = .object fields := by
  cases v <;> simp [object?]

theorem array?_eq_some {v : Json} {items : List Json} :
    v.array? = some items ↔ v = .array items := by
  cases v <;> simp [array?]

theorem string?_eq_some {v : Json} {s : String} : v.string? = some s ↔ v = .string s := by
  cases v <;> simp [string?]

theorem bool?_eq_some {v : Json} {b : Bool} : v.bool? = some b ↔ v = .bool b := by
  cases v <;> simp [bool?]

theorem ofName?_eq_some {name : String} {kind : Kind} :
    Kind.ofName? name = some kind ↔ name = kind.name := by
  constructor
  · intro h
    have hname := List.find?_some h
    simpa [eq_comm] using hname
  · rintro rfl
    exact Kind.ofName?_name kind

/-! ## Parts -/

variable {fields : Fields} {v : Json} {p : Payload}

theorem kindField_eq_ok {id : String} {kind : Kind} :
    kindField fields id = .ok kind ↔ field? "kind" fields = some (.string kind.name) := by
  unfold kindField
  cases field? "kind" fields with
  | none => simp
  | some v =>
    cases v with
    | string name =>
      rw [Option.some_inj, Json.string.injEq, ← ofName?_eq_some]
      cases hname : Kind.ofName? name <;> simp [hname]
    | _ => simp

theorem checkVersion_eq_ok {u : Unit} :
    checkVersion fields = .ok u ↔ (field? "schemaVersion" fields).bind natural? = some schemaVersion := by
  unfold checkVersion
  cases field? "schemaVersion" fields with
  | none => simp
  | some v => by_cases hv : v.natural? = some schemaVersion <;> simp [hv]

theorem paramsOf_eq_ok {id : String} {params : Keyed Single} :
    paramsOf id fields = .ok params ↔
      ∃ entries, List.Forall₂ (fun f e => f.1 = e.1 ∧ f.2.finiteSingle? = some e.2) fields entries ∧
        params = Keyed.ofList entries := by
  unfold paramsOf Keyed.ofList
  generalize Keyed.empty = start
  induction fields generalizing start with
  | nil => simp [pure, Except.pure, eq_comm]
  | cons f fields ih =>
    obtain ⟨key, w⟩ := f
    rw [List.foldlM_cons]
    cases hw : w.finiteSingle? with
    | none => simp [bind, Except.bind, List.forall₂_cons_left_iff, hw]
    | some x =>
      simp only [hw, ok_bind, ih]
      constructor
      · intro ⟨entries, hentries, hparams⟩
        exact ⟨(key, x) :: entries, .cons ⟨rfl, hw⟩ hentries, hparams⟩
      · rintro ⟨_, hentries, hparams⟩
        obtain ⟨⟨key, y⟩, entries, ⟨rfl, hy⟩, hrest, rfl⟩ := List.forall₂_cons_left_iff.1 hentries
        obtain rfl := Option.some.inj (hw.symm.trans hy)
        exact ⟨entries, hrest, hparams⟩

theorem nodeOf_eq_ok {n : Node} : nodeOf v = .ok n ↔ ∃ fields raw, v = .object fields ∧
    field? "id" fields = some (.string n.id) ∧ field? "kind" fields = some (.string n.kind.name) ∧
    field? "bypass" fields = some (.bool n.bypass) ∧
    (field? "x" fields).bind finiteSingle? = some n.x ∧
    (field? "y" fields).bind finiteSingle? = some n.y ∧
    field? "params" fields = some (.object raw) ∧ paramsOf n.id raw = .ok n.params := by
  unfold nodeOf stringField coordinate
  simp only [bind_eq_ok, pure_eq_ok, require_eq_ok, kindField_eq_ok, Option.bind_eq_some_iff,
    object?_eq_some, string?_eq_some, bool?_eq_some]
  constructor
  · rintro ⟨fields, hv, id, ⟨_, hid, rfl⟩, kind, hkind, bypass, ⟨_, hbypass, rfl⟩, x, hx, y, hy, raw,
      ⟨_, hraw, rfl⟩, params, hparams, rfl⟩
    exact ⟨fields, raw, hv, hid, hkind, hbypass, hx, hy, hraw, hparams⟩
  · rintro ⟨fields, raw, hv, hid, hkind, hbypass, hx, hy, hraw, hparams⟩
    exact ⟨fields, hv, n.id, ⟨_, hid, rfl⟩, n.kind, hkind, n.bypass, ⟨_, hbypass, rfl⟩, n.x, hx, n.y,
      hy, raw, ⟨_, hraw, rfl⟩, n.params, hparams, rfl⟩

theorem edgeOf_eq_ok {e : Edge} : edgeOf v = .ok e ↔ ∃ fields, v = .object fields ∧
    field? "fromNodeId" fields = some (.string e.source) ∧
    field? "toNodeId" fields = some (.string e.target) := by
  unfold edgeOf stringField
  simp only [bind_eq_ok, pure_eq_ok, require_eq_ok, Option.bind_eq_some_iff, object?_eq_some,
    string?_eq_some]
  constructor
  · rintro ⟨fields, hv, source, ⟨_, hsource, rfl⟩, target, ⟨_, htarget, rfl⟩, rfl⟩
    exact ⟨fields, hv, hsource, htarget⟩
  · rintro ⟨fields, hv, hsource, htarget⟩
    exact ⟨fields, hv, e.source, ⟨_, hsource, rfl⟩, e.target, ⟨_, htarget, rfl⟩, rfl⟩

/-! ## Documents -/

/-- **What is read** is the payload of a document that passes every check. -/
theorem ofJson_eq_ok : ofJson v = .ok p ↔ ∃ fields nodes edges ns es, v = .object fields ∧
    field? "nodes" fields = some (.array nodes) ∧ field? "edges" fields = some (.array edges) ∧
    (field? "schemaVersion" fields).bind natural? = some schemaVersion ∧
    List.Forall₂ (fun v n => nodeOf v = .ok n) nodes ns ∧
    List.Forall₂ (fun v e => edgeOf v = .ok e) edges es ∧
    p = sort { nodes := ns, edges := es } ∧ p.problem? = none := by
  unfold ofJson
  simp only [bind_eq_ok, pure_eq_ok, require_eq_ok, mapM_eq_ok, checkVersion_eq_ok,
    Option.bind_eq_some_iff, object?_eq_some, array?_eq_some]
  constructor
  · rintro ⟨fields, hv, nodes, ⟨_, hnodes, rfl⟩, edges, ⟨_, hedges, rfl⟩, _, hversion, ns, hns, es, hes,
      _, hvalid, rfl⟩
    exact ⟨fields, nodes, edges, ns, es, hv, hnodes, hedges, hversion, hns, hes, rfl,
      validate_eq_ok.1 hvalid⟩
  · rintro ⟨fields, nodes, edges, ns, es, hv, hnodes, hedges, hversion, hns, hes, rfl, hvalid⟩
    exact ⟨fields, hv, nodes, ⟨_, hnodes, rfl⟩, edges, ⟨_, hedges, rfl⟩, (), hversion, ns, hns, es, hes,
      (), validate_eq_ok.2 hvalid, rfl⟩

theorem deserialize_eq_ok {text : String} :
    deserialize text = .ok p ↔ ∃ v, parse? text = some v ∧ ofJson v = .ok p := by
  unfold deserialize
  simp only [bind_eq_ok, require_eq_ok]

theorem problem?_of_deserialize {text : String} (h : deserialize text = .ok p) : p.problem? = none := by
  obtain ⟨v, -, hv⟩ := deserialize_eq_ok.1 h
  obtain ⟨_, _, _, _, _, -, -, -, -, -, -, -, hvalid⟩ := ofJson_eq_ok.1 hv
  exact hvalid

end Pedalboard.Payload
