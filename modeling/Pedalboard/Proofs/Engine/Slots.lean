import Mathlib
import Pedalboard.Engine.Slots
import Pedalboard.Proofs.Keyed

/-!
# What reaches the engine

**Readings.** The slots of a kind are computed from the values of its own controls
(`ofReadings_congr`), and each control is found under its key (`control?_key`). So no key that is
read is unknown to the schema.

**Two runs.** Two maps of parameters that resolve alike on the controls of a kind are the same to
the engine, whatever else they hold (`ofParams_congr`).

**Theorem (`ofParams_law`).** Parameters reach the engine through the schema only: other keys do not,
and a value that is missing, not finite or out of range counts as the default of its control.
-/

namespace Pedalboard

variable {kind : Kind} {c : Control}

/-! ## Controls -/

theorem Kind.keys_nodup (kind : Kind) : (kind.controls.map (·.key)).Nodup := by
  cases kind <;> decide

/-- A control is found under its key. -/
theorem Kind.control?_key (h : c ∈ kind.controls) : kind.control? c.key = some c := by
  obtain ⟨d, hd⟩ : ∃ d, kind.controls.find? (·.key = c.key) = some d :=
    Option.isSome_iff_exists.1 (List.find?_isSome.2 ⟨c, h, decide_eq_true rfl⟩)
  have hkey : d.key = c.key := by simpa using List.find?_some hd
  rw [Kind.control?, hd,
    List.inj_on_of_nodup_map kind.keys_nodup (List.mem_of_find?_eq_some hd) h hkey]

/-- **A key of the schema always resolves.** -/
theorem Kind.resolve?_key (h : c ∈ kind.controls) (params : Keyed Single) :
    kind.resolve? params c.key = some (c.resolve (params.get? c.key)) := by
  rw [Kind.resolve?, Kind.control?_key h, Option.map_some]

theorem Control.accepts_eq_false {x : Single}
    (h : x.isFinite = false ∨ x < c.least ∨ c.greatest < x) : c.accepts x = false := by
  have hlt : ∀ a b : Single, a < b → ¬ b ≤ a := by
    intro a b hab hba
    change a.lt b = true at hab
    change b.le a = true at hba
    simp only [Binary.lt, Binary.le, Bool.and_eq_true, decide_eq_true_eq] at hab hba
    omega
  rcases h with hfinite | hlow | hhigh
  · simp [Control.accepts, hfinite]
  · simp [Control.accepts, hlt _ _ hlow]
  · simp [Control.accepts, hlt _ _ hhigh]

/-- What is not accepted resolves as the default does. -/
theorem Control.resolve_eq_default {raw : Option Single}
    (h : ∀ x, raw = some x → c.accepts x = false) : c.resolve raw = c.default := by
  cases raw with
  | none => rfl
  | some x => simp [Control.resolve, h x rfl]

theorem Control.resolve_default (c : Control) : c.resolve (some c.default) = c.default := by
  simp [Control.resolve]

/-- The number of slots that a kind fills; the others are zero. -/
def Kind.filledSlots : Kind → Nat
  | .input | .output => 1
  | .chorus | .compressor | .delay | .reverb => 3
  | .filter => 4
  | .distortion | .eq => 5

namespace Slots

/-! ## Readings -/

theorem getElem_ofList {xs : List Single} {i : Nat} (hi : i < slotCount) (h : xs.length ≤ i) :
    (ofList xs)[i] = 0 := by
  rw [ofList, Vector.getElem_ofFn, List.getElem?_eq_none h, Option.getD_none]

/-- **Only the controls of a kind are read.** -/
theorem ofReadings_congr {get get' : String → Single}
    (h : ∀ c ∈ kind.controls, get c.key = get' c.key) : ofReadings kind get = ofReadings kind get' := by
  cases kind <;>
    simp only [Kind.controls, List.forall_mem_cons, List.not_mem_nil, false_implies, implies_true,
      and_true] at h <;>
    simp only [ofReadings, h]

theorem getElem_ofReadings (get : String → Single) {i : Nat} (hi : i < slotCount)
    (h : kind.filledSlots ≤ i) : (ofReadings kind get)[i] = 0 := by
  cases kind <;> exact getElem_ofList hi h

/-! ## Parameters -/

/-- The slots are those of the resolved values, whatever is read under other keys. -/
theorem ofParams_eq {params : Keyed Single} {get : String → Single}
    (h : ∀ c ∈ kind.controls, get c.key = c.resolve (params.get? c.key)) :
    ofReadings kind get = ofParams kind params := by
  refine ofReadings_congr fun c hc => ?_
  rw [h c hc, Kind.resolve?_key hc, Option.getD_some]

/-- **Parameters that resolve alike are the same to the engine.** -/
theorem ofParams_congr {params other : Keyed Single}
    (h : ∀ c ∈ kind.controls, kind.resolve? params c.key = kind.resolve? other c.key) :
    ofParams kind params = ofParams kind other :=
  ofReadings_congr fun c hc => by rw [h c hc]

/-- **The engine sees parameters through the schema.** For every kind and all parameters: parameters
that resolve alike on the controls of the kind give the same slots, bit for bit, and so do parameters
that have the same values there, whatever they hold under other keys; a value that is missing, not
finite or out of range counts as the default of its control; the slots are computed from the resolved
values of the controls and from nothing else, so nothing ever stands in for a key that is not known;
and the slots that the kind does not fill are zero. -/
theorem ofParams_law (kind : Kind) (params : Keyed Single) :
    (∀ other : Keyed Single,
      (∀ c ∈ kind.controls, kind.resolve? params c.key = kind.resolve? other c.key) →
      ofParams kind params = ofParams kind other) ∧
    (∀ other : Keyed Single, (∀ c ∈ kind.controls, params.get? c.key = other.get? c.key) →
      ofParams kind params = ofParams kind other) ∧
    (∀ c ∈ kind.controls, (∀ x, params.get? c.key = some x →
        x.isFinite = false ∨ x < c.least ∨ c.greatest < x) →
      ofParams kind params = ofParams kind (params.insert c.key c.default)) ∧
    (∀ get : String → Single, (∀ c ∈ kind.controls, get c.key = c.resolve (params.get? c.key)) →
      ofReadings kind get = ofParams kind params) ∧
    ∀ i (hi : i < slotCount), kind.filledSlots ≤ i → (ofParams kind params)[i] = 0 := by
  refine ⟨fun other h => ofParams_congr h, fun other h => ofParams_congr fun c hc => ?_,
    fun c hc hrefused => ofParams_congr fun d hd => ?_, fun get h => ofParams_eq h,
    fun i hi h => getElem_ofReadings _ hi h⟩
  · rw [Kind.resolve?_key hc, Kind.resolve?_key hc, h c hc]
  · rw [Kind.resolve?_key hd, Kind.resolve?_key hd, Keyed.get?_insert]
    split
    case isFalse => rfl
    case isTrue hkey =>
      obtain rfl := List.inj_on_of_nodup_map kind.keys_nodup hd hc hkey
      rw [Control.resolve_default,
        Control.resolve_eq_default fun x hx => Control.accepts_eq_false (hrefused x hx)]

/-- Parameters of a delay: a time out of range, a mix that is no number, a key that no delay has. -/
def wildParams : Keyed Single := .ofList [("time", 99999), ("mix", .nan), ("warmth", 3)]

theorem ofParams_law_wildParams :
    wildParams ≠ .empty ∧ ofParams .delay wildParams = ofParams .delay .empty := by
  obtain ⟨hresolved, -⟩ := ofParams_law .delay wildParams
  exact ⟨by decide, hresolved .empty (by decide)⟩

end Slots

end Pedalboard
