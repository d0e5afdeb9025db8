import Mathlib
import Pedalboard.Preset.Basic
import Pedalboard.Proofs.Json.Documents
import Pedalboard.Proofs.Keyed
import Pedalboard.Proofs.Store.Graph

/-!
# Presets that are stored and loaded

**Names** (`trimmed_trimmed`). Trimming a name once is enough, and what is left of a name is empty
exactly if the name is blank.

**Records** (`Preset.reads_record`). Every preset is read as it was written, if its times have 64
bits: names and graphs are strings like any other, whatever stands in them.

**Lists** (`Preset.Storable.loaded_insert`). A list that is stored is loaded as it is, if it is no
longer than a list of presets can be.
-/

namespace Pedalboard

/-! ## Names -/

theorem trimWhiteSpace_eq (cs : List Char) :
    trimWhiteSpace cs = (cs.dropWhile isWhiteSpace).rdropWhile isWhiteSpace := rfl

/-- What is trimmed at the end still starts with no white space. -/
theorem dropWhile_trimWhiteSpace (cs : List Char) :
    (trimWhiteSpace cs).dropWhile isWhiteSpace = trimWhiteSpace cs := by
  cases htrim : trimWhiteSpace cs with
  | nil => rfl
  | cons c rest =>
    have hprefix : c :: rest <+: cs.dropWhile isWhiteSpace := htrim ▸ List.rdropWhile_prefix _ _
    obtain ⟨tail, htail⟩ := hprefix
    have hhead : isWhiteSpace c = false := by
      have hne : cs.dropWhile isWhiteSpace ≠ [] := htail ▸ List.cons_ne_nil _ _
      have hfirst := List.head_dropWhile_not isWhiteSpace hne
      simpa [← htail] using hfirst
    rw [List.dropWhile_cons_of_neg (by simp [hhead])]

theorem trimmed_trimmed (text : String) : trimmed (trimmed text) = trimmed text := by
  have hidem : trimWhiteSpace (trimWhiteSpace text.toList) = trimWhiteSpace text.toList := by
    rw [trimWhiteSpace_eq (trimWhiteSpace text.toList), dropWhile_trimWhiteSpace, trimWhiteSpace_eq,
      List.rdropWhile_idempotent]
  rw [trimmed, trimmed, String.toList_ofList, hidem]

/-- **A name is blank** exactly if trimming leaves nothing of it. -/
theorem trimmed_eq_empty_iff {text : String} : trimmed text = "" ↔ onlyWhiteSpace text := by
  rw [trimmed, ← String.toList_inj, String.toList_ofList, trimWhiteSpace_eq, onlyWhiteSpace,
    List.all_eq_true]
  change List.rdropWhile _ _ = [] ↔ _
  rw [List.rdropWhile_eq_nil_iff, ← List.dropWhile_eq_nil_iff, List.dropWhile_idempotent,
    List.dropWhile_eq_nil_iff]

namespace Preset

open Json

/-! ## Records -/

/-- The times of a preset have 64 bits. -/
def Timed (p : Preset) : Prop := p.createdAt < naturalBound ∧ p.updatedAt < naturalBound

/-- **A record is read back.** -/
theorem reads_record {k : Nat} {p : Preset} (hp : p.Timed) :
    ∃ w, Reads (k + 1) (compactText p.toJson) w ∧ ofJson? w = some p := by
  let fields : List (String × Json) := [("id", .string p.id), ("name", .string p.name),
    ("createdAt", .natural p.createdAt), ("updatedAt", .natural p.updatedAt),
    ("graphPayload", .string p.graph)]
  have hlookup : ∀ key, field? key (Keyed.ofList fields).entries = fields.lookup key :=
    Keyed.lookup_ofList (by simp [fields])
  refine ⟨.object (Keyed.ofList fields).entries, reads_compact_object ?_, ?_⟩
  · exact .cons ⟨rfl, reads_string _ _⟩ <| .cons ⟨rfl, reads_string _ _⟩ <|
      .cons ⟨rfl, reads_natural hp.1 k⟩ <| .cons ⟨rfl, reads_natural hp.2 k⟩ <|
      .cons ⟨rfl, reads_string _ _⟩ .nil
  · simp only [ofJson?, hlookup]
    simp [fields, lookup_cons_ite, ofValues?, string?, natural?, natural]

theorem filterMap_eq {α β : Type} {f : β → Option α} {as : List α} {bs : List β}
    (h : List.Forall₂ (fun a b => f b = some a) as bs) : bs.filterMap f = as := by
  induction h with
  | nil => rfl
  | cons hb _ ih => rw [List.filterMap_cons_some hb, ih]

/-- The text under which a list is stored. -/
def text (presets : List Preset) : String :=
  (Json.array ((presets.take maxPresets).map toJson)).compact

/-- **A list is read back.** -/
theorem ofText_text {presets : List Preset} (hfits : presets.length ≤ maxPresets)
    (htimed : ∀ p ∈ presets, p.Timed) : ofText (text presets) = presets := by
  obtain ⟨records, hrecords⟩ := exists_forall₂ fun p hp => reads_record (k := 125) (htimed p hp)
  have hread : Reads maxNesting (compactText (.array (presets.map toJson))) (.array records) :=
    reads_compact_array (List.forall₂_map_left_iff.2 (hrecords.imp fun _ _ h => h.1))
  rw [ofText, text, List.take_of_length_le hfits, parse?_compact hread]
  simp only [filterMap_eq (hrecords.imp fun _ _ h => h.2), List.take_of_length_le hfits]

/-! ## The list in memory -/

/-- The list that is loaded from a memory. -/
def loaded (memory : Memory) : List Preset := ((load Store.memory).run memory).1

theorem run_load (memory : Memory) :
    (load Store.memory).run memory = (((memory.get? presetsKey).map ofText).getD [], memory) := by
  rw [load, StateT.run_bind, Store.run_get]
  cases memory.get? presetsKey <;> rfl

theorem loaded_eq (memory : Memory) :
    loaded memory = ((memory.get? presetsKey).map ofText).getD [] := by
  rw [loaded, run_load]

/-- A list that can be stored without a loss. -/
structure Storable (presets : List Preset) : Prop where
  fits : presets.length ≤ maxPresets
  timed : ∀ p ∈ presets, p.Timed

/-- **A list that is stored is loaded.** -/
theorem Storable.loaded_insert {presets : List Preset} (h : Storable presets) (memory : Memory) :
    loaded (memory.insert presetsKey (text presets)) = presets := by
  rw [loaded_eq, Keyed.get?_insert, if_pos rfl]
  exact ofText_text h.fits h.timed

end Preset

end Pedalboard
