import Mathlib
import Pedalboard.Proofs.Graph.Invariant
import Pedalboard.Proofs.Toml.Fields

/-!
# Settings that are written and read

**Fields** (`fields`). The text of settings is a document of fields: the limits and, if there is one, the
directory.

**Theorem (`settings_law`).** Settings whose limits fit are written, whatever their directory is called,
and read back clamped. Clamped settings fit and are clamped already, so they are read back as they are.
Limits that do not fit are refused.
-/

namespace Pedalboard.Settings

variable {s : Settings}

/-- The fields of the text of settings. -/
def fields (s : Settings) : List Toml.Field :=
  [⟨"node_limit", Nat.toDigits 10 s.nodeLimit, .integer s.nodeLimit⟩,
    ⟨"history_limit", Nat.toDigits 10 s.historyLimit, .integer s.historyLimit⟩] ++
  s.stateDir.toList.map fun path => ⟨"state_dir", Toml.quote path.toList, .string path⟩

theorem lines_eq (s : Settings) : s.lines = s.fields.flatMap Toml.Field.line := by
  cases hdir : s.stateDir <;> simp [lines, fields, hdir, Toml.Field.line]

theorem bare_keys :
    Toml.IsBare "node_limit" ∧ Toml.IsBare "history_limit" ∧ Toml.IsBare "state_dir" :=
  ⟨⟨by simp, by simp [Toml.isBareKeyChar]⟩, ⟨by simp, by simp [Toml.isBareKeyChar]⟩,
    ⟨by simp, by simp [Toml.isBareKeyChar]⟩⟩

theorem proper_fields (hnode : s.nodeLimit < integerBound) (hhistory : s.historyLimit < integerBound) :
    ∀ f ∈ s.fields, f.Proper := by
  obtain ⟨hnodeKey, hhistoryKey, hdirKey⟩ := bare_keys
  intro f hf
  obtain hf | hf := List.mem_append.1 hf
  · obtain rfl | rfl := List.mem_pair.1 hf
    · exact ⟨hnodeKey, Toml.readsValue_toDigits hnode⟩
    · exact ⟨hhistoryKey, Toml.readsValue_toDigits hhistory⟩
  · obtain ⟨path, -, rfl⟩ := List.mem_map.1 hf
    refine ⟨hdirKey, ?_⟩
    have hread := Toml.readsValue_quote path.toList
    rwa [String.ofList_toList] at hread

theorem nodup_fields (s : Settings) : (s.fields.map (·.key)).Nodup := by
  cases hdir : s.stateDir <;> simp [fields, hdir]

theorem ofFields?_fields (s : Settings) : ofFields? (s.fields.map Toml.Field.read) = some s := by
  obtain ⟨nodeLimit, historyLimit, stateDir⟩ := s
  cases stateDir <;> simp [ofFields?, fields, Toml.Field.read, limitField, pathField, lookup_cons_ite]

/-- **Settings whose limits fit** are written and read back clamped. -/
theorem parse_print (hnode : s.nodeLimit < integerBound) (hhistory : s.historyLimit < integerBound) :
    ∃ text, s.print = .ok text ∧ parse text = .ok s.clamped := by
  refine ⟨String.ofList s.lines, if_neg (by omega), ?_⟩
  have hread := Toml.parse?_fields (proper_fields hnode hhistory) (nodup_fields s)
  rw [parse, lines_eq, hread, Option.bind_some, ofFields?_fields]

theorem clamped_clamped (s : Settings) : s.clamped.clamped = s.clamped := by
  have hnode : clampNodeLimit (clampNodeLimit s.nodeLimit) = clampNodeLimit s.nodeLimit := by
    simp only [clampNodeLimit]
    omega
  simp [clamped, hnode]

theorem clamped_fits (h : s.historyLimit < integerBound) :
    s.clamped.nodeLimit < integerBound ∧ s.clamped.historyLimit < integerBound := by
  have hnode := State.clamp_le_maxNodeLimit s.nodeLimit
  simp only [clamped, maxNodeLimit, integerBound] at *
  omega

/-- **Settings survive being written and read.** -/
theorem settings_law (s : Settings) :
    (s.nodeLimit ≤ 2 ^ 63 - 1 ∧ s.historyLimit ≤ 2 ^ 63 - 1 →
      (∃ text, s.print = .ok text ∧ parse text = .ok s.clamped) ∧
      ∃ text, s.clamped.print = .ok text ∧ parse text = .ok s.clamped) ∧
    s.clamped.clamped = s.clamped ∧
    (2 ^ 63 - 1 < s.nodeLimit ∨ 2 ^ 63 - 1 < s.historyLimit → s.print = .error .integerTooLarge) := by
  have hbound : integerBound = 2 ^ 63 := rfl
  refine ⟨fun ⟨hnode, hhistory⟩ => ⟨?_, ?_⟩, clamped_clamped s, fun hlarge => ?_⟩
  · exact parse_print (by omega) (by omega)
  · obtain ⟨hnode', hhistory'⟩ := clamped_fits (s := s) (by omega)
    have hread := parse_print hnode' hhistory'
    rwa [clamped_clamped] at hread
  · exact if_pos (by omega)

/-- A directory with both quotes, three in a row, a backslash, a break and a control character, and
limits out of range on either side. -/
theorem settings_law_quotedDir :
    (∃ text, print ⟨3, 0, some "a\"\"\"'b\\\n\u0001"⟩ = .ok text ∧
      parse text = .ok ⟨8, 1, some "a\"\"\"'b\\\n\u0001"⟩) ∧
    print ⟨8, 2 ^ 63, none⟩ = .error .integerTooLarge :=
  ⟨((settings_law ⟨3, 0, some "a\"\"\"'b\\\n\u0001"⟩).1 (by decide)).1,
    (settings_law ⟨8, 2 ^ 63, none⟩).2.2 (by decide)⟩

end Pedalboard.Settings
