/-!
# Maps kept in the order of their keys

A `Keyed α` is a list of entries whose keys increase strictly, so two maps with the same look-ups
are equal, and listing one shows its keys in order. Keys are compared character by character, by
code point.
-/

namespace Pedalboard

/-- Keys increase strictly from left to right. -/
def Increasing {α : Type} (entries : List (String × α)) : Prop :=
  entries.Pairwise fun a b => a.1 < b.1

namespace Increasing

variable {α : Type}

/-- Adds an entry in its place, or replaces the entry with its key. -/
def insertInto (key : String) (value : α) : List (String × α) → List (String × α)
  | [] => [(key, value)]
  | (k, v) :: rest =>
    if key < k then (key, value) :: (k, v) :: rest
    else if key = k then (key, value) :: rest
    else (k, v) :: insertInto key value rest

theorem mem_insertInto {key : String} {value : α} {e : String × α} :
    ∀ {entries : List (String × α)}, e ∈ insertInto key value entries →
      e = (key, value) ∨ e ∈ entries
  | [], h => by simpa [insertInto] using h
  | (k, v) :: rest, h => by
    unfold insertInto at h
    split at h
    · simpa using h
    · split at h
      · rcases List.mem_cons.1 h with h | h
        · exact .inl h
        · exact .inr (List.mem_cons_of_mem _ h)
      · rcases List.mem_cons.1 h with h | h
        · exact .inr (h ▸ List.mem_cons_self)
        · exact (mem_insertInto h).imp_right (List.mem_cons_of_mem _)

theorem insertInto_increasing (key : String) (value : α) :
    ∀ {entries : List (String × α)}, Increasing entries → Increasing (insertInto key value entries)
  | [], _ => by simp [insertInto, Increasing]
  | (k, v) :: rest, h => by
    obtain ⟨hk, hrest⟩ := List.pairwise_cons.1 h
    unfold insertInto
    split
    case isTrue hlt =>
      refine List.pairwise_cons.2 ⟨fun e he => ?_, h⟩
      rcases List.mem_cons.1 he with rfl | he
      · exact hlt
      · exact String.lt_trans hlt (hk e he)
    case isFalse hlt =>
      split
      case isTrue heq => exact List.pairwise_cons.2 ⟨fun e he => heq ▸ hk e he, hrest⟩
      case isFalse hne =>
        have hgt : k < key := String.not_le.1 fun hle =>
          hne (String.le_antisymm hle (String.not_lt.1 hlt))
        refine List.pairwise_cons.2 ⟨fun e he => ?_, insertInto_increasing key value hrest⟩
        rcases mem_insertInto he with rfl | he
        · exact hgt
        · exact hk e he

end Increasing

/-- A finite map from strings, its entries in the order of their keys. -/
structure Keyed (α : Type) where
  entries : List (String × α)
  increasing : Increasing entries := by exact List.Pairwise.nil

namespace Keyed

variable {α : Type}

instance [DecidableEq α] : DecidableEq (Keyed α) := fun a b =>
  decidable_of_iff (a.entries = b.entries) (by cases a; cases b; simp)

def empty : Keyed α := ⟨[], List.Pairwise.nil⟩

instance : Inhabited (Keyed α) := ⟨empty⟩

def insert (m : Keyed α) (key : String) (value : α) : Keyed α :=
  ⟨Increasing.insertInto key value m.entries, Increasing.insertInto_increasing key value m.increasing⟩

def erase (m : Keyed α) (key : String) : Keyed α :=
  ⟨m.entries.filter (·.1 ≠ key), m.increasing.filter _⟩

def get? (m : Keyed α) (key : String) : Option α := m.entries.lookup key

/-- The map of a list of entries; of a repeated key the last entry counts. -/
def ofList (entries : List (String × α)) : Keyed α :=
  entries.foldl (fun m e => m.insert e.1 e.2) empty

end Keyed

end Pedalboard
