import Mathlib
import Pedalboard.Keyed

/-!
# Maps kept in the order of their keys

**Look-ups** (`Keyed.get?_insert`, `Keyed.get?_erase`). An insertion changes the look-up of its key and
of no other, and so does a removal.

**Lists of entries** (`Keyed.ofList`). Of the entries with one key the last is found again, so entries
with different keys are all found, in whatever order they stand (`Keyed.entries_ofList_of_perm`).
Entries that increase already are kept as they stand, and what relates two lists of entries relates
their maps (`Keyed.forall₂_ofList`).
-/

namespace Pedalboard

variable {α : Type}

theorem lookup_cons_ite (k key : String) (value : α) (rest : List (String × α)) :
    ((key, value) :: rest).lookup k = if k = key then some value else rest.lookup k := by
  rw [List.lookup_cons]
  split_ifs with h
  · simp [h]
  · simp [beq_eq_false_iff_ne.2 h]

/-- Among entries with different keys, a key leads to the entry that has it. -/
theorem lookup_eq_some_iff {entries : List (String × α)} (h : (entries.map (·.1)).Nodup) {k : String}
    {v : α} : entries.lookup k = some v ↔ (k, v) ∈ entries := by
  induction entries with
  | nil => simp
  | cons e rest ih =>
    obtain ⟨key, value⟩ := e
    obtain ⟨hkey, hrest⟩ := List.nodup_cons.1 h
    rw [lookup_cons_ite, List.mem_cons]
    by_cases hk : k = key
    · subst hk
      have hnot : (k, v) ∉ rest := fun hmem => hkey (List.mem_map.2 ⟨_, hmem, rfl⟩)
      simp [hnot, eq_comm]
    · simp [hk, ih hrest]

/-- The order of entries with different keys does not matter. -/
theorem lookup_eq_of_perm {es fs : List (String × α)} (h : es.Perm fs) (hkeys : (fs.map (·.1)).Nodup)
    (k : String) : es.lookup k = fs.lookup k := by
  have hkeys' : (es.map (·.1)).Nodup := (h.map _).nodup_iff.2 hkeys
  refine Option.ext fun v => ?_
  rw [lookup_eq_some_iff hkeys', lookup_eq_some_iff hkeys, h.mem_iff]

/-- Only the entries with a key matter for its look-up. -/
theorem lookup_filter (entries : List (String × α)) (k : String) :
    (entries.filter (·.1 = k)).lookup k = entries.lookup k := by
  induction entries with
  | nil => rfl
  | cons e rest ih =>
    obtain ⟨key, value⟩ := e
    by_cases h : key = k
    · simp [h]
    · simp [h, ih, lookup_cons_ite, Ne.symm h]

theorem lookup_filter_ne (entries : List (String × α)) (key k : String) :
    (entries.filter (·.1 ≠ key)).lookup k = if k = key then none else entries.lookup k := by
  induction entries with
  | nil => simp
  | cons e rest ih =>
    obtain ⟨key', value⟩ := e
    by_cases hkey : key' = key
    · rw [List.filter_cons_of_neg (by simpa using hkey), ih, lookup_cons_ite, hkey]
      split_ifs <;> rfl
    · rw [List.filter_cons_of_pos (by simpa using hkey), lookup_cons_ite, lookup_cons_ite, ih]
      by_cases hk : k = key'
      · simp [hk, hkey]
      · simp [hk]

theorem lookup_map {β : Type} (f : α → β) (entries : List (String × α)) (k : String) :
    (entries.map fun e => (e.1, f e.2)).lookup k = (entries.lookup k).map f := by
  induction entries with
  | nil => rfl
  | cons e rest ih =>
    obtain ⟨key, value⟩ := e
    rw [List.map_cons, lookup_cons_ite, lookup_cons_ite, ih]
    by_cases h : k = key <;> simp [h]

/-- Related entries have related look-ups. -/
theorem lookup_rel {β : Type} {R : α → β → Prop} {es : List (String × α)} {fs : List (String × β)}
    (h : List.Forall₂ (fun e f => e.1 = f.1 ∧ R e.2 f.2) es fs) (k : String) :
    Option.Rel R (es.lookup k) (fs.lookup k) := by
  induction h with
  | nil => exact .none
  | @cons e f _ _ hef _ ih =>
    obtain ⟨key, v⟩ := e
    obtain ⟨key', w⟩ := f
    obtain ⟨rfl, hvw⟩ := hef
    rw [lookup_cons_ite, lookup_cons_ite]
    by_cases hk : k = key
    · simpa [hk] using Option.Rel.some hvw
    · simpa [hk] using ih

namespace Increasing

theorem keys_nodup {entries : List (String × α)} (h : Increasing entries) :
    (entries.map (·.1)).Nodup := by
  have hlt : (entries.map (·.1)).Pairwise (· < ·) := List.pairwise_map.2 h
  exact hlt.imp ne_of_lt

/-- **Entries in the order of their keys are determined by their look-ups.** -/
theorem eq_of_lookup_eq {es fs : List (String × α)} (hes : Increasing es) (hfs : Increasing fs)
    (h : ∀ k, es.lookup k = fs.lookup k) : es = fs := by
  have hmem : ∀ e, e ∈ es ↔ e ∈ fs := by
    rintro ⟨k, v⟩
    rw [← lookup_eq_some_iff hes.keys_nodup, h k, lookup_eq_some_iff hfs.keys_nodup]
  have hperm : es.Perm fs :=
    (List.perm_ext_iff_of_nodup (.of_map _ hes.keys_nodup) (.of_map _ hfs.keys_nodup)).2 hmem
  exact hperm.eq_of_pairwise (fun _ _ _ _ hlt hgt => absurd hgt (lt_asymm hlt)) hes hfs

/-- Entries with the keys of increasing ones increase. -/
theorem of_same_keys {β : Type} {es : List (String × α)} {fs : List (String × β)}
    (hes : Increasing es) (h : List.Forall₂ (fun e f => e.1 = f.1) es fs) : Increasing fs := by
  have hkeys : List.Forall₂ (· = ·) (es.map (·.1)) (fs.map (·.1)) :=
    List.forall₂_map_left_iff.2 (List.forall₂_map_right_iff.2 h)
  rw [List.forall₂_eq_eq_eq] at hkeys
  have hsorted : (es.map (·.1)).Pairwise (· < ·) := List.pairwise_map.2 hes
  exact List.pairwise_map.1 (hkeys ▸ hsorted)

theorem lookup_insertInto (key : String) (value : α) (entries : List (String × α)) (k : String) :
    (insertInto key value entries).lookup k = if k = key then some value else entries.lookup k := by
  induction entries with
  | nil => rw [insertInto, lookup_cons_ite]
  | cons e rest ih =>
    obtain ⟨key', value'⟩ := e
    rw [insertInto]
    split
    · rw [lookup_cons_ite]
    · split
      · rename_i heq
        rw [lookup_cons_ite, lookup_cons_ite, ← heq]
        split_ifs <;> rfl
      · rename_i hne
        rw [lookup_cons_ite, lookup_cons_ite, ih]
        split_ifs with h h'
        · exact absurd (h'.symm.trans h) hne
        · rfl
        · rfl
        · rfl

/-- Related entries are inserted at one place. -/
theorem forall₂_insertInto {β : Type} {R : α → β → Prop} {es : List (String × α)}
    {fs : List (String × β)} (h : List.Forall₂ (fun e f => e.1 = f.1 ∧ R e.2 f.2) es fs) (key : String)
    {v : α} {w : β} (hvw : R v w) :
    List.Forall₂ (fun e f => e.1 = f.1 ∧ R e.2 f.2) (insertInto key v es) (insertInto key w fs) := by
  induction h with
  | nil => exact .cons ⟨rfl, hvw⟩ .nil
  | @cons e f es fs hef hrest ih =>
    obtain ⟨k, v'⟩ := e
    obtain ⟨k', w'⟩ := f
    obtain ⟨rfl, hvw'⟩ := hef
    rw [insertInto, insertInto]
    split_ifs with hlt heq
    · exact .cons ⟨rfl, hvw⟩ (.cons ⟨rfl, hvw'⟩ hrest)
    · exact .cons ⟨rfl, hvw⟩ hrest
    · exact .cons ⟨rfl, hvw'⟩ ih

end Increasing

namespace Keyed

/-- **An insertion changes the look-up of its key** and of no other. -/
theorem get?_insert (m : Keyed α) (key : String) (value : α) (k : String) :
    (m.insert key value).get? k = if k = key then some value else m.get? k :=
  Increasing.lookup_insertInto key value m.entries k

/-- **A removal changes the look-up of its key** and of no other. -/
theorem get?_erase (m : Keyed α) (key k : String) :
    (m.erase key).get? k = if k = key then none else m.get? k :=
  lookup_filter_ne m.entries key k

theorem erase_of_get?_eq_none {m : Keyed α} {key : String} (h : m.get? key = none) : m.erase key = m := by
  have hall : ∀ e ∈ m.entries, e.1 ≠ key := by
    intro e he hkey
    rw [get?, List.lookup_eq_none_iff] at h
    simpa [hkey] using h e he
  have hentries : m.entries.filter (·.1 ≠ key) = m.entries :=
    List.filter_eq_self.2 fun e he => decide_eq_true (hall e he)
  obtain ⟨entries, hincreasing⟩ := m
  simp only [erase, hentries]

theorem ofList_append (entries : List (String × α)) (e : String × α) :
    ofList (entries ++ [e]) = (ofList entries).insert e.1 e.2 := by
  rw [ofList, List.foldl_append]
  rfl

/-- **The last entry with a key is found.** -/
theorem lookup_ofList_eq_reverse (entries : List (String × α)) (k : String) :
    (ofList entries).entries.lookup k = entries.reverse.lookup k := by
  induction entries using List.reverseRecOn with
  | nil => rfl
  | append_singleton entries e ih =>
    rw [ofList_append, insert, Increasing.lookup_insertInto, ih, List.reverse_append,
      List.reverse_singleton, List.singleton_append, lookup_cons_ite]

/-- **Entries with different keys are found again.** -/
theorem lookup_ofList {entries : List (String × α)} (h : (entries.map (·.1)).Nodup) (k : String) :
    (ofList entries).entries.lookup k = entries.lookup k :=
  (lookup_ofList_eq_reverse entries k).trans
    (lookup_eq_of_perm (List.reverse_perm entries) h k)

/-- **The order of entries with different keys** does not matter. -/
theorem entries_ofList_congr {es fs : List (String × α)}
    (h : ∀ k, es.filter (·.1 = k) = fs.filter (·.1 = k)) :
    (ofList es).entries = (ofList fs).entries := by
  refine (ofList es).increasing.eq_of_lookup_eq (ofList fs).increasing fun k => ?_
  rw [lookup_ofList_eq_reverse, lookup_ofList_eq_reverse, ← lookup_filter, ← lookup_filter fs.reverse,
    List.filter_reverse, List.filter_reverse, h k]

/-- **Entries with different keys are put in the order of their keys.** -/
theorem entries_ofList_of_perm {es fs : List (String × α)} (h : es.Perm fs) (hfs : Increasing fs) :
    (ofList es).entries = fs := by
  have hkeys : (es.map (·.1)).Nodup := (h.map _).nodup_iff.2 hfs.keys_nodup
  refine (ofList es).increasing.eq_of_lookup_eq hfs fun k => ?_
  rw [lookup_ofList hkeys, lookup_eq_of_perm h hfs.keys_nodup]

/-- **Entries that increase are kept.** -/
theorem entries_ofList {entries : List (String × α)} (h : Increasing entries) :
    (ofList entries).entries = entries := entries_ofList_of_perm (List.Perm.refl entries) h

/-- **Related lists of entries** are put in the same order. -/
theorem forall₂_ofList {β : Type} {R : α → β → Prop} {es : List (String × α)} {fs : List (String × β)}
    (h : List.Forall₂ (fun e f => e.1 = f.1 ∧ R e.2 f.2) es fs) :
    List.Forall₂ (fun e f => e.1 = f.1 ∧ R e.2 f.2) (ofList es).entries (ofList fs).entries := by
  rw [ofList, ofList]
  suffices hfrom : ∀ (m : Keyed α) (m' : Keyed β),
      List.Forall₂ (fun e f => e.1 = f.1 ∧ R e.2 f.2) m.entries m'.entries →
      List.Forall₂ (fun e f => e.1 = f.1 ∧ R e.2 f.2) (es.foldl (fun m e => m.insert e.1 e.2) m).entries
        (fs.foldl (fun m f => m.insert f.1 f.2) m').entries from hfrom empty empty .nil
  induction h with
  | nil => exact fun _ _ hm => hm
  | @cons e f es fs hef _ ih =>
    intro m m' hm
    rw [List.foldl_cons, List.foldl_cons, ← hef.1]
    exact ih _ _ (Increasing.forall₂_insertInto hm e.1 hef.2)

theorem ofList_entries (m : Keyed α) : ofList m.entries = m := by
  obtain ⟨entries, h⟩ := m
  have heq := entries_ofList h
  cases hm : ofList entries
  simp_all

end Keyed

end Pedalboard
