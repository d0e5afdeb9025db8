import Mathlib
import Pedalboard.Proofs.Json.Documents
import Pedalboard.Proofs.Keyed

/-!
# Documents that are indented

**Texts** (`reads_pretty_array`, `reads_pretty_object`). An indented array or object is read if its items
are. It differs from a compact one in the blanks between its items, and stands closed if it has none.

**Theorem (`carries_indented`).** A document that is written compactly, read, indented and read again comes
out with the same strings, in the same shape, and with numbers that round to the same singles, so this is
a way to carry documents.
-/

namespace Pedalboard.Json

variable {n level : Nat}

/-! ## Items on lines of their own -/

/-- Texts with commas between, blanks before each and further ones after the last. -/
def spread (before after : List Char) : List (List Char) → List Char
  | [] => []
  | [t] => before ++ (t ++ after)
  | t :: ts => before ++ (t ++ ',' :: spread before after ts)

theorem spread_cons_cons (before after t u : List Char) (ts : List (List Char)) :
    spread before after (t :: u :: ts) = before ++ (t ++ ',' :: spread before after (u :: ts)) := rfl

theorem isBlank_newline (level : Nat) : IsBlank (newline level) := by
  intro c hc
  obtain rfl | hc := List.mem_cons.1 hc
  · rfl
  · obtain rfl := List.eq_of_mem_replicate hc
    rfl

theorem listed_spread {α : Type} {Item : α → List Char → Prop} {before after : List Char}
    (hbefore : IsBlank before) (hafter : IsBlank after) {texts : List (List Char)} {xs : List α}
    (h : List.Forall₂ (fun t x => Item x t) texts xs) (hne : texts ≠ []) :
    Listed Item xs (spread before after texts) := by
  induction h with
  | nil => exact absurd rfl hne
  | @cons t x ts xs ht hts ih =>
    cases hts with
    | nil => exact .last hbefore ht hafter
    | @cons u y us ys _ _ =>
      rw [spread_cons_cons]
      exact .cons hbefore ht isBlank_nil (ih (List.cons_ne_nil u us))

theorem prettyItems_eq {vs : List Json} (hne : vs ≠ []) (after : List Char) :
    prettyItems level vs ++ after = spread (newline level) after (vs.map (prettyText level)) := by
  induction vs with
  | nil => exact absurd rfl hne
  | cons v vs ih =>
    cases vs with
    | nil => simp [prettyItems, spread]
    | cons w ws =>
      have hrest := ih (List.cons_ne_nil w ws)
      rw [List.map_cons, List.map_cons, spread_cons_cons, ← List.map_cons, ← hrest, prettyItems]
      · simp
      · simp

/-- A field on a line of its own. -/
def prettyField (level : Nat) (f : String × Json) : List Char :=
  stringText f.1 ++ ':' :: ' ' :: prettyText level f.2

theorem prettyFields_eq {fs : List (String × Json)} (hne : fs ≠ []) (after : List Char) :
    prettyFields level fs ++ after = spread (newline level) after (fs.map (prettyField level)) := by
  induction fs with
  | nil => exact absurd rfl hne
  | cons f fs ih =>
    obtain ⟨k, v⟩ := f
    cases fs with
    | nil => simp [prettyFields, spread, prettyField]
    | cons g gs =>
      have hrest := ih (List.cons_ne_nil g gs)
      rw [List.map_cons, List.map_cons, spread_cons_cons, ← List.map_cons, ← hrest, prettyFields]
      · simp [prettyField]
      · simp

/-! ## Containers -/

/-- **An indented array is read** as the list of what its items are read as. -/
theorem reads_pretty_array {vs ws : List Json}
    (h : List.Forall₂ (fun v w => Reads n (prettyText (level + 1) v) w) vs ws) :
    Reads (n + 1) (prettyText level (.array vs)) (.array ws) := by
  cases vs with
  | nil =>
    cases h
    rw [prettyText]
    exact reads_array (.empty isBlank_nil)
  | cons v vs =>
    have hne : v :: vs ≠ [] := List.cons_ne_nil v vs
    rw [prettyText, List.cons_append, List.cons_append, prettyItems_eq hne]
    · refine reads_array (.listed (listed_spread (isBlank_newline _) (isBlank_newline _) ?_ (by simp)))
      exact List.forall₂_map_left_iff.2 h
    · exact hne

/-- **An indented object is read** with its fields in the order of their keys. -/
theorem reads_pretty_object {fs gs : List (String × Json)}
    (h : List.Forall₂ (fun f g => f.1 = g.1 ∧ Reads n (prettyText (level + 1) f.2) g.2) fs gs) :
    Reads (n + 1) (prettyText level (.object fs)) (.object (Keyed.ofList gs).entries) := by
  cases fs with
  | nil =>
    cases h
    rw [prettyText]
    exact reads_object (.empty isBlank_nil)
  | cons f fs =>
    have hne : f :: fs ≠ [] := List.cons_ne_nil f fs
    rw [prettyText, List.cons_append, List.cons_append, prettyFields_eq hne]
    · refine reads_object (.listed (listed_spread (isBlank_newline _) (isBlank_newline _) ?_ (by simp)))
      refine List.forall₂_map_left_iff.2 (h.imp fun f g hfg => ?_)
      obtain ⟨k, v⟩ := f
      obtain ⟨k', w⟩ := g
      obtain ⟨rfl, hvalue⟩ := hfg
      exact ⟨_, [], [' '], _, spellsString_stringText k, isBlank_nil, by simp [IsBlank, isBlank], hvalue, rfl⟩
    · exact hne

/-! ## Documents that are indented -/

/-- A document is written compactly and read, and what is read is read again from an indented text. -/
def ReadsIndented (n : Nat) (v w : Json) : Prop :=
  ∃ u, Reads n (compactText v) u ∧ ∀ level, Reads n (prettyText level u) w

/-- A number that is read from its text is read from an indented one, too. -/
theorem readsIndented_number {a b c : Number} (hab : ReadsAs a b) (hbc : ReadsAs b c) (n : Nat) :
    ReadsIndented n (.number a) (.number c) := by
  refine ⟨.number b, ?_, fun level => ?_⟩
  · rw [compactText]
    exact reads_number hab n
  · rw [prettyText]
    exact reads_number hbc n

/-- Finite singles keep their value, and others are no numbers at all. -/
theorem readsIndented_single (x : Single) : ∃ w, (∀ n, ReadsIndented n (.single x) w) ∧
    ∀ y, w.finiteSingle? = some y ↔ x.isFinite ∧ y = x := by
  by_cases hx : x.isFinite
  · obtain ⟨y, z, hread, -, hagain, hz⟩ := readsAs_twice hx
    refine ⟨.number (.double z), readsIndented_number hread hagain, fun z' => ?_⟩
    rw [finiteSingle?, double?, Option.bind_some, hz, if_pos hx]
    simp [hx, eq_comm]
  · refine ⟨.null, fun n => ⟨.null, ?_, fun level => ?_⟩, fun y => by simp [finiteSingle?, double?, hx]⟩
    · rw [Json.single, compactText, numberText, if_neg hx]
      exact reads_null n
    · rw [prettyText]
      exact reads_null n

/-- The document in the middle is taken off every item. -/
theorem exists_middle {α β γ : Type} {P : α → β → Prop} {Q : β → γ → Prop} {as : List α} {cs : List γ}
    (h : List.Forall₂ (fun a c => ∃ b, P a b ∧ Q b c) as cs) :
    ∃ bs, List.Forall₂ P as bs ∧ List.Forall₂ Q bs cs := by
  induction h with
  | nil => exact ⟨[], .nil, .nil⟩
  | cons hac _ ih =>
    obtain ⟨b, hab, hbc⟩ := hac
    obtain ⟨bs, habs, hbcs⟩ := ih
    exact ⟨b :: bs, .cons hab habs, .cons hbc hbcs⟩

theorem readsIndented_array {vs ws : List Json} (h : List.Forall₂ (ReadsIndented n) vs ws) :
    ReadsIndented (n + 1) (.array vs) (.array ws) := by
  obtain ⟨us, hvs, hws⟩ := exists_middle h
  exact ⟨.array us, reads_compact_array hvs, fun level => reads_pretty_array (hws.imp fun _ _ h => h _)⟩

/-- The document in the middle has its fields in the order of their keys already. -/
theorem readsIndented_object {fs gs : List (String × Json)}
    (h : List.Forall₂ (fun f g => f.1 = g.1 ∧ ReadsIndented n f.2 g.2) fs gs) :
    ReadsIndented (n + 1) (.object fs) (.object (Keyed.ofList gs).entries) := by
  have hmiddle : List.Forall₂ (fun f g : String × Json => ∃ e : String × Json,
      (f.1 = e.1 ∧ Reads n (compactText f.2) e.2) ∧
      (e.1 = g.1 ∧ ∀ level, Reads n (prettyText level e.2) g.2)) fs gs := by
    refine h.imp fun f g hfg => ?_
    obtain ⟨hkey, u, hread, hagain⟩ := hfg
    exact ⟨(f.1, u), ⟨rfl, hread⟩, hkey, hagain⟩
  obtain ⟨es, hfs, hgs⟩ := exists_middle hmiddle
  refine ⟨.object (Keyed.ofList es).entries, reads_compact_object hfs, fun level => ?_⟩
  have hlevel : List.Forall₂ (fun e g => e.1 = g.1 ∧ Reads n (prettyText (level + 1) e.2) g.2) es gs :=
    hgs.imp fun e g heg => ⟨heg.1, heg.2 (level + 1)⟩
  have hordered := Keyed.forall₂_ofList (R := fun v w => Reads n (prettyText (level + 1) v) w) hlevel
  have hread := reads_pretty_object hordered
  rwa [Keyed.ofList_entries] at hread

/-- **Documents are carried by indented texts.** -/
theorem carries_indented : Carries ReadsIndented where
  string n s := by
    refine ⟨.string s, ?_, fun level => ?_⟩
    · rw [compactText]
      exact reads_string n s
    · rw [prettyText]
      exact reads_string n s
  bool n b := by
    refine ⟨.bool b, reads_bool n b, fun level => ?_⟩
    have htext : prettyText level (.bool b) = compactText (.bool b) := by
      cases b <;> rw [prettyText, compactText]
    rw [htext]
    exact reads_bool n b
  natural n k hk := by
    have hread : ReadsAs (.integer k) (.integer k) := readsAs_integer (by omega) (by exact_mod_cast hk)
    exact readsIndented_number hread hread n
  single := readsIndented_single
  array := readsIndented_array
  object := readsIndented_object

end Pedalboard.Json
