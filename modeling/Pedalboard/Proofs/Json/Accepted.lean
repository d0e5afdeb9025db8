import Mathlib
import Pedalboard.Proofs.Json.Tokens

/-!
# Documents that are accepted

**Readers of items** (`Accepts`). A reader accepts the texts of a rule of the grammar: what it takes
off a text is one of them after blanks, and every one of them is taken off wherever it ends. A list of
such items is then read exactly as the grammar puts it together (`items_eq_some`), and so is a field
(`accepts_member`).

**Values** (`accepts_value`). By induction on the number of containers that can stand inside one
another, a value is read exactly as it is spelled, and what is read is the canonical form of what
stands in the text.

**Theorem (`parse?_eq_some`).** So the reader of documents accepts the documents of the grammar, all of
them and nothing else.
-/

namespace Pedalboard.Json

/-! ## Blanks -/

theorem skipBlanks_append {blanks : List Char} (h : IsBlank blanks) (cs : List Char) :
    skipBlanks (blanks ++ cs) = skipBlanks cs := List.dropWhile_append_of_pos h

theorem skipBlanks_cons {c : Char} (h : isBlank c = false) (cs : List Char) :
    skipBlanks (c :: cs) = c :: cs := by simp [skipBlanks, h]

theorem value_skipBlanks (n : Nat) (cs : List Char) : value n (skipBlanks cs) = value n cs := by
  have hidem : skipBlanks (skipBlanks cs) = skipBlanks cs := List.dropWhile_idempotent _ cs
  cases n <;> rw [value, value, hidem]

theorem value_append {blanks : List Char} (h : IsBlank blanks) (n : Nat) (cs : List Char) :
    value n (blanks ++ cs) = value n cs := by
  rw [← value_skipBlanks, skipBlanks_append h, value_skipBlanks]

theorem stops_blanks {blanks : List Char} (hb : IsBlank blanks) {c : Char}
    (hc : c.isDigit = false ∧ c ≠ '.' ∧ c ≠ 'e' ∧ c ≠ 'E') (cs : List Char) :
    Stops (blanks ++ c :: cs) := by
  cases blanks with
  | nil => exact stops_cons hc cs
  | cons b bs =>
    refine stops_cons ?_ _
    have h := hb b List.mem_cons_self
    simp only [isBlank, Bool.or_eq_true, beq_iff_eq] at h
    rcases h with ((rfl | rfl) | rfl) | rfl <;> decide

theorem exists_blanks (cs : List Char) : ∃ before, IsBlank before ∧ cs = before ++ skipBlanks cs :=
  ⟨cs.takeWhile isBlank, fun _ hc => List.mem_takeWhile_imp hc,
    List.takeWhile_append_dropWhile.symm⟩

theorem isBlank_of_skipBlanks {cs : List Char} (h : skipBlanks cs = []) : IsBlank cs := by
  obtain ⟨before, hbefore, hcs⟩ := exists_blanks cs
  rw [h, List.append_nil] at hcs
  rwa [hcs]

theorem stops_of_isBlank {cs : List Char} (h : IsBlank cs) : Stops cs := by
  have hstops := stops_blanks h (show ','.isDigit = false ∧ _ from by decide) []
  cases cs with
  | nil => exact stops_nil
  | cons c cs => exact fun d hd => hstops d hd

/-! ## Items -/

/-- The reader takes the text off any longer one. -/
def ReadsWith {α : Type} (item : List Char → Option (α × List Char)) (text : List Char) (x : α) : Prop :=
  ∀ rest, Stops rest → item (text ++ rest) = some (x, rest)

/-- What can close a container. -/
structure Closes (close : Char) : Prop where
  not_comma : close ≠ ','
  not_blank : isBlank close = false
  stops : close.isDigit = false ∧ close ≠ '.' ∧ close ≠ 'e' ∧ close ≠ 'E'

section Items

variable {α : Type} {item : List Char → Option (α × List Char)} {Item : α → List Char → Prop}
  {close : Char}

/-- The reader takes the texts of the items off any longer ones, blanks before them included. -/
def Takes (item : List Char → Option (α × List Char)) (Item : α → List Char → Prop) : Prop :=
  ∀ before t x, IsBlank before → Item x t → ReadsWith item (before ++ t) x

/-- The reader takes off exactly the texts of the items, after blanks. -/
structure Accepts (item : List Char → Option (α × List Char)) (Item : α → List Char → Prop) :
    Prop where
  sound : ∀ {cs x rest}, item cs = some (x, rest) →
    ∃ before t, IsBlank before ∧ Item x t ∧ cs = before ++ (t ++ rest)
  takes : Takes item Item

/-- No item is empty, or starts with what closes the container. -/
def Opens (Item : α → List Char → Prop) (close : Char) : Prop :=
  ∀ x t, Item x t → ∀ rest, Stops rest → ∃ c cs, skipBlanks (t ++ rest) = c :: cs ∧ c ≠ close

theorem itemsTail_sound (h : Accepts item Item) {fuel : Nat} {cs rest : List Char} {xs : List α}
    (hread : itemsTail item close fuel cs = some (xs, rest)) :
    ∃ t, Listed Item xs t ∧ cs = t ++ close :: rest := by
  induction fuel generalizing cs xs rest with
  | zero => cases hread
  | succ fuel ih =>
    rw [itemsTail] at hread
    simp only [Option.bind_eq_bind, Option.bind_eq_some_iff] at hread
    obtain ⟨⟨x, cs'⟩, hitem, hread⟩ := hread
    obtain ⟨before, t, hbefore, ht, rfl⟩ := h.sound hitem
    obtain ⟨after, hafter, hcs'⟩ := exists_blanks cs'
    split at hread
    · cases hread
    · rename_i c tail hskip
      rw [hskip] at hcs'
      subst hcs'
      split_ifs at hread with hc hcomma
      · obtain ⟨rfl, rfl⟩ := Prod.mk.inj (Option.some.inj hread)
        refine ⟨_, .last hbefore ht hafter, ?_⟩
        simp [hc]
      · obtain ⟨⟨ys, rest'⟩, htail, heq⟩ := Option.bind_eq_some_iff.1 hread
        obtain ⟨rfl, rfl⟩ := Prod.mk.inj (Option.some.inj heq)
        obtain ⟨ts, hts, rfl⟩ := ih htail
        refine ⟨_, .cons hbefore ht hafter hts, ?_⟩
        simp [hcomma]

theorem itemsTail_spelled (h : Takes item Item) (hclose : Closes close) {xs : List α}
    {t : List Char} (ht : Listed Item xs t) {fuel : Nat} (hfuel : xs.length ≤ fuel)
    (rest : List Char) : itemsTail item close fuel (t ++ close :: rest) = some (xs, rest) := by
  induction ht generalizing fuel with
  | last hbefore hx hafter =>
    obtain ⟨fuel, rfl⟩ := Nat.exists_eq_succ_of_ne_zero (Nat.ne_of_gt hfuel)
    have hitem := h _ _ _ hbefore hx _ (stops_blanks hafter hclose.stops rest)
    simp only [List.append_assoc] at hitem ⊢
    rw [itemsTail, hitem]
    simp [skipBlanks_append hafter, skipBlanks_cons hclose.not_blank]
  | @cons _ _ _ _ _ ts hbefore hx hafter _ ih =>
    obtain ⟨fuel, rfl⟩ := Nat.exists_eq_succ_of_ne_zero
      (Nat.ne_of_gt ((Nat.succ_pos _).trans_le hfuel))
    have htail := ih (Nat.le_of_succ_le_succ hfuel)
    have hitem := h _ _ _ hbefore hx _
      (stops_blanks hafter (show ','.isDigit = false ∧ _ from by decide) (ts ++ close :: rest))
    simp only [List.append_assoc, List.cons_append] at hitem ⊢
    rw [itemsTail, hitem]
    simp [skipBlanks_append hafter, skipBlanks_cons (show isBlank ',' = false by decide),
      hclose.not_comma.symm, htail]

theorem Opens.length_pos (hopen : Opens Item close) {x : α} {t : List Char} (h : Item x t) :
    0 < t.length := by
  obtain ⟨c, cs, hskip, -⟩ := hopen x t h [] stops_nil
  refine List.length_pos_iff.2 ?_
  rintro rfl
  cases hskip

theorem Listed.length_le (hopen : Opens Item close) {xs : List α} {t : List Char}
    (h : Listed Item xs t) : xs.length ≤ t.length := by
  induction h with
  | last _ hx _ =>
    have hpos := hopen.length_pos hx
    simp only [List.length_append, List.length_cons, List.length_nil]
    omega
  | cons _ _ _ _ ih =>
    simp only [List.length_append, List.length_cons] at ih ⊢
    omega

theorem Listed.head (hclose : Closes close) (hopen : Opens Item close) {xs : List α} {t : List Char}
    (h : Listed Item xs t) (rest : List Char) :
    ∃ c cs, skipBlanks (t ++ close :: rest) = c :: cs ∧ c ≠ close := by
  cases h with
  | last hbefore hx hafter =>
    simp only [List.append_assoc, skipBlanks_append hbefore]
    exact hopen _ _ hx _ (stops_blanks hafter hclose.stops rest)
  | @cons _ _ _ _ _ ts hbefore hx hafter _ =>
    simp only [List.append_assoc, List.cons_append, skipBlanks_append hbefore]
    exact hopen _ _ hx _
      (stops_blanks hafter (show ','.isDigit = false ∧ _ from by decide) (ts ++ close :: rest))

/-- **The items of a container** are read as the grammar puts them together. -/
theorem items_spelled (h : Takes item Item) (hclose : Closes close) (hopen : Opens Item close)
    {xs : List α} {t : List Char} (ht : Inside Item xs t) (rest : List Char) :
    items item close (t ++ close :: rest) = some (xs, rest) := by
  cases ht with
  | empty hblank => simp [items, skipBlanks_append hblank, skipBlanks_cons hclose.not_blank]
  | listed ht =>
    obtain ⟨c, tail, hskip, hc⟩ := ht.head hclose hopen rest
    simp only [items, hskip, hc, if_false]
    refine itemsTail_spelled h hclose ht ?_ rest
    have hlength := ht.length_le hopen
    rw [List.length_append]
    omega

/-- **Only what the grammar puts together** is read as the items of a container. -/
theorem items_eq_some (h : Accepts item Item) (hclose : Closes close) (hopen : Opens Item close)
    {cs rest : List Char} {xs : List α} :
    items item close cs = some (xs, rest) ↔ ∃ t, Inside Item xs t ∧ cs = t ++ close :: rest := by
  constructor
  · intro hread
    obtain ⟨before, hbefore, hcs⟩ := exists_blanks cs
    unfold items at hread
    split at hread
    · cases hread
    · rename_i c tail hskip
      split_ifs at hread with hc
      · obtain ⟨rfl, rfl⟩ := Prod.mk.inj (Option.some.inj hread)
        exact ⟨before, .empty hbefore, by rw [← hc, ← hskip, ← hcs]⟩
      · obtain ⟨t, ht, hcs⟩ := itemsTail_sound h hread
        exact ⟨t, .listed ht, hcs⟩
  · rintro ⟨t, ht, rfl⟩
    exact items_spelled h.takes hclose hopen ht rest

theorem takes_member (h : Takes item Item) : Takes (member item) (SpellsField Item) := by
  rintro before _ ⟨key, x⟩ hbefore ⟨_, beforeColon, beforeItem, u, ⟨t, ht, rfl⟩, hbeforeColon,
    hbeforeItem, hu, rfl⟩ rest hrest
  have hkey := stringTail_spelled ht (beforeColon ++ ':' :: (beforeItem ++ (u ++ rest)))
  have hitem := h _ _ _ hbeforeItem hu rest hrest
  simp only [List.append_assoc, List.cons_append, List.nil_append] at hitem ⊢
  rw [member, skipBlanks_append hbefore, skipBlanks_cons (by decide)]
  simp [hkey, skipBlanks_append hbeforeColon, skipBlanks_cons (show isBlank ':' = false by decide),
    hitem]

/-- **A field** is read exactly as it is spelled. -/
theorem accepts_member (h : Accepts item Item) : Accepts (member item) (SpellsField Item) where
  sound := by
    intro cs f rest hread
    obtain ⟨before, hbefore, hcs⟩ := exists_blanks cs
    unfold member at hread
    split at hread
    · rename_i afterQuote hskip
      simp only [Option.bind_eq_bind, Option.bind_eq_some_iff] at hread
      obtain ⟨⟨key, afterKey⟩, hkey, hread⟩ := hread
      obtain ⟨t, ht, rfl⟩ := stringTail_eq_some.1 hkey
      obtain ⟨beforeColon, hbeforeColon, hafterKey⟩ := exists_blanks afterKey
      split at hread
      · rename_i afterColon hcolon
        obtain ⟨⟨x, rest'⟩, hitem, heq⟩ := Option.bind_eq_some_iff.1 hread
        obtain ⟨rfl, rfl⟩ := Prod.mk.inj (Option.some.inj heq)
        obtain ⟨beforeItem, u, hbeforeItem, hu, rfl⟩ := h.sound hitem
        refine ⟨before, _, hbefore, ⟨'"' :: (t ++ ['"']), beforeColon, beforeItem, u,
          ⟨t, by rwa [String.toList_ofList], rfl⟩, hbeforeColon, hbeforeItem, hu, rfl⟩, ?_⟩
        rw [hcs, hskip, hafterKey, hcolon]
        simp
      · cases hread
    · cases hread
  takes := takes_member h.takes

theorem opens_field : Opens (SpellsField Item) '}' := by
  rintro f _ ⟨_, _, _, _, ⟨t, -, rfl⟩, -, -, -, rfl⟩ rest -
  exact ⟨_, _, skipBlanks_cons (by decide) _, by decide⟩

end Items

/-! ## Items and what they mean -/

section Images

variable {α β : Type} {Item : α → List Char → Prop} {f : α → β}

/-- The texts of an item are those of what stands for it. -/
def Image (f : α → β) (Item : α → List Char → Prop) (y : β) (t : List Char) : Prop :=
  ∃ x, Item x t ∧ f x = y

theorem listed_image {ys : List β} {t : List Char} :
    Listed (Image f Item) ys t ↔ ∃ xs, Listed Item xs t ∧ xs.map f = ys := by
  constructor
  · intro h
    induction h with
    | last hbefore hy hafter =>
      obtain ⟨x, hx, rfl⟩ := hy
      exact ⟨[x], .last hbefore hx hafter, rfl⟩
    | cons hbefore hy hafter _ ih =>
      obtain ⟨x, hx, rfl⟩ := hy
      obtain ⟨xs, hxs, rfl⟩ := ih
      exact ⟨x :: xs, .cons hbefore hx hafter hxs, rfl⟩
  · rintro ⟨xs, h, rfl⟩
    induction h with
    | last hbefore hx hafter => exact .last hbefore ⟨_, hx, rfl⟩ hafter
    | cons hbefore hx hafter _ ih => exact .cons hbefore ⟨_, hx, rfl⟩ hafter ih

theorem inside_image {ys : List β} {t : List Char} :
    Inside (Image f Item) ys t ↔ ∃ xs, Inside Item xs t ∧ xs.map f = ys := by
  constructor
  · intro h
    cases h with
    | empty hblank => exact ⟨[], .empty hblank, rfl⟩
    | listed h =>
      obtain ⟨xs, hxs, hmap⟩ := listed_image.1 h
      exact ⟨xs, .listed hxs, hmap⟩
  · rintro ⟨xs, h, rfl⟩
    cases h with
    | empty hblank => exact .empty hblank
    | listed h => exact .listed (listed_image.2 ⟨xs, h, rfl⟩)

theorem spellsField_image : SpellsField (Image f Item) =
    Image (fun e : String × α => (e.1, f e.2)) (SpellsField Item) := by
  funext ⟨key, y⟩ t
  refine propext ⟨?_, ?_⟩
  · rintro ⟨k, before, after, u, hk, hbefore, hafter, ⟨x, hx, rfl⟩, rfl⟩
    exact ⟨(key, x), ⟨k, before, after, u, hk, hbefore, hafter, hx, rfl⟩, rfl⟩
  · rintro ⟨⟨key', x⟩, ⟨k, before, after, u, hk, hbefore, hafter, hx, rfl⟩, heq⟩
    obtain ⟨rfl, rfl⟩ := Prod.mk.inj heq
    exact ⟨k, before, after, u, hk, hbefore, hafter, ⟨x, hx, rfl⟩, rfl⟩

end Images

/-! ## Values -/

/-- What the text of a value is read as. -/
def Means (n : Nat) : Json → List Char → Prop := Image canonical (Spells n)

theorem opens_means (n : Nat) : Opens (Means n) ']' := by
  rintro _ t ⟨v, hv, rfl⟩ rest -
  have hscalar : ∀ {w}, SpellsScalar w t → ∃ c cs, skipBlanks (t ++ rest) = c :: cs ∧ c ≠ ']' := by
    rintro w hw
    obtain ⟨c, cs, rfl, hblank, -, -, hc, -⟩ := hw.head
    exact ⟨c, cs ++ rest, skipBlanks_cons hblank _, hc⟩
  cases n with
  | zero => exact hscalar hv
  | succ n =>
    rcases hv with hv | ⟨_, t, -, -, rfl⟩ | ⟨_, t, -, -, rfl⟩
    · exact hscalar hv
    · exact ⟨_, _, skipBlanks_cons (by decide) _, by decide⟩
    · exact ⟨_, _, skipBlanks_cons (by decide) _, by decide⟩

/-- A value that starts like no container is a scalar. -/
theorem value_eq_scalar {c : Char} (hblank : isBlank c = false) (harray : c ≠ '[')
    (hobject : c ≠ '{') (n : Nat) (cs : List Char) : value n (c :: cs) = scalar (c :: cs) := by
  cases n <;> rw [value.eq_def] <;> simp [skipBlanks_cons hblank, harray, hobject]

theorem means_scalar {n : Nat} {v : Json} {t : List Char} (h : SpellsScalar v t) : Means n v t :=
  ⟨v, spells_scalar h n, canonical_scalar h⟩

theorem value_sound_scalar {n : Nat} {cs rest : List Char} {w : Json}
    (h : scalar (skipBlanks cs) = some (w, rest)) :
    ∃ before t, IsBlank before ∧ Means n w t ∧ cs = before ++ (t ++ rest) := by
  obtain ⟨before, hbefore, hcs⟩ := exists_blanks cs
  obtain ⟨t, ht, hskip⟩ := scalar_sound h
  exact ⟨before, t, hbefore, means_scalar ht, hcs.trans (by rw [hskip])⟩

theorem value_spelled_scalar (n : Nat) {before t : List Char} {v : Json} (hbefore : IsBlank before)
    (h : SpellsScalar v t) : ReadsWith (value n) (before ++ t) v := by
  intro rest hrest
  obtain ⟨c, cs, rfl, hblank, harray, hobject, -⟩ := h.head
  have hread := scalar_spelled h hrest
  rw [List.append_assoc, value_append hbefore]
  rw [List.cons_append] at hread ⊢
  rw [value_eq_scalar hblank harray hobject, hread]

section Containers

variable {n : Nat} {cs rest : List Char}

theorem items_value_eq_some (h : Accepts (value n) (Means n)) {ws : List Json} :
    items (value n) ']' cs = some (ws, rest) ↔
      ∃ vs t, Inside (Spells n) vs t ∧ vs.map canonical = ws ∧ cs = t ++ ']' :: rest := by
  rw [items_eq_some h ⟨by decide, by decide, by decide⟩ (opens_means n)]
  constructor
  · rintro ⟨t, ht, hcs⟩
    obtain ⟨vs, hvs, hmap⟩ := inside_image.1 ht
    exact ⟨vs, t, hvs, hmap, hcs⟩
  · rintro ⟨vs, t, hvs, hmap, hcs⟩
    exact ⟨t, inside_image.2 ⟨vs, hvs, hmap⟩, hcs⟩

theorem items_member_eq_some (h : Accepts (value n) (Means n)) {gs : List (String × Json)} :
    items (member (value n)) '}' cs = some (gs, rest) ↔
      ∃ fs t, Inside (SpellsField (Spells n)) fs t ∧ (fs.map fun f => (f.1, f.2.canonical)) = gs ∧
        cs = t ++ '}' :: rest := by
  rw [items_eq_some (accepts_member h) ⟨by decide, by decide, by decide⟩ opens_field, Means,
    spellsField_image]
  constructor
  · rintro ⟨t, ht, hcs⟩
    obtain ⟨fs, hfs, hmap⟩ := inside_image.1 ht
    exact ⟨fs, t, hfs, hmap, hcs⟩
  · rintro ⟨fs, t, hfs, hmap, hcs⟩
    exact ⟨t, inside_image.2 ⟨fs, hfs, hmap⟩, hcs⟩

/-- A container is read one level further in. -/
theorem value_sound_succ (h : Accepts (value n) (Means n)) {w : Json}
    (hread : value (n + 1) cs = some (w, rest)) :
    ∃ before t, IsBlank before ∧ Means (n + 1) w t ∧ cs = before ++ (t ++ rest) := by
  obtain ⟨before, hbefore, hcs⟩ := exists_blanks cs
  rw [value] at hread
  split at hread
  · rename_i tail hskip
    obtain ⟨⟨ws, rest'⟩, hitems, heq⟩ := Option.map_eq_some_iff.1 hread
    obtain ⟨rfl, rfl⟩ := Prod.mk.inj heq
    obtain ⟨vs, t, hvs, rfl, rfl⟩ := (items_value_eq_some h).1 hitems
    refine ⟨before, _, hbefore, ⟨.array vs, .inr (.inl ⟨vs, t, rfl, hvs, rfl⟩),
      canonical_array vs⟩, ?_⟩
    rw [hcs, hskip]
    simp
  · rename_i tail hskip
    obtain ⟨⟨gs, rest'⟩, hitems, heq⟩ := Option.map_eq_some_iff.1 hread
    obtain ⟨rfl, rfl⟩ := Prod.mk.inj heq
    obtain ⟨fs, t, hfs, rfl, rfl⟩ := (items_member_eq_some h).1 hitems
    refine ⟨before, _, hbefore, ⟨.object fs, .inr (.inr ⟨fs, t, rfl, hfs, rfl⟩),
      canonical_object fs⟩, ?_⟩
    rw [hcs, hskip]
    simp
  · exact value_sound_scalar hread

theorem value_spelled_succ (h : Accepts (value n) (Means n)) :
    Takes (value (n + 1)) (Means (n + 1)) := by
  rintro before t _ hbefore ⟨v, hv, rfl⟩
  rcases hv with hv | ⟨vs, t, rfl, hvs, rfl⟩ | ⟨fs, t, rfl, hfs, rfl⟩
  · rw [canonical_scalar hv]
    exact value_spelled_scalar (n + 1) hbefore hv
  · intro rest _
    have hitems : items (value n) ']' (t ++ ']' :: rest) = some (vs.map canonical, rest) :=
      (items_value_eq_some h).2 ⟨vs, t, hvs, rfl, rfl⟩
    rw [List.append_assoc, value, skipBlanks_append hbefore, List.cons_append,
      skipBlanks_cons (by decide)]
    simp [hitems, canonical_array]
  · intro rest _
    have hitems : items (member (value n)) '}' (t ++ '}' :: rest) =
        some (fs.map fun f => (f.1, f.2.canonical), rest) :=
      (items_member_eq_some h).2 ⟨fs, t, hfs, rfl, rfl⟩
    rw [List.append_assoc, value, skipBlanks_append hbefore, List.cons_append,
      skipBlanks_cons (by decide)]
    simp [hitems, canonical_object]

end Containers

/-- **A value is read** exactly as it is spelled, as its canonical form. -/
theorem accepts_value (n : Nat) : Accepts (value n) (Means n) := by
  induction n with
  | zero =>
    refine ⟨fun hread => ?_, ?_⟩
    · rw [value] at hread
      split at hread
      · cases hread
      · cases hread
      · exact value_sound_scalar hread
    · rintro before t _ hbefore ⟨v, hv, rfl⟩
      rw [canonical_scalar hv]
      exact value_spelled_scalar 0 hbefore hv
  | succ n ih => exact ⟨value_sound_succ ih, value_spelled_succ ih⟩

/-! ## Documents -/

/-- **The reader accepts the documents of the grammar**, all of them and nothing else, and what it
gives for one is its canonical form. -/
theorem parse?_eq_some {text : String} {w : Json} :
    parse? text = some w ↔ ∃ v, IsDocument v text ∧ v.canonical = w := by
  unfold parse?
  constructor
  · intro h
    split at h
    · rename_i w' rest hread
      rw [Option.ite_none_right_eq_some, List.isEmpty_iff, Option.some_inj] at h
      obtain ⟨hrest, rfl⟩ := h
      obtain ⟨before, t, hbefore, ⟨v, hv, hcanonical⟩, htext⟩ := (accepts_value maxNesting).sound hread
      exact ⟨v, ⟨before, t, rest, hbefore, isBlank_of_skipBlanks hrest, hv, htext⟩, hcanonical⟩
    · cases h
  · rintro ⟨v, ⟨before, t, after, hbefore, hafter, hv, htext⟩, rfl⟩
    have hread := (accepts_value maxNesting).takes _ _ _ hbefore ⟨v, hv, rfl⟩ _
      (stops_of_isBlank hafter)
    have hskip : skipBlanks after = [] := by
      rw [← List.append_nil after, skipBlanks_append hafter]
      rfl
    rw [htext, ← List.append_assoc, hread]
    simp [hskip]

end Pedalboard.Json
