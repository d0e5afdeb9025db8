import Mathlib
import Pedalboard.Toml.Text

/-!
# Strings that are written and read

**Characters.** What is written for a character in a basic string is the character itself, where it can
stand, or an escape that is read as the character (`escapeChar_cases`).

**Bodies** (`ReadsLine`, `ReadsLines`). What is read of a text up to the closing quotes, whatever the
fuel. Each lemma reads one character, or one run of quotes that do not close. A body of several lines is
read with the quotes that stand open in front of it, since the reader takes a run as a whole and the
writer counts along.

**Theorem (`string_quote`).** A text is read from the form in which it is written, whatever follows,
unless that begins with a quote.
-/

namespace Pedalboard.Toml

/-! ## Characters -/

theorem isPlain_of_not_needsEscape {c : Char} (h : needsEscape c = false) (hn : c ≠ '\n') :
    isPlain c = true := by
  by_cases ht : c = '\t'
  · simp [isPlain, ht]
  · have hcode : ¬ c.toNat < 0x20 ∧ c.toNat ≠ 0x7f := by simpa [needsEscape, ht, hn] using h
    simp [isPlain, not_lt.1 hcode.1, hcode.2]

/-- What can stand in a string breaks no line. -/
theorem newline?_of_isPlain {c : Char} (h : isPlain c = true) (rest : List Char) :
    newline? (c :: rest) = none := by
  have hn : c ≠ '\n' := by
    rintro rfl
    exact absurd h (by decide)
  have hr : c ≠ '\r' := by
    rintro rfl
    exact absurd h (by decide)
  rw [newline?.eq_def]
  split <;> simp_all

theorem scalarOfHex?_hex4 {n : Nat} (h : n < 0x80) : scalarOfHex? (hex4 n) = some (Char.ofNat n) := by
  have hall : ∀ n < 0x80, scalarOfHex? (hex4 n) = some (Char.ofNat n) := by decide +kernel
  exact hall n h

theorem toNat_of_needsEscape {c : Char} (h : needsEscape c = true) : c.toNat < 0x80 := by
  have hcode : (c ≠ '\t' ∧ c ≠ '\n') ∧ (c.toNat < 0x20 ∨ c.toNat = 0x7f) := by
    simpa [needsEscape] using h
  omega

/-- An escape that is read as a character, and does not join lines. -/
def IsEscape (c : Char) (text : List Char) : Prop :=
  ∀ rest, escape? (text ++ rest) = some (c, rest) ∧ continuation? (text ++ rest) = none

theorem continuation?_eq_none {e : Char} (hblank : isBlank e = false) (hn : e ≠ '\n') (hr : e ≠ '\r')
    (rest : List Char) : continuation? (e :: rest) = none := by
  rw [continuation?, skipBlanks, List.dropWhile_cons_of_neg (by simp [hblank]), newline?.eq_def]
  split <;> simp_all

theorem isEscape_letter {c e : Char} (h : ∀ rest, escape? (e :: rest) = some (c, rest))
    (hblank : isBlank e = false) (hn : e ≠ '\n') (hr : e ≠ '\r') : IsEscape c [e] := fun rest =>
  ⟨h rest, continuation?_eq_none hblank hn hr rest⟩

/-- A control character is read from its code. -/
theorem isEscape_hex4 {c : Char} (h : needsEscape c = true) : IsEscape c ('u' :: hex4 c.toNat) := by
  intro rest
  have hlength : (hex4 c.toNat).length = 4 := rfl
  have htake : (hex4 c.toNat ++ rest).take 4 = hex4 c.toNat := List.take_left' hlength
  have hdrop : (hex4 c.toNat ++ rest).drop 4 = rest := List.drop_left' hlength
  refine ⟨?_, continuation?_eq_none (by decide) (by decide) (by decide) _⟩
  rw [List.cons_append, escape?]
  simp [hlength, htake, hdrop, scalarOfHex?_hex4 (toNat_of_needsEscape h)]

/-- **What is written for a character** in a basic string: itself where it can stand, or an escape. -/
theorem escapeChar_cases (lines : Bool) (c : Char) :
    (escapeChar lines c = [c] ∧ isPlain c = true ∧ c ≠ '\\') ∨
    (escapeChar lines c = [c] ∧ lines = true ∧ c = '\n') ∨
    ∃ e, escapeChar lines c = '\\' :: e ∧ IsEscape c e := by
  have hletter : ∀ {e : Char}, (∀ rest, escape? (e :: rest) = some (c, rest)) →
      isBlank e = false ∧ e ≠ '\n' ∧ e ≠ '\r' → ∃ e', ['\\', e] = '\\' :: e' ∧ IsEscape c e' :=
    fun h hplain => ⟨_, rfl, isEscape_letter h hplain.1 hplain.2.1 hplain.2.2⟩
  rw [escapeChar]
  split_ifs with hb ht hn hlines hf hr hbackslash hcode
  · exact .inr (.inr (hletter (by simp [escape?, hb]) (by decide)))
  · exact .inr (.inr (hletter (by simp [escape?, ht]) (by decide)))
  · exact .inr (.inl ⟨rfl, hlines, hn⟩)
  · exact .inr (.inr (hletter (by simp [escape?, hn]) (by decide)))
  · exact .inr (.inr (hletter (by simp [escape?, hf]) (by decide)))
  · exact .inr (.inr (hletter (by simp [escape?, hr]) (by decide)))
  · exact .inr (.inr (hletter (by simp [escape?, hbackslash]) (by decide)))
  · exact .inr (.inr ⟨_, rfl, isEscape_hex4 hcode⟩)
  · exact .inl ⟨rfl, isPlain_of_not_needsEscape (by simpa using hcode) hn, hbackslash⟩

theorem isEscape_quote : IsEscape '"' ['"'] :=
  isEscape_letter (fun rest => by simp [escape?]) (by decide) (by decide) (by decide)

/-! ## Bodies on one line -/

/-- The text is read up to its closing quote, whatever the fuel. -/
def ReadsLine (quote : Char) (escapes : Bool) (text cs rest : List Char) : Prop :=
  ∀ fuel, text.length < fuel → lineTail quote escapes fuel text = some (cs, rest)

section

variable {quote : Char} {escapes : Bool} {text cs rest : List Char}

theorem readsLine_close (quote : Char) (escapes : Bool) (rest : List Char) :
    ReadsLine quote escapes (quote :: rest) [] rest := by
  intro fuel hfuel
  obtain ⟨n, rfl⟩ := Nat.exists_eq_succ_of_ne_zero (Nat.ne_zero_of_lt hfuel)
  rw [lineTail, if_pos rfl]

theorem ReadsLine.plain {c : Char} (h : ReadsLine quote escapes text cs rest) (hplain : isPlain c = true)
    (hquote : c ≠ quote) (hbackslash : escapes = true → c ≠ '\\') :
    ReadsLine quote escapes (c :: text) (c :: cs) rest := by
  intro fuel hfuel
  obtain ⟨n, rfl⟩ := Nat.exists_eq_succ_of_ne_zero (Nat.ne_zero_of_lt hfuel)
  have hread := h n (Nat.lt_of_succ_lt_succ hfuel)
  have hnot : ¬(escapes = true ∧ c = '\\') := fun he => hbackslash he.1 he.2
  rw [lineTail, if_neg hquote, if_neg hnot, if_pos hplain, hread]
  rfl

theorem ReadsLine.escape {c : Char} {e : List Char} (h : ReadsLine quote true text cs rest)
    (he : IsEscape c e) (hquote : quote ≠ '\\') :
    ReadsLine quote true ('\\' :: (e ++ text)) (c :: cs) rest := by
  intro fuel hfuel
  obtain ⟨n, rfl⟩ := Nat.exists_eq_succ_of_ne_zero (Nat.ne_zero_of_lt hfuel)
  have hread := h n (by simp only [List.length_cons, List.length_append] at hfuel; omega)
  rw [lineTail, if_neg hquote.symm, if_pos ⟨rfl, rfl⟩, (he text).1]
  simp [hread]

/-- **The body of a basic string** on one line is read. -/
theorem readsLine_escapeBody (cs rest : List Char) :
    ReadsLine '"' true (escapeBody false 0 0 cs ++ '"' :: rest) cs rest := by
  induction cs with
  | nil => exact readsLine_close '"' true rest
  | cons c cs ih =>
    rw [escapeBody]
    by_cases hquote : c = '"'
    · subst hquote
      exact ih.escape isEscape_quote (by decide)
    · rw [if_neg hquote, List.append_assoc]
      obtain ⟨hself, hplain, hbackslash⟩ | ⟨-, hlines, -⟩ | ⟨e, he, hescape⟩ := escapeChar_cases false c
      · rw [hself]
        exact ih.plain hplain hquote fun _ => hbackslash
      · cases hlines
      · rw [he]
        exact ih.escape hescape (by decide)

/-- **The body of a literal string** on one line is read. -/
theorem readsLine_literal (hplain : ∀ c ∈ cs, isPlain c = true ∧ c ≠ '\'') (rest : List Char) :
    ReadsLine '\'' false (cs ++ '\'' :: rest) cs rest := by
  induction cs with
  | nil => exact readsLine_close '\'' false rest
  | cons c cs ih =>
    obtain ⟨hc, hrest⟩ := List.forall_mem_cons.1 hplain
    exact (ih hrest).plain hc.1 hc.2 (by simp)

/-! ## Bodies of several lines -/

/-- The text is read up to its closing quotes, whatever the fuel. -/
def ReadsLines (quote : Char) (escapes : Bool) (text cs rest : List Char) : Prop :=
  ∀ fuel, text.length < fuel → linesTail quote escapes fuel text = some (cs, rest)

theorem takeWhile_replicate_append {c : Char} (r : Nat) (h : text.head? ≠ some c) :
    (List.replicate r c ++ text).takeWhile (· = c) = List.replicate r c := by
  rw [List.takeWhile_append_of_pos (by simp)]
  cases text with
  | nil => simp
  | cons d text =>
    have hd : d ≠ c := by simpa using h
    simp [hd]

/-- Of the quotes in a row the last three close. -/
theorem readsLines_close {r : Nat} (hr : r ≤ 2) (hrest : rest.head? ≠ some quote) :
    ReadsLines quote escapes (List.replicate (r + 3) quote ++ rest) (List.replicate r quote) rest := by
  intro fuel hfuel
  obtain ⟨n, rfl⟩ := Nat.exists_eq_succ_of_ne_zero (Nat.ne_zero_of_lt hfuel)
  have hrun := takeWhile_replicate_append (r + 3) hrest
  have hinner : min (r + 3) 5 - 3 = r := by omega
  rw [List.replicate_succ, List.cons_append] at *
  rw [linesTail, if_pos rfl, hrun]
  simp only [List.length_cons, List.length_replicate, hinner]
  rw [if_neg (by omega), ← List.cons_append, ← List.replicate_succ,
    List.drop_left' (List.length_replicate)]

/-- Quotes that do not close are read as they stand. -/
theorem ReadsLines.quotes {r : Nat} (h : ReadsLines quote escapes text cs rest) (hr : r ≤ 2)
    (htext : text.head? ≠ some quote) :
    ReadsLines quote escapes (List.replicate r quote ++ text) (List.replicate r quote ++ cs) rest := by
  intro fuel hfuel
  cases r with
  | zero => exact h fuel hfuel
  | succ r =>
    obtain ⟨n, rfl⟩ := Nat.exists_eq_succ_of_ne_zero (Nat.ne_zero_of_lt hfuel)
    have hread := h n (by simp at hfuel; omega)
    have hrun := takeWhile_replicate_append (r + 1) htext
    rw [List.replicate_succ, List.cons_append] at *
    rw [linesTail, if_pos rfl, hrun]
    simp only [List.length_cons, List.length_replicate]
    rw [if_pos (by omega), ← List.cons_append, ← List.replicate_succ,
      List.drop_left' (List.length_replicate), hread]
    rfl

theorem ReadsLines.plain {c : Char} (h : ReadsLines quote escapes text cs rest) (hplain : isPlain c = true)
    (hquote : c ≠ quote) (hbackslash : escapes = true → c ≠ '\\') :
    ReadsLines quote escapes (c :: text) (c :: cs) rest := by
  intro fuel hfuel
  obtain ⟨n, rfl⟩ := Nat.exists_eq_succ_of_ne_zero (Nat.ne_zero_of_lt hfuel)
  have hread := h n (Nat.lt_of_succ_lt_succ hfuel)
  have hnot : ¬(escapes = true ∧ c = '\\') := fun he => hbackslash he.1 he.2
  rw [linesTail, if_neg hquote, if_neg hnot, newline?_of_isPlain hplain]
  simp [hplain, hread]

theorem ReadsLines.newline (h : ReadsLines quote escapes text cs rest) (hquote : quote ≠ '\n') :
    ReadsLines quote escapes ('\n' :: text) ('\n' :: cs) rest := by
  intro fuel hfuel
  obtain ⟨n, rfl⟩ := Nat.exists_eq_succ_of_ne_zero (Nat.ne_zero_of_lt hfuel)
  have hread := h n (Nat.lt_of_succ_lt_succ hfuel)
  rw [linesTail, if_neg hquote.symm, if_neg (by simp), newline?]
  simp [hread]

theorem ReadsLines.escape {c : Char} {e : List Char} (h : ReadsLines quote true text cs rest)
    (he : IsEscape c e) (hquote : quote ≠ '\\') :
    ReadsLines quote true ('\\' :: (e ++ text)) (c :: cs) rest := by
  intro fuel hfuel
  obtain ⟨n, rfl⟩ := Nat.exists_eq_succ_of_ne_zero (Nat.ne_zero_of_lt hfuel)
  have hread := h n (by simp only [List.length_cons, List.length_append] at hfuel; omega)
  rw [linesTail, if_neg hquote.symm, if_pos ⟨rfl, rfl⟩, (he text).2, (he text).1]
  simp [hread]

/-- What stands for a character that is no quote does not begin with one. -/
theorem head?_escapeChar {lines : Bool} {c : Char} (hquote : c ≠ '"') (rest : List Char) :
    (escapeChar lines c ++ rest).head? ≠ some '"' := by
  obtain ⟨hself, -⟩ | ⟨hself, -⟩ | ⟨e, he, -⟩ := escapeChar_cases lines c
  · simpa [hself] using hquote
  · simpa [hself] using hquote
  · simp [he]

/-- **The body of a basic string** of several lines is read, together with quotes in front of it. -/
theorem readsLines_escapeBody {rest : List Char} (hrest : rest.head? ≠ some '"') (cs : List Char) {r : Nat}
    (hr : r ≤ 2) : ReadsLines '"' true
      (List.replicate r '"' ++ (escapeBody true 2 r cs ++ (List.replicate 3 '"' ++ rest)))
      (List.replicate r '"' ++ cs) rest := by
  induction cs generalizing r with
  | nil =>
    rw [escapeBody, List.nil_append, List.append_nil, ← List.append_assoc, List.replicate_append_replicate]
    exact readsLines_close hr hrest
  | cons c cs ih =>
    rw [escapeBody]
    by_cases hquote : c = '"'
    · subst hquote
      rw [if_pos rfl]
      by_cases hfree : r < 2
      · -- one more quote stands open
        have hmore := ih (r := r + 1) (by omega)
        rw [List.replicate_succ', List.append_assoc, List.append_assoc] at hmore
        rw [if_pos hfree]
        exact hmore
      · rw [if_neg hfree]
        refine ReadsLines.quotes ?_ hr (by simp)
        exact (ih (Nat.zero_le 2)).escape isEscape_quote (by decide)
    · rw [if_neg hquote, List.append_assoc]
      refine ReadsLines.quotes ?_ hr (head?_escapeChar hquote _)
      have htail := ih (Nat.zero_le 2)
      obtain ⟨hself, hplain, hbackslash⟩ | ⟨hself, -, rfl⟩ | ⟨e, he, hescape⟩ := escapeChar_cases true c
      · rw [hself]
        exact htail.plain hplain hquote fun _ => hbackslash
      · rw [hself]
        exact htail.newline (by decide)
      · rw [he]
        exact htail.escape hescape (by decide)

/-! ## Runs of a character -/

/-- The run that ends here, and the longest one so far. -/
def countRun (x : Char) (runs : Nat × Nat) (c : Char) : Nat × Nat :=
  (if c = x then runs.1 + 1 else 0, max runs.2 (if c = x then runs.1 + 1 else 0))

theorem le_foldl_countRun (x : Char) (cs : List Char) (runs : Nat × Nat) :
    runs.2 ≤ (cs.foldl (countRun x) runs).2 := by
  induction cs generalizing runs with
  | nil => exact le_rfl
  | cons c cs ih =>
    rw [List.foldl_cons]
    exact (Nat.le_max_left runs.2 _).trans (ih (countRun x runs c))

theorem ne_of_longestRun_eq_zero {x : Char} {cs : List Char} (h : longestRun x cs = 0) :
    ∀ c ∈ cs, c ≠ x := by
  have hall : ∀ runs : Nat × Nat, (cs.foldl (countRun x) runs).2 = 0 → ∀ c ∈ cs, c ≠ x := by
    clear h
    intro runs h
    induction cs generalizing runs with
    | nil => simp
    | cons c cs ih =>
      refine List.forall_mem_cons.2 ⟨?_, ih _ h⟩
      rintro rfl
      have hle := le_foldl_countRun c cs (countRun c runs c)
      rw [List.foldl_cons] at h
      simp only [countRun, if_true] at h hle
      omega
  exact hall (0, 0) h

/-- **The body of a literal string** of several lines is read, together with quotes in front of it. -/
theorem readsLines_literal {rest : List Char} (hrest : rest.head? ≠ some '\'') {cs : List Char}
    (hplain : ∀ c ∈ cs, needsEscape c = false) {r m : Nat} (hr : r ≤ 2)
    (hruns : (cs.foldl (countRun '\'') (r, m)).2 ≤ 2) : ReadsLines '\'' false
      (List.replicate r '\'' ++ (cs ++ (List.replicate 3 '\'' ++ rest)))
      (List.replicate r '\'' ++ cs) rest := by
  induction cs generalizing r m with
  | nil =>
    rw [List.nil_append, List.append_nil, ← List.append_assoc, List.replicate_append_replicate]
    exact readsLines_close hr hrest
  | cons c cs ih =>
    obtain ⟨hc, hcs⟩ := List.forall_mem_cons.1 hplain
    rw [List.foldl_cons] at hruns
    by_cases hquote : c = '\''
    · subst hquote
      have hle := le_foldl_countRun '\'' cs (countRun '\'' (r, m) '\'')
      simp only [countRun, if_true] at hruns hle
      have hmore := ih hcs (r := r + 1) (by omega) hruns
      rw [List.replicate_succ', List.append_assoc, List.append_assoc] at hmore
      exact hmore
    · simp only [countRun, if_neg hquote] at hruns
      refine ReadsLines.quotes ?_ hr (by simpa using hquote)
      have htail := ih hcs (Nat.zero_le 2) hruns
      by_cases hn : c = '\n'
      · subst hn
        exact htail.newline (by decide)
      · exact htail.plain (isPlain_of_not_needsEscape hc hn) hquote (by simp)

/-! ## Strings -/

/-- A string on one line is read from its body. -/
theorem stringOf_line (h : ReadsLine quote escapes text cs rest)
    (hopen : ∀ tail, text ≠ quote :: quote :: tail) :
    stringOf quote escapes (quote :: text) = some (String.ofList cs, rest) := by
  have hread : ∀ fuel, text.length < fuel → lineTail quote escapes fuel text = some (cs, rest) := h
  match text, hopen with
  | [], _ => exact absurd (hread 1 Nat.one_pos) (by simp [lineTail])
  | [b], _ => simp [stringOf, hread 3 (by simp)]
  | b :: c :: tail, hopen =>
    have hnot : ¬(b = quote ∧ c = quote) := by
      rintro ⟨rfl, rfl⟩
      exact hopen tail rfl
    have hfuel := hread ((b :: c :: tail).length + 2) (by omega)
    rw [List.length_cons, List.length_cons] at hfuel
    simp [stringOf, hnot, hfuel]

/-- A string of several lines is read from its body, which can start on a line of its own. -/
theorem stringOf_lines (h : ReadsLines quote escapes text cs rest) {raw : List Char}
    (hraw : (newline? raw).getD raw = text) (hlength : text.length ≤ raw.length) :
    stringOf quote escapes (List.replicate 3 quote ++ raw) = some (String.ofList cs, rest) := by
  have hread := h (raw.length + 1) (Nat.lt_succ_of_le hlength)
  rw [← hraw] at hread
  simp [stringOf, List.replicate, hread]

end

/-! ## Forms -/

theorem of_eq_literal {cs : List Char} (h : Form.of cs = .literal) :
    ∀ c ∈ cs, isPlain c = true ∧ c ≠ '\'' := by
  have hform : (cs.any needsEscape = false ∧ longestRun '\'' cs = 0) ∧ cs.contains '\n' = false := by
    simp only [Form.of] at h
    split_ifs at h with hbasic hliteral
    simpa using hliteral
  obtain ⟨⟨hcontrol, hsingles⟩, hlines⟩ := hform
  intro c hc
  have hn : c ≠ '\n' := by
    rintro rfl
    simp [hc] at hlines
  exact ⟨isPlain_of_not_needsEscape (by simpa using List.any_eq_false.1 hcontrol c hc) hn,
    ne_of_longestRun_eq_zero hsingles c hc⟩

theorem of_eq_literalLines {cs : List Char} (h : Form.of cs = .literalLines) :
    (∀ c ∈ cs, needsEscape c = false) ∧ longestRun '\'' cs ≤ 2 := by
  have hform : cs.any needsEscape = false ∧ longestRun '\'' cs ≤ 2 := by
    simp only [Form.of] at h
    split_ifs at h with hbasic hliteral hbasicLines hliteralLines
    simpa using hliteralLines
  exact ⟨fun c hc => by simpa using List.any_eq_false.1 hform.1 c hc, hform.2⟩

/-- What follows the quotes that open a text: the text, on a line of its own if it has several. -/
theorem getD_newline? {cs text : List Char} (htext : '\n' ∉ cs → newline? text = none) :
    (newline? ((if cs.contains '\n' then ['\n'] else []) ++ text)).getD
      ((if cs.contains '\n' then ['\n'] else []) ++ text) = text := by
  by_cases hlines : '\n' ∈ cs
  · rw [if_pos (by simpa using hlines)]
    rfl
  · rw [if_neg (by simpa using hlines), List.nil_append, htext hlines]
    rfl

theorem newline?_escapeBody {cs : List Char} (hlines : '\n' ∉ cs) (rest : List Char) :
    newline? (escapeBody true 2 0 cs ++ '"' :: rest) = none := by
  cases cs with
  | nil => rfl
  | cons c cs =>
    rw [escapeBody]
    by_cases hquote : c = '"'
    · subst hquote
      rfl
    · rw [if_neg hquote, List.append_assoc]
      obtain ⟨hself, hplain, -⟩ | ⟨-, -, rfl⟩ | ⟨e, he, -⟩ := escapeChar_cases true c
      · rw [hself]
        exact newline?_of_isPlain hplain _
      · exact absurd List.mem_cons_self hlines
      · rw [he]
        rfl

theorem newline?_literal {cs : List Char} (hplain : ∀ c ∈ cs, needsEscape c = false)
    (hlines : '\n' ∉ cs) (rest : List Char) : newline? (cs ++ '\'' :: rest) = none := by
  cases cs with
  | nil => rfl
  | cons c cs =>
    have hn : c ≠ '\n' := fun h => hlines (h ▸ List.mem_cons_self)
    exact newline?_of_isPlain (isPlain_of_not_needsEscape (hplain c List.mem_cons_self) hn) _

/-- The body of a basic string on one line does not begin with a quote. -/
theorem head?_escapeBody {c : Char} (cs rest : List Char) :
    (escapeBody false 0 0 (c :: cs) ++ rest).head? ≠ some '"' := by
  rw [escapeBody]
  by_cases hquote : c = '"'
  · simp [hquote]
  · rw [if_neg hquote, List.append_assoc]
    exact head?_escapeChar hquote _

/-- **A text is read from the form in which it is written.** -/
theorem string_quote (cs : List Char) {rest : List Char}
    (hrest : rest.head? ≠ some '"' ∧ rest.head? ≠ some '\'') :
    string (quote cs ++ rest) = some (String.ofList cs, rest) := by
  obtain ⟨hdouble, hsingle⟩ := hrest
  rw [quote]
  cases hform : Form.of cs with
  | basic =>
    have hopen : ∀ tail, escapeBody false 0 0 cs ++ '"' :: rest ≠ '"' :: '"' :: tail := by
      intro tail heq
      cases cs with
      | nil => exact hdouble (by rw [List.tail_eq_of_cons_eq heq, List.head?_cons])
      | cons c cs => exact head?_escapeBody cs _ (by rw [heq, List.head?_cons])
    have hread := stringOf_line (readsLine_escapeBody cs rest) hopen
    simpa [string] using hread
  | literal =>
    have hplain := of_eq_literal hform
    have hopen : ∀ tail, cs ++ '\'' :: rest ≠ '\'' :: '\'' :: tail := by
      intro tail heq
      cases cs with
      | nil => exact hsingle (by rw [List.tail_eq_of_cons_eq heq, List.head?_cons])
      | cons c cs => exact (hplain c List.mem_cons_self).2 (List.head_eq_of_cons_eq heq)
    have hread := stringOf_line (readsLine_literal hplain rest) hopen
    simpa [string] using hread
  | basicLines =>
    have hraw := getD_newline? fun hlines : '\n' ∉ cs => newline?_escapeBody hlines ('"' :: '"' :: rest)
    have hread := stringOf_lines (readsLines_escapeBody hdouble cs (Nat.zero_le 2)) hraw (by simp)
    simpa [string, List.replicate] using hread
  | literalLines =>
    obtain ⟨hplain, hruns⟩ := of_eq_literalLines hform
    have hraw := getD_newline? fun hlines => newline?_literal hplain hlines ('\'' :: '\'' :: rest)
    have hread := stringOf_lines (readsLines_literal hsingle hplain (Nat.zero_le 2) hruns) hraw (by simp)
    simpa [string, List.replicate] using hread

end Pedalboard.Toml
