import Mathlib
import Pedalboard.Proofs.Decimal.Numeral
import Pedalboard.Proofs.Keyed
import Pedalboard.Proofs.Toml.Strings
import Pedalboard.Settings.Basic

/-!
# Documents of fields

**Values** (`ReadsValue`). Naturals that fit 64 bits with sign, written in decimal, and quoted texts are
read as what they stand for, to the end of their line.

**Theorem (`parse?_fields`).** A document that holds one field on each line, under different bare keys,
is read as these fields. The proof reads one line (`line_field`), which adds its field to those that
stand already, and then all of them by induction.
-/

namespace Pedalboard.Toml

/-! ## Naturals -/

section

variable {ds : List Char}

theorem digitTail_append (hds : ∀ c ∈ ds, c.isDigit) (rest : List Char) :
    digitTail Char.isDigit (ds ++ '\n' :: rest) = some (ds, '\n' :: rest) := by
  induction ds with
  | nil =>
    rw [List.nil_append, digitTail.eq_def]
    simp
  | cons c ds ih =>
    obtain ⟨hc, hrest⟩ := List.forall_mem_cons.1 hds
    rw [List.cons_append, digitTail.eq_def]
    simp [hc, ih hrest]

theorem wholeDigits_toDigits (n : Nat) (rest : List Char) :
    wholeDigits (Nat.toDigits 10 n ++ '\n' :: rest) = some (Nat.toDigits 10 n, '\n' :: rest) := by
  by_cases hn : n = 0
  · subst hn
    rfl
  · have hhead := head?_toDigits_ne_zero hn
    obtain ⟨c, ds, hds, hc, hrest⟩ := exists_toDigits_eq_cons n
    rw [hds] at hhead ⊢
    have hzero : c ≠ '0' := by simpa using hhead
    rw [List.cons_append, wholeDigits.eq_def]
    split
    · simp_all
    · simp [digitRun, hc, digitTail_append hrest]

/-- What goes on with digits or ends its line begins with no mark. -/
theorem head?_digits_ne {m : Char} (hm : m.isDigit = false ∧ m ≠ '\n') (hds : ∀ c ∈ ds, c.isDigit)
    (rest : List Char) : (ds ++ '\n' :: rest).head? ≠ some m := by
  cases ds with
  | nil => simpa using hm.2.symm
  | cons d ds =>
    have hd : d ≠ m := by
      rintro rfl
      simp [hm.1] at hds
    simpa using hd

theorem mark_eq_none {m : Char} {cs : List Char} (h : cs.head? ≠ some m) : mark m cs = none := by
  cases cs with
  | nil => rfl
  | cons c cs => exact if_neg (by simpa using h)

/-- No mark follows a field of digits that goes on with digits or ends its line. -/
theorem mark_field {m : Char} (hm : m.isDigit = false ∧ m ≠ '\n') (hds : ∀ c ∈ ds, c.isDigit)
    {count least greatest n : Nat} {rest after : List Char}
    (h : field count least greatest (ds ++ '\n' :: rest) = some (n, after)) : mark m after = none := by
  simp only [field] at h
  split_ifs at h with hfield
  cases h
  obtain ⟨hlength, hall, -⟩ := hfield
  by_cases hcount : count ≤ ds.length
  · rw [List.drop_append_of_le_length hcount]
    exact mark_eq_none (head?_digits_ne hm (fun c hc => hds c (List.mem_of_mem_drop hc)) rest)
  · -- The break of the line would be one of the digits.
    have hbreak : '\n' ∈ (ds ++ '\n' :: rest).take count := by
      rw [List.take_append, List.take_of_length_le (by omega)]
      obtain ⟨k, hk⟩ := Nat.exists_eq_succ_of_ne_zero (n := count - ds.length) (by omega)
      simp [hk]
    exact absurd (List.all_eq_true.1 hall _ hbreak) (by decide)

theorem momentTail?_digits (hds : ∀ c ∈ ds, c.isDigit) (rest : List Char) :
    momentTail? (ds ++ '\n' :: rest) = none := by
  have hmark : ∀ {m : Char} {count least greatest : Nat} {read : Nat × List Char},
      m.isDigit = false ∧ m ≠ '\n' →
      field count least greatest (ds ++ '\n' :: rest) = some read → mark m read.2 = none :=
    fun hm hread => mark_field hm hds hread
  rw [momentTail?, hourMark?]
  cases hdate : field 4 0 9999 (ds ++ '\n' :: rest) with
  | none =>
    cases htime : field 2 0 23 (ds ++ '\n' :: rest) with
    | none => rfl
    | some read => simp [hmark (m := ':') (by decide) htime]
  | some read =>
    cases htime : field 2 0 23 (ds ++ '\n' :: rest) with
    | none => simp [hmark (m := '-') (by decide) hdate]
    | some read' => simp [hmark (m := '-') (by decide) hdate, hmark (m := ':') (by decide) htime]

end

/-! ## Values -/

/-- A text is read as a value, to the end of its line. -/
def ReadsValue (text : List Char) (v : Value) : Prop :=
  ∀ rest, value (maxDepth - 1) (skipBlanks (text ++ '\n' :: rest)) = some (v, '\n' :: rest)

/-- A text that opens no container is read as it stands. -/
theorem value_eq_scalar {c : Char} (hblank : isBlank c = false) (hopen : c ≠ '[' ∧ c ≠ '{')
    (rest : List Char) : value (maxDepth - 1) (skipBlanks (c :: rest)) = scalar (c :: rest) := by
  rw [skipBlanks, List.dropWhile_cons_of_neg (by simp [hblank])]
  rw [show maxDepth - 1 = 78 + 1 from rfl, value.eq_def]
  split <;> simp_all

theorem sign_digit {c : Char} (h : c.isDigit = true) (rest : List Char) :
    sign (c :: rest) = (false, c :: rest) := by
  have hplus : c ≠ '+' := ne_of_isDigit h (by decide)
  have hminus : c ≠ '-' := ne_of_isDigit h (by decide)
  rw [sign.eq_def]
  split <;> simp_all

/-- A natural is no float. -/
theorem float?_toDigits (n : Nat) (rest : List Char) :
    float? (Nat.toDigits 10 n ++ '\n' :: rest) = none := by
  have hwhole := wholeDigits_toDigits n rest
  obtain ⟨c, ds, hds, hc, -⟩ := exists_toDigits_eq_cons n
  rw [hds, List.cons_append] at hwhole ⊢
  have hi : c ≠ 'i' := ne_of_isDigit hc (by decide)
  have hn : c ≠ 'n' := ne_of_isDigit hc (by decide)
  rw [float?, sign_digit hc]
  simp only
  split
  · simp_all
  · simp_all
  · rw [hwhole]
    simp [startsExponent]

theorem inRange?_natCast {n : Nat} (hn : n < integerBound) : inRange? n = some (n : Int) := by
  have hlower : -(integerBound : Int) ≤ n :=
    (neg_nonpos.2 (Int.natCast_nonneg _)).trans (Int.natCast_nonneg _)
  exact if_pos ⟨hlower, Int.ofNat_lt.2 hn⟩

theorem integer_toDigits {n : Nat} (hn : n < integerBound) (rest : List Char) :
    integer (Nat.toDigits 10 n ++ '\n' :: rest) = some ((n : Int), '\n' :: rest) := by
  have hwhole := wholeDigits_toDigits n rest
  have hvalue : digitsValue (Nat.toDigits 10 n) = n := Nat.ofDigitChars_ten_toDigits
  obtain ⟨c, ds, hds, hc, htail⟩ := exists_toDigits_eq_cons n
  rw [hds] at hwhole hvalue ⊢
  have hbase : ∀ {m : Char} {tail : List Char}, m.isDigit = false ∧ m ≠ '\n' →
      c :: ds ++ '\n' :: rest ≠ '0' :: m :: tail := fun hm heq =>
    head?_digits_ne hm htail rest (by
      have htail := (List.cons.inj heq).2
      rw [List.append_eq] at htail
      rw [htail, List.head?_cons])
  have hsign := sign_digit hc (ds ++ '\n' :: rest)
  rw [← List.cons_append] at hsign
  generalize c :: ds ++ '\n' :: rest = cs at *
  rw [integer.eq_def]
  split
  · exact absurd rfl (hbase (by decide))
  · exact absurd rfl (hbase (by decide))
  · exact absurd rfl (hbase (by decide))
  · simp only [hsign]
    refine Option.bind_eq_some_iff.2 ⟨_, hwhole, ?_⟩
    refine Option.bind_eq_some_iff.2 ⟨n, ?_, rfl⟩
    simp only [Bool.false_eq_true, if_false, hvalue]
    exact inRange?_natCast hn

/-- **A natural that fits** 64 bits with sign is read from its decimal digits. -/
theorem readsValue_toDigits {n : Nat} (hn : n < integerBound) :
    ReadsValue (Nat.toDigits 10 n) (.integer n) := by
  intro rest
  have hdigits : ∀ c ∈ Nat.toDigits 10 n, c.isDigit := fun c => isDigit_of_mem_toDigits
  have hmoment := momentTail?_digits hdigits rest
  have hfloat := float?_toDigits n rest
  have hinteger := integer_toDigits hn rest
  obtain ⟨c, ds, hds, hc, -⟩ := exists_toDigits_eq_cons n
  rw [hds, List.cons_append] at hmoment hfloat hinteger ⊢
  have hne : ∀ {m : Char}, m.isDigit = false → c ≠ m := ne_of_isDigit hc
  have hblank : isBlank c = false := by
    simp [isBlank, hne (m := ' ') (by decide), hne (m := '\t') (by decide)]
  rw [value_eq_scalar hblank ⟨hne (by decide), hne (by decide)⟩, scalar,
    if_neg (not_or.2 ⟨hne (by decide), hne (by decide)⟩), if_neg (hne (by decide)),
    if_neg (hne (by decide)), numberOrMoment, hmoment, hfloat, hinteger]
  rfl

/-- **A quoted text** is read. -/
theorem readsValue_quote (cs : List Char) : ReadsValue (quote cs) (.string (String.ofList cs)) := by
  intro rest
  have hread : string (quote cs ++ '\n' :: rest) = some (String.ofList cs, '\n' :: rest) :=
    string_quote cs (by simp)
  have hhead : ∃ c tail, quote cs = c :: tail ∧ (c = '"' ∨ c = '\'') := by
    rw [quote]
    cases Form.of cs <;> simp
  obtain ⟨c, tail, hquote, hc⟩ := hhead
  rw [hquote, List.cons_append] at hread
  rw [hquote, List.cons_append, value_eq_scalar (by rcases hc with rfl | rfl <;> decide)
    (by rcases hc with rfl | rfl <;> decide), scalar, if_pos hc, hread]
  rfl

/-! ## Lines -/

/-- A key that needs no quotes. -/
structure IsBare (key : String) : Prop where
  nonempty : key.toList ≠ []
  bare : ∀ c ∈ key.toList, isBareKeyChar c = true

theorem ne_of_isBareKeyChar {c m : Char} (h : isBareKeyChar c = true) (hm : isBareKeyChar m = false) :
    c ≠ m := by
  rintro rfl
  simp [h] at hm

theorem skipBlanks_of_isBareKeyChar {c : Char} (h : isBareKeyChar c = true) (cs : List Char) :
    skipBlanks (c :: cs) = c :: cs := by
  have hblank : ¬isBlank c = true := by
    simp [isBlank, ne_of_isBareKeyChar h (m := ' ') (by decide),
      ne_of_isBareKeyChar h (m := '\t') (by decide)]
  rw [skipBlanks, List.dropWhile_cons_of_neg hblank]

theorem key_bare {k : String} (h : IsBare k) (rest : List Char) :
    key (k.toList ++ ' ' :: '=' :: rest) = some (([], k), '=' :: rest) := by
  have hbare : (k.toList ++ ' ' :: '=' :: rest).takeWhile isBareKeyChar = k.toList := by
    rw [List.takeWhile_append_of_pos h.bare, List.takeWhile_cons_of_neg (by decide), List.append_nil]
  have hskip : skipBlanks (k.toList ++ ' ' :: '=' :: rest) = k.toList ++ ' ' :: '=' :: rest := by
    obtain ⟨c, cs, hcs⟩ := List.exists_cons_of_ne_nil h.nonempty
    have hc : isBareKeyChar c = true := h.bare c (hcs ▸ List.mem_cons_self)
    rw [hcs, List.cons_append, skipBlanks_of_isBareKeyChar hc]
  have hsimple : simpleKey (k.toList ++ ' ' :: '=' :: rest) = some (k, ' ' :: '=' :: rest) := by
    rw [simpleKey, hbare]
    simp [h.nonempty]
  have hparts : keyParts ((k.toList ++ ' ' :: '=' :: rest).length + 1)
      (k.toList ++ ' ' :: '=' :: rest) = some ([k], '=' :: rest) := by
    rw [keyParts, hskip, hsimple]
    rfl
  rw [key, hparts]
  rfl

theorem keyValue_line {k : String} {text : List Char} {v : Value} (hkey : IsBare k)
    (hvalue : ReadsValue text v) (rest : List Char) :
    keyValue (value (maxDepth - 1)) (Settings.line k text ++ rest) = some (([], k, v), '\n' :: rest) := by
  have hline : Settings.line k text ++ rest = k.toList ++ ' ' :: '=' :: ' ' :: (text ++ '\n' :: rest) := by
    simp [Settings.line]
  have hskip : skipBlanks (' ' :: (text ++ '\n' :: rest)) = skipBlanks (text ++ '\n' :: rest) :=
    List.dropWhile_cons_of_pos (by decide)
  rw [hline, keyValue, key_bare hkey]
  refine Option.bind_eq_some_iff.2 ⟨_, rfl, ?_⟩
  simp only [hskip]
  rw [hvalue rest]
  rfl

/-- A new key adds its field at the end. -/
theorem define_new {k : String} {fields : List (String × Item)} (hnew : fields.lookup k = none)
    (v : Value) : Table.define [] k v (.mk false false fields) =
      some (.mk false false (fields ++ [(k, .value v)])) := by
  have hset : ∀ fields : List (String × Item), fields.lookup k = none →
      Table.setField k (.value v) fields = fields ++ [(k, .value v)] := by
    intro fields hnew
    induction fields with
    | nil => rfl
    | cons field fields ih =>
      obtain ⟨key, item⟩ := field
      rw [lookup_cons_ite] at hnew
      split_ifs at hnew with hk
      rw [Table.setField, if_neg (Ne.symm hk), ih hnew, List.cons_append]
  simp [Table.define, Table.descend, Table.item?, Table.set, Table.dotted, Table.fields,
    Table.implicit, hnew, hset fields hnew]

/-- **A line with a field** under a new key adds the field to those that stand already. -/
theorem line_field {k : String} {text : List Char} {v : Value} (hkey : IsBare k)
    (hvalue : ReadsValue text v) {fields : List (String × Item)} (hnew : fields.lookup k = none)
    (rest : List Char) :
    line ⟨.mk false false fields, []⟩ (Settings.line k text ++ rest) =
      some (⟨.mk false false (fields ++ [(k, .value v)]), []⟩, '\n' :: rest) := by
  obtain ⟨c, cs, hcs⟩ := List.exists_cons_of_ne_nil hkey.nonempty
  have hc : isBareKeyChar c = true := hkey.bare c (hcs ▸ List.mem_cons_self)
  have hhash := ne_of_isBareKeyChar hc (m := '#') (by decide)
  have hn := ne_of_isBareKeyChar hc (m := '\n') (by decide)
  have hr := ne_of_isBareKeyChar hc (m := '\r') (by decide)
  have hbracket := ne_of_isBareKeyChar hc (m := '[') (by decide)
  have hread := keyValue_line hkey hvalue rest
  have hhead : Settings.line k text ++ rest = c :: (cs ++ [' ', '=', ' '] ++ text ++ ['\n'] ++ rest) := by
    simp [Settings.line, hcs]
  rw [hhead] at hread ⊢
  rw [line.eq_def]
  split
  · simp_all
  · simp_all
  · simp_all
  · simp_all
  · rw [hread]
    simp only [Option.bind_eq_bind, Option.bind_some, Table.descend, define_new hnew]

/-- A field of a document: its key, the text of its value, and the value. -/
structure Field where
  key : String
  text : List Char
  value : Value

namespace Field

variable (f : Field)

/-- The field as it is read. -/
def read : String × Value := (f.key, f.value)

/-- The line that holds the field. -/
def line : List Char := Settings.line f.key f.text

/-- The field can be read from its line. -/
structure Proper : Prop where
  key : IsBare f.key
  value : ReadsValue f.text f.value

end Field

/-- The table that holds fields that were read. -/
def tableOf (fields : List (String × Value)) : Table :=
  .mk false false (fields.map fun e => (e.1, .value e.2))

theorem fieldValues_tableOf (fields : List (String × Value)) :
    Table.fieldValues (tableOf fields).fields = fields := by
  rw [tableOf, Table.fields]
  induction fields with
  | nil => rfl
  | cons e fields ih => rw [List.map_cons, Table.fieldValues, ih, Table.itemValue]

/-- A line with a field begins with its key. -/
theorem exists_line_eq_cons {f : Field} (h : IsBare f.key) :
    ∃ c cs, f.line = c :: cs ∧ isBareKeyChar c = true := by
  obtain ⟨c, cs, hcs⟩ := List.exists_cons_of_ne_nil h.nonempty
  exact ⟨c, cs ++ [' ', '=', ' '] ++ f.text ++ ['\n'], by simp [Field.line, Settings.line, hcs],
    h.bare c (hcs ▸ List.mem_cons_self)⟩

/-- A key that is not among those that were read stands in no field of their table. -/
theorem lookup_tableOf_eq_none {fields : List (String × Value)} {k : String}
    (h : k ∉ fields.map (·.1)) : (fields.map fun e => (e.1, Item.value e.2)).lookup k = none := by
  rw [lookup_map, Option.map_eq_none_iff, List.lookup_eq_none_iff]
  intro e he
  have hne : k ≠ e.1 := fun heq => h (heq ▸ List.mem_map_of_mem he)
  simpa using hne

/-- **A document that begins with a field** under a new key is read on with that field. -/
theorem lines_cons {done : List (String × Value)} {f : Field} (hf : f.Proper)
    (hnew : f.key ∉ done.map (·.1)) (fuel : Nat) (rest : List Char) :
    lines (fuel + 1) ⟨tableOf done, []⟩ (f.line ++ rest) =
      lines fuel ⟨tableOf (done ++ [f.read]), []⟩ rest := by
  have hline := line_field hf.key hf.value (lookup_tableOf_eq_none hnew) rest
  rw [← Field.line] at hline
  obtain ⟨c, cs, hcs, hc⟩ := exists_line_eq_cons hf.key
  rw [lines, hcs, List.cons_append, skipBlanks_of_isBareKeyChar hc]
  rw [hcs, List.cons_append] at hline
  have hend : lineEnd? ('\n' :: rest) = some rest := rfl
  simp only [tableOf, List.map_append, List.map_cons, List.map_nil, Field.read]
  simp [hline, hend]

/-- **The lines of a document** are read one after the other. -/
theorem lines_fields (done : List (String × Value)) {fields : List Field}
    (hproper : ∀ f ∈ fields, f.Proper) (hkeys : ((done ++ fields.map Field.read).map (·.1)).Nodup)
    {fuel : Nat} (hfuel : fields.length < fuel) :
    lines fuel ⟨tableOf done, []⟩ (fields.flatMap Field.line) =
      some (tableOf (done ++ fields.map Field.read)) := by
  induction fields generalizing done fuel with
  | nil =>
    obtain ⟨n, rfl⟩ := Nat.exists_eq_succ_of_ne_zero (Nat.ne_zero_of_lt hfuel)
    simp [lines, skipBlanks]
  | cons f fields ih =>
    obtain ⟨n, rfl⟩ := Nat.exists_eq_succ_of_ne_zero (Nat.ne_zero_of_lt hfuel)
    obtain ⟨hf, hrest⟩ := List.forall_mem_cons.1 hproper
    have hnew : f.key ∉ done.map (·.1) := fun hmem => by
      rw [List.map_append] at hkeys
      exact (List.nodup_append.1 hkeys).2.2 _ hmem _ (by simp [Field.read]) rfl
    have hmore : done ++ (f :: fields).map Field.read = (done ++ [f.read]) ++ fields.map Field.read := by
      simp
    rw [hmore] at hkeys ⊢
    rw [List.flatMap_cons, lines_cons hf hnew]
    exact ih _ hrest hkeys (Nat.lt_of_succ_lt_succ hfuel)

theorem parse?_ofList {cs : List Char} (hmark : cs.head? ≠ some '\uFEFF') :
    parse? (String.ofList cs) =
      (lines (cs.length + 1) ⟨.empty, []⟩ cs).map fun t => Table.fieldValues t.fields := by
  cases cs with
  | nil => rfl
  | cons c cs =>
    have hc : c.toNat ≠ 0xFEFF := by
      intro hc
      have hmark' : c = '\uFEFF' := Char.toNat_inj.1 hc
      simp [hmark'] at hmark
    simp [parse?, hc]

/-- **A document with a field on each line** is read as these fields, if their keys are different. -/
theorem parse?_fields {fields : List Field} (hproper : ∀ f ∈ fields, f.Proper)
    (hkeys : (fields.map (·.key)).Nodup) :
    parse? (String.ofList (fields.flatMap Field.line)) = some (fields.map Field.read) := by
  have hfuel : fields.length < (fields.flatMap Field.line).length + 1 := by
    have hlines : ∀ n ∈ fields.map fun f => f.line.length, 1 ≤ n := by
      intro n hn
      obtain ⟨f, -, rfl⟩ := List.mem_map.1 hn
      simp only [Field.line, Settings.line, List.length_append, List.length_cons]
      omega
    have hle := List.length_le_sum_of_one_le _ hlines
    rw [List.length_map] at hle
    rw [List.length_flatMap]
    omega
  have hmark : (fields.flatMap Field.line).head? ≠ some '\uFEFF' := by
    cases fields with
    | nil => simp
    | cons f fields =>
      obtain ⟨c, cs, hcs, hc⟩ := exists_line_eq_cons (hproper f List.mem_cons_self).key
      simpa [hcs] using ne_of_isBareKeyChar hc (m := '\uFEFF') (by decide)
  have hempty : tableOf [] = .empty := rfl
  have hread := lines_fields [] hproper (by simpa [Field.read, Function.comp_def] using hkeys)
    hfuel
  rw [parse?_ofList hmark, ← hempty, hread]
  simp [fieldValues_tableOf]

end Pedalboard.Toml
