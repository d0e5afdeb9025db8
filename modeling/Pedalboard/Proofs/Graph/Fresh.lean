import Mathlib
import Pedalboard.Proofs.Decimal.Numeral
import Pedalboard.Proofs.Wire.Loading

/-!
# Ids that the editor makes up

**Numbered ids.** A serial is read off its id again (`serialOf?_numberedId`), so different serials
give different ids.

**The invariant** (`State.Numbering`). Every numbered id of a serial that is still to come was given
by an edit, and the node that got it has stood in the graph ever since (`State.Given`). Loading a
document resumes after the greatest serial in use, and an id that the editor makes up moves the
serial past itself; the greatest serial of all is its own successor and is left out.

**Theorem (`numbered_add_law`).** So a node without an id is added under the next serial, unless
somebody gave that id away before, or there are no serials left.
-/

namespace Pedalboard

/-! ## Numbered ids -/

theorem toList_numberedId (n : Nat) :
    (numberedId n).toList = 'f' :: 'x' :: '-' :: Nat.toDigits 10 n := by
  have hrepr : (toString n).toList = Nat.toDigits 10 n := String.toList_ofList
  rw [numberedId, String.toList_append, hrepr]
  rfl

/-- The serial of an id is the value of its digits, leading zeros or not. -/
theorem serialOf?_of_digits {id : String} {digits : List Char}
    (hid : id.toList = 'f' :: 'x' :: '-' :: digits) (hne : digits ≠ [])
    (hdigits : ∀ c ∈ digits, c.isDigit) (hmax : digitsValue digits ≤ maxSerial) :
    serialOf? id = some (digitsValue digits) := by
  have hall : digits.all Char.isDigit := List.all_eq_true.2 hdigits
  rw [serialOf?, hid]
  simp only [hall, hmax, hne, ne_eq, not_false_eq_true, and_self, if_true]

/-- **The serial of a numbered id** is the number it was made of. -/
theorem serialOf?_numberedId {n : Nat} (hn : n ≤ maxSerial) : serialOf? (numberedId n) = some n := by
  have hvalue : digitsValue (Nat.toDigits 10 n) = n := Nat.ofDigitChars_ten_toDigits
  have hserial := serialOf?_of_digits (toList_numberedId n) Nat.toDigits_ne_nil
    (fun _ => isDigit_of_mem_toDigits) (hvalue.symm ▸ hn)
  rwa [hvalue] at hserial

theorem numberedId_injective : Function.Injective numberedId := by
  intro m n h
  have hdigits : Nat.toDigits 10 m = Nat.toDigits 10 n := by
    have hlists := congrArg String.toList h
    simpa only [toList_numberedId, List.cons.injEq, true_and] using hlists
  rw [← Nat.ofDigitChars_ten_toDigits (n := m), hdigits, Nat.ofDigitChars_ten_toDigits]

namespace State

/-! ## The serial at the start -/

theorem resumeSerial_le (ids : List String) : resumeSerial ids ≤ maxSerial := by
  rw [resumeSerial]
  split
  · exact min_le_right _ _
  · decide

/-- **Numbering resumes after every serial in use**, but for the greatest of all. -/
theorem lt_resumeSerial {ids : List String} {id : String} {n : Nat} (hid : id ∈ ids)
    (hserial : serialOf? id = some n) (hn : n < maxSerial) : n < resumeSerial ids := by
  have hmem : n ∈ ids.filterMap serialOf? := List.mem_filterMap.2 ⟨id, hid, hserial⟩
  rw [resumeSerial]
  cases hmax : (ids.filterMap serialOf?).max? with
  | none => simp [List.max?_eq_none_iff.1 hmax] at hmem
  | some m =>
    have hle : n ≤ m := (List.max?_eq_some_iff.1 hmax).2 n hmem
    simp only [nextSerialAfter, lt_min_iff]
    omega

variable {start s t : State} {a : Action} {actions : List Action} {id : String}

theorem Opened.nextSerial_eq (h : Opened s) : s.nextSerial = resumeSerial s.ids := by
  obtain ⟨limit, rfl⟩ | ⟨p, limit, h⟩ := h
  · rfl
  · obtain ⟨-, rfl⟩ := ofParts_eq_ok.1 (hydrate_eq_ok h).2
    rfl

/-! ## One edit -/

/-- **What an edit does to ids and serial.** Only an addition brings in an id, the one that it gives
or the next numbered one, and only in the second case it moves the serial. -/
theorem numbering_attempt (hok : s.attempt a = .ok t) :
    t.ids ⊆ s.ids ∧ t.nextSerial = s.nextSerial ∨
    ∃ kind x y given, a = .addNode kind x y given ∧
      t.ids = s.ids ++ [given.getD (numberedId s.nextSerial)] ∧
      t.nextSerial = if given.isNone then nextSerialAfter s.nextSerial else s.nextSerial := by
  cases a with
  | addNode kind x y given =>
    obtain ⟨-, -, -, -, -, rfl⟩ := attemptAdd_eq_ok hok
    exact .inr ⟨kind, x, y, given, rfl, by simp [ids], rfl⟩
  | removeNode i =>
    obtain ⟨-, -, -, rfl⟩ := attemptRemove_eq_ok hok
    rw [ids, ids_filter]
    exact .inl ⟨List.filter_sublist.subset, rfl⟩
  | moveNode i x y =>
    obtain ⟨-, -, -, rfl⟩ := attemptMove_eq_ok hok
    exact .inl ⟨fun _ h => ids_editNode (gentle_move x y) i ▸ h, rfl⟩
  | connect i j =>
    obtain ⟨-, -, -, -, -, rfl⟩ := attemptConnect_eq_ok hok
    exact .inl ⟨List.Subset.refl _, rfl⟩
  | disconnect i j =>
    obtain ⟨-, rfl⟩ := attemptDisconnect_eq_ok hok
    exact .inl ⟨List.Subset.refl _, rfl⟩
  | selectNode i =>
    obtain ⟨-, rfl⟩ := attemptSelect_eq_ok hok
    exact .inl ⟨List.Subset.refl _, rfl⟩
  | setParam i key v =>
    obtain ⟨-, -, rfl⟩ := attemptSetParam_eq_ok hok
    exact .inl ⟨fun _ h => ids_editNode (gentle_setParam key v) i ▸ h, rfl⟩
  | toggleBypass i =>
    obtain ⟨-, rfl⟩ := attemptToggleBypass_eq_ok hok
    exact .inl ⟨fun _ h => ids_editNode gentle_toggleBypass i ▸ h, rfl⟩

/-! ## Runs of edits -/

theorem applyAll_append (s : State) (actions more : List Action) :
    s.applyAll (actions ++ more) = (s.applyAll actions).applyAll more := List.foldl_append

/-- An edit among `actions` gave the id to a node that it added, and the graph has had a node with
this id ever since. -/
def Given (start : State) (actions : List Action) (id : String) : Prop :=
  ∃ before kind x y after, actions = before ++ .addNode kind x y (some id) :: after ∧
    id ∉ (start.applyAll before).ids ∧
    ∀ n ≤ after.length,
      id ∈ (start.applyAll (before ++ .addNode kind x y (some id) :: after.take n)).ids

/-- An id that is still there after one more edit is still one that was given. -/
theorem Given.concat (h : Given start actions id)
    (hid : id ∈ (start.applyAll (actions ++ [a])).ids) : Given start (actions ++ [a]) id := by
  obtain ⟨before, kind, x, y, after, rfl, hfresh, hsince⟩ := h
  refine ⟨before, kind, x, y, after ++ [a], by simp, hfresh, fun n hn => ?_⟩
  rcases Nat.lt_or_ge after.length n with hlast | hle
  · rw [List.take_of_length_le (by simpa using hlast)]
    simpa using hid
  · rw [List.take_append_of_le_length hle]
    exact hsince n hle

/-- The last edit gave the id. -/
theorem given_concat {kind : Kind} {x y : Single} (hfresh : id ∉ (start.applyAll actions).ids)
    (hid : id ∈ (start.applyAll (actions ++ [.addNode kind x y (some id)])).ids) :
    Given start (actions ++ [.addNode kind x y (some id)]) id :=
  ⟨actions, kind, x, y, [], rfl, hfresh, fun n _ => by simpa using hid⟩

/-- What is so after any edits of a state that was opened. -/
structure Numbering (start : State) (actions : List Action) : Prop where
  bound : (start.applyAll actions).nextSerial ≤ maxSerial
  /-- Numbered ids of serials that are still to come are in the graph only if they were given. -/
  given : ∀ n < maxSerial, (start.applyAll actions).nextSerial ≤ n →
    numberedId n ∈ (start.applyAll actions).ids → Given start actions (numberedId n)

theorem numbering_start (h : Opened start) : Numbering start [] where
  bound := h.nextSerial_eq ▸ resumeSerial_le _
  given n hn hnext hid := by
    have hlt : n < resumeSerial start.ids := lt_resumeSerial hid (serialOf?_numberedId hn.le) hn
    rw [← h.nextSerial_eq] at hlt
    exact absurd hnext hlt.not_ge

/-- An edit that brings in no id and leaves the serial. -/
theorem Numbering.concat_of_subset (h : Numbering start actions)
    (hids : (start.applyAll (actions ++ [a])).ids ⊆ (start.applyAll actions).ids)
    (hserial : (start.applyAll (actions ++ [a])).nextSerial = (start.applyAll actions).nextSerial) :
    Numbering start (actions ++ [a]) where
  bound := hserial ▸ h.bound
  given n hn hnext hid := (h.given n hn (hserial ▸ hnext) (hids hid)).concat hid

/-- An edit that brings in the id that it gives, or the next numbered one. -/
theorem Numbering.concat_added {kind : Kind} {x y : Single} {given : Option String}
    (h : Numbering start actions)
    (hids : (start.applyAll (actions ++ [.addNode kind x y given])).ids =
      (start.applyAll actions).ids ++ [given.getD (numberedId (start.applyAll actions).nextSerial)])
    (hserial : (start.applyAll (actions ++ [.addNode kind x y given])).nextSerial =
      if given.isNone then nextSerialAfter (start.applyAll actions).nextSerial
      else (start.applyAll actions).nextSerial) :
    Numbering start (actions ++ [.addNode kind x y given]) where
  bound := by
    have hbound := h.bound
    rw [hserial, nextSerialAfter]
    split <;> omega
  given n hn hnext hid := by
    by_cases hold : numberedId n ∈ (start.applyAll actions).ids
    · refine (h.given n hn ?_ hold).concat hid
      rw [hserial, nextSerialAfter] at hnext
      split at hnext <;> omega
    · have hnew : numberedId n = given.getD (numberedId (start.applyAll actions).nextSerial) := by
        rw [hids, List.mem_append, List.mem_singleton] at hid
        exact hid.resolve_left hold
      cases given with
      | some i =>
        obtain rfl : numberedId n = i := hnew
        exact given_concat hold hid
      | none =>
        -- The serial has moved past the id that the editor made up.
        have heq : n = (start.applyAll actions).nextSerial := numberedId_injective hnew
        rw [hserial, Option.isNone_none, if_pos rfl, nextSerialAfter, ← heq] at hnext
        omega

/-- **One edit** keeps the invariant. -/
theorem Numbering.concat (h : Numbering start actions) (a : Action) :
    Numbering start (actions ++ [a]) := by
  have hlast : start.applyAll (actions ++ [a]) = (start.applyAll actions).apply a :=
    applyAll_append start actions [a]
  cases hok : (start.applyAll actions).attempt a with
  | error e =>
    rw [apply_of_error hok] at hlast
    exact h.concat_of_subset (hlast ▸ List.Subset.refl _) (hlast ▸ rfl)
  | ok t =>
    rw [apply_of_ok hok] at hlast
    obtain ⟨hids, hserial⟩ | ⟨kind, x, y, given, rfl, hids, hserial⟩ := numbering_attempt hok
    · exact h.concat_of_subset (hlast ▸ hids) (hlast ▸ hserial)
    · exact h.concat_added (hlast ▸ hids) (hlast ▸ hserial)

/-- **Every run** keeps the invariant. -/
theorem numbering_applyAll (h : Opened start) (actions : List Action) : Numbering start actions := by
  induction actions using List.reverseRecOn with
  | nil => exact numbering_start h
  | append_singleton actions a ih => exact ih.concat a

/-! ## Adding a node without an id -/

/-- **A node without an id** is added under the next serial, if that id is free. -/
theorem attempt_addNode_none {kind : Kind} {x y : Single} (hkind : kind.isAnchor = false)
    (hx : x.isFinite) (hy : y.isFinite) (hroom : s.nodes.length < s.nodeLimit) :
    s.attempt (.addNode kind x y none) =
      if numberedId s.nextSerial ∈ s.ids then .error .duplicateNodeId
      else .ok { s with
        nodes := s.nodes ++ [{ id := numberedId s.nextSerial, kind, x, y }]
        nextSerial := nextSerialAfter s.nextSerial
        lastError := none } := by
  simp [attempt, attemptAdd, hkind, hx, hy, isFull_eq_false_iff.2 hroom]

/-- **The editor does not make up an id twice.** After any edits of a new board or of a document that
was loaded, the next numbered id is in the graph only if an edit gave it, and its node has stood
there ever since, or if there are no serials left. Unless it is in the graph, a finite effect without
an id is added under it, as long as there is room; and if it is, that is the cause for which the edit
is refused. -/
theorem numbered_add_law (h : Opened start) (actions : List Action) :
    let s := start.applyAll actions
    let id := numberedId s.nextSerial
    (id ∈ s.ids → Given start actions id ∨ s.nextSerial = maxSerial) ∧
    ∀ (kind : Kind) (x y : Single), kind.isAnchor = false → x.isFinite → y.isFinite →
      s.nodes.length < s.nodeLimit →
      (id ∉ s.ids → s.attempt (.addNode kind x y none) =
        .ok { s with
          nodes := s.nodes ++ [{ id, kind, x, y }]
          nextSerial := nextSerialAfter s.nextSerial
          lastError := none }) ∧
      (id ∈ s.ids → s.attempt (.addNode kind x y none) = .error .duplicateNodeId) := by
  intro s id
  refine ⟨fun hid => ?_, fun kind x y hkind hx hy hroom => ⟨fun hid => ?_, fun hid => ?_⟩⟩
  · have hnumbering : Numbering start actions := numbering_applyAll h actions
    rcases hnumbering.bound.lt_or_eq with hlt | heq
    · exact .inl (hnumbering.given s.nextSerial hlt le_rfl hid)
    · exact .inr heq
  · rw [attempt_addNode_none hkind hx hy hroom, if_neg hid]
  · rw [attempt_addNode_none hkind hx hy hroom, if_pos hid]

/-- A numbered node that is removed again, and one that was given the number 3. -/
def numberedEdits : List Action :=
  [.addNode .delay 0 0 none, .addNode .eq 0 0 (some "fx-3"), .removeNode "fx-1"]

/-- The number 2 is free, though the number 1 is free again as well; the number 3 is not, and the
edit that took it is known. -/
theorem numbered_add_law_numberedEdits :
    let s := (initial 3).applyAll numberedEdits
    (∃ t, s.attempt (.addNode .chorus 0 0 none) = .ok t ∧ t.ids = s.ids ++ ["fx-2"]) ∧
    let t := (initial 3).applyAll (numberedEdits ++ [.addNode .chorus 0 0 none])
    t.attempt (.addNode .chorus 0 0 none) = .error .duplicateNodeId ∧
    Given (initial 3) (numberedEdits ++ [.addNode .chorus 0 0 none]) "fx-3" := by
  have hopened : Opened (initial 3) := .inl ⟨3, rfl⟩
  obtain ⟨-, hadd⟩ := numbered_add_law hopened numberedEdits
  obtain ⟨hgiven, hagain⟩ := numbered_add_law hopened (numberedEdits ++ [.addNode .chorus 0 0 none])
  obtain ⟨hfree, -⟩ := hadd .chorus 0 0 rfl rfl rfl (by decide)
  obtain ⟨-, htaken⟩ := hagain .chorus 0 0 rfl rfl rfl (by decide)
  exact ⟨⟨_, hfree (by decide), by decide⟩, htaken (by decide),
    (hgiven (by decide)).resolve_right (by decide)⟩

/-- A document in which the greatest serial is in use. -/
def lastSerial : Payload where
  nodes := [{ id := inputId, kind := .input, x := 0, y := 0 },
    { id := outputId, kind := .output, x := 0, y := 0 },
    { id := "fx-4294967295", kind := .delay, x := 0, y := 0 }]
  edges := []

/-- **A numbered id can be taken**: by an edit that gave it, or because there is none after it. -/
theorem addNode_numbered_taken :
    let taken := (initial 3).apply (.addNode .delay 0 0 (some "fx-1"))
    (taken.isFull = false ∧
      taken.attempt (.addNode .chorus 0 0 none) = .error .duplicateNodeId) ∧
    ∃ s, lastSerial.hydrate 3 = .ok s ∧
      s.isFull = false ∧ s.attempt (.addNode .chorus 0 0 none) = .error .duplicateNodeId := by
  intro taken
  refine ⟨by decide, ?_⟩
  obtain ⟨s, hload⟩ : ∃ s, lastSerial.hydrate 3 = .ok s := Payload.exists_hydrate (by decide)
  obtain ⟨-, rfl⟩ := ofParts_eq_ok.1 (hydrate_eq_ok hload).2
  exact ⟨_, hload, by decide, by decide⟩

end State

end Pedalboard
