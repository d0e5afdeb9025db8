import Mathlib
import Pedalboard.Proofs.Graph.Plain
import Pedalboard.Proofs.History.Bounds
import Pedalboard.Proofs.Wire.RoundTrip

/-!
# What a history makes of edits

**One edit** (`History.present_dispatch`). A history applies a tracked edit to its present, unless
that would leave the plain state as it is; then it keeps its present. So it swallows an edit that
changes the signs of zeros and nothing else (`State.FlipsZeros`), and no other.

**A run of edits** (`History.dispatch_law`). The present follows the state to which the same edits
are applied without a history: always but for signs of zeros, and exactly until an edit is swallowed.
The texts of the two then differ as well.
-/

namespace Pedalboard

namespace State

variable {s t : State} {a : Action}

/-- The edit changes the signs of zeros, and nothing else. -/
def FlipsZeros (s : State) (a : Action) : Prop := s.apply a ≠ s ∧ (s.apply a).plain = s.plain

instance (s : State) (a : Action) : Decidable (s.FlipsZeros a) := inferInstanceAs (Decidable (_ ∧ _))

/-- A plain state shows all of a state but the numbers of its nodes. -/
theorem eq_of_plain (h : s.plain = t.plain) (hnodes : s.nodes = t.nodes) : s = t := by
  cases s
  cases t
  simp_all [plain]

/-- An edit that is refused shows its cause. -/
theorem apply_eq_of_refused (herror : (s.apply a).lastError.isSome)
    (h : (s.apply a).plain = s.plain) : s.apply a = s := by
  refine eq_of_plain h ?_
  cases ha : s.attempt a with
  | error e => rw [apply_of_error ha, withError]
  | ok t => simp [apply_of_ok ha, lastError_of_attempt ha] at herror

/-- Navigation leaves the nodes alone. -/
theorem apply_eq_of_navigation (hnavigation : a.isNavigation) (h : (s.apply a).plain = s.plain) :
    s.apply a = s := by
  refine eq_of_plain h (apply_induction (P := fun t => t.nodes = s.nodes) a rfl (fun _ h => h) ?_)
  intro t hok
  cases a with
  | selectNode id =>
    obtain ⟨-, rfl⟩ := attemptSelect_eq_ok hok
    rfl
  | _ => cases hnavigation

/-- Selecting what is selected clears the error. -/
theorem Reaches.withoutError (h : Reaches Opened s) : Reaches Opened s.withoutError := by
  have hselect : s.attempt (.selectNode s.selected) = .ok s.withoutError := by
    have hselected := h.wellFormed_of_opened.selected
    simp only [attempt, attemptSelect, contains_eq]
    cases hid : s.selected with
    | none => simp [State.withoutError, hid]
    | some id => simp [State.withoutError, hid, hselected id hid]
  exact apply_of_ok hselect ▸ h.edit (.selectNode s.selected)

end State

namespace History

variable {h : History} {a : Action}

/-! ## One edit -/

/-- **A history keeps its present** if an edit would leave the plain state as it is, and applies the
edit if not. -/
theorem present_dispatch (hf : h.present.Finite) (a : Action) :
    (h.dispatch a).present =
      if (h.present.apply a).plain = h.present.plain then h.present else h.present.apply a := by
  rw [dispatch, edit]
  by_cases hreplace : (h.present.apply a).lastError.isSome || !true || a.isNavigation
  · rw [if_pos hreplace]
    split_ifs with hplain
    · simp only [Bool.not_true, Bool.or_false, Bool.or_eq_true] at hreplace
      rcases hreplace with hrefused | hnavigation
      · exact State.apply_eq_of_refused hrefused hplain
      · exact State.apply_eq_of_navigation hnavigation hplain
    · rfl
  · rw [if_neg hreplace]
    simp only [Bool.not_true, Bool.or_false, Bool.or_eq_true, not_or, Bool.not_eq_true,
      Option.isSome_eq_false_iff, Option.isNone_iff_eq_none] at hreplace
    -- The edit was carried out, so the states are the same if the graphs are and no error was shown.
    have hsame : (h.present.apply a).plain = h.present.plain ↔
        (h.present.apply a).sameGraph h.present ∧ h.present.lastError = none := by
      rw [State.sameGraph_iff (hf.apply a) hf, State.withoutError_eq_self hreplace.1]
      constructor
      · intro hplain
        have herror : h.present.lastError = none :=
          (congrArg State.lastError hplain).symm.trans hreplace.1
        exact ⟨by rw [hplain, State.withoutError_eq_self herror], herror⟩
      · rintro ⟨hplain, herror⟩
        rw [hplain, State.withoutError_eq_self herror]
    simp only [hsame]
    by_cases hgraph : (h.present.apply a).sameGraph h.present
    · cases herror : h.present.lastError <;> simp [hgraph]
    · simp [hgraph, record]

/-! ## A run of edits -/

/-- The history after tracked edits. -/
def dispatchAll (h : History) (actions : List Action) : History := actions.foldl dispatch h

theorem foldl_take_succ {α β : Type} (f : β → α → β) (b : β) {as : List α} {n : Nat}
    (hn : n < as.length) : (as.take (n + 1)).foldl f b = f ((as.take n).foldl f b) as[n] := by
  rw [← List.take_append_getElem hn, List.foldl_append]
  rfl

variable {s : State} {actions : List Action}

/-- The present comes from states that were opened, whatever edits are dispatched. -/
theorem reaches_dispatchAll (hreaches : State.Reaches State.Opened h.present)
    (actions : List Action) : State.Reaches State.Opened (h.dispatchAll actions).present := by
  induction actions generalizing h with
  | nil => exact hreaches
  | cons a actions ih =>
    refine ih ?_
    rw [present_dispatch hreaches.finite]
    split
    · exact hreaches
    · exact hreaches.edit a

/-- **Nothing but signs of zeros** tells the present from the state without a history. -/
theorem plain_dispatchAll (hreaches : State.Reaches State.Opened h.present)
    (hplain : h.present.plain = s.plain) (actions : List Action) :
    (h.dispatchAll actions).present.plain = (s.applyAll actions).plain := by
  induction actions generalizing h s with
  | nil => exact hplain
  | cons a actions ih =>
    have hnext : (h.dispatch a).present.plain = (s.apply a).plain := by
      rw [present_dispatch hreaches.finite, ← State.plain_apply hplain a]
      split
      · exact Eq.symm ‹_›
      · rfl
    exact ih (reaches_dispatchAll hreaches [a]) hnext

/-- **A run agrees** with the state without a history exactly if no edit of it flips zeros. -/
theorem dispatchAll_eq_iff (hreaches : State.Reaches State.Opened h.present)
    (actions : List Action) :
    (∀ n, (h.dispatchAll (actions.take n)).present = h.present.applyAll (actions.take n)) ↔
      ∀ n (hn : n < actions.length), ¬(h.present.applyAll (actions.take n)).FlipsZeros actions[n] := by
  have hstep : ∀ n (hn : n < actions.length), (h.dispatchAll (actions.take (n + 1))).present =
      if ((h.dispatchAll (actions.take n)).present.apply actions[n]).plain =
          (h.dispatchAll (actions.take n)).present.plain then
        (h.dispatchAll (actions.take n)).present
      else (h.dispatchAll (actions.take n)).present.apply actions[n] := by
    intro n hn
    rw [dispatchAll, foldl_take_succ dispatch h hn]
    exact present_dispatch (reaches_dispatchAll hreaches (actions.take n)).finite actions[n]
  have hdirect : ∀ n (hn : n < actions.length), h.present.applyAll (actions.take (n + 1)) =
      (h.present.applyAll (actions.take n)).apply actions[n] := fun n hn =>
    foldl_take_succ State.apply h.present hn
  constructor
  · rintro hagree n hn ⟨hne, hplain⟩
    have hnext := hstep n hn
    rw [hagree n, hagree (n + 1), if_pos hplain, hdirect n hn] at hnext
    exact hne hnext
  · intro hflips n
    induction n with
    | zero => rfl
    | succ n ih =>
      by_cases hn : n < actions.length
      · rw [hstep n hn, ih, hdirect n hn]
        split_ifs with hplain
        · exact (not_not.1 fun hne => hflips n hn ⟨hne, hplain⟩).symm
        · rfl
      · rw [List.take_of_length_le (by omega)]
        rwa [List.take_of_length_le (by omega)] at ih

/-! ## Texts -/

theorem eq_of_perm_of_map_eq {α β : Type} {f : α → β} {as bs : List α} (hnodup : (as.map f).Nodup)
    (hperm : as.Perm bs) (hmap : as.map f = bs.map f) : as = bs := by
  refine List.ext_getElem hperm.length_eq fun n ha hb => ?_
  have hf : f as[n] = f bs[n] := by
    have hget := congrArg (·[n]?) hmap
    simpa [ha, hb] using hget
  exact List.inj_on_of_nodup_map hnodup (List.getElem_mem ha)
    (hperm.mem_iff.2 (List.getElem_mem hb)) hf

/-- **Texts show signs of zeros.** -/
theorem serializeState_eq_iff_of_plain {s t : State} (hs : State.Reaches State.Opened s)
    (ht : State.Reaches State.Opened t) (hplain : s.plain = t.plain) (hedges : t.edges.length ≤ 64) :
    Payload.serializeState s = Payload.serializeState t ↔ s = t := by
  refine ⟨fun htext => ?_, congrArg _⟩
  have hsame : s.edges = t.edges := (congrArg State.edges hplain :)
  have hstext := Payload.serializeState_of_reaches hs (hsame ▸ hedges)
  have httext := Payload.serializeState_of_reaches ht hedges
  have hparts : s.SameParts t :=
    (Payload.text_eq_iff hs ht hstext httext).1 (Except.ok.inj (hstext ▸ httext ▸ htext))
  have hids : s.ids = t.ids := by rw [← State.ids_plain s, hplain, State.ids_plain]
  have hperm := ((Payload.sameParts_iff_perm hs.wellFormed_of_opened ht.wellFormed_of_opened).1 hparts).1
  exact State.eq_of_plain hplain (eq_of_perm_of_map_eq hs.wellFormed_of_opened.ids_nodup hperm hids)

theorem kept_reaches : Kept (State.Reaches State.Opened) where
  initial limit := .start (.inl ⟨limit, rfl⟩)
  edit _ a h := h.edit a
  withoutError _ h := h.withoutError

/-- **A history is transparent until it swallows a sign.** In every history that grew from states
that occur, take any edits and dispatch them one by one, and apply the same edits to the present
without the history. All along, the two states are the same but for signs of zeros. They are the same
exactly if no edit does nothing but change signs of zeros, and wherever they differ, so do their
texts, if they have any. -/
theorem dispatch_law {initial : State} (limit : Nat) {commands : List Command}
    (hinitial : State.Reaches State.Opened initial)
    (hreplace : ∀ s tracked, Command.replace s tracked ∈ commands → State.Reaches State.Opened s)
    (actions : List Action) :
    let h := (new initial limit).applyAll commands
    let kept n := (h.dispatchAll (actions.take n)).present
    let direct n := h.present.applyAll (actions.take n)
    (∀ n, (kept n).plain = (direct n).plain) ∧
    ((∀ n, kept n = direct n) ↔
      ∀ n (hn : n < actions.length), ¬(direct n).FlipsZeros actions[n]) ∧
    ∀ n, (direct n).edges.length ≤ 64 →
      (Payload.serializeState (kept n) = Payload.serializeState (direct n) ↔ kept n = direct n) := by
  intro h kept direct
  have hnew : (new initial limit).All (State.Reaches State.Opened) :=
    ⟨hinitial.withoutError, by simp [new]⟩
  have hreaches : State.Reaches State.Opened h.present :=
    (hnew.applyAll kept_reaches (bounded_new initial limit) hreplace).1
  have hplain : ∀ n, (kept n).plain = (direct n).plain := fun n =>
    plain_dispatchAll hreaches rfl (actions.take n)
  exact ⟨hplain, dispatchAll_eq_iff hreaches actions, fun n =>
    serializeState_eq_iff_of_plain (reaches_dispatchAll hreaches _) (hreaches.applyAll _) (hplain n)⟩

/-- Two moves to one place, the second of which does nothing, and one to another place. -/
def plainMoves : List Action :=
  [.moveNode inputId 0 120, .moveNode inputId 0 120, .moveNode inputId 5 120]

/-- The moves do the same in a history that was reset, and so do the texts after each of them. -/
theorem dispatch_law_plainMoves :
    let h := (new (State.initial 8) 2).applyAll [.edit (.removeNode inputId) true, .reset]
    ∀ n, Payload.serializeState (h.dispatchAll (plainMoves.take n)).present =
      Payload.serializeState (h.present.applyAll (plainMoves.take n)) := by
  intro h n
  have hreplace : ∀ s tracked, Command.replace s tracked ∈
      [Command.edit (.removeNode inputId) true, .reset] → State.Reaches State.Opened s := by simp
  obtain ⟨-, hagree, -⟩ := dispatch_law 2 (.start (.inl ⟨8, rfl⟩)) hreplace plainMoves
  exact congrArg Payload.serializeState (hagree.2 (by decide) n)

/-- A move to `0`, and one to `-0`. -/
def zeroMoves : List Action := [.moveNode inputId 0 120, .moveNode inputId (.zero true) 120]

/-- **A history swallows the sign of a zero**, and its text is not that of the edited graph. -/
theorem serializeState_zeroMoves :
    let h := new (State.initial 8) 200
    (h.present.applyAll (zeroMoves.take 1)).FlipsZeros (.moveNode inputId (.zero true) 120) ∧
    Payload.serializeState (h.dispatchAll zeroMoves).present ≠
      Payload.serializeState (h.present.applyAll zeroMoves) := by
  intro h
  have hreaches : State.Reaches State.Opened h.present := .start (.inl ⟨8, rfl⟩)
  have hplain := plain_dispatchAll (h := h) hreaches rfl zeroMoves
  refine ⟨by decide, fun htext => ?_⟩
  have heq := (serializeState_eq_iff_of_plain (reaches_dispatchAll hreaches _) (hreaches.applyAll _)
    hplain (by decide)).1 htext
  exact absurd heq (by decide)

end History

end Pedalboard
