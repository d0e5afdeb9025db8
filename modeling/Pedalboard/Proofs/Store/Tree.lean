import Mathlib
import Pedalboard.Proofs.Keyed
import Pedalboard.Store.Tree

/-!
# Files in a tree

**Theorem (`read_of_writeEntry`).** What was written to a path is read from it. A text takes the place of
no directory, so every path leads where it led before (`resolve_put`).
-/

namespace Pedalboard.Tree

variable {t t' : Tree} {place : List String} {e : Entry}

theorem entry?_put (t : Tree) (place names : List String) (e : Entry) :
    Tree.entry? (t.put place e) names =
      if names.isEmpty then some .directory
      else if key names = key place then some e else t.entry? names := by
  unfold entry?
  rw [put, Keyed.get?_insert]
  split_ifs <;> rfl

/-- Directories stay where no directory is replaced. -/
theorem entry?_put_of_directory (hplace : t.entry? place ≠ some .directory) {names : List String}
    (hnames : t.entry? names = some .directory) :
    Tree.entry? (t.put place e) names = some .directory := by
  rw [entry?_put]
  split_ifs with hempty hkey
  · rfl
  · unfold entry? at hnames hplace
    rw [if_neg hempty, hkey] at hnames
    split_ifs at hplace
    · exact absurd rfl hplace
    · exact absurd hnames hplace
  · exact hnames

/-- **A walk goes on** where no directory is replaced. -/
theorem walk_put (hplace : t.entry? place ≠ some .directory) {start names target : List String}
    (h : t.walk start names = .ok target) : (t.put place e).walk start names = .ok target := by
  induction names generalizing start with
  | nil => exact h
  | cons name rest ih =>
    rw [walk] at h ⊢
    cases hstart : t.entry? start with
    | none =>
      rw [hstart] at h
      cases h
    | some entry =>
      cases entry with
      | directory =>
        rw [entry?_put_of_directory hplace hstart]
        rw [hstart] at h
        cases hstep : step start name with
        | error err =>
          rw [hstep] at h
          cases h
        | ok next =>
          rw [hstep] at h
          exact ih h
      | _ =>
        rw [hstart] at h
        cases h

theorem resolve_put (hplace : t.entry? place ≠ some .directory) {path : String} {target : List String}
    (h : t.resolve path = .ok target) : (t.put place e).resolve path = .ok target := by
  rw [resolve] at h ⊢
  split_ifs at h ⊢ with hnul hempty hlong habsolute
  · exact walk_put hplace h
  · exact walk_put hplace h

theorem writeEntry_eq_ok {path : String} : t.writeEntry path e = .ok t' ↔
    ∃ place, t.resolve path = .ok place ∧ endsInSlash path = false ∧ endsInDots path = false ∧
      t.entry? place ≠ some .directory ∧ t' = t.put place e := by
  rw [writeEntry]
  cases t.resolve path with
  | error err => simp [bind, Except.bind]
  | ok place =>
    simp only [bind, Except.bind, Except.ok.injEq, exists_eq_left']
    split_ifs with h
    · simp only [Bool.or_eq_true, decide_eq_true_eq] at h
      grind
    · simp only [Bool.or_eq_true, decide_eq_true_eq, not_or] at h
      simpa [pure, Except.pure, h.1, h.2] using eq_comm

/-- **What was written is read.** -/
theorem read_of_writeEntry {path content : String} (h : t.writeEntry path (.text content) = .ok t') :
    t'.read path = .ok content := by
  obtain ⟨place, hresolve, hslash, -, hplace, rfl⟩ := writeEntry_eq_ok.1 h
  have hempty : place.isEmpty = false := by
    by_contra hempty
    exact hplace (by simp [hempty, Tree.entry?])
  have hentry : Tree.entry? (t.put place (.text content)) place = some (.text content) := by
    rw [entry?_put, hempty]
    simp
  simp [read, find, resolve_put hplace hresolve, hentry, hslash, bind, Except.bind, pure, Except.pure]

/-! ## Changes -/

theorem run_change (f : Tree → Except FileError Tree) (t : Tree) :
    Id.run ((change f).run t) = match f t with
      | .ok next => (.ok (), next)
      | .error err => (.error err, t) := by
  cases h : f t with
  | ok next => simp [change, h]
  | error err => simp [change, h]

end Pedalboard.Tree
