/- # Which variables are offered at a cursor

The place of a cursor is a line and a column, and places are ordered by their lines first. A
clean snapshot offers a variable exactly at the places from the first to the last of its
scope, both included (`Scope.contains_clean_iff`). The order of places decides this for every
scope alike, on one line or on many, also for one that ends before it begins, which holds no
place. A column that is not known keeps the whole of its line out of the scope.

A dirty snapshot goes by the lines alone (`Scope.contains_dirty_iff`), so it offers at least
what a clean one would, and in the same order: variables as the snapshot lists them, then the
keywords, then the symbols (`Snapshot.completions_by_interval`).

Key definitions: `Scope.BegunBy`, `Scope.OpenAt`, `Scope.Encloses`.
Key theorems: `Scope.contains_clean_iff`, `Scope.contains_dirty_iff`,
`Snapshot.visible_sublist`, `Snapshot.completions_by_interval`.
-/
import Mathlib.Data.List.Basic
import Mathlib.Data.Prod.Lex
import RenServer.Completion

namespace RenServer

namespace Scope

/-- A scope has begun at a place, counted from one. If its first column is not known, it begins
after its first line. -/
def BegunBy (s : Scope) (line col : Int) : Prop :=
  match s.startCol with
  | some first => toLex (s.startLine, first) ≤ toLex (line, col)
  | none => s.startLine < line

/-- A scope has not ended before a place, counted from one. If its last column is not known, it
ends before its last line. -/
def OpenAt (s : Scope) (line col : Int) : Prop :=
  match s.endCol with
  | some last => toLex (line, col) ≤ toLex (s.endLine, last)
  | none => line < s.endLine

/-- A place lies between the first and the last place of a scope. -/
def Encloses (s : Scope) (line col : Int) : Prop := s.BegunBy line col ∧ s.OpenAt line col

instance : (s : Scope) → (line col : Int) → Decidable (s.BegunBy line col)
  | ⟨startLine, some first, _, _⟩, line, col =>
    inferInstanceAs (Decidable (toLex (startLine, first) ≤ toLex (line, col)))
  | ⟨startLine, none, _, _⟩, line, _ => inferInstanceAs (Decidable (startLine < line))

instance : (s : Scope) → (line col : Int) → Decidable (s.OpenAt line col)
  | ⟨_, _, endLine, some last⟩, line, col =>
    inferInstanceAs (Decidable (toLex (line, col) ≤ toLex (endLine, last)))
  | ⟨_, _, endLine, none⟩, line, _ => inferInstanceAs (Decidable (line < endLine))

instance (s : Scope) (line col : Int) : Decidable (s.Encloses line col) :=
  inferInstanceAs (Decidable (s.BegunBy line col ∧ s.OpenAt line col))

variable (s : Scope) (line col : Int)

/-- The first column counts on the first line only. -/
theorem begunBy_iff :
    s.BegunBy line col ↔ s.startLine ≤ line ∧ (line ≠ s.startLine ∨ s.startsBy col = true) := by
  unfold BegunBy startsBy
  cases s.startCol with
  | none =>
    simp only [Bool.false_eq_true, or_false]
    omega
  | some first =>
    simp only [Prod.Lex.toLex_le_toLex, decide_eq_true_eq]
    omega

/-- The last column counts on the last line only. -/
theorem openAt_iff :
    s.OpenAt line col ↔ line ≤ s.endLine ∧ (line ≠ s.endLine ∨ s.endsFrom col = true) := by
  unfold OpenAt endsFrom
  cases s.endCol with
  | none =>
    simp only [Bool.false_eq_true, or_false]
    omega
  | some last =>
    simp only [Prod.Lex.toLex_le_toLex, decide_eq_true_eq]
    omega

/-- **To a clean snapshot a scope is an interval of places.** -/
theorem contains_clean_iff : s.contains false line col = true ↔ s.Encloses line col := by
  unfold contains Encloses
  rw [begunBy_iff, openAt_iff]
  simp only [Bool.false_or, Bool.and_eq_true, Bool.or_eq_true, decide_eq_true_eq]
  tauto

-- The first line is left out, the last one ends at its column.
example : let s : Scope := ⟨1, none, 4, some 2⟩
    ¬ s.Encloses 1 9 ∧ s.Encloses 2 1 ∧ s.Encloses 4 2 ∧ ¬ s.Encloses 4 3 := by decide

/-- **To a dirty snapshot a scope is an interval of lines.** -/
theorem contains_dirty_iff :
    s.contains true line col = true ↔ s.startLine ≤ line ∧ line ≤ s.endLine := by
  unfold contains
  simp only [Bool.true_or, Bool.and_true, Bool.and_eq_true, decide_eq_true_eq]

variable {s line col}

theorem Encloses.lines (h : s.Encloses line col) : s.startLine ≤ line ∧ line ≤ s.endLine :=
  ⟨((s.begunBy_iff line col).mp h.1).1, ((s.openAt_iff line col).mp h.2).1⟩

end Scope

namespace Snapshot

variable (s : Snapshot) (cursor : Position)

theorem visible_clean :
    { s with dirty := false }.visible cursor =
      s.vars.filter fun v => v.scope.Encloses (cursor.line + 1) (cursor.character + 1) := by
  unfold visible
  apply List.filter_congr
  intro v _
  rw [Bool.eq_iff_iff, Scope.contains_clean_iff, decide_eq_true_iff]

theorem visible_dirty :
    { s with dirty := true }.visible cursor =
      s.vars.filter fun v => v.scope.startLine ≤ (cursor.line : Int) + 1 ∧
        (cursor.line : Int) + 1 ≤ v.scope.endLine := by
  unfold visible
  apply List.filter_congr
  intro v _
  rw [Bool.eq_iff_iff, Scope.contains_dirty_iff, decide_eq_true_iff]

/-- What a clean snapshot shows, a dirty one shows in the same order. -/
theorem visible_sublist :
    ({ s with dirty := false }.visible cursor).Sublist
      ({ s with dirty := true }.visible cursor) := by
  rw [visible_clean, visible_dirty]
  apply List.monotone_filter_right
  intro v hv
  exact decide_eq_true (of_decide_eq_true hv).lines

/-- **A clean snapshot offers exactly the variables whose scope encloses the cursor, and a dirty
one those and maybe more.** Both offer the variables in the order of the snapshot, then the
keywords, then one item for each symbol in the order of the snapshot. A dirty snapshot goes by
the lines of a scope alone, and its items are those of the clean one, in the same order, with
others put in between. -/
theorem completions_by_interval :
    let line : Int := cursor.line + 1
    let col : Int := cursor.character + 1
    let clean : Snapshot := { s with dirty := false }
    let dirty : Snapshot := { s with dirty := true }
    clean.completions cursor =
        (s.vars.filter fun v => v.scope.Encloses line col).map Variable.item ++ keywordItems ++
          s.symbols.map Symbol.item ∧
      dirty.completions cursor =
        (s.vars.filter fun v => v.scope.startLine ≤ line ∧ line ≤ v.scope.endLine).map
            Variable.item ++ keywordItems ++ s.symbols.map Symbol.item ∧
      (clean.completions cursor).Sublist (dirty.completions cursor) := by
  intro line col clean dirty
  have hclean : clean.visible cursor = s.vars.filter fun v => v.scope.Encloses line col :=
    s.visible_clean cursor
  have hdirty : dirty.visible cursor =
      s.vars.filter fun v => v.scope.startLine ≤ line ∧ line ≤ v.scope.endLine :=
    s.visible_dirty cursor
  have hsublist : (clean.visible cursor).Sublist (dirty.visible cursor) := s.visible_sublist cursor
  unfold completions
  refine ⟨by rw [hclean], by rw [hdirty], ?_⟩
  exact ((hsublist.map Variable.item).append_right keywordItems).append_right _

end Snapshot
end RenServer
