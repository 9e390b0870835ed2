/- # Insertions that are undone

An insertion puts a text in at one place. It is undone by a change that takes out what lies
between the line of that place and the line on which the text ended, and puts nothing in
(`ContentChange.Undoes`). A line below the place, which the insertion moved down, is still
below it and moves back by as many lines; a line above it is moved by neither
(`ContentChange.Undoes.move_move`).

Insertions that are undone one by one, the last of them first, leave every scope as it was,
however the places lie among each other: when an insertion is undone, all that came after it
has been undone already (`moveAll_undone`). The snapshot only remembers that lines were moved,
and its columns are no longer trusted.

Key definition: `ContentChange.Undoes`.
Key theorems: `ContentChange.Undoes.move_move`, `moveAll_undone`,
`Snapshot.insertions_undone`.
-/
import Mathlib.Data.List.Forall2
import RenServer.Proofs.Snapshot.ValidScopes

namespace RenServer

open Text

namespace ContentChange

/-- A change takes the lines out again that an insertion put in at a place. -/
inductive Undoes : ContentChange → ContentChange → Prop where
  | insertion (place : Position) (text : String) (first last : Nat) :
    Undoes
      { range := some ⟨⟨place.line, first⟩, ⟨place.line + editorBreaks text.toList, last⟩⟩
        text := "" }
      { range := some ⟨place, place⟩, text }

namespace Undoes

variable {undo insertion : ContentChange}

theorem lineDelta_insertion (h : Undoes undo insertion) :
    insertion.lineDelta = editorBreaks insertion.text.toList := by
  obtain ⟨place, text, first, last⟩ := h
  rw [lineDelta_of_range rfl, Int.sub_self, Int.sub_zero]

/-- What is undone takes out as many lines as came in. -/
theorem lineDelta_undo (h : Undoes undo insertion) :
    undo.lineDelta = -insertion.lineDelta := by
  rw [h.lineDelta_insertion]
  obtain ⟨place, text, first, last⟩ := h
  have hnone : editorBreaks "".toList = 0 := rfl
  rw [lineDelta_of_range rfl, hnone]
  dsimp only
  omega

theorem exists_ranges (h : Undoes undo insertion) :
    ∃ r q, undo.range = some r ∧ insertion.range = some q ∧ r.start.line = q.start.line := by
  obtain ⟨place, text, first, last⟩ := h
  exact ⟨_, _, rfl, rfl, rfl⟩

/-- **A line that an insertion moved is moved back.** -/
theorem move_move (h : Undoes undo insertion) (line : Int) :
    undo.move (insertion.move line) = line := by
  obtain ⟨r, q, hr, hq, hline⟩ := h.exists_ranges
  have hdelta : 0 ≤ insertion.lineDelta := by
    rw [h.lineDelta_insertion]
    omega
  rw [move_eq hr, move_eq hq, hline, h.lineDelta_undo]
  by_cases hbelow : q.start.line + 1 ≤ line
  · rw [if_pos hbelow, if_pos (by omega)]
    omega
  · rw [if_neg hbelow, if_neg hbelow]

end Undoes
end ContentChange

/-- **Insertions that are undone in reverse order move no line.** -/
theorem moveAll_undone {undos insertions : List ContentChange}
    (h : List.Forall₂ ContentChange.Undoes undos insertions) (line : Int) :
    moveAll (insertions ++ undos.reverse) line = line := by
  induction h generalizing line with
  | nil => rfl
  | @cons undo insertion undos insertions hfirst _ ih =>
    -- what lies between the first insertion and its undoing moves no line
    have hinner : moveAll (insertions ++ undos.reverse) (insertion.move line) =
        insertion.move line := ih (insertion.move line)
    have hsplit : insertion :: insertions ++ (undo :: undos).reverse =
        insertion :: (insertions ++ undos.reverse) ++ [undo] := by
      simp
    calc moveAll (insertion :: insertions ++ (undo :: undos).reverse) line
        = undo.move (moveAll (insertions ++ undos.reverse) (insertion.move line)) := by
          rw [hsplit, moveAll, List.foldl_append]
          rfl
      _ = undo.move (insertion.move line) := by rw [hinner]
      _ = line := hfirst.move_move line

/-- Insertions and their undoing shift lines exactly if a text with a break was put in. -/
theorem shiftCount_undone {undos insertions : List ContentChange}
    (h : List.Forall₂ ContentChange.Undoes undos insertions) :
    0 < shiftCount (insertions ++ undos.reverse) ↔
      ∃ c ∈ insertions, editorBreaks c.text.toList ≠ 0 := by
  rw [shiftCount_eq, List.countP_append, List.countP_reverse]
  induction h with
  | nil => simp
  | @cons undo insertion undos insertions hfirst _ ih =>
    rw [List.exists_mem_cons_iff, ← ih]
    simp only [List.countP_cons, hfirst.lineDelta_undo, hfirst.lineDelta_insertion]
    by_cases hbreak : editorBreaks insertion.text.toList = 0
    · simp [hbreak]
    · simp only [ne_eq, Int.neg_eq_zero, Int.natCast_eq_zero, hbreak, not_false_eq_true,
        decide_true, if_true, true_or, iff_true]
      omega

namespace Snapshot

/-- **Insertions that are undone leave a snapshot as it was.** Whatever texts were put in, one
after the other, and at whichever places: when they are taken out again, the last of them
first, every variable has the lines that it had, and all else is as before. The snapshot is
dirty if it was before, or if one of the texts held a break. -/
theorem insertions_undone {undos insertions : List ContentChange}
    (h : List.Forall₂ ContentChange.Undoes undos insertions) (s : Snapshot) :
    (s.applyChanges insertions).applyChanges undos.reverse =
      { s with dirty :=
          s.dirty || insertions.any fun c => editorBreaks c.text.toList ≠ 0 } := by
  have hvars : s.vars.map (Variable.moved (insertions ++ undos.reverse)) = s.vars := by
    have hid : Variable.moved (insertions ++ undos.reverse) = id := by
      funext v
      simp only [Variable.moved, moveAll_undone h, id_eq]
    rw [hid, List.map_id]
  have hdirty : decide (0 < shiftCount (insertions ++ undos.reverse)) =
      insertions.any fun c => editorBreaks c.text.toList ≠ 0 := by
    rw [Bool.eq_iff_iff, decide_eq_true_iff, shiftCount_undone h, List.any_eq_true]
    simp only [decide_eq_true_iff]
  rw [← applyChanges_append, applyChanges_eq, hvars, hdirty]

/-- Three insertions, of which the second lies above the first and the third in the middle of
what the first put in, without a break. -/
def nestedInsertions : List ContentChange :=
  [⟨some ⟨⟨2, 1⟩, ⟨2, 1⟩⟩, "a\r\nb\r"⟩, ⟨some ⟨⟨0, 0⟩, ⟨0, 0⟩⟩, "\n"⟩,
    ⟨some ⟨⟨4, 0⟩, ⟨4, 0⟩⟩, "x"⟩]

/-- They move both ends of a scope, each by another number of lines, and back. -/
theorem nestedInsertions_undone :
    let s : Snapshot := { vars := [⟨"v", "int", ⟨1, some 3, 6, none⟩⟩], path := some "/a" }
    let undos : List ContentChange :=
      [⟨some ⟨⟨2, 1⟩, ⟨4, 0⟩⟩, ""⟩, ⟨some ⟨⟨0, 0⟩, ⟨1, 0⟩⟩, ""⟩, ⟨some ⟨⟨4, 0⟩, ⟨4, 1⟩⟩, ""⟩]
    List.Forall₂ ContentChange.Undoes undos nestedInsertions ∧
      (s.applyChanges nestedInsertions).vars = [⟨"v", "int", ⟨2, some 3, 9, none⟩⟩] ∧
      (s.applyChanges nestedInsertions).applyChanges undos.reverse =
        { vars := [⟨"v", "int", ⟨1, some 3, 6, none⟩⟩], path := some "/a", dirty := true } := by
  intro s undos
  have hundoes : List.Forall₂ ContentChange.Undoes undos nestedInsertions :=
    .cons (.insertion ⟨2, 1⟩ "a\r\nb\r" 1 0) (.cons (.insertion ⟨0, 0⟩ "\n" 0 0)
      (.cons (.insertion ⟨4, 0⟩ "x" 0 1) .nil))
  refine ⟨hundoes, by decide, ?_⟩
  rw [insertions_undone hundoes s]
  rfl

end Snapshot
end RenServer
