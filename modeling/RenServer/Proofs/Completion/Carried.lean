/- # Insertions carry completions along

A cursor counts its lines from zero and a scope counts them from one, and an edit carries a
cursor just as it moves the line that the cursor is on (`LineEdit.move_succ`). Edits that
add lines keep all lines in order, so no end of a scope comes to lie on the other side of the
cursor: whether the cursor's line is within a scope is the same before and after, however
the scope lies, be it on the cursor's own line or the wrong way round
(`Scope.contains_shiftAll`).

After such edits the snapshot is dirty and its columns do not count. So at the carried
cursor, at whichever character, it offers what the snapshot before, taken as dirty, offers
at the cursor before (`Snapshot.completions_carried`).

Key definitions: `LineEdit.carry`, `LineEdit.carryAll`.
Key theorems: `LineEdit.moveAll_succ`, `Scope.contains_shiftAll`,
`Snapshot.completions_carried`.
-/
import RenServer.Completion
import RenServer.Proofs.Snapshot.LineEdits

namespace RenServer

/-! ### Where a cursor is carried -/

namespace LineEdit

/-- Where an edit carries a cursor: its line counts from zero. -/
def carry (e : LineEdit) (line : Int) : Int := if e.line ≤ line then line + e.delta else line

/-- Where edits carry a cursor, one after the other. -/
def carryAll (edits : List LineEdit) (line : Int) : Int :=
  edits.foldl (fun line e => e.carry line) line

/-- An edit carries a cursor as it moves the line that the cursor is on. -/
theorem move_succ (e : LineEdit) (line : Int) : e.move (line + 1) = e.carry line + 1 := by
  unfold move carry
  by_cases h : e.line ≤ line
  · rw [if_pos h, if_pos (by omega)]
    omega
  · rw [if_neg h, if_neg (by omega)]

theorem moveAll_succ (edits : List LineEdit) (line : Int) :
    moveAll edits (line + 1) = carryAll edits line + 1 := by
  induction edits generalizing line with
  | nil => rfl
  | cons e edits ih =>
    rw [moveAll_cons, move_succ, ih]
    rfl

end LineEdit

/-! ### What is visible there -/

/-- **A line is within a scope after insertions exactly if it was before.** -/
theorem Scope.contains_shiftAll {edits : List LineEdit} (hadd : ∀ e ∈ edits, 0 < e.delta)
    (v : Variable) (line col col' : Int) :
    (v.shiftAll edits).scope.contains true (LineEdit.moveAll edits line) col' =
      v.scope.contains true line col := by
  have hstart : LineEdit.moveAll edits v.scope.startLine ≤ LineEdit.moveAll edits line ↔
      v.scope.startLine ≤ line := LineEdit.moveAll_le_moveAll_iff hadd
  have hend : LineEdit.moveAll edits line ≤ LineEdit.moveAll edits v.scope.endLine ↔
      line ≤ v.scope.endLine := LineEdit.moveAll_le_moveAll_iff hadd
  simp only [Scope.contains, Variable.shiftAll, hstart, hend, Bool.true_or, Bool.and_true]

namespace Snapshot

/-- The keywords and the symbols are offered wherever the cursor is. -/
theorem filter_completions (s : Snapshot) (cursor : Position) :
    (s.completions cursor).filter (fun item => item.kind ≠ .variable) =
      keywordItems ++ s.symbols.map Symbol.item := by
  have hvars : ((s.visible cursor).map Variable.item).filter (fun item => item.kind ≠ .variable) =
      [] := by
    simp [Variable.item]
  have hkeywords : keywordItems.filter (fun item => item.kind ≠ .variable) = keywordItems := rfl
  have hsymbols : (s.symbols.map Symbol.item).filter (fun item => item.kind ≠ .variable) =
      s.symbols.map Symbol.item := by
    rw [List.filter_eq_self]
    intro item hitem
    obtain ⟨symbol, -, rfl⟩ := List.mem_map.mp hitem
    cases hk : symbol.kind <;> simp [Symbol.item, SymbolKind.itemKind, hk]
  rw [completions, List.filter_append, List.filter_append, hvars, hkeywords, hsymbols,
    List.nil_append]

/-- The variables at the carried cursor are those at the cursor before. -/
theorem visible_carried {edits : List LineEdit} (hne : edits ≠ [])
    (hadd : ∀ e ∈ edits, 0 < e.delta) (s : Snapshot) {cursor carried : Position}
    (hcarried : (carried.line : Int) = LineEdit.carryAll edits cursor.line) :
    (edits.foldl shift s).visible carried =
      ({ s with dirty := true }.visible cursor).map (Variable.shiftAll edits) := by
  have hdirty : (edits.foldl shift s).dirty = true := by
    rw [foldl_shift_dirty]
    obtain ⟨e, rest, rfl⟩ := List.exists_cons_of_ne_nil hne
    have he : 0 < e.delta := hadd e List.mem_cons_self
    exact .inr ⟨e, List.mem_cons_self, by omega⟩
  have hline : (carried.line : Int) + 1 = LineEdit.moveAll edits (cursor.line + 1) := by
    rw [LineEdit.moveAll_succ, hcarried]
  unfold visible
  rw [foldl_shift_vars, List.filter_map, hdirty, hline]
  congr 1
  apply List.filter_congr
  intro v _
  exact Scope.contains_shiftAll hadd v _ _ _

/-- **Insertions carry completions along with the cursor.** Whatever a snapshot knows and
whatever edits add lines to the document, one or more, the items offered at the carried
cursor are those that the snapshot before, taken as dirty, offers at the cursor before. They
are in the same order, and the characters of the two cursors do not matter. The keywords and
the symbols among them are those that were offered all along. -/
theorem completions_carried {edits : List LineEdit} (hne : edits ≠ [])
    (hadd : ∀ e ∈ edits, 0 < e.delta) (s : Snapshot) {cursor carried : Position}
    (hcarried : (carried.line : Int) = LineEdit.carryAll edits cursor.line) :
    (edits.foldl shift s).completions carried = { s with dirty := true }.completions cursor ∧
      ((edits.foldl shift s).completions carried).filter (fun item => item.kind ≠ .variable) =
        (s.completions cursor).filter (fun item => item.kind ≠ .variable) := by
  have hsymbols : (edits.foldl shift s).symbols = s.symbols := (foldl_shift_frame edits s).2.1
  have hitems : Variable.item ∘ Variable.shiftAll edits = Variable.item := rfl
  constructor
  · unfold completions
    rw [visible_carried hne hadd s hcarried, List.map_map, hitems, hsymbols]
  · rw [filter_completions, filter_completions, hsymbols]

/-- Three lines come in at the top, and then two at the line of the cursor. The cursor is on
the last line of one scope, behind its last column; another scope lies the wrong way round. -/
theorem completions_after_two_insertions :
    let s : Snapshot :=
      { vars := [⟨"x", "int", ⟨2, some 5, 6, some 1⟩⟩, ⟨"y", "int", ⟨6, none, 2, none⟩⟩,
          ⟨"z", "bool", ⟨7, some 1, 9, none⟩⟩] }
    let edits : List LineEdit := [⟨0, 3⟩, ⟨8, 2⟩]
    (∀ e ∈ edits, 0 < e.delta) ∧ LineEdit.carryAll edits 5 = 10 ∧
      (edits.foldl shift s).completions ⟨10, 0⟩ =
        { label := "x", kind := .variable, detail := some "int" } :: keywordItems := by
  intro s edits
  have hadd : ∀ e ∈ edits, 0 < e.delta := by decide
  have hcarried : LineEdit.carryAll edits 5 = 10 := rfl
  have hsame : (edits.foldl shift s).completions ⟨10, 0⟩ =
      { s with dirty := true }.completions ⟨5, 7⟩ :=
    (completions_carried (List.cons_ne_nil _ _) hadd s hcarried.symm).1
  refine ⟨hadd, hcarried, hsame.trans ?_⟩
  rfl

end Snapshot
end RenServer
