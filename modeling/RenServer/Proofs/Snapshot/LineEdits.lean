/- # Line edits one after another

A snapshot goes through line edits one at a time. They move the lines of its scopes and
leave everything else alone (`Snapshot.foldl_shift_frame`); each end of a scope moves on its
own, whatever becomes of the other (`Snapshot.foldl_shift_vars`); and the snapshot is dirty
from the first edit on that moves lines (`Snapshot.foldl_shift_dirty`).

An edit that adds lines keeps any two lines apart and in order, so edits that all do so never
bring an end of a scope to the other side of a line (`LineEdit.moveAll_le_moveAll_iff`).

Key definitions: `LineEdit.moveAll`, `Variable.shiftAll`, `Variable.shape`.
Key theorems: `Snapshot.foldl_shift_frame`, `Snapshot.foldl_shift_vars`,
`Snapshot.foldl_shift_dirty`, `LineEdit.moveAll_le_moveAll_iff`.
-/
import Mathlib.Tactic.SplitIfs
import RenServer.Snapshot

namespace RenServer

/-! ### Where lines move -/

namespace LineEdit

/-- Where line edits move a line that counts from one. -/
def moveAll (edits : List LineEdit) (line : Int) : Int :=
  edits.foldl (fun line e => e.move line) line

theorem moveAll_cons (e : LineEdit) (edits : List LineEdit) (line : Int) :
    moveAll (e :: edits) line = moveAll edits (e.move line) := rfl

/-- An edit that adds lines keeps two lines in order. -/
theorem move_le_move_iff {e : LineEdit} (h : 0 < e.delta) {a b : Int} :
    e.move a ≤ e.move b ↔ a ≤ b := by
  unfold move
  split_ifs <;> omega

/-- **Edits that add lines keep all lines in order.** -/
theorem moveAll_le_moveAll_iff {edits : List LineEdit} (h : ∀ e ∈ edits, 0 < e.delta)
    {a b : Int} : moveAll edits a ≤ moveAll edits b ↔ a ≤ b := by
  induction edits generalizing a b with
  | nil => exact Iff.rfl
  | cons e edits ih =>
    have hrest := ih (a := e.move a) (b := e.move b) fun x hx => h x (List.mem_cons_of_mem e hx)
    exact hrest.trans (move_le_move_iff (h e List.mem_cons_self))

end LineEdit

/-! ### What a snapshot keeps -/

/-- The variable whose scope line edits moved. -/
def Variable.shiftAll (edits : List LineEdit) (v : Variable) : Variable :=
  { v with scope := { v.scope with
      startLine := LineEdit.moveAll edits v.scope.startLine
      endLine := LineEdit.moveAll edits v.scope.endLine } }

/-- A variable without the lines of its scope. -/
def Variable.shape (v : Variable) : String × String × Option Int × Option Int :=
  (v.name, v.typeName, v.scope.startCol, v.scope.endCol)

namespace Snapshot

theorem shift_path (s : Snapshot) (e : LineEdit) : (s.shift e).path = s.path := by
  unfold shift
  split <;> rfl

theorem shift_symbols (s : Snapshot) (e : LineEdit) : (s.shift e).symbols = s.symbols := by
  unfold shift
  split <;> rfl

theorem shift_vars (s : Snapshot) (e : LineEdit) :
    (s.shift e).vars = s.vars.map (Variable.shift e) := by
  unfold shift
  split
  · rename_i h
    have hmove : ∀ line, e.move line = line := fun line => by simp [LineEdit.move, h]
    have hid : Variable.shift e = id := by
      funext v
      simp [Variable.shift, Scope.shift, hmove]
    rw [hid, List.map_id]
  · rfl

theorem shift_shapes (s : Snapshot) (e : LineEdit) :
    (s.shift e).vars.map Variable.shape = s.vars.map Variable.shape := by
  unfold shift
  split
  · rfl
  · simp only [List.map_map]
    rfl

theorem shift_dirty (s : Snapshot) (e : LineEdit) :
    (s.shift e).dirty = true ↔ s.dirty = true ∨ e.delta ≠ 0 := by
  unfold shift
  split
  · rename_i h
    simp [h]
  · rename_i h
    simp [h]

/-- Line edits keep the document, the symbols, and all of the variables but the
lines of their scopes. -/
theorem foldl_shift_frame (edits : List LineEdit) (s : Snapshot) :
    (edits.foldl shift s).path = s.path ∧ (edits.foldl shift s).symbols = s.symbols ∧
      (edits.foldl shift s).vars.map Variable.shape = s.vars.map Variable.shape := by
  induction edits generalizing s with
  | nil => exact ⟨rfl, rfl, rfl⟩
  | cons e edits ih =>
    obtain ⟨hp, hs, hv⟩ := ih (s.shift e)
    exact ⟨hp.trans (s.shift_path e), hs.trans (s.shift_symbols e), hv.trans (s.shift_shapes e)⟩

/-- **Line edits move both ends of every scope, each on its own.** -/
theorem foldl_shift_vars (edits : List LineEdit) (s : Snapshot) :
    (edits.foldl shift s).vars = s.vars.map (Variable.shiftAll edits) := by
  induction edits generalizing s with
  | nil =>
    have hid : Variable.shiftAll [] = id := rfl
    rw [hid, List.map_id]
    rfl
  | cons e edits ih =>
    have hfirst : Variable.shiftAll (e :: edits) = Variable.shiftAll edits ∘ Variable.shift e := rfl
    rw [List.foldl_cons, ih, shift_vars, List.map_map, hfirst]

/-- A snapshot is dirty after line edits if it was before or one of them moved
lines. -/
theorem foldl_shift_dirty (edits : List LineEdit) (s : Snapshot) :
    (edits.foldl shift s).dirty = true ↔ s.dirty = true ∨ ∃ e ∈ edits, e.delta ≠ 0 := by
  induction edits generalizing s with
  | nil => simp
  | cons e edits ih =>
    rw [List.foldl_cons, ih, shift_dirty, or_assoc]
    simp

/-- Line edits that move no lines change nothing. -/
theorem foldl_shift_of_still {edits : List LineEdit} (h : ∀ e ∈ edits, e.delta = 0)
    (s : Snapshot) : edits.foldl shift s = s := by
  induction edits with
  | nil => rfl
  | cons e edits ih =>
    have he : s.shift e = s := by simp [shift, h e List.mem_cons_self]
    rw [List.foldl_cons, he]
    exact ih fun x hx => h x (List.mem_cons_of_mem e hx)

end Snapshot
end RenServer
