/- # Two changes in either order

An editor with two cursors makes two changes at once, one above the other, and reports
them in the order it likes. From the bottom up, the upper change is told as it stands in the
old document, since the lower one has not moved its lines. From the top down, the upper
change has already moved the lines of the lower one, so the lower one is told with its lines
moved by as many as the upper one adds (`ContentChange.moveLines`).

A snapshot comes out the same. Whatever the two changes put in or take out, a line above both
stays, a line between them is moved by the upper one alone, and a line below both is moved
by both, in either order (`ContentChange.Above.move_exchange`). Only a line that the lower change
drops can tell the orders apart: from the bottom up it is moved before the lower change, and
if it comes to lie before the upper one too, that one leaves it alone.

Key definitions: `ContentChange.moveLines`, `ContentChange.Above`, `ContentChange.Covers`.
Key theorems: `ContentChange.Above.lineDelta_moveLines`, `ContentChange.Above.move_exchange`,
`Snapshot.changes_in_either_order`.
-/
import RenServer.Proofs.Snapshot.ValidScopes

namespace RenServer

open Text

/-- The range with both lines moved. -/
def Range.moveLines (r : Range) (delta : Int) : Range where
  start := { r.start with line := (r.start.line + delta).toNat }
  stop := { r.stop with line := (r.stop.line + delta).toNat }

namespace ContentChange

/-- The change with both lines of its range moved. -/
def moveLines (c : ContentChange) (delta : Int) : ContentChange :=
  { c with range := c.range.map (·.moveLines delta) }

/-- Two changes of ranges that do not end before they begin, of which the first ends no later
than on the line on which the second begins. -/
def Above (upper lower : ContentChange) : Prop :=
  ∃ r ∈ upper.range, ∃ q ∈ lower.range,
    r.start.line ≤ r.stop.line ∧ r.stop.line ≤ q.start.line ∧ q.start.line ≤ q.stop.line

/-- The range of a change holds the end of a line that counts from one: these are the lines
from the one on which it begins up to the last before the one on which it ends. -/
def Covers (c : ContentChange) (line : Int) : Prop :=
  ∃ r ∈ c.range, r.start.line + 1 ≤ line ∧ line ≤ r.stop.line

variable {c upper lower : ContentChange} {line : Int}

theorem Drops.covers (h : c.Drops line) : c.Covers line := by
  obtain ⟨r, hr, hstart, hstop⟩ := h
  exact ⟨r, hr, hstart, by omega⟩

/-- The lower of two changes is moved to lines that exist, and not above the upper one, which
takes out no more lines than it covers. -/
theorem Above.exists_ranges (h : upper.Above lower) :
    ∃ r q q', upper.range = some r ∧ lower.range = some q ∧
      (lower.moveLines upper.lineDelta).range = some q' ∧
      (q'.start.line : Int) = q.start.line + upper.lineDelta ∧
      (q'.stop.line : Int) = q.stop.line + upper.lineDelta ∧
      r.start.line ≤ q.start.line ∧ r.start.line ≤ q.start.line + upper.lineDelta := by
  obtain ⟨r, hr, q, hq, hupper, hbetween, hlower⟩ := h
  have hdelta : (r.start.line : Int) - r.stop.line ≤ upper.lineDelta := by
    rw [lineDelta_of_range hr]
    omega
  have hmoved : (lower.moveLines upper.lineDelta).range = some (q.moveLines upper.lineDelta) := by
    rw [moveLines, hq, Option.map_some]
  have hstart : 0 ≤ (q.start.line : Int) + upper.lineDelta := by omega
  have hstop : 0 ≤ (q.stop.line : Int) + upper.lineDelta := by omega
  exact ⟨r, q, q.moveLines upper.lineDelta, hr, hq, hmoved, Int.toNat_of_nonneg hstart,
    Int.toNat_of_nonneg hstop, by omega, by omega⟩

/-- A change that is moved adds as many lines as before. -/
theorem Above.lineDelta_moveLines (h : upper.Above lower) :
    (lower.moveLines upper.lineDelta).lineDelta = lower.lineDelta := by
  obtain ⟨r, q, q', -, hq, hq', hstart, hstop, -, -⟩ := h.exists_ranges
  have htext : (lower.moveLines upper.lineDelta).text = lower.text := rfl
  rw [lineDelta_of_range hq', lineDelta_of_range hq, hstart, hstop, htext]
  omega

/-- **A line is moved to the same place in either order**, unless the lower change drops it. -/
theorem Above.move_exchange (h : upper.Above lower) (hkept : ¬ lower.Drops line) :
    (lower.moveLines upper.lineDelta).move (upper.move line) = upper.move (lower.move line) := by
  obtain ⟨r, q, q', hr, hq, hq', hstart, -, hle, hle'⟩ := h.exists_ranges
  rw [move_eq hq', h.lineDelta_moveLines, hstart]
  by_cases habove : line ≤ r.start.line
  · -- above both changes; the lower one is not moved above the upper one
    have hupper : upper.move line = line := by rw [move_eq hr, if_neg (by omega)]
    have hlower : lower.move line = line := by rw [move_eq hq, if_neg (by omega)]
    rw [hlower, hupper, if_neg (by omega)]
  · have hupper : upper.move line = line + upper.lineDelta := by
      rw [move_eq hr, if_pos (by omega)]
    by_cases hbetween : line ≤ q.start.line
    · have hlower : lower.move line = line := by rw [move_eq hq, if_neg (by omega)]
      rw [hlower, hupper, if_neg (by omega)]
    · -- below both: the lower change leaves the line below its own beginning
      have hlower : lower.move line = line + lower.lineDelta := by
        rw [move_eq hq, if_pos (by omega)]
      have hbelow : q.start.line + 1 ≤ lower.move line := not_drops_iff.mp hkept q hq (by omega)
      rw [hlower] at hbelow ⊢
      rw [hupper, if_pos (by omega), move_eq hr, if_pos (by omega)]
      omega

end ContentChange

namespace Snapshot

/-- **Two changes may come in either order.** Of two changes of ranges, one above the other,
whatever they put in and take out: if no end of a scope lies on a line that the lower one
covers, then the upper change followed by the lower one, with its lines moved by as many as the
upper one adds, makes of a snapshot what the lower change followed by the upper one makes of
it, and shifts lines as many times. -/
theorem changes_in_either_order {upper lower : ContentChange} (h : upper.Above lower)
    {s : Snapshot}
    (hclear : ∀ v ∈ s.vars, ¬ lower.Covers v.scope.startLine ∧ ¬ lower.Covers v.scope.endLine) :
    s.applyChanges [upper, lower.moveLines upper.lineDelta] = s.applyChanges [lower, upper] ∧
      shiftCount [upper, lower.moveLines upper.lineDelta] = shiftCount [lower, upper] := by
  have hcount :
      shiftCount [upper, lower.moveLines upper.lineDelta] = shiftCount [lower, upper] := by
    rw [shiftCount_eq, shiftCount_eq]
    simp only [List.countP_cons, List.countP_nil, h.lineDelta_moveLines]
    omega
  have hmoved : ∀ v ∈ s.vars, v.moved [upper, lower.moveLines upper.lineDelta] =
      v.moved [lower, upper] := by
    intro v hv
    obtain ⟨hstart, hend⟩ := hclear v hv
    have hfirst := h.move_exchange fun hdrops => hstart hdrops.covers
    have hlast := h.move_exchange fun hdrops => hend hdrops.covers
    simp only [Variable.moved, moveAll, List.foldl_cons, List.foldl_nil, hfirst, hlast]
  refine ⟨?_, hcount⟩
  rw [applyChanges_eq, applyChanges_eq, hcount, List.map_congr_left hmoved]

/-- Two lines give way to one, and on the line where they end another change begins, which puts
three breaks of three kinds in the place of two lines. -/
theorem shrunk_and_grown_in_either_order :
    let s : Snapshot :=
      { vars := [⟨"v", "int", ⟨1, some 3, 6, none⟩⟩, ⟨"w", "int", ⟨3, none, 9, some 1⟩⟩] }
    let upper : ContentChange := ⟨some ⟨⟨1, 4⟩, ⟨3, 0⟩⟩, "a\r\n"⟩
    let lower : ContentChange := ⟨some ⟨⟨3, 2⟩, ⟨5, 1⟩⟩, "x\ry\nz\r\n"⟩
    let moved : ContentChange := ⟨some ⟨⟨2, 2⟩, ⟨4, 1⟩⟩, "x\ry\nz\r\n"⟩
    upper.Above lower ∧
      (∀ v ∈ s.vars, ¬ lower.Covers v.scope.startLine ∧ ¬ lower.Covers v.scope.endLine) ∧
      s.applyChanges [upper, moved] = s.applyChanges [lower, upper] ∧
      shiftCount [upper, moved] = shiftCount [lower, upper] ∧
      s.applyChanges [lower, upper] =
        { vars := [⟨"v", "int", ⟨1, some 3, 6, none⟩⟩, ⟨"w", "int", ⟨2, none, 9, some 1⟩⟩]
          dirty := true } ∧
      shiftCount [lower, upper] = 2 := by
  intro s upper lower moved
  have habove : upper.Above lower := ⟨_, rfl, _, rfl, by decide, by decide, by decide⟩
  have hclear : ∀ v ∈ s.vars,
      ¬ lower.Covers v.scope.startLine ∧ ¬ lower.Covers v.scope.endLine := by
    simp [s, lower, ContentChange.Covers]
  have hmoved : lower.moveLines upper.lineDelta = moved := by decide
  obtain ⟨hsame, hcount⟩ := changes_in_either_order habove hclear
  rw [hmoved] at hsame hcount
  exact ⟨habove, hclear, hsame, hcount, by decide, by decide⟩

end Snapshot
end RenServer
