/- # Scope lines follow the document

An editor cuts a document into lines at `\r\n`, `\r` and `\n` (`editorLines`). Two
texts that do not meet in the middle of a `\r\n` keep their lines when they are put
together: only the last line of the first and the first line of the second become
one (`editorLines_append`). So a change of a document leaves the lines before and
after it as they are, and moves those after it by as many lines as it adds.

A change says on which lines it begins and ends, and a snapshot moves its scopes by
that alone, without the document. `Edited` is the document's side of a change. A
line that no change touches has the same text before and after, at the number to
which the snapshot moves it (`EditedAll.lineAt_moveAll`), and the line edits of the
changes add up to the change of the number of lines (`EditedAll.sum_delta`).

Key definitions: `Text.editorLines`, `Text.SplitsBreak`, `Edited`, `EditedAll`,
`lineAt`, `Spared`.
Key theorems: `Text.editorLines_append`, `Edited.lineAt_move`,
`Snapshot.applyChanges_eq`, `Snapshot.scope_lines_follow_document`.
-/
import Mathlib.Algebra.Ring.Int.Defs
import RenServer.Proofs.Snapshot.LineEdits

namespace RenServer
namespace Text

/-- The lines that an editor sees in a text, without their breaks. -/
def editorLines : List Char → List (List Char)
  | [] => [[]]
  | '\r' :: '\n' :: rest => [] :: editorLines rest
  | c :: rest =>
    if c == '\n' || c == '\r' then [] :: editorLines rest
    else (editorLines rest).modifyHead (c :: ·)

theorem length_editorLines (t : List Char) : (editorLines t).length = editorBreaks t + 1 := by
  fun_induction editorBreaks t with
  | case1 => rfl
  | case2 rest ih => simp [editorLines, ih]
  | case3 c rest hcrlf hc ih =>
    rw [editorLines.eq_3 c rest hcrlf, if_pos hc, List.length_cons, ih]
  | case4 c rest hcrlf hc ih =>
    rw [editorLines.eq_3 c rest hcrlf, if_neg hc, List.length_modifyHead, ih]

theorem editorLines_ne_nil (t : List Char) : editorLines t ≠ [] := by
  intro h
  have hlen := length_editorLines t
  simp [h] at hlen

/-! ### Texts put together -/

/-- Two texts meet in the middle of a line break. -/
def SplitsBreak (a b : List Char) : Prop := a.getLast? = some '\r' ∧ b.head? = some '\n'

theorem not_splitsBreak_tail {c : Char} {a b : List Char} (h : ¬ SplitsBreak (c :: a) b) :
    ¬ SplitsBreak a b := by
  rintro ⟨ha, hb⟩
  exact h ⟨by simp [List.getLast?_cons, ha], hb⟩

theorem not_splitsBreak_left {a b c : List Char} (h : ¬ SplitsBreak a (b ++ c)) :
    ¬ SplitsBreak a b := by
  rintro ⟨ha, hb⟩
  exact h ⟨ha, by simp [List.head?_append, hb]⟩

/-- A text that goes on with another begins with `\r\n` only if it did so alone. -/
theorem crlf_append {c : Char} {a b : List Char} (h : ¬ SplitsBreak (c :: a) b)
    (hc : ∀ rest, c = '\r' → a = '\n' :: rest → False) :
    ∀ rest, c = '\r' → a ++ b = '\n' :: rest → False := by
  rintro rest rfl heq
  cases a with
  | nil =>
    rw [List.nil_append] at heq
    exact h ⟨rfl, by simp [heq]⟩
  | cons x xs =>
    rw [List.cons_append, List.cons.injEq] at heq
    exact hc xs rfl (by rw [heq.1])

/-- Lines followed by lines, when the last of the former goes on as the first of the
latter. -/
def joinLines (ls ms : List (List Char)) : List (List Char) :=
  ls.dropLast ++ (ls.getLastD [] ++ ms.headD []) :: ms.tail

theorem joinLines_cons (l : List Char) {ls : List (List Char)} (h : ls ≠ [])
    (ms : List (List Char)) : joinLines (l :: ls) ms = l :: joinLines ls ms := by
  cases ls with
  | nil => exact absurd rfl h
  | cons x xs => simp [joinLines]

theorem joinLines_modifyHead (c : Char) {ls : List (List Char)} (h : ls ≠ [])
    (ms : List (List Char)) :
    joinLines (ls.modifyHead (c :: ·)) ms = (joinLines ls ms).modifyHead (c :: ·) := by
  cases ls with
  | nil => exact absurd rfl h
  | cons x xs =>
    cases xs with
    | nil => simp [joinLines]
    | cons y ys => simp [joinLines]

/-- **Texts that do not meet in the middle of a break keep their lines.** -/
theorem editorLines_append {a b : List Char} (h : ¬ SplitsBreak a b) :
    editorLines (a ++ b) = joinLines (editorLines a) (editorLines b) := by
  fun_induction editorLines a with
  | case1 =>
    obtain ⟨l, ls, hl⟩ := List.exists_cons_of_ne_nil (editorLines_ne_nil b)
    simp [joinLines, hl]
  | case2 rest ih =>
    rw [joinLines_cons _ (editorLines_ne_nil rest),
      ← ih (not_splitsBreak_tail (not_splitsBreak_tail h))]
    rfl
  | case3 c rest hcrlf hc ih =>
    rw [joinLines_cons _ (editorLines_ne_nil rest), ← ih (not_splitsBreak_tail h), List.cons_append,
      editorLines.eq_3 c _ (crlf_append h hcrlf), if_pos hc]
  | case4 c rest hcrlf hc ih =>
    rw [joinLines_modifyHead c (editorLines_ne_nil rest), ← ih (not_splitsBreak_tail h),
      List.cons_append, editorLines.eq_3 c _ (crlf_append h hcrlf), if_neg hc]

theorem editorBreaks_append {a b : List Char} (h : ¬ SplitsBreak a b) :
    editorBreaks (a ++ b) = editorBreaks a + editorBreaks b := by
  have hlen := congrArg List.length (editorLines_append h)
  simp only [joinLines, List.length_append, List.length_cons, List.length_dropLast,
    List.length_tail, length_editorLines] at hlen
  omega

/-- A line that ends in the first of two texts is a line of it. -/
theorem getElem?_editorLines_left {a b : List Char} (h : ¬ SplitsBreak a b) {i : Nat}
    (hi : i < editorBreaks a) : (editorLines (a ++ b))[i]? = (editorLines a)[i]? := by
  have hlen : i < (editorLines a).dropLast.length := by
    rw [List.length_dropLast, length_editorLines]
    omega
  rw [editorLines_append h, joinLines, List.getElem?_append_left hlen, List.getElem?_dropLast,
    length_editorLines, Nat.add_sub_cancel, if_pos hi]

/-- A line that begins in the second of two texts is a line of it. -/
theorem getElem?_editorLines_right {a b : List Char} (h : ¬ SplitsBreak a b) {j : Nat}
    (hj : 0 < j) : (editorLines (a ++ b))[editorBreaks a + j]? = (editorLines b)[j]? := by
  obtain ⟨k, rfl⟩ := Nat.exists_eq_add_of_lt hj
  have hlen : (editorLines a).dropLast.length = editorBreaks a := by
    rw [List.length_dropLast, length_editorLines, Nat.add_sub_cancel]
  rw [editorLines_append h, joinLines, List.getElem?_append_right (by omega), hlen,
    Nat.add_sub_cancel_left, List.getElem?_cons_succ, List.getElem?_tail]

end Text

open Text

/-! ### Documents and their changes -/

/-- A change takes one document to another: what stands between `before` and `after`
gives way to the text of the change. The range says on which lines this begins and
ends, and no end of what is taken out or put in lies in the middle of a break. -/
inductive Edited : List Char → ContentChange → List Char → Prop where
  | splice (before removed after : List Char) (text : String) (range : Range)
      (hstart : range.start.line = editorBreaks before)
      (hstop : range.stop.line = editorBreaks (before ++ removed))
      (hout : ¬ SplitsBreak before (removed ++ after) ∧ ¬ SplitsBreak (before ++ removed) after)
      (hin : ¬ SplitsBreak before (text.toList ++ after) ∧
        ¬ SplitsBreak (before ++ text.toList) after) :
    Edited (before ++ removed ++ after) { range := some range, text }
      (before ++ text.toList ++ after)

/-- Changes take one document to another, each from where the last one left it. -/
inductive EditedAll : List Char → List ContentChange → List Char → Prop where
  | nil (document : List Char) : EditedAll document [] document
  | cons {old middle new : List Char} {c : ContentChange} {cs : List ContentChange}
      (h : Edited old c middle) (hs : EditedAll middle cs new) : EditedAll old (c :: cs) new

/-- The text of a line that counts from one. -/
def lineAt (document : List Char) (line : Int) : Option (List Char) :=
  if 1 ≤ line then (editorLines document)[(line - 1).toNat]? else none

/-- Where a change moves a line that counts from one. -/
def ContentChange.move (c : ContentChange) (line : Int) : Int :=
  match c.lineEdit? with
  | none => line
  | some e => e.move line

/-- Where changes move a line. -/
def moveAll (cs : List ContentChange) (line : Int) : Int :=
  cs.foldl (fun line c => c.move line) line

/-- A change does not touch a line that counts from one. -/
def ContentChange.Spares (c : ContentChange) (line : Int) : Prop :=
  match c.range with
  | none => True
  | some r => line ≤ r.start.line ∨ r.stop.line + 1 < line

instance : (c : ContentChange) → (line : Int) → Decidable (c.Spares line)
  | ⟨none, _⟩, _ => inferInstanceAs (Decidable True)
  | ⟨some r, _⟩, line => inferInstanceAs (Decidable (line ≤ r.start.line ∨ r.stop.line + 1 < line))

/-- None of the changes touches a line, wherever the earlier ones move it. -/
def Spared : List ContentChange → Int → Prop
  | [], _ => True
  | c :: cs, line => c.Spares line ∧ Spared cs (c.move line)

instance decidableSpared : (cs : List ContentChange) → (line : Int) → Decidable (Spared cs line)
  | [], _ => inferInstanceAs (Decidable True)
  | c :: cs, line =>
    have := decidableSpared cs (c.move line)
    inferInstanceAs (Decidable (c.Spares line ∧ Spared cs (c.move line)))

namespace Edited

variable {old new : List Char} {c : ContentChange}

/-- A change adds as many lines as its line edit says. -/
theorem delta_eq (h : Edited old c new) :
    ∃ e, c.lineEdit? = some e ∧
      e.delta = ((editorLines new).length : Int) - (editorLines old).length := by
  obtain ⟨before, removed, after, text, range, hstart, hstop, hout, hin⟩ := h
  have htext := editorBreaks_append (not_splitsBreak_left hin.1)
  refine ⟨_, rfl, ?_⟩
  simp only [hstart, hstop, length_editorLines, editorBreaks_append hout.2,
    editorBreaks_append hin.2, htext]
  omega

/-- **A line that a change does not touch keeps its text.** -/
theorem lineAt_move (h : Edited old c new) {line : Int} (hs : c.Spares line) :
    lineAt new (c.move line) = lineAt old line := by
  obtain ⟨before, removed, after, text, range, hstart, hstop, hout, hin⟩ := h
  have hremoved := editorBreaks_append (not_splitsBreak_left hout.1)
  have htext := editorBreaks_append (not_splitsBreak_left hin.1)
  rcases hs with hbefore | hafter
  · -- the line ends before the change begins, and stays where it is
    have hmove : ContentChange.move { range := some range, text } line = line := by
      simp only [ContentChange.move, ContentChange.lineEdit?, Option.map_some, LineEdit.move]
      rw [if_neg (by omega)]
    rw [hmove]
    unfold lineAt
    by_cases hpos : 1 ≤ line
    · have hi : (line - 1).toNat < editorBreaks before := by omega
      rw [if_pos hpos, if_pos hpos, List.append_assoc, List.append_assoc,
        getElem?_editorLines_left hout.1 hi, getElem?_editorLines_left hin.1 hi]
    · rw [if_neg hpos, if_neg hpos]
  · -- the line begins `j` breaks after the change ends, in either document
    obtain ⟨j, hj⟩ : ∃ j : Nat, line - 1 = range.stop.line + j :=
      ⟨(line - 1 - range.stop.line).toNat, by omega⟩
    have hmove : ContentChange.move { range := some range, text } line =
        editorBreaks (before ++ text.toList) + j + 1 := by
      simp only [ContentChange.move, ContentChange.lineEdit?, Option.map_some, LineEdit.move]
      rw [if_pos (by omega), htext]
      omega
    have hnew : ((editorBreaks (before ++ text.toList) + j + 1 : Int) - 1).toNat =
        editorBreaks (before ++ text.toList) + j := by omega
    have hold : (line - 1).toNat = editorBreaks (before ++ removed) + j := by omega
    rw [hmove]
    unfold lineAt
    rw [if_pos (by omega), if_pos (by omega), hnew, hold,
      getElem?_editorLines_right hin.2 (by omega), getElem?_editorLines_right hout.2 (by omega)]

end Edited

namespace EditedAll

variable {old new : List Char} {cs : List ContentChange}

/-- Line edits add up to the change of the number of lines. -/
theorem sum_delta (h : EditedAll old cs new) :
    ((lineEdits cs).map LineEdit.delta).sum =
      ((editorLines new).length : Int) - (editorLines old).length := by
  induction h with
  | nil => simp [lineEdits]
  | cons h _ ih =>
    obtain ⟨e, he, hdelta⟩ := h.delta_eq
    unfold lineEdits at ih ⊢
    rw [List.filterMap_cons_some he, List.map_cons, List.sum_cons, ih, hdelta]
    omega

/-- A line that no change touches keeps its text. -/
theorem lineAt_moveAll (h : EditedAll old cs new) {line : Int} (hs : Spared cs line) :
    lineAt new (moveAll cs line) = lineAt old line := by
  induction h generalizing line with
  | nil => rfl
  | cons h _ ih => exact (ih hs.2).trans (h.lineAt_move hs.1)

end EditedAll

/-! ### The scopes of a snapshot -/

/-- The variable whose scope changes moved. -/
def Variable.moved (cs : List ContentChange) (v : Variable) : Variable :=
  { v with scope := { v.scope with
      startLine := moveAll cs v.scope.startLine
      endLine := moveAll cs v.scope.endLine } }

/-- Changes move a line as their line edits do. -/
theorem moveAll_eq (cs : List ContentChange) (line : Int) :
    moveAll cs line = LineEdit.moveAll (lineEdits cs) line := by
  induction cs generalizing line with
  | nil => rfl
  | cons c cs ih =>
    have hfirst : moveAll (c :: cs) line = moveAll cs (c.move line) := rfl
    rw [hfirst, ih, ContentChange.move, lineEdits, lineEdits]
    cases he : c.lineEdit? with
    | none => rw [List.filterMap_cons_none he]
    | some e => rw [List.filterMap_cons_some he, LineEdit.moveAll_cons]

/-- How many lines a change adds, or takes away if it is negative. -/
def ContentChange.lineDelta (c : ContentChange) : Int := c.lineEdit?.elim 0 LineEdit.delta

theorem shiftCount_eq (cs : List ContentChange) :
    shiftCount cs = cs.countP fun c => c.lineDelta ≠ 0 := by
  unfold shiftCount lineEdits
  rw [List.countP_filterMap]
  apply List.countP_congr
  intro c _
  cases he : c.lineEdit? with
  | none => simp [ContentChange.lineDelta, he]
  | some e => simp [ContentChange.lineDelta, he]

namespace Snapshot

/-- Changes move both ends of every scope, each on its own. -/
theorem applyChanges_vars (s : Snapshot) (cs : List ContentChange) :
    (s.applyChanges cs).vars = s.vars.map (Variable.moved cs) := by
  have hmoved : Variable.moved cs = Variable.shiftAll (lineEdits cs) := by
    funext v
    simp only [Variable.moved, Variable.shiftAll, moveAll_eq]
  rw [applyChanges, foldl_shift_vars, hmoved]

/-- Changes move the scopes and leave the rest, and the snapshot is dirty if it was before
or one of them shifted lines. -/
theorem applyChanges_eq (s : Snapshot) (cs : List ContentChange) :
    s.applyChanges cs =
      { s with vars := s.vars.map (Variable.moved cs)
               dirty := s.dirty || decide (0 < shiftCount cs) } := by
  obtain ⟨hpath, hsymbols, -⟩ := foldl_shift_frame (lineEdits cs) s
  have hdirty : (s.applyChanges cs).dirty = (s.dirty || decide (0 < shiftCount cs)) := by
    rw [Bool.eq_iff_iff, applyChanges, foldl_shift_dirty, Bool.or_eq_true, decide_eq_true_iff,
      shiftCount, List.countP_pos_iff]
    simp only [decide_eq_true_iff]
  calc s.applyChanges cs
      = ⟨(s.applyChanges cs).symbols, (s.applyChanges cs).vars, (s.applyChanges cs).dirty,
          (s.applyChanges cs).path⟩ := rfl
    _ = _ := by rw [hdirty, applyChanges_vars, applyChanges, hpath, hsymbols]

theorem applyChanges_append (s : Snapshot) (cs ds : List ContentChange) :
    s.applyChanges (cs ++ ds) = (s.applyChanges cs).applyChanges ds := by
  unfold applyChanges lineEdits
  rw [List.filterMap_append, List.foldl_append]

/-- **The scopes of a snapshot follow the document.** Whatever changes take a document
to another, their line edits add up to the change of the number of lines, and an end
of a scope that no change touches is moved to a line with the text of the line on
which it was. -/
theorem scope_lines_follow_document {old new : List Char} {cs : List ContentChange}
    (h : EditedAll old cs new) (s : Snapshot) :
    ((lineEdits cs).map LineEdit.delta).sum =
        ((editorLines new).length : Int) - (editorLines old).length ∧
      ∀ (i : Nat) (v : Variable), s.vars[i]? = some v →
        ∃ v', (s.applyChanges cs).vars[i]? = some v' ∧
          (Spared cs v.scope.startLine →
            lineAt new v'.scope.startLine = lineAt old v.scope.startLine) ∧
          (Spared cs v.scope.endLine →
            lineAt new v'.scope.endLine = lineAt old v.scope.endLine) := by
  refine ⟨h.sum_delta, fun i v hv => ⟨v.moved cs, ?_, fun hs => ?_, fun hs => ?_⟩⟩
  · rw [applyChanges_vars, List.getElem?_map, hv, Option.map_some]
  · exact h.lineAt_moveAll hs
  · exact h.lineAt_moveAll hs

/-- Two lines are put in after the first one, with breaks of two kinds, and then the
line that was the second goes. -/
def insertThenDelete : List ContentChange :=
  [⟨some ⟨⟨1, 0⟩, ⟨1, 0⟩⟩, "x\r\ny\n"⟩, ⟨some ⟨⟨3, 0⟩, ⟨4, 0⟩⟩, ""⟩]

/-- The last line of a document that was its fourth is its fifth after the changes. -/
theorem last_line_after_insertThenDelete :
    let old := ['a', '\r', '\n', 'b', '\r', 'c', '\n', 'd']
    let new := ['a', '\r', '\n', 'x', '\r', '\n', 'y', '\n', 'c', '\n', 'd']
    let s : Snapshot := { vars := [⟨"v", "int", ⟨1, some 1, 4, some 1⟩⟩] }
    EditedAll old insertThenDelete new ∧ Spared insertThenDelete 1 ∧ Spared insertThenDelete 4 ∧
      (s.applyChanges insertThenDelete).vars = [⟨"v", "int", ⟨1, some 1, 5, some 1⟩⟩] ∧
      lineAt new 1 = some ['a'] ∧ lineAt new 5 = some ['d'] := by
  intro old new s
  have hinsert : Edited old ⟨some ⟨⟨1, 0⟩, ⟨1, 0⟩⟩, "x\r\ny\n"⟩
      ['a', '\r', '\n', 'x', '\r', '\n', 'y', '\n', 'b', '\r', 'c', '\n', 'd'] :=
    .splice ['a', '\r', '\n'] [] ['b', '\r', 'c', '\n', 'd'] "x\r\ny\n" _ rfl rfl
      (by simp [SplitsBreak]) (by simp [SplitsBreak])
  have hdelete : Edited ['a', '\r', '\n', 'x', '\r', '\n', 'y', '\n', 'b', '\r', 'c', '\n', 'd']
      ⟨some ⟨⟨3, 0⟩, ⟨4, 0⟩⟩, ""⟩ new :=
    .splice ['a', '\r', '\n', 'x', '\r', '\n', 'y', '\n'] ['b', '\r'] ['c', '\n', 'd'] "" _ rfl rfl
      (by simp [SplitsBreak]) (by simp [SplitsBreak])
  have hedited : EditedAll old insertThenDelete new := .cons hinsert (.cons hdelete (.nil new))
  have hstart : Spared insertThenDelete 1 := by decide
  have hend : Spared insertThenDelete 4 := by decide
  have hvars : (s.applyChanges insertThenDelete).vars = [⟨"v", "int", ⟨1, some 1, 5, some 1⟩⟩] := rfl
  obtain ⟨v', hv', hfirst, hlast⟩ := (scope_lines_follow_document hedited s).2 0 _ rfl
  rw [hvars] at hv'
  cases hv'
  exact ⟨hedited, hstart, hend, hvars, hfirst hstart, hlast hend⟩

end Snapshot
end RenServer
