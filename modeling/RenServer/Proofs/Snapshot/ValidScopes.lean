/- # Which scopes stay valid

A scope is valid if it counts its lines from one and does not end before it begins. A
snapshot moves both ends of a scope by the lines that a change adds or takes away, and it
never looks at what became of the line on which an end lies. A change that begins on line
`a`, ends on line `b` and puts in `k` line breaks covers `b - a + 1` lines and leaves
`k + 1`. Of the lines that it covers, the last `k + 1` still have a place; the others are
dropped (`ContentChange.Drops`), and an end on one of them is moved before the first line of
the change (`ContentChange.move_lt_iff`).

So a change keeps a scope exactly if it drops neither of its ends
(`ContentChange.keeps_iff`), and changes keep it all along exactly if none of them drops
an end, wherever the earlier ones have moved it (`Snapshot.scopes_keep_iff`). A change
that takes away no more lines than it puts in drops none; one that deletes the first line
of a document sends a scope on it to line zero (`Snapshot.first_line_dropped`).

Key definitions: `Scope.Valid`, `ContentChange.Drops`, `ContentChange.Keeps`, `Undropped`.
Key theorems: `ContentChange.move_lt_iff`, `ContentChange.keeps_iff`,
`Snapshot.scopes_keep_iff`.
-/
import RenServer.Proofs.Snapshot.Document

namespace RenServer

open Text

/-- A scope that counts its lines from one and does not end before it begins. -/
def Scope.Valid (s : Scope) : Prop := 1 ≤ s.startLine ∧ s.startLine ≤ s.endLine

instance (s : Scope) : Decidable s.Valid :=
  inferInstanceAs (Decidable (1 ≤ s.startLine ∧ s.startLine ≤ s.endLine))

namespace ContentChange

/-- The range of a change does not end before it begins. -/
def Forward (c : ContentChange) : Prop := ∀ r ∈ c.range, r.start.line ≤ r.stop.line

/-- A change covers a line that counts from one, and puts no line in its place. -/
def Drops (c : ContentChange) (line : Int) : Prop :=
  ∃ r ∈ c.range, r.start.line + 1 ≤ line ∧ line + editorBreaks c.text.toList ≤ r.stop.line

instance : (c : ContentChange) → (line : Int) → Decidable (c.Drops line)
  | ⟨none, _⟩, _ => isFalse fun ⟨_, hr, _⟩ => nomatch hr
  | ⟨some r, text⟩, line =>
    decidable_of_iff (r.start.line + 1 ≤ line ∧ line + editorBreaks text.toList ≤ r.stop.line)
      ⟨fun h => ⟨r, rfl, h⟩, fun ⟨_, hr, h⟩ => Option.some.inj hr ▸ h⟩

/-- A change that moves a scope leaves it valid, and moves no end of it from the lines
at and after its own first line to one before. -/
def Keeps (c : ContentChange) (s s' : Scope) : Prop :=
  s'.Valid ∧ ∀ r ∈ c.range,
    (r.start.line + 1 ≤ s.startLine → r.start.line + 1 ≤ s'.startLine) ∧
      (r.start.line + 1 ≤ s.endLine → r.start.line + 1 ≤ s'.endLine)

/-- The scope that a change has moved. -/
def moveScope (c : ContentChange) (s : Scope) : Scope :=
  { s with startLine := c.move s.startLine, endLine := c.move s.endLine }

variable {c : ContentChange} {r : Range} {line : Int}

theorem move_of_range (hr : c.range = some r) (line : Int) :
    c.move line =
      if r.start.line + 1 ≤ line then
        line + (editorBreaks c.text.toList - (r.stop.line - r.start.line))
      else line := by
  simp only [move, lineEdit?, hr, Option.map_some, LineEdit.move]

theorem lineDelta_of_range (hr : c.range = some r) :
    c.lineDelta = editorBreaks c.text.toList - (r.stop.line - r.start.line) := by
  simp only [lineDelta, lineEdit?, hr, Option.map_some, Option.elim_some]

/-- A change moves the lines below its beginning by as many as it adds. -/
theorem move_eq (hr : c.range = some r) (line : Int) :
    c.move line = if r.start.line + 1 ≤ line then line + c.lineDelta else line := by
  rw [move_of_range hr, lineDelta_of_range hr]

theorem move_of_no_range (hr : c.range = none) (line : Int) : c.move line = line := by
  simp only [move, lineEdit?, hr, Option.map_none]

theorem drops_iff (hr : c.range = some r) :
    c.Drops line ↔
      r.start.line + 1 ≤ line ∧ line + editorBreaks c.text.toList ≤ r.stop.line := by
  simp [Drops, hr]

/-- **A line at or after the first line of a change moves before it exactly if it is
dropped.** -/
theorem move_lt_iff (hr : c.range = some r) (hline : r.start.line + 1 ≤ line) :
    c.move line < r.start.line + 1 ↔ c.Drops line := by
  rw [move_of_range hr, if_pos hline, drops_iff hr]
  omega

theorem not_drops_iff :
    ¬ c.Drops line ↔
      ∀ r ∈ c.range, r.start.line + 1 ≤ line → r.start.line + 1 ≤ c.move line := by
  constructor
  · intro hkept r hr hline
    exact Int.not_lt.mp fun hlt => hkept ((move_lt_iff hr hline).mp hlt)
  · intro hstays hdrop
    have ⟨r, hr, hline, _⟩ := hdrop
    exact Int.not_lt.mpr (hstays r hr hline) ((move_lt_iff hr hline).mpr hdrop)

/-- Ends that are not dropped keep their order. -/
theorem move_le_move {line' : Int} (hc : c.Forward) (hle : line ≤ line')
    (hkept : ¬ c.Drops line') : c.move line ≤ c.move line' := by
  cases hr : c.range with
  | none =>
    rw [move_of_no_range hr, move_of_no_range hr]
    exact hle
  | some r =>
    have hforward : r.start.line ≤ r.stop.line := hc r hr
    rw [drops_iff hr] at hkept
    rw [move_of_range hr, move_of_range hr]
    split_ifs <;> omega

theorem one_le_move (hline : 1 ≤ line) (hkept : ¬ c.Drops line) : 1 ≤ c.move line := by
  cases hr : c.range with
  | none =>
    rw [move_of_no_range hr]
    exact hline
  | some r =>
    rw [drops_iff hr] at hkept
    rw [move_of_range hr]
    split_ifs <;> omega

/-- **A change keeps a valid scope exactly if it drops neither of its ends.** -/
theorem keeps_iff {s : Scope} (hs : s.Valid) (hc : c.Forward) :
    c.Keeps s (c.moveScope s) ↔ ¬ c.Drops s.startLine ∧ ¬ c.Drops s.endLine := by
  constructor
  · rintro ⟨-, hends⟩
    exact ⟨not_drops_iff.mpr fun r hr => (hends r hr).1,
      not_drops_iff.mpr fun r hr => (hends r hr).2⟩
  · rintro ⟨hstart, hend⟩
    exact ⟨⟨one_le_move hs.1 hstart, move_le_move hc hs.2 hend⟩, fun r hr =>
      ⟨not_drops_iff.mp hstart r hr, not_drops_iff.mp hend r hr⟩⟩

end ContentChange

/-! ### Many changes -/

/-- None of the changes drops a line, wherever the earlier ones move it. -/
def Undropped : List ContentChange → Int → Prop
  | [], _ => True
  | c :: cs, line => ¬ c.Drops line ∧ Undropped cs (c.move line)

instance decidableUndropped :
    (cs : List ContentChange) → (line : Int) → Decidable (Undropped cs line)
  | [], _ => inferInstanceAs (Decidable True)
  | c :: cs, line =>
    have := decidableUndropped cs (c.move line)
    inferInstanceAs (Decidable (¬ c.Drops line ∧ Undropped cs (c.move line)))

theorem keeps_all_iff {cs : List ContentChange} (hcs : ∀ c ∈ cs, c.Forward) {v : Variable}
    (hv : v.scope.Valid) :
    (∀ before c after, cs = before ++ c :: after →
        c.Keeps (v.moved before).scope (v.moved (before ++ [c])).scope) ↔
      Undropped cs v.scope.startLine ∧ Undropped cs v.scope.endLine := by
  induction cs generalizing v with
  | nil => simp [Undropped]
  | cons c cs ih =>
    have hfirst : c.Keeps v.scope (v.moved [c]).scope ↔
        ¬ c.Drops v.scope.startLine ∧ ¬ c.Drops v.scope.endLine :=
      ContentChange.keeps_iff hv (hcs c List.mem_cons_self)
    have hrest := fun hvalid => ih (fun x hx => hcs x (List.mem_cons_of_mem c hx))
      (v := v.moved [c]) hvalid
    constructor
    · intro h
      have hkeeps : c.Keeps v.scope (v.moved [c]).scope := h [] c cs rfl
      obtain ⟨hstart, hend⟩ := hfirst.mp hkeeps
      obtain ⟨hstarts, hends⟩ := (hrest hkeeps.1).mp fun before x after heq =>
        h (c :: before) x after (congrArg (c :: ·) heq)
      exact ⟨⟨hstart, hstarts⟩, hend, hends⟩
    · rintro ⟨⟨hstart, hstarts⟩, hend, hends⟩ before x after heq
      have hkeeps := hfirst.mpr ⟨hstart, hend⟩
      cases before with
      | nil =>
        cases heq
        exact hkeeps
      | cons y before =>
        rw [List.cons_append, List.cons.injEq] at heq
        obtain ⟨rfl, heq⟩ := heq
        exact (hrest hkeeps.1).mpr ⟨hstarts, hends⟩ before x after heq

/-- A scope of which no end is dropped is valid in the end. -/
theorem valid_of_undropped {cs : List ContentChange} (hcs : ∀ c ∈ cs, c.Forward) {v : Variable}
    (hv : v.scope.Valid) (h : Undropped cs v.scope.startLine ∧ Undropped cs v.scope.endLine) :
    (v.moved cs).scope.Valid := by
  have hkeeps := (keeps_all_iff hcs hv).mpr h
  rcases List.eq_nil_or_concat cs with rfl | ⟨before, c, rfl⟩
  · exact hv
  · rw [List.concat_eq_append] at hkeeps ⊢
    exact (hkeeps before c [] rfl).1

namespace Snapshot

/-- **Changes keep a scope exactly if they drop neither of its ends.** Whatever changes a
snapshot with valid scopes goes through, each of them leaves the scope of a variable valid
and moves no end of it before its own first line, exactly if none drops the line of an end,
wherever the earlier ones have moved it. The scope is then valid after all of them. -/
theorem scopes_keep_iff {s : Snapshot} (hs : ∀ v ∈ s.vars, v.scope.Valid)
    {cs : List ContentChange} (hcs : ∀ c ∈ cs, c.Forward) {i : Nat} {v : Variable}
    (hv : s.vars[i]? = some v) :
    ((∀ before c after, cs = before ++ c :: after →
        ∃ u u', (s.applyChanges before).vars[i]? = some u ∧
          (s.applyChanges (before ++ [c])).vars[i]? = some u' ∧ c.Keeps u.scope u'.scope) ↔
      Undropped cs v.scope.startLine ∧ Undropped cs v.scope.endLine) ∧
    (Undropped cs v.scope.startLine ∧ Undropped cs v.scope.endLine →
      ∃ v', (s.applyChanges cs).vars[i]? = some v' ∧ v'.scope.Valid) := by
  have hvalid : v.scope.Valid := hs v (List.mem_of_getElem? hv)
  have hmoved : ∀ changes, (s.applyChanges changes).vars[i]? = some (v.moved changes) := by
    intro changes
    rw [applyChanges_vars, List.getElem?_map, hv, Option.map_some]
  refine ⟨Iff.trans ?_ (keeps_all_iff hcs hvalid), fun h =>
    ⟨_, hmoved cs, valid_of_undropped hcs hvalid h⟩⟩
  constructor
  · intro h before c after heq
    obtain ⟨u, u', hu, hu', hkeeps⟩ := h before c after heq
    rw [hmoved, Option.some.injEq] at hu hu'
    rw [hu, hu']
    exact hkeeps
  · intro h before c after heq
    exact ⟨_, _, hmoved before, hmoved _, h before c after heq⟩

/-- Two lines inside a scope go, and two come in before it. -/
def deleteThenInsert : List ContentChange :=
  [⟨some ⟨⟨2, 0⟩, ⟨4, 0⟩⟩, ""⟩, ⟨some ⟨⟨0, 0⟩, ⟨0, 0⟩⟩, "a\r\nb\n"⟩]

theorem scope_kept_by_deleteThenInsert :
    let s : Snapshot := { vars := [⟨"v", "int", ⟨2, some 3, 6, none⟩⟩] }
    (∀ v ∈ s.vars, v.scope.Valid) ∧ (∀ c ∈ deleteThenInsert, c.Forward) ∧
      Undropped deleteThenInsert 2 ∧ Undropped deleteThenInsert 6 ∧
      (s.applyChanges deleteThenInsert).vars = [⟨"v", "int", ⟨4, some 3, 6, none⟩⟩] ∧
      (⟨4, some 3, 6, none⟩ : Scope).Valid := by
  intro s
  have hs : ∀ v ∈ s.vars, v.scope.Valid := by decide
  have hcs : ∀ c ∈ deleteThenInsert, c.Forward := by simp [deleteThenInsert, ContentChange.Forward]
  have hstart : Undropped deleteThenInsert 2 := by decide
  have hend : Undropped deleteThenInsert 6 := by decide
  have hvars : (s.applyChanges deleteThenInsert).vars = [⟨"v", "int", ⟨4, some 3, 6, none⟩⟩] := rfl
  obtain ⟨v', hv', hvalid⟩ := (scopes_keep_iff hs hcs (i := 0) rfl).2 ⟨hstart, hend⟩
  rw [hvars] at hv'
  cases hv'
  exact ⟨hs, hcs, hstart, hend, hvars, hvalid⟩

/-- The first line of a document goes, and a scope on it moves to line zero. -/
theorem first_line_dropped :
    let s : Snapshot := { vars := [⟨"v", "int", ⟨1, some 1, 1, some 1⟩⟩] }
    let c : ContentChange := ⟨some ⟨⟨0, 0⟩, ⟨1, 0⟩⟩, ""⟩
    (∀ v ∈ s.vars, v.scope.Valid) ∧ c.Forward ∧
      (s.applyChanges [c]).vars = [⟨"v", "int", ⟨0, some 1, 0, some 1⟩⟩] ∧
      ¬ ∀ v ∈ (s.applyChanges [c]).vars, v.scope.Valid := by
  intro s c
  have hvars : (s.applyChanges [c]).vars = [⟨"v", "int", ⟨0, some 1, 0, some 1⟩⟩] := rfl
  refine ⟨by decide, by simp [c, ContentChange.Forward], hvars, ?_⟩
  rw [hvars]
  decide

end Snapshot
end RenServer
