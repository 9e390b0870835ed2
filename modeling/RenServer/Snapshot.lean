/- # The snapshot

What the server knows about a document between two compiles: the symbols and
variables of the last accepted report. Edits in between move the scopes of the
variables line by line and leave the columns alone, and from then on the
snapshot is dirty, so that its columns are no longer trusted.

Key definitions:

* `ContentChange.lineEdit?`: how many lines a change adds or removes, and where.
* `Snapshot.shift`: the snapshot after one line edit.
* `Snapshot.applyChanges`: the snapshot after a list of changes.
-/
import RenServer.Position
import RenServer.Report.Symbols

namespace RenServer

open Text

/-- A change of a document: the text that takes the place of a range, or of the
whole document if there is no range. -/
structure ContentChange where
  range : Option Range
  text : String
  deriving DecidableEq, Repr

/-- Lines added (or removed, if `delta` is negative) at a line that counts from
zero. -/
structure LineEdit where
  line : Int
  delta : Int
  deriving DecidableEq, Repr

/-- The line edit of a change, nothing for a change of the whole document. -/
def ContentChange.lineEdit? (c : ContentChange) : Option LineEdit :=
  c.range.map fun r =>
    { line := r.start.line
      delta := (editorBreaks c.text.toList : Int) - ((r.stop.line : Int) - r.start.line) }

/-- What is known about a document, and which document that is. -/
structure Snapshot where
  symbols : List Symbol := []
  vars : List Variable := []
  dirty : Bool := false
  path : Option String := none
  deriving DecidableEq, Repr

/-- Nothing is known. -/
def Snapshot.empty : Snapshot := {}

/-- What a fresh report says about a document. -/
def Snapshot.ofReport (report : SymbolReport) (path : Option String) : Snapshot where
  symbols := report.symbols
  vars := report.vars
  dirty := false
  path := path

/-- Where an edit moves a line that counts from one. -/
def LineEdit.move (e : LineEdit) (line : Int) : Int :=
  if e.line + 1 ≤ line then line + e.delta else line

/-- Both ends of a scope move, each on its own. -/
def Scope.shift (e : LineEdit) (s : Scope) : Scope :=
  { s with startLine := e.move s.startLine, endLine := e.move s.endLine }

/-- The variable whose scope an edit moved. -/
def Variable.shift (e : LineEdit) (v : Variable) : Variable := { v with scope := v.scope.shift e }

/-- The snapshot after a line edit. An edit that leaves the number of lines as
it was changes nothing. -/
def Snapshot.shift (s : Snapshot) (e : LineEdit) : Snapshot :=
  if e.delta = 0 then s
  else { s with vars := s.vars.map (Variable.shift e), dirty := true }

/-- The line edits of changes, in order. -/
def lineEdits (changes : List ContentChange) : List LineEdit :=
  changes.filterMap ContentChange.lineEdit?

/-- The snapshot after changes. -/
def Snapshot.applyChanges (s : Snapshot) (changes : List ContentChange) : Snapshot :=
  (lineEdits changes).foldl Snapshot.shift s

/-- How many of the changes move lines. -/
def shiftCount (changes : List ContentChange) : Nat :=
  (lineEdits changes).countP fun e => e.delta ≠ 0

end RenServer
