/- # Diagnostics

What the editor is told about one document: those findings that lie in it, at
places that the editor knows, as ranges with a severity. The compiler counts
lines from one, and its columns stand two beyond the editor's characters.

Key definitions:

* `compilerRange`: the range of a place that the compiler names.
* `reconcile`: the diagnostics of a document among findings.
* `diagnose`: the same from the compiler's standard error.
-/
import RenServer.Position
import RenServer.Path
import RenServer.Report.Findings

namespace RenServer

open Text

/-- How bad a diagnostic is. -/
inductive Severity where
  | error
  | warning
  deriving DecidableEq, Repr

/-- The severity of a level. -/
def Severity.ofLevel? (level : String) : Option Severity :=
  if level = "error" then some .error
  else if level = "warning" then some .warning
  else none

/-- A diagnostic of a document, and the name under which it is shown. -/
structure Diagnostic where
  range : Range
  severity : Severity
  source : String
  message : String
  deriving DecidableEq, Repr

/-- Why findings have no diagnostics. -/
inductive DiagnosticFault where
  | tooLong (numeral : TooLong)
  | outOfRange (place : OutOfRange)
  | unknownLevel (level : String)
  deriving DecidableEq, Repr

/-- The range that starts at a line and a column of the compiler. -/
def compilerRange (line col length : Int) : Except OutOfRange Range :=
  Range.make (line - 1) (col - 2) (line - 1) (col - 2 + length)

/-- Whether a finding lies in a document, at a place that the editor knows. -/
def Finding.belongs (directory document : List Char) (f : Finding) : Bool :=
  Path.same directory f.path.toList document && (0 ≤ f.line - 1 && 0 ≤ f.col - 2)

/-- The diagnostic of a finding. -/
def Finding.toDiagnostic (f : Finding) : Except DiagnosticFault Diagnostic := do
  let range ← (compilerRange f.line f.col f.length).mapError .outOfRange
  match Severity.ofLevel? f.level with
  | none => .error (.unknownLevel f.level)
  | some severity => return { range, severity, source := "renc", message := f.message }

/-- The diagnostics of a document, in the order of the findings. -/
def reconcile (directory document : String) (findings : List Finding) :
    Except DiagnosticFault (List Diagnostic) :=
  (findings.filter (·.belongs directory.toList document.toList)).mapM Finding.toDiagnostic

/-- The diagnostics of a document in the compiler's standard error. -/
def diagnose (directory document text : String) : Except DiagnosticFault (List Diagnostic) := do
  let findings ← (readFindings text).mapError .tooLong
  reconcile directory document findings

end RenServer
