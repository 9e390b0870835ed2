/- # Findings

The compiler writes its errors and warnings to its standard error, one a line:
`path:line:col:length: level: message`. The path may hold colons and digits; it
is the shortest that leaves a rest of the right form. Lines of any other form
are no findings.

Key definitions:

* `split?`: the path and the rest of a line of the right form.
* `readFindings`: the findings of a text, or the first number that is too long.
-/
import RenServer.Text.Lines
import RenServer.Text.Numeral
import RenServer.Text.Cut

namespace RenServer

open Text

/-- An error or a warning at a place of a file. Line and column count from
one. -/
structure Finding where
  path : String
  line : Int
  col : Int
  length : Int
  level : String
  message : String
  deriving DecidableEq, Repr

/-- What stands after the path of a finding: the digits of its three numbers,
its level, and its message with the blanks around it. -/
structure Details where
  line : List Char
  col : List Char
  length : List Char
  level : List Char
  rest : List Char
  deriving DecidableEq, Repr

/-- The levels of a finding. -/
def levels : List (List Char) := ["error".toList, "warning".toList]

/-- Digits up to a colon, and what follows the colon. -/
def number? (s : List Char) : Option (List Char × List Char) :=
  match s.takeWhile isDigit, s.dropWhile isDigit with
  | d :: ds, ':' :: rest => some (d :: ds, rest)
  | _, _ => none

/-- A level up to a colon, and what follows the colon. -/
def level? (s : List Char) : Option (List Char × List Char) :=
  levels.findSome? fun level => (after? (level ++ [':']) s).map fun rest => (level, rest)

/-- What stands after the path of a finding and a colon. -/
def details? (s : List Char) : Option Details := do
  let (line, s) ← number? s
  let (col, s) ← number? s
  let (length, s) ← number? s
  let (level, rest) ← level? (trimStart s)
  return { line, col, length, level, rest }

/-- A path, maybe empty, and the details after its colon: the first colon that
details follow. -/
def splitFrom? : List Char → Option (List Char × Details)
  | [] => none
  | c :: rest =>
    match (if c = ':' then details? rest else none) with
    | some d => some ([], d)
    | none => (splitFrom? rest).map fun (path, d) => (c :: path, d)

/-- The path of a finding and the details after its colon. A path is not
empty. -/
def split? : List Char → Option (List Char × Details)
  | [] => none
  | c :: rest => (splitFrom? rest).map fun (path, d) => (c :: path, d)

/-- The number that digits write. -/
def digitsValue (s : List Char) : Except TooLong Nat := limited (s.filterMap digitValue?)

/-- The finding with a path and details. Its numbers are read in the order in
which they are written. -/
def Finding.make (path : List Char) (d : Details) : Except TooLong Finding := do
  let line ← digitsValue d.line
  let col ← digitsValue d.col
  let length ← digitsValue d.length
  return {
    path := String.ofList path
    line, col, length
    level := String.ofList d.level
    message := String.ofList (trim d.rest) }

/-- The findings of a text. -/
def readFindings (text : String) : Except TooLong (List Finding) :=
  ((lines text.toList).filterMap split?).mapM fun (path, d) => Finding.make path d

end RenServer
