/- # Positions in a document

The editor counts lines and characters from zero, and neither may pass
`maxCoordinate`.
-/
import RenServer.Text.Numeral

namespace RenServer

/-- The largest line or character number. -/
def maxCoordinate : Nat := 2147483647

/-- The two numbers of a position. -/
inductive Axis where
  | line
  | character
  deriving DecidableEq, Repr

def Axis.word : Axis → String
  | .line => "line"
  | .character => "character"

/-- A number that no position can have. -/
structure OutOfRange where
  axis : Axis
  value : Int
  deriving DecidableEq, Repr

/-- The report on a number out of range, as long as the number can be written. -/
def OutOfRange.message (o : OutOfRange) : String :=
  if Text.isWritable o.value then
    s!"Position.{o.axis.word} should be in range [0:{maxCoordinate}], but was {o.value}."
  else Text.unwritable

/-- A place between two characters of a document. -/
structure Position where
  line : Nat
  character : Nat
  deriving DecidableEq, Repr

/-- One number of a position. -/
def coordinate (axis : Axis) (value : Int) : Except OutOfRange Nat :=
  if 0 ≤ value ∧ value ≤ maxCoordinate then .ok value.toNat else .error { axis, value }

/-- A position, if its line is in range and then its character is. -/
def Position.make (line character : Int) : Except OutOfRange Position := do
  let line ← coordinate .line line
  let character ← coordinate .character character
  return { line, character }

/-- A stretch of a document. -/
structure Range where
  start : Position
  stop : Position
  deriving DecidableEq, Repr

/-- A range, if its start and then its stop are positions. -/
def Range.make (startLine startCharacter stopLine stopCharacter : Int) :
    Except OutOfRange Range := do
  let start ← Position.make startLine startCharacter
  let stop ← Position.make stopLine stopCharacter
  return { start, stop }

end RenServer
