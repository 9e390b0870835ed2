/- # Log levels

A level is set by its name, in letters of either case. Names that are not known
leave the level as it was, and so does a value that says nothing; any other
value that is no text is an error.
-/
import RenServer.Value

namespace RenServer

/-- A value that should have been a text. -/
structure NotText where
  kind : String
  deriving DecidableEq, Repr

def NotText.message (n : NotText) : String := s!"'{n.kind}' object has no attribute 'upper'"

namespace LogLevel

/-- The level before anyone sets one. -/
def initial : Nat := 30

/-- At this level and below, the server says which compiler it uses. -/
def info : Nat := 20

/-- The capital of a letter, as far as a level's name can hold it: the dotless
i and the long s have capitals among the basic letters. -/
def capital (c : Char) : Char :=
  if c = 'ı' then 'I' else if c = 'ſ' then 'S' else c.toUpper

/-- The levels by name. -/
def named : List (String × Nat) :=
  [("CRITICAL", 50), ("FATAL", 50), ("ERROR", 40), ("WARNING", 30), ("WARN", 30), ("INFO", 20),
   ("DEBUG", 10), ("NOTSET", 0)]

/-- The level of a name in letters of either case. -/
def ofName? (name : String) : Option Nat :=
  named.lookup (String.ofList (name.toList.map capital))

/-- The level after a setting. -/
def apply (level : Nat) (setting : Value) : Except NotText Nat :=
  if setting.present then
    match setting with
    | .str name => .ok ((ofName? name).getD level)
    | other => .error ⟨other.kindWord⟩
  else .ok level

end LogLevel
end RenServer
