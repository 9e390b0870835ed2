/- # Values

Settings come from an editor or from a project file, and both may send
anything where a text is expected. A value keeps what was sent, so that it can
be judged (`present`), searched (`get`) and shown (`display`) whatever it is.
-/
import RenServer.Double
import RenServer.Text.Quoted

namespace RenServer

open Text

/-- What a setting can be. -/
inductive Value where
  | null
  | bool (b : Bool)
  | int (n : Int)
  | real (x : Double)
  | str (s : String)
  /-- A date or a time, as it is written. -/
  | literal (s : String)
  | list (items : List Value)
  /-- Fields that are data: a table without fields is nothing. -/
  | table (fields : List (String × Value))
  /-- Fields of a thing that is there even without fields. -/
  | object (fields : List (String × Value))
  deriving Repr, BEq, Inhabited

namespace Value

/-- Whether a value says anything. Null, false, zero and whatever is empty do
not. -/
def present : Value → Bool
  | null => false
  | bool b => b
  | int n => n ≠ 0
  | real x => !x.isZero
  | str s => s ≠ ""
  | literal _ => true
  | list items => !items.isEmpty
  | table fields => !fields.isEmpty
  | object _ => true

/-- The first value, unless it says nothing. -/
def orElse (first second : Value) : Value := if first.present then first else second

/-- The value of a field, null if there is none. -/
def get (key : String) : Value → Value
  | table fields => (fields.lookup key).getD null
  | object fields => (fields.lookup key).getD null
  | _ => null

/-- The value of an optional text. -/
def ofText? : Option String → Value
  | none => null
  | some s => str s

/-- The word for a value's kind. -/
def kindWord : Value → String
  | null => "NoneType"
  | bool _ => "bool"
  | int _ => "int"
  | real _ => "float"
  | str _ => "str"
  | literal _ => "datetime"
  | list _ => "list"
  | table _ => "dict"
  | object _ => "dict"

end Value

mutual

/-- A value as it is shown inside another one. -/
def Value.inner : Value → String
  | .null => "None"
  | .bool b => if b then "True" else "False"
  | .int n => toString n
  | .real x => x.display
  | .str s => quoted s
  | .literal s => s
  | .list items => "[" ++ String.intercalate ", " (innerItems items) ++ "]"
  | .table fields => "\x7b" ++ String.intercalate ", " (innerFields fields) ++ "\x7d"
  | .object fields => "\x7b" ++ String.intercalate ", " (innerFields fields) ++ "\x7d"

def innerItems : List Value → List String
  | [] => []
  | v :: rest => v.inner :: innerItems rest

def innerFields : List (String × Value) → List String
  | [] => []
  | (key, v) :: rest => (quoted key ++ ": " ++ v.inner) :: innerFields rest

end

/-- A value as it is shown in a message: a text stands as it is. -/
def Value.display : Value → String
  | .str s => s
  | v => v.inner

end RenServer
