/- # TOML documents

A document is read statement by statement: a header, or a key with its value.
`parse` reads a whole document into the value of its top table.

Values are nested, and their readers call one another. There is room for so many
of them at a time, which is given to `parse`, and a text that needs more is
refused.
-/
import RenServer.Toml.Number
import RenServer.Toml.Node

namespace RenServer
namespace Toml

open Text

/-! ### Values -/

/-- A value that does not hold other values. -/
def scalar (s : List Char) : Except Fault (Value × List Char) :=
  match string? s with
  | some read => read.map fun (t, rest) => (.str (String.ofList t), rest)
  | none =>
    match after? "true".toList s with
    | some rest => .ok (.bool true, rest)
    | none =>
      match after? "false".toList s with
      | some rest => .ok (.bool false, rest)
      | none => (((moment? s).or (number? s)).or (numberWord? s)).getD (.error .malformed)

/-- The readers that are at work on the value at the start of a text, with those
between it and the values in it. -/
def taken : List Char → Nat
  | '[' :: _ => 2
  | '\x7b' :: _ => 3
  | _ => 1

/-- The room that is left inside the value at the start of a text. -/
def descend (room : Nat) (s : List Char) : Except Fault Nat :=
  if taken s ≤ room then .ok (room - taken s) else .error .tooDeep

/-- What is left after the sign between a key and its value. -/
def afterEquals : List Char → Except Fault (List Char)
  | '=' :: rest => .ok (skipSpaces rest)
  | _ => .error .malformed

/-- Reads what stands at the start of a text, with the room that is left for it. -/
abbrev Reader (α : Type) := Nat → List Char → Except Fault (α × List Char)

/-- A value, from readers of what is in it. -/
def valueWith (items : Reader (List Value)) (fields : Fields → Reader Fields) (room : Nat)
    (s : List Char) : Except Fault (Value × List Char) := do
  let inner ← descend room s
  match s with
  | '[' :: rest =>
    match ← skipFiller rest with
    | ']' :: rest => return (.list [], rest)
    | rest =>
      let (values, rest) ← items inner rest
      return (.list values, rest)
  | '\x7b' :: rest =>
    match skipSpaces rest with
    | '\x7d' :: rest => return (.table [], rest)
    | rest =>
      let (found, rest) ← fields .nil inner rest
      return (.table found.toList, rest)
  | _ => scalar s

/-- The items of an array from one of them on, up to the closing bracket, from
readers of an item and of those after it. A comma may stand before the bracket. -/
def itemsWith (value : Reader Value) (items : Reader (List Value)) (room : Nat) (s : List Char) :
    Except Fault (List Value × List Char) := do
  let (item, rest) ← value room s
  match ← skipFiller rest with
  | ']' :: rest => return ([item], rest)
  | ',' :: rest =>
    match ← skipFiller rest with
    | ']' :: rest => return ([item], rest)
    | rest =>
      let (more, rest) ← items room rest
      return (item :: more, rest)
  | _ => .error .malformed

/-- The fields of an inline table from one of them on, after those found so far, up
to the closing brace, from readers of a value and of the fields after it. No comma
may stand before the brace. -/
def fieldsWith (value : Reader Value) (fields : Fields → Reader Fields) (found : Fields)
    (room : Nat) (s : List Char) : Except Fault (Fields × List Char) := do
  let (k, rest) ← key s
  let rest ← afterEquals rest
  let (v, rest) ← value room rest
  let found ← found.insertDotted 0 v k
  match skipSpaces rest with
  | '\x7d' :: rest => return (found, rest)
  | ',' :: rest => fields found room (skipSpaces rest)
  | _ => .error .malformed

mutual

/-- A value, in so many steps at most. -/
def valueUpto : Nat → Reader Value
  | 0 => fun _ _ => .error .malformed
  | fuel + 1 => valueWith (itemsUpto fuel) (fieldsUpto fuel)

/-- The items of an array, in so many steps at most. -/
def itemsUpto : Nat → Reader (List Value)
  | 0 => fun _ _ => .error .malformed
  | fuel + 1 => itemsWith (valueUpto fuel) (itemsUpto fuel)

/-- The fields of an inline table, in so many steps at most. -/
def fieldsUpto : Nat → Fields → Reader Fields
  | 0 => fun _ _ _ => .error .malformed
  | fuel + 1 => fieldsWith (valueUpto fuel) (fieldsUpto fuel)

end

/-- A value. Two steps for every character are enough. -/
def value (room : Nat) (s : List Char) : Except Fault (Value × List Char) :=
  valueUpto (2 * s.length + 2) room s

/-! ### Statements -/

/-- A document so far: its top table, and the header under which keys stand,
with its number. -/
structure Draft where
  fields : Fields := .nil
  header : List String := []
  number : Nat := 0

/-- A header, after its opening brackets: the key, split before its last part,
and what is left after the closing brackets. -/
def headerKey (closing s : List Char) : Except Fault ((List String × String) × List Char) := do
  let (k, rest) ← key (skipSpaces s)
  match k.getLast?, after? closing rest with
  | some last, some rest => return ((k.dropLast, last), rest)
  | _, _ => .error .malformed

/-- The draft after a header. -/
def Draft.under (d : Draft) (path : List String) (last : String) (fields : Fields) : Draft :=
  { fields, header := path ++ [last], number := d.number + 1 }

/-- A statement, from its first character on. -/
def statement (room : Nat) (d : Draft) (s : List Char) : Except Fault (Draft × List Char) :=
  match s with
  | '[' :: '[' :: rest => do
    let ((path, last), rest) ← headerKey [']', ']'] rest
    let fields ← d.fields.openItem path last
    return (d.under path last fields, rest)
  | '[' :: rest => do
    let ((path, last), rest) ← headerKey [']'] rest
    let fields ← d.fields.openTable path last
    return (d.under path last fields, rest)
  | '#' :: _ => .ok (d, s)
  | _ => do
    let (k, rest) ← key s
    let rest ← afterEquals rest
    let (v, rest) ← value room rest
    let fields ← d.fields.insert d.header d.number k v
    return ({ d with fields }, rest)

/-- Reads a statement and, by `next`, those on the lines after it, up to the end. -/
def statementsWith (room : Nat) (next : Draft → List Char → Except Fault Draft) (d : Draft)
    (s : List Char) : Except Fault Draft :=
  match skipSpaces s with
  | [] => .ok d
  | '\n' :: rest => next d rest
  | s => do
    let (d, rest) ← statement room d s
    match ← skipComment (skipSpaces rest) with
    | [] => return d
    | '\n' :: rest => next d rest
    | _ => .error .malformed

/-- Reads statements up to the end, in so many steps at most. -/
def statementsUpto (room : Nat) : Nat → Draft → List Char → Except Fault Draft
  | 0 => fun _ _ => .error .malformed
  | fuel + 1 => statementsWith room (statementsUpto room fuel)

/-- Reads statements up to the end. -/
def statements (room : Nat) (d : Draft) (s : List Char) : Except Fault Draft :=
  statementsUpto room (s.length + 1) d s

/-- The top table of a document. -/
def parse (room : Nat) (s : List Char) : Except Fault Value := do
  let d ← statements room {} s
  return .table d.fields.toList

end Toml
end RenServer
