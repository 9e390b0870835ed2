/- # The tables of a TOML document

A document grows by its lines, and a line may add to a table only if the table
is still open to it. So each table remembers how it came to be: a header named
it, dotted keys went through it, or a longer header only implied it.

Key definitions:

* `Fields.openTable`: a header `[a.b]`.
* `Fields.openItem`: a header `[[a.b]]`.
* `Fields.insert`: a key with a value, under a header.
* `Fields.toList`: the fields as plain values.
-/
import RenServer.Toml.Scan

namespace RenServer
namespace Toml

/-- How a table came to be. -/
inductive Mark where
  /-- Only as part of a longer header. -/
  | implied
  /-- By a header of its own. -/
  | header
  /-- By dotted keys under the header of this number. -/
  | dotted (under : Nat)
  deriving DecidableEq, Repr

mutual

/-- What stands behind a key. -/
inductive Node where
  /-- A value, which nothing can be added to. -/
  | value (v : Value)
  | table (mark : Mark) (fields : Fields)
  /-- The tables of headers in double brackets; only the last is still open. -/
  | tables (closed : List Value) (last : Fields)

/-- Keys and what stands behind them, in the order in which they came. -/
inductive Fields where
  | nil
  | cons (key : String) (node : Node) (rest : Fields)

end

namespace Fields

/-- What stands behind a key. -/
def get? (key : String) : Fields → Option Node
  | nil => none
  | cons k node rest => if k = key then some node else rest.get? key

/-- Puts a node behind a key, in the place of the one before. -/
def set (key : String) (node : Node) : Fields → Fields
  | nil => cons key node nil
  | cons k old rest => if k = key then cons k node rest else cons k old (rest.set key node)

end Fields

mutual

/-- A node as a plain value. -/
def Node.toValue : Node → Value
  | .value v => v
  | .table _ fields => .table fields.toList
  | .tables closed last => .list (closed ++ [.table last.toList])

/-- Fields as plain values. -/
def Fields.toList : Fields → List (String × Value)
  | .nil => []
  | .cons key node rest => (key, node.toValue) :: rest.toList

end

namespace Fields

/-- Goes to the table behind a path and changes it there. Missing tables are
implied; of tables in double brackets it is the last. -/
def within (change : Fields → Except Fault Fields) : List String → Fields → Except Fault Fields
  | [], fields => change fields
  | k :: path, fields =>
    match fields.get? k with
    | none => do
      let inner ← within change path nil
      return fields.set k (.table .implied inner)
    | some (.table mark inner) => do
      let inner ← within change path inner
      return fields.set k (.table mark inner)
    | some (.tables closed last) => do
      let last ← within change path last
      return fields.set k (.tables closed last)
    | some (.value _) => .error .malformed

/-- A table is opened by a header only once, and not at all if dotted keys have
opened it. -/
def openField (key : String) (fields : Fields) : Except Fault Fields :=
  match fields.get? key with
  | none => .ok (fields.set key (.table .header nil))
  | some (.table .implied inner) => .ok (fields.set key (.table .header inner))
  | some _ => .error .malformed

/-- A header in single brackets. -/
def openTable (path : List String) (key : String) : Fields → Except Fault Fields :=
  within (openField key) path

/-- One more table behind a key. -/
def appendItem (key : String) (fields : Fields) : Except Fault Fields :=
  match fields.get? key with
  | none => .ok (fields.set key (.tables [] nil))
  | some (.tables closed last) =>
    .ok (fields.set key (.tables (closed ++ [.table last.toList]) nil))
  | some _ => .error .malformed

/-- A header in double brackets. -/
def openItem (path : List String) (key : String) : Fields → Except Fault Fields :=
  within (appendItem key) path

/-- A value behind a dotted key. The tables on the way have to be new, implied,
or opened by dotted keys under the same header, and the last key has to be
new. -/
def insertDotted (under : Nat) (v : Value) : List String → Fields → Except Fault Fields
  | [], _ => .error .malformed
  | [k], fields =>
    match fields.get? k with
    | none => .ok (fields.set k (.value v))
    | some _ => .error .malformed
  | k :: path, fields =>
    match fields.get? k with
    | none => do
      let inner ← insertDotted under v path nil
      return fields.set k (.table (.dotted under) inner)
    | some (.table mark inner) =>
      if mark = .implied ∨ mark = .dotted under then do
        let inner ← insertDotted under v path inner
        return fields.set k (.table (.dotted under) inner)
      else .error .malformed
    | some _ => .error .malformed

/-- A value behind a dotted key, under a header. -/
def insert (header : List String) (under : Nat) (key : List String) (v : Value) :
    Fields → Except Fault Fields :=
  within (insertDotted under v key) header

end Fields

end Toml
end RenServer
