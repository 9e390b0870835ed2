/- # The symbol report

The compiler writes what it knows about a document to its standard output,
one entry a line:

* `VAR::name:startLine:startCol:endLine:endCol:type`, a variable and the
  rectangle of the document in which it is visible;
* `TYPE::name: definition` and `FUNC::name: definition`.

A line that is neither blank nor one of these is skipped, and the skip is
noted. Every line is read on its own.

Key definitions:

* `readLine?`: what one line says, nothing if it is blank.
* `SymbolReport.read`: a whole report.
-/
import RenServer.Text.Lines
import RenServer.Text.Numeral
import RenServer.Text.Cut

namespace RenServer

open Text

/-- What a definition defines. -/
inductive SymbolKind where
  | typeDef
  | function
  deriving DecidableEq, Repr

/-- The word for a kind in the report. -/
def SymbolKind.word : SymbolKind → String
  | .typeDef => "TYPE"
  | .function => "FUNC"

/-- The start of a line that defines a symbol of a kind. -/
def SymbolKind.tag (k : SymbolKind) : List Char := k.word.toList ++ [':', ':']

/-- A defined type or function, with the text of its definition. -/
structure Symbol where
  kind : SymbolKind
  name : String
  definition : String
  deriving DecidableEq, Repr

/-- The part of a document in which a variable is visible. Lines and columns
count from one; a column the compiler did not give as a number is unknown. -/
structure Scope where
  startLine : Int
  startCol : Option Int
  endLine : Int
  endCol : Option Int
  deriving DecidableEq, Repr

/-- A variable with its type and its scope. -/
structure Variable where
  name : String
  typeName : String
  scope : Scope
  deriving DecidableEq, Repr

/-- A line that was skipped, and why. -/
inductive Skipped where
  | variable (line : String)
  | symbol (kind : SymbolKind) (line : String)
  | untagged (line : String)
  deriving DecidableEq, Repr

/-- What a line says. -/
inductive Entry where
  | variable (v : Variable)
  | symbol (s : Symbol)
  | skipped (s : Skipped)
  deriving DecidableEq, Repr

/-- The start of a line that reports a variable. -/
def variableTag : List Char := ['V', 'A', 'R', ':', ':']

/-- The number in a field, whatever blanks stand around it. -/
def numberIn? (field : List Char) : Option Int := integer? (trim field)

/-- A variable, from the rest of its line. The lines of its scope have to be
numbers, its columns need not be. -/
def readVariable? (body : List Char) : Option Variable :=
  match fields ':' body with
  | [name, startLine, startCol, endLine, endCol, typeName] => do
    let first ← numberIn? startLine
    let last ← numberIn? endLine
    return {
      name := String.ofList name
      typeName := String.ofList typeName
      scope := {
        startLine := first
        startCol := numberIn? startCol
        endLine := last
        endCol := numberIn? endCol } }
  | _ => none

/-- A symbol, from the rest of its line: a name, a colon with a space, and a
definition, neither of them blank. -/
def readSymbol? (kind : SymbolKind) (body : List Char) : Option Symbol := do
  let (before, rest) ← cut? [':', ' '] body
  let name := trim before
  let definition := trim rest
  if name.isEmpty || definition.isEmpty then none
  else some { kind, name := String.ofList name, definition := String.ofList definition }

/-- A line with the tag of a kind of symbol. -/
def symbolEntry (kind : SymbolKind) (line body : List Char) : Entry :=
  match readSymbol? kind body with
  | some s => .symbol s
  | none => .skipped (.symbol kind (String.ofList line))

/-- What a line says that is not blank. -/
def readEntry (line : List Char) : Entry :=
  match after? variableTag line with
  | some body =>
    match readVariable? body with
    | some v => .variable v
    | none => .skipped (.variable (String.ofList line))
  | none =>
    match after? SymbolKind.typeDef.tag line with
    | some body => symbolEntry .typeDef line body
    | none =>
      match after? SymbolKind.function.tag line with
      | some body => symbolEntry .function line body
      | none => .skipped (.untagged (String.ofList line))

/-- What a line says, nothing if it is blank. -/
def readLine? (line : List Char) : Option Entry :=
  if line.all isBlank then none else some (readEntry line)

/-- The variable an entry reports. -/
def Entry.variable? : Entry → Option Variable
  | .variable v => some v
  | _ => none

/-- The symbol an entry reports. -/
def Entry.symbol? : Entry → Option Symbol
  | .symbol s => some s
  | _ => none

/-- The skip an entry notes. -/
def Entry.skipped? : Entry → Option Skipped
  | .skipped s => some s
  | _ => none

/-- A report, in the order of its lines. -/
structure SymbolReport where
  symbols : List Symbol
  vars : List Variable
  skipped : List Skipped
  deriving DecidableEq, Repr

/-- What the lines of a text say. -/
def entries (text : List Char) : List Entry := (lines text).filterMap readLine?

/-- The report that entries make. -/
def SymbolReport.ofEntries (es : List Entry) : SymbolReport where
  symbols := es.filterMap Entry.symbol?
  vars := es.filterMap Entry.variable?
  skipped := es.filterMap Entry.skipped?

/-- Reads the compiler's standard output. -/
def SymbolReport.read (text : String) : SymbolReport := .ofEntries (entries text.toList)

/-- The words in which a skip is logged, with a place for each of `logWords`. -/
def Skipped.logTemplate : Skipped → String
  | .variable _ => "parse_stdout: skipping malformed VAR line %r"
  | .symbol _ _ => "parse_stdout: skipping malformed %s line %r"
  | .untagged _ => "parse_stdout: ignoring untagged line %r"

/-- What stands in the places of `logTemplate`. -/
def Skipped.logWords : Skipped → List String
  | .variable line => [line]
  | .symbol kind line => [kind.word, line]
  | .untagged line => [line]

end RenServer
