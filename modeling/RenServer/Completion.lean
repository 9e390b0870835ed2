/- # Completions

What the editor offers at a cursor: the variables visible there, then the
keywords, then every symbol. A clean snapshot is trusted to the column; a dirty
one only to the line, since an edit moves lines and leaves columns as they
were.

Key definitions:

* `Scope.contains`: whether a place lies in a scope.
* `Snapshot.completions`: the items offered at a cursor.
-/
import RenServer.Snapshot
import RenServer.Snippet

namespace RenServer

/-- What a completion item stands for. -/
inductive ItemKind where
  | variable
  | keyword
  | struct
  | function
  deriving DecidableEq, Repr

/-- The editor's number for a kind of item. -/
def ItemKind.code : ItemKind → Nat
  | .function => 3
  | .variable => 6
  | .keyword => 14
  | .struct => 22

/-- An item the editor offers. With a snippet, that is what it inserts, and
otherwise its label. -/
structure CompletionItem where
  label : String
  kind : ItemKind
  detail : Option String := none
  snippet : Option String := none
  deriving DecidableEq, Repr

/-- The keywords of the language, each with its snippet. -/
def keywords : List (String × String) :=
  [("fn", "fn $\x7b1:name\x7d($\x7b2:params\x7d) -> $\x7b3:type\x7d \x7b\n\t$0\n\x7d"),
   ("type", "type $\x7b1:Name\x7d \x7b\n\t$\x7b2:field\x7d: $\x7b3:type\x7d\n\x7d"),
   ("let", "let $\x7b1:name\x7d: $\x7b2:type\x7d = $\x7b3:value\x7d"),
   ("if", "if $\x7b1:condition\x7d \x7b\n\t$0\n\x7d"),
   ("else", "else \x7b\n\t$0\n\x7d"),
   ("while", "while $\x7b1:condition\x7d \x7b\n\t$0\n\x7d"),
   ("for", "for $\x7b1:item\x7d in $\x7b2:items\x7d \x7b\n\t$0\n\x7d"),
   ("return", "return $\x7b1:value\x7d"),
   ("match", "match $\x7b1:value\x7d \x7b\n\t$\x7b2:pattern\x7d => $0\n\x7d")]

def keywordItems : List CompletionItem :=
  keywords.map fun (word, snippet) => { label := word, kind := .keyword, snippet := some snippet }

def Variable.item (v : Variable) : CompletionItem :=
  { label := v.name, kind := .variable, detail := some v.typeName }

def SymbolKind.itemKind : SymbolKind → ItemKind
  | .typeDef => .struct
  | .function => .function

def Symbol.item (s : Symbol) : CompletionItem :=
  { label := s.name, kind := s.kind.itemKind, detail := some s.definition,
    snippet := some (definitionSnippet s.definition) }

/-- Whether a column is not before the first of a scope. No column is, if the
first is unknown. -/
def Scope.startsBy (s : Scope) (col : Int) : Bool :=
  match s.startCol with
  | none => false
  | some first => first ≤ col

/-- Whether a column is not after the last of a scope. No column is, if the
last is unknown. -/
def Scope.endsFrom (s : Scope) (col : Int) : Bool :=
  match s.endCol with
  | none => false
  | some last => col ≤ last

/-- Whether a place, counted from one, lies in a scope. Columns only matter on
the first and the last line, and only to a clean snapshot. -/
def Scope.contains (s : Scope) (dirty : Bool) (line col : Int) : Bool :=
  (s.startLine ≤ line && line ≤ s.endLine) &&
    (dirty ||
      ((line ≠ s.startLine || s.startsBy col) && (line ≠ s.endLine || s.endsFrom col)))

/-- The variables visible at a cursor. -/
def Snapshot.visible (s : Snapshot) (cursor : Position) : List Variable :=
  s.vars.filter fun v => v.scope.contains s.dirty (cursor.line + 1) (cursor.character + 1)

/-- The items offered at a cursor. -/
def Snapshot.completions (s : Snapshot) (cursor : Position) : List CompletionItem :=
  (s.visible cursor).map Variable.item ++ keywordItems ++ s.symbols.map Symbol.item

end RenServer
