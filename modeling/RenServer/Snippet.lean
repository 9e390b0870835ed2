/- # Snippets

The text that a completion inserts, with places for the user to type. A
definition's snippet has its first place where the user most likely starts:
after the first of `: [ ( {`, or one character on if a blank or a closing
bracket follows. Without such a character the whole definition is there to be
typed over.

Key definitions:

* `Snippet`: text, tab stops and placeholders.
* `Snippet.render`: a snippet as it is written.
* `Snippet.ofDefinition`: a definition's snippet.
-/

namespace RenServer

/-- A part of a snippet. -/
inductive SnippetPart where
  /-- Text as it stands. -/
  | text (s : List Char)
  /-- A place to type; place 0 comes last. -/
  | stop (number : Nat)
  /-- A place to type with text in it. -/
  | placeholder (number : Nat) (s : List Char)
  deriving DecidableEq, Repr

abbrev Snippet := List SnippetPart

/-- Every occurrence of a character gets a backslash before it. -/
def backslashed (c : Char) (s : List Char) : List Char :=
  s.flatMap fun d => if d = c then ['\\', d] else [d]

/-- Text as it is written in a snippet: what would end it or open a place has a
backslash before it, and so has the backslash, which comes first. -/
def escape (s : List Char) : List Char :=
  backslashed '\x7d' (backslashed '$' (backslashed '\\' s))

/-- A part as it is written: stop zero without braces, every other place with
them. -/
def SnippetPart.render : SnippetPart → List Char
  | .text s => escape s
  | .stop 0 => ['$', '0']
  | .stop n => ['$', '\x7b'] ++ Nat.toDigits 10 n ++ ['\x7d']
  | .placeholder n s => ['$', '\x7b'] ++ Nat.toDigits 10 n ++ ':' :: escape s ++ ['\x7d']

/-- A snippet as it is written. -/
def Snippet.render (s : Snippet) : List Char := s.flatMap SnippetPart.render

/-- The characters after which the user starts to type. -/
def opensPlace (c : Char) : Bool := c == ':' || c == '[' || c == '(' || c == '\x7b'

/-- The characters that are stepped over on the way to the first place. -/
def steppedOver (c : Char) : Bool := c == ' ' || c == ')' || c == ']' || c == '\x7d'

/-- A definition before and after its first place. -/
def splitDefinition? : List Char → Option (List Char × List Char)
  | [] => none
  | c :: rest =>
    if opensPlace c then
      match rest with
      | [] => some ([c], [])
      | d :: more => if steppedOver d then some ([c, d], more) else some ([c], d :: more)
    else (splitDefinition? rest).map fun (before, after) => (c :: before, after)

/-- The snippet of a definition. -/
def Snippet.ofDefinition (definition : List Char) : Snippet :=
  match splitDefinition? definition with
  | some (before, after) => [.text before, .stop 1, .text after, .stop 0]
  | none => [.placeholder 1 definition, .stop 0]

/-- The snippet of a definition as it is written. -/
def definitionSnippet (definition : String) : String :=
  String.ofList (Snippet.ofDefinition definition.toList).render

end RenServer
