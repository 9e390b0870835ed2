/- # Reading TOML: blanks, comments and keys

A reader takes the characters that are left and returns what it read and what
is left after it. Nothing is read twice: the first character tells which reader
goes on. A reader that calls itself on what another one left counts its steps
(`basicUpto`), and the one that is used allows a step for every character.
-/
import RenServer.Text.Numeral
import RenServer.Text.Hex
import RenServer.Text.Cut
import RenServer.Value

namespace RenServer
namespace Toml

open Text

/-- Why a text is no document. A number with too many digits and values nested
too deep are told apart. -/
inductive Fault where
  | malformed
  | tooLong (numeral : TooLong)
  | tooDeep
  deriving DecidableEq, Repr

def isSpace (c : Char) : Bool := c == ' ' || c == '\t'

def isSpaceOrNewline (c : Char) : Bool := isSpace c || c == '\n'

/-- Control characters, the tab apart, stand nowhere in a document but at the
end of a line. -/
def isControl (c : Char) : Bool := (c.toNat < 0x20 || c.toNat == 0x7f) && c != '\t'

def isAsciiDigit (c : Char) : Bool := '0' ≤ c && c ≤ '9'

/-- The characters of a key without quotes. -/
def isBare (c : Char) : Bool :=
  isAsciiDigit c || ('a' ≤ c && c ≤ 'z') || ('A' ≤ c && c ≤ 'Z') || c == '-' || c == '_'

def skipSpaces (s : List Char) : List Char := s.dropWhile isSpace

/-- What is left after a comment, if there is one. -/
def skipComment : List Char → Except Fault (List Char)
  | '#' :: rest =>
    if (rest.takeWhile (· ≠ '\n')).any isControl then .error .malformed
    else .ok (rest.dropWhile (· ≠ '\n'))
  | s => .ok s

/-- What is left after blanks, line ends and comments, from inside a comment or
from outside. -/
def skipFillerFrom (inComment : Bool) : List Char → Except Fault (List Char)
  | [] => .ok []
  | c :: rest =>
    if inComment then
      if c = '\n' then skipFillerFrom false rest
      else if isControl c then .error .malformed
      else skipFillerFrom true rest
    else if c = '#' then skipFillerFrom true rest
    else if isSpaceOrNewline c then skipFillerFrom false rest
    else .ok (c :: rest)

/-- What is left after blanks, line ends and comments. -/
def skipFiller (s : List Char) : Except Fault (List Char) := skipFillerFrom false s

/-! ### Strings -/

/-- The characters that a backslash and a letter stand for. -/
def escapes : List (Char × Char) :=
  [('b', '\x08'), ('t', '\t'), ('n', '\n'), ('f', '\x0c'), ('r', '\r'), ('"', '"'), ('\\', '\\')]

/-- The character that hexadecimal digits name, and what is left after them. -/
def hexChar (count : Nat) (s : List Char) : Except Fault (List Char × List Char) :=
  match hexNumber? (s.take count) with
  | some n =>
    if (s.take count).length = count ∧ n.isValidChar then .ok ([Char.ofNat n], s.drop count)
    else .error .malformed
  | none => .error .malformed

/-- What follows a backslash in a string. In a string of several lines, a
backslash before the end of a line stands for nothing, and so do the blanks and
line ends after it. -/
def escape (multiline : Bool) : List Char → Except Fault (List Char × List Char)
  | 'u' :: rest => hexChar 4 rest
  | 'U' :: rest => hexChar 8 rest
  | c :: rest =>
    if multiline && isSpaceOrNewline c then
      match (c :: rest).dropWhile isSpace with
      | '\n' :: more => .ok ([], more.dropWhile isSpaceOrNewline)
      | _ => .error .malformed
    else
      match escapes.lookup c with
      | some d => .ok ([d], rest)
      | none => .error .malformed
  | [] => .error .malformed

/-- The rest of a string between double quotes, in so many steps at most. -/
def basicUpto : Nat → List Char → Except Fault (List Char × List Char)
  | 0, _ => .error .malformed
  | _, [] => .error .malformed
  | fuel + 1, c :: rest =>
    if c = '"' then .ok ([], rest)
    else if c = '\\' then do
      let (first, rest) ← escape false rest
      let (more, rest) ← basicUpto fuel rest
      return (first ++ more, rest)
    else if isControl c then .error .malformed
    else do
      let (more, rest) ← basicUpto fuel rest
      return (c :: more, rest)

/-- The rest of a string between double quotes. -/
def basic (s : List Char) : Except Fault (List Char × List Char) := basicUpto (s.length + 1) s

/-- Up to two quotes that still belong to a string of several lines. -/
def trailingQuotes (quote : Char) : List Char → List Char × List Char
  | c :: d :: rest =>
    if c = quote then if d = quote then ([c, d], rest) else ([c], d :: rest) else ([], c :: d :: rest)
  | [c] => if c = quote then ([c], []) else ([], [c])
  | [] => ([], [])

/-- The rest of a string between three double quotes, in so many steps at most. -/
def multiBasicUpto : Nat → List Char → Except Fault (List Char × List Char)
  | 0, _ => .error .malformed
  | _, [] => .error .malformed
  | fuel + 1, c :: rest =>
    if c = '\\' then do
      let (first, rest) ← escape true rest
      let (more, rest) ← multiBasicUpto fuel rest
      return (first ++ more, rest)
    else if isControl c && c != '\n' then .error .malformed
    else
      match after? ['"', '"', '"'] (c :: rest) with
      | some rest => .ok (trailingQuotes '"' rest)
      | none => do
        let (more, rest) ← multiBasicUpto fuel rest
        return (c :: more, rest)

/-- The rest of a string between three double quotes. -/
def multiBasic (s : List Char) : Except Fault (List Char × List Char) :=
  multiBasicUpto (s.length + 1) s

/-- The rest of a string between single quotes. -/
def literal (s : List Char) : Except Fault (List Char × List Char) :=
  match cut? ['\''] s with
  | some (body, rest) => if body.any isControl then .error .malformed else .ok (body, rest)
  | none => .error .malformed

/-- The rest of a string between three single quotes. -/
def multiLiteral (s : List Char) : Except Fault (List Char × List Char) :=
  match cut? ['\'', '\'', '\''] s with
  | some (body, rest) =>
    if body.any fun c => isControl c && c != '\n' then .error .malformed
    else
      let (more, rest) := trailingQuotes '\'' rest
      .ok (body ++ more, rest)
  | none => .error .malformed

/-- A line end right after three opening quotes is not part of the string. -/
def dropFirstNewline : List Char → List Char
  | '\n' :: rest => rest
  | s => s

/-- A string, from its first quote on. -/
def string? (s : List Char) : Option (Except Fault (List Char × List Char)) :=
  match s with
  | '"' :: rest =>
    some <| match after? ['"', '"'] rest with
      | some more => multiBasic (dropFirstNewline more)
      | none => basic rest
  | '\'' :: rest =>
    some <| match after? ['\'', '\''] rest with
      | some more => multiLiteral (dropFirstNewline more)
      | none => literal rest
  | _ => none

/-! ### Keys -/

/-- One part of a key. A quoted part is never of several lines. -/
def keyPart : List Char → Except Fault (String × List Char)
  | [] => .error .malformed
  | c :: rest =>
    if isBare c then
      .ok (String.ofList ((c :: rest).takeWhile isBare), (c :: rest).dropWhile isBare)
    else if c = '"' then (basic rest).map fun (k, r) => (String.ofList k, r)
    else if c = '\'' then (literal rest).map fun (k, r) => (String.ofList k, r)
    else .error .malformed

/-- A key, in so many steps at most: parts with dots between them. Blanks around
the parts are skipped. -/
def keyUpto : Nat → List Char → Except Fault (List String × List Char)
  | 0, _ => .error .malformed
  | fuel + 1, s => do
    let (part, rest) ← keyPart s
    match skipSpaces rest with
    | '.' :: more => do
      let (parts, rest) ← keyUpto fuel (skipSpaces more)
      return (part :: parts, rest)
    | rest => return ([part], rest)

/-- A key. -/
def key (s : List Char) : Except Fault (List String × List Char) := keyUpto (s.length + 1) s

end Toml
end RenServer
