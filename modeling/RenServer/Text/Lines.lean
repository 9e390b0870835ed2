/- # Lines of a text

The compiler's output is read line by line, and a line ends at any of eleven
breaks, `\r\n` being one of them. An editor knows three breaks only: `\n`,
`\r` and `\r\n`.

Key definitions:

* `lines`: the lines of a text, without their breaks. A break at the end
  opens no further line.
* `editorBreaks`: how many line breaks an editor sees in a text.
-/

namespace RenServer
namespace Text

/-- The single characters at which a line of compiler output ends. -/
def isBreak (c : Char) : Bool :=
  c == '\n' || c == '\r' || c == '\x0b' || c == '\x0c' || c == '\x1c' || c == '\x1d' ||
    c == '\x1e' || c == '\x85' || c == '\u2028' || c == '\u2029'

/-- The lines of a text. -/
def lines : List Char → List (List Char)
  | [] => []
  | '\r' :: '\n' :: rest => [] :: lines rest
  | c :: rest =>
    if isBreak c then [] :: lines rest
    else
      match lines rest with
      | [] => [[c]]
      | line :: more => (c :: line) :: more

/-- A character that does not open a `\r\n` ends a line, or is the first of one. -/
theorem lines_cons {c : Char} {rest : List Char}
    (h : ∀ more, c = '\r' → rest = '\n' :: more → False) :
    lines (c :: rest) =
      if isBreak c then [] :: lines rest
      else
        match lines rest with
        | [] => [[c]]
        | line :: more => (c :: line) :: more := by
  rw [lines.eq_def]
  split
  · contradiction
  · rename_i more heq
    obtain ⟨rfl, rfl⟩ := List.cons.inj heq
    exact absurd rfl (h more rfl)
  · rename_i d more hd heq
    obtain ⟨rfl, rfl⟩ := List.cons.inj heq
    rfl

theorem lines_ne_nil {text : List Char} (h : text ≠ []) : lines text ≠ [] := by
  fun_cases lines text <;> simp_all

/-- The number of line breaks an editor sees in a text. -/
def editorBreaks : List Char → Nat
  | [] => 0
  | '\r' :: '\n' :: rest => editorBreaks rest + 1
  | c :: rest => if c == '\n' || c == '\r' then editorBreaks rest + 1 else editorBreaks rest

end Text
end RenServer
