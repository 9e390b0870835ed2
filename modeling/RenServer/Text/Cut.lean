/- # Cutting a text

Three ways to take a text apart: at every occurrence of a character, at the
first occurrence of a separator, and after a given start.
-/

namespace RenServer
namespace Text

/-- The parts of a text between the occurrences of a character. There is one
more part than there are occurrences. -/
def fields (sep : Char) : List Char → List (List Char)
  | [] => [[]]
  | c :: rest =>
    if c = sep then [] :: fields sep rest
    else
      match fields sep rest with
      | [] => [[c]]
      | part :: more => (c :: part) :: more

/-- What follows a given start of a text. -/
def after? : List Char → List Char → Option (List Char)
  | [], s => some s
  | _ :: _, [] => none
  | t :: ts, c :: cs => if t = c then after? ts cs else none

/-- What stands before and after the first occurrence of a separator. -/
def cut? (sep : List Char) : List Char → Option (List Char × List Char)
  | [] => (after? sep []).map fun rest => ([], rest)
  | c :: cs =>
    match after? sep (c :: cs) with
    | some rest => some ([], rest)
    | none => (cut? sep cs).map fun (before, rest) => (c :: before, rest)

end Text
end RenServer
