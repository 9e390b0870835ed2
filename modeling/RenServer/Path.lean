/- # Paths

A path is a text with components between slashes. Two spellings name the same
file if they become the same absolute path: relative ones start at the working
directory, empty components and `.` say nothing, and `..` takes back the
component before it, or nothing at the root. Exactly two slashes at the start
are kept apart from one.

Key definitions:

* `Path.absolute`: the absolute path that a spelling stands for.
* `Path.names`: the components that are followed to look up a file, with `..`
  left alone.
* `Path.inside`: the path of a file in a directory, as the system is asked for it.
-/
import RenServer.Text.Cut

namespace RenServer
namespace Path

open Text

/-- An absolute path: whether it starts with exactly two slashes, and its
components. -/
structure Absolute where
  doubled : Bool
  components : List (List Char)
  deriving DecidableEq, Repr

/-- Whether a spelling starts at the root. -/
def isRooted : List Char → Bool
  | '/' :: _ => true
  | _ => false

/-- Whether a spelling starts with two slashes and no third. -/
def isDoubled : List Char → Bool
  | '/' :: '/' :: '/' :: _ => false
  | '/' :: '/' :: _ => true
  | _ => false

/-- A spelling that starts at the root: a relative one is read from the working
directory, behind a slash unless the directory ends in one. -/
def rooted (directory path : List Char) : List Char :=
  if isRooted path then path
  else if directory.getLast? = some '/' then directory ++ path
  else directory ++ '/' :: path

/-- Goes on from a place, given by its components with the last one first. -/
def step (place : List (List Char)) (component : List Char) : List (List Char) :=
  if component = [] ∨ component = ['.'] then place
  else if component = ['.', '.'] then place.tail
  else component :: place

/-- The components that a spelling stands for. -/
def resolve (path : List Char) : List (List Char) := ((fields '/' path).foldl step []).reverse

/-- The absolute path that a spelling stands for. -/
def absolute (directory path : List Char) : Absolute :=
  let full := rooted directory path
  { doubled := isDoubled full, components := resolve full }

/-- Whether two spellings stand for the same absolute path. -/
def same (directory first second : List Char) : Bool :=
  absolute directory first == absolute directory second

/-- The components of a spelling that say something. `..` is one of them. -/
def names (path : List Char) : List (List Char) :=
  (fields '/' path).filter fun component => component ≠ [] ∧ component ≠ ['.']

/-- The slashes that a spelling starts with, as far as they say something. -/
def leadingSlashes (path : List Char) : List Char :=
  if isDoubled path then ['/', '/'] else if isRooted path then ['/'] else []

/-- A name in a directory, spelled without what says nothing. `..` stays, since
only the system knows where it leads. -/
def inside (directory name : List Char) : List Char :=
  leadingSlashes directory ++ ['/'].intercalate (names directory ++ [name])

end Path
end RenServer
