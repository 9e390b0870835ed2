/- # The environment of the server

What the server sees of the machine it runs on: the working directory, files,
and one variable that may name a compiler. Files stand in a tree of directories.
To look up a path is to follow its components, and each but the last has to lead
to a directory, also the ones that `..` takes back. The system may refuse: a name
or a path is too long, or nothing may be looked up in a directory on the way.

Key definitions:

* `Environment.lookUp`: what stands at a path, or why the system does not tell.
* `Environment.setEntry`: puts something at a path, or takes it away.
-/
import RenServer.Path
import RenServer.Text.Utf8

namespace RenServer

/-- What stands at a place of the file system. -/
inductive FileEntry where
  | directory
  | file (bytes : List UInt8)
  deriving DecidableEq, Repr

/-- A place of the file system: the names from the root down to it. -/
abbrev Location := List (List Char)

/-- Why the system refuses to look something up: the number of the reason, and
its words. -/
structure Refusal where
  number : Nat
  words : String
  deriving DecidableEq, Repr

namespace Refusal

/-- A name, or a path, has more bytes than the system allows. -/
def nameTooLong : Refusal := ⟨36, "File name too long"⟩

/-- Whether a reason only says that nothing is there: no such entry, no such open
file, something on the way that is no directory, or links that lead in a circle. -/
def saysMissing (r : Refusal) : Bool := [2, 9, 20, 40].contains r.number

end Refusal

/-- The working directory, what stands where, and the variable. Then what the
system allows: the directories in which it refuses to look anything up, how many
bytes a name and a path may have, and how many readers of a text may be inside
one another. The last depends on what else the server is doing. -/
structure Environment where
  directory : String
  entries : List (Location × FileEntry) := []
  compilerVariable : Option String := none
  refusals : List (Location × Refusal) := []
  nameLimit : Nat := 255
  pathLimit : Nat := 4095
  room : Nat := 1000
  deriving DecidableEq, Repr

namespace Environment

/-- What stands at a place. The root is a directory. -/
def at? (env : Environment) (place : Location) : Option FileEntry :=
  if place = [] then some .directory else env.entries.lookup place

/-- The place that a component leads to from a directory. Nothing is above the
root. -/
def enter (place : Location) (component : List Char) : Location :=
  if component = ['.', '.'] then place.dropLast else place ++ [component]

/-- The bytes of a text. -/
def byteCount (s : List Char) : Nat := s.foldl (fun n c => n + c.utf8Size) 0

/-- Why a component cannot be followed from a directory, if it cannot. -/
def refusal? (env : Environment) (place : Location) (component : List Char) : Option Refusal :=
  (env.refusals.lookup place).or
    (if component ≠ ['.', '.'] ∧ env.nameLimit < byteCount component then some .nameTooLong
      else none)

/-- What stands at the end of components that are followed from a place. -/
def follow (env : Environment) (place : Location) :
    List (List Char) → Except Refusal (Option FileEntry)
  | [] => .ok (env.at? place)
  | component :: rest =>
    if env.at? place = some .directory then
      match env.refusal? place component with
      | some refusal => .error refusal
      | none => env.follow (enter place component) rest
    else .ok none

/-- The place from which a path is followed. -/
def origin (env : Environment) (path : List Char) : Location :=
  if Path.isRooted path then [] else Path.resolve env.directory.toList

/-- What stands at a path. The system is not asked about a path with a null
character: nothing stands there. -/
def lookUp (env : Environment) (path : List Char) : Except Refusal (Option FileEntry) :=
  if path.contains '\x00' then .ok none
  else if env.pathLimit < byteCount path then .error .nameTooLong
  else env.follow (env.origin path) (Path.names path)

/-- Takes away what stands at a place, with everything in it. -/
def remove (env : Environment) (place : Location) : Environment :=
  { env with entries := env.entries.filter fun (p, _) => !place.isPrefixOf p }

/-- Puts something at a place, instead of what stands there. -/
def put (env : Environment) (place : Location) (entry : FileEntry) : Environment :=
  let cleared := env.remove place
  { cleared with entries := cleared.entries ++ [(place, entry)] }

/-- The directories that a place is in, the outermost first, without the root. -/
def above (place : Location) : List Location :=
  (List.range (place.length - 1)).map fun (n : Nat) => place.take (n + 1)

/-- Puts a directory at a place that has none. -/
def ensureDirectory (env : Environment) (place : Location) : Environment :=
  if env.at? place = some .directory then env else env.put place .directory

/-- Puts something at a path, in directories that are made for it, or nothing. -/
def setEntry (env : Environment) (path : String) (entry : Option FileEntry) : Environment :=
  let place := Path.resolve (Path.rooted env.directory.toList path.toList)
  match entry with
  | none => env.remove place
  | some e => ((above place).foldl ensureDirectory env).put place e

end Environment
end RenServer
