/- # The choice of the compiler

The client's choice comes first, then the project file's, then the
environment's, then the default. A project file that is missing, no file or no
TOML document chooses nothing. One that is not UTF-8, or that holds a number
with too many digits or values nested too deep, is an error, and so is one that
the system refuses to look up.

Key definitions:

* `projectCompiler`: what the project file chooses.
* `CompilerChoice.resolve`: the compiler in use.
-/
import RenServer.Environment
import RenServer.Toml.Document

namespace RenServer

open Text

/-- Why a project file cannot be read. -/
inductive ProjectFault where
  | undecodable (place : Utf8.Undecodable)
  | tooLong (numeral : TooLong)
  | tooDeep
  /-- The system refuses to look for the file. -/
  | refused (refusal : Refusal) (path : String)
  deriving DecidableEq, Repr

def ProjectFault.message : ProjectFault → String
  | .undecodable place => place.message
  | .tooLong numeral => numeral.message
  | .tooDeep => "maximum recursion depth exceeded"
  | .refused refusal path =>
    "[Errno " ++ toString refusal.number ++ "] " ++ refusal.words ++ ": " ++ quoted path

/-- The compiler when nobody chooses one. -/
def defaultCompiler : String := "renc"

/-- The name of the project file. -/
def projectFile : String := ".renlsp.toml"

/-- Every line end of a file becomes a newline. -/
def unifyBreaks : List Char → List Char
  | [] => []
  | '\r' :: '\n' :: rest => '\n' :: unifyBreaks rest
  | c :: rest => (if c = '\r' then '\n' else c) :: unifyBreaks rest

/-- What a document chooses: `path` of its table `compiler`. -/
def chosenIn (document : Value) : Value :=
  match document.get "compiler" with
  | .table fields => (Value.table fields).get "path"
  | _ => .null

/-- What the bytes of a project file choose, with room for its nested values. -/
def chosenByBytes (room : Nat) (bytes : List UInt8) : Except ProjectFault Value :=
  match Utf8.decodeStrict bytes with
  | .error place => .error (.undecodable place)
  | .ok text =>
    match Toml.parse room (unifyBreaks text) with
    | .ok document => .ok (chosenIn document)
    | .error (.tooLong numeral) => .error (.tooLong numeral)
    | .error .tooDeep => .error .tooDeep
    | .error .malformed => .ok .null

/-- The path of the project file of a workspace. -/
def projectPath (root : String) : List Char := Path.inside root.toList projectFile.toList

/-- What the project file of a workspace chooses. -/
def projectCompiler (env : Environment) : Option String → Except ProjectFault Value
  | none => .ok .null
  | some root =>
    if root = "" then .ok .null
    else
      match env.lookUp (projectPath root) with
      | .ok (some (.file bytes)) => chosenByBytes env.room bytes
      | .ok _ => .ok .null
      | .error refusal =>
        if refusal.saysMissing then .ok .null
        else .error (.refused refusal (String.ofList (projectPath root)))

/-- What the environment chooses, or else the default. -/
def environmentCompiler (env : Environment) : Value :=
  (Value.ofText? env.compilerVariable).orElse (.str defaultCompiler)

/-- The workspace, and the client's choice. -/
structure CompilerChoice where
  root : Option String := none
  explicit : Value := .null
  deriving Repr

/-- The client chooses. A choice that says nothing is taken back. -/
def CompilerChoice.setExplicit (c : CompilerChoice) (explicit : Value) : CompilerChoice :=
  { c with explicit := explicit.orElse .null }

/-- The compiler in use. -/
def CompilerChoice.resolve (c : CompilerChoice) (env : Environment) :
    Except ProjectFault Value :=
  if c.explicit.present then .ok c.explicit
  else (projectCompiler env c.root).map fun project => project.orElse (environmentCompiler env)

end RenServer
