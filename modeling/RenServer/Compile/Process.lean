/- # Compiler processes

The operating system's side of a compile: a spawn is asked for and answered,
and a spawned process ends and hands over its output. A killed process is only
asked to end; its end comes as any other.
-/
import RenServer.Value
import RenServer.Text.Utf8

namespace RenServer
namespace Compile

/-- A compiler on a document. -/
structure Command where
  compiler : Value
  document : String
  deriving Repr, BEq, Inhabited

/-- The words of a command. -/
def Command.words (c : Command) : List Value :=
  [c.compiler, .str c.document, .str "--diagnostics"]

/-- Why a spawn failed. -/
inductive SpawnFailure where
  /-- The system refused, with a number and a reason. -/
  | refused (code : Int) (reason : String)
  /-- The system refused, with words of its own. -/
  | unavailable (text : String)
  /-- Anything else went wrong. -/
  | unexpected (text : String)
  deriving DecidableEq, Repr

/-- What a process wrote before it ended. -/
structure Output where
  stdout : List UInt8
  stderr : List UInt8
  deriving DecidableEq, Repr, Inhabited

/-- How far a spawn has come. -/
inductive Spawn where
  | asked
  | done
  | failed (failure : SpawnFailure)
  deriving DecidableEq, Repr

/-- A process, from the moment its spawn is asked for. `run` is the run that
asked, `code` its exit code once it is known to have ended, and `output` what it
wrote once that can be read. -/
structure Process where
  run : Nat
  command : Command
  spawn : Spawn := .asked
  code : Option Int := none
  output : Option Output := none
  deriving Repr

/-- What the operating system says about a process, given by its number. -/
inductive Answer where
  | spawned (process : Nat)
  | spawnFailed (process : Nat) (failure : SpawnFailure)
  | reaped (process : Nat) (code : Option Int)
  | exited (process : Nat) (code : Option Int) (output : Output)
  deriving DecidableEq, Repr

end Compile
end RenServer
