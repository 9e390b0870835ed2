/- # The state of the server

One record holds all that the server remembers between two requests: where its
compiler comes from, the compile engine, the snapshot of the current session,
and the documents whose diagnostics the client shows.

Key definitions:

* `Server.start`: a server that has just started.
* `Server.publish`: tells the client a document's diagnostics.
* `Server.clearAll`: takes back all diagnostics that the client shows.
-/
import RenServer.Compile.Engine
import RenServer.CompilerChoice
import RenServer.LogLevel
import RenServer.Snapshot

namespace RenServer

open Compile

/-- The state of the server. `override` is the command line's choice of a
compiler, and `published` the documents that the client shows diagnostics of, in
order. -/
structure Server where
  environment : Environment
  override : Option String := none
  choice : CompilerChoice := {}
  engine : Engine
  snapshot : Snapshot := .empty
  published : List String := []
  logLevel : Nat := LogLevel.initial

/-- A text into an ordered list without repetition. -/
def insertOrdered (s : String) : List String → List String
  | [] => [s]
  | t :: rest => if s < t then s :: t :: rest else if s = t then t :: rest else t :: insertOrdered s rest

namespace Server

/-- A server that has just started: nothing is chosen yet, so the environment or
the default decides. -/
def start (environment : Environment) : Server where
  environment := environment
  engine := { compiler := environmentCompiler environment }

/-- Notes an event. -/
def note (s : Server) (event : Event) : Server := { s with engine := s.engine.note event }

/-- Tells the client a document's diagnostics, all of them at once. -/
def publish (s : Server) (uri : String) (diagnostics : List Diagnostic) : Server :=
  { s.note (.publish uri diagnostics) with
    published :=
      if diagnostics.isEmpty then s.published.filter (· ≠ uri) else insertOrdered uri s.published }

/-- Takes back all diagnostics that the client shows. -/
def clearAll (s : Server) : Server := s.published.foldl (fun s uri => s.publish uri []) s

/-- The compiler in use: the command line's if it names one, and otherwise what
the choice comes to. -/
def resolveCompiler (s : Server) : Except ProjectFault Value :=
  match s.override with
  | some path => .ok (.str path)
  | none => s.choice.resolve s.environment

end Server
end RenServer
