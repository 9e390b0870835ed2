/- # Requests

What reaches the server: the client's requests and notifications, changes of
the environment, and the operating system's answers about processes. Each is
handled at once; runs that it queues go on when the turn ends.

A request may fail after part of its work is done, and that part stays done.

Key definitions:

* `Server.handle`: the server after a request, and the reply.
* `Server.turn`: handles requests, then drains the queue.
-/
import RenServer.Server.Analysis
import RenServer.Settings
import RenServer.Completion
import RenServer.Uri

namespace RenServer

open Compile

/-- What reaches the server. -/
inductive Request where
  /-- The client begins, in a workspace and with options. -/
  | initialized (rootUri : Option String) (options : Value)
  | configured (settings : Value)
  | opened (uri : String)
  | saved (uri : String)
  | changed (uri : String) (changes : List ContentChange)
  | closed (uri : String)
  | complete (cursor : Position)
  /-- The command line names a compiler, or none. -/
  | overridden (path : Option String)
  | variableSet (value : Option String)
  | entrySet (path : String) (entry : Option FileEntry)
  | answered (answer : Answer)

/-- Why a request fails. -/
inductive RequestFault where
  | uri (fault : Uri.Fault)
  | project (fault : ProjectFault)
  | logLevel (fault : NotText)
  deriving DecidableEq, Repr

def RequestFault.message : RequestFault → String
  | .uri fault => fault.message
  | .project fault => fault.message
  | .logLevel fault => fault.message

/-- What the server says to a request. -/
structure Reply where
  fault : Option RequestFault := none
  items : Option (List CompletionItem) := none
  deriving DecidableEq, Repr

namespace Server

/-- Uses the compiler that the choice comes to. -/
def refresh (s : Server) : Server × Option RequestFault :=
  match s.resolveCompiler with
  | .ok compiler => ({ s with engine := { s.engine with compiler } }, none)
  | .error fault => (s, some (.project fault))

/-- The command line names a compiler; a blank name names none. -/
def setOverride (s : Server) (path : Option String) : Server × Option RequestFault :=
  { s with override := path.filter (· ≠ "") }.refresh

/-- Sets the log level that settings name. -/
def setLogLevel (s : Server) (settings : Value) : Server × Option RequestFault :=
  match LogLevel.apply s.logLevel (Settings.logLevel settings) with
  | .ok logLevel => ({ s with logLevel }, none)
  | .error fault => (s, some (.logLevel fault))

/-- The workspace of a root URI: its file if it has one, and otherwise the URI as
it stands. -/
def workspace : Option String → Except Uri.Fault (Option String)
  | none => .ok none
  | some uri =>
    if uri = "" then .ok none
    else (Uri.documentPath uri).map fun path => some ((path.filter (· ≠ "")).getD uri)

/-- Forgets all that the current session knows, and every run with it. -/
def resetSession (s : Server) : Server :=
  { s with engine := s.engine.reset, snapshot := .empty, published := [] }

/-- The client begins. The old session is reset before the compiler of the new
one is known, so it stays, empty, if none can be found. -/
def begin (s : Server) (rootUri : Option String) (options : Value) :
    Server × Option RequestFault :=
  match workspace rootUri with
  | .error fault => (s, some (.uri fault))
  | .ok root =>
    let s := { s with choice := { root, explicit := Settings.compilerPath options } }.resetSession
    match s.resolveCompiler with
    | .error fault => (s, some (.project fault))
    | .ok compiler => { s with engine := s.engine.renew compiler }.setLogLevel options

/-- The client sends settings. Only a table is looked at. -/
def configure (s : Server) (settings : Value) : Server × Option RequestFault :=
  match settings with
  | .table _ =>
    match Settings.compilerPath settings with
    | .null => s.setLogLevel settings
    | explicit =>
      match { s with choice := s.choice.setExplicit explicit }.refresh with
      | (s, none) => s.setLogLevel settings
      | (s, some fault) => (s, some fault)
  | _ => (s, none)

/-- Queues an analysis of a document. A document without a file has none. -/
def schedule (s : Server) (uri : String) : Server :=
  match Uri.documentPath uri with
  | .ok (some path) => { s with engine := s.engine.submit { uri, path } }
  | _ => s

/-- The client edits a document. Only the snapshot's own document moves it. -/
def edit (s : Server) (uri : String) (changes : List ContentChange) :
    Server × Option RequestFault :=
  match Uri.documentPath uri with
  | .error fault => (s, some (.uri fault))
  | .ok path =>
    if path.isSome ∧ path = s.snapshot.path then
      ({ s with snapshot := s.snapshot.applyChanges changes }, none)
    else (s, none)

/-- The server after a request, and the reply. -/
def handle (s : Server) : Request → Server × Reply
  | .initialized rootUri options => failable (s.begin rootUri options)
  | .configured settings => failable (s.configure settings)
  | .opened uri => (s.schedule uri, {})
  | .saved uri => (s.schedule uri, {})
  | .changed uri changes => failable (s.edit uri changes)
  | .closed uri => (s.publish uri [], {})
  | .complete cursor => (s, { items := some (s.snapshot.completions cursor) })
  | .overridden path => failable (s.setOverride path)
  | .variableSet value =>
    ({ s with environment := { s.environment with compilerVariable := value } }, {})
  | .entrySet path entry =>
    ({ s with environment := s.environment.setEntry path entry }, {})
  | .answered answer => ({ s with engine := s.engine.answer answer }, {})
where
  failable (result : Server × Option RequestFault) : Server × Reply :=
    (result.1, { fault := result.2 })

/-- Handles requests in order. -/
def handleAll (s : Server) : List Request → Server × List Reply
  | [] => (s, [])
  | request :: rest =>
    let (s, reply) := s.handle request
    let (s, replies) := s.handleAll rest
    (s, reply :: replies)

/-- A turn: requests are handled in order, and then the queued runs go on. -/
def turn (s : Server) (requests : List Request) : Server × List Reply :=
  let (s, replies) := s.handleAll requests
  (s.drain, replies)

end Server
end RenServer
