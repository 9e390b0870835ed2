/- # Analyses

An analysis is a run of the engine whose outcome is reported to the client. An
accepted run replaces the snapshot, and then its findings become the document's
diagnostics; if they cannot, the engine is reset and the client is told. A
superseded run says nothing.

Reports go to the session that is current when the run ends, whichever session
it began in.

Key definitions:

* `Server.report`: what an outcome does.
* `Server.drain`: resumes the queued runs and reports their outcomes.
-/
import RenServer.Server.State

namespace RenServer

open Text Compile

/-- Why an accepted run's findings are not shown. -/
def DiagnosticFault.message : DiagnosticFault → String
  | .tooLong numeral => numeral.message
  | .outOfRange place => place.message
  | .unknownLevel level => quoted level

namespace Server

/-- What the client is told when the compiler cannot be run. -/
def notRunText (command : Command) (reason : String) : String :=
  s!"Failed to run '{command.compiler.display}'. Please ensure it's in your system PATH or set the 'ren.compiler.path' setting. Error: {reason}"

/-- What the client is told when something else goes wrong. -/
def crashText (text : String) : String :=
  s!"An unexpected error occurred while running the Ren compiler: {text}"

/-- An analysis fails: no run counts any more, and the client is told. -/
def fail (s : Server) (text : String) : Server :=
  { s with engine := s.engine.reset }.note (.showMessage (crashText text))

/-- A run is accepted: its report becomes the snapshot, and its findings the
document's diagnostics. -/
def accept (s : Server) (job : Job) (result : Result) : Server :=
  let fresh := { s with snapshot := .ofReport (.read result.stdout) (some job.path) }
  match diagnose s.environment.directory job.path result.stderr with
  | .ok diagnostics => fresh.publish job.uri diagnostics
  | .error fault => fresh.fail fault.message

/-- What the outcome of a run does. -/
def report (s : Server) (job : Job) : Outcome → Server
  | .superseded => s
  | .finished result => s.accept job result
  | .notRun command reason => s.clearAll.note (.showMessage (notRunText command reason))
  | .crashed text => s.fail text

/-- A queued run goes on, and if it ends its outcome is reported. -/
def resume (s : Server) (run : Nat) : Server :=
  match s.engine.runs[run]? with
  | none => s
  | some { job, .. } =>
    let (engine, outcome) := s.engine.resume run
    match outcome with
    | none => { s with engine }
    | some outcome => { s with engine }.report job outcome

/-- Resumes the queued runs in order. -/
def drain (s : Server) : Server :=
  s.engine.queue.foldl resume { s with engine := { s.engine with queue := [] } }

end Server
end RenServer
