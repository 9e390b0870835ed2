/- # The compile engine

At most one compile counts at a time, and the newest wins. A run that begins
kills the process that is tracked, takes the next generation and asks for a
process of its own. When the operating system answers, the run is queued, and
when it is resumed it goes on as far as it can: a run that is no longer the
newest kills its fresh process, or drops its output, and ends without a result.

A spawn that fails is answered like any other: the run is suspended, and learns of
it when it is resumed. So it is here also where the system refuses at once, within
the run's first turn.

Sessions follow one another in one engine. A ticket names a session and a
generation in it, so a run of an earlier session is never the newest.

What happened is kept in a journal, oldest first.

Key definitions:

* `Engine.submit`, `Engine.reset`, `Engine.renew`, `Engine.answer`: what the
  outside does.
* `Engine.resume`: what a queued run does.
* `Engine.drain`: resumes the queued runs in order.
-/
import RenServer.Compile.Process
import RenServer.Diagnostic

namespace RenServer
namespace Compile

open Text

/-- A document to compile: what the client calls it, and its file. -/
structure Job where
  uri : String
  path : String
  deriving DecidableEq, Repr, Inhabited

/-- A turn of the compiler: the session and the generation in it. -/
structure Ticket where
  session : Nat
  generation : Nat
  deriving DecidableEq, Repr

/-- How far a run has come. -/
inductive Stage where
  /-- It has not begun. -/
  | waiting
  /-- It has asked for its process. -/
  | spawning (ticket : Ticket) (process : Nat)
  /-- Its process runs, and its output is awaited. -/
  | collecting (ticket : Ticket) (process : Nat)
  | ended
  deriving DecidableEq, Repr

/-- A run: a job and how far it has come. -/
structure Run where
  job : Job
  stage : Stage := .waiting
  deriving DecidableEq, Repr

/-- What an accepted run hands over. -/
structure Result where
  stdout : String
  stderr : String
  code : Option Int
  generation : Nat
  deriving DecidableEq, Repr

/-- How a run ends. -/
inductive Outcome where
  /-- A newer run or a reset came first. -/
  | superseded
  | finished (result : Result)
  /-- The compiler cannot be run. -/
  | notRun (command : Command) (reason : String)
  /-- The spawn failed in a way that nobody expects. -/
  | crashed (text : String)
  deriving Repr, BEq

/-- The words for a compiler that cannot be run. -/
def Outcome.notRunText (command : Command) (reason : String) : String :=
  s!"{command.compiler.display}: {reason}"

/-- What happened. -/
inductive Event where
  | spawn (process : Nat) (command : Command)
  | kill (process : Nat)
  | ended (run : Nat) (outcome : Outcome)
  | publish (uri : String) (diagnostics : List Diagnostic)
  | showMessage (text : String)
  deriving Repr

/-- The compiler in use, the newest ticket, the tracked process, and every
process and run so far, by number. -/
structure Engine where
  compiler : Value
  session : Nat := 0
  generation : Nat := 0
  tracked : Option Nat := none
  processes : List Process := []
  runs : List Run := []
  queue : List Nat := []
  journal : List Event := []

namespace Engine

variable (e : Engine)

/-- The newest ticket. -/
def ticket : Ticket := { session := e.session, generation := e.generation }

/-- Whether a process is tracked. -/
def busy : Bool := e.tracked.isSome

/-- The command that compiles a document. -/
def command (document : String) : Command := { compiler := e.compiler, document }

/-- Notes an event. -/
def note (event : Event) : Engine := { e with journal := e.journal ++ [event] }

/-- Whether a process is known to have ended. -/
def hasEnded (process : Nat) : Bool :=
  match e.processes[process]? with
  | some p => p.code.isSome
  | none => false

/-- Kills the tracked process, unless it has ended, and forgets it. -/
def killTracked : Engine :=
  match e.tracked with
  | none => e
  | some process =>
    let rest := { e with tracked := none }
    if e.hasEnded process then rest else rest.note (.kill process)

/-- No run so far counts any more. -/
def reset : Engine :=
  let idle := e.killTracked
  { idle with generation := idle.generation + 1 }

/-- Opens the next session, with a compiler of its own. -/
def renew (compiler : Value) : Engine :=
  { e with compiler, session := e.session + 1, generation := 0, tracked := none }

/-- Queues a new run. -/
def submit (job : Job) : Engine :=
  { e with runs := e.runs ++ [{ job }], queue := e.queue ++ [e.runs.length] }

/-- A run comes to a stage. -/
def setStage (run : Nat) (stage : Stage) : Engine :=
  { e with runs := e.runs.modify run fun r => { r with stage } }

/-- A run ends. -/
def finish (run : Nat) (outcome : Outcome) : Engine × Option Outcome :=
  ((e.setStage run .ended).note (.ended run outcome), some outcome)

/-- A run begins: it takes the next generation and asks for a process. -/
def begin (run : Nat) (job : Job) : Engine :=
  let turn := e.reset
  let process := turn.processes.length
  let command := turn.command job.path
  let asked := { turn with processes := turn.processes ++ [({ run, command } : Process)] }
  (asked.note (.spawn process command)).setStage run (.spawning turn.ticket process)

/-- Why the system refused: its reason, or its whole report if it gave none. -/
def reasonOf (code : Int) (reason : String) : String :=
  if reason = "" then s!"[Errno {code}] {reason}" else reason

/-- A run whose spawn failed ends. It tracked no process. -/
def spawnFailed (run : Nat) (command : Command) (failure : SpawnFailure) :
    Engine × Option Outcome :=
  match failure with
  | .refused code reason => e.finish run (.notRun command (reasonOf code reason))
  | .unavailable text => e.finish run (.notRun command text)
  | .unexpected text => e.finish run (.crashed text)

/-- A run reads the output of its process. Only the newest has a result. -/
def collect (run : Nat) (ticket : Ticket) (code : Option Int) (output : Output) :
    Engine × Option Outcome :=
  if ticket = e.ticket then
    { e with tracked := none }.finish run (.finished {
      stdout := String.ofList (Utf8.decodeLossy output.stdout)
      stderr := String.ofList (Utf8.decodeLossy output.stderr)
      code
      generation := ticket.generation })
  else e.finish run .superseded

/-- A run awaits the output of its process, unless it is there already. -/
def awaitOutput (run : Nat) (ticket : Ticket) (process : Nat) : Engine × Option Outcome :=
  match e.processes[process]? with
  | some { code, output := some output, .. } => e.collect run ticket code output
  | _ => (e.setStage run (.collecting ticket process), none)

/-- A run whose process was spawned tracks it if the run is still the newest, and
kills it otherwise. -/
def spawnDone (run : Nat) (ticket : Ticket) (process : Nat) : Engine × Option Outcome :=
  if ticket = e.ticket then { e with tracked := some process }.awaitOutput run ticket process
  else (e.note (.kill process)).finish run .superseded

/-- A queued run goes on as far as it can. -/
def resume (run : Nat) : Engine × Option Outcome :=
  match e.runs[run]? with
  | none => (e, none)
  | some r =>
    match r.stage with
    | .waiting => (e.begin run r.job, none)
    | .spawning ticket process =>
      match e.processes[process]? with
      | some { command, spawn := .failed failure, .. } =>
        e.spawnFailed run command failure
      | some { spawn := .done, .. } => e.spawnDone run ticket process
      | _ => (e, none)
    | .collecting ticket process => e.awaitOutput run ticket process
    | .ended => (e, none)

/-- Changes what is known about a process. -/
def setProcess (process : Nat) (change : Process → Process) : Engine :=
  { e with processes := e.processes.modify process change }

/-- Queues a run. -/
def enqueue (run : Nat) : Engine := { e with queue := e.queue ++ [run] }

/-- Whether a run awaits the output of a process. -/
def awaits (run process : Nat) : Bool :=
  match e.runs[run]? with
  | some { stage := .collecting _ p, .. } => p == process
  | _ => false

/-- The spawn of a process is answered, once, and its run is queued. -/
def answerSpawn (process : Nat) (spawn : Spawn) : Engine :=
  match e.processes[process]? with
  | some { run, spawn := .asked, .. } =>
    (e.setProcess process fun p => { p with spawn }).enqueue run
  | _ => e

/-- The operating system answers. An answer that nobody can be waiting for
changes nothing. -/
def answer : Answer → Engine
  | .spawned process => e.answerSpawn process .done
  | .spawnFailed process failure => e.answerSpawn process (.failed failure)
  | .reaped process code =>
    match e.processes[process]? with
    | some { spawn := .done, .. } => e.setProcess process fun p => { p with code }
    | _ => e
  | .exited process code output =>
    match e.processes[process]? with
    | some { run, spawn := .done, output := none, .. } =>
      let ended := e.setProcess process fun p => { p with code, output := some output }
      if e.awaits run process then ended.enqueue run else ended
    | _ => e

/-- Resumes the queued runs in order. A resumed run queues nothing. -/
def drain : Engine :=
  e.queue.foldl (fun e run => (e.resume run).1) { e with queue := [] }

/-- How many runs have not ended. -/
def unfinished : Nat := e.runs.countP fun r => r.stage ≠ .ended

end Engine
end Compile
end RenServer
