/- # What a resumed run and an answer can do

A queued run goes on as far as it can, and `Turn` lists the ways in which that can
go: it cannot go on, it begins, its spawn failed, it was outrun while its process
was spawned, it tracks its process, it reads the output of its process and has a
result, or it reads it too late. `resume_turn` says that there is no other way, and
what is known about runs is proved from it; `Engine.resume` is not opened again.
`Answered` and `answer_answered` do the same for the operating system's answers.

On the way a run passes moments (`Engine.moments`). Whether a moment comes to
pass is read off the stage of the run and the state of its process.

Key definitions: `Engine.stage?`, `Engine.turn?`, `Engine.ready`, `Moment`,
`Engine.moments`, `Turn`, `Answered`.
Key theorems: `Engine.reset_eq`, `Engine.begin_eq`, `Engine.resume_turn`,
`Engine.answer_answered`.
-/
import RenServer.Compile.Engine

namespace RenServer
namespace Compile

/-- The result that the output of a process makes. -/
def Output.result (output : Output) (code : Option Int) (generation : Nat) : Result where
  stdout := String.ofList (Text.Utf8.decodeLossy output.stdout)
  stderr := String.ofList (Text.Utf8.decodeLossy output.stderr)
  code := code
  generation := generation

/-- The outcome of a run whose spawn failed. -/
def SpawnFailure.outcome (command : Command) : SpawnFailure → Outcome
  | .refused code reason => .notRun command (Engine.reasonOf code reason)
  | .unavailable text => .notRun command text
  | .unexpected text => .crashed text

/-- The ticket and the process of a run that is under way. -/
def Stage.turn? : Stage → Option (Ticket × Nat)
  | .waiting => none
  | .spawning ticket process => some (ticket, process)
  | .collecting ticket process => some (ticket, process)
  | .ended => none

/-- A moment that a run passes, or a reset of the engine. -/
inductive Moment where
  /-- A run begins: it takes a ticket and asks for a process. -/
  | began (run : Nat) (ticket : Ticket) (process : Nat)
  /-- No run so far counts any more. -/
  | reset
  /-- A run goes on after its process was spawned. -/
  | spawned (run process : Nat)
  /-- A run goes on with what its process left behind. -/
  | read (run process : Nat) (code : Option Int) (output : Output)
  | ended (run : Nat) (outcome : Outcome)

namespace Engine

variable (e : Engine)

/-! ### Stages -/

/-- How far a run has come. -/
def stage? (run : Nat) : Option Stage := (e.runs[run]?).map Run.stage

/-- The ticket and the process of a run, if it is under way. -/
def turn? (run : Nat) : Option (Ticket × Nat) := (e.stage? run).bind Stage.turn?

/-- Whether a run can go on: it has not begun, its spawn is answered, or the
output that it awaits is there. -/
def ready (run : Nat) : Bool :=
  match e.stage? run with
  | some .waiting => true
  | some (.spawning _ process) => (e.processes[process]?).any (·.spawn ≠ .asked)
  | some (.collecting _ process) => (e.processes[process]?).any (·.output.isSome)
  | _ => false

theorem stage?_setStage (run : Nat) (stage : Stage) (r : Nat) :
    (e.setStage run stage).stage? r =
      if run = r then (e.stage? r).map fun _ => stage else e.stage? r := by
  unfold stage? setStage
  rw [List.getElem?_modify]
  by_cases h : run = r
  · simp [h, Function.comp_def]
  · simp [h]

theorem stage?_setStage_self {run : Nat} {old : Stage} (h : e.stage? run = some old)
    (stage : Stage) : (e.setStage run stage).stage? run = some stage := by
  simp [stage?_setStage, h]

theorem stage?_setStage_ne {run r : Nat} (h : run ≠ r) (stage : Stage) :
    (e.setStage run stage).stage? r = e.stage? r := by
  simp [stage?_setStage, h]

theorem stage?_track {run process : Nat} {old : Stage} (h : e.stage? run = some old) :
    ({ e with tracked := some process }.setStage run (.collecting e.ticket process)).stage? run =
      some (.collecting e.ticket process) := e.stage?_setStage_self h _

/-- A stage that a run has already come to changes nothing. -/
theorem setStage_self {run : Nat} {stage : Stage} (h : e.stage? run = some stage) :
    e.setStage run stage = e := by
  obtain ⟨r, hr, hs⟩ := Option.map_eq_some_iff.mp h
  have hruns : e.runs.modify run (fun r => { r with stage }) = e.runs := by
    apply List.ext_getElem?
    intro i
    rw [List.getElem?_modify]
    by_cases hi : run = i
    · subst hi
      simp [hr, ← hs]
    · simp [hi]
  unfold setStage
  rw [hruns]

theorem stage?_submit (job : Job) (r : Nat) :
    (e.submit job).stage? r = if r = e.runs.length then some .waiting else e.stage? r := by
  unfold stage? submit
  rw [List.getElem?_append]
  by_cases h : r = e.runs.length
  · simp [h]
  · rcases Nat.lt_or_ge r e.runs.length with hlt | hge
    · simp [h, hlt]
    · have h0 : r - e.runs.length ≠ 0 := by omega
      simp [h, Nat.not_lt.mpr hge, h0]

theorem stage?_length : e.stage? e.runs.length = none := by
  simp [stage?]

/-! ### Resets and beginnings, field by field -/

/-- The kill that a reset sends, if any. -/
def lastKill : List Event :=
  match e.tracked with
  | none => []
  | some process => if e.hasEnded process then [] else [.kill process]

theorem killTracked_eq :
    e.killTracked = { e with tracked := none, journal := e.journal ++ e.lastKill } := by
  unfold killTracked lastKill
  cases h : e.tracked with
  | none =>
    simp only [List.append_nil]
    rw [← h]
  | some process =>
    simp only
    split
    · simp
    · rfl

theorem reset_eq :
    e.reset = { e with tracked := none, generation := e.generation + 1,
                       journal := e.journal ++ e.lastKill } := by
  unfold reset
  rw [killTracked_eq]

theorem begin_eq (run : Nat) (job : Job) :
    e.begin run job =
      { e.setStage run (.spawning ⟨e.session, e.generation + 1⟩ e.processes.length) with
      tracked := none
      generation := e.generation + 1
      processes := e.processes ++ [{ run, command := e.command job.path }]
      journal := e.journal ++ e.lastKill ++ [.spawn e.processes.length (e.command job.path)] } := by
  unfold begin
  rw [reset_eq]
  rfl

theorem stage?_begin {run : Nat} {job : Job} (h : e.runs[run]? = some { job, stage := .waiting }) :
    (e.begin run job).stage? run =
      some (.spawning ⟨e.session, e.generation + 1⟩ e.processes.length) := by
  have hs : e.stage? run = some .waiting := by simp [stage?, h]
  rw [begin_eq]
  exact e.stage?_setStage_self hs _

theorem ticket_begin (run : Nat) (job : Job) :
    (e.begin run job).ticket = ⟨e.session, e.generation + 1⟩ := by
  rw [begin_eq]
  rfl

theorem getElem?_begin (run : Nat) (job : Job) :
    (e.begin run job).processes[e.processes.length]? =
      some { run, command := e.command job.path } := by
  rw [begin_eq]
  exact List.getElem?_concat_length

theorem spawnFailed_eq (run : Nat) (command : Command) (failure : SpawnFailure) :
    e.spawnFailed run command failure = e.finish run (failure.outcome command) := by
  cases failure <;> rfl

/-! ### The moments of a run -/

/-- A run reads the output of its process, if it is there. -/
def readMoments (run process : Nat) : List Moment :=
  match e.processes[process]? with
  | some { code, output := some output, .. } => [.read run process code output]
  | _ => []

/-- The moments that a resumed run passes before it ends or waits again. A run
that is not the newest when its process was spawned never comes to read. -/
def passed (run : Nat) : List Moment :=
  match e.stage? run with
  | some .waiting => [.began run e.reset.ticket e.processes.length]
  | some (.spawning ticket process) =>
    match e.processes[process]? with
    | some { spawn := .done, .. } =>
      .spawned run process :: if ticket = e.ticket then e.readMoments run process else []
    | _ => []
  | some (.collecting _ process) => e.readMoments run process
  | _ => []

/-- The moments of a resumed run, with its end if it comes to it. -/
def moments (run : Nat) : List Moment :=
  e.passed run ++ (e.resume run).2.toList.map (.ended run)

end Engine

/-- The ways in which a resumed run goes on: the engine after it, the outcome if
the run ends, and the moments that it passes. -/
inductive Turn (e : Engine) (run : Nat) : Engine × Option Outcome → List Moment → Prop where
  | idle (h : e.ready run = false) : Turn e run (e, none) []
  | begins (job : Job) (h : e.runs[run]? = some { job, stage := .waiting }) :
    Turn e run (e.begin run job, none)
      [.began run ⟨e.session, e.generation + 1⟩ e.processes.length]
  | fails (ticket : Ticket) (process : Nat) (q : Process) (failure : SpawnFailure)
      (h : e.stage? run = some (.spawning ticket process)) (hq : e.processes[process]? = some q)
      (hs : q.spawn = .failed failure) :
    Turn e run (e.finish run (failure.outcome q.command))
      [.ended run (failure.outcome q.command)]
  | outrun (ticket : Ticket) (process : Nat) (q : Process)
      (h : e.stage? run = some (.spawning ticket process)) (hq : e.processes[process]? = some q)
      (hs : q.spawn = .done) (ht : ticket ≠ e.ticket) :
    Turn e run ((e.note (.kill process)).finish run .superseded)
      [.spawned run process, .ended run .superseded]
  | tracks (process : Nat) (q : Process)
      (h : e.stage? run = some (.spawning e.ticket process)) (hq : e.processes[process]? = some q)
      (hs : q.spawn = .done) (ho : q.output = none) :
    Turn e run
      ({ e with tracked := some process }.setStage run (.collecting e.ticket process), none)
      [.spawned run process]
  | readsAtOnce (process : Nat) (q : Process) (output : Output)
      (h : e.stage? run = some (.spawning e.ticket process)) (hq : e.processes[process]? = some q)
      (hs : q.spawn = .done) (ho : q.output = some output) :
    Turn e run
      ({ e with tracked := none }.finish run (.finished (output.result q.code e.generation)))
      [.spawned run process, .read run process q.code output,
        .ended run (.finished (output.result q.code e.generation))]
  | reads (process : Nat) (q : Process) (output : Output)
      (h : e.stage? run = some (.collecting e.ticket process)) (hq : e.processes[process]? = some q)
      (ho : q.output = some output) :
    Turn e run
      ({ e with tracked := none }.finish run (.finished (output.result q.code e.generation)))
      [.read run process q.code output,
        .ended run (.finished (output.result q.code e.generation))]
  | readsLate (ticket : Ticket) (process : Nat) (q : Process) (output : Output)
      (h : e.stage? run = some (.collecting ticket process)) (hq : e.processes[process]? = some q)
      (ho : q.output = some output) (ht : ticket ≠ e.ticket) :
    Turn e run (e.finish run .superseded)
      [.read run process q.code output, .ended run .superseded]

namespace Engine

variable (e : Engine)

theorem readMoments_of_output {run process : Nat} {q : Process} {output : Output}
    (hq : e.processes[process]? = some q) (ho : q.output = some output) :
    e.readMoments run process = [.read run process q.code output] := by
  obtain ⟨_, _, _, _, _⟩ := q
  simp only at ho
  subst ho
  simp [readMoments, hq]

theorem awaitOutput_of_output {run : Nat} {ticket : Ticket} {process : Nat} {q : Process}
    {output : Output} (hq : e.processes[process]? = some q) (ho : q.output = some output) :
    e.awaitOutput run ticket process = e.collect run ticket q.code output := by
  obtain ⟨_, _, _, _, _⟩ := q
  simp only at ho
  subst ho
  simp [awaitOutput, hq]

theorem no_output {process : Nat} (h : (e.processes[process]?).any (·.output.isSome) = false) :
    (∀ run, e.readMoments run process = []) ∧
      ∀ run ticket, e.awaitOutput run ticket process =
        (e.setStage run (.collecting ticket process), none) := by
  unfold readMoments awaitOutput
  cases hq : e.processes[process]? with
  | none => simp
  | some q =>
    obtain ⟨_, _, _, _, output⟩ := q
    cases output with
    | none => simp
    | some output => simp [hq] at h

theorem turn_of_eq {run : Nat} {after : Engine × Option Outcome} {passed : List Moment}
    (hr : e.resume run = after) (hp : e.passed run = passed)
    (turn : Turn e run after (passed ++ after.2.toList.map (.ended run))) :
    Turn e run (e.resume run) (e.moments run) := by
  rw [moments, hr, hp]
  exact turn

theorem turn_of_idle {run : Nat} (h : e.ready run = false) (hr : e.resume run = (e, none))
    (hp : e.passed run = []) : Turn e run (e.resume run) (e.moments run) :=
  e.turn_of_eq hr hp (.idle h)

/-- A run that asked for its process is resumed. -/
theorem turn_of_spawning {run : Nat} {ticket : Ticket} {process : Nat}
    (h : e.stage? run = some (.spawning ticket process)) :
    Turn e run (e.resume run) (e.moments run) := by
  obtain ⟨⟨job, stage⟩, hr, rfl⟩ := Option.map_eq_some_iff.mp h
  cases hq : e.processes[process]? with
  | none =>
    exact e.turn_of_idle (by simp [ready, h, hq]) (by simp [resume, hr, hq])
      (by simp [passed, h, hq])
  | some q =>
    obtain ⟨owner, command, spawn, code, output⟩ := q
    cases spawn with
    | asked =>
      exact e.turn_of_idle (by simp [ready, h, hq]) (by simp [resume, hr, hq])
        (by simp [passed, h, hq])
    | failed failure =>
      have hp : e.passed run = [] := by simp [passed, h, hq]
      refine e.turn_of_eq ?_ hp (Turn.fails ticket process _ failure h hq rfl)
      simp [resume, hr, hq, spawnFailed_eq]
    | done =>
      by_cases ht : ticket = e.ticket
      · subst ht
        have hp : e.passed run = .spawned run process :: e.readMoments run process := by
          simp [passed, h, hq]
        have hd : e.resume run =
            { e with tracked := some process }.awaitOutput run e.ticket process := by
          simp [resume, hr, hq, spawnDone]
        cases output with
        | none =>
          have hn : (e.processes[process]?).any (·.output.isSome) = false := by simp [hq]
          have ho := no_output { e with tracked := some process } hn
          rw [(e.no_output hn).1] at hp
          rw [ho.2] at hd
          exact e.turn_of_eq hd hp (Turn.tracks process _ h hq rfl rfl)
        | some output =>
          rw [e.readMoments_of_output hq rfl] at hp
          rw [awaitOutput_of_output { e with tracked := some process } hq rfl] at hd
          refine e.turn_of_eq (hd.trans ?_) hp (Turn.readsAtOnce process _ output h hq rfl rfl)
          simp only [collect, ticket, ↓reduceIte]
          rfl
      · have hp : e.passed run = [.spawned run process] := by simp [passed, h, hq, ht]
        refine e.turn_of_eq ?_ hp (Turn.outrun ticket process _ h hq rfl ht)
        simp [resume, hr, hq, spawnDone, ht]

/-- A run that awaits output is resumed. -/
theorem turn_of_collecting {run : Nat} {ticket : Ticket} {process : Nat}
    (h : e.stage? run = some (.collecting ticket process)) :
    Turn e run (e.resume run) (e.moments run) := by
  obtain ⟨⟨job, stage⟩, hr, rfl⟩ := Option.map_eq_some_iff.mp h
  have hp : e.passed run = e.readMoments run process := by simp [passed, h]
  have hd : e.resume run = e.awaitOutput run ticket process := by simp [resume, hr]
  by_cases ha : (e.processes[process]?).any (·.output.isSome) = true
  · obtain ⟨q, hq, hsome⟩ := (Option.any_eq_true _ _).mp ha
    obtain ⟨output, ho⟩ := Option.isSome_iff_exists.mp hsome
    rw [e.readMoments_of_output hq ho] at hp
    rw [e.awaitOutput_of_output hq ho] at hd
    by_cases ht : ticket = e.ticket
    · subst ht
      refine e.turn_of_eq (hd.trans ?_) hp (Turn.reads process q output h hq ho)
      simp only [collect, ↓reduceIte]
      rfl
    · refine e.turn_of_eq (hd.trans ?_) hp (Turn.readsLate ticket process q output h hq ho ht)
      simp only [collect, ht, ↓reduceIte]
  · have hn : (e.processes[process]?).any (·.output.isSome) = false := by simpa using ha
    have ho := e.no_output hn
    refine e.turn_of_idle (by simpa [ready, h] using hn) (hd.trans ?_) (hp.trans (ho.1 run))
    rw [ho.2, e.setStage_self h]

/-- **There is no other way for a run to go on.** -/
theorem resume_turn (run : Nat) : Turn e run (e.resume run) (e.moments run) := by
  cases hr : e.runs[run]? with
  | none =>
    have h : e.stage? run = none := by simp [stage?, hr]
    exact e.turn_of_idle (by simp [ready, h]) (by simp [resume, hr]) (by simp [passed, h])
  | some r =>
    obtain ⟨job, stage⟩ := r
    have h : e.stage? run = some stage := by simp [stage?, hr]
    cases stage with
    | waiting =>
      have hres : e.resume run = (e.begin run job, none) := by simp [resume, hr]
      have hp : e.passed run = [.began run ⟨e.session, e.generation + 1⟩ e.processes.length] := by
        simp [passed, h, ticket, reset_eq]
      exact e.turn_of_eq hres hp (Turn.begins job hr)
    | spawning ticket process => exact e.turn_of_spawning h
    | collecting ticket process => exact e.turn_of_collecting h
    | ended =>
      exact e.turn_of_idle (by simp [ready, h]) (by simp [resume, hr]) (by simp [passed, h])

end Engine

/-- What an answer says about a spawn. -/
def Answer.spawn? : Answer → Option (Nat × Spawn)
  | .spawned process => some (process, .done)
  | .spawnFailed process failure => some (process, .failed failure)
  | _ => none

/-- The ways in which an answer changes an engine. An answer to a spawn is taken
once and queues the run that asked; an end that is awaited queues the run that
awaits it. -/
inductive Answered (e : Engine) : Answer → Engine → Prop where
  | ignored (answer : Answer) : Answered e answer e
  | spawn (answer : Answer) (process : Nat) (q : Process) (spawn : Spawn)
      (ha : answer.spawn? = some (process, spawn)) (hq : e.processes[process]? = some q)
      (hs : q.spawn = .asked) :
    Answered e answer ((e.setProcess process fun p => { p with spawn }).enqueue q.run)
  | reaped (process : Nat) (q : Process) (code : Option Int) (hq : e.processes[process]? = some q)
      (hs : q.spawn = .done) :
    Answered e (.reaped process code) (e.setProcess process fun p => { p with code })
  | exited (process : Nat) (q : Process) (code : Option Int) (output : Output)
      (hq : e.processes[process]? = some q) (hs : q.spawn = .done) (ho : q.output = none) :
    Answered e (.exited process code output)
      (let ended := e.setProcess process fun p => { p with code, output := some output }
       if e.awaits q.run process then ended.enqueue q.run else ended)

namespace Engine

variable (e : Engine)

theorem answerSpawn_answered {answer : Answer} {process : Nat} {spawn : Spawn}
    (ha : answer.spawn? = some (process, spawn)) :
    Answered e answer (e.answerSpawn process spawn) := by
  unfold answerSpawn
  split
  · rename_i hq
    exact .spawn answer process _ spawn ha hq rfl
  · exact .ignored answer

/-- **An answer does nothing else.** -/
theorem answer_answered (answer : Answer) : Answered e answer (e.answer answer) := by
  cases answer with
  | spawned process => exact e.answerSpawn_answered rfl
  | spawnFailed process failure => exact e.answerSpawn_answered rfl
  | reaped process code =>
    simp only [Engine.answer]
    split
    · rename_i hq
      exact .reaped process _ code hq rfl
    · exact .ignored _
  | exited process code output =>
    simp only [Engine.answer]
    split
    · rename_i hq
      exact .exited process _ code output hq rfl rfl
    · exact .ignored _

theorem getElem?_setProcess {process : Nat} {change : Process → Process} {p : Nat} {q' : Process} :
    (e.setProcess process change).processes[p]? = some q' ↔
      ∃ q, e.processes[p]? = some q ∧ (if process = p then change q else q) = q' := by
  unfold setProcess
  rw [List.getElem?_modify]
  exact Option.map_eq_some_iff

end Engine

end Compile
end RenServer
