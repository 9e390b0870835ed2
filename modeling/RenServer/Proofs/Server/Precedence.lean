/- # Which compiler runs

Three parts of a server say which compiler it uses: the command line's choice, which stays,
the choice of client and project, and the compiler in use. They change in different
requests, and a request can fail after it has changed one of them and before the next. Yet
what a step does to them is one rule: the step asks for the compiler of a choice or it does
not (`Server.asked`); if it does, the choice is kept, and the compiler in use becomes what
the choice comes to, unless that fails (`Server.settled_step`).

So the compiler in use is the command line's if it names one, and otherwise the last that
a choice came to (`Obeys`, `Server.obeys_play`). A run is given the compiler in use when it
begins, whichever was in use when it was queued (`Server.spawned_play`).

Key definitions: `Server.asked`, `Settled`, `Obeys`, `Server.resolutions`, `Server.Begins`.
Key theorems: `Server.settled_step`, `Server.obeys_play`, `Server.spawned_play`,
`Server.compiler_obeys_precedence`.
-/
import RenServer.Proofs.Server.Closed

namespace RenServer
namespace Compile

/-! ### The compiler of an engine -/

theorem Engine.spawn_notMem_lastKill (e : Engine) {process : Nat} {command : Command} :
    .spawn process command ∉ e.lastKill := by
  unfold Engine.lastKill
  split
  · simp
  · split <;> simp

section Turn

variable {e : Engine} {run : Nat} {after : Engine × Option Outcome} {ms : List Moment}

theorem Turn.compiler_eq (turn : Turn e run after ms) : after.1.compiler = e.compiler := by
  cases turn with
  | begins job =>
    rw [Engine.begin_eq]
    rfl
  | _ => rfl

/-- A run that begins asks for a process, and no other turn does. -/
theorem Turn.spawned (turn : Turn e run after ms) {process : Nat} {command : Command}
    (h : .spawn process command ∈ after.1.journal) :
    .spawn process command ∈ e.journal ∨
      ∃ job, e.runs[run]? = some { job, stage := .waiting } ∧ process = e.processes.length ∧
        command = e.command job.path := by
  cases turn with
  | begins job hr =>
    rw [Engine.begin_eq, List.mem_append, List.mem_append, List.mem_singleton] at h
    rcases h with (h | h) | h
    · exact .inl h
    · exact absurd h e.spawn_notMem_lastKill
    · cases h
      exact .inr ⟨job, hr, rfl, rfl⟩
  | _ =>
    left
    simpa [Engine.finish, Engine.note, Engine.setStage] using h

end Turn

theorem Answered.compiler_eq {e e' : Engine} {answer : Answer} (answered : Answered e answer e') :
    e'.compiler = e.compiler := by
  cases answered with
  | exited => simp only; split <;> rfl
  | _ => rfl

end Compile

open Compile

/-! ### What a step does to the choice -/

/-- A choice may have been asked for. If so, it is kept, and the compiler in use is the one
that it comes to, unless that fails. -/
structure Settled (s : Server) (asked : Option CompilerChoice) (s' : Server) : Prop where
  override : s'.override = s.override
  choice : s'.choice = asked.getD s.choice
  compiler : s'.engine.compiler =
    (asked.bind fun choice => { s with choice }.resolveCompiler.toOption).getD s.engine.compiler

theorem Settled.of_eq {s s' : Server} (ho : s'.override = s.override) (hc : s'.choice = s.choice)
    (hcompiler : s'.engine.compiler = s.engine.compiler) : Settled s none s' := ⟨ho, hc, hcompiler⟩

/-- What comes after leaves the choice alone. -/
theorem Settled.andThen {s s' s'' : Server} {asked : Option CompilerChoice} (h : Settled s asked s')
    (h' : Settled s' none s'') : Settled s asked s'' :=
  ⟨h'.override.trans h.override, h'.choice.trans h.choice, h'.compiler.trans h.compiler⟩

namespace Server

/-- The choice that a step asks for. -/
def asked (s : Server) : Step → Option CompilerChoice
  | .request (.initialized rootUri options) =>
    match workspace rootUri with
    | .ok root => some { root, explicit := Settings.compilerPath options }
    | .error _ => none
  | .request (.configured (.table fields)) =>
    match Settings.compilerPath (.table fields) with
    | .null => none
    | explicit => some (s.choice.setExplicit explicit)
  | _ => none

theorem settled_setLogLevel (s : Server) (settings : Value) :
    Settled s none (s.setLogLevel settings).1 := by
  unfold setLogLevel
  split
  · exact .of_eq rfl rfl rfl
  · exact .of_eq rfl rfl rfl

theorem settled_refresh (s : Server) (choice : CompilerChoice) :
    Settled s (some choice) { s with choice }.refresh.1 := by
  unfold refresh
  cases hr : { s with choice }.resolveCompiler with
  | ok compiler => exact ⟨rfl, rfl, by simp [hr, Except.toOption]⟩
  | error fault => exact ⟨rfl, rfl, by simp [hr, Except.toOption]⟩

theorem settled_begin (s : Server) (rootUri : Option String) (options : Value) :
    Settled s (s.asked (.request (.initialized rootUri options))) (s.begin rootUri options).1 := by
  cases hw : workspace rootUri with
  | error fault =>
    simp only [begin, asked, hw]
    exact .of_eq rfl rfl rfl
  | ok root =>
    simp only [begin, asked, hw]
    generalize ({ root, explicit := Settings.compilerPath options } : CompilerChoice) = choice
    -- the reset before the compiler is asked for touches nothing that decides about it
    have hreset : { s with choice }.resetSession.resolveCompiler =
        { s with choice }.resolveCompiler := rfl
    have hkept : s.engine.reset.compiler = s.engine.compiler := by rw [Engine.reset_eq]
    rw [hreset]
    cases hr : { s with choice }.resolveCompiler with
    | error fault => exact ⟨rfl, rfl, by simp [hr, Except.toOption, resetSession, hkept]⟩
    | ok compiler =>
      have hrenewed : Settled s (some choice) { { s with choice }.resetSession with
          engine := s.engine.reset.renew compiler } :=
        ⟨rfl, rfl, by simp [hr, Except.toOption, Engine.renew]⟩
      exact hrenewed.andThen (settled_setLogLevel _ options)

theorem settled_configure (s : Server) (settings : Value) :
    Settled s (s.asked (.request (.configured settings))) (s.configure settings).1 := by
  cases settings with
  | table fields =>
    by_cases hnull : Settings.compilerPath (.table fields) = .null
    · simp only [configure, asked, hnull]
      exact s.settled_setLogLevel _
    · have hrefresh :=
        s.settled_refresh (s.choice.setExplicit (Settings.compilerPath (.table fields)))
      simp only [configure, asked]
      split
      · rename_i heq
        rw [heq] at hrefresh
        exact hrefresh.andThen (settled_setLogLevel _ _)
      · rename_i heq
        rw [heq] at hrefresh
        exact hrefresh
  | _ => exact .of_eq rfl rfl rfl

theorem settled_handle (s : Server) (request : Request) (h : ∀ path, request ≠ .overridden path) :
    Settled s (s.asked (.request request)) (s.handle request).1 := by
  have hschedule : ∀ uri, Settled s none (s.schedule uri) := by
    intro uri
    unfold schedule
    split <;> exact .of_eq rfl rfl rfl
  cases request with
  | initialized rootUri options => exact s.settled_begin rootUri options
  | configured settings => exact s.settled_configure settings
  | opened uri => exact hschedule uri
  | saved uri => exact hschedule uri
  | changed uri changes =>
    simp only [handle, handle.failable, edit]
    split
    · exact .of_eq rfl rfl rfl
    · split <;> exact .of_eq rfl rfl rfl
  | overridden path => exact absurd rfl (h path)
  | answered answer => exact .of_eq rfl rfl (s.engine.answer_answered answer).compiler_eq
  | _ => exact .of_eq rfl rfl rfl

theorem settled_report (s : Server) (job : Job) (outcome : Outcome) :
    Settled s none (s.report job outcome) := by
  have hfail : ∀ (s : Server) text, Settled s none (s.fail text) := by
    intro s text
    simp only [Server.fail, Engine.reset_eq]
    exact .of_eq rfl rfl rfl
  cases outcome with
  | superseded => exact .of_eq rfl rfl rfl
  | finished result =>
    simp only [report, accept]
    split
    · exact .of_eq rfl rfl rfl
    · have hfresh : Settled s none
          { s with snapshot := .ofReport (.read result.stdout) (some job.path) } :=
        .of_eq rfl rfl rfl
      exact hfresh.andThen (hfail _ _)
  | notRun command reason =>
    simp only [report, clearAll_eq]
    exact .of_eq rfl rfl rfl
  | crashed text => exact hfail s text

theorem settled_ran {s s' : Server} {run : Nat} {hs : List Happening} (ran : Ran s run s' hs) :
    Settled s none s' := by
  have hturn : Settled s none { s with engine := (s.engine.resume run).1 } :=
    .of_eq rfl rfl (s.engine.resume_turn run).compiler_eq
  cases ran with
  | unknown => exact .of_eq rfl rfl rfl
  | waits => exact hturn
  | ends job stage outcome => exact hturn.andThen (settled_report _ job outcome)

/-- **A step changes the choice and the compiler in use only as the choice that it asks for
says.** -/
theorem settled_step (s : Server) (step : Step) (h : ∀ path, step ≠ .request (.overridden path)) :
    Settled s (s.asked step) (s.step step).1 := by
  cases step with
  | request request => exact s.settled_handle request fun path heq => h path (heq ▸ rfl)
  | resume =>
    unfold Server.step
    cases hq : s.engine.queue with
    | nil => exact .of_eq rfl rfl rfl
    | cons run rest =>
      have hqueue : Settled s none (s.withQueue rest) := .of_eq rfl rfl rfl
      exact hqueue.andThen (settled_ran (resume_ran _ run))

end Server

/-! ### The order of precedence -/

/-- The compiler in use is the command line's if it names one. Otherwise it is the last that
a choice came to, and the client's if the client has one. -/
structure Obeys (s : Server) (last : Value) : Prop where
  override : ∀ path, s.override = some path → s.engine.compiler = .str path
  last : s.override = none → s.engine.compiler = last
  explicit : s.override = none → s.choice.explicit.present = true →
    s.engine.compiler = s.choice.explicit

theorem CompilerChoice.resolve_of_present {c : CompilerChoice} (h : c.explicit.present = true)
    (environment : Environment) : c.resolve environment = .ok c.explicit := if_pos h

theorem Obeys.settled {s s' : Server} {last : Value} {asked : Option CompilerChoice}
    (h : Obeys s last) (hs : Settled s asked s') :
    Obeys s' ((asked.bind fun choice => (choice.resolve s.environment).toOption).getD last) := by
  cases asked with
  | none =>
    have hcompiler : s'.engine.compiler = s.engine.compiler := hs.compiler
    have hchoice : s'.choice = s.choice := hs.choice
    refine ⟨fun path ho => ?_, fun ho => ?_, fun ho hp => ?_⟩
    · exact hcompiler.trans (h.override path (hs.override.symm.trans ho))
    · exact hcompiler.trans (h.last (hs.override.symm.trans ho))
    · rw [hchoice] at hp ⊢
      exact hcompiler.trans (h.explicit (hs.override.symm.trans ho) hp)
  | some choice =>
    have hcompiler : s'.engine.compiler =
        ({ s with choice }.resolveCompiler.toOption).getD s.engine.compiler := hs.compiler
    have hchoice : s'.choice = choice := hs.choice
    have hnone : s'.override = none →
        s'.engine.compiler = ((choice.resolve s.environment).toOption).getD s.engine.compiler := by
      intro ho
      rw [hcompiler, Server.resolveCompiler, hs.override.symm.trans ho]
    refine ⟨fun path ho => ?_, fun ho => ?_, fun ho hp => ?_⟩
    · rw [hcompiler, Server.resolveCompiler, hs.override.symm.trans ho]
      rfl
    · rw [hnone ho, h.last (hs.override.symm.trans ho)]
      rfl
    · rw [hnone ho, hchoice, CompilerChoice.resolve_of_present (hchoice ▸ hp)]
      rfl

namespace Server

/-- The compiler that a step finds: what the choice that it asks for comes to, unless that
fails. -/
def resolution? (s : Server) (step : Step) : Option Value :=
  (s.asked step).bind fun choice => (choice.resolve s.environment).toOption

/-- The compilers that steps find, in order. -/
def resolutions (s : Server) : List Step → List Value
  | [] => []
  | step :: steps => (s.resolution? step).toList ++ (s.step step).1.resolutions steps

theorem getLastD_resolutions_cons (s : Server) (step : Step) (steps : List Step) (last : Value) :
    (s.resolutions (step :: steps)).getLastD last =
      ((s.step step).1.resolutions steps).getLastD ((s.resolution? step).getD last) := by
  rw [resolutions]
  cases s.resolution? step with
  | none => rfl
  | some compiler => exact List.getLastD_cons ..

/-- **The order of precedence holds after any steps.** The command line's choice stays. -/
theorem obeys_play {s : Server} {last : Value} (h : Obeys s last) {steps : List Step}
    (hsteps : ∀ path, .request (.overridden path) ∉ steps) :
    (s.play steps).1.override = s.override ∧
      Obeys (s.play steps).1 ((s.resolutions steps).getLastD last) := by
  induction steps generalizing s last with
  | nil => exact ⟨rfl, h⟩
  | cons step steps ih =>
    have hstep : ∀ path, step ≠ .request (.overridden path) := fun path heq =>
      hsteps path (heq ▸ List.mem_cons_self)
    have hrest : ∀ path, .request (.overridden path) ∉ steps := fun path hm =>
      hsteps path (List.mem_cons_of_mem step hm)
    have hsettled := s.settled_step step hstep
    obtain ⟨hoverride, hobeys⟩ := ih (h.settled hsettled) hrest
    rw [getLastD_resolutions_cons]
    exact ⟨hoverride.trans hsettled.override, hobeys⟩

/-- A server that was started with what the command line says about the compiler. -/
def launch (environment : Environment) (path : Option String) : Server :=
  ((start environment).setOverride path).1

theorem launch_eq (environment : Environment) (path : Option String) :
    launch environment path =
      match path.filter (· ≠ "") with
      | none => start environment
      | some p =>
        { start environment with override := some p, engine := { compiler := .str p } } := by
  unfold launch setOverride
  cases path.filter (· ≠ "") with
  | none => rfl
  | some p => rfl

theorem launch_override (environment : Environment) (path : Option String) :
    (launch environment path).override = path.filter (· ≠ "") := by
  rw [launch_eq]
  split
  · rename_i h
    rw [h]
    rfl
  · rename_i h
    rw [h]

/-- Before anybody chooses, the environment or the default decides. -/
theorem resolve_start (environment : Environment) :
    (start environment).choice.resolve environment = .ok (environmentCompiler environment) := rfl

theorem obeys_launch (environment : Environment) (path : Option String) :
    Obeys (launch environment path) (environmentCompiler environment) := by
  rw [launch_eq]
  split
  · exact ⟨fun path ho => (by cases ho), fun _ => rfl, fun _ hp => (by cases hp)⟩
  · exact ⟨fun path ho => (by cases ho; rfl), fun ho => (by cases ho), fun ho => (by cases ho)⟩

theorem launch_journal (environment : Environment) (path : Option String) :
    (launch environment path).engine.journal = [] := by
  rw [launch_eq]
  split <;> rfl

/-! ### What a run is given -/

/-- The run at the head of the queue has not begun. If it goes on, it asks for the next
process. -/
def Begins (s : Server) (process : Nat) (job : Job) : Prop :=
  process = s.engine.processes.length ∧
    ∃ run queue, s.engine.queue = run :: queue ∧
      s.engine.runs[run]? = some { job, stage := .waiting }

section Spawns

variable {s : Server} {process : Nat} {command : Command}

theorem spawned_report {job : Job} {outcome : Outcome}
    (h : .spawn process command ∈ (s.report job outcome).engine.journal) :
    .spawn process command ∈ s.engine.journal := by
  have hfail : ∀ (s : Server) text, .spawn process command ∈ (s.fail text).engine.journal →
      .spawn process command ∈ s.engine.journal := by
    intro s text h
    simpa [fail, note, Engine.note, Engine.reset_eq, s.engine.spawn_notMem_lastKill] using h
  cases outcome with
  | superseded => exact h
  | finished result =>
    simp only [report, accept] at h
    split at h
    · simpa [publish, note, Engine.note] using h
    · exact hfail { s with snapshot := _ } _ h
  | notRun command reason => simpa [report, clearAll_eq, note, Engine.note] using h
  | crashed text => exact hfail s text h

theorem spawned_handled {s' : Server} {request : Request} {hs : List Happening}
    (handled : Handled s request s' hs) (h : .spawn process command ∈ s'.engine.journal) :
    .spawn process command ∈ s.engine.journal := by
  cases handled with
  | tuned hr =>
    obtain ⟨_, _, _, _, _, rfl⟩ := hr
    exact h
  | submitted job => exact h
  | answered answer => rwa [(s.engine.answer_answered answer).journal_eq] at h
  | edited => exact h
  | closed uri => simpa [publish, note, Engine.note] using h
  | cleared hr =>
    obtain ⟨_, _, _, _, _, rfl⟩ := hr
    simpa [resetSession, Engine.reset_eq, s.engine.spawn_notMem_lastKill] using h
  | renewed compiler hr =>
    obtain ⟨_, _, _, _, _, rfl⟩ := hr
    simpa [Engine.renew, Engine.reset_eq, s.engine.spawn_notMem_lastKill] using h

theorem spawned_ran {s' : Server} {run : Nat} {hs : List Happening} (ran : Ran s run s' hs)
    (h : .spawn process command ∈ s'.engine.journal) :
    .spawn process command ∈ s.engine.journal ∨
      ∃ job, s.engine.runs[run]? = some { job, stage := .waiting } ∧
        process = s.engine.processes.length ∧ command = s.engine.command job.path := by
  have turn := s.engine.resume_turn run
  cases ran with
  | unknown => exact .inl h
  | waits => exact turn.spawned h
  | ends job stage outcome => exact turn.spawned (spawned_report h)

/-- **A process is asked for only for a run that begins, with the compiler in use then.** -/
theorem spawned_step {step : Step}
    (h : .spawn process command ∈ (s.step step).1.engine.journal) :
    .spawn process command ∈ s.engine.journal ∨
      step = .resume ∧ ∃ job, s.Begins process job ∧ command = s.engine.command job.path := by
  cases step with
  | request request => exact .inl (spawned_handled (s.handle_handled request) h)
  | resume =>
    unfold Server.step at h
    cases hq : s.engine.queue with
    | nil =>
      simp only [hq] at h
      exact .inl h
    | cons run rest =>
      simp only [hq] at h
      rcases spawned_ran (resume_ran (s.withQueue rest) run) h with h | ⟨job, hr, hp, hc⟩
      · exact .inl h
      · exact .inr ⟨rfl, job, ⟨hp, run, rest, hq, hr⟩, hc⟩

theorem spawned_play {steps : List Step}
    (h : .spawn process command ∈ (s.play steps).1.engine.journal) :
    .spawn process command ∈ s.engine.journal ∨
      ∃ before after job, steps = before ++ .resume :: after ∧
        (s.play before).1.Begins process job ∧
        command = (s.play before).1.engine.command job.path := by
  induction steps generalizing s with
  | nil => exact .inl h
  | cons step steps ih =>
    rcases ih h with h | ⟨before, after, job, rfl, hbegins, hcommand⟩
    · rcases spawned_step h with h | ⟨rfl, job, hbegins, hcommand⟩
      · exact .inl h
      · exact .inr ⟨[], steps, job, rfl, hbegins, hcommand⟩
    · exact .inr ⟨step :: before, after, job, rfl, hbegins, hcommand⟩

end Spawns

/-- The file of every job is that of its document. -/
def Documented (s : Server) : Prop :=
  ∀ run job, s.engine.job? run = some job → Uri.documentPath job.uri = .ok (some job.path)

section Documents

variable {s : Server}

theorem Documented.of_runs {s' : Server} (h : s.Documented)
    (hruns : s'.engine.runs = s.engine.runs) : s'.Documented := by
  intro run job hj
  rw [Engine.job?, hruns] at hj
  exact h run job hj

theorem Documented.schedule (h : s.Documented) (uri : String) : (s.schedule uri).Documented := by
  unfold Server.schedule
  split
  · rename_i path hpath
    intro run job hj
    simp only [Engine.job?, Engine.submit, List.getElem?_append] at hj
    split at hj
    · exact h run job hj
    · -- the new run
      obtain ⟨r, hr, rfl⟩ := Option.map_eq_some_iff.mp hj
      rw [List.mem_singleton.mp (List.mem_of_getElem? hr)]
      exact hpath
  · exact h

theorem Documented.ran {s' : Server} {run : Nat} {hs : List Happening} (h : s.Documented)
    (ran : Ran s run s' hs) : s'.Documented := by
  have turn := s.engine.resume_turn run
  have hturn : Documented { s with engine := (s.engine.resume run).1 } := fun r job hj =>
    h r job ((turn.job?_eq r).symm.trans hj)
  cases ran with
  | unknown => exact h
  | waits => exact hturn
  | ends job stage outcome => exact hturn.of_runs (report_frame _ job outcome).2.1

theorem Documented.step (h : s.Documented) (step : Step) : (s.step step).1.Documented := by
  cases step with
  | request request =>
    rcases s.handle_runs request with hruns | ⟨job, rfl | rfl, -⟩
    · exact h.of_runs hruns
    · exact h.schedule job.uri
    · exact h.schedule job.uri
  | resume =>
    unfold Server.step
    cases hq : s.engine.queue with
    | nil => exact h
    | cons run rest =>
      have hqueue : (s.withQueue rest).Documented := h.of_runs rfl
      exact hqueue.ran (resume_ran _ run)

theorem Documented.play (h : s.Documented) (steps : List Step) : (s.play steps).1.Documented := by
  induction steps generalizing s with
  | nil => exact h
  | cons step steps ih => exact ih (h.step step)

theorem documented_launch (environment : Environment) (path : Option String) :
    (launch environment path).Documented := by
  have hruns : (launch environment path).engine.runs = [] := by
    rw [launch_eq]
    split <;> rfl
  intro run job hj
  simp [Engine.job?, hruns] at hj

end Documents

/-! ### The compiler that runs -/

/-- **The compiler that runs obeys the order of precedence.** A server is started with what
the command line says, and anything may happen to it but that the command line says something
else. Then, whichever requests fail halfway:

* a compiler that the command line names is in use;
* if it names none, the compiler in use is the last that a choice came to, and the client's
  if the client has one;
* settings that name no compiler leave it as it is;
* a run asks for a process with the compiler that is in use when it begins, and with the file
  of its document. -/
theorem compiler_obeys_precedence (environment : Environment) (path : Option String)
    (steps : List Step) (hsteps : ∀ p, .request (.overridden p) ∉ steps) :
    let launched := launch environment path
    let s := (launched.play steps).1
    (∀ p, path = some p → p ≠ "" → s.engine.compiler = .str p) ∧
    (path = none ∨ path = some "" →
      (∃ first, (start environment).choice.resolve environment = .ok first ∧
        s.engine.compiler = (launched.resolutions steps).getLastD first) ∧
      (s.choice.explicit.present = true → s.engine.compiler = s.choice.explicit)) ∧
    (∀ settings, Settings.compilerPath settings = .null →
      (s.handle (.configured settings)).1.engine.compiler = s.engine.compiler) ∧
    ∀ process command, .spawn process command ∈ s.engine.journal →
      ∃ before after job, steps = before ++ .resume :: after ∧
        (launched.play before).1.Begins process job ∧
        Uri.documentPath job.uri = .ok (some job.path) ∧
        command.words =
          [(launched.play before).1.engine.compiler, .str job.path, .str "--diagnostics"] := by
  intro launched s
  obtain ⟨hoverride, hobeys⟩ := obeys_play (obeys_launch environment path) hsteps
  rw [launch_override] at hoverride
  refine ⟨fun p hp hne => ?_, fun hnone => ?_, fun settings hnull => ?_,
    fun process command h => ?_⟩
  · exact hobeys.override p (by rw [hoverride, hp]; simp [hne])
  · have hno : s.override = none := by
      rw [hoverride]
      rcases hnone with rfl | rfl
      · rfl
      · rfl
    exact ⟨⟨_, resolve_start environment, hobeys.last hno⟩, hobeys.explicit hno⟩
  · have hasked : s.asked (.request (.configured settings)) = none := by
      cases settings with
      | table fields => simp only [asked, hnull]
      | _ => rfl
    have hsettled := s.settled_configure settings
    rw [hasked] at hsettled
    exact hsettled.compiler
  · rcases spawned_play h with h | ⟨before, after, job, hsplit, hbegins, rfl⟩
    · rw [launch_journal] at h
      cases h
    · have ⟨_, run, _, _, hr⟩ := hbegins
      have hjob : (launched.play before).1.engine.job? run = some job := by
        rw [Engine.job?, hr]
        rfl
      exact ⟨before, after, job, hsplit, hbegins,
        (documented_launch environment path).play before run job hjob, rfl⟩

/-- A run is queued, and then the client chooses a compiler, the environment another, and
settings come that name none. -/
def queuedBeforeChoice : List Step :=
  [.request (.opened "file:///a"),
    .request (.initialized none (.table [("compilerPath", .str "/opt/renc")])),
    .request (.variableSet (some "other")), .request (.configured (.table [])), .resume]

/-- The run that was queued before is given the compiler that the client chose. -/
theorem queued_run_given_choice :
    (∀ p, .request (.overridden p) ∉ queuedBeforeChoice) ∧
    let launched := launch { directory := "/work" } none
    (launched.play queuedBeforeChoice).1.engine.compiler = .str "/opt/renc" ∧
    ∃ before after job, queuedBeforeChoice = before ++ .resume :: after ∧
      (launched.play before).1.Begins 0 job ∧ Uri.documentPath job.uri = .ok (some job.path) ∧
      [.str "/opt/renc", .str "/a", .str "--diagnostics"] =
        [(launched.play before).1.engine.compiler, .str job.path, .str "--diagnostics"] := by
  have hsteps : ∀ p, .request (.overridden p) ∉ queuedBeforeChoice := by
    simp [queuedBeforeChoice]
  obtain ⟨-, hchosen, -, hspawns⟩ :=
    compiler_obeys_precedence { directory := "/work" } none queuedBeforeChoice hsteps
  have hspawn : .spawn 0 ⟨.str "/opt/renc", "/a"⟩ ∈
      ((launch { directory := "/work" } none).play queuedBeforeChoice).1.engine.journal :=
    List.mem_singleton.mpr rfl
  exact ⟨hsteps, (hchosen (.inl rfl)).2 rfl, hspawns 0 _ hspawn⟩

end Server
end RenServer
