/- # The steps of a server and what happens in them

A server handles a request, or the run at the head of its queue goes on; a turn
of the server is a list of such steps (`Server.turn_eq_play`). Each step adds to
a log: the request, the moments of the run, a result that was accepted, and the
end of a session.

`Handled` lists what a request can do to a server, and `Server.handle_handled`
says that it does nothing else. The log of a server and its engine stay together
in every step (`Server.traced_play`).

Key definitions: `Step`, `Happening`, `Server.play`, `Handled`.
Key theorems: `Server.turn_eq_play`, `Server.handle_handled`,
`Server.traced_play`.
-/
import RenServer.Proofs.Compile.Acts
import RenServer.Server.Requests

namespace RenServer

open Compile

/-- A request reaches the server, or the run at the head of its queue goes on. -/
inductive Step where
  | request (request : Request)
  | resume

/-- What happens in a step. -/
inductive Happening where
  | received (request : Request)
  | compile (moment : Moment)
  /-- The server takes over the result of a run. -/
  | accepted (run : Nat) (job : Job) (result : Result)
  /-- The session is forgotten. -/
  | cleared

/-- The moment of a run that happens, if it is one. -/
def Happening.moment? : Happening → Option Moment
  | .compile moment => some moment
  | _ => none

/-- The moments of runs in a log. -/
def compileLog (log : List Happening) : List Moment := log.filterMap Happening.moment?

theorem compileLog_append (log more : List Happening) :
    compileLog (log ++ more) = compileLog log ++ compileLog more := List.filterMap_append

theorem compileLog_map (moments : List Moment) : compileLog (moments.map .compile) = moments := by
  simp [compileLog, List.filterMap_map, Function.comp_def, Happening.moment?]

theorem mem_compileLog {log : List Happening} {m : Moment} :
    m ∈ compileLog log ↔ .compile m ∈ log := by
  refine ⟨fun hm => ?_, fun hm => List.mem_filterMap.mpr ⟨_, hm, rfl⟩⟩
  obtain ⟨x, hx, hm⟩ := List.mem_filterMap.mp hm
  cases x with
  | compile m' =>
    cases hm
    exact hx
  | _ => simp [Happening.moment?] at hm

/-- The line edits that a request makes in the document of a path. -/
def Request.edits (path : String) : Request → List LineEdit
  | .changed uri changes =>
    match Uri.documentPath uri with
    | .ok (some p) => if p = path then lineEdits changes else []
    | _ => []
  | _ => []

namespace Server

/-- A server whose queue is another. -/
def withQueue (s : Server) (queue : List Nat) : Server :=
  { s with engine := { s.engine with queue } }

/-- What the outcome of a run makes happen. -/
def reported (s : Server) (run : Nat) (job : Job) : Outcome → List Happening
  | .superseded => []
  | .finished result =>
    .accepted run job result ::
      match diagnose s.environment.directory job.path result.stderr with
      | .ok _ => []
      | .error _ => [.compile .reset]
  | .notRun _ _ => []
  | .crashed _ => [.compile .reset]

/-- What happens when a run goes on. -/
def resumed (s : Server) (run : Nat) : List Happening :=
  match s.engine.runs[run]? with
  | none => []
  | some { job, .. } =>
    (s.engine.moments run).map .compile ++
      (s.engine.resume run).2.toList.flatMap (s.reported run job)

/-- What happens when a request is handled. -/
def received (request : Request) : List Happening :=
  match request with
  | .initialized rootUri _ =>
    match workspace rootUri with
    | .ok _ => [.received request, .cleared, .compile .reset]
    | .error _ => [.received request]
  | _ => [.received request]

/-- The server after a step, and what happens in it. -/
def step (s : Server) : Step → Server × List Happening
  | .request request => ((s.handle request).1, received request)
  | .resume =>
    match s.engine.queue with
    | [] => (s, [])
    | run :: rest => ((s.withQueue rest).resume run, (s.withQueue rest).resumed run)

/-- The server after steps, and the log of them. -/
def play (s : Server) : List Step → Server × List Happening
  | [] => (s, [])
  | step :: steps =>
    (((s.step step).1.play steps).1, (s.step step).2 ++ ((s.step step).1.play steps).2)

theorem play_append (s : Server) (steps more : List Step) :
    s.play (steps ++ more) =
      (((s.play steps).1.play more).1, (s.play steps).2 ++ ((s.play steps).1.play more).2) := by
  induction steps generalizing s with
  | nil => simp [play]
  | cons step steps ih => simp [play, ih]

/-! ### Turns are steps -/

/-- All diagnostics that the client shows are taken back, one document at a time. -/
theorem clearAll_eq (s : Server) :
    s.clearAll = { s with
      engine := { s.engine with journal := s.engine.journal ++ s.published.map (.publish · []) }
      published := [] } := by
  suffices h : ∀ (uris : List String) (s : Server),
      uris.foldl (fun s uri => s.publish uri []) s = { s with
        engine := { s.engine with journal := s.engine.journal ++ uris.map (.publish · []) }
        published := s.published.filter (· ∉ uris) } by
    have hnone : s.published.filter (· ∉ s.published) = [] := by simp
    rw [clearAll, h, hnone]
  intro uris
  induction uris with
  | nil => simp
  | cons uri uris ih =>
    intro s
    rw [List.foldl_cons, ih]
    simp [publish, note, Engine.note, List.filter_filter, Bool.and_comm]

theorem clearAll_withQueue (s : Server) (queue : List Nat) :
    (s.withQueue queue).clearAll = s.clearAll.withQueue queue := by
  rw [clearAll_eq, clearAll_eq]
  rfl

theorem fail_withQueue (s : Server) (queue : List Nat) (text : String) :
    (s.withQueue queue).fail text = (s.fail text).withQueue queue := by
  have hreset : ({ s.engine with queue } : Engine).reset = { s.engine.reset with queue } := by
    rw [Engine.reset_eq, Engine.reset_eq]
    rfl
  unfold fail
  simp only [withQueue, hreset]
  rfl

/-- A report does not look at the queue. -/
theorem report_withQueue (s : Server) (queue : List Nat) (job : Job) (outcome : Outcome) :
    (s.withQueue queue).report job outcome = (s.report job outcome).withQueue queue := by
  cases outcome with
  | superseded => rfl
  | finished result =>
    have henv : (s.withQueue queue).environment = s.environment := rfl
    simp only [report, accept, henv]
    cases diagnose s.environment.directory job.path result.stderr with
    | ok diagnostics => rfl
    | error fault =>
      exact fail_withQueue
        { s with snapshot := .ofReport (.read result.stdout) (some job.path) } queue fault.message
  | notRun command reason =>
    simp only [report, clearAll_withQueue]
    rfl
  | crashed text => exact s.fail_withQueue queue text

theorem outcome_withQueue (s : Server) (queue : List Nat) (run : Nat) :
    ((s.withQueue queue).engine.resume run).2 = (s.engine.resume run).2 := by
  have h : (s.withQueue queue).engine.resume run =
      ({ (s.engine.resume run).1 with queue }, (s.engine.resume run).2) :=
    s.engine.resume_queue queue run
  rw [h]

/-- A run that goes on does not look at the queue. -/
theorem resume_withQueue (s : Server) (queue : List Nat) (run : Nat) :
    (s.withQueue queue).resume run = (s.resume run).withQueue queue := by
  have hrun : (s.withQueue queue).engine.resume run =
      ({ (s.engine.resume run).1 with queue }, (s.engine.resume run).2) :=
    s.engine.resume_queue queue run
  have hruns : (s.withQueue queue).engine.runs = s.engine.runs := rfl
  unfold resume
  rw [hruns, hrun]
  cases s.engine.runs[run]? with
  | none => rfl
  | some r =>
    cases ho : (s.engine.resume run).2 with
    | none =>
      simp only [ho]
      rfl
    | some outcome =>
      simp only [ho]
      exact report_withQueue { s with engine := (s.engine.resume run).1 } queue r.job outcome

/-- To drain the queue is to resume its head as often as it is long. -/
theorem drain_eq_play (s : Server) :
    s.drain = (s.play (List.replicate s.engine.queue.length .resume)).1 := by
  suffices h : ∀ (queue : List Nat) (s : Server), s.engine.queue = queue →
      queue.foldl resume (s.withQueue []) =
        (s.play (List.replicate queue.length .resume)).1 from h s.engine.queue s rfl
  intro queue
  induction queue with
  | nil =>
    intro s hs
    have hsame : s.withQueue [] = s := by rw [withQueue, ← hs]
    exact hsame
  | cons run rest ih =>
    intro s hs
    have hq : ((s.withQueue rest).resume run).engine.queue = rest := by
      rw [resume_withQueue]
      rfl
    rw [List.length_cons, List.replicate_succ, play, step, hs, ← ih _ hq, List.foldl_cons]
    rw [s.resume_withQueue [] run, s.resume_withQueue rest run]
    rfl

theorem handleAll_eq_play (s : Server) (requests : List Request) :
    (s.handleAll requests).1 = (s.play (requests.map .request)).1 := by
  induction requests generalizing s with
  | nil => rfl
  | cons request rest ih => exact ih (s.handle request).1

/-- **A turn is a list of steps:** its requests, and then the head of the queue is
resumed as often as the queue is long. -/
theorem turn_eq_play (s : Server) (requests : List Request) :
    (s.turn requests).1 =
      (s.play (requests.map .request ++
        List.replicate (s.handleAll requests).1.engine.queue.length .resume)).1 := by
  rw [play_append, ← handleAll_eq_play]
  exact drain_eq_play (s.handleAll requests).1

/-! ### What a request can do -/

/-- Servers that differ at most in their settings: where the compiler comes from,
which one it is, and what is logged. -/
def Retuned (s s' : Server) : Prop :=
  ∃ environment override choice compiler logLevel,
    s' = { s with environment, override, choice, logLevel, engine := { s.engine with compiler } }

theorem Retuned.refl (s : Server) : Retuned s s := ⟨_, _, _, _, _, rfl⟩

theorem Retuned.trans {s s' s'' : Server} (h : Retuned s s') (h' : Retuned s' s'') :
    Retuned s s'' := by
  obtain ⟨_, _, _, _, _, rfl⟩ := h
  obtain ⟨_, _, _, _, _, rfl⟩ := h'
  exact ⟨_, _, _, _, _, rfl⟩

theorem refresh_retuned (s : Server) : Retuned s s.refresh.1 := by
  unfold refresh
  split
  · exact ⟨_, _, _, _, _, rfl⟩
  · exact .refl s

theorem setLogLevel_retuned (s : Server) (settings : Value) :
    Retuned s (s.setLogLevel settings).1 := by
  unfold setLogLevel
  split
  · exact ⟨_, _, _, _, _, rfl⟩
  · exact .refl s

theorem configure_retuned (s : Server) (settings : Value) :
    Retuned s (s.configure settings).1 := by
  have hrefresh : ∀ choice, Retuned s { s with choice }.refresh.1 := fun _ =>
    Retuned.trans ⟨_, _, _, _, _, rfl⟩ (refresh_retuned _)
  unfold configure
  split
  · split
    · exact s.setLogLevel_retuned _
    · split
      · rename_i heq
        refine Retuned.trans ?_ (setLogLevel_retuned _ _)
        have hfst := congrArg Prod.fst heq
        simp only at hfst
        rw [← hfst]
        exact hrefresh _
      · rename_i heq
        rw [← heq]
        exact hrefresh _
  · exact .refl s

end Server

open Server in
/-- The ways in which a request changes a server, and what happens then. -/
inductive Handled (s : Server) : Request → Server → List Happening → Prop where
  | tuned {request : Request} {s' : Server} (h : Retuned s s')
      (he : ∀ path, s.snapshot.path = some path → request.edits path = []) :
    Handled s request s' [.received request]
  | submitted {request : Request} (job : Job) (he : ∀ path, request.edits path = []) :
    Handled s request { s with engine := s.engine.submit job } [.received request]
  | answered (answer : Answer) :
    Handled s (.answered answer) { s with engine := s.engine.answer answer }
      [.received (.answered answer)]
  | edited {request : Request} (path : String) (hp : s.snapshot.path = some path) :
    Handled s request
      { s with snapshot := (request.edits path).foldl Snapshot.shift s.snapshot }
      [.received request]
  | closed (uri : String) :
    Handled s (.closed uri) (s.publish uri []) [.received (.closed uri)]
  | cleared {rootUri : Option String} {options : Value} {s' : Server}
      (h : Retuned s.resetSession s') :
    Handled s (.initialized rootUri options) s'
      [.received (.initialized rootUri options), .cleared, .compile .reset]
  | renewed {rootUri : Option String} {options : Value} (compiler : Value) {s' : Server}
      (h : Retuned { s.resetSession with engine := s.engine.reset.renew compiler } s') :
    Handled s (.initialized rootUri options) s'
      [.received (.initialized rootUri options), .cleared, .compile .reset]

namespace Server

theorem begin_handled (s : Server) (rootUri : Option String) (options : Value) :
    Handled s (.initialized rootUri options) (s.begin rootUri options).1
      (received (.initialized rootUri options)) := by
  cases hw : workspace rootUri with
  | error fault =>
    simp only [begin, received, hw]
    exact .tuned (.refl s) fun _ _ => rfl
  | ok root =>
    simp only [begin, received, hw]
    split
    · exact .cleared ⟨_, _, _, _, _, rfl⟩
    · rename_i compiler _
      refine .renewed compiler (Retuned.trans ⟨_, _, _, _, _, rfl⟩ (setLogLevel_retuned _ options))

theorem schedule_handled (s : Server) (uri : String) {request : Request}
    (he : ∀ path, request.edits path = []) :
    Handled s request (s.schedule uri) [.received request] := by
  unfold schedule
  split
  · exact .submitted _ he
  · exact .tuned (.refl s) fun path _ => he path

theorem edit_handled (s : Server) (uri : String) (changes : List ContentChange) :
    Handled s (.changed uri changes) (s.edit uri changes).1 [.received (.changed uri changes)] := by
  cases hd : Uri.documentPath uri with
  | error fault =>
    simp only [edit, hd]
    exact .tuned (.refl s) fun path _ => by simp [Request.edits, hd]
  | ok path? =>
    simp only [edit, hd]
    split
    · rename_i hown
      obtain ⟨path, rfl⟩ := Option.isSome_iff_exists.mp hown.1
      have hedits : (Request.changed uri changes).edits path = lineEdits changes := by
        simp [Request.edits, hd]
      have h : Handled s (.changed uri changes) _ _ := .edited path hown.2.symm
      rw [hedits] at h
      exact h
    · rename_i hother
      refine .tuned (.refl s) fun path hp => ?_
      cases path? with
      | none => simp [Request.edits, hd]
      | some p =>
        have hne : p ≠ path := fun heq => hother ⟨rfl, by rw [hp, heq]⟩
        simp [Request.edits, hd, hne]

/-- **A request does nothing else.** -/
theorem handle_handled (s : Server) (request : Request) :
    Handled s request (s.handle request).1 (received request) := by
  cases request with
  | initialized rootUri options => exact s.begin_handled rootUri options
  | configured settings => exact .tuned (s.configure_retuned settings) fun _ _ => rfl
  | opened uri => exact s.schedule_handled uri fun _ => rfl
  | saved uri => exact s.schedule_handled uri fun _ => rfl
  | changed uri changes => exact s.edit_handled uri changes
  | closed uri => exact .closed uri
  | complete cursor => exact .tuned (.refl s) fun _ _ => rfl
  | overridden path =>
    exact .tuned (Retuned.trans ⟨_, _, _, _, _, rfl⟩ (refresh_retuned _)) fun _ _ => rfl
  | variableSet value => exact .tuned ⟨_, _, _, _, _, rfl⟩ fun _ _ => rfl
  | entrySet path entry => exact .tuned ⟨_, _, _, _, _, rfl⟩ fun _ _ => rfl
  | answered answer => exact .answered answer

end Server

/-- The ways in which a server changes when a run goes on, and what happens then. -/
inductive Ran (s : Server) (run : Nat) : Server → List Happening → Prop where
  | unknown (h : s.engine.runs[run]? = none) : Ran s run s []
  | waits (ho : (s.engine.resume run).2 = none) :
    Ran s run { s with engine := (s.engine.resume run).1 } ((s.engine.moments run).map .compile)
  | ends (job : Job) (stage : Stage) (outcome : Outcome)
      (hr : s.engine.runs[run]? = some { job, stage })
      (ho : (s.engine.resume run).2 = some outcome) :
    Ran s run ({ s with engine := (s.engine.resume run).1 }.report job outcome)
      ((s.engine.moments run).map .compile ++ s.reported run job outcome)

/-- The outcome of a run that ends is reported, with the job of the run. -/
theorem Ran.eq_report {s s' : Server} {run : Nat} {hs : List Happening} (ran : Ran s run s' hs)
    {outcome : Outcome} (ho : (s.engine.resume run).2 = some outcome) :
    ∃ job, s' = { s with engine := (s.engine.resume run).1 }.report job outcome := by
  cases ran with
  | unknown h => simp [Engine.resume, h] at ho
  | waits hn =>
    rw [hn] at ho
    cases ho
  | ends job stage outcome' _ ho' =>
    rw [ho'] at ho
    cases ho
    exact ⟨job, rfl⟩

namespace Server

theorem resume_ran (s : Server) (run : Nat) : Ran s run (s.resume run) (s.resumed run) := by
  cases hr : s.engine.runs[run]? with
  | none =>
    simp only [resume, resumed, hr]
    exact .unknown hr
  | some r =>
    obtain ⟨job, stage⟩ := r
    cases ho : (s.engine.resume run).2 with
    | none =>
      simp only [resume, resumed, hr, ho, Option.toList_none, List.flatMap_nil, List.append_nil]
      exact .waits ho
    | some outcome =>
      simp only [resume, resumed, hr, ho, Option.toList_some, List.flatMap_singleton]
      exact .ends job stage outcome hr ho

/-! ### The log and the engine -/

variable {s : Server} {log : List Moment}

theorem traced_note (h : Traced s.engine log) {event : Event} (he : event.ended? = none) :
    Traced (s.note event).engine log :=
  h.congr rfl rfl rfl rfl (by simp [note, Engine.note, he])

theorem traced_publish (h : Traced s.engine log) (uri : String) (diagnostics : List Diagnostic) :
    Traced (s.publish uri diagnostics).engine log := traced_note h rfl

theorem traced_clearAll (h : Traced s.engine log) : Traced s.clearAll.engine log := by
  rw [clearAll_eq]
  have hnone : (s.published.map (Event.publish · [])).filterMap Event.ended? = [] := by
    simp [List.filterMap_map, Function.comp_def, Event.ended?]
  refine h.congr rfl rfl rfl rfl ?_
  rw [List.filterMap_append, hnone, List.append_nil]

theorem traced_fail (h : Traced s.engine log) (text : String) :
    Traced (s.fail text).engine (log ++ [.reset]) :=
  h.reset.congr rfl rfl rfl rfl (by simp [fail, note, Engine.note, Event.ended?])

theorem traced_report (h : Traced s.engine log) (run : Nat) (job : Job) (outcome : Outcome) :
    Traced (s.report job outcome).engine (log ++ compileLog (s.reported run job outcome)) := by
  cases outcome with
  | superseded => simpa [report, reported, compileLog] using h
  | finished result =>
    simp only [report, accept, reported]
    cases diagnose s.environment.directory job.path result.stderr with
    | ok diagnostics =>
      rw [show compileLog _ = [] from rfl, List.append_nil]
      exact traced_publish (s := { s with snapshot := _ }) h job.uri diagnostics
    | error fault => exact traced_fail (s := { s with snapshot := _ }) h fault.message
  | notRun command reason =>
    rw [show compileLog _ = [] from rfl, List.append_nil]
    exact traced_note (traced_clearAll h) rfl
  | crashed text => exact traced_fail h text

theorem traced_ran {run : Nat} {s' : Server} {hs : List Happening} (h : Traced s.engine log)
    (ran : Ran s run s' hs) : Traced s'.engine (log ++ compileLog hs) := by
  have turn := h.turn (s.engine.resume_turn run)
  cases ran with
  | unknown => simpa [compileLog] using h
  | waits =>
    rw [compileLog_map]
    exact turn
  | ends job stage outcome =>
    rw [compileLog_append, compileLog_map, ← List.append_assoc]
    exact traced_report (s := { s with engine := (s.engine.resume run).1 }) turn run job outcome

theorem traced_retuned {s' : Server} (h : Traced s.engine log) (hr : Retuned s s') :
    Traced s'.engine log := by
  obtain ⟨_, _, _, _, _, rfl⟩ := hr
  exact h.congr rfl rfl rfl rfl rfl

theorem traced_handled {request : Request} {s' : Server} {hs : List Happening}
    (h : Traced s.engine log) (handled : Handled s request s' hs) :
    Traced s'.engine (log ++ compileLog hs) := by
  have hreset : Traced s.resetSession.engine (log ++ [.reset]) := h.reset
  have hnone : ∀ request, compileLog [.received request] = [] := fun _ => rfl
  cases handled with
  | tuned hr => simpa [hnone] using traced_retuned h hr
  | submitted job => simpa [hnone] using h.submit job
  | answered answer => simpa [hnone] using h.answered (s.engine.answer_answered answer)
  | edited => simpa [hnone] using h
  | closed uri => simpa [hnone] using traced_publish h uri []
  | cleared hr => exact traced_retuned hreset hr
  | renewed compiler hr =>
    have hn : newest (log ++ [.reset]) = none := by simp [newest_append, Moment.pass]
    exact traced_retuned (s := { s.resetSession with engine := s.engine.reset.renew compiler })
      (hreset.renew hn compiler) hr

theorem traced_step (h : Traced s.engine log) (step : Step) :
    Traced (s.step step).1.engine (log ++ compileLog (s.step step).2) := by
  cases step with
  | request request => exact traced_handled h (s.handle_handled request)
  | resume =>
    unfold Server.step
    cases hq : s.engine.queue with
    | nil => simpa [compileLog] using h
    | cons run rest =>
      exact traced_ran (s := s.withQueue rest) (h.congr rfl rfl rfl rfl rfl) (resume_ran _ run)

/-- **The engine of a server and its log stay together in every step.** -/
theorem traced_play (h : Traced s.engine log) (steps : List Step) :
    Traced (s.play steps).1.engine (log ++ compileLog (s.play steps).2) := by
  induction steps generalizing s log with
  | nil => simpa [play, compileLog] using h
  | cons step steps ih =>
    simpa [play, compileLog_append] using ih (traced_step h step)

theorem traced_start (environment : Environment) : Traced (start environment).engine [] :=
  Traced.start (environmentCompiler environment)

end Server
end RenServer
