/- # The snapshot is a replay of the last accepted run

Since the session began either no run was accepted, and the snapshot is empty, or
the snapshot is the report of the run that was accepted last, moved by the line
edits of the run's own document that came after the acceptance, in order
(`Replays`). It is dirty exactly if one of these edits moved lines, and the edits
leave everything but lines as the report has it.

What came between the beginning of the run and its acceptance is not replayed: an
edit that arrives while the compiler runs leaves no trace in the new snapshot.

Key definitions: `Happening.replaces`, `edits`, `Replays`.
Key theorems: `Server.replays_play`, `Server.snapshot_replays`,
`Server.clean_iff_no_edit_since_accepted`.
-/
import RenServer.Proofs.Server.Steps
import RenServer.Proofs.Snapshot.LineEdits

namespace RenServer

open Compile

/-! ### What a log says about the snapshot -/

/-- Whether the snapshot is replaced, by the report of a run or by nothing. -/
def Happening.replaces : Happening → Bool
  | .accepted _ _ _ => true
  | .cleared => true
  | _ => false

/-- The line edits of a document in a log. -/
def edits (path : String) (log : List Happening) : List LineEdit :=
  log.flatMap fun
    | .received request => request.edits path
    | _ => []

theorem edits_append (path : String) (log more : List Happening) :
    edits path (log ++ more) = edits path log ++ edits path more := List.flatMap_append

theorem edits_received (path : String) (request : Request) :
    edits path [.received request] = request.edits path := by
  simp [edits]

theorem edits_compile (path : String) (moments : List Moment) :
    edits path (moments.map .compile) = [] := by
  simp [edits]

/-- The job of a run. -/
def Compile.Engine.job? (e : Engine) (run : Nat) : Option Job := (e.runs[run]?).map Run.job

/-- No run was accepted since the session began. -/
def Fresh (log : List Happening) : Prop :=
  ∃ earlier since, log = earlier ++ since ∧ (earlier = [] ∨ earlier.getLast? = some .cleared) ∧
    ∀ run job result, .accepted run job result ∉ since

/-- The snapshot of a server is what its log says. -/
inductive Replays (s : Server) (log : List Happening) : Prop where
  | fresh (h : Fresh log) (hs : s.snapshot = .empty)
  | accepted (before : List Happening) (run : Nat) (ticket : Ticket) (process : Nat)
      (flight : List Happening) (job : Job) (result : Result) (since : List Happening)
      (hlog : log = before ++ .compile (.began run ticket process) ::
        (flight ++ .accepted run job result :: since))
      (hlast : ∀ x ∈ since, x.replaces = false)
      (hsession : ticket.session = s.engine.session)
      (hjob : s.engine.job? run = some job)
      (hs : s.snapshot = (edits job.path since).foldl Snapshot.shift
        (.ofReport (.read result.stdout) (some job.path)))

/-! ### Runs keep their jobs and sessions -/

namespace Compile

/-- The end that a turn passes is the outcome of the run. -/
theorem Turn.mem_ended {e : Engine} {run : Nat} {after : Engine × Option Outcome}
    {ms : List Moment} (turn : Turn e run after ms) {r : Nat} {outcome : Outcome} :
    .ended r outcome ∈ ms ↔ r = run ∧ after.2 = some outcome := by
  cases turn <;> simp [Engine.finish, eq_comm]

theorem Engine.job?_setStage (e : Engine) (run : Nat) (stage : Stage) (r : Nat) :
    (e.setStage run stage).job? r = e.job? r := by
  unfold Engine.job? Engine.setStage
  rw [List.getElem?_modify]
  by_cases h : run = r
  · simp [h, Function.comp_def]
  · simp [h]

theorem Engine.job?_submit (e : Engine) (job : Job) {r : Nat} {job' : Job}
    (h : e.job? r = some job') : (e.submit job).job? r = some job' := by
  obtain ⟨x, hx, rfl⟩ := Option.map_eq_some_iff.mp h
  obtain ⟨hlt, -⟩ := List.getElem?_eq_some_iff.mp hx
  simp [Engine.job?, Engine.submit, List.getElem?_append_left hlt, hx]

theorem Turn.job?_eq {e : Engine} {run : Nat} {after : Engine × Option Outcome}
    {ms : List Moment} (turn : Turn e run after ms) (r : Nat) : after.1.job? r = e.job? r := by
  cases turn with
  | idle => rfl
  | begins job =>
    rw [Engine.begin_eq]
    exact e.job?_setStage run _ r
  | _ => exact e.job?_setStage run _ r

/-- An answer leaves the session and the runs alone. -/
theorem Answered.frame {e e' : Engine} {answer : Answer} (answered : Answered e answer e') :
    e'.session = e.session ∧ e'.runs = e.runs := by
  cases answered with
  | exited => simp only; split <;> exact ⟨rfl, rfl⟩
  | _ => exact ⟨rfl, rfl⟩

/-- A run that has a result took the engine's ticket when it began. -/
theorem Traced.began_of_finished {e : Engine} {log : List Moment} (h : Traced e log) {run : Nat}
    {after : Engine × Option Outcome} {ms : List Moment} (turn : Turn e run after ms)
    {result : Result} (ho : after.2 = some (.finished result)) :
    ∃ process, .began run e.ticket process ∈ log := by
  have told := h.told run
  have began : ∀ {p rest}, story log run = .began run e.ticket p :: rest →
      ∃ process, .began run e.ticket process ∈ log := fun hs =>
    ⟨_, (mem_story.mp (by rw [hs]; exact List.mem_cons_self)).1⟩
  cases turn with
  | idle => cases ho
  | begins => cases ho
  | tracks => cases ho
  | fails _ _ _ failure => cases failure <;> cases ho
  | outrun => cases ho
  | readsLate => cases ho
  | readsAtOnce p q output hs =>
    rw [hs] at told
    exact began told
  | reads p q output hs =>
    rw [hs] at told
    exact began told

end Compile

namespace Server

/-- A report leaves the session and the runs alone, and the snapshot too unless the
run has a result. -/
theorem report_frame (s : Server) (job : Job) (outcome : Outcome) :
    (s.report job outcome).engine.session = s.engine.session ∧
      (s.report job outcome).engine.runs = s.engine.runs ∧
      ((∀ result, outcome ≠ .finished result) →
        (s.report job outcome).snapshot = s.snapshot) := by
  have fail : ∀ (s : Server) text, (s.fail text).engine.session = s.engine.session ∧
      (s.fail text).engine.runs = s.engine.runs ∧ (s.fail text).snapshot = s.snapshot := by
    intro s text
    simp only [Server.fail, Engine.reset_eq]
    exact ⟨rfl, rfl, rfl⟩
  cases outcome with
  | superseded => exact ⟨rfl, rfl, fun _ => rfl⟩
  | finished result =>
    simp only [report, accept]
    split
    · exact ⟨rfl, rfl, fun h => absurd rfl (h result)⟩
    · exact ⟨(fail _ _).1, (fail _ _).2.1, fun h => absurd rfl (h result)⟩
  | notRun command reason =>
    simp only [report, clearAll_eq]
    exact ⟨rfl, rfl, fun _ => rfl⟩
  | crashed text => exact ⟨(fail s text).1, (fail s text).2.1, fun _ => (fail s text).2.2⟩

/-- A report accepts a result if there is one, and then at most resets the engine. -/
theorem reported_cases (s : Server) (run : Nat) (job : Job) (outcome : Outcome) :
    ∃ rest, (rest = [] ∨ rest = [.compile .reset]) ∧
      ((∃ result, outcome = .finished result ∧
          s.reported run job outcome = .accepted run job result :: rest) ∨
        (∀ result, outcome ≠ .finished result) ∧ s.reported run job outcome = rest) := by
  cases outcome with
  | superseded => exact ⟨[], .inl rfl, .inr ⟨by simp, rfl⟩⟩
  | finished result =>
    refine ⟨_, ?_, .inl ⟨result, rfl, rfl⟩⟩
    split
    · exact .inl rfl
    · exact .inr rfl
  | notRun => exact ⟨[], .inl rfl, .inr ⟨by simp, rfl⟩⟩
  | crashed => exact ⟨[.compile .reset], .inr rfl, .inr ⟨by simp, rfl⟩⟩

theorem accept_snapshot (s : Server) (job : Job) (result : Result) :
    (s.accept job result).snapshot = .ofReport (.read result.stdout) (some job.path) := by
  unfold accept
  simp only
  split <;> rfl

end Server

/-! ### Every step is replayed -/

theorem Fresh.append {log more : List Happening} (h : Fresh log)
    (hkeep : ∀ x ∈ more, x.replaces = false) : Fresh (log ++ more) := by
  obtain ⟨earlier, since, rfl, hstart, hnone⟩ := h
  refine ⟨earlier, since ++ more, List.append_assoc .., hstart, fun run job result hm => ?_⟩
  rcases List.mem_append.mp hm with hm | hm
  · exact hnone run job result hm
  · simpa [Happening.replaces] using hkeep _ hm

namespace Replays

variable {s s' : Server} {log more : List Happening}

/-- A step in which the snapshot is not replaced moves it by the line edits of its
own document. -/
theorem extend (h : Replays s log) (hkeep : ∀ x ∈ more, x.replaces = false)
    (hsession : s'.engine.session = s.engine.session)
    (hjob : ∀ run job, s.engine.job? run = some job → s'.engine.job? run = some job)
    (hnone : s.snapshot.path = none → s'.snapshot = s.snapshot)
    (hown : ∀ path, s.snapshot.path = some path →
      s'.snapshot = (edits path more).foldl Snapshot.shift s.snapshot) :
    Replays s' (log ++ more) := by
  cases h with
  | fresh h hs => exact .fresh (h.append hkeep) ((hnone (by rw [hs]; rfl)).trans hs)
  | accepted before run ticket process flight job result since hlog hlast hsess hj hs =>
    have hpath : s.snapshot.path = some job.path := by
      rw [hs]
      exact (Snapshot.foldl_shift_frame (edits job.path since) _).1
    refine .accepted before run ticket process flight job result (since ++ more) ?_ ?_
      (hsess.trans hsession.symm) (hjob run job hj) ?_
    · rw [hlog]
      simp
    · intro x hx
      exact (List.mem_append.mp hx).elim (hlast x) (hkeep x)
    · rw [hown job.path hpath, edits_append, List.foldl_append, ← hs]

/-- The same, when no line of the document is edited either. -/
theorem same (h : Replays s log) (hkeep : ∀ x ∈ more, x.replaces = false)
    (hsession : s'.engine.session = s.engine.session)
    (hjob : ∀ run job, s.engine.job? run = some job → s'.engine.job? run = some job)
    (hs : s'.snapshot = s.snapshot)
    (hown : ∀ path, s.snapshot.path = some path → edits path more = []) :
    Replays s' (log ++ more) :=
  h.extend hkeep hsession hjob (fun _ => hs) fun path hp => by rw [hs, hown path hp, List.foldl_nil]

theorem handled (h : Replays s log) {request : Request} (handled : Handled s request s' more) :
    Replays s' (log ++ more) := by
  have hkeep : ∀ request, ∀ x ∈ [Happening.received request], x.replaces = false := by
    simp [Happening.replaces]
  -- the session ends, and nothing was accepted since then
  have hcleared : ∀ {request : Request} {s' : Server}, s'.snapshot = .empty →
      Replays s' (log ++ [.received request, .cleared, .compile .reset]) := by
    intro request s' hs
    exact .fresh ⟨log ++ [.received request, .cleared], [.compile .reset], by simp,
      .inr (by simp), by simp⟩ hs
  cases handled with
  | tuned hr he =>
    obtain ⟨_, _, _, _, _, rfl⟩ := hr
    exact h.same (hkeep _) rfl (fun _ _ hj => hj) rfl fun path hp => by
      rw [edits_received, he path hp]
  | submitted job he =>
    exact h.same (hkeep _) rfl (fun _ _ hj => s.engine.job?_submit job hj) rfl fun path _ => by
      rw [edits_received, he path]
  | answered answer =>
    obtain ⟨hsession, hruns⟩ := (s.engine.answer_answered answer).frame
    refine h.same (hkeep _) hsession (fun run job hj => ?_) rfl fun path _ => rfl
    rw [Engine.job?, hruns]
    exact hj
  | edited path hp =>
    refine h.extend (hkeep _) rfl (fun _ _ hj => hj) (fun hn => ?_) fun path' hp' => ?_
    · rw [hp] at hn
      cases hn
    · rw [hp] at hp'
      cases hp'
      rw [edits_received]
  | closed uri => exact h.same (hkeep _) rfl (fun _ _ hj => hj) rfl fun path _ => rfl
  | cleared hr =>
    obtain ⟨_, _, _, _, _, rfl⟩ := hr
    exact hcleared rfl
  | renewed compiler hr =>
    obtain ⟨_, _, _, _, _, rfl⟩ := hr
    exact hcleared rfl

/-- A run goes on, and if it has a result the snapshot is replaced. -/
theorem ran (h : Replays s log) (ht : Traced s.engine (compileLog log)) {run : Nat}
    (ran : Ran s run s' more) : Replays s' (log ++ more) := by
  have turn := s.engine.resume_turn run
  have hkeep : ∀ x ∈ (s.engine.moments run).map Happening.compile, x.replaces = false := by
    simp [Happening.replaces]
  have hjob : ∀ r job', s.engine.job? r = some job' →
      (s.engine.resume run).1.job? r = some job' := fun r job' hj => (turn.job?_eq r).trans hj
  cases ran with
  | unknown => simpa using h
  | waits => exact h.same hkeep turn.session_eq hjob rfl fun path _ => edits_compile path _
  | ends job stage outcome hr ho =>
    obtain ⟨hsession, hruns, hsnap⟩ :=
      Server.report_frame { s with engine := (s.engine.resume run).1 } job outcome
    have hjob' : ∀ r job', s.engine.job? r = some job' →
        ({ s with engine := (s.engine.resume run).1 }.report job outcome).engine.job? r =
          some job' := fun r job' hj => by
      rw [Engine.job?, hruns]
      exact hjob r job' hj
    obtain ⟨rest, hrest, hcases⟩ := s.reported_cases run job outcome
    have hedits : ∀ path, edits path rest = [] := fun path => by
      rcases hrest with rfl | rfl <;> rfl
    have hlast : ∀ x ∈ rest, x.replaces = false := by
      rcases hrest with rfl | rfl <;> simp [Happening.replaces]
    rcases hcases with ⟨result, rfl, heq⟩ | ⟨hno, heq⟩
    · -- the run began somewhere in the log, and what came since then is its flight
      obtain ⟨process, hb⟩ := ht.began_of_finished turn ho
      obtain ⟨before, flight, hlog⟩ := List.append_of_mem (mem_compileLog.mp hb)
      refine .accepted before run s.engine.ticket process
        (flight ++ (s.engine.moments run).map .compile) job result rest ?_ hlast
        (hsession.trans turn.session_eq).symm (hjob' run job (by simp [Engine.job?, hr])) ?_
      · rw [heq, hlog]
        simp
      · rw [hedits]
        exact Server.accept_snapshot _ job result
    · rw [heq]
      refine h.same (fun x hx => ?_) (hsession.trans turn.session_eq) hjob' (hsnap hno)
        fun path _ => ?_
      · exact (List.mem_append.mp hx).elim (hkeep x) (hlast x)
      · rw [edits_append, edits_compile, hedits]
        rfl

end Replays

namespace Server

variable {s : Server} {log : List Happening}

theorem replays_step (h : Replays s log) (ht : Traced s.engine (compileLog log)) (step : Step) :
    Replays (s.step step).1 (log ++ (s.step step).2) := by
  cases step with
  | request request => exact h.handled (s.handle_handled request)
  | resume =>
    unfold Server.step
    cases hq : s.engine.queue with
    | nil => simpa using h
    | cons run rest =>
      have hpop : Replays (s.withQueue rest) (log ++ []) :=
        h.same (by simp) rfl (fun _ _ hj => hj) rfl fun _ _ => rfl
      rw [List.append_nil] at hpop
      have htpop : Traced (s.withQueue rest).engine (compileLog log) :=
        ht.congr rfl rfl rfl rfl rfl
      exact hpop.ran htpop (resume_ran _ run)

/-- **The snapshot is what the log says after any steps.** -/
theorem replays_play (h : Replays s log) (ht : Traced s.engine (compileLog log))
    (steps : List Step) : Replays (s.play steps).1 (log ++ (s.play steps).2) := by
  induction steps generalizing s log with
  | nil => simpa [play] using h
  | cons step steps ih =>
    have ht' : Traced (s.step step).1.engine (compileLog (log ++ (s.step step).2)) := by
      rw [compileLog_append]
      exact traced_step ht step
    simpa [play] using ih (replays_step h ht step) ht'

/-! ### What is accepted, and what changes the snapshot -/

/-- A step accepts the results that runs have in it. -/
theorem accepted_step_iff (s : Server) (step : Step) {run : Nat} {result : Result} :
    (∃ job, .accepted run job result ∈ (s.step step).2) ↔
      .compile (.ended run (.finished result)) ∈ (s.step step).2 := by
  have hran : ∀ {s s' : Server} {r : Nat} {more : List Happening}, Ran s r s' more →
      ((∃ job, .accepted run job result ∈ more) ↔
        .compile (.ended run (.finished result)) ∈ more) := by
    intro s s' r more ran
    have hended : .ended run (.finished result) ∈ s.engine.moments r ↔ _ :=
      (s.engine.resume_turn r).mem_ended
    cases ran with
    | unknown => simp
    | waits ho => simp [hended, ho]
    | ends job stage outcome hr ho =>
      cases outcome with
      | finished result' =>
        simp only [reported]
        split <;> simp [hended, ho, eq_comm]
      | _ => simp [hended, ho, reported]
  cases step with
  | request request =>
    have hnone : ∀ x ∈ received request, x = .received request ∨ x = .cleared ∨
        x = .compile .reset := by
      unfold received
      split
      · split <;> simp
      · simp
    constructor
    · rintro ⟨job, hm⟩
      simpa using hnone _ hm
    · intro hm
      simpa using hnone _ hm
  | resume =>
    cases hq : s.engine.queue with
    | nil => simp [Server.step, hq]
    | cons r rest =>
      simp only [Server.step, hq]
      exact hran (resume_ran _ r)

/-- The results that were accepted are those that runs had. -/
theorem accepted_play_iff (s : Server) (steps : List Step) {run : Nat} {result : Result} :
    (∃ job, .accepted run job result ∈ (s.play steps).2) ↔
      .compile (.ended run (.finished result)) ∈ (s.play steps).2 := by
  induction steps generalizing s with
  | nil => simp [play]
  | cons step steps ih =>
    simp only [play, List.mem_append, exists_or, ih, accepted_step_iff]

/-- What replaces the snapshot or edits its document happens. -/
def Affected (s : Server) (more : List Happening) : Prop :=
  (∃ x ∈ more, x.replaces = true) ∨
    ∃ path, s.snapshot.path = some path ∧ edits path more ≠ []

theorem affected_of_handled {s s' : Server} {request : Request} {more : List Happening}
    (handled : Handled s request s' more) (h : s'.snapshot ≠ s.snapshot) : Affected s more := by
  cases handled with
  | tuned hr =>
    obtain ⟨_, _, _, _, _, rfl⟩ := hr
    exact absurd rfl h
  | submitted => exact absurd rfl h
  | answered => exact absurd rfl h
  | edited path hp =>
    refine .inr ⟨path, hp, fun hn => h ?_⟩
    rw [edits_received] at hn
    simp only [hn, List.foldl_nil]
  | closed => exact absurd rfl h
  | cleared => exact .inl ⟨.cleared, by simp, rfl⟩
  | renewed => exact .inl ⟨.cleared, by simp, rfl⟩

theorem affected_of_ran {s s' : Server} {run : Nat} {more : List Happening}
    (ran : Ran s run s' more) (h : s'.snapshot ≠ s.snapshot) : Affected s more := by
  cases ran with
  | unknown => exact absurd rfl h
  | waits => exact absurd rfl h
  | ends job stage outcome =>
    have hsnap := (report_frame { s with engine := (s.engine.resume run).1 } job outcome).2.2
    cases outcome with
    | finished result => exact .inl ⟨.accepted run job result, by simp [reported], rfl⟩
    | _ => exact absurd (hsnap (by simp)) h

/-- Nothing changes the snapshot but what replaces it and the line edits of its own
document. -/
theorem affected_of_step (s : Server) (step : Step)
    (h : (s.step step).1.snapshot ≠ s.snapshot) : Affected s (s.step step).2 := by
  cases step with
  | request request => exact affected_of_handled (s.handle_handled request) h
  | resume =>
    cases hq : s.engine.queue with
    | nil => simp [Server.step, hq] at h
    | cons run rest =>
      simp only [Server.step, hq] at h ⊢
      exact affected_of_ran (s := s.withQueue rest) (resume_ran _ run) h

/-! ### The snapshot of a reachable server -/

theorem replays_start (environment : Environment) (steps : List Step) :
    Replays ((start environment).play steps).1 ((start environment).play steps).2 := by
  have h : Replays (start environment) [] := .fresh ⟨[], [], rfl, .inl rfl, by simp⟩ rfl
  simpa using replays_play h (traced_start environment) steps

/-- **The snapshot is always a replay of the last accepted run.** After any steps:

* either no run was accepted since the session began and the snapshot is empty, or
  it is the report of the run accepted last, which began in this session, moved by
  the line edits of its document since then. It is dirty exactly if one of them
  moved lines, and only lines differ from the report;
* the accepted results are those that runs ended with;
* no step changes the snapshot unless it accepts a result, ends the session, or
  edits the snapshot's own document. -/
theorem snapshot_replays (environment : Environment) (steps : List Step) :
    let s := ((start environment).play steps).1
    let log := ((start environment).play steps).2
    (Fresh log ∧ s.snapshot = .empty ∨
      ∃ before run ticket process flight job result since,
        log = before ++ .compile (.began run ticket process) ::
          (flight ++ .accepted run job result :: since) ∧
        (∀ x ∈ since, x.replaces = false) ∧
        ticket.session = s.engine.session ∧ s.engine.job? run = some job ∧
        s.snapshot = (edits job.path since).foldl Snapshot.shift
          (.ofReport (.read result.stdout) (some job.path)) ∧
        s.snapshot.path = some job.path ∧
        (s.snapshot.dirty = true ↔ ∃ edit ∈ edits job.path since, edit.delta ≠ 0) ∧
        s.snapshot.symbols = (SymbolReport.read result.stdout).symbols ∧
        s.snapshot.vars.map Variable.shape =
          (SymbolReport.read result.stdout).vars.map Variable.shape) ∧
    (∀ run result, (∃ job, .accepted run job result ∈ log) ↔
      .ended run (.finished result) ∈ s.engine.journal) ∧
    ∀ step, (s.step step).1.snapshot ≠ s.snapshot → Affected s (s.step step).2 := by
  intro s log
  have ht : Traced s.engine (compileLog log) := by
    simpa using traced_play (traced_start environment) steps
  refine ⟨?_, fun run result => ?_, s.affected_of_step⟩
  · cases replays_start environment steps with
    | fresh h hs => exact .inl ⟨h, hs⟩
    | accepted before run ticket process flight job result since hlog hlast hsession hjob hs =>
      have hframe := Snapshot.foldl_shift_frame (edits job.path since)
        (.ofReport (.read result.stdout) (some job.path))
      have hdirty := Snapshot.foldl_shift_dirty (edits job.path since)
        (.ofReport (.read result.stdout) (some job.path))
      rw [← hs] at hframe hdirty
      exact .inr ⟨before, run, ticket, process, flight, job, result, since, hlog, hlast, hsession,
        hjob, hs, hframe.1, hdirty.trans (by simp [Snapshot.ofReport]), hframe.2.1, hframe.2.2⟩
  · rw [ht.mem_journal, mem_compileLog]
    exact accepted_play_iff (start environment) steps

/-- **A snapshot is clean exactly if no line of its document was moved since its
run was accepted.** It is then the report of that run, whatever was edited while
the run was under way. -/
theorem clean_iff_no_edit_since_accepted (environment : Environment) (steps : List Step)
    {s : Server} {log : List Happening} (hplay : (start environment).play steps = (s, log))
    {path : String} (hp : s.snapshot.path = some path) :
    ∃ before run ticket process flight job result since,
      log = before ++ .compile (.began run ticket process) ::
        (flight ++ .accepted run job result :: since) ∧
      job.path = path ∧ (∀ x ∈ since, x.replaces = false) ∧
      (s.snapshot.dirty = false ↔ ∀ edit ∈ edits path since, edit.delta = 0) ∧
      (s.snapshot.dirty = false →
        s.snapshot = .ofReport (.read result.stdout) (some path)) := by
  have h := replays_start environment steps
  rw [hplay] at h
  cases h with
  | fresh h hs =>
    rw [hs] at hp
    cases hp
  | accepted before run ticket process flight job result since hlog hlast hsession hjob hs =>
    have hpath := (Snapshot.foldl_shift_frame (edits job.path since)
      (.ofReport (.read result.stdout) (some job.path))).1
    have hdirty := Snapshot.foldl_shift_dirty (edits job.path since)
      (.ofReport (.read result.stdout) (some job.path))
    rw [← hs] at hpath hdirty
    rw [hp] at hpath
    cases hpath
    have hclean : s.snapshot.dirty = false ↔ ∀ edit ∈ edits job.path since, edit.delta = 0 := by
      rw [← Bool.not_eq_true, hdirty]
      simp [Snapshot.ofReport]
    refine ⟨before, run, ticket, process, flight, job, result, since, hlog, rfl, hlast, hclean,
      fun hc => ?_⟩
    rw [hs, Snapshot.foldl_shift_of_still (hclean.mp hc)]

/-- A line is added at the top of a document while its compiler runs. -/
def editInFlight : List Step :=
  [.request (.opened "file:///a"), .resume, .request (.answered (.spawned 0)), .resume,
    .request (.changed "file:///a" [⟨some ⟨⟨0, 0⟩, ⟨0, 0⟩⟩, "\n"⟩]),
    .request (.answered (.exited 0 (some 0) ⟨[], []⟩)), .resume]

/-- The snapshot is then the report as it stands. -/
theorem edit_in_flight_not_replayed :
    let x := (start { directory := "/work" }).play editInFlight
    x.1.snapshot.path = some "/a" ∧
      ∃ before run ticket process flight job result since,
        x.2 = before ++ .compile (.began run ticket process) ::
          (flight ++ .accepted run job result :: since) ∧
        job.path = "/a" ∧ (∀ edit ∈ edits "/a" since, edit.delta = 0) ∧
        x.1.snapshot = .ofReport (.read result.stdout) (some "/a") := by
  intro x
  have hpath : x.1.snapshot.path = some "/a" := rfl
  have hdirty : x.1.snapshot.dirty = false := rfl
  have hplay : (start { directory := "/work" }).play editInFlight = (x.1, x.2) := rfl
  obtain ⟨before, run, ticket, process, flight, job, result, since, hlog, hjob, -, hclean,
    hreport⟩ := clean_iff_no_edit_since_accepted _ _ hplay hpath
  exact ⟨hpath, before, run, ticket, process, flight, job, result, since, hlog, hjob,
    hclean.mp hdirty, hreport hdirty⟩

/-- The edit that arrives while the compiler runs leaves the new snapshot clean. -/
theorem clean_after_edit_in_flight :
    let x := (start { directory := "/work" }).play editInFlight
    x.1.snapshot.path = some "/a" ∧ x.1.snapshot.dirty = false ∧
      ∃ before flight result since,
        x.2 = before ++ .compile (.began 0 ⟨0, 1⟩ 0) ::
          (flight ++ .accepted 0 ⟨"file:///a", "/a"⟩ result :: since) ∧
        edits "/a" flight = [⟨0, 1⟩] := by
  refine ⟨rfl, rfl, [.received (.opened "file:///a")],
    [.received (.answered (.spawned 0)), .compile (.spawned 0 0),
      .received (.changed "file:///a" [⟨some ⟨⟨0, 0⟩, ⟨0, 0⟩⟩, "\n"⟩]),
      .received (.answered (.exited 0 (some 0) ⟨[], []⟩)), .compile (.read 0 0 (some 0) ⟨[], []⟩),
      .compile (.ended 0 (.finished ⟨"", "", some 0, 1⟩))],
    ⟨"", "", some 0, 1⟩, [], rfl, rfl⟩

end Server

end RenServer
