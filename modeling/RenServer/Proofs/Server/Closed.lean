/- # Diagnostics of a closed document

A document that is closed is sent an empty list, and nothing else remembers that it was
closed. A run of it that has not ended goes on, and if it comes to a result its findings
are sent like those of any other run (`Server.finding_after_close`).

There is no other way: until the document is opened or saved again it has no new runs
(`Server.unfinished_of_step`), so a list that is not empty comes from a run that was
unfinished at the close, and the document was opened or saved before it
(`Server.requested_of_unfinished`). With no such run the document stays clear.

Key definitions: `Engine.Unfinished`, `Server.SentBy`.
Key theorems: `Server.handle_runs`, `Server.unfinished_of_step`,
`Server.requested_of_unfinished`, `Server.closed_clear_but_for_unfinished`.
-/
import RenServer.Proofs.Server.Published
import RenServer.Proofs.Server.Replay

namespace RenServer
namespace Compile

/-- A run with a job has not ended: it is queued, or it awaits its process or the output
of it. -/
def Engine.Unfinished (e : Engine) (run : Nat) (job : Job) : Prop :=
  ∃ stage, e.runs[run]? = some { job, stage } ∧ stage ≠ .ended

theorem Engine.unfinished_iff {e : Engine} {run : Nat} {job : Job} :
    e.Unfinished run job ↔ e.job? run = some job ∧ e.stage? run ≠ some .ended := by
  unfold Engine.Unfinished Engine.job? Engine.stage?
  cases e.runs[run]? with
  | none => simp
  | some r =>
    obtain ⟨job', stage⟩ := r
    simp

theorem Engine.unfinished_congr {e e' : Engine} (h : e'.runs = e.runs) {run : Nat} {job : Job}
    (hu : e'.Unfinished run job) : e.Unfinished run job := by
  obtain ⟨stage, hr, hstage⟩ := hu
  exact ⟨stage, h ▸ hr, hstage⟩

/-- A new run has its own job. -/
theorem Engine.unfinished_of_concat {e e' : Engine} {job job' : Job}
    (h : e'.runs = e.runs ++ [⟨job', .waiting⟩]) (hne : job' ≠ job) {run : Nat}
    (hu : e'.Unfinished run job) : e.Unfinished run job := by
  obtain ⟨stage, hr, hstage⟩ := hu
  rw [h, List.getElem?_append] at hr
  split at hr
  · exact ⟨stage, hr, hstage⟩
  · rw [List.getElem?_singleton] at hr
    split at hr
    · cases hr
      exact absurd rfl hne
    · cases hr

section Turn

variable {e : Engine} {run : Nat} {after : Engine × Option Outcome} {ms : List Moment}

/-- A run that has ended does not go on. -/
theorem Turn.eq_of_ended (turn : Turn e run after ms) (h : e.stage? run = some .ended) :
    after = (e, none) := by
  have other : ∀ {stage : Stage}, e.stage? run = some stage → stage = .ended := fun hs =>
    Option.some.inj (hs.symm.trans h)
  cases turn with
  | idle => rfl
  | begins job hr =>
    have hs : e.stage? run = some .waiting := by simp [Engine.stage?, hr]
    cases other hs
  | fails _ _ _ _ hs => cases other hs
  | outrun _ _ _ hs => cases other hs
  | tracks _ _ hs => cases other hs
  | readsAtOnce _ _ _ hs => cases other hs
  | reads _ _ _ hs => cases other hs
  | readsLate _ _ _ _ hs => cases other hs

/-- A run that is unfinished after a turn was so before. -/
theorem Turn.unfinished (turn : Turn e run after ms) {r : Nat} {job : Job}
    (h : after.1.Unfinished r job) : e.Unfinished r job := by
  obtain ⟨hjob, hstage⟩ := Engine.unfinished_iff.mp h
  refine Engine.unfinished_iff.mpr ⟨(turn.job?_eq r).symm.trans hjob, fun hended => ?_⟩
  by_cases hr : run = r
  · subst hr
    rw [turn.eq_of_ended hended] at hstage
    exact hstage hended
  · exact hstage ((turn.stage?_of_ne hr).trans hended)

end Turn
end Compile

open Compile

namespace Server

/-! ### Where runs come from -/

theorem schedule_runs (s : Server) (uri : String) :
    (s.schedule uri).engine.runs = s.engine.runs ∨
      ∃ job : Job, job.uri = uri ∧
        (s.schedule uri).engine.runs = s.engine.runs ++ [⟨job, .waiting⟩] := by
  unfold schedule
  split
  · rename_i path _
    exact .inr ⟨⟨uri, path⟩, rfl, rfl⟩
  · exact .inl rfl

theorem Retuned.runs_eq {s s' : Server} (h : Retuned s s') : s'.engine.runs = s.engine.runs := by
  obtain ⟨_, _, _, _, _, rfl⟩ := h
  rfl

/-- **A request adds a run only when a document is opened or saved, and the run is of
that document.** -/
theorem handle_runs (s : Server) (request : Request) :
    (s.handle request).1.engine.runs = s.engine.runs ∨
      ∃ job : Job, (request = .opened job.uri ∨ request = .saved job.uri) ∧
        (s.handle request).1.engine.runs = s.engine.runs ++ [⟨job, .waiting⟩] := by
  cases request with
  | opened uri =>
    rcases s.schedule_runs uri with h | ⟨job, rfl, h⟩
    · exact .inl h
    · exact .inr ⟨job, .inl rfl, h⟩
  | saved uri =>
    rcases s.schedule_runs uri with h | ⟨job, rfl, h⟩
    · exact .inl h
    · exact .inr ⟨job, .inr rfl, h⟩
  | initialized rootUri options =>
    left
    have hreset : s.engine.reset.runs = s.engine.runs := by rw [Engine.reset_eq]
    simp only [handle, handle.failable, begin]
    split
    · rfl
    · split
      · exact hreset
      · exact (setLogLevel_retuned _ options).runs_eq.trans hreset
  | configured settings => exact .inl (s.configure_retuned settings).runs_eq
  | changed uri changes =>
    left
    simp only [handle, handle.failable, edit]
    split
    · rfl
    · split <;> rfl
  | closed uri => exact .inl rfl
  | complete cursor => exact .inl rfl
  | overridden path => exact .inl (refresh_retuned { s with override := _ }).runs_eq
  | variableSet value => exact .inl rfl
  | entrySet path entry => exact .inl rfl
  | answered answer => exact .inl (s.engine.answer_answered answer).frame.2

theorem unfinished_of_ran {s s' : Server} {r : Nat} {hs : List Happening} (ran : Ran s r s' hs)
    {run : Nat} {job : Job} (h : s'.engine.Unfinished run job) : s.engine.Unfinished run job := by
  have turn := s.engine.resume_turn r
  cases ran with
  | unknown => exact h
  | waits => exact turn.unfinished h
  | ends job' stage outcome =>
    have hruns := (report_frame { s with engine := (s.engine.resume r).1 } job' outcome).2.1
    exact turn.unfinished (Engine.unfinished_congr hruns h)

/-- **A document that is not opened or saved has no new runs.** -/
theorem unfinished_of_step {s : Server} {step : Step} {run : Nat} {job : Job}
    (hstep : step ≠ .request (.opened job.uri) ∧ step ≠ .request (.saved job.uri))
    (h : (s.step step).1.engine.Unfinished run job) : s.engine.Unfinished run job := by
  cases step with
  | request request =>
    rcases s.handle_runs request with hruns | ⟨job', hrequest, hruns⟩
    · exact Engine.unfinished_congr hruns h
    · refine Engine.unfinished_of_concat hruns (fun hjob => ?_) h
      subst hjob
      rcases hrequest with rfl | rfl
      · exact hstep.1 rfl
      · exact hstep.2 rfl
  | resume =>
    cases hq : s.engine.queue with
    | nil =>
      simp only [Server.step, hq] at h
      exact h
    | cons r rest =>
      simp only [Server.step, hq] at h
      exact unfinished_of_ran (s := s.withQueue rest) (resume_ran _ r) h

/-- **A run that has not ended was there before the steps, or they open or save its
document.** -/
theorem requested_of_unfinished {s : Server} {steps : List Step} {run : Nat} {job : Job}
    (h : (s.play steps).1.engine.Unfinished run job) :
    s.engine.Unfinished run job ∨
      .request (.opened job.uri) ∈ steps ∨ .request (.saved job.uri) ∈ steps := by
  induction steps generalizing s with
  | nil => exact .inl h
  | cons step steps ih =>
    rcases ih (s := (s.step step).1) h with hfirst | hopened | hsaved
    · by_cases hstep : step ≠ .request (.opened job.uri) ∧ step ≠ .request (.saved job.uri)
      · exact .inl (unfinished_of_step hstep hfirst)
      · right
        rw [not_and_or, not_not, not_not] at hstep
        rcases hstep with rfl | rfl
        · exact .inl List.mem_cons_self
        · exact .inr List.mem_cons_self
    · exact .inr (.inl (List.mem_cons_of_mem step hopened))
    · exact .inr (.inr (List.mem_cons_of_mem step hsaved))

/-! ### After a close -/

/-- A step sends a list that is not empty only as the findings of a run that has a
result in it. -/
theorem finished_of_sends {s : Server} {step : Step} {published : List String} {ns : List Notice}
    (sends : Sends s step published ns) {uri : String} {diagnostics : List Diagnostic}
    (hm : .sent uri diagnostics ∈ ns) (hne : diagnostics ≠ []) :
    step = .resume ∧ ∃ run queue job result, s.engine.queue = run :: queue ∧ job.uri = uri ∧
      s.engine.Unfinished run job ∧ (s.engine.resume run).2 = some (.finished result) ∧
      diagnose s.environment.directory job.path result.stderr = .ok diagnostics := by
  cases sends with
  | nothing => cases hm
  | cleared => simp at hm
  | closed =>
    simp only [List.mem_singleton, Notice.sent.injEq] at hm
    exact absurd hm.2 hne
  | withdrawn =>
    obtain ⟨_, -, heq⟩ := List.mem_map.mp hm
    cases heq
    exact absurd rfl hne
  | accepted run queue job stage result list hq hr ho hd =>
    simp only [List.mem_singleton, Notice.sent.injEq] at hm
    obtain ⟨rfl, rfl⟩ := hm
    refine ⟨rfl, run, queue, job, result, hq, rfl, ⟨stage, hr, ?_⟩, ho, hd⟩
    -- a run that had ended would have no outcome now
    rintro rfl
    have hended : s.engine.stage? run = some .ended := by simp [Engine.stage?, hr]
    rw [(s.engine.resume_turn run).eq_of_ended hended] at ho
    cases ho

/-- A close sends the empty list. -/
theorem notices_closed (s : Server) (uri : String) :
    s.notices (.request (.closed uri)) = [.sent uri []] :=
  notices_of_sent (s.sent_publish uri [])

/-- The run at the head of the queue after the steps `first` has a result when it goes on,
a list is its findings in its document, and it was unfinished before these steps. -/
def SentBy (s : Server) (first : List Step) (run : Nat) (uri : String)
    (diagnostics : List Diagnostic) : Prop :=
  ∃ queue job result, (s.play first).1.engine.queue = run :: queue ∧ job.uri = uri ∧
    s.engine.Unfinished run job ∧
    ((s.play first).1.engine.resume run).2 = some (.finished result) ∧
    diagnose (s.play first).1.environment.directory job.path result.stderr = .ok diagnostics

/-- A list that is not empty comes from a run that was unfinished before the steps. -/
theorem sentBy_of_sent {s : Server} {steps : List Step} {uri : String}
    (hsteps : ∀ step ∈ steps, step ≠ .request (.opened uri) ∧ step ≠ .request (.saved uri))
    {diagnostics : List Diagnostic} (hm : .sent uri diagnostics ∈ s.record steps)
    (hne : diagnostics ≠ []) :
    ∃ first rest run, steps = first ++ .resume :: rest ∧ s.SentBy first run uri diagnostics := by
  -- from the step that sends the list back to the first, no step adds a run of the document
  induction steps generalizing s with
  | nil => cases hm
  | cons step steps ih =>
    rcases List.mem_append.mp hm with hnow | hlater
    · obtain ⟨rfl, run, hrun⟩ := finished_of_sends (s.step_sends step) hnow hne
      exact ⟨[], steps, run, rfl, hrun⟩
    · obtain ⟨first, rest, run, rfl, queue, job, result, hq, rfl, hu, hrun⟩ :=
        ih (fun x hx => hsteps x (List.mem_cons_of_mem step hx)) hlater
      have hbefore := unfinished_of_step (hsteps step List.mem_cons_self) hu
      exact ⟨step :: first, rest, run, rfl, queue, job, result, hq, rfl, hbefore, hrun⟩

/-- **A closed document is clear but for the runs that were unfinished at the close.**
While it is not opened or saved again:

* a list that is not empty is sent for it only when a run of it that was unfinished at
  the close has a result, and the list is the findings of that run; the document was opened
  or saved before the close;
* if there is no such run, every list that is sent for it is empty, and so is the one that
  the client shows. -/
theorem closed_clear_but_for_unfinished (environment : Environment) (before after : List Step)
    (uri : String)
    (hafter : ∀ step ∈ after, step ≠ .request (.opened uri) ∧ step ≠ .request (.saved uri)) :
    let s := ((start environment).play (before ++ [.request (.closed uri)])).1
    (∀ diagnostics, .sent uri diagnostics ∈ s.record after → diagnostics ≠ [] →
      (.request (.opened uri) ∈ before ∨ .request (.saved uri) ∈ before) ∧
      ∃ first rest run, after = first ++ .resume :: rest ∧
        s.SentBy first run uri diagnostics) ∧
    ((∀ run job, s.engine.Unfinished run job → job.uri ≠ uri) →
      (∀ diagnostics, .sent uri diagnostics ∈ s.record after → diagnostics = []) ∧
      ∀ diagnostics, Shows
        ((start environment).record (before ++ [.request (.closed uri)] ++ after)) uri
        diagnostics → diagnostics = []) := by
  intro s
  refine ⟨fun diagnostics hm hne => ?_, fun hnone => ?_⟩
  · obtain ⟨first, rest, run, hsteps, hsent⟩ := sentBy_of_sent hafter hm hne
    refine ⟨?_, first, rest, run, hsteps, hsent⟩
    obtain ⟨_, job, _, -, rfl, hu, -⟩ := hsent
    -- the server starts without runs, and the close asks for none
    rcases requested_of_unfinished hu with hstart | hrequested
    · obtain ⟨_, hrun, -⟩ := hstart
      cases hrun
    · simpa using hrequested
  have hempty : ∀ diagnostics, .sent uri diagnostics ∈ s.record after → diagnostics = [] := by
    intro diagnostics hm
    by_contra hne
    obtain ⟨_, _, run, -, _, job, _, -, huri, hu, -⟩ := sentBy_of_sent hafter hm hne
    exact hnone run job hu huri
  refine ⟨hempty, fun diagnostics hshows => ?_⟩
  rw [record_append, record_snoc, notices_closed] at hshows
  rcases hshows.of_append with hm | hshows
  · exact hempty diagnostics hm
  · exact hshows.eq_of_snoc

/-- The compiler of a document is under way. -/
def underWay : List Step :=
  [.request (.opened "file:///a"), .resume, .request (.answered (.spawned 0)), .resume]

/-- The compiler ends, with a finding. -/
def endsWithFinding : List Step :=
  [.request (.answered (.exited 0 (some 0) ⟨[], "/a:2:3:1:error:bad".toUTF8.data.toList⟩)), .resume]

/-- The run whose finding is sent after the close was unfinished then. -/
theorem finding_of_unfinished :
    (∀ step ∈ endsWithFinding,
      step ≠ .request (.opened "file:///a") ∧ step ≠ .request (.saved "file:///a")) ∧
    let s :=
      ((start { directory := "/work" }).play (underWay ++ [.request (.closed "file:///a")])).1
    (.request (.opened "file:///a") ∈ underWay ∨ .request (.saved "file:///a") ∈ underWay) ∧
    ∃ first rest run, endsWithFinding = first ++ .resume :: rest ∧
      s.SentBy first run "file:///a" [⟨⟨⟨1, 1⟩, ⟨1, 2⟩⟩, .error, "renc", "bad"⟩] := by
  have hafter : ∀ step ∈ endsWithFinding,
      step ≠ .request (.opened "file:///a") ∧ step ≠ .request (.saved "file:///a") := by
    simp [endsWithFinding]
  have h := closed_clear_but_for_unfinished { directory := "/work" } underWay endsWithFinding
    "file:///a" hafter
  exact ⟨hafter, h.1 _ (List.mem_singleton.mpr rfl) (by simp)⟩

/-- A finding is sent for a document after it was closed. -/
theorem finding_after_close :
    let s :=
      ((start { directory := "/work" }).play (underWay ++ [.request (.closed "file:///a")])).1
    s.record endsWithFinding =
      [.sent "file:///a" [⟨⟨⟨1, 1⟩, ⟨1, 2⟩⟩, .error, "renc", "bad"⟩]] := rfl

end Server
end RenServer
