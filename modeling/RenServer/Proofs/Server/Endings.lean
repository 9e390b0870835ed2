/- # The end of an accepted run

A run that is the newest when it reads the output of its process has a result, whatever
the output is (`Compile.Traced.finishes`). The result's report becomes the snapshot first,
and then the diagnostics are made. If no line of the standard error is to blame for a
fault, they are sent, once and to the run's document (`Shown`). Otherwise nothing is sent,
not even what the other lines have: the client is told about the fault, and no run counts
any more (`Broken`).

Key definitions: `Server.Shown`, `Server.Broken`.
Key theorems: `Compile.Traced.finishes`, `Server.step_ends`, `Server.finished_end`,
`Server.newest_end_shown_iff`.
-/
import RenServer.Proofs.Report.Diagnosis
import RenServer.Proofs.Server.Replay

namespace RenServer
namespace Compile

section Turn

variable {e : Engine} {log : List Moment} {run : Nat} {after : Engine × Option Outcome}
  {ms : List Moment}

/-- A run with a result leaves no tracked process, and nothing else is noted. -/
theorem Turn.finished_eq (turn : Turn e run after ms) {result : Result}
    (ho : after.2 = some (.finished result)) :
    after.1 = ({ e with tracked := none }.finish run (.finished result)).1 := by
  cases turn with
  | idle => cases ho
  | begins => cases ho
  | tracks => cases ho
  | fails _ _ _ failure => cases failure <;> cases ho
  | outrun => cases ho
  | readsLate => cases ho
  | readsAtOnce =>
    cases ho
    rfl
  | reads =>
    cases ho
    rfl

/-- **The newest run has a result when it reads.** -/
theorem Traced.finishes (h : Traced e log) (turn : Turn e run after ms) {process : Nat}
    {code : Option Int} {output : Output} (hread : .read run process code output ∈ ms)
    {ticket : Ticket} (hn : newest log = some (run, ticket, process)) :
    after.2 = some (.finished (output.result code ticket.generation)) := by
  have held : ∀ {p}, e.turn? run = some (e.ticket, p) → ticket = e.ticket := by
    intro p ht
    have hx := (h.holder ht).mp rfl
    rw [hn] at hx
    cases hx
    rfl
  cases turn with
  | idle => cases hread
  | begins => simp at hread
  | tracks => simp at hread
  | fails => simp at hread
  | outrun => simp at hread
  | readsAtOnce p q out hs =>
    rw [held (e.turn?_eq_some.mpr (.inl hs))]
    simp only [List.mem_cons, reduceCtorEq, Moment.read.injEq, List.not_mem_nil, or_false,
      false_or, true_and] at hread
    obtain ⟨-, rfl, rfl⟩ := hread
    rfl
  | reads p q out hs =>
    rw [held (e.turn?_eq_some.mpr (.inr hs))]
    simp only [List.mem_cons, reduceCtorEq, Moment.read.injEq, List.not_mem_nil, or_false,
      true_and] at hread
    obtain ⟨-, rfl, rfl⟩ := hread
    rfl
  | readsLate t p q out hs hq ho ht =>
    -- a run that is late began with the ticket that it lost
    simp only [List.mem_cons, reduceCtorEq, Moment.read.injEq, List.not_mem_nil, or_false,
      true_and] at hread
    obtain ⟨rfl, -, -⟩ := hread
    have told := h.told run
    obtain ⟨before, since, rfl, -⟩ := newest_eq_some_iff.mp hn
    rw [hs] at told
    obtain ⟨rfl, -, -⟩ := story_since told (by simp)
    exact absurd ((h.holder (e.turn?_eq_some.mpr (.inr hs))).mpr hn) ht

/-- A run that ends has not ended before. -/
theorem Traced.ended_notMem (h : Traced e log) (turn : Turn e run after ms) {outcome : Outcome}
    (ho : after.2 = some outcome) (o : Outcome) : .ended run o ∉ log := by
  have told := h.told run
  have unended : ∀ {t p}, e.turn? run = some (t, p) → .ended run o ∉ log := by
    intro t p ht hm
    have hstory : .ended run o ∈ story log run := mem_story.mpr ⟨hm, rfl⟩
    rcases e.turn?_eq_some.mp ht with hs | hs
    · simp only [hs, Told] at told
      simp [told] at hstory
    · simp only [hs, Told] at told
      simp [told] at hstory
  cases turn with
  | idle => cases ho
  | begins => cases ho
  | tracks => cases ho
  | fails _ _ _ _ hs => exact unended (e.turn?_eq_some.mpr (.inl hs))
  | outrun _ _ _ hs => exact unended (e.turn?_eq_some.mpr (.inl hs))
  | readsAtOnce _ _ _ hs => exact unended (e.turn?_eq_some.mpr (.inl hs))
  | reads _ _ _ hs => exact unended (e.turn?_eq_some.mpr (.inr hs))
  | readsLate _ _ _ _ hs => exact unended (e.turn?_eq_some.mpr (.inr hs))

end Turn
end Compile

open Text Compile

/-- What a run passes when it goes on are its moments, and maybe a reset. -/
theorem Ran.mem_moments {s s' : Server} {run : Nat} {more : List Happening}
    (ran : Ran s run s' more) {m : Moment} (hm : .compile m ∈ more) (hne : m ≠ .reset) :
    m ∈ s.engine.moments run := by
  cases ran with
  | unknown => cases hm
  | waits => simpa using hm
  | ends job stage outcome =>
    obtain ⟨last, hlast, hcases⟩ := s.reported_cases run job outcome
    have hreported : .compile m ∉ s.reported run job outcome := by
      rcases hlast with rfl | rfl <;> rcases hcases with ⟨_, -, heq⟩ | ⟨-, heq⟩ <;>
        simp [heq, hne]
    simpa [hreported] using hm

namespace Server

/-! ### Results with and without diagnostics -/

/-- The diagnostics of a result are sent: one list, nothing else, and runs count as
before. -/
structure Shown (run : Nat) (job : Job) (result : Result) (diagnostics : List Diagnostic)
    (s s' : Server) : Prop where
  events : s'.engine.journal =
    s.engine.journal ++ [.ended run (.finished result), .publish job.uri diagnostics]
  ticket : s'.engine.ticket = s.engine.ticket

/-- A result has a fault: the client is told, no diagnostics are sent, and no run counts any
more. -/
structure Broken (run : Nat) (result : Result) (fault : DiagnosticFault) (s s' : Server) :
    Prop where
  events : s'.engine.journal = s.engine.journal ++
    [.ended run (.finished result), .showMessage (crashText fault.message)]
  published : s'.published = s.published
  ticket : s'.engine.ticket = ⟨s.engine.session, s.engine.generation + 1⟩

theorem Broken.not_shown {run : Nat} {result : Result} {fault : DiagnosticFault} {s s' : Server}
    (h : Broken run result fault s s') (job : Job) (result' : Result) (ds : List Diagnostic) :
    ¬ Shown run job result' ds s s' := by
  intro h'
  have heq := List.append_cancel_left (h.events.symm.trans h'.events)
  simp at heq

/-- A run has a result, and its process is tracked no more. -/
def finished (s : Server) (run : Nat) (result : Result) : Server :=
  { s with engine := ({ s.engine with tracked := none }.finish run (.finished result)).1 }

theorem accept_shown (s : Server) (run : Nat) (job : Job) {result : Result}
    {ds : List Diagnostic}
    (h : diagnose s.environment.directory job.path result.stderr = .ok ds) :
    Shown run job result ds s ((s.finished run result).accept job result) := by
  have hdiagnose : diagnose (s.finished run result).environment.directory job.path result.stderr =
      .ok ds := h
  simp only [accept, hdiagnose]
  refine ⟨?_, rfl⟩
  simp [finished, publish, note, Engine.note, Engine.finish, Engine.setStage]

theorem accept_broken (s : Server) (run : Nat) (job : Job) {result : Result}
    {fault : DiagnosticFault}
    (h : diagnose s.environment.directory job.path result.stderr = .error fault) :
    Broken run result fault s ((s.finished run result).accept job result) := by
  have hdiagnose : diagnose (s.finished run result).environment.directory job.path result.stderr =
      .error fault := h
  simp only [accept, hdiagnose, fail, Engine.reset_eq]
  -- the process of the run is tracked no more, so the reset kills nothing
  refine ⟨?_, rfl, rfl⟩
  simp [finished, note, Engine.note, Engine.finish, Engine.setStage, Engine.lastKill]

section Ends

variable {s : Server} {run : Nat} {rest : List Nat}

/-- The run at the head of the queue ends: what that does, and what happens. -/
theorem step_ends (hq : s.engine.queue = run :: rest) {outcome : Outcome}
    (ho : (s.engine.resume run).2 = some outcome) :
    ∃ job, s.engine.job? run = some job ∧
      (s.step .resume).1 = { s.withQueue rest with
        engine := ((s.withQueue rest).engine.resume run).1 }.report job outcome ∧
      (s.step .resume).2 = ((s.withQueue rest).engine.moments run).map .compile ++
        (s.withQueue rest).reported run job outcome := by
  have ho' : ((s.withQueue rest).engine.resume run).2 = some outcome :=
    (s.outcome_withQueue rest run).trans ho
  have hstep : s.step .resume =
      ((s.withQueue rest).resume run, (s.withQueue rest).resumed run) := by
    simp only [step, hq]
  rw [hstep]
  cases hr : s.engine.runs[run]? with
  | none => simp [Engine.resume, hr] at ho
  | some r =>
    refine ⟨r.job, by simp [Engine.job?, hr], ?_⟩
    have hr' : (s.withQueue rest).engine.runs[run]? = some r := hr
    simp only [resume, resumed, hr', ho', Option.toList_some, List.flatMap_singleton, and_self]

/-- The run at the head of the queue ends with a result, which is accepted. -/
theorem step_accepts (hq : s.engine.queue = run :: rest) {result : Result}
    (ho : (s.engine.resume run).2 = some (.finished result)) {job : Job}
    (hjob : s.engine.job? run = some job) :
    (s.step .resume).1 = ((s.withQueue rest).finished run result).accept job result := by
  have ho' : ((s.withQueue rest).engine.resume run).2 = some (.finished result) :=
    (s.outcome_withQueue rest run).trans ho
  obtain ⟨job', hjob', hstep, -⟩ := step_ends hq ho
  rw [hjob] at hjob'
  cases hjob'
  rw [hstep, ((s.withQueue rest).engine.resume_turn run).finished_eq ho']
  rfl

theorem step_shown (hq : s.engine.queue = run :: rest) {result : Result}
    (ho : (s.engine.resume run).2 = some (.finished result)) {job : Job}
    (hjob : s.engine.job? run = some job) {ds : List Diagnostic}
    (h : diagnose s.environment.directory job.path result.stderr = .ok ds) :
    Shown run job result ds s (s.step .resume).1 := by
  have hshown := (s.withQueue rest).accept_shown run job h
  rw [← step_accepts hq ho hjob] at hshown
  exact ⟨hshown.events, hshown.ticket⟩

theorem step_broken (hq : s.engine.queue = run :: rest) {result : Result}
    (ho : (s.engine.resume run).2 = some (.finished result)) {job : Job}
    (hjob : s.engine.job? run = some job) {fault : DiagnosticFault}
    (h : diagnose s.environment.directory job.path result.stderr = .error fault) :
    Broken run result fault s (s.step .resume).1 := by
  have hbroken := (s.withQueue rest).accept_broken run job h
  rw [← step_accepts hq ho hjob] at hbroken
  exact ⟨hbroken.events, hbroken.published, hbroken.ticket⟩

/-- **The end of a run with a result.** Its diagnostics are sent if no line is to blame, and
otherwise a line breaks them all. -/
theorem finished_end (hq : s.engine.queue = run :: rest) {result : Result}
    (ho : (s.engine.resume run).2 = some (.finished result)) {job : Job}
    (hjob : s.engine.job? run = some job) :
    (∀ line ∈ lines result.stderr.toList, Harmless s.environment.directory job.path line) ∧
        Shown run job result ((lines result.stderr.toList).filterMap
          (lineDiagnostic? s.environment.directory job.path)) s (s.step .resume).1 ∨
      ∃ line ∈ lines result.stderr.toList, ∃ fault,
        Blamed s.environment.directory job.path line fault ∧
          Broken run result fault s (s.step .resume).1 := by
  rcases diagnose_cases s.environment.directory job.path result.stderr with
    ⟨hall, hok⟩ | ⟨line, hline, fault, hb, herr⟩
  · exact .inl ⟨hall, step_shown hq ho hjob hok⟩
  · exact .inr ⟨line, hline, fault, hb, step_broken hq ho hjob herr⟩

/-- A run that reads in a step is the head of the queue. -/
theorem queue_of_mem_read {process : Nat} {code : Option Int} {output : Output}
    (h : .compile (.read run process code output) ∈ (s.step .resume).2) :
    ∃ rest, s.engine.queue = run :: rest ∧
      .read run process code output ∈ (s.withQueue rest).engine.moments run := by
  unfold step at h
  cases hq : s.engine.queue with
  | nil => simp [hq] at h
  | cons r rest =>
    simp only [hq] at h
    have hmoment : .read run process code output ∈ (s.withQueue rest).engine.moments r :=
      ((s.withQueue rest).resume_ran r).mem_moments h (by simp)
    have hr := ((s.withQueue rest).engine.resume_turn r).run?_eq _ hmoment
    simp only [Moment.run?, Option.some.injEq] at hr
    subst hr
    exact ⟨rest, rfl, hmoment⟩

end Ends

theorem traced_of_play {environment : Environment} {steps : List Step} {s : Server}
    {log : List Happening} (hplay : (start environment).play steps = (s, log)) :
    Traced s.engine (compileLog log) := by
  have := traced_play (traced_start environment) steps
  rwa [hplay, List.nil_append] at this

/-- **The diagnostics of the newest run are sent exactly if no line of its output is to
blame.** Then they are those of all lines; otherwise none is sent, the client is told about
the fault of one of the lines, and every run is given up. -/
theorem newest_end_shown_iff (environment : Environment) (steps : List Step) {s : Server}
    {log : List Happening} (hplay : (start environment).play steps = (s, log)) {run process : Nat}
    {code : Option Int} {output : Output}
    (hread : .compile (.read run process code output) ∈ (s.step .resume).2) {ticket : Ticket}
    (hnew : newest (compileLog log) = some (run, ticket, process)) :
    let s' := (s.step .resume).1
    let result := output.result code ticket.generation
    let ls := lines result.stderr.toList
    ∃ job, s.engine.job? run = some job ∧
      (Shown run job result (ls.filterMap (lineDiagnostic? s.environment.directory job.path)) s s' ↔
        ∀ line ∈ ls, Harmless s.environment.directory job.path line) ∧
      ((∃ line ∈ ls, ¬ Harmless s.environment.directory job.path line) →
        ∃ line ∈ ls, ∃ fault, Blamed s.environment.directory job.path line fault ∧
          Broken run result fault s s') := by
  intro s' result ls
  obtain ⟨rest, hq, hmoment⟩ := queue_of_mem_read hread
  have h : Traced (s.withQueue rest).engine (compileLog log) :=
    (traced_of_play hplay).congr rfl rfl rfl rfl rfl
  have hends : ((s.withQueue rest).engine.resume run).2 = some (.finished result) :=
    h.finishes ((s.withQueue rest).engine.resume_turn run) hmoment hnew
  have ho : (s.engine.resume run).2 = some (.finished result) :=
    (s.outcome_withQueue rest run).symm.trans hends
  obtain ⟨job, hjob, -⟩ := step_ends hq ho
  rcases finished_end hq ho hjob with ⟨hall, hshown⟩ | hbroken
  · refine ⟨job, hjob, iff_of_true hshown hall, ?_⟩
    rintro ⟨line, hline, hharm⟩
    exact absurd (hall line hline) hharm
  · obtain ⟨line, hline, fault, hb, hx⟩ := hbroken
    exact ⟨job, hjob, iff_of_false (hx.not_shown _ _ _) fun hall => hall line hline fault hb,
      fun _ => ⟨line, hline, fault, hb, hx⟩⟩

/-- What a process writes. -/
def written (stdout stderr : String) : Output :=
  ⟨stdout.toUTF8.data.toList, stderr.toUTF8.data.toList⟩

/-- A document is opened, its compiler is spawned, and it exits with an output. -/
def exitsWith (output : Output) : List Step :=
  [.request (.opened "file:///a"), .resume, .request (.answered (.spawned 0)), .resume,
    .request (.answered (.exited 0 (some 0) output))]

/-- A line beyond the last is harmless in another document, and so is a line before the
first. -/
theorem finding_shown_beside_harmless :
    let output := written ""
      "/b:2147483649:3:1:error:far\nrenc: failed\n/a:0:3:1:error:early\n/a:2:3:1: error: bad\n"
    let x := (start { directory := "/work" }).play (exitsWith output)
    .compile (.read 0 0 (some 0) output) ∈ (x.1.step .resume).2 ∧
      newest (compileLog x.2) = some (0, ⟨0, 1⟩, 0) ∧
      Shown 0 ⟨"file:///a", "/a"⟩ (output.result (some 0) 1)
        [⟨⟨⟨1, 1⟩, ⟨1, 2⟩⟩, .error, "renc", "bad"⟩] x.1 (x.1.step .resume).1 := by
  intro output x
  have hread : .compile (.read 0 0 (some 0) output) ∈ (x.1.step .resume).2 :=
    List.mem_cons_self
  have hnew : newest (compileLog x.2) = some (0, ⟨0, 1⟩, 0) := rfl
  have hplay : (start { directory := "/work" }).play (exitsWith output) = (x.1, x.2) := rfl
  obtain ⟨job, hjob, hiff, -⟩ := newest_end_shown_iff _ _ hplay hread hnew
  have hown : x.1.engine.job? 0 = some ⟨"file:///a", "/a"⟩ := rfl
  rw [hown] at hjob
  cases hjob
  have hok : diagnose "/work" "/a" (output.result (some 0) 1).stderr =
      .ok [⟨⟨⟨1, 1⟩, ⟨1, 2⟩⟩, .error, "renc", "bad"⟩] := by decide +kernel
  obtain ⟨hall, hds⟩ := diagnose_eq_ok_iff.mp hok
  refine ⟨hread, hnew, ?_⟩
  rw [hds]
  exact hiff.mpr hall

/-- A line beyond the last takes the finding of the next line with it. -/
theorem finding_lost_beside_far_line :
    let output := written "" "/a:2147483649:3:1:error:far\n/a:2:3:1:error:kept\n"
    let x := (start { directory := "/work" }).play (exitsWith output)
    .compile (.read 0 0 (some 0) output) ∈ (x.1.step .resume).2 ∧
      newest (compileLog x.2) = some (0, ⟨0, 1⟩, 0) ∧
      (lines (output.result (some 0) 1).stderr.toList).filterMap (lineDiagnostic? "/work" "/a") =
        [⟨⟨⟨1, 1⟩, ⟨1, 2⟩⟩, .error, "renc", "kept"⟩] ∧
      Broken 0 (output.result (some 0) 1) (.outOfRange ⟨.line, 2147483648⟩) x.1
        (x.1.step .resume).1 ∧
      ∀ ds, ¬ Shown 0 ⟨"file:///a", "/a"⟩ (output.result (some 0) 1) ds x.1
        (x.1.step .resume).1 := by
  intro output x
  have hqueue : x.1.engine.queue = [0] := rfl
  have hends : (x.1.engine.resume 0).2 = some (.finished (output.result (some 0) 1)) := rfl
  have hown : x.1.engine.job? 0 = some ⟨"file:///a", "/a"⟩ := rfl
  have hfault : diagnose "/work" "/a" (output.result (some 0) 1).stderr =
      .error (.outOfRange ⟨.line, 2147483648⟩) := by decide +kernel
  have hkept : (lines (output.result (some 0) 1).stderr.toList).filterMap
      (lineDiagnostic? "/work" "/a") = [⟨⟨⟨1, 1⟩, ⟨1, 2⟩⟩, .error, "renc", "kept"⟩] := by
    decide +kernel
  have hbroken := step_broken hqueue hends hown hfault
  exact ⟨List.mem_cons_self, rfl, hkept, hbroken, hbroken.not_shown _ _⟩

end Server
end RenServer
