/- # What an analysis without diagnostics does to the snapshot

The snapshot after any steps is what their log makes of the one before, one happening after
the other (`Snapshot.replay`, `Server.snapshot_play`): requests move it by the line edits of
its own document, an accepted result replaces it, and the end of a session empties it. Of
what a run does, only the acceptance of its result counts. So a run that is not accepted
could be taken out of the log (`replay_others`).

A run that ends without diagnostics of its own spares the snapshot in this sense exactly if
it was not accepted, or if its report happens to be the snapshot anyway. A run that was
accepted and has a fault has already replaced the snapshot when the fault is found.

Key definitions: `Snapshot.replay`, `others`.
Key theorems: `Server.snapshot_play`, `replay_others`,
`Server.unshown_spares_snapshot_iff`.
-/
import RenServer.Proofs.Server.Endings

namespace RenServer

open Text Compile

/-- What a happening makes of a snapshot. -/
def Snapshot.replay (snapshot : Snapshot) : Happening → Snapshot
  | .received request =>
    match snapshot.path with
    | none => snapshot
    | some path => (request.edits path).foldl Snapshot.shift snapshot
  | .compile _ => snapshot
  | .accepted _ job result => .ofReport (.read result.stdout) (some job.path)
  | .cleared => .empty

/-- The run to which a happening belongs. -/
def Happening.run? : Happening → Option Nat
  | .compile moment => moment.run?
  | .accepted run _ _ => some run
  | _ => none

/-- A log without what belongs to a run. -/
def others (run : Nat) (log : List Happening) : List Happening := log.filter (·.run? ≠ some run)

theorem others_append (run : Nat) (log more : List Happening) :
    others run (log ++ more) = others run log ++ others run more := List.filter_append ..

/-! ### Replaying a log -/

theorem Snapshot.replay_received_of_still {snapshot : Snapshot} {request : Request}
    (h : ∀ path, snapshot.path = some path → request.edits path = []) :
    snapshot.replay (.received request) = snapshot := by
  unfold replay
  cases hp : snapshot.path with
  | none => rfl
  | some path =>
    simp only [h path hp, List.foldl_nil]

theorem foldl_replay_compile (moments : List Moment) (snapshot : Snapshot) :
    (moments.map Happening.compile).foldl Snapshot.replay snapshot = snapshot := by
  induction moments with
  | nil => rfl
  | cons m moments ih => exact ih

/-- A run that was not accepted may as well not have been. -/
theorem replay_others {run : Nat} {log : List Happening}
    (h : ∀ job result, .accepted run job result ∉ log) (snapshot : Snapshot) :
    (others run log).foldl Snapshot.replay snapshot = log.foldl Snapshot.replay snapshot := by
  induction log generalizing snapshot with
  | nil => rfl
  | cons x log ih =>
    have hrest : ∀ job result, .accepted run job result ∉ log := fun job result hm =>
      h job result (List.mem_cons_of_mem x hm)
    by_cases hx : x.run? = some run
    · -- what is left out of the log is a moment of the run
      have hstill : snapshot.replay x = snapshot := by
        cases x with
        | compile => rfl
        | accepted r job result =>
          simp only [Happening.run?, Option.some.injEq] at hx
          subst hx
          exact absurd List.mem_cons_self (h job result)
        | _ => cases hx
      have hdrop : others run (x :: log) = others run log := by simp [others, hx]
      rw [hdrop, List.foldl_cons, hstill]
      exact ih hrest snapshot
    · have hkeep : others run (x :: log) = x :: others run log := by simp [others, hx]
      rw [hkeep, List.foldl_cons, List.foldl_cons]
      exact ih hrest _

namespace Server

theorem snapshot_handled {s s' : Server} {request : Request} {more : List Happening}
    (handled : Handled s request s' more) :
    s'.snapshot = more.foldl Snapshot.replay s.snapshot := by
  cases handled with
  | tuned hr he =>
    obtain ⟨_, _, _, _, _, rfl⟩ := hr
    exact (Snapshot.replay_received_of_still he).symm
  | submitted job he => exact (Snapshot.replay_received_of_still fun path _ => he path).symm
  | answered => exact (Snapshot.replay_received_of_still fun _ _ => rfl).symm
  | edited path hp => simp only [List.foldl_cons, List.foldl_nil, Snapshot.replay, hp]
  | closed => exact (Snapshot.replay_received_of_still fun _ _ => rfl).symm
  | cleared hr =>
    obtain ⟨_, _, _, _, _, rfl⟩ := hr
    rfl
  | renewed compiler hr =>
    obtain ⟨_, _, _, _, _, rfl⟩ := hr
    rfl

theorem snapshot_ran {s s' : Server} {run : Nat} {more : List Happening} (ran : Ran s run s' more) :
    s'.snapshot = more.foldl Snapshot.replay s.snapshot := by
  cases ran with
  | unknown => rfl
  | waits => exact (foldl_replay_compile _ _).symm
  | ends job stage outcome =>
    rw [List.foldl_append, foldl_replay_compile]
    obtain ⟨last, hlast, hcases⟩ := s.reported_cases run job outcome
    have hstill : ∀ snapshot : Snapshot, last.foldl Snapshot.replay snapshot = snapshot := by
      rcases hlast with rfl | rfl <;> exact fun _ => rfl
    rcases hcases with ⟨result, rfl, heq⟩ | ⟨hno, heq⟩
    · rw [heq, List.foldl_cons, hstill]
      exact accept_snapshot _ job result
    · rw [heq, hstill]
      exact (report_frame _ job outcome).2.2 hno

theorem snapshot_step (s : Server) (step : Step) :
    (s.step step).1.snapshot = (s.step step).2.foldl Snapshot.replay s.snapshot := by
  cases step with
  | request request => exact snapshot_handled (s.handle_handled request)
  | resume =>
    unfold Server.step
    cases s.engine.queue with
    | nil => rfl
    | cons run rest => exact snapshot_ran (s := s.withQueue rest) (resume_ran _ run)

/-- **The snapshot is what the log makes of it.** -/
theorem snapshot_play (s : Server) (steps : List Step) :
    (s.play steps).1.snapshot = (s.play steps).2.foldl Snapshot.replay s.snapshot := by
  induction steps generalizing s with
  | nil => rfl
  | cons step steps ih =>
    simp only [play, List.foldl_append]
    rw [ih, snapshot_step]

/-! ### The end of a run -/

section Spared

variable {environment : Environment} {steps : List Step} {s : Server} {log : List Happening}
  {run : Nat} {rest : List Nat} {outcome : Outcome}

/-- A run that ends was not accepted before. -/
theorem accepted_notMem_of_ends (hplay : (start environment).play steps = (s, log))
    (ho : (s.engine.resume run).2 = some outcome) (job : Job) (result : Result) :
    .accepted run job result ∉ log := by
  intro hm
  have hplayed : .accepted run job result ∈ ((start environment).play steps).2 := by
    rw [hplay]
    exact hm
  have hended := (accepted_play_iff (start environment) steps).mp ⟨job, hplayed⟩
  rw [hplay] at hended
  exact (traced_of_play hplay).ended_notMem (s.engine.resume_turn run) ho _
    (mem_compileLog.mpr hended)

/-- What a run does when it ends belongs to it, but for a reset. -/
theorem replay_others_of_end (run : Nat) (s : Server) (job : Job) (outcome : Outcome)
    (snapshot : Snapshot) :
    (others run ((s.engine.moments run).map .compile ++ s.reported run job outcome)).foldl
      Snapshot.replay snapshot = snapshot := by
  have hmoments : others run ((s.engine.moments run).map .compile) = [] := by
    refine List.filter_eq_nil_iff.mpr fun x hx => ?_
    obtain ⟨m, hm, rfl⟩ := List.mem_map.mp hx
    simp [Happening.run?, (s.engine.resume_turn run).run?_eq m hm]
  obtain ⟨last, hlast, hcases⟩ := s.reported_cases run job outcome
  have hreported : others run (s.reported run job outcome) = others run last := by
    rcases hcases with ⟨result, -, heq⟩ | ⟨-, heq⟩
    · rw [heq]
      simp [others, Happening.run?]
    · rw [heq]
  rw [others_append, hmoments, hreported, List.nil_append]
  rcases hlast with rfl | rfl <;> rfl

/-- Without the run that ends, the log makes the snapshot from before its end. -/
theorem replay_others_play (hplay : (start environment).play steps = (s, log))
    (hq : s.engine.queue = run :: rest) (ho : (s.engine.resume run).2 = some outcome) :
    (others run (log ++ (s.step .resume).2)).foldl Snapshot.replay .empty = s.snapshot := by
  have hlog : log.foldl Snapshot.replay .empty = s.snapshot := by
    have h := snapshot_play (start environment) steps
    rw [hplay] at h
    exact h.symm
  obtain ⟨job, -, -, hmore⟩ := step_ends hq ho
  rw [others_append, List.foldl_append, replay_others (accepted_notMem_of_ends hplay ho), hlog,
    hmore]
  exact replay_others_of_end run (s.withQueue rest) job outcome s.snapshot

/-- A run that ends without a result leaves the snapshot alone. -/
theorem step_snapshot_of_unfinished (hq : s.engine.queue = run :: rest)
    (ho : (s.engine.resume run).2 = some outcome) (hno : ∀ result, outcome ≠ .finished result) :
    (s.step .resume).1.snapshot = s.snapshot := by
  obtain ⟨job, -, hstep, -⟩ := step_ends hq ho
  rw [hstep]
  exact (report_frame _ job outcome).2.2 hno

end Spared

/-- **An analysis that sends no diagnostics spares the snapshot exactly if its run was not
accepted,** chance apart. The snapshot is then what the log without the run makes of it. If
the run was accepted, its report is the snapshot although its findings have a fault, and the
client shows what it showed before. -/
theorem unshown_spares_snapshot_iff (environment : Environment) (steps : List Step) {s : Server}
    {log : List Happening} (hplay : (start environment).play steps = (s, log)) {run : Nat}
    {rest : List Nat} (hq : s.engine.queue = run :: rest) {outcome : Outcome}
    (ho : (s.engine.resume run).2 = some outcome)
    (hnone : ∀ job result ds, ¬ Shown run job result ds s (s.step .resume).1) :
    let s' := (s.step .resume).1
    let spared := (others run (log ++ (s.step .resume).2)).foldl Snapshot.replay .empty
    ∃ job, s.engine.job? run = some job ∧
      (s'.snapshot = spared ↔ ∀ result, outcome = .finished result →
        spared = .ofReport (.read result.stdout) (some job.path)) ∧
      ∀ result, outcome = .finished result →
        s'.snapshot = .ofReport (.read result.stdout) (some job.path) ∧
        ∃ line ∈ lines result.stderr.toList, ∃ fault,
          Blamed s.environment.directory job.path line fault ∧ Broken run result fault s s' := by
  intro s' spared
  have hspared : spared = s.snapshot := replay_others_play hplay hq ho
  obtain ⟨job, hjob, -⟩ := step_ends hq ho
  rw [hspared]
  by_cases hfinished : ∃ result, outcome = .finished result
  · obtain ⟨result, rfl⟩ := hfinished
    have hreport : s'.snapshot = .ofReport (.read result.stdout) (some job.path) := by
      simp only [s', step_accepts hq ho hjob]
      exact accept_snapshot _ job result
    refine ⟨job, hjob, ⟨?_, fun h => hreport.trans (h result rfl).symm⟩, ?_⟩
    · rintro hsame _ ⟨⟩
      exact hsame.symm.trans hreport
    · rintro _ ⟨⟩
      refine ⟨hreport, ?_⟩
      rcases finished_end hq ho hjob with ⟨-, hshown⟩ | hbroken
      · exact absurd hshown (hnone job result _)
      · exact hbroken
  · have hno : ∀ result, outcome ≠ .finished result := fun result heq => hfinished ⟨result, heq⟩
    exact ⟨job, hjob, iff_of_true (step_snapshot_of_unfinished hq ho hno)
      fun result heq => absurd heq (hno result), fun result heq => absurd heq (hno result)⟩

/-- A report is accepted, a line is added at the top of its document, and the compiler of the
next run cannot be spawned. -/
def failsAfterEdit : List Step :=
  exitsWith (written "TYPE::P: int\nVAR::x:1:0:2:0:P\n" "") ++
    [.resume, .request (.changed "file:///a" [⟨some ⟨⟨0, 0⟩, ⟨0, 0⟩⟩, "\n"⟩]),
      .request (.saved "file:///a"), .resume,
      .request (.answered (.spawnFailed 1 (.refused 2 "No such file or directory")))]

/-- The failed run leaves the edited snapshot as it is. -/
theorem failed_spawn_spares_snapshot :
    let x := (start { directory := "/work" }).play failsAfterEdit
    x.1.engine.queue = [1] ∧
      (x.1.engine.resume 1).2 =
        some (.notRun ⟨.str "renc", "/a"⟩ "No such file or directory") ∧
      (∀ job result ds, ¬ Shown 1 job result ds x.1 (x.1.step .resume).1) ∧
      (x.1.step .resume).1.snapshot =
        (others 1 (x.2 ++ (x.1.step .resume).2)).foldl Snapshot.replay .empty ∧
      (x.1.step .resume).1.snapshot = ⟨[⟨.typeDef, "P", "int"⟩],
        [⟨"x", "P", ⟨2, some 0, 3, some 0⟩⟩], true, some "/a"⟩ := by
  intro x
  have hqueue : x.1.engine.queue = [1] := rfl
  have hends : (x.1.engine.resume 1).2 =
      some (.notRun ⟨.str "renc", "/a"⟩ "No such file or directory") := rfl
  have hlast : (x.1.step .resume).1.engine.journal = x.1.engine.journal ++
      [.ended 1 (.notRun ⟨.str "renc", "/a"⟩ "No such file or directory"),
        .showMessage (notRunText ⟨.str "renc", "/a"⟩ "No such file or directory")] := rfl
  have hnone : ∀ job result ds, ¬ Shown 1 job result ds x.1 (x.1.step .resume).1 := by
    intro job result ds h
    have heq := List.append_cancel_left (hlast.symm.trans h.events)
    simp at heq
  have hplay : (start { directory := "/work" }).play failsAfterEdit = (x.1, x.2) := rfl
  obtain ⟨job, -, hiff, -⟩ := unshown_spares_snapshot_iff _ _ hplay hqueue hends hnone
  exact ⟨hqueue, hends, hnone, hiff.mpr (by rintro _ ⟨⟩), rfl⟩

/-- A run whose finding has a fault sends no diagnostics and replaces the snapshot all the
same. -/
theorem fault_replaces_snapshot :
    let output := written "TYPE::P: int\n" "/a:2147483649:3:1:error:far\n"
    let x := (start { directory := "/work" }).play (exitsWith output)
    x.1.engine.queue = [0] ∧ (x.1.engine.resume 0).2.isSome = true ∧
      (∀ job result ds, ¬ Shown 0 job result ds x.1 (x.1.step .resume).1) ∧
      (others 0 (x.2 ++ (x.1.step .resume).2)).foldl Snapshot.replay .empty = .empty ∧
      (x.1.step .resume).1.snapshot = ⟨[⟨.typeDef, "P", "int"⟩], [], false, some "/a"⟩ := by
  intro output x
  have hqueue : x.1.engine.queue = [0] := rfl
  have hends : (x.1.engine.resume 0).2 = some (.finished (output.result (some 0) 1)) := rfl
  have hown : x.1.engine.job? 0 = some ⟨"file:///a", "/a"⟩ := rfl
  have hfault : diagnose "/work" "/a" (output.result (some 0) 1).stderr =
      .error (.outOfRange ⟨.line, 2147483648⟩) := by decide +kernel
  have hplay : (start { directory := "/work" }).play (exitsWith output) = (x.1, x.2) := rfl
  have hreport : (x.1.step .resume).1.snapshot =
      .ofReport (.read (output.result (some 0) 1).stdout) (some "/a") := by
    rw [step_accepts hqueue hends hown]
    exact accept_snapshot _ _ _
  refine ⟨hqueue, rfl, (step_broken hqueue hends hown hfault).not_shown,
    replay_others_play hplay hqueue hends, ?_⟩
  rw [hreport]
  decide +kernel

end Server
end RenServer
