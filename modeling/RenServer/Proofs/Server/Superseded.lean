/- # The end of a superseded run

A run is superseded when, after it began, another run begins or the engine is
reset. When it ends after all, its process was spawned or not.

If it was, the end goes unnoticed: the run may kill its own process, and the
client, the snapshot, the ticket and the tracked process are as they were
(`Unnoticed`). If the spawn failed, nobody asks whether the run still counts, and
the failure is reported as that of the newest run would be: the client is told,
and either all diagnostics are taken back or every run under way is given up.

Key definitions: `LateEnd`, `Server.Unnoticed`.
Key theorems: `Compile.Traced.late_end`, `Server.superseded_end_unnoticed_iff`.
-/
import RenServer.Proofs.Server.Steps

namespace RenServer
namespace Compile

/-- The ways in which a superseded run ends. -/
inductive LateEnd (e : Engine) (run process : Nat) : Engine → Outcome → Prop where
  | failed (q : Process) (failure : SpawnFailure) (hq : e.processes[process]? = some q)
      (hs : q.spawn = .failed failure) :
    LateEnd e run process (e.finish run (failure.outcome q.command)).1 (failure.outcome q.command)
  | killed (q : Process) (hq : e.processes[process]? = some q) (hs : q.spawn = .done) :
    LateEnd e run process ((e.note (.kill process)).finish run .superseded).1 .superseded
  | dropped (q : Process) (hq : e.processes[process]? = some q) (hs : q.spawn = .done) :
    LateEnd e run process (e.finish run .superseded).1 .superseded

namespace Traced

variable {e : Engine} {before since : List Moment} {run : Nat} {ticket : Ticket} {process : Nat}

/-- A superseded run that is under way has lost the engine's ticket. -/
theorem outdated (h : Traced e (before ++ .began run ticket process :: since))
    (hsup : ¬ Quiet since) {t : Ticket} {p : Nat} (ht : e.turn? run = some (t, p)) :
    p = process ∧ t ≠ e.ticket := by
  have told := h.told run
  have lost : process = p → (∀ t' p', .began run t' p' ∉ story since run) →
      p = process ∧ t ≠ e.ticket := by
    intro hp honce
    refine ⟨hp.symm, fun heq => ?_⟩
    have hn := (h.holder ht).mp heq
    have honce' : ∀ t' p', .began run t' p' ∉ since := fun t' p' hm =>
      honce t' p' (mem_story.mpr ⟨hm, rfl⟩)
    exact newest_ne_of_superseded hsup honce' t p hn
  rcases e.turn?_eq_some.mp ht with hs | hs
  · rw [hs] at told
    obtain ⟨-, hp, hsince⟩ := story_since told (by simp)
    exact lost hp (by simp [hsince])
  · rw [hs] at told
    obtain ⟨-, hp, hsince⟩ := story_since told (by simp)
    exact lost hp (by simp [hsince])

/-- The process of a superseded run is not the tracked one. -/
theorem tracked_ne_of_outdated (h : Traced e (before ++ .began run ticket process :: since))
    (hsup : ¬ Quiet since) {t : Ticket} {p : Nat} (ht : e.turn? run = some (t, p)) :
    e.tracked ≠ some p := by
  intro htr
  obtain ⟨r, hr⟩ := h.linked.tracked.mp htr
  have hturn := e.turn?_eq_some.mpr (.inr hr)
  obtain ⟨q, hq, rfl⟩ := h.linked.process hturn
  obtain ⟨q', hq', hrun⟩ := h.linked.process ht
  rw [hq] at hq'
  cases hq'
  rw [hrun, ht] at hturn
  cases hturn
  exact (h.outdated hsup ht).2 rfl

/-- **A superseded run ends in no other way,** and its process is not the tracked
one. -/
theorem late_end (h : Traced e (before ++ .began run ticket process :: since))
    (hsup : ¬ Quiet since) {after : Engine × Option Outcome} {ms : List Moment}
    (turn : Turn e run after ms) {outcome : Outcome} (ho : after.2 = some outcome) :
    LateEnd e run process after.1 outcome ∧ e.tracked ≠ some process := by
  have spawning : ∀ {t p}, e.stage? run = some (.spawning t p) → p = process ∧ t ≠ e.ticket :=
    fun hs => h.outdated hsup (e.turn?_eq_some.mpr (.inl hs))
  have collecting : ∀ {t p}, e.stage? run = some (.collecting t p) → p = process ∧ t ≠ e.ticket :=
    fun hs => h.outdated hsup (e.turn?_eq_some.mpr (.inr hs))
  have untracked : ∀ {t p}, e.turn? run = some (t, p) → e.tracked ≠ some p :=
    fun hs => h.tracked_ne_of_outdated hsup hs
  cases turn with
  | idle => cases ho
  | begins => cases ho
  | tracks => cases ho
  | fails t p q failure hs hq hf =>
    cases ho
    obtain ⟨rfl, -⟩ := spawning hs
    exact ⟨.failed q failure hq hf, untracked (e.turn?_eq_some.mpr (.inl hs))⟩
  | outrun t p q hs hq hd =>
    cases ho
    obtain ⟨rfl, -⟩ := spawning hs
    exact ⟨.killed q hq hd, untracked (e.turn?_eq_some.mpr (.inl hs))⟩
  | readsAtOnce p q output hs => exact absurd rfl (spawning hs).2
  | reads p q output hs => exact absurd rfl (collecting hs).2
  | readsLate t p q output hs hq =>
    cases ho
    obtain ⟨rfl, -⟩ := collecting hs
    exact ⟨.dropped q hq (h.linked.spawned hs hq), untracked (e.turn?_eq_some.mpr (.inr hs))⟩

end Traced
end Compile

open Compile

namespace Server

/-- The end of a run goes unnoticed: at most the run's own process is killed, which
is not the tracked one. -/
structure Unnoticed (run process : Nat) (s s' : Server) : Prop where
  events : ∃ more, s'.engine.journal = s.engine.journal ++ more ∧
    ∀ event ∈ more, event = .kill process ∨ event = .ended run .superseded
  snapshot : s'.snapshot = s.snapshot
  published : s'.published = s.published
  ticket : s'.engine.ticket = s.engine.ticket
  tracked : s'.engine.tracked = s.engine.tracked
  other : s.engine.tracked ≠ some process

/-- The failure of a spawn is reported: the client is told, and then either all
diagnostics are taken back or every run under way is given up. -/
structure Noticed (failure : SpawnFailure) (s s' : Server) : Prop where
  events : ∃ more text, s'.engine.journal = s.engine.journal ++ more ++ [.showMessage text]
  snapshot : s'.snapshot = s.snapshot
  effect : match failure with
    | .unexpected _ => s'.published = s.published ∧ s'.engine.tracked = none ∧
        s'.engine.ticket = ⟨s.engine.session, s.engine.generation + 1⟩
    | _ => s'.published = [] ∧ s'.engine.tracked = s.engine.tracked ∧
        s'.engine.ticket = s.engine.ticket

theorem Noticed.not_unnoticed {failure : SpawnFailure} {run process : Nat} {s s' : Server}
    (h : Noticed failure s s') : ¬ Unnoticed run process s s' := by
  intro h'
  obtain ⟨more, text, heq⟩ := h.events
  obtain ⟨more', heq', hall⟩ := h'.events
  rw [heq, List.append_assoc] at heq'
  have hm : .showMessage text ∈ more' := by
    rw [← List.append_cancel_left heq']
    simp
  simpa using hall _ hm

/-- Every failure of a spawn is reported in the same way, whoever the run is. -/
theorem report_noticed (s : Server) (job : Job) (command : Command) (failure : SpawnFailure) :
    Noticed failure s (s.report job (failure.outcome command)) := by
  have notRun : ∀ reason, Noticed (.unavailable reason) s
      (s.clearAll.note (.showMessage (notRunText command reason))) := by
    intro reason
    rw [clearAll_eq]
    exact ⟨⟨_, _, rfl⟩, rfl, rfl, rfl, rfl⟩
  cases failure with
  | refused code reason =>
    have h := notRun (Engine.reasonOf code reason)
    exact ⟨h.events, h.snapshot, h.effect⟩
  | unavailable text => exact notRun text
  | unexpected text =>
    simp only [SpawnFailure.outcome, report, fail, Engine.reset_eq]
    exact ⟨⟨_, _, rfl⟩, rfl, rfl, rfl, rfl⟩

/-- **The end of a superseded run goes unnoticed exactly if its process was
spawned.** If the spawn failed, the failure is reported as if the run still
counted. -/
theorem superseded_end_unnoticed_iff (environment : Environment) (steps : List Step) {s : Server}
    {log : List Happening} (hplay : (start environment).play steps = (s, log)) {run : Nat}
    {rest : List Nat} (hq : s.engine.queue = run :: rest) {outcome : Outcome}
    (ho : (s.engine.resume run).2 = some outcome) {before since : List Moment} {ticket : Ticket}
    {process : Nat} (hlog : compileLog log = before ++ .began run ticket process :: since)
    (hsup : ¬ Quiet since) :
    (Unnoticed run process s (s.step .resume).1 ↔
      (s.engine.processes[process]?).map (·.spawn) = some .done) ∧
    ∀ failure, (s.engine.processes[process]?).map (·.spawn) = some (.failed failure) →
      Noticed failure s (s.step .resume).1 := by
  have h : Traced s.engine (compileLog log) := by
    have := traced_play (traced_start environment) steps
    rwa [hplay, List.nil_append] at this
  have hpop : Traced (s.withQueue rest).engine (before ++ .began run ticket process :: since) := by
    rw [← hlog]
    exact h.congr rfl rfl rfl rfl rfl
  have ho' : ((s.withQueue rest).engine.resume run).2 = some outcome :=
    (congrArg Prod.snd (s.engine.resume_queue rest run)).trans ho
  obtain ⟨hlate, hother⟩ := hpop.late_end hsup (Engine.resume_turn _ run) ho'
  obtain ⟨job, hstep⟩ := (resume_ran (s.withQueue rest) run).eq_report ho'
  have hnext : (s.step .resume).1 = (s.withQueue rest).resume run := by simp only [step, hq]
  rw [hnext, hstep]
  generalize ((s.withQueue rest).engine.resume run).1 = after at hlate ⊢
  cases hlate with
  | failed q failure hq hs =>
    have hq' : s.engine.processes[process]? = some q := hq
    -- the end itself is noted first, and changes nothing else
    have hended : ∀ {s'}, Noticed failure
        { s.withQueue rest with
          engine := ((s.withQueue rest).engine.finish run (failure.outcome q.command)).1 } s' →
        Noticed failure s s' := by
      intro s' hn
      obtain ⟨more, text, heq⟩ := hn.events
      refine ⟨⟨.ended run (failure.outcome q.command) :: more, text, heq.trans ?_⟩, hn.snapshot,
        hn.effect⟩
      simp [Engine.finish, Engine.note, Engine.setStage, withQueue]
    have hn := hended (report_noticed _ job q.command failure)
    refine ⟨iff_of_false hn.not_unnoticed (by simp [hq', hs]), fun failure' hf => ?_⟩
    simp only [hq', Option.map_some, hs, Option.some.injEq, Spawn.failed.injEq] at hf
    exact hf ▸ hn
  | killed q hq hs =>
    have hq' : s.engine.processes[process]? = some q := hq
    refine ⟨iff_of_true ⟨⟨[.kill process, .ended run .superseded], ?_, by simp⟩, rfl, rfl, rfl, rfl,
      hother⟩ (by simp [hq', hs]), fun failure hf => by simp [hq', hs] at hf⟩
    simp [report, Engine.finish, Engine.note, Engine.setStage, withQueue]
  | dropped q hq hs =>
    have hq' : s.engine.processes[process]? = some q := hq
    exact ⟨iff_of_true ⟨⟨[.ended run .superseded], rfl, by simp⟩, rfl, rfl, rfl, rfl, hother⟩
      (by simp [hq', hs]), fun failure hf => by simp [hq', hs] at hf⟩

/-- Two documents are opened, and both analyses begin. -/
def overlap : List Step :=
  [.request (.opened "file:///a"), .request (.opened "file:///b"), .resume, .resume]

/-- The older of two runs ends once its process is there, and kills it. -/
theorem late_spawn_unnoticed :
    let x := (start { directory := "/work" }).play (overlap ++ [.request (.answered (.spawned 0))])
    x.1.engine.queue = [0] ∧ (x.1.engine.resume 0).2 = some .superseded ∧
      compileLog x.2 = [] ++ .began 0 ⟨0, 1⟩ 0 :: [.began 1 ⟨0, 2⟩ 1] ∧
      ¬ Quiet [.began 1 ⟨0, 2⟩ 1] ∧ Unnoticed 0 0 x.1 (x.1.step .resume).1 := by
  intro x
  have hqueue : x.1.engine.queue = [0] := rfl
  have hends : (x.1.engine.resume 0).2 = some .superseded := rfl
  have hlog : compileLog x.2 = [] ++ .began 0 ⟨0, 1⟩ 0 :: [.began 1 ⟨0, 2⟩ 1] := rfl
  have hsup : ¬ Quiet [.began 1 ⟨0, 2⟩ 1] := by simp [Quiet, Moment.supersedes]
  have hspawn : (x.1.engine.processes[0]?).map (·.spawn) = some .done := rfl
  have hplay : (start { directory := "/work" }).play (overlap ++ [.request (.answered (.spawned 0))]) =
      (x.1, x.2) := rfl
  exact ⟨hqueue, hends, hlog, hsup,
    (superseded_end_unnoticed_iff _ _ hplay hqueue hends hlog hsup).1.mpr hspawn⟩

/-- The older of two runs cannot be spawned, and the client is told although the
newer run goes on. -/
theorem late_spawn_failure_noticed :
    let x := (start { directory := "/work" }).play
      (overlap ++ [.request (.answered (.spawnFailed 0 (.refused 2 "No such file or directory")))])
    x.1.engine.queue = [0] ∧ (x.1.engine.resume 0).2.isSome = true ∧
      compileLog x.2 = [] ++ .began 0 ⟨0, 1⟩ 0 :: [.began 1 ⟨0, 2⟩ 1] ∧
      ¬ Quiet [.began 1 ⟨0, 2⟩ 1] ∧ ¬ Unnoticed 0 0 x.1 (x.1.step .resume).1 := by
  intro x
  have hsup : ¬ Quiet [.began 1 ⟨0, 2⟩ 1] := by simp [Quiet, Moment.supersedes]
  have hlast : (x.1.step .resume).1.engine.journal =
      x.1.engine.journal ++
        [.ended 0 (.notRun ⟨.str "renc", "/a"⟩ "No such file or directory"),
          .showMessage (notRunText ⟨.str "renc", "/a"⟩ "No such file or directory")] := rfl
  refine ⟨rfl, rfl, rfl, hsup, fun h => ?_⟩
  obtain ⟨more, heq, hall⟩ := h.events
  have hmore := List.append_cancel_left (hlast.symm.trans heq)
  simpa using hall (.showMessage _)
    (by rw [← hmore]; exact List.mem_cons_of_mem _ List.mem_cons_self)

end Server
end RenServer
