/- # One compiler at a time

When no run can go on, at most one spawned process is neither over nor killed; it is
the tracked one, and its run began last. No process is killed twice, and the run of a
killed process is superseded.

What is known about an engine, its log and its processes is kept by every operation of
the server and by every answer of the system, so it holds after any steps
(`Server.flight_play`).

Key definitions: `Flight`, `Server.Over`, `Server.InFlight`.
Key theorems: `Flight.operated`, `Server.flight_play`, `Server.single_flight`.
-/
import Mathlib.Data.List.Induction
import RenServer.Proofs.Compile.Processes
import RenServer.Proofs.Server.Operations

namespace RenServer
namespace Compile

/-! ### What operations keep -/

/-- What is known about an engine, its log and its processes. -/
structure Flight (past : Nat → Prop) (e : Engine) (log : List Moment) : Prop where
  traced : Traced e log
  awake : Awake e
  killed : Killed e log
  overseen : Overseen past e

namespace Flight

variable {past : Nat → Prop} {e e' : Engine} {log ms : List Moment}

theorem start (compiler : Value) : Flight past { compiler } [] where
  traced := Traced.start compiler
  awake run hr := by simp [Engine.ready, Engine.stage?] at hr
  killed := by constructor <;> simp [Engine.kills]
  overseen := by constructor <;> simp [Engine.isOver]

theorem reset (h : Flight past e log) : Flight past e.reset (log ++ [.reset]) := by
  have hr : e.reset.queue = e.queue ∧ ∀ run, e.reset.ready run = e.ready run := by
    rw [Engine.reset_eq]
    exact ⟨rfl, fun _ => rfl⟩
  refine ⟨h.traced.reset, fun run hx => ?_, h.killed.reset h.traced, h.overseen.reset⟩
  rw [hr.2] at hx
  exact hr.1 ▸ h.awake run hx

theorem operation (h : Flight past e log) (operation : Operation e e' ms) :
    Flight past e' (log ++ ms) := by
  cases operation with
  | choose =>
    rw [List.append_nil]
    exact ⟨h.traced.congr rfl rfl rfl rfl rfl, h.awake, h.killed.congr rfl rfl rfl rfl,
      h.overseen.congr rfl rfl rfl rfl⟩
  | submit job =>
    rw [List.append_nil]
    exact ⟨h.traced.submit job, h.awake.submit job, h.killed.submit job, h.overseen.submit job⟩
  | note event ho =>
    have hk : event.kill? = none := by cases event <;> simp [Event.isOutward, Event.kill?] at ho ⊢
    have he : event.ended? = none := by cases event <;> simp [Event.isOutward, Event.ended?] at ho ⊢
    have hkills := e.kills_note hk
    rw [List.append_nil]
    exact ⟨h.traced.congr rfl rfl rfl rfl (by simp [Engine.note, he]), h.awake,
      h.killed.congr hkills rfl rfl rfl, h.overseen.congr hkills rfl rfl rfl⟩
  | reset => exact h.reset
  | renew compiler =>
    have h' := h.reset
    have hn : newest (log ++ [.reset]) = none := by simp [newest_append, Moment.pass]
    have ht : e.reset.tracked = none := by rw [Engine.reset_eq]
    exact ⟨h'.traced.renew hn compiler, h'.awake, h'.killed.renew ht compiler,
      h'.overseen.renew ht compiler⟩
  | resume run rest hq turn =>
    -- the run that leaves the queue is the one that goes on
    have ht : Traced { e with queue := rest } log := h.traced.congr rfl rfl rfl rfl rfl
    have hk : Killed { e with queue := rest } log := h.killed.congr rfl rfl rfl rfl
    have ho : Overseen past { e with queue := rest } := h.overseen.congr rfl rfl rfl rfl
    refine ⟨ht.turn turn, Awake.turn ht.linked (fun r hr => ?_) turn, hk.turn ht turn,
      ho.turn ht.linked turn⟩
    have hmem := h.awake r hr
    rwa [hq] at hmem

/-- **What is known stays known in all operations.** -/
theorem operated (h : Flight past e log) (operated : Operated e e' ms) :
    Flight past e' (log ++ ms) := by
  induction operated with
  | nil => simpa using h
  | snoc _ operation ih =>
    rw [← List.append_assoc]
    exact ih.operation operation

/-- An answer comes, after which more processes may be over. -/
theorem answer (h : Flight past e log) {past' : Nat → Prop} (hover : ∀ {p}, past p → past' p)
    (answer : Answer) (hknown : ∀ {p}, (e.answer answer).isOver p = true → past' p) :
    Flight past' (e.answer answer) log := by
  have answered := e.answer_answered answer
  exact ⟨h.traced.answered answered, h.awake.answered h.traced.linked answered,
    h.killed.answered answered, h.overseen.answered hover answered hknown⟩

end Flight
end Compile

open Compile

namespace Server

/-! ### Processes in flight -/

/-- A process is known to have ended at some time in the course of steps. -/
def Over (s : Server) (steps : List Step) (process : Nat) : Prop :=
  ∃ earlier later, steps = earlier ++ later ∧ (s.play earlier).1.engine.isOver process = true

theorem Over.snoc {s : Server} {steps : List Step} {process : Nat} (h : s.Over steps process)
    (step : Step) : s.Over (steps ++ [step]) process := by
  obtain ⟨earlier, later, rfl, hover⟩ := h
  exact ⟨earlier, later ++ [step], List.append_assoc .., hover⟩

theorem over_of_isOver {s : Server} {steps : List Step} {process : Nat}
    (h : (s.play steps).1.engine.isOver process = true) : s.Over steps process :=
  ⟨steps, [], (List.append_nil _).symm, h⟩

/-- What is known about the engine, its log and its processes holds after any steps. -/
theorem flight_play (environment : Environment) (steps : List Step) :
    Flight ((start environment).Over steps) ((start environment).play steps).1.engine
      (compileLog ((start environment).play steps).2) := by
  induction steps using List.reverseRecOn with
  | nil => exact Flight.start (environmentCompiler environment)
  | append_singleton steps step ih =>
    have hover : ∀ {p}, (start environment).Over steps p →
        (start environment).Over (steps ++ [step]) p := fun h => h.snoc step
    have hknown : ∀ {p}, ((start environment).play (steps ++ [step])).1.engine.isOver p = true →
        (start environment).Over (steps ++ [step]) p := over_of_isOver
    rw [play_append] at hknown ⊢
    simp only [play, List.append_nil] at hknown ⊢
    rw [compileLog_append]
    rcases ((start environment).play steps).1.step_operated step with ⟨answer, he, hlog⟩ | hoperated
    · rw [he] at hknown ⊢
      rw [hlog, List.append_nil]
      exact ih.answer hover answer hknown
    · have h := ih.operated hoperated
      exact ⟨h.traced, h.awake, h.killed, h.overseen.mono hover⟩

/-- A process was spawned, is not known to have ended, and was not killed. -/
structure InFlight (environment : Environment) (steps : List Step) (process : Nat) : Prop where
  spawned : ∃ q, ((start environment).play steps).1.engine.processes[process]? = some q ∧
    q.spawn = .done
  alive : ¬ (start environment).Over steps process
  spared : .kill process ∉ ((start environment).play steps).1.engine.journal

theorem mem_kills {e : Engine} {process : Nat} : process ∈ e.kills ↔ .kill process ∈ e.journal := by
  unfold Engine.kills
  rw [List.mem_filterMap]
  constructor
  · rintro ⟨event, hm, hk⟩
    cases event with
    | kill => cases hk; exact hm
    | _ => simp [Event.kill?] at hk
  · exact fun hm => ⟨_, hm, rfl⟩

/-- **One compiler at a time.** After any steps:

* when the queue is empty, no run can go on;
* when no run can go on, at most one process is in flight. It is the tracked one, and
  its run is the last that began, with no reset since;
* no process was killed twice;
* the run of a killed process is superseded. This holds at the end of every step, so of
  the step in which the process was killed. -/
theorem single_flight (environment : Environment) (steps : List Step) :
    let s := ((start environment).play steps).1
    let log := compileLog ((start environment).play steps).2
    (s.engine.queue = [] → ∀ run, s.engine.ready run = false) ∧
    ((∀ run, s.engine.ready run = false) →
      (∀ p p', InFlight environment steps p → InFlight environment steps p' → p = p') ∧
      ∀ p, InFlight environment steps p → s.engine.tracked = some p ∧
        ∃ before run ticket since, log = before ++ .began run ticket p :: since ∧ Quiet since) ∧
    s.engine.kills.Nodup ∧
    ∀ p, .kill p ∈ s.engine.journal → Superseded log p := by
  intro s log
  have h : Flight ((start environment).Over steps) s.engine log := flight_play environment steps
  have tracked : (∀ run, s.engine.ready run = false) → ∀ p, InFlight environment steps p →
      s.engine.tracked = some p := by
    intro hidle p hp
    obtain ⟨q, hq, hd⟩ := hp.spawned
    rcases h.overseen.done hq hd with hover | hkill | ht | ⟨run, ticket, hr⟩
    · exact absurd hover hp.alive
    · exact absurd (mem_kills.mp hkill) hp.spared
    · exact ht
    · -- the run that awaits the spawn could go on
      have hready : s.engine.ready run = true :=
        s.engine.ready_iff.mpr (.inr (.inl ⟨ticket, p, q, hr, hq, by simp [hd]⟩))
      rw [hidle run] at hready
      cases hready
  refine ⟨fun hq run => ?_, fun hidle => ⟨fun p p' hp hp' => ?_, fun p hp => ⟨tracked hidle p hp, ?_⟩⟩,
    h.killed.once, fun p hp => h.killed.late (mem_kills.mpr hp)⟩
  · cases hr : s.engine.ready run with
    | false => rfl
    | true =>
      have hmem := h.awake run hr
      rw [hq] at hmem
      cases hmem
  · have heq := (tracked hidle p hp).symm.trans (tracked hidle p' hp')
    cases heq
    rfl
  · obtain ⟨run, hr⟩ := h.traced.linked.tracked.mp (tracked hidle p hp)
    obtain ⟨before, since, hlog, hquiet⟩ := newest_eq_some_iff.mp
      ((h.traced.holder (s.engine.turn?_eq_some.mpr (.inr hr))).mp rfl)
    exact ⟨before, run, _, since, hlog, hquiet⟩

end Server
end RenServer
