/- # What a server does to its engine

Whatever a server does in a step, it does to its engine by a few operations, one after
another: it chooses a compiler, queues a run, notes an event for the client, resets
the engine, opens a session, or resumes the run at the head of the queue
(`Operation`). The answers of the operating system come on their own, one to a step
(`Server.step_operated`). So what every operation and every answer keeps holds of every
server. The journal is one such thing: it only grows (`Server.journal_prefix_step`).

Key definitions: `Event.isOutward`, `Operation`, `Operated`.
Key theorems: `Server.step_operated`, `Turn.journal_eq`, `Server.journal_prefix_step`.
-/
import RenServer.Proofs.Server.Steps

namespace RenServer
namespace Compile

/-! ### Operations on an engine -/

/-- Whether an event goes to the client. -/
def Event.isOutward : Event → Bool
  | .publish _ _ => true
  | .showMessage _ => true
  | _ => false

/-- What a server does to its engine, answers of the system apart, and the moments that
come to pass. -/
inductive Operation (e : Engine) : Engine → List Moment → Prop where
  | choose (compiler : Value) : Operation e { e with compiler } []
  | submit (job : Job) : Operation e (e.submit job) []
  | note (event : Event) (h : event.isOutward = true) : Operation e (e.note event) []
  | reset : Operation e e.reset [.reset]
  | renew (compiler : Value) : Operation e (e.reset.renew compiler) [.reset]
  | resume (run : Nat) (rest : List Nat) (hq : e.queue = run :: rest)
      {after : Engine × Option Outcome} {ms : List Moment}
      (turn : Turn { e with queue := rest } run after ms) : Operation e after.1 ms

/-- Operations one after another. -/
inductive Operated (e : Engine) : Engine → List Moment → Prop where
  | nil : Operated e e []
  | snoc {e' e'' : Engine} {ms ms' : List Moment} (h : Operated e e' ms)
      (operation : Operation e' e'' ms') : Operated e e'' (ms ++ ms')

theorem Operation.operated {e e' : Engine} {ms : List Moment} (operation : Operation e e' ms) :
    Operated e e' ms := .snoc .nil operation

theorem Operated.trans {e e' e'' : Engine} {ms ms' : List Moment} (h : Operated e e' ms)
    (h' : Operated e' e'' ms') : Operated e e'' (ms ++ ms') := by
  induction h' with
  | nil => simpa using h
  | snoc _ operation ih =>
    rw [← List.append_assoc]
    exact ih.snoc operation

/-! ### The journal grows -/

theorem Engine.lastKill_inward (e : Engine) : ∀ event ∈ e.lastKill, event.isOutward = false := by
  unfold Engine.lastKill
  split
  · simp
  · split <;> simp [Event.isOutward]

/-- A run that goes on tells the client nothing. -/
theorem Turn.journal_eq {e : Engine} {run : Nat} {after : Engine × Option Outcome}
    {ms : List Moment} (turn : Turn e run after ms) :
    ∃ events, after.1.journal = e.journal ++ events ∧
      ∀ event ∈ events, event.isOutward = false := by
  cases turn with
  | idle => exact ⟨[], by simp, by simp⟩
  | begins job =>
    refine ⟨e.lastKill ++ [.spawn e.processes.length (e.command job.path)], ?_, ?_⟩
    · rw [Engine.begin_eq, List.append_assoc]
    · intro event hm
      rcases List.mem_append.mp hm with hm | hm
      · exact e.lastKill_inward event hm
      · rw [List.mem_singleton.mp hm]
        rfl
  | tracks => exact ⟨[], by simp [Engine.setStage], by simp⟩
  | outrun ticket process =>
    refine ⟨[.kill process, .ended run .superseded], ?_, by simp [Event.isOutward]⟩
    simp [Engine.finish, Engine.note, Engine.setStage]
  | fails _ _ q failure =>
    exact ⟨[.ended run (failure.outcome q.command)], rfl, by simp [Event.isOutward]⟩
  | readsAtOnce _ q output =>
    exact ⟨[.ended run (.finished (output.result q.code e.generation))], rfl,
      by simp [Event.isOutward]⟩
  | reads _ q output =>
    exact ⟨[.ended run (.finished (output.result q.code e.generation))], rfl,
      by simp [Event.isOutward]⟩
  | readsLate => exact ⟨[.ended run .superseded], rfl, by simp [Event.isOutward]⟩

theorem Operation.journal_prefix {e e' : Engine} {ms : List Moment}
    (operation : Operation e e' ms) : e.journal <+: e'.journal := by
  have hreset : e.journal <+: e.reset.journal := by
    rw [Engine.reset_eq]
    exact List.prefix_append ..
  cases operation with
  | choose => exact List.prefix_rfl
  | submit => exact List.prefix_rfl
  | note => exact List.prefix_append ..
  | reset => exact hreset
  | renew => exact hreset
  | resume run rest hq turn =>
    obtain ⟨events, hj, -⟩ := turn.journal_eq
    exact ⟨events, hj.symm⟩

theorem Operated.journal_prefix {e e' : Engine} {ms : List Moment} (h : Operated e e' ms) :
    e.journal <+: e'.journal := by
  induction h with
  | nil => exact List.prefix_rfl
  | snoc _ operation ih => exact ih.trans operation.journal_prefix

theorem Answered.journal_eq {e e' : Engine} {answer : Answer} (answered : Answered e answer e') :
    e'.journal = e.journal := by
  cases answered with
  | exited => simp only; split <;> rfl
  | _ => rfl

end Compile

open Compile

namespace Server

/-! ### A step is made of operations -/

theorem clearAll_operated (s : Server) : Operated s.engine s.clearAll.engine [] := by
  suffices h : ∀ (uris : List String) (s : Server),
      Operated s.engine (uris.foldl (fun s uri => s.publish uri []) s).engine [] from
    h s.published s
  intro uris
  induction uris with
  | nil => exact fun s => .nil
  | cons uri uris ih =>
    intro s
    have hnote : Operated s.engine (s.publish uri []).engine [] :=
      (Operation.note (.publish uri []) rfl).operated
    exact hnote.trans (ih (s.publish uri []))

theorem fail_operated (s : Server) (text : String) :
    Operated s.engine (s.fail text).engine [.reset] :=
  .snoc (Operation.reset.operated) (.note (.showMessage (crashText text)) rfl)

theorem report_operated (s : Server) (run : Nat) (job : Job) (outcome : Outcome) :
    Operated s.engine (s.report job outcome).engine
      (compileLog (s.reported run job outcome)) := by
  cases outcome with
  | superseded => exact .nil
  | finished result =>
    simp only [report, accept, reported]
    cases diagnose s.environment.directory job.path result.stderr with
    | ok diagnostics => exact (Operation.note (.publish job.uri diagnostics) rfl).operated
    | error fault => exact fail_operated { s with snapshot := _ } fault.message
  | notRun command reason =>
    exact s.clearAll_operated.snoc (.note (.showMessage (notRunText command reason)) rfl)
  | crashed text => exact s.fail_operated text

theorem ran_operated {s s' : Server} {run : Nat} {rest : List Nat} {hs : List Happening}
    (hq : s.engine.queue = run :: rest) (ran : Ran (s.withQueue rest) run s' hs) :
    Operated s.engine s'.engine (compileLog hs) := by
  have turn := (s.withQueue rest).engine.resume_turn run
  have resumes := (Operation.resume run rest hq turn).operated
  cases ran with
  | unknown h =>
    have hidle : (s.withQueue rest).engine.ready run = false := by
      simp [Engine.ready, Engine.stage?, h]
    exact (Operation.resume run rest hq (.idle hidle)).operated
  | waits =>
    rw [compileLog_map]
    exact resumes
  | ends job stage outcome =>
    rw [compileLog_append, compileLog_map]
    exact resumes.trans (report_operated
      { s.withQueue rest with engine := ((s.withQueue rest).engine.resume run).1 } run job outcome)

theorem handled_operated {s s' : Server} {request : Request} {hs : List Happening}
    (handled : Handled s request s' hs) (hno : ∀ answer, request ≠ .answered answer) :
    Operated s.engine s'.engine (compileLog hs) := by
  cases handled with
  | tuned hr =>
    obtain ⟨_, _, _, compiler, _, rfl⟩ := hr
    exact (Operation.choose compiler).operated
  | submitted job => exact (Operation.submit job).operated
  | answered answer => exact absurd rfl (hno answer)
  | edited => exact .nil
  | closed uri => exact (Operation.note (.publish uri []) rfl).operated
  | cleared hr =>
    obtain ⟨_, _, _, compiler, _, rfl⟩ := hr
    exact .snoc Operation.reset.operated (.choose compiler)
  | renewed compiler hr =>
    obtain ⟨_, _, _, compiler', _, rfl⟩ := hr
    exact .snoc (Operation.renew compiler).operated (.choose compiler')

/-- **A step is an answer of the system, or operations of the server.** -/
theorem step_operated (s : Server) (step : Step) :
    (∃ answer, (s.step step).1.engine = s.engine.answer answer ∧
        compileLog (s.step step).2 = []) ∨
      Operated s.engine (s.step step).1.engine (compileLog (s.step step).2) := by
  cases step with
  | request request =>
    by_cases ha : ∃ answer, request = .answered answer
    · obtain ⟨answer, rfl⟩ := ha
      exact .inl ⟨answer, rfl, rfl⟩
    · exact .inr (handled_operated (s.handle_handled request) fun answer h => ha ⟨answer, h⟩)
  | resume =>
    right
    unfold Server.step
    cases hq : s.engine.queue with
    | nil => exact .nil
    | cons run rest => exact ran_operated hq (resume_ran _ run)

/-- **No step takes anything out of the journal.** -/
theorem journal_prefix_step (s : Server) (step : Step) :
    s.engine.journal <+: (s.step step).1.engine.journal := by
  rcases s.step_operated step with ⟨answer, he, -⟩ | operated
  · have hj := (s.engine.answer_answered answer).journal_eq
    exact ⟨[], by rw [he, hj, List.append_nil]⟩
  · exact operated.journal_prefix

end Server
end RenServer
