/- # What a log of moments says about an engine

A log lists the moments of an engine from its start. The run that began last
holds the turn until another run begins or the engine is reset (`newest`). A log
and an engine that belong together agree run by run (`Traced`): the moments of a
run tell its stage, and a run under way has the engine's ticket exactly if it
holds the turn.

Every operation of the engine keeps log and engine together.

Key definitions: `newest`, `story`, `Traced`.
Key theorems: `newest_eq_some_iff`, `Traced.reset`, `Traced.renew`, `Traced.turn`.
-/
import Mathlib.Data.List.Basic
import RenServer.Proofs.Compile.Linked

namespace RenServer
namespace Compile

/-! ### Who holds the turn -/

namespace Moment

/-- The run that passes a moment. -/
def run? : Moment → Option Nat
  | .began run _ _ => some run
  | .reset => none
  | .spawned run _ => some run
  | .read run _ _ _ => some run
  | .ended run _ => some run

/-- Whether the runs before a moment count no more from then on. -/
def supersedes : Moment → Bool
  | .began _ _ _ => true
  | .reset => true
  | _ => false

/-- Who holds the turn after a moment: a run, with its ticket and its process. -/
def pass (holder : Option (Nat × Ticket × Nat)) : Moment → Option (Nat × Ticket × Nat)
  | .began run ticket process => some (run, ticket, process)
  | .reset => none
  | _ => holder

/-- The end that a moment is. -/
def ended? : Moment → Option (Nat × Outcome)
  | .ended run outcome => some (run, outcome)
  | _ => none

end Moment

/-- The end that an event notes. -/
def Event.ended? : Event → Option (Nat × Outcome)
  | .ended run outcome => some (run, outcome)
  | _ => none

/-- No run begins, and nothing is reset. -/
def Quiet (log : List Moment) : Prop := ∀ m ∈ log, m.supersedes = false

/-- Who holds the turn at the end of a log. -/
def newest (log : List Moment) : Option (Nat × Ticket × Nat) := log.foldl Moment.pass none

theorem newest_append (log ms : List Moment) :
    newest (log ++ ms) = ms.foldl Moment.pass (newest log) := List.foldl_append

theorem Moment.pass_of_supersedes_false {m : Moment} (h : m.supersedes = false)
    (holder : Option (Nat × Ticket × Nat)) : m.pass holder = holder := by
  cases m <;> simp_all [Moment.supersedes, Moment.pass]

theorem Quiet.foldl_pass :
    ∀ {ms : List Moment}, Quiet ms → ∀ holder, ms.foldl Moment.pass holder = holder
  | [], _, _ => rfl
  | m :: ms, h, holder => by
    rw [List.foldl_cons, Moment.pass_of_supersedes_false (h m List.mem_cons_self)]
    exact Quiet.foldl_pass (fun x hx => h x (List.mem_cons_of_mem m hx)) holder

theorem Quiet.newest_append {ms : List Moment} (h : Quiet ms) (log : List Moment) :
    newest (log ++ ms) = newest log := by
  rw [Compile.newest_append, h.foldl_pass]

/-- Who holds the turn either held it all the time or took it when it began. -/
theorem foldl_pass_eq_some {run : Nat} {ticket : Ticket} {process : Nat} :
    ∀ (log : List Moment) (holder : Option (Nat × Ticket × Nat)),
      log.foldl Moment.pass holder = some (run, ticket, process) ↔
        (Quiet log ∧ holder = some (run, ticket, process)) ∨
          ∃ before since, log = before ++ .began run ticket process :: since ∧ Quiet since
  | [], holder => by simp [Quiet]
  | m :: log, holder => by
    rw [List.foldl_cons, foldl_pass_eq_some log]
    have shift :
        (∃ before since, log = before ++ .began run ticket process :: since ∧ Quiet since) →
        ∃ before since, m :: log = before ++ .began run ticket process :: since ∧ Quiet since := by
      rintro ⟨before, since, rfl, hq⟩
      exact ⟨m :: before, since, rfl, hq⟩
    constructor
    · rintro (⟨hq, hp⟩ | hx)
      · cases hm : m.supersedes with
        | false =>
          rw [Moment.pass_of_supersedes_false hm] at hp
          exact .inl ⟨fun x hx => (List.mem_cons.mp hx).elim (fun h => h ▸ hm) (hq x), hp⟩
        | true =>
          cases m with
          | began run' ticket' process' =>
            simp only [Moment.pass, Option.some.injEq, Prod.mk.injEq] at hp
            obtain ⟨rfl, rfl, rfl⟩ := hp
            exact .inr ⟨[], log, rfl, hq⟩
          | reset => simp [Moment.pass] at hp
          | _ => simp [Moment.supersedes] at hm
      · exact .inr (shift hx)
    · rintro (⟨hq, hp⟩ | ⟨before, since, heq, hq⟩)
      · refine .inl ⟨fun x hx => hq x (List.mem_cons_of_mem m hx), ?_⟩
        rw [Moment.pass_of_supersedes_false (hq m List.mem_cons_self), hp]
      · cases before with
        | nil =>
          simp only [List.nil_append, List.cons.injEq] at heq
          obtain ⟨rfl, rfl⟩ := heq
          exact .inl ⟨hq, rfl⟩
        | cons x before =>
          simp only [List.cons_append, List.cons.injEq] at heq
          exact .inr ⟨before, since, heq.2, hq⟩

/-- **The turn is held by the run that began last,** as long as no reset came
after it. -/
theorem newest_eq_some_iff {log : List Moment} {run : Nat} {ticket : Ticket} {process : Nat} :
    newest log = some (run, ticket, process) ↔
      ∃ before since, log = before ++ .began run ticket process :: since ∧ Quiet since := by
  unfold newest
  rw [foldl_pass_eq_some]
  simp

/-- A superseded run would have to begin again to hold the turn. -/
theorem newest_ne_of_superseded {before since : List Moment} {run : Nat} {ticket : Ticket}
    {process : Nat} (hq : ¬ Quiet since) (honce : ∀ t p, .began run t p ∉ since) (t : Ticket)
    (p : Nat) : newest (before ++ .began run ticket process :: since) ≠ some (run, t, p) := by
  intro hn
  rw [newest_append, List.foldl_cons] at hn
  rcases (foldl_pass_eq_some since _).mp hn with ⟨hsq, -⟩ | ⟨first, rest, rfl, -⟩
  · exact hq hsq
  · exact honce t p (by simp)

/-! ### The moments of one run -/

/-- The moments that a run passed. -/
def story (log : List Moment) (run : Nat) : List Moment := log.filter (·.run? = some run)

theorem story_append (log ms : List Moment) (run : Nat) :
    story (log ++ ms) run = story log run ++ story ms run := List.filter_append ..

theorem mem_story {log : List Moment} {run : Nat} {m : Moment} :
    m ∈ story log run ↔ m ∈ log ∧ m.run? = some run := by
  simp [story]

theorem story_ne {ms : List Moment} {run r : Nat} (h : ∀ m ∈ ms, m.run? = some run)
    (hne : run ≠ r) : story ms r = [] := by
  refine List.filter_eq_nil_iff.mpr fun m hm => ?_
  simp [h m hm, hne]

/-- A run begins once, if the moments that it passed say so. -/
theorem story_since {before since rest : List Moment} {run : Nat} {t t' : Ticket} {p p' : Nat}
    (h : story (before ++ .began run t p :: since) run = .began run t' p' :: rest)
    (hr : .began run t p ∉ rest) : t = t' ∧ p = p' ∧ story since run = rest := by
  have hs : [] ++ Moment.began run t' p' :: rest =
      story before run ++ .began run t p :: story since run := by
    rw [List.nil_append, ← h, story_append]
    simp [story, Moment.run?]
  obtain ⟨-, hm, rfl⟩ := (List.append_cons_inj_of_notMem List.not_mem_nil hr).mp hs
  cases hm
  exact ⟨rfl, rfl, rfl⟩

/-- How a run comes to its end, from the moments before. A run whose process was
spawned has a result exactly if it holds the turn when it reads. -/
inductive Verdict (before : List Moment) (run : Nat) : Outcome → Prop where
  | failed (ticket : Ticket) (process : Nat) (command : Command) (failure : SpawnFailure)
      (h : story before run = [.began run ticket process]) :
    Verdict before run (failure.outcome command)
  | outrun (ticket : Ticket) (process : Nat)
      (h : story before run = [.began run ticket process, .spawned run process])
      (hn : newest before ≠ some (run, ticket, process)) :
    Verdict before run .superseded
  | late (ticket : Ticket) (process : Nat) (code : Option Int) (output : Output)
      (earlier : List Moment) (hb : before = earlier ++ [.read run process code output])
      (h : story earlier run = [.began run ticket process, .spawned run process])
      (hn : newest earlier ≠ some (run, ticket, process)) :
    Verdict before run .superseded
  | won (ticket : Ticket) (process : Nat) (code : Option Int) (output : Output)
      (earlier : List Moment) (hb : before = earlier ++ [.read run process code output])
      (h : story earlier run = [.began run ticket process, .spawned run process])
      (hn : newest earlier = some (run, ticket, process)) :
    Verdict before run (.finished (output.result code ticket.generation))

/-- What the moments of a run are at a stage. An ended run passes no more. -/
def Told (log : List Moment) (run : Nat) : Option Stage → Prop
  | none => story log run = []
  | some .waiting => story log run = []
  | some (.spawning ticket process) => story log run = [.began run ticket process]
  | some (.collecting ticket process) =>
    story log run = [.began run ticket process, .spawned run process]
  | some .ended => ∃ before outcome after, log = before ++ .ended run outcome :: after ∧
      story after run = [] ∧ Verdict before run outcome

/-- Moments of other runs do not matter. -/
theorem Told.append {log ms : List Moment} {run : Nat} {stage : Option Stage}
    (h : Told log run stage) (hs : story ms run = []) : Told (log ++ ms) run stage := by
  have heq : story (log ++ ms) run = story log run := by rw [story_append, hs, List.append_nil]
  cases stage with
  | none => exact heq.trans h
  | some stage =>
    cases stage with
    | waiting => exact heq.trans h
    | spawning ticket process => exact heq.trans h
    | collecting ticket process => exact heq.trans h
    | ended =>
      obtain ⟨before, outcome, after, rfl, ha, hv⟩ := h
      exact ⟨before, outcome, after ++ ms, by simp, by rw [story_append, ha, hs]; rfl, hv⟩

theorem Verdict.ended_notMem {before : List Moment} {run : Nat} {outcome : Outcome}
    (h : Verdict before run outcome) (o : Outcome) : .ended run o ∉ before := by
  intro hm
  have hs : .ended run o ∈ story before run := mem_story.mpr ⟨hm, rfl⟩
  cases h with
  | failed _ _ _ _ h => simp [h] at hs
  | outrun _ _ h => simp [h] at hs
  | late _ _ _ _ _ hb h =>
    rw [hb, story_append, h] at hs
    simp [story] at hs
  | won _ _ _ _ _ hb h =>
    rw [hb, story_append, h] at hs
    simp [story] at hs

/-! ### Log and engine -/

theorem Engine.ends_lastKill (e : Engine) : e.lastKill.filterMap Event.ended? = [] := by
  unfold Engine.lastKill
  split
  · rfl
  · split <;> rfl

/-- A log and an engine belong together. -/
structure Traced (e : Engine) (log : List Moment) : Prop where
  linked : Linked e
  told : ∀ run, Told log run (e.stage? run)
  holder : ∀ {run ticket process}, e.turn? run = some (ticket, process) →
    (ticket = e.ticket ↔ newest log = some (run, ticket, process))
  ends : e.journal.filterMap Event.ended? = log.filterMap Moment.ended?

namespace Turn

variable {e : Engine} {run : Nat} {after : Engine × Option Outcome} {ms : List Moment}

/-- A turn passes moments of its run only. -/
theorem run?_eq (turn : Turn e run after ms) : ∀ m ∈ ms, m.run? = some run := by
  cases turn <;> simp [Moment.run?]

/-- The ends that a turn notes are those that it passes. -/
theorem ends_eq (turn : Turn e run after ms) :
    after.1.journal.filterMap Event.ended? =
      e.journal.filterMap Event.ended? ++ ms.filterMap Moment.ended? := by
  cases turn with
  | begins job =>
    rw [Engine.begin_eq]
    simp [e.ends_lastKill, List.filterMap_cons, Event.ended?, Moment.ended?]
  | _ =>
    simp [Engine.finish, Engine.note, Engine.setStage, List.filterMap_cons, Event.ended?,
      Moment.ended?]

/-- Unless a run begins, the runs under way were so before. -/
theorem turn?_of_quiet (turn : Turn e run after ms) (hq : Quiet ms) {r : Nat} {x : Ticket × Nat}
    (hx : after.1.turn? r = some x) : e.turn? r = some x := by
  by_cases hr : run = r
  · subst hr
    have ended : ∀ outcome, after.2 = some outcome → e.turn? run = some x := fun _ ho => by
      simp [Engine.turn?, turn.stage?_of_ended ho, Stage.turn?] at hx
    cases turn with
    | idle => exact hx
    | begins => simp [Quiet, Moment.supersedes] at hq
    | tracks p q hs =>
      unfold Engine.turn? at hx ⊢
      rw [e.stage?_track hs] at hx
      rw [hs]
      exact hx
    | _ => exact ended _ rfl
  · rwa [turn.turn?_of_ne hr] at hx

/-- Who holds the turn changes only if a run begins, and then the run has the
engine's new ticket. -/
theorem newest_cases (turn : Turn e run after ms) :
    (Quiet ms ∧ after.1.ticket = e.ticket) ∨
      e.stage? run = some .waiting ∧ e.ticket < after.1.ticket ∧
        after.1.turn? run = some (after.1.ticket, e.processes.length) ∧
        ms = [.began run after.1.ticket e.processes.length] := by
  cases turn with
  | begins job hw =>
    have ht := e.ticket_begin run job
    refine .inr ⟨by simp [Engine.stage?, hw], ?_, ?_, ?_⟩
    · rw [ht]
      exact e.ticket_lt_reset
    · rw [ht]
      exact (Engine.turn?_eq_some _).mpr (.inl (e.stage?_begin hw))
    · rw [ht]
  | _ => exact .inl ⟨by simp [Quiet, Moment.supersedes], rfl⟩

end Turn

namespace Traced

variable {e : Engine} {log : List Moment}

/-- Nothing has happened yet. -/
theorem start (compiler : Value) : Traced { compiler } [] where
  linked := by constructor <;> simp [Engine.turn?, Engine.stage?]
  told _ := rfl
  holder := by simp [Engine.turn?, Engine.stage?]
  ends := rfl

/-- An engine whose runs are where they were, but for new ones that wait, and
whose ticket and ends are what they were. -/
theorem same (h : Traced e log) {e' : Engine} (hl : Linked e')
    (hs : ∀ run, e'.stage? run = e.stage? run ∨
      e.stage? run = none ∧ e'.stage? run = some .waiting)
    (ht : e'.ticket = e.ticket)
    (hj : e'.journal.filterMap Event.ended? = e.journal.filterMap Event.ended?) :
    Traced e' log := by
  refine ⟨hl, fun run => ?_, fun {run ticket process} hx => ?_, hj.trans h.ends⟩
  · have := h.told run
    rcases hs run with heq | ⟨hnone, hwait⟩
    · rwa [heq]
    · rw [hnone] at this
      rw [hwait]
      exact this
  · rw [ht]
    rcases hs run with heq | ⟨hnone, hwait⟩
    · refine h.holder ?_
      unfold Engine.turn? at hx ⊢
      rwa [heq] at hx
    · simp [Engine.turn?, hwait, Stage.turn?] at hx

/-- Only the runs, the processes, the tracked process, the ticket and the ends
matter. -/
theorem congr (h : Traced e log) {e' : Engine} (hr : e'.runs = e.runs)
    (hp : e'.processes = e.processes) (ht : e'.tracked = e.tracked) (hk : e'.ticket = e.ticket)
    (hj : e'.journal.filterMap Event.ended? = e.journal.filterMap Event.ended?) :
    Traced e' log :=
  h.same (h.linked.congr hr hp ht hk) (fun run => .inl (by rw [Engine.stage?, hr]; rfl)) hk hj

theorem submit (h : Traced e log) (job : Job) : Traced (e.submit job) log := by
  refine h.same (h.linked.submit job) (fun run => ?_) rfl rfl
  rw [Engine.stage?_submit]
  by_cases hr : run = e.runs.length
  · subst hr
    exact .inr ⟨e.stage?_length, by simp⟩
  · simp [hr]

theorem answered (h : Traced e log) {answer : Answer} {e' : Engine}
    (answered : Answered e answer e') : Traced e' log := by
  refine h.same (h.linked.answered answered) (fun run => .inl ?_) ?_ ?_
  all_goals
    cases answered with
    | exited => simp only; split <;> rfl
    | _ => rfl

theorem reset (h : Traced e log) : Traced e.reset (log ++ [.reset]) := by
  have hn : newest (log ++ [.reset]) = none := by simp [newest_append, Moment.pass]
  refine ⟨h.linked.reset, fun run => ?_, fun {run ticket process} hx => ?_, ?_⟩
  · have hs : e.reset.stage? run = e.stage? run := by
      rw [Engine.reset_eq]
      rfl
    rw [hs]
    exact (h.told run).append (by simp [story, Moment.run?])
  · have hlt : ticket < e.reset.ticket := by
      rw [Engine.reset_eq] at hx ⊢
      exact Ticket.lt_of_le_of_lt (h.linked.le hx) e.ticket_lt_reset
    simp [hn, Ticket.ne_of_lt hlt]
  · rw [Engine.reset_eq]
    simp [e.ends_lastKill, h.ends, List.filterMap_cons, Moment.ended?]

/-- A new session may open once nobody holds the turn. -/
theorem renew (h : Traced e log) (hn : newest log = none) (compiler : Value) :
    Traced (e.renew compiler) log := by
  refine ⟨h.linked.renew compiler, h.told, fun {run ticket process} hx => ?_, h.ends⟩
  have hlt : ticket < (e.renew compiler).ticket :=
    Ticket.lt_of_le_of_lt (h.linked.le hx) e.ticket_lt_renew
  simp [hn, Ticket.ne_of_lt hlt]

/-- The moments of the run whose turn it is, after the turn. -/
theorem told_self (h : Traced e log) {run : Nat} {after : Engine × Option Outcome}
    {ms : List Moment} (turn : Turn e run after ms) :
    Told (log ++ ms) run (after.1.stage? run) := by
  have told := h.told run
  have spawned : ∀ {t p}, story log run = [.began run t p] →
      story (log ++ [.spawned run p]) run = [.began run t p, .spawned run p] := fun ht => by
    rw [story_append, ht]
    simp [story, Moment.run?]
  have still : ∀ run p, newest (log ++ [.spawned run p]) = newest log := fun run p =>
    Quiet.newest_append (by simp [Quiet, Moment.supersedes]) log
  have ended : ∀ outcome, after.2 = some outcome → after.1.stage? run = some .ended :=
    fun _ => turn.stage?_of_ended
  cases turn with
  | idle => simpa using told
  | begins job hw =>
    have hs : e.stage? run = some .waiting := by simp [Engine.stage?, hw]
    simp only [hs, Told] at told
    rw [e.stage?_begin hw, Told, story_append, told]
    simp [story, Moment.run?]
  | fails t p q failure hs =>
    simp only [hs, Told] at told
    rw [ended _ rfl]
    exact ⟨log, _, [], rfl, rfl, .failed t p q.command failure told⟩
  | outrun t p q hs hq hd ht =>
    simp only [hs, Told] at told
    rw [ended _ rfl]
    refine ⟨log ++ [.spawned run p], _, [], by simp, rfl, .outrun t p (spawned told) ?_⟩
    rw [still run p]
    exact fun hn => ht ((h.holder (e.turn?_eq_some.mpr (.inl hs))).mpr hn)
  | tracks p q hs =>
    simp only [hs, Told] at told
    rw [e.stage?_track hs]
    exact spawned told
  | readsAtOnce p q output hs =>
    simp only [hs, Told] at told
    rw [ended _ rfl]
    refine ⟨log ++ [.spawned run p, .read run p q.code output], _, [], by simp [Engine.ticket], rfl,
      .won e.ticket p q.code output (log ++ [.spawned run p]) (by simp) (spawned told) ?_⟩
    rw [still run p]
    exact (h.holder (e.turn?_eq_some.mpr (.inl hs))).mp rfl
  | reads p q output hs =>
    simp only [hs, Told] at told
    rw [ended _ rfl]
    exact ⟨log ++ [.read run p q.code output], _, [], by simp [Engine.ticket], rfl,
      .won e.ticket p q.code output log rfl told
        ((h.holder (e.turn?_eq_some.mpr (.inr hs))).mp rfl)⟩
  | readsLate t p q output hs hq ho ht =>
    simp only [hs, Told] at told
    rw [ended _ rfl]
    exact ⟨log ++ [.read run p q.code output], _, [], by simp, rfl,
      .late t p q.code output log rfl told fun hn =>
        ht ((h.holder (e.turn?_eq_some.mpr (.inr hs))).mpr hn)⟩

/-- **Log and engine stay together in every turn.** -/
theorem turn (h : Traced e log) {run : Nat} {after : Engine × Option Outcome} {ms : List Moment}
    (turn : Turn e run after ms) : Traced after.1 (log ++ ms) := by
  refine ⟨h.linked.turn turn, fun r => ?_, fun {r ticket process} hx => ?_, ?_⟩
  · by_cases hr : run = r
    · subst hr
      exact h.told_self turn
    · rw [turn.stage?_of_ne hr]
      exact (h.told r).append (story_ne turn.run?_eq hr)
  · rcases turn.newest_cases with ⟨hq, ht⟩ | ⟨hw, hlt, hself, rfl⟩
    · rw [ht, hq.newest_append]
      exact h.holder (turn.turn?_of_quiet hq hx)
    · by_cases hr : run = r
      · subst hr
        rw [hself] at hx
        cases hx
        simp [newest_append, Moment.pass]
      · rw [turn.turn?_of_ne hr] at hx
        have := Ticket.ne_of_lt (Ticket.lt_of_le_of_lt (h.linked.le hx) hlt)
        simp [newest_append, Moment.pass, hr, this]
  · rw [turn.ends_eq, h.ends, List.filterMap_append]

/-! #### What the log says about a run -/

/-- The journal notes the ends that the log has. -/
theorem mem_journal (h : Traced e log) {run : Nat} {outcome : Outcome} :
    .ended run outcome ∈ e.journal ↔ .ended run outcome ∈ log := by
  have hevent : .ended run outcome ∈ e.journal ↔
      (run, outcome) ∈ e.journal.filterMap Event.ended? := by
    refine ⟨fun hm => List.mem_filterMap.mpr ⟨_, hm, rfl⟩, fun hm => ?_⟩
    obtain ⟨event, hm, hx⟩ := List.mem_filterMap.mp hm
    cases event with
    | ended => cases hx; exact hm
    | _ => simp [Event.ended?] at hx
  have hmoment : .ended run outcome ∈ log ↔
      (run, outcome) ∈ log.filterMap Moment.ended? := by
    refine ⟨fun hm => List.mem_filterMap.mpr ⟨_, hm, rfl⟩, fun hm => ?_⟩
    obtain ⟨m, hm, hx⟩ := List.mem_filterMap.mp hm
    cases m with
    | ended => cases hx; exact hm
    | _ => simp [Moment.ended?] at hx
  rw [hevent, hmoment, h.ends]

/-- A run that passed a moment beyond its spawn has ended. -/
theorem conclusion (h : Traced e log) {run : Nat} {m : Moment} (hm : m ∈ story log run)
    (hb : ∀ ticket process, m ≠ .began run ticket process)
    (hs : ∀ process, m ≠ .spawned run process) :
    ∃ before outcome after, log = before ++ .ended run outcome :: after ∧ story after run = [] ∧
      Verdict before run outcome := by
  have told := h.told run
  cases hst : e.stage? run with
  | none =>
    simp only [hst, Told] at told
    simp [told] at hm
  | some stage =>
    cases stage with
    | waiting =>
      simp only [hst, Told] at told
      simp [told] at hm
    | spawning ticket process =>
      simp only [hst, Told] at told
      simp [told, hb] at hm
    | collecting ticket process =>
      simp only [hst, Told] at told
      simp [told, hb, hs] at hm
    | ended =>
      rw [hst] at told
      exact told

theorem verdict (h : Traced e log) {before after : List Moment} {run : Nat} {outcome : Outcome}
    (hlog : log = before ++ .ended run outcome :: after) : Verdict before run outcome := by
  have hm : .ended run outcome ∈ story log run := mem_story.mpr ⟨by simp [hlog], rfl⟩
  obtain ⟨before', outcome', after', heq, ha, hv⟩ := h.conclusion hm (by simp) (by simp)
  have hafter : .ended run outcome ∉ after' := fun hx => by
    simpa [ha] using mem_story.mpr ⟨hx, rfl⟩
  rw [hlog] at heq
  obtain ⟨rfl, hm, -⟩ :=
    (List.append_cons_inj_of_notMem (hv.ended_notMem outcome) hafter).mp heq.symm
  cases hm
  exact hv

/-- A run that reads the output of its process ends at once, with a result if it
holds the turn. -/
theorem ends_of_read (h : Traced e log) {before after : List Moment} {run process : Nat}
    {code : Option Int} {output : Output}
    (hlog : log = before ++ .read run process code output :: after) :
    ∃ ticket outcome rest, after = .ended run outcome :: rest ∧
      story before run = [.began run ticket process, .spawned run process] ∧
      (newest before = some (run, ticket, process) →
        outcome = .finished (output.result code ticket.generation)) := by
  have hm : .read run process code output ∈ story log run := mem_story.mpr ⟨by simp [hlog], rfl⟩
  obtain ⟨before', outcome, after', heq, ha, hv⟩ := h.conclusion hm (by simp) (by simp)
  have hafter : .read run process code output ∉ .ended run outcome :: after' := fun hx => by
    have hx' : Moment.read run process code output ∈ after' := by simpa using hx
    simpa [ha] using mem_story.mpr ⟨hx', rfl⟩
  have hbefore : .read run process code output ∈ story before' run := by
    refine mem_story.mpr ⟨?_, rfl⟩
    have : .read run process code output ∈ before' ++ .ended run outcome :: after' := by
      rw [← heq]
      exact (mem_story.mp hm).1
    exact (List.mem_append.mp this).resolve_right hafter
  -- the moment before the end is the one that reads
  have split : ∀ {ticket process' code' output' earlier},
      before' = earlier ++ [.read run process' code' output'] →
      story earlier run = [.began run ticket process', .spawned run process'] →
      earlier = before ∧ Moment.read run process' code' output' = .read run process code output ∧
        .ended run outcome :: after' = after := by
    rintro ticket process' code' output' earlier rfl hs
    have hearlier : .read run process code output ∉ earlier := fun hx => by
      simpa [hs] using mem_story.mpr ⟨hx, rfl⟩
    rw [hlog, List.append_assoc] at heq
    exact (List.append_cons_inj_of_notMem hearlier hafter).mp heq.symm
  cases hv with
  | failed _ _ _ _ hs => simp [hs] at hbefore
  | outrun _ _ hs => simp [hs] at hbefore
  | late ticket _ _ _ _ hb hs hn =>
    obtain ⟨rfl, hr, rfl⟩ := split hb hs
    cases hr
    exact ⟨ticket, _, _, rfl, hs, fun hx => absurd hx hn⟩
  | won ticket _ _ _ _ hb hs =>
    obtain ⟨rfl, hr, rfl⟩ := split hb hs
    cases hr
    exact ⟨ticket, _, _, rfl, hs, fun _ => rfl⟩

end Traced

end Compile
end RenServer
