/- # Any acts in any order

Runs are submitted, the engine is reset and given other compilers, the operating
system answers, and the run at the head of the queue goes on: an engine sees any
number of these acts in any order (`Act`). `Engine.play` performs acts and keeps
the log of the moments that came to pass. To drain the queue is to resume its
head as often as the queue is long (`Engine.drain_eq_play`).

After any acts log and engine belong together, every run that can go on is
queued, what is known about processes goes back to the system's answers
(`Heard`), and results come in the order of their generations (`Ordered`).

Key definitions: `Act`, `Engine.play`, `Reported`, `Heard`, `Ordered`, `Played`.
Key theorems: `Engine.drain_eq_play`, `Played.play`.
-/
import RenServer.Proofs.Compile.History

namespace RenServer
namespace Compile

/-- What an engine sees. -/
inductive Act where
  | submit (job : Job)
  | reset
  | choose (compiler : Value)
  | answer (answer : Answer)
  /-- The run at the head of the queue goes on. -/
  | resume

namespace Engine

/-- The engine after an act, and the moments that come to pass. -/
def act (e : Engine) : Act → Engine × List Moment
  | .submit job => (e.submit job, [])
  | .reset => (e.reset, [.reset])
  | .choose compiler => ({ e with compiler }, [])
  | .answer answer => (e.answer answer, [])
  | .resume =>
    match e.queue with
    | [] => (e, [])
    | run :: rest => (({ e with queue := rest }.resume run).1, { e with queue := rest }.moments run)

/-- The engine after acts, and the log of them. -/
def play (e : Engine) : List Act → Engine × List Moment
  | [] => (e, [])
  | act :: acts => (((e.act act).1.play acts).1, (e.act act).2 ++ ((e.act act).1.play acts).2)

/-! ### Draining the queue -/

theorem collect_queue (e : Engine) (queue : List Nat) (run : Nat) (ticket : Ticket)
    (code : Option Int) (output : Output) :
    { e with queue }.collect run ticket code output =
      ({ (e.collect run ticket code output).1 with queue },
        (e.collect run ticket code output).2) := by
  have ht : Engine.ticket { e with queue } = e.ticket := rfl
  unfold collect
  rw [ht]
  by_cases h : ticket = e.ticket
  · simp only [if_pos h]
    rfl
  · simp only [if_neg h]
    rfl

theorem awaitOutput_queue (e : Engine) (queue : List Nat) (run : Nat) (ticket : Ticket)
    (process : Nat) :
    { e with queue }.awaitOutput run ticket process =
      ({ (e.awaitOutput run ticket process).1 with queue },
        (e.awaitOutput run ticket process).2) := by
  by_cases ha : (e.processes[process]?).any (·.output.isSome) = true
  · obtain ⟨q, hq, hsome⟩ := (Option.any_eq_true _ _).mp ha
    obtain ⟨output, ho⟩ := Option.isSome_iff_exists.mp hsome
    rw [e.awaitOutput_of_output hq ho, awaitOutput_of_output { e with queue } hq ho, collect_queue]
  · have hn : (e.processes[process]?).any (·.output.isSome) = false := by simpa using ha
    rw [(e.no_output hn).2, (no_output { e with queue } hn).2]
    rfl

/-- A run that goes on does not look at the queue. -/
theorem resume_queue (e : Engine) (queue : List Nat) (run : Nat) :
    { e with queue }.resume run = ({ (e.resume run).1 with queue }, (e.resume run).2) := by
  cases hr : e.runs[run]? with
  | none => simp [resume, hr]
  | some r =>
    obtain ⟨job, stage⟩ := r
    cases stage with
    | waiting =>
      simp only [resume, hr, begin_eq]
      rfl
    | spawning ticket process =>
      cases hq : e.processes[process]? with
      | none => simp [resume, hr, hq]
      | some q =>
        obtain ⟨_, _, spawn, _, _⟩ := q
        cases spawn with
        | asked => simp [resume, hr, hq]
        | failed failure =>
          simp only [resume, hr, hq, spawnFailed_eq]
          rfl
        | done =>
          have ht : Engine.ticket { e with queue } = e.ticket := rfl
          simp only [resume, hr, hq, spawnDone, ht]
          by_cases h : ticket = e.ticket
          · simp only [if_pos h]
            exact awaitOutput_queue { e with tracked := some process } queue run ticket process
          · simp only [if_neg h]
            rfl
    | collecting ticket process =>
      simp only [resume, hr]
      exact e.awaitOutput_queue queue run ticket process
    | ended => simp [resume, hr]

/-- To drain the queue is to resume its head as often as it is long. -/
theorem drain_eq_play (e : Engine) :
    e.drain = (e.play (List.replicate e.queue.length .resume)).1 := by
  suffices h : ∀ (queue : List Nat) (e : Engine), e.queue = queue →
      queue.foldl (fun e run => (e.resume run).1) { e with queue := [] } =
        (e.play (List.replicate queue.length .resume)).1 from h e.queue e rfl
  intro queue
  induction queue with
  | nil =>
    intro e he
    have hsame : { e with queue := [] } = e := by rw [← he]
    exact hsame
  | cons run rest ih =>
    intro e he
    have hq : ({ e with queue := rest }.resume run).1.queue = rest := by
      rw [resume_queue]
    rw [List.length_cons, List.replicate_succ, play, act, he, ← ih _ hq, List.foldl_cons]
    congr 1
    rw [e.resume_queue [] run, e.resume_queue rest run]

end Engine

/-! ### What the system said -/

/-- The system said what a process wrote and what its exit code is. A code may
come on its own. -/
def Reported (acts : List Act) (process : Nat) (code : Option Int) (output : Output) : Prop :=
  ∃ c, .answer (.exited process c output) ∈ acts ∧
    (code = c ∨ .answer (.reaped process code) ∈ acts)

/-- All that is known about a process was said by the system. -/
structure Attested (acts : List Act) (process : Nat) (q : Process) : Prop where
  spawned : q.spawn = .done → .answer (.spawned process) ∈ acts
  output : ∀ {output}, q.output = some output → Reported acts process q.code output

theorem Reported.mono {acts : List Act} {process : Nat} {code : Option Int} {output : Output}
    (h : Reported acts process code output) (more : List Act) :
    Reported (acts ++ more) process code output := by
  obtain ⟨c, hx, hc⟩ := h
  exact ⟨c, List.mem_append_left _ hx, hc.imp_right (List.mem_append_left _)⟩

theorem Attested.mono {acts : List Act} {process : Nat} {q : Process}
    (h : Attested acts process q) (more : List Act) : Attested (acts ++ more) process q :=
  ⟨fun hd => List.mem_append_left _ (h.spawned hd), fun ho => (h.output ho).mono more⟩

/-- What the engine knows and what its runs did go back to the system's answers. -/
structure Heard (acts : List Act) (e : Engine) (log : List Moment) : Prop where
  processes : ∀ {p q}, e.processes[p]? = some q → Attested acts p q
  spawned : ∀ {run p}, .spawned run p ∈ log → .answer (.spawned p) ∈ acts
  read : ∀ {run p code output}, .read run p code output ∈ log → Reported acts p code output

namespace Heard

variable {acts : List Act} {e : Engine} {log : List Moment}

theorem mono (h : Heard acts e log) (more : List Act) : Heard (acts ++ more) e log :=
  ⟨fun hq => (h.processes hq).mono more, fun hm => List.mem_append_left _ (h.spawned hm),
    fun hm => (h.read hm).mono more⟩

/-- Another answer is heard. -/
theorem answered (h : Heard acts e log) {answer : Answer} {e' : Engine}
    (answered : Answered e answer e') : Heard (acts ++ [.answer answer]) e' log := by
  have hm := h.mono [.answer answer]
  have hnew : Act.answer answer ∈ acts ++ [.answer answer] := by simp
  -- one process changes, and what is new about it is what the answer says
  have change : ∀ {process : Nat} {q : Process} {c : Process → Process},
      e.processes[process]? = some q → Attested (acts ++ [.answer answer]) process (c q) →
      ∀ {p q'}, (e.setProcess process c).processes[p]? = some q' →
        Attested (acts ++ [.answer answer]) p q' := by
    intro process q c hq hc p q' hq'
    obtain ⟨q₀, hq₀, rfl⟩ := e.getElem?_setProcess.mp hq'
    by_cases hp : process = p
    · subst hp
      rw [hq] at hq₀
      cases hq₀
      simpa using hc
    · simpa [hp] using hm.processes hq₀
  cases answered with
  | ignored => exact hm
  | spawn _ process q spawn ha hq =>
    refine ⟨change hq ⟨fun hd => ?_, (hm.processes hq).output⟩, hm.spawned, hm.read⟩
    simp only at hd
    subst hd
    cases answer with
    | spawned p =>
      cases ha
      exact hnew
    | _ => simp [Answer.spawn?] at ha
  | reaped process q code hq =>
    refine ⟨change hq ⟨(hm.processes hq).spawned, fun ho => ?_⟩, hm.spawned, hm.read⟩
    obtain ⟨c, hx, -⟩ := (hm.processes hq).output ho
    exact ⟨c, hx, .inr hnew⟩
  | exited process q code output hq hd =>
    have hp : ∀ {p q'},
        (e.setProcess process fun p => { p with code, output := some output }).processes[p]? =
          some q' → Attested (acts ++ [.answer (.exited process code output)]) p q' := by
      refine change hq ⟨(hm.processes hq).spawned, fun ho => ?_⟩
      cases ho
      exact ⟨code, hnew, .inl rfl⟩
    simp only
    split
    · exact ⟨hp, hm.spawned, hm.read⟩
    · exact ⟨hp, hm.spawned, hm.read⟩

/-- A run goes on with what was heard. -/
theorem turn (h : Heard acts e log) {run : Nat} {after : Engine × Option Outcome}
    {ms : List Moment} (turn : Turn e run after ms) : Heard acts after.1 (log ++ ms) := by
  refine ⟨fun {p q} hq => ?_, fun {r p} hm => ?_, fun {r p code output} hm => ?_⟩
  · cases turn with
    | begins job =>
      rw [Engine.begin_eq] at hq
      rcases Nat.lt_or_ge p e.processes.length with hlt | hge
      · exact h.processes (by simpa [List.getElem?_append_left hlt] using hq)
      · -- nothing is known yet about the process that the run asks for
        obtain ⟨hlt, hq⟩ := List.getElem?_eq_some_iff.mp hq
        have hp : p = e.processes.length := by
          simp only [List.length_append, List.length_singleton] at hlt
          omega
        subst hp
        simp only [List.getElem_concat_length] at hq
        subst hq
        exact ⟨fun hd => by simp at hd, fun ho => by simp at ho⟩
    | _ => exact h.processes hq
  · rcases List.mem_append.mp hm with hm | hm
    · exact h.spawned hm
    · cases turn with
      | outrun t p' q hs hq hd =>
        obtain ⟨-, rfl⟩ : r = run ∧ p = p' := by simpa using hm
        exact (h.processes hq).spawned hd
      | tracks p' q hs hq hd =>
        obtain ⟨-, rfl⟩ : r = run ∧ p = p' := by simpa using hm
        exact (h.processes hq).spawned hd
      | readsAtOnce p' q output hs hq hd =>
        obtain ⟨-, rfl⟩ : r = run ∧ p = p' := by simpa using hm
        exact (h.processes hq).spawned hd
      | _ => simp at hm
  · rcases List.mem_append.mp hm with hm | hm
    · exact h.read hm
    · cases turn with
      | readsAtOnce p' q output' hs hq hd ho =>
        obtain ⟨-, rfl, rfl, rfl⟩ : r = run ∧ p = p' ∧ code = q.code ∧ output = output' := by
          simpa using hm
        exact (h.processes hq).output ho
      | reads p' q output' hs hq ho =>
        obtain ⟨-, rfl, rfl, rfl⟩ : r = run ∧ p = p' ∧ code = q.code ∧ output = output' := by
          simpa using hm
        exact (h.processes hq).output ho
      | readsLate t p' q output' hs hq ho =>
        obtain ⟨-, rfl, rfl, rfl⟩ : r = run ∧ p = p' ∧ code = q.code ∧ output = output' := by
          simpa using hm
        exact (h.processes hq).output ho
      | _ => simp at hm

end Heard

/-! ### The order of results -/

/-- The result of a run that has one. -/
def Outcome.result? : Outcome → Option Result
  | .finished result => some result
  | _ => none

/-- The results of runs that ended, in the order of their ends. -/
def results (ends : List (Nat × Outcome)) : List Result := ends.filterMap (·.2.result?)

/-- The results so far, oldest first. -/
def Engine.results (e : Engine) : List Result :=
  Compile.results (e.journal.filterMap Event.ended?)

/-- Results come in the order of their generations, and a generation whose result
is there has no run any more. -/
structure Ordered (e : Engine) : Prop where
  past : ∀ {result}, result ∈ e.results → result.generation ≤ e.generation ∧
    ∀ run process, e.turn? run ≠ some (⟨e.session, result.generation⟩, process)
  sorted : e.results.Pairwise (·.generation < ·.generation)

namespace Turn

variable {e : Engine} {run : Nat} {after : Engine × Option Outcome} {ms : List Moment}

theorem session_eq (turn : Turn e run after ms) : after.1.session = e.session := by
  cases turn with
  | begins job => rw [Engine.begin_eq]; rfl
  | _ => rfl

/-- A turn brings no result, or that of the engine's generation. -/
theorem results_cases (turn : Turn e run after ms) :
    after.1.results = e.results ∨
      ∃ result process, after.1.results = e.results ++ [result] ∧
        result.generation = e.generation ∧ e.turn? run = some (e.ticket, process) ∧
        after.2 = some (.finished result) ∧ Quiet ms := by
  have hr : after.1.results = e.results ++ results (ms.filterMap Moment.ended?) := by
    unfold Engine.results results
    rw [turn.ends_eq, List.filterMap_append]
  rw [hr]
  cases turn with
  | readsAtOnce p q output hs =>
    exact .inr ⟨_, p, rfl, rfl, e.turn?_eq_some.mpr (.inl hs), rfl,
      by simp [Quiet, Moment.supersedes]⟩
  | reads p q output hs =>
    exact .inr ⟨_, p, rfl, rfl, e.turn?_eq_some.mpr (.inr hs), rfl,
      by simp [Quiet, Moment.supersedes]⟩
  | fails t p q failure => cases failure <;> exact .inl (List.append_nil _)
  | _ => exact .inl (List.append_nil _)

end Turn

namespace Ordered

variable {e : Engine}

/-- An engine with the same runs under way and the same results, of the same
generation or a later one. -/
theorem same (h : Ordered e) {e' : Engine} (ht : ∀ run, e'.turn? run = e.turn? run)
    (hs : e'.session = e.session) (hg : e.generation ≤ e'.generation)
    (hr : e'.results = e.results) : Ordered e' := by
  refine ⟨fun {result} hm => ?_, by rw [hr]; exact h.sorted⟩
  rw [hr] at hm
  obtain ⟨hle, hno⟩ := h.past hm
  refine ⟨Nat.le_trans hle hg, fun run process => ?_⟩
  rw [ht, hs]
  exact hno run process

theorem answered (h : Ordered e) {answer : Answer} {e' : Engine}
    (answered : Answered e answer e') : Ordered e' := by
  cases answered with
  | exited =>
    simp only
    split <;> exact h.same (fun _ => rfl) rfl (Nat.le_refl _) rfl
  | _ => exact h.same (fun _ => rfl) rfl (Nat.le_refl _) rfl

theorem reset (h : Ordered e) : Ordered e.reset := by
  rw [Engine.reset_eq]
  refine h.same (fun _ => rfl) rfl (Nat.le_succ _) ?_
  unfold Engine.results
  rw [List.filterMap_append, e.ends_lastKill, List.append_nil]

/-- A turn leaves the runs of earlier generations alone. -/
theorem past_turn (h : Ordered e) {run : Nat} {after : Engine × Option Outcome}
    {ms : List Moment} (turn : Turn e run after ms) {result : Result} (hm : result ∈ e.results) :
    result.generation ≤ after.1.generation ∧
      ∀ r process, after.1.turn? r ≠ some (⟨after.1.session, result.generation⟩, process) := by
  obtain ⟨hle, hno⟩ := h.past hm
  have hs := turn.session_eq
  rcases turn.newest_cases with ⟨hq, ht⟩ | ⟨-, hlt, hself, -⟩
  · have hg : after.1.generation = e.generation := congrArg Ticket.generation ht
    refine ⟨hg ▸ hle, fun r process hx => hno r process ?_⟩
    rw [← hs]
    exact turn.turn?_of_quiet hq hx
  · have hg : e.generation < after.1.generation := by
      rw [Ticket.lt_def] at hlt
      simp only [Engine.ticket, hs] at hlt
      omega
    refine ⟨by omega, fun r process hx => ?_⟩
    by_cases hr : run = r
    · subst hr
      rw [hself] at hx
      have heq : after.1.generation = result.generation :=
        congrArg (·.1.generation) (Option.some.inj hx)
      omega
    · rw [turn.turn?_of_ne hr, hs] at hx
      exact hno r process hx

theorem turn (h : Ordered e) (hl : Linked e) {run : Nat} {after : Engine × Option Outcome}
    {ms : List Moment} (turn : Turn e run after ms) : Ordered after.1 := by
  rcases turn.results_cases with hr | ⟨result, p, hr, hgen, hrun, hend, hq⟩
  · exact ⟨fun hm => h.past_turn turn (hr ▸ hm), by rw [hr]; exact h.sorted⟩
  · have ht : after.1.ticket = e.ticket := by
      rcases turn.newest_cases with ⟨-, ht⟩ | ⟨-, -, -, rfl⟩
      · exact ht
      · simp [Quiet, Moment.supersedes] at hq
    refine ⟨fun {result'} hm => ?_, ?_⟩
    · rw [hr] at hm
      rcases List.mem_append.mp hm with hm | hm
      · exact h.past_turn turn hm
      · rw [List.mem_singleton] at hm
        subst hm
        have hle : e.generation ≤ after.1.generation :=
          Nat.le_of_eq (congrArg Ticket.generation ht).symm
        refine ⟨by rwa [hgen], fun r process hx => ?_⟩
        -- the run itself has ended, and no other has its ticket
        by_cases hne : run = r
        · subst hne
          simp [Engine.turn?, turn.stage?_of_ended hend, Stage.turn?] at hx
        · rw [turn.turn?_of_ne hne, turn.session_eq, hgen] at hx
          exact hne (hl.distinct hrun hx)
    · rw [hr]
      refine List.pairwise_append.mpr ⟨h.sorted, List.pairwise_singleton _ _, fun a ha b hb => ?_⟩
      rw [List.mem_singleton] at hb
      subst hb
      obtain ⟨hle, hno⟩ := h.past ha
      have hne : a.generation ≠ e.generation := fun heq => hno run p (by rw [heq]; exact hrun)
      omega

end Ordered

/-! ### All acts -/

/-- What holds of an engine after acts, and of the log of them. -/
structure Played (acts : List Act) (e : Engine) (log : List Moment) : Prop where
  traced : Traced e log
  awake : Awake e
  heard : Heard acts e log
  ordered : Ordered e

namespace Played

variable {acts : List Act} {e : Engine} {log : List Moment}

theorem start (compiler : Value) : Played [] { compiler } [] where
  traced := Traced.start compiler
  awake run hr := by simp [Engine.ready, Engine.stage?] at hr
  heard := by constructor <;> simp
  ordered := by constructor <;> simp [Engine.results, results]

/-- One more act. -/
theorem act (h : Played acts e log) (act : Act) :
    Played (acts ++ [act]) (e.act act).1 (log ++ (e.act act).2) := by
  cases act with
  | submit job =>
    have hm := h.heard.mono [.submit job]
    simp only [Engine.act, List.append_nil]
    exact ⟨h.traced.submit job, h.awake.submit job, ⟨hm.processes, hm.spawned, hm.read⟩,
      h.ordered.same (e.turn?_submit job) rfl (Nat.le_refl _) rfl⟩
  | reset =>
    have hm := h.heard.mono [.reset]
    have hr : e.reset.processes = e.processes ∧ e.reset.queue = e.queue ∧
        ∀ run, e.reset.ready run = e.ready run := by
      rw [Engine.reset_eq]
      exact ⟨rfl, rfl, fun _ => rfl⟩
    simp only [Engine.act]
    refine ⟨h.traced.reset, fun run hx => ?_, ⟨fun hq => ?_, fun hx => ?_, fun hx => ?_⟩,
      h.ordered.reset⟩
    · rw [hr.2.2] at hx
      exact hr.2.1 ▸ h.awake run hx
    · exact hm.processes (hr.1 ▸ hq)
    · exact hm.spawned (by simpa using hx)
    · exact hm.read (by simpa using hx)
  | choose compiler =>
    have hm := h.heard.mono [.choose compiler]
    simp only [Engine.act, List.append_nil]
    exact ⟨h.traced.congr rfl rfl rfl rfl rfl, h.awake, ⟨hm.processes, hm.spawned, hm.read⟩,
      h.ordered.same (fun _ => rfl) rfl (Nat.le_refl _) rfl⟩
  | answer answer =>
    have hx := e.answer_answered answer
    simp only [Engine.act, List.append_nil]
    exact ⟨h.traced.answered hx, h.awake.answered h.traced.linked hx, h.heard.answered hx,
      h.ordered.answered hx⟩
  | resume =>
    have hm := h.heard.mono [.resume]
    cases hq : e.queue with
    | nil =>
      simp only [Engine.act, hq, List.append_nil]
      exact ⟨h.traced, h.awake, hm, h.ordered⟩
    | cons run rest =>
      simp only [Engine.act, hq]
      -- the run that leaves the queue is the one that goes on
      have ht : Traced { e with queue := rest } log := h.traced.congr rfl rfl rfl rfl rfl
      have ho : Ordered { e with queue := rest } :=
        h.ordered.same (fun _ => rfl) rfl (Nat.le_refl _) rfl
      have hh : Heard (acts ++ [.resume]) { e with queue := rest } log :=
        ⟨hm.processes, hm.spawned, hm.read⟩
      have turn := Engine.resume_turn { e with queue := rest } run
      refine ⟨ht.turn turn, Awake.turn ht.linked (fun r hr => ?_) turn, hh.turn turn,
        ho.turn ht.linked turn⟩
      have hmem := h.awake r hr
      rwa [hq] at hmem

/-- **All of it holds after any acts.** -/
theorem play (h : Played acts e log) (more : List Act) :
    Played (acts ++ more) (e.play more).1 (log ++ (e.play more).2) := by
  induction more generalizing acts e log with
  | nil => simpa [Engine.play] using h
  | cons act more ih => simpa [Engine.play] using ih (h.act act)

end Played

end Compile
end RenServer
