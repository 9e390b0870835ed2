/- # The newest run wins

However acts interleave, a run has a result exactly if its process was spawned
and its output was read before another run began and before a reset, and the
result is made of what the system said about that process. An older run whose
process was spawned ends without a result. Results come in the order of their
generations, and a process is tracked exactly while the newest run awaits its
output.

Each of these is read off a log and an engine that belong together.

Key definition: `Wins`.
Key theorems: `Traced.finished_iff`, `Traced.superseded`, `Traced.busy_iff`,
`newest_run_wins`.
-/
import RenServer.Proofs.Compile.Acts

namespace RenServer
namespace Compile

/-- A run reads the output of its process while it is the newest: after it began
its process was spawned, no other run began, and nothing was reset. -/
def Wins (log : List Moment) (run : Nat) (ticket : Ticket) (process : Nat) (code : Option Int)
    (output : Output) : Prop :=
  ∃ before since after,
    log = before ++ .began run ticket process :: (since ++ .read run process code output :: after) ∧
    .spawned run process ∈ since ∧ Quiet since

theorem Wins.mem {log : List Moment} {run : Nat} {ticket : Ticket} {process : Nat}
    {code : Option Int} {output : Output} (h : Wins log run ticket process code output) :
    .spawned run process ∈ log ∧ .read run process code output ∈ log := by
  obtain ⟨before, since, after, rfl, hs, -⟩ := h
  simp [hs]

namespace Traced

variable {e : Engine} {log : List Moment}

/-- A run has a result exactly if it wins. -/
theorem finished_iff (h : Traced e log) {run : Nat} {result : Result} :
    .ended run (.finished result) ∈ log ↔
      ∃ ticket process code output, Wins log run ticket process code output ∧
        result = output.result code ticket.generation := by
  constructor
  · intro hm
    obtain ⟨before, after, hlog⟩ := List.append_of_mem hm
    have hv := h.verdict hlog
    generalize ho : Outcome.finished result = outcome at hv
    cases hv with
    | failed _ _ _ failure => cases failure <;> cases ho
    | outrun => cases ho
    | late => cases ho
    | won ticket process code output earlier hb hs hn =>
      cases ho
      obtain ⟨first, since, rfl, hq⟩ := newest_eq_some_iff.mp hn
      obtain ⟨-, -, hsince⟩ := story_since hs (by simp)
      have hspawned : .spawned run process ∈ story since run := by simp [hsince]
      have hsplit : log = first ++ .began run ticket process :: (since ++
          .read run process code output ::
            .ended run (.finished (output.result code ticket.generation)) :: after) := by
        rw [hlog, hb]
        simp
      exact ⟨ticket, process, code, output,
        ⟨first, since, _, hsplit, (mem_story.mp hspawned).1, hq⟩, rfl⟩
  · rintro ⟨ticket, process, code, output, ⟨before, since, after, hlog, -, hq⟩, rfl⟩
    have hlog' : log = (before ++ .began run ticket process :: since) ++
        .read run process code output :: after := by simp [hlog]
    obtain ⟨ticket', outcome, rest, rfl, hs, hwin⟩ := h.ends_of_read hlog'
    obtain ⟨rfl, -, -⟩ := story_since hs (by simp)
    have hend := hwin (newest_eq_some_iff.mpr ⟨before, since, rfl, hq⟩)
    rw [hlog, hend]
    simp

/-- A run that was superseded after it began ends without a result, once its
process was spawned. -/
theorem superseded (h : Traced e log) {before since after : List Moment} {run : Nat}
    {ticket : Ticket} {process : Nat} {outcome : Outcome}
    (hlog : log = before ++ .began run ticket process :: (since ++ .ended run outcome :: after))
    (hs : .spawned run process ∈ since) (hq : ¬ Quiet since) : outcome = .superseded := by
  have hlog' : log =
      (before ++ .began run ticket process :: since) ++ .ended run outcome :: after := by
    simp [hlog]
  cases h.verdict hlog' with
  | failed ticket' process' command failure hst =>
    obtain ⟨-, -, hsince⟩ := story_since hst (by simp)
    have hm : .spawned run process ∈ story since run := mem_story.mpr ⟨hs, rfl⟩
    simp [hsince] at hm
  | outrun => rfl
  | late => rfl
  | won ticket' process' code output earlier hb hst hn =>
    have hquiet : Quiet [Moment.read run process' code output] := by
      simp [Quiet, Moment.supersedes]
    have hst' : story (before ++ .began run ticket process :: since) run =
        [.began run ticket' process', .spawned run process', .read run process' code output] := by
      rw [hb, story_append, hst]
      simp [story, Moment.run?]
    obtain ⟨-, -, hsince⟩ := story_since hst' (by simp)
    have honce : ∀ t p, .began run t p ∉ since := fun t p hm => by
      have hx : .began run t p ∈ story since run := mem_story.mpr ⟨hm, rfl⟩
      simp [hsince] at hx
    have hn' : newest (before ++ .began run ticket process :: since) =
        some (run, ticket', process') := by
      rw [hb, hquiet.newest_append, hn]
    exact absurd hn' (newest_ne_of_superseded hq honce ticket' process')

/-- The newest run does not end before it reads, once its process was spawned. -/
theorem read_of_ended {before since : List Moment} {run : Nat} {ticket : Ticket} {process : Nat}
    (h : Traced e (before ++ .began run ticket process :: since)) (hq : Quiet since)
    (hs : .spawned run process ∈ since) (hst : e.stage? run = some .ended) :
    ∃ code output, .read run process code output ∈ since := by
  have hsp : .spawned run process ∈ story since run := mem_story.mpr ⟨hs, rfl⟩
  have told := h.told run
  rw [hst] at told
  obtain ⟨first, outcome, rest, heq, hrest, hv⟩ := told
  have hall : story (before ++ .began run ticket process :: since) run =
      story first run ++ [.ended run outcome] := by
    rw [heq, ← List.singleton_append, story_append, story_append, hrest]
    simp [story, Moment.run?]
  have read : ∀ {ticket' process' code output earlier},
      first = earlier ++ [.read run process' code output] →
      story earlier run = [.began run ticket' process', .spawned run process'] →
      ∃ code output, .read run process code output ∈ since := by
    rintro ticket' process' code output earlier rfl hearlier
    have hall' : story (before ++ .began run ticket process :: since) run =
        [.began run ticket' process', .spawned run process', .read run process' code output,
          .ended run outcome] := by
      rw [hall, story_append, hearlier]
      simp [story, Moment.run?]
    obtain ⟨-, rfl, hsince⟩ := story_since hall' (by simp)
    have hm : .read run process code output ∈ story since run := by simp [hsince]
    exact ⟨code, output, (mem_story.mp hm).1⟩
  cases hv with
  | failed _ _ _ _ hfirst =>
    rw [hfirst] at hall
    obtain ⟨-, -, hsince⟩ := story_since hall (by simp)
    simp [hsince] at hsp
  | outrun ticket' process' hfirst hn =>
    rw [hfirst] at hall
    obtain ⟨rfl, rfl, -⟩ := story_since hall (by simp)
    have hnewest : newest (first ++ .ended run .superseded :: rest) = some (run, ticket, process) :=
      newest_eq_some_iff.mpr ⟨before, since, heq.symm, hq⟩
    -- whoever did not hold the turn when it ended would have to begin again
    rw [newest_append] at hnewest
    rcases (foldl_pass_eq_some _ _).mp hnewest with ⟨-, hx⟩ | ⟨x, y, hx, -⟩
    · exact absurd hx hn
    · have hm : .began run ticket process ∈ .ended run .superseded :: rest := by
        rw [hx]
        simp
      have hm' : .began run ticket process ∈ story rest run :=
        mem_story.mpr ⟨by simpa using hm, rfl⟩
      simp [hrest] at hm'
  | late _ _ _ _ _ hb hearlier => exact read hb hearlier
  | won _ _ _ _ _ hb hearlier => exact read hb hearlier

/-- A process is tracked exactly while the newest run awaits its output. -/
theorem busy_iff (h : Traced e log) :
    e.busy = true ↔ ∃ before run ticket process since,
      log = before ++ .began run ticket process :: since ∧ Quiet since ∧
        .spawned run process ∈ since ∧ ∀ code output, .read run process code output ∉ since := by
  constructor
  · intro hb
    obtain ⟨process, hp⟩ := Option.isSome_iff_exists.mp hb
    obtain ⟨run, hst⟩ := h.linked.tracked.mp hp
    have hn := (h.holder (e.turn?_eq_some.mpr (.inr hst))).mp rfl
    obtain ⟨before, since, rfl, hq⟩ := newest_eq_some_iff.mp hn
    have told := h.told run
    rw [hst] at told
    obtain ⟨-, -, hsince⟩ := story_since told (by simp)
    have hspawned : .spawned run process ∈ story since run := by simp [hsince]
    refine ⟨before, run, e.ticket, process, since, rfl, hq, (mem_story.mp hspawned).1,
      fun code output hm => ?_⟩
    have hread : .read run process code output ∈ story since run := mem_story.mpr ⟨hm, rfl⟩
    simp [hsince] at hread
  · rintro ⟨before, run, ticket, process, since, rfl, hq, hspawned, hread⟩
    have hn : newest (before ++ .began run ticket process :: since) = some (run, ticket, process) :=
      newest_eq_some_iff.mpr ⟨before, since, rfl, hq⟩
    have hsp : .spawned run process ∈ story since run := mem_story.mpr ⟨hspawned, rfl⟩
    have told := h.told run
    cases hst : e.stage? run with
    | none =>
      simp only [hst, Told] at told
      simp [story, Moment.run?] at told
    | some stage =>
      cases stage with
      | waiting =>
        simp only [hst, Told] at told
        simp [story, Moment.run?] at told
      | spawning ticket' process' =>
        simp only [hst, Told] at told
        obtain ⟨-, -, hsince⟩ := story_since told (by simp)
        simp [hsince] at hsp
      | collecting ticket' process' =>
        simp only [hst, Told] at told
        obtain ⟨rfl, rfl, -⟩ := story_since told (by simp)
        have ht := (h.holder (e.turn?_eq_some.mpr (.inr hst))).mpr hn
        subst ht
        simp [Engine.busy, h.linked.tracked.mpr ⟨run, hst⟩]
      | ended =>
        obtain ⟨code, output, hm⟩ := h.read_of_ended hq hspawned hst
        exact absurd hm (hread code output)

end Traced

/-- **The newest run wins, and only it.** Whatever the acts:

* a run has a result exactly if it wins, and the result has the run's generation
  and what the system said about the run's process;
* a run that was superseded ends without one, once its process was spawned;
* the generations of results increase;
* a process is tracked exactly while the newest run, with no reset since it
  began, is past its spawn and has not read;
* when the queue is empty, every answer has reached its run. -/
theorem newest_run_wins (compiler : Value) (acts : List Act) :
    let e := (Engine.play { compiler } acts).1
    let log := (Engine.play { compiler } acts).2
    (∀ run result, .ended run (.finished result) ∈ e.journal ↔
      ∃ ticket process code output, Wins log run ticket process code output ∧
        .answer (.spawned process) ∈ acts ∧ Reported acts process code output ∧
        result = output.result code ticket.generation) ∧
    (∀ before run ticket process since outcome after,
      log = before ++ .began run ticket process :: (since ++ .ended run outcome :: after) →
      .spawned run process ∈ since → ¬ Quiet since → outcome = .superseded) ∧
    e.results.Pairwise (·.generation < ·.generation) ∧
    (e.busy = true ↔ ∃ before run ticket process since,
      log = before ++ .began run ticket process :: since ∧ Quiet since ∧
        .spawned run process ∈ since ∧ ∀ code output, .read run process code output ∉ since) ∧
    (e.queue = [] → ∀ run, e.ready run = false) := by
  intro e log
  have h : Played acts e log := by simpa using (Played.start compiler).play acts
  refine ⟨fun run result => ?_, fun before run ticket process since outcome after hlog hs hq =>
    h.traced.superseded hlog hs hq, h.ordered.sorted, h.traced.busy_iff, fun hidle run => ?_⟩
  · rw [h.traced.mem_journal, h.traced.finished_iff]
    constructor
    · rintro ⟨ticket, process, code, output, hw, hr⟩
      exact ⟨ticket, process, code, output, hw, h.heard.spawned hw.mem.1, h.heard.read hw.mem.2, hr⟩
    · rintro ⟨ticket, process, code, output, hw, -, -, hr⟩
      exact ⟨ticket, process, code, output, hw, hr⟩
  · cases hr : e.ready run with
    | false => rfl
    | true => simpa [hidle] using h.awake run hr

/-- The output of the older of two runs comes last and is dropped. -/
example :
    (Engine.play { compiler := .str "renc" }
      [.submit ⟨"file:///a", "/a"⟩, .resume, .answer (.spawned 0), .resume,
        .submit ⟨"file:///b", "/b"⟩, .resume, .answer (.spawned 1), .resume,
        .answer (.exited 1 (some 0) ⟨[0x62], []⟩), .resume,
        .answer (.exited 0 (some (-9)) ⟨[0x61], []⟩), .resume]).1.results =
      [⟨"b", "", some 0, 2⟩] := by
  decide

end Compile
end RenServer
