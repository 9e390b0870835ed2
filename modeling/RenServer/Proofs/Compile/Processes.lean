/- # What becomes of processes

A process that was asked for is watched (`Engine.Watched`) until its run goes on, and
while it is tracked. Whoever stops watching a spawned process has killed it or knows
that it has ended, so a spawned process is watched, killed or over (`Overseen`). A
kill goes to a watched process, which is watched no more after it, so no process is
killed twice, and the run of a killed process is superseded (`Killed`).

Both hold after every operation of the engine.

Key definitions: `Engine.kills`, `Engine.isOver`, `Engine.Watched`, `Superseded`,
`Killed`, `Overseen`.
Key theorems: `Killed.turn`, `Overseen.turn`, `Overseen.answered`.
-/
import RenServer.Proofs.Compile.History

namespace RenServer
namespace Compile

/-- The process that an event kills. -/
def Event.kill? : Event → Option Nat
  | .kill process => some process
  | _ => none

namespace Engine

variable (e : Engine)

/-- The processes that were killed, in order. -/
def kills : List Nat := e.journal.filterMap Event.kill?

/-- Whether a process is known to have ended: its exit code or its output is there. -/
def isOver (process : Nat) : Bool :=
  (e.processes[process]?).any fun q => q.code.isSome || q.output.isSome

/-- A process is tracked, or the run that asked for it has not gone on since. -/
def Watched (process : Nat) : Prop :=
  e.tracked = some process ∨ ∃ run ticket, e.stage? run = some (.spawning ticket process)

/-- The process that a reset kills. -/
def victim : Option Nat := e.tracked.filter fun process => !e.hasEnded process

theorem kills_lastKill : e.lastKill.filterMap Event.kill? = e.victim.toList := by
  unfold lastKill victim
  cases e.tracked with
  | none => rfl
  | some process => cases h : e.hasEnded process <;> simp [h, Event.kill?, Option.filter_some]

theorem tracked_of_victim {process : Nat} (h : e.victim = some process) :
    e.tracked = some process := (Option.filter_eq_some_iff.mp h).1

/-- A tracked process that a reset does not kill is over. -/
theorem victim_or_over {process : Nat} (h : e.tracked = some process) :
    e.victim = some process ∨ e.isOver process = true := by
  cases hend : e.hasEnded process with
  | false => exact .inl (Option.filter_eq_some_iff.mpr ⟨h, by simp [hend]⟩)
  | true =>
    right
    unfold hasEnded at hend
    unfold isOver
    cases hq : e.processes[process]? with
    | none => simp [hq] at hend
    | some q =>
      rw [hq] at hend
      simp only at hend
      simp [hend]

theorem isOver_of_output {process : Nat} {q : Process} {output : Output}
    (hq : e.processes[process]? = some q) (ho : q.output = some output) :
    e.isOver process = true := by
  simp [isOver, hq, ho]

theorem kills_note {event : Event} (h : event.kill? = none) : (e.note event).kills = e.kills := by
  simp [note, kills, h]

theorem kills_finish (run : Nat) (outcome : Outcome) :
    (e.finish run outcome).1.kills = e.kills := kills_note (e.setStage run .ended) rfl

/-- A run that was outrun kills its process. -/
theorem kills_outrun (run process : Nat) :
    ((e.note (.kill process)).finish run .superseded).1.kills = e.kills ++ [process] := by
  rw [kills_finish]
  simp [note, kills, Event.kill?]

theorem kills_reset : e.reset.kills = e.kills ++ e.victim.toList := by
  rw [reset_eq, kills, List.filterMap_append, kills_lastKill]
  rfl

theorem kills_begin (run : Nat) (job : Job) :
    (e.begin run job).kills = e.kills ++ e.victim.toList := by
  rw [begin_eq, kills, List.filterMap_append, List.filterMap_append, kills_lastKill]
  simp [Event.kill?, kills]

end Engine

/-! ### One run for each process -/

theorem Engine.processes_begin (e : Engine) {run : Nat} {job : Job} {p : Nat} {q : Process}
    (h : (e.begin run job).processes[p]? = some q) :
    e.processes[p]? = some q ∨
      p = e.processes.length ∧ q = { run, command := e.command job.path } := by
  rw [Engine.begin_eq] at h
  simp only [List.getElem?_append, List.getElem?_singleton] at h
  split at h
  · exact .inl h
  · split at h
    · cases h
      exact .inr ⟨by omega, rfl⟩
    · cases h

namespace Linked

variable {e : Engine}

/-- Two runs under way do not share a process. -/
theorem owner_eq (h : Linked e) {r r' : Nat} {t t' : Ticket} {p : Nat}
    (hr : e.turn? r = some (t, p)) (hr' : e.turn? r' = some (t', p)) : r = r' := by
  obtain ⟨q, hq, rfl⟩ := h.process hr
  obtain ⟨q', hq', rfl⟩ := h.process hr'
  rw [hq] at hq'
  cases hq'
  rfl

/-- The tracked process is that of no run that awaits its spawn. -/
theorem spawning_ne_of_tracked (h : Linked e) {p : Nat} (hp : e.tracked = some p) (r : Nat)
    (t : Ticket) : e.stage? r ≠ some (.spawning t p) := by
  intro hr
  obtain ⟨r', hr'⟩ := h.tracked.mp hp
  have heq := h.owner_eq (e.turn?_eq_some.mpr (.inl hr)) (e.turn?_eq_some.mpr (.inr hr'))
  subst heq
  rw [hr] at hr'
  cases hr'

/-- No process is tracked while the run with the engine's ticket awaits its spawn. -/
theorem tracked_eq_none (h : Linked e) {r p : Nat}
    (hr : e.stage? r = some (.spawning e.ticket p)) : e.tracked = none := by
  cases ht : e.tracked with
  | none => rfl
  | some p' =>
    obtain ⟨r', hr'⟩ := h.tracked.mp ht
    have heq := h.distinct (e.turn?_eq_some.mpr (.inl hr)) (e.turn?_eq_some.mpr (.inr hr'))
    subst heq
    rw [hr] at hr'
    cases hr'

theorem watched_lt (h : Linked e) {p : Nat} (hw : e.Watched p) : p < e.processes.length := by
  have hturn : ∃ r t, e.turn? r = some (t, p) := by
    rcases hw with ht | ⟨r, t, hr⟩
    · obtain ⟨r, hr⟩ := h.tracked.mp ht
      exact ⟨r, _, e.turn?_eq_some.mpr (.inr hr)⟩
    · exact ⟨r, t, e.turn?_eq_some.mpr (.inl hr)⟩
  obtain ⟨r, t, hr⟩ := hturn
  obtain ⟨q, hq, -⟩ := h.process hr
  exact (List.getElem?_eq_some_iff.mp hq).1

end Linked

/-! ### Kills -/

/-- After the run of a process began, another run began or the engine was reset. -/
def Superseded (log : List Moment) (process : Nat) : Prop :=
  ∃ before run ticket since, log = before ++ .began run ticket process :: since ∧ ¬ Quiet since

theorem Superseded.append {log : List Moment} {process : Nat} (h : Superseded log process)
    (ms : List Moment) : Superseded (log ++ ms) process := by
  obtain ⟨before, run, ticket, since, rfl, hq⟩ := h
  refine ⟨before, run, ticket, since ++ ms, by simp, fun hquiet => hq fun m hm => ?_⟩
  exact hquiet m (List.mem_append_left _ hm)

namespace Traced

variable {e : Engine} {log : List Moment}

theorem began_mem (h : Traced e log) {run : Nat} {ticket : Ticket} {process : Nat}
    (ht : e.turn? run = some (ticket, process)) : .began run ticket process ∈ log := by
  have told := h.told run
  have hstory : ∃ rest, story log run = .began run ticket process :: rest := by
    rcases e.turn?_eq_some.mp ht with hs | hs
    · rw [hs] at told
      exact ⟨_, told⟩
    · rw [hs] at told
      exact ⟨_, told⟩
  obtain ⟨rest, hrest⟩ := hstory
  exact (mem_story.mp (by rw [hrest]; exact List.mem_cons_self)).1

/-- A run under way is superseded by the next run that begins and by a reset. -/
theorem superseded_of_next (h : Traced e log) {run : Nat} {ticket : Ticket} {process : Nat}
    (ht : e.turn? run = some (ticket, process)) {m : Moment} (hm : m.supersedes = true) :
    Superseded (log ++ [m]) process := by
  obtain ⟨before, since, rfl⟩ := List.append_of_mem (h.began_mem ht)
  refine ⟨before, run, ticket, since ++ [m], by simp, fun hq => ?_⟩
  rw [hq m (by simp)] at hm
  cases hm

/-- A run under way without the engine's ticket is superseded. -/
theorem superseded_of_ne (h : Traced e log) {run : Nat} {ticket : Ticket} {process : Nat}
    (ht : e.turn? run = some (ticket, process)) (hne : ticket ≠ e.ticket) :
    Superseded log process := by
  obtain ⟨before, since, hlog⟩ := List.append_of_mem (h.began_mem ht)
  refine ⟨before, run, ticket, since, hlog, fun hq => hne ?_⟩
  exact (h.holder ht).mpr (newest_eq_some_iff.mpr ⟨before, since, hlog, hq⟩)

theorem superseded_of_victim (h : Traced e log) {process : Nat} (hv : e.victim = some process)
    {m : Moment} (hm : m.supersedes = true) : Superseded (log ++ [m]) process := by
  obtain ⟨run, hr⟩ := h.linked.tracked.mp (e.tracked_of_victim hv)
  exact h.superseded_of_next (e.turn?_eq_some.mpr (.inr hr)) hm

end Traced

/-- No process is killed twice, and the run of a killed process is superseded. -/
structure Killed (e : Engine) (log : List Moment) : Prop where
  once : e.kills.Nodup
  gone : ∀ {p}, p ∈ e.kills → p < e.processes.length ∧ ¬ e.Watched p
  late : ∀ {p}, p ∈ e.kills → Superseded log p

namespace Killed

variable {e e' : Engine} {log ms : List Moment}

/-- At most one process is killed, one that was watched; and whoever is watched from
then on was so before or is new. -/
theorem advance (h : Killed e log) (victim : Option Nat)
    (hk : e'.kills = e.kills ++ victim.toList) (hlen : e.processes.length ≤ e'.processes.length)
    (hw : ∀ {p}, e'.Watched p → (e.Watched p ∨ e.processes.length ≤ p) ∧ victim ≠ some p)
    (hv : ∀ {p}, victim = some p →
      e.Watched p ∧ p < e.processes.length ∧ Superseded (log ++ ms) p) :
    Killed e' (log ++ ms) := by
  have hmem : ∀ {p}, p ∈ e'.kills → p ∈ e.kills ∨ victim = some p := by
    intro p hp
    rw [hk] at hp
    simpa using hp
  refine ⟨?_, fun {p} hp => ?_, fun {p} hp => ?_⟩
  · rw [hk]
    cases victim with
    | none => simpa using h.once
    | some p =>
      have hfresh : p ∉ e.kills := fun hp => (h.gone hp).2 (hv rfl).1
      exact List.nodup_append.mpr ⟨h.once, by simp, by
        rintro a ha b hb rfl
        simp only [Option.toList_some, List.mem_singleton] at hb
        exact hfresh (hb ▸ ha)⟩
  · rcases hmem hp with hp | hp
    · obtain ⟨hlt, hnot⟩ := h.gone hp
      refine ⟨Nat.lt_of_lt_of_le hlt hlen, fun hx => ?_⟩
      rcases (hw hx).1 with hold | hnew
      · exact hnot hold
      · omega
    · exact ⟨Nat.lt_of_lt_of_le (hv hp).2.1 hlen, fun hx => (hw hx).2 hp⟩
  · rcases hmem hp with hp | hp
    · exact (h.late hp).append ms
    · exact (hv hp).2.2

/-- No process is killed, and nobody is watched who was not so before. -/
theorem same (h : Killed e log) (hk : e'.kills = e.kills)
    (hlen : e.processes.length ≤ e'.processes.length)
    (hw : ∀ {p}, e'.Watched p → e.Watched p ∨ e.processes.length ≤ p) :
    Killed e' (log ++ ms) :=
  h.advance none (by simp [hk]) hlen (fun hx => ⟨hw hx, by simp⟩) (by simp)

theorem submit (h : Killed e log) (job : Job) : Killed (e.submit job) log := by
  rw [← List.append_nil log]
  refine h.same rfl (Nat.le_refl _) fun hx => .inl (hx.imp_right ?_)
  rintro ⟨run, ticket, hr⟩
  refine ⟨run, ticket, ?_⟩
  rw [Engine.stage?_submit] at hr
  split at hr
  · cases hr
  · exact hr

/-- Only the kills, the processes, the tracked process and the runs matter. -/
theorem congr (h : Killed e log) (hk : e'.kills = e.kills)
    (hp : e'.processes.length = e.processes.length) (ht : e'.tracked = e.tracked)
    (hr : e'.runs = e.runs) : Killed e' log := by
  rw [← List.append_nil log]
  refine h.same hk (Nat.le_of_eq hp.symm) fun hx => .inl ?_
  unfold Engine.Watched Engine.stage? at hx ⊢
  rwa [ht, hr] at hx

theorem answered (h : Killed e log) {answer : Answer} (answered : Answered e answer e') :
    Killed e' log := by
  cases answered with
  | exited =>
    simp only
    split <;> exact h.congr rfl (by simp [Engine.setProcess, Engine.enqueue]) rfl rfl
  | _ => exact h.congr rfl (by simp [Engine.setProcess, Engine.enqueue]) rfl rfl

/-- A newer ticket: the tracked process is killed unless it has ended. -/
theorem reset (h : Killed e log) (ht : Traced e log) : Killed e.reset (log ++ [.reset]) := by
  have hfields : e.reset.processes = e.processes ∧ e.reset.tracked = none ∧
      ∀ run, e.reset.stage? run = e.stage? run := by
    rw [Engine.reset_eq]
    exact ⟨rfl, rfl, fun _ => rfl⟩
  refine h.advance e.victim e.kills_reset (by simp [hfields.1]) (fun hx => ?_) fun hv => ?_
  · unfold Engine.Watched at hx
    simp only [hfields.2.1, hfields.2.2, reduceCtorEq, false_or] at hx
    refine ⟨.inl (.inr hx), fun hv => ?_⟩
    obtain ⟨run, ticket, hr⟩ := hx
    exact ht.linked.spawning_ne_of_tracked (e.tracked_of_victim hv) run ticket hr
  · have hw : e.Watched _ := .inl (e.tracked_of_victim hv)
    exact ⟨hw, ht.linked.watched_lt hw, ht.superseded_of_victim hv rfl⟩

theorem renew (h : Killed e log) (ht : e.tracked = none) (compiler : Value) :
    Killed (e.renew compiler) log := h.congr rfl rfl ht.symm rfl

theorem begin (h : Killed e log) (ht : Traced e log) {run : Nat} {job : Job}
    (hw : e.runs[run]? = some { job, stage := .waiting }) :
    Killed (e.begin run job) (log ++ [.began run ⟨e.session, e.generation + 1⟩ e.processes.length]) := by
  have hlen : e.processes.length ≤ (e.begin run job).processes.length := by
    rw [Engine.begin_eq]
    simp
  refine h.advance e.victim (e.kills_begin run job) hlen (fun {p} hx => ?_) fun {p} hv => ?_
  · obtain ⟨r, t, hr⟩ : ∃ r t, (e.begin run job).stage? r = some (.spawning t p) := by
      refine hx.resolve_left ?_
      rw [Engine.begin_eq]
      simp
    by_cases hne : run = r
    · subst hne
      rw [e.stage?_begin hw] at hr
      cases hr
      refine ⟨.inr (Nat.le_refl _), fun hv => ?_⟩
      exact Nat.lt_irrefl _ (ht.linked.watched_lt (.inl (e.tracked_of_victim hv)))
    · rw [(Turn.begins job hw).stage?_of_ne hne] at hr
      exact ⟨.inl (.inr ⟨r, t, hr⟩), fun hv =>
        ht.linked.spawning_ne_of_tracked (e.tracked_of_victim hv) r t hr⟩
  · have hwatched : e.Watched p := .inl (e.tracked_of_victim hv)
    exact ⟨hwatched, ht.linked.watched_lt hwatched, ht.superseded_of_victim hv rfl⟩

/-- **A turn kills nobody twice.** -/
theorem turn (h : Killed e log) (ht : Traced e log) {run : Nat} {after : Engine × Option Outcome}
    (turn : Turn e run after ms) : Killed after.1 (log ++ ms) := by
  have others : ∀ {r}, run ≠ r → after.1.stage? r = e.stage? r := fun hne => turn.stage?_of_ne hne
  -- whoever awaits a spawn after an end did so before, and is not the run that ended
  have awaiting : ∀ {r t p}, (∃ outcome, after.2 = some outcome) →
      after.1.stage? r = some (.spawning t p) → run ≠ r ∧ e.stage? r = some (.spawning t p) := by
    rintro r t p ⟨outcome, ho⟩ hr
    have hne : run ≠ r := by
      rintro rfl
      rw [turn.stage?_of_ended ho] at hr
      cases hr
    exact ⟨hne, (others hne).symm.trans hr⟩
  have ends : after.1.kills = e.kills → after.1.processes = e.processes →
      (∀ p, after.1.tracked = some p → e.tracked = some p) → (∃ outcome, after.2 = some outcome) →
      Killed after.1 (log ++ ms) := by
    intro hk hp htr ho
    refine h.same hk (by simp [hp]) fun hx => .inl ?_
    rcases hx with hx | ⟨r, t, hr⟩
    · exact .inl (htr _ hx)
    · exact .inr ⟨r, t, (awaiting ho hr).2⟩
  have untracked : ∀ p, none = some p → e.tracked = some p := fun _ hp => by cases hp
  cases turn with
  | idle => exact h.same rfl (Nat.le_refl _) .inl
  | begins job hw => exact h.begin ht hw
  | fails => exact ends (e.kills_finish _ _) rfl (fun _ hp => hp) ⟨_, rfl⟩
  | outrun t p q hs hq hd hne =>
    have hturn := e.turn?_eq_some.mpr (.inl hs)
    refine h.advance (some p) (e.kills_outrun run p) (Nat.le_refl _) (fun {p'} hx => ?_) fun {p'} hv => ?_
    · rcases hx with hx | ⟨r, t', hr⟩
      · refine ⟨.inl (.inl hx), fun heq => ?_⟩
        cases heq
        exact ht.linked.spawning_ne_of_tracked hx run t hs
      · obtain ⟨hne, hr'⟩ := awaiting ⟨_, rfl⟩ hr
        refine ⟨.inl (.inr ⟨r, t', hr'⟩), fun heq => hne ?_⟩
        cases heq
        exact ht.linked.owner_eq hturn (e.turn?_eq_some.mpr (.inl hr'))
    · cases hv
      have hw : e.Watched p := .inr ⟨run, t, hs⟩
      exact ⟨hw, ht.linked.watched_lt hw, (ht.superseded_of_ne hturn hne).append _⟩
  | tracks p q hs =>
    refine h.same rfl (Nat.le_refl _) fun hx => .inl ?_
    rcases hx with hx | ⟨r, t, hr⟩
    · cases hx
      exact .inr ⟨run, _, hs⟩
    · by_cases hne : run = r
      · subst hne
        rw [e.stage?_track hs] at hr
        cases hr
      · exact .inr ⟨r, t, (others hne).symm.trans hr⟩
  | readsAtOnce => exact ends (Engine.kills_finish _ _ _) rfl untracked ⟨_, rfl⟩
  | reads => exact ends (Engine.kills_finish _ _ _) rfl untracked ⟨_, rfl⟩
  | readsLate => exact ends (e.kills_finish _ _) rfl (fun _ hp => hp) ⟨_, rfl⟩

end Killed

/-! ### No process is left alone -/

/-- A process whose spawn is not answered is awaited, and a spawned one is over, killed
or watched. `past` holds at least of the processes that are known to have ended. -/
structure Overseen (past : Nat → Prop) (e : Engine) : Prop where
  known : ∀ {p}, e.isOver p = true → past p
  asked : ∀ {p q}, e.processes[p]? = some q → q.spawn = .asked →
    ∃ run ticket, e.stage? run = some (.spawning ticket p)
  done : ∀ {p q}, e.processes[p]? = some q → q.spawn = .done → past p ∨ p ∈ e.kills ∨ e.Watched p

namespace Overseen

variable {past : Nat → Prop} {e e' : Engine}

/-- The processes are what they were, a run whose spawn is not answered still awaits
it, and a spawned process is killed or over before it is watched no more. -/
theorem advance (h : Overseen past e) (hp : e'.processes = e.processes)
    (hk : ∀ {p}, p ∈ e.kills → p ∈ e'.kills)
    (ha : ∀ {r t p q}, e.processes[p]? = some q → q.spawn = .asked →
      e.stage? r = some (.spawning t p) → e'.stage? r = some (.spawning t p))
    (hw : ∀ {p q}, e.processes[p]? = some q → q.spawn = .done → e.Watched p →
      past p ∨ p ∈ e'.kills ∨ e'.Watched p) : Overseen past e' := by
  refine ⟨fun {p} ho => h.known ?_, fun {p q} hq hasked => ?_, fun {p q} hq hd => ?_⟩
  · unfold Engine.isOver at ho ⊢
    rwa [hp] at ho
  · rw [hp] at hq
    obtain ⟨r, t, hr⟩ := h.asked hq hasked
    exact ⟨r, t, ha hq hasked hr⟩
  · rw [hp] at hq
    rcases h.done hq hd with ho | hkill | hwatched
    · exact .inl ho
    · exact .inr (.inl (hk hkill))
    · exact hw hq hd hwatched

theorem mono (h : Overseen past e) {past' : Nat → Prop} (hover : ∀ {p}, past p → past' p) :
    Overseen past' e :=
  ⟨fun ho => hover (h.known ho), h.asked, fun hq hd => (h.done hq hd).imp_left hover⟩

theorem submit (h : Overseen past e) (job : Job) : Overseen past (e.submit job) := by
  have hs : ∀ {r t p}, e.stage? r = some (.spawning t p) →
      (e.submit job).stage? r = some (.spawning t p) := by
    intro r t p hr
    have hne : r ≠ e.runs.length := by
      rintro rfl
      rw [e.stage?_length] at hr
      cases hr
    rw [Engine.stage?_submit, if_neg hne]
    exact hr
  refine h.advance rfl id (fun _ _ hr => hs hr) fun _ _ hx => .inr (.inr (hx.imp_right ?_))
  rintro ⟨r, t, hr⟩
  exact ⟨r, t, hs hr⟩

/-- Only the kills, the processes, the tracked process and the runs matter. -/
theorem congr (h : Overseen past e) (hk : e'.kills = e.kills) (hp : e'.processes = e.processes)
    (ht : e'.tracked = e.tracked) (hr : e'.runs = e.runs) : Overseen past e' := by
  refine h.advance hp (fun hx => hk ▸ hx) (fun _ _ hx => ?_) fun _ _ hx => .inr (.inr ?_)
  · unfold Engine.stage? at hx ⊢
    rwa [hr]
  · unfold Engine.Watched Engine.stage? at hx ⊢
    rwa [ht, hr]

/-- A tracked process that is given up is killed or over. -/
theorem given_up (h : Overseen past e) (hk : e'.kills = e.kills ++ e.victim.toList) {p : Nat}
    (ht : e.tracked = some p) : past p ∨ p ∈ e'.kills := by
  rcases e.victim_or_over ht with hv | ho
  · right
    rw [hk, hv]
    simp
  · exact .inl (h.known ho)

theorem reset (h : Overseen past e) : Overseen past e.reset := by
  have hfields : e.reset.processes = e.processes ∧ ∀ run, e.reset.stage? run = e.stage? run := by
    rw [Engine.reset_eq]
    exact ⟨rfl, fun _ => rfl⟩
  refine h.advance hfields.1 (fun hx => ?_) (fun _ _ hx => (hfields.2 _).trans hx)
    fun _ _ hx => ?_
  · rw [e.kills_reset]
    exact List.mem_append_left _ hx
  · rcases hx with ht | ⟨r, t, hr⟩
    · exact (h.given_up e.kills_reset ht).imp_right .inl
    · exact .inr (.inr (.inr ⟨r, t, (hfields.2 r).trans hr⟩))

theorem renew (h : Overseen past e) (ht : e.tracked = none) (compiler : Value) :
    Overseen past (e.renew compiler) := h.congr rfl rfl ht.symm rfl

/-- What is known about one process changes, and more processes may be over. -/
theorem setProcess (h : Overseen past e) {past' : Nat → Prop} (hover : ∀ {p}, past p → past' p)
    {process : Nat} {change : Process → Process} (hrun : e'.runs = e.runs)
    (htr : e'.tracked = e.tracked) (hk : e'.kills = e.kills)
    (hp : e'.processes = e.processes.modify process change)
    (hspawn : ∀ {q}, e.processes[process]? = some q →
      (change q).spawn = q.spawn ∨ q.spawn = .asked)
    (hknown : ∀ {p}, e'.isOver p = true → past' p) : Overseen past' e' := by
  have hs : ∀ r, e'.stage? r = e.stage? r := fun r => by
    unfold Engine.stage?
    rw [hrun]
  have hw : ∀ {p}, e.Watched p → e'.Watched p := fun {p} hx => by
    unfold Engine.Watched at hx ⊢
    simpa only [htr, hs] using hx
  -- a process that was not asked for a moment ago had its spawn answered before
  have hold : ∀ {p : Nat} {q' : Process}, e'.processes[p]? = some q' →
      ∃ q, e.processes[p]? = some q ∧ (q'.spawn = q.spawn ∨ q.spawn = .asked) := by
    intro p q' hq'
    rw [hp, List.getElem?_modify] at hq'
    obtain ⟨q, hq, rfl⟩ := Option.map_eq_some_iff.mp hq'
    refine ⟨q, hq, ?_⟩
    split
    · rename_i heq
      exact hspawn (heq ▸ hq)
    · exact .inl rfl
  refine ⟨hknown, fun {p q'} hq' ha => ?_, fun {p q'} hq' hd => ?_⟩
  · obtain ⟨q, hq, hcases⟩ := hold hq'
    have hasked : q.spawn = .asked := hcases.elim (fun heq => heq.symm.trans ha) id
    obtain ⟨r, t, hr⟩ := h.asked hq hasked
    exact ⟨r, t, (hs r).trans hr⟩
  · obtain ⟨q, hq, heq | hasked⟩ := hold hq'
    · rcases h.done hq (heq.symm.trans hd) with ho | hkill | hwatched
      · exact .inl (hover ho)
      · exact .inr (.inl (hk ▸ hkill))
      · exact .inr (.inr (hw hwatched))
    · obtain ⟨r, t, hr⟩ := h.asked hq hasked
      exact .inr (.inr (hw (.inr ⟨r, t, hr⟩)))

theorem answered (h : Overseen past e) {past' : Nat → Prop} (hover : ∀ {p}, past p → past' p)
    {answer : Answer} (answered : Answered e answer e')
    (hknown : ∀ {p}, e'.isOver p = true → past' p) : Overseen past' e' := by
  cases answered with
  | ignored =>
    exact ⟨hknown, h.asked, fun hq hd => (h.done hq hd).imp_left hover⟩
  | spawn _ process q spawn _ hq hs =>
    refine h.setProcess hover rfl rfl rfl rfl (fun hq' => .inr ?_) hknown
    rw [hq] at hq'
    cases hq'
    exact hs
  | reaped => exact h.setProcess hover rfl rfl rfl rfl (fun _ => .inl rfl) hknown
  | exited process q code output hq hs ho =>
    simp only at hknown ⊢
    split at hknown <;> rename_i haw <;> simp only [haw, ↓reduceIte]
    · exact h.setProcess hover rfl rfl rfl rfl (fun _ => .inl rfl) hknown
    · exact h.setProcess hover rfl rfl rfl rfl (fun _ => .inl rfl) hknown

theorem begin (h : Overseen past e) {run : Nat} {job : Job}
    (hw : e.runs[run]? = some { job, stage := .waiting }) : Overseen past (e.begin run job) := by
  have hs : ∀ {r t p}, e.stage? r = some (.spawning t p) →
      (e.begin run job).stage? r = some (.spawning t p) := by
    intro r t p hr
    have hne : run ≠ r := by
      rintro rfl
      simp [Engine.stage?, hw] at hr
    exact ((Turn.begins job hw).stage?_of_ne hne).trans hr
  refine ⟨fun {p} ho => ?_, fun {p q} hq ha => ?_, fun {p q} hq hd => ?_⟩
  · obtain ⟨q, hq, hq'⟩ := (Option.any_eq_true _ _).mp ho
    rcases e.processes_begin hq with hold | ⟨-, rfl⟩
    · exact h.known ((Option.any_eq_true _ _).mpr ⟨q, hold, hq'⟩)
    · simp at hq'
  · rcases e.processes_begin hq with hold | ⟨rfl, -⟩
    · obtain ⟨r, t, hr⟩ := h.asked hold ha
      exact ⟨r, t, hs hr⟩
    · exact ⟨run, _, e.stage?_begin hw⟩
  · rcases e.processes_begin hq with hold | ⟨-, rfl⟩
    · rcases h.done hold hd with ho | hkill | ht | ⟨r, t, hr⟩
      · exact .inl ho
      · refine .inr (.inl ?_)
        rw [e.kills_begin]
        exact List.mem_append_left _ hkill
      · exact (h.given_up (e.kills_begin run job) ht).imp_right .inl
      · exact .inr (.inr (.inr ⟨r, t, hs hr⟩))
    · cases hd

/-- A run goes on. If it awaited a spawn, that is answered, and it leaves its process
over, killed or watched. -/
theorem goes_on (h : Overseen past e) {run : Nat}
    (others : ∀ {r}, run ≠ r → e'.stage? r = e.stage? r) (hp : e'.processes = e.processes)
    (hk : ∀ {p}, p ∈ e.kills → p ∈ e'.kills)
    (ht : ∀ {p}, e.tracked = some p → past p ∨ e'.tracked = some p)
    (hrun : ∀ {t p}, e.stage? run = some (.spawning t p) → ∃ q, e.processes[p]? = some q ∧
      q.spawn ≠ .asked ∧ (q.spawn = .done → past p ∨ p ∈ e'.kills ∨ e'.Watched p)) :
    Overseen past e' := by
  refine h.advance hp hk (fun {r t p q} hq ha hr => ?_) fun {p q} hq hd hx => ?_
  · have hne : run ≠ r := by
      rintro rfl
      obtain ⟨q', hq', hanswered, -⟩ := hrun hr
      rw [hq] at hq'
      cases hq'
      exact hanswered ha
    exact (others hne).trans hr
  · rcases hx with hx | ⟨r, t, hr⟩
    · exact (ht hx).imp_right fun hx' => .inr (.inl hx')
    · by_cases hne : run = r
      · subst hne
        obtain ⟨q', hq', -, hleft⟩ := hrun hr
        rw [hq] at hq'
        cases hq'
        exact hleft hd
      · exact .inr (.inr (.inr ⟨r, t, (others hne).trans hr⟩))

/-- **A turn leaves no process alone.** -/
theorem turn (h : Overseen past e) (hl : Linked e) {run : Nat} {after : Engine × Option Outcome}
    {ms : List Moment} (turn : Turn e run after ms) : Overseen past after.1 := by
  have others : ∀ {r}, run ≠ r → after.1.stage? r = e.stage? r := fun hne => turn.stage?_of_ne hne
  cases turn with
  | idle => exact h
  | begins job hw => exact h.begin hw
  | fails t p q failure hs hq hf =>
    refine h.goes_on others rfl (fun hx => ?_) .inr fun hs' => ?_
    · rwa [e.kills_finish]
    · rw [hs] at hs'
      cases hs'
      exact ⟨q, hq, by simp [hf], fun hd => by simp [hf] at hd⟩
  | outrun t p q hs hq hd =>
    have hkilled : p ∈ ((e.note (.kill p)).finish run .superseded).1.kills := by
      rw [e.kills_outrun]
      simp
    refine h.goes_on others rfl (fun hx => ?_) .inr fun hs' => ?_
    · rw [e.kills_outrun]
      exact List.mem_append_left _ hx
    · rw [hs] at hs'
      cases hs'
      exact ⟨q, hq, by simp [hd], fun _ => .inr (.inl hkilled)⟩
  | tracks p q hs hq hd =>
    refine h.goes_on others rfl id (fun hx => ?_) fun hs' => ?_
    · rw [hl.tracked_eq_none hs] at hx
      cases hx
    · rw [hs] at hs'
      cases hs'
      exact ⟨q, hq, by simp [hd], fun _ => .inr (.inr (.inl rfl))⟩
  | readsAtOnce p q output hs hq hd ho =>
    refine h.goes_on others rfl (fun hx => ?_) (fun hx => ?_) fun hs' => ?_
    · rw [Engine.kills_finish]
      exact hx
    · rw [hl.tracked_eq_none hs] at hx
      cases hx
    · rw [hs] at hs'
      cases hs'
      exact ⟨q, hq, by simp [hd], fun _ => .inl (h.known (e.isOver_of_output hq ho))⟩
  | reads p q output hs hq ho =>
    refine h.goes_on others rfl (fun hx => ?_) (fun hx => .inl ?_) fun hs' => ?_
    · rw [Engine.kills_finish]
      exact hx
    · -- the tracked process is the one whose output is read
      rw [hl.tracked.mpr ⟨run, hs⟩] at hx
      cases hx
      exact h.known (e.isOver_of_output hq ho)
    · rw [hs] at hs'
      cases hs'
  | readsLate t p q output hs =>
    refine h.goes_on others rfl (fun hx => ?_) .inr fun hs' => ?_
    · rwa [e.kills_finish]
    · rw [hs] at hs'
      cases hs'

end Overseen

end Compile
end RenServer
