/- # How runs, processes and the tracked process hang together

Every run that is under way holds a ticket of its own, none newer than the
engine's, and a process that it asked for itself. The tracked process is the one
whose output the run with the engine's ticket awaits, and no process is tracked
when there is no such run (`Linked`). A run that can go on is queued (`Awake`),
so that when the queue is empty every answer has reached its run.

Both hold after every operation of the engine.

Key definitions: `Linked`, `Awake`.
Key theorems: `Linked.turn`, `Linked.answered`, `Awake.turn`, `Awake.answered`.
-/
import RenServer.Proofs.Compile.Turns

namespace RenServer
namespace Compile

/-! ### The order of tickets -/

instance : LE Ticket :=
  ⟨fun t u => t.session < u.session ∨ t.session = u.session ∧ t.generation ≤ u.generation⟩

instance : LT Ticket :=
  ⟨fun t u => t.session < u.session ∨ t.session = u.session ∧ t.generation < u.generation⟩

theorem Ticket.le_def {t u : Ticket} :
    t ≤ u ↔ t.session < u.session ∨ t.session = u.session ∧ t.generation ≤ u.generation := Iff.rfl

theorem Ticket.lt_def {t u : Ticket} :
    t < u ↔ t.session < u.session ∨ t.session = u.session ∧ t.generation < u.generation := Iff.rfl

theorem Ticket.le_refl (t : Ticket) : t ≤ t := .inr ⟨rfl, Nat.le_refl _⟩

theorem Ticket.lt_of_le_of_lt {t u v : Ticket} (h : t ≤ u) (h' : u < v) : t < v := by
  rw [Ticket.le_def] at h
  rw [Ticket.lt_def] at h' ⊢
  omega

theorem Ticket.le_of_lt {t u : Ticket} (h : t < u) : t ≤ u := by
  rw [Ticket.lt_def] at h
  rw [Ticket.le_def]
  omega

theorem Ticket.not_le_of_lt {t u : Ticket} (h : t < u) : ¬ u ≤ t := by
  rw [Ticket.lt_def] at h
  rw [Ticket.le_def]
  omega

theorem Ticket.ne_of_lt {t u : Ticket} (h : t < u) : t ≠ u :=
  fun heq => Ticket.not_le_of_lt h (heq ▸ Ticket.le_refl t)

namespace Engine

variable (e : Engine)

theorem ticket_lt_reset : e.ticket < ⟨e.session, e.generation + 1⟩ := .inr ⟨rfl, Nat.lt_succ_self _⟩

theorem ticket_lt_renew : e.ticket < ⟨e.session + 1, 0⟩ := .inl (Nat.lt_succ_self _)

theorem turn?_eq_some {run : Nat} {ticket : Ticket} {process : Nat} :
    e.turn? run = some (ticket, process) ↔
      e.stage? run = some (.spawning ticket process) ∨
        e.stage? run = some (.collecting ticket process) := by
  unfold turn?
  cases h : e.stage? run with
  | none => simp
  | some stage => cases stage <;> simp [Stage.turn?]

theorem turn?_submit (job : Job) (r : Nat) : (e.submit job).turn? r = e.turn? r := by
  unfold turn?
  rw [stage?_submit]
  by_cases h : r = e.runs.length
  · subst h
    simp [stage?_length, Stage.turn?]
  · simp [h]

theorem collecting_submit (job : Job) {r : Nat} {ticket : Ticket} {process : Nat} :
    (e.submit job).stage? r = some (.collecting ticket process) ↔
      e.stage? r = some (.collecting ticket process) := by
  rw [stage?_submit]
  by_cases h : r = e.runs.length
  · subst h
    simp [stage?_length]
  · simp [h]

end Engine

/-- The runs under way, their processes and the tracked process hang together. -/
structure Linked (e : Engine) : Prop where
  le : ∀ {r t p}, e.turn? r = some (t, p) → t ≤ e.ticket
  distinct : ∀ {r r' t p p'}, e.turn? r = some (t, p) → e.turn? r' = some (t, p') → r = r'
  process : ∀ {r t p}, e.turn? r = some (t, p) → ∃ q, e.processes[p]? = some q ∧ q.run = r
  spawned : ∀ {r t p q}, e.stage? r = some (.collecting t p) → e.processes[p]? = some q →
    q.spawn = .done
  tracked : ∀ {p}, e.tracked = some p ↔ ∃ r, e.stage? r = some (.collecting e.ticket p)

namespace Turn

variable {e : Engine} {run : Nat} {after : Engine × Option Outcome} {ms : List Moment}

/-- A turn leaves the other runs where they are. -/
theorem stage?_of_ne (turn : Turn e run after ms) {r : Nat} (h : run ≠ r) :
    after.1.stage? r = e.stage? r := by
  cases turn with
  | idle => rfl
  | begins job =>
    rw [Engine.begin_eq]
    exact e.stage?_setStage_ne h _
  | fails => exact e.stage?_setStage_ne h _
  | outrun => exact e.stage?_setStage_ne h _
  | tracks => exact e.stage?_setStage_ne h _
  | readsAtOnce => exact e.stage?_setStage_ne h _
  | reads => exact e.stage?_setStage_ne h _
  | readsLate => exact e.stage?_setStage_ne h _

theorem turn?_of_ne (turn : Turn e run after ms) {r : Nat} (h : run ≠ r) :
    after.1.turn? r = e.turn? r := by
  unfold Engine.turn?
  rw [turn.stage?_of_ne h]

theorem queue_eq (turn : Turn e run after ms) : after.1.queue = e.queue := by
  cases turn with
  | begins job =>
    rw [Engine.begin_eq]
    rfl
  | _ => rfl

/-- A turn keeps what is known about processes. -/
theorem processes_of_some (turn : Turn e run after ms) {p : Nat} {q : Process}
    (h : e.processes[p]? = some q) : after.1.processes[p]? = some q := by
  cases turn with
  | begins job =>
    rw [Engine.begin_eq]
    obtain ⟨hlt, -⟩ := List.getElem?_eq_some_iff.mp h
    simpa [List.getElem?_append_left hlt] using h
  | _ => exact h

theorem stage?_of_ended (turn : Turn e run after ms) {outcome : Outcome}
    (h : after.2 = some outcome) : after.1.stage? run = some .ended := by
  cases turn with
  | idle => simp at h
  | begins => simp at h
  | tracks => simp at h
  | fails _ _ _ _ hs => exact e.stage?_setStage_self hs .ended
  | outrun _ _ _ hs => exact e.stage?_setStage_self hs .ended
  | readsAtOnce _ _ _ hs => exact e.stage?_setStage_self hs .ended
  | reads _ _ _ hs => exact e.stage?_setStage_self hs .ended
  | readsLate _ _ _ _ hs => exact e.stage?_setStage_self hs .ended

/-- A run that went on cannot go on any more. -/
theorem not_ready (turn : Turn e run after ms) : after.1.ready run = false := by
  have ended : ∀ outcome, after.2 = some outcome → after.1.ready run = false := fun _ ho => by
    simp [Engine.ready, turn.stage?_of_ended ho]
  cases turn with
  | idle h => exact h
  | begins job hw =>
    simp [Engine.ready, e.stage?_begin hw, e.getElem?_begin run job]
  | tracks p q h hq hs ho =>
    simp only [Engine.ready, e.stage?_track h]
    simp [Engine.setStage, hq, ho]
  | _ => exact ended _ rfl

end Turn

namespace Linked

variable {e : Engine}

/-- Only the runs, the processes, the tracked process and the ticket matter. -/
theorem congr (h : Linked e) {e' : Engine} (hr : e'.runs = e.runs)
    (hp : e'.processes = e.processes) (ht : e'.tracked = e.tracked) (hk : e'.ticket = e.ticket) :
    Linked e' := by
  have hs : ∀ r, e'.stage? r = e.stage? r := fun r => by rw [Engine.stage?, hr]; rfl
  have hturn : ∀ r, e'.turn? r = e.turn? r := fun r => by rw [Engine.turn?, hs]; rfl
  constructor <;> simp only [hs, hturn, hp, ht, hk]
  · exact h.le
  · exact h.distinct
  · exact h.process
  · exact h.spawned
  · exact h.tracked

theorem submit (h : Linked e) (job : Job) : Linked (e.submit job) where
  le ht := h.le (by rwa [Engine.turn?_submit] at ht)
  distinct ht ht' := by
    rw [Engine.turn?_submit] at ht ht'
    exact h.distinct ht ht'
  process ht := h.process (by rwa [Engine.turn?_submit] at ht)
  spawned hs hq := h.spawned ((e.collecting_submit job).mp hs) hq
  tracked := h.tracked.trans (exists_congr fun _ => (e.collecting_submit job).symm)

/-- An engine with the same runs and processes, a newer ticket and no tracked
process. -/
theorem advance (h : Linked e) {e' : Engine} (hr : e'.runs = e.runs)
    (hp : e'.processes = e.processes) (ht : e'.tracked = none) (hlt : e.ticket < e'.ticket) :
    Linked e' := by
  have hs : ∀ r, e'.stage? r = e.stage? r := fun r => by rw [Engine.stage?, hr]; rfl
  have hturn : ∀ r, e'.turn? r = e.turn? r := fun r => by rw [Engine.turn?, hs]; rfl
  refine ⟨fun htu => ?_, fun htu htu' => ?_, fun htu => ?_, fun hst hq => ?_, ?_⟩
  · rw [hturn] at htu
    exact Ticket.le_of_lt (Ticket.lt_of_le_of_lt (h.le htu) hlt)
  · rw [hturn] at htu htu'
    exact h.distinct htu htu'
  · rw [hturn] at htu
    rw [hp]
    exact h.process htu
  · rw [hs] at hst
    rw [hp] at hq
    exact h.spawned hst hq
  · intro p
    rw [ht]
    refine ⟨fun hn => by simp at hn, ?_⟩
    rintro ⟨r, hst⟩
    rw [hs] at hst
    exact absurd (h.le (e.turn?_eq_some.mpr (.inr hst))) (Ticket.not_le_of_lt hlt)

theorem reset (h : Linked e) : Linked e.reset := by
  rw [Engine.reset_eq]
  exact h.advance rfl rfl rfl e.ticket_lt_reset

theorem renew (h : Linked e) (compiler : Value) : Linked (e.renew compiler) :=
  h.advance rfl rfl rfl e.ticket_lt_renew

/-- What is known about one process changes; who asked for it stays, and so does
that it was spawned. -/
theorem setProcess (h : Linked e) (process : Nat) (change : Process → Process)
    (hrun : ∀ q, (change q).run = q.run)
    (hdone : ∀ q, e.processes[process]? = some q → q.spawn = .done → (change q).spawn = .done) :
    Linked (e.setProcess process change) := by
  refine ⟨h.le, h.distinct, fun {r t p} ht => ?_, fun {r t p q'} hs hq' => ?_, h.tracked⟩
  · obtain ⟨q, hq, hr⟩ := h.process ht
    refine ⟨_, e.getElem?_setProcess.mpr ⟨q, hq, rfl⟩, ?_⟩
    split
    · rw [hrun, hr]
    · exact hr
  · obtain ⟨q, hq, rfl⟩ := e.getElem?_setProcess.mp hq'
    have hd := h.spawned hs hq
    split
    · rename_i heq
      exact hdone q (heq ▸ hq) hd
    · exact hd

theorem enqueue (h : Linked e) (run : Nat) : Linked (e.enqueue run) := h.congr rfl rfl rfl rfl

theorem answered (h : Linked e) {answer : Answer} {e' : Engine} (answered : Answered e answer e') :
    Linked e' := by
  cases answered with
  | ignored => exact h
  | spawn _ process q spawn _ hq hs =>
    have h' := h.setProcess process (fun p => { p with spawn }) (fun _ => rfl) fun q' hq' hd => by
      rw [hq] at hq'
      cases hq'
      rw [hs] at hd
      cases hd
    exact h'.enqueue q.run
  | reaped process q code =>
    exact h.setProcess process (fun p => { p with code }) (fun _ => rfl) fun _ _ hd => hd
  | exited process q code output =>
    have h' := h.setProcess process (fun p => { p with code, output := some output })
      (fun _ => rfl) fun _ _ hd => hd
    simp only
    split
    · exact h'.enqueue q.run
    · exact h'

/-- A run comes to a stage with the ticket and the process that it has, or ends,
and the tracked process changes with it. -/
theorem setStage (h : Linked e) {run : Nat} {old : Stage} (hs : e.stage? run = some old)
    (new : Stage) (hold : ∀ x, new.turn? = some x → old.turn? = some x)
    (hdone : ∀ {t p q}, new = .collecting t p → e.processes[p]? = some q → q.spawn = .done)
    {tracked : Option Nat}
    (ht : ∀ {p}, tracked = some p ↔
      new = .collecting e.ticket p ∨ ∃ r, r ≠ run ∧ e.stage? r = some (.collecting e.ticket p)) :
    Linked ({ e with tracked }.setStage run new) := by
  have hself : ({ e with tracked }.setStage run new).stage? run = some new :=
    e.stage?_setStage_self hs new
  have hother : ∀ {r}, r ≠ run → ({ e with tracked }.setStage run new).stage? r = e.stage? r :=
    fun hne => e.stage?_setStage_ne hne.symm new
  have hturn : ∀ {r x}, ({ e with tracked }.setStage run new).turn? r = some x →
      e.turn? r = some x := by
    intro r x hx
    unfold Engine.turn? at hx ⊢
    by_cases hr : r = run
    · subst hr
      rw [hself] at hx
      rw [hs]
      exact hold x hx
    · rwa [hother hr] at hx
  refine ⟨fun hx => h.le (hturn hx), fun hx hx' => h.distinct (hturn hx) (hturn hx'),
    fun hx => h.process (hturn hx), fun {r t p q} hx hq => ?_, ?_⟩
  · by_cases hr : r = run
    · subst hr
      exact hdone (Option.some.inj (hself.symm.trans hx)) hq
    · exact h.spawned (by rwa [hother hr] at hx) hq
  · intro p
    refine Iff.trans ht ?_
    constructor
    · rintro (rfl | ⟨r, hr, hx⟩)
      · exact ⟨run, hself⟩
      · exact ⟨r, (hother hr).trans hx⟩
    · rintro ⟨r, hx⟩
      by_cases hr : r = run
      · subst hr
        exact .inl (Option.some.inj (hself.symm.trans hx))
      · exact .inr ⟨r, hr, (hother hr).symm.trans hx⟩

/-- A run ends. -/
theorem finish (h : Linked e) {run : Nat} {stage : Stage} (hs : e.stage? run = some stage)
    {tracked : Option Nat} (outcome : Outcome)
    (ht : ∀ {p}, tracked = some p ↔ ∃ r, r ≠ run ∧ e.stage? r = some (.collecting e.ticket p)) :
    Linked ({ e with tracked }.finish run outcome).1 := by
  have h' := h.setStage hs .ended (by simp [Stage.turn?]) (by simp) (ht.trans (by simp))
  exact h'.congr rfl rfl rfl rfl

/-- A run begins. -/
theorem begin (h : Linked e) {run : Nat} {job : Job}
    (hw : e.runs[run]? = some { job, stage := .waiting }) : Linked (e.begin run job) := by
  have hself := e.stage?_begin hw
  have hother : ∀ {r}, r ≠ run → (e.begin run job).stage? r = e.stage? r := fun hne =>
    (Turn.begins job hw).stage?_of_ne hne.symm
  have hticket := e.ticket_begin run job
  have hold : ∀ {p q}, e.processes[p]? = some q → (e.begin run job).processes[p]? = some q :=
    (Turn.begins job hw).processes_of_some
  have hturn : ∀ {r t p}, (e.begin run job).turn? r = some (t, p) →
      (r = run ∧ t = (e.begin run job).ticket ∧ p = e.processes.length) ∨
        (r ≠ run ∧ e.turn? r = some (t, p)) := by
    intro r t p hx
    unfold Engine.turn? at hx ⊢
    by_cases hr : r = run
    · subst hr
      simp only [hself, Option.bind_some, Stage.turn?, Option.some.injEq, Prod.mk.injEq] at hx
      exact .inl ⟨rfl, by rw [hticket, hx.1], hx.2.symm⟩
    · rw [hother hr] at hx
      exact .inr ⟨hr, hx⟩
  have hlt : ∀ {r t p}, e.turn? r = some (t, p) → t < (e.begin run job).ticket := by
    intro r t p hx
    rw [hticket]
    exact Ticket.lt_of_le_of_lt (h.le hx) e.ticket_lt_reset
  refine ⟨fun hx => ?_, fun hx hx' => ?_, fun {r t p} hx => ?_, fun {r t p q} hx hq => ?_, ?_⟩
  · rcases hturn hx with ⟨-, rfl, -⟩ | ⟨-, hx⟩
    · exact Ticket.le_refl _
    · exact Ticket.le_of_lt (hlt hx)
  · rcases hturn hx with ⟨rfl, ht, -⟩ | ⟨-, hy⟩ <;> rcases hturn hx' with ⟨rfl, ht', -⟩ | ⟨-, hy'⟩
    · rfl
    · exact absurd ht (Ticket.ne_of_lt (hlt hy'))
    · exact absurd ht' (Ticket.ne_of_lt (hlt hy))
    · exact h.distinct hy hy'
  · rcases hturn hx with ⟨rfl, -, rfl⟩ | ⟨-, hx⟩
    · exact ⟨_, e.getElem?_begin r job, rfl⟩
    · obtain ⟨q, hq, hr⟩ := h.process hx
      exact ⟨q, hold hq, hr⟩
  · by_cases hr : r = run
    · subst hr
      simp [hself] at hx
    · rw [hother hr] at hx
      obtain ⟨q', hq', -⟩ := h.process (e.turn?_eq_some.mpr (.inr hx))
      have := hold hq'
      rw [hq] at this
      cases this
      exact h.spawned hx hq'
  · intro p
    have hnone : (e.begin run job).tracked = none := by
      rw [Engine.begin_eq]
    rw [hnone]
    refine ⟨fun hn => by simp at hn, ?_⟩
    rintro ⟨r, hx⟩
    by_cases hr : r = run
    · subst hr
      simp [hself] at hx
    · rw [hother hr] at hx
      exact absurd rfl (Ticket.ne_of_lt (hlt (e.turn?_eq_some.mpr (.inr hx))))

/-- **The runs hang together after every turn.** -/
theorem turn (h : Linked e) {run : Nat} {after : Engine × Option Outcome} {ms : List Moment}
    (turn : Turn e run after ms) : Linked after.1 := by
  -- a run that does not hold the engine's ticket and awaits output leaves the tracked process alone
  have stays : (∀ p, e.stage? run ≠ some (.collecting e.ticket p)) → ∀ {p},
      e.tracked = some p ↔ ∃ r, r ≠ run ∧ e.stage? r = some (.collecting e.ticket p) := by
    intro hne p
    rw [h.tracked]
    constructor
    · rintro ⟨r, hr⟩
      refine ⟨r, ?_, hr⟩
      rintro rfl
      exact hne p hr
    · rintro ⟨r, -, hr⟩
      exact ⟨r, hr⟩
  -- no other run holds the engine's ticket
  have alone : ∀ {p}, e.turn? run = some (e.ticket, p) → ∀ {p' : Nat},
      none = some p' ↔ ∃ r, r ≠ run ∧ e.stage? r = some (.collecting e.ticket p') := by
    intro p hp p'
    refine ⟨fun hn => by simp at hn, ?_⟩
    rintro ⟨r, hne, hr⟩
    exact absurd (h.distinct (e.turn?_eq_some.mpr (.inr hr)) hp) hne
  cases turn with
  | idle => exact h
  | begins job hw => exact h.begin hw
  | fails t p q failure hs => exact h.finish hs _ (stays fun p' => by simp [hs])
  | outrun t p q hs =>
    have h' := h.finish hs .superseded (stays fun p' => by simp [hs])
    exact h'.congr rfl rfl rfl rfl
  | tracks p q hs hq hd =>
    refine h.setStage hs (.collecting e.ticket p) (fun _ hx => hx) (fun hc hq' => ?_) fun {p'} => ?_
    · cases hc
      rw [hq] at hq'
      cases hq'
      exact hd
    · simp only [← alone (e.turn?_eq_some.mpr (.inl hs)), reduceCtorEq, or_false,
        Option.some.injEq, Stage.collecting.injEq, true_and]
  | readsAtOnce p q output hs =>
    exact h.finish hs _ (alone (e.turn?_eq_some.mpr (.inl hs)))
  | reads p q output hs => exact h.finish hs _ (alone (e.turn?_eq_some.mpr (.inr hs)))
  | readsLate t p q output hs hq ho ht =>
    refine h.finish hs _ (stays fun p' hp' => ht ?_)
    rw [hs] at hp'
    cases hp'
    rfl

end Linked

/-! ### No answer is lost -/

/-- Every run that can go on is queued. -/
def Awake (e : Engine) : Prop := ∀ run, e.ready run = true → run ∈ e.queue

namespace Engine

variable (e : Engine)

theorem ready_iff {run : Nat} :
    e.ready run = true ↔
      e.stage? run = some .waiting ∨
        (∃ t p q, e.stage? run = some (.spawning t p) ∧ e.processes[p]? = some q ∧
          q.spawn ≠ .asked) ∨
        ∃ t p q, e.stage? run = some (.collecting t p) ∧ e.processes[p]? = some q ∧
          q.output.isSome = true := by
  unfold ready
  cases h : e.stage? run with
  | none => simp
  | some stage =>
    cases stage with
    | waiting => simp
    | spawning t p =>
      simp only [Option.any_eq_true, decide_eq_true_eq]
      constructor
      · rintro ⟨q, hq, hs⟩
        exact .inr (.inl ⟨t, p, q, rfl, hq, hs⟩)
      · rintro (h | ⟨_, _, q, h, hq, hs⟩ | ⟨_, _, _, h, -⟩) <;> cases h
        exact ⟨q, hq, hs⟩
    | collecting t p =>
      simp only [Option.any_eq_true]
      constructor
      · rintro ⟨q, hq, ho⟩
        exact .inr (.inr ⟨t, p, q, rfl, hq, ho⟩)
      · rintro (h | ⟨_, _, _, h, -⟩ | ⟨_, _, q, h, hq, ho⟩) <;> cases h
        exact ⟨q, hq, ho⟩
    | ended => simp

theorem awaits_of_collecting {run : Nat} {t : Ticket} {p : Nat}
    (h : e.stage? run = some (.collecting t p)) : e.awaits run p = true := by
  obtain ⟨⟨job, stage⟩, hr, rfl⟩ := Option.map_eq_some_iff.mp h
  simp [awaits, hr]

end Engine

namespace Awake

variable {e : Engine}

theorem submit (h : Awake e) (job : Job) : Awake (e.submit job) := by
  intro r hr
  by_cases hnew : r = e.runs.length
  · subst hnew
    simp [Engine.submit]
  · have hs : (e.submit job).stage? r = e.stage? r := by simp [Engine.stage?_submit, hnew]
    have : e.ready r = true := by
      unfold Engine.ready at hr ⊢
      rwa [hs] at hr
    exact List.mem_append_left _ (h r this)

/-- The process of a run that can only go on after a process was changed is the
changed one. -/
theorem setProcess (h : Awake e) (process : Nat) (change : Process → Process) {r : Nat}
    (hr : (e.setProcess process change).ready r = true) :
    r ∈ e.queue ∨ ∃ q, e.processes[process]? = some q ∧
      ((∃ t, e.stage? r = some (.spawning t process) ∧ q.spawn = .asked ∧
          (change q).spawn ≠ .asked) ∨
        ∃ t, e.stage? r = some (.collecting t process) ∧ q.output.isSome = false ∧
          (change q).output.isSome = true) := by
  rcases (Engine.ready_iff _).mp hr with hw | ⟨t, p, q', hs, hq', hsp⟩ | ⟨t, p, q', hs, hq', ho⟩
  · exact .inl (h r (e.ready_iff.mpr (.inl hw)))
  · obtain ⟨q, hq, rfl⟩ := e.getElem?_setProcess.mp hq'
    by_cases hask : q.spawn = .asked
    · split at hsp
      · rename_i heq
        subst heq
        exact .inr ⟨q, hq, .inl ⟨t, hs, hask, hsp⟩⟩
      · exact absurd hask hsp
    · exact .inl (h r (e.ready_iff.mpr (.inr (.inl ⟨t, p, q, hs, hq, hask⟩))))
  · obtain ⟨q, hq, rfl⟩ := e.getElem?_setProcess.mp hq'
    by_cases hout : q.output.isSome = true
    · exact .inl (h r (e.ready_iff.mpr (.inr (.inr ⟨t, p, q, hs, hq, hout⟩))))
    · split at ho
      · rename_i heq
        subst heq
        exact .inr ⟨q, hq, .inr ⟨t, hs, by simpa using hout, ho⟩⟩
      · exact absurd ho hout

theorem answered (h : Awake e) (hl : Linked e) {answer : Answer} {e' : Engine}
    (answered : Answered e answer e') : Awake e' := by
  cases answered with
  | ignored => exact h
  | spawn _ process q spawn _ hq hs =>
    intro r hr
    refine List.mem_append.mpr ?_
    rcases h.setProcess process _ hr with hmem | ⟨q', hq', ⟨t, hst, -⟩ | ⟨t, -, ho, ho'⟩⟩
    · exact .inl hmem
    · obtain ⟨q'', hq'', rfl⟩ := hl.process (e.turn?_eq_some.mpr (.inl hst))
      rw [hq] at hq''
      cases hq''
      exact .inr List.mem_cons_self
    · rw [ho] at ho'
      cases ho'
  | reaped process q code hq hs =>
    intro r hr
    rcases h.setProcess process _ hr with hmem | ⟨q', hq', ⟨t, -, ha, ha'⟩ | ⟨t, -, ho, ho'⟩⟩
    · exact hmem
    · exact absurd ha ha'
    · rw [ho] at ho'
      cases ho'
  | exited process q code output hq hs ho =>
    have wakes : ∀ r,
        (e.setProcess process fun p => { p with code, output := some output }).ready r →
        r ∈ e.queue ∨ (r = q.run ∧ e.awaits q.run process = true) := by
      intro r hr
      rcases h.setProcess process _ hr with hmem | ⟨q', -, ⟨t, -, ha, ha'⟩ | ⟨t, hst, -⟩⟩
      · exact .inl hmem
      · exact absurd ha ha'
      · obtain ⟨q'', hq'', rfl⟩ := hl.process (e.turn?_eq_some.mpr (.inr hst))
        rw [hq] at hq''
        cases hq''
        exact .inr ⟨rfl, e.awaits_of_collecting hst⟩
    intro r hr
    simp only at hr ⊢
    split at hr <;> rename_i haw <;> simp only [haw, ↓reduceIte]
    · refine List.mem_append.mpr ((wakes r hr).imp_right ?_)
      rintro ⟨rfl, -⟩
      exact List.mem_cons_self
    · exact (wakes r hr).elim id fun hx => absurd hx.2 haw

/-- **A run that went on cannot go on any more,** and whoever else can is still
queued. -/
theorem turn {run : Nat} (hl : Linked e) (h : ∀ r, e.ready r = true → r ∈ run :: e.queue)
    {after : Engine × Option Outcome} {ms : List Moment} (turn : Turn e run after ms) :
    Awake after.1 := by
  have others : ∀ r, run ≠ r → after.1.ready r = true → r ∈ after.1.queue := by
    intro r hne hr
    rw [turn.queue_eq]
    have hready : e.ready r = true := by
      rcases (Engine.ready_iff _).mp hr with hw | ⟨t, p, q, hs, hq, hx⟩ | ⟨t, p, q, hs, hq, hx⟩
      · exact e.ready_iff.mpr (.inl ((turn.stage?_of_ne hne).symm.trans hw))
      · rw [turn.stage?_of_ne hne] at hs
        obtain ⟨q', hq', -⟩ := hl.process (e.turn?_eq_some.mpr (.inl hs))
        rw [turn.processes_of_some hq'] at hq
        cases hq
        exact e.ready_iff.mpr (.inr (.inl ⟨t, p, q, hs, hq', hx⟩))
      · rw [turn.stage?_of_ne hne] at hs
        obtain ⟨q', hq', -⟩ := hl.process (e.turn?_eq_some.mpr (.inr hs))
        rw [turn.processes_of_some hq'] at hq
        cases hq
        exact e.ready_iff.mpr (.inr (.inr ⟨t, p, q, hs, hq', hx⟩))
    exact (List.mem_cons.mp (h r hready)).resolve_left hne.symm
  intro r hr
  by_cases hne : run = r
  · subst hne
    exact absurd hr (by simp [turn.not_ready])
  · exact others r hne hr

end Awake

end Compile
end RenServer
