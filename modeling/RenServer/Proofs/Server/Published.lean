/- # The server knows what the client shows

The client shows the list that it was sent last for a document, and forgets all lists
when a session ends. The server keeps the documents with a list that is not empty, and
nothing else, in every state.

`Sends` says what a step sends, and that it sends nothing else (`Server.step_sends`).
The documents that the server keeps are a fold over all that was sent
(`Server.published_eq_foldl`), and so they are those whose last list is not empty
(`mem_foldl_update`). When a compiler cannot be run the lists that are shown are taken
back, each once.

Key definitions: `Notice`, `Shows`, `Server.record`, `Sends`.
Key theorems: `Server.step_sends`, `Server.published_eq_foldl`, `mem_foldl_update`,
`Server.published_mirrors_client`.
-/
import Mathlib.Data.List.Induction
import RenServer.Proofs.Server.Operations

namespace RenServer

open Compile

/-! ### Ordered lists of texts -/

theorem mem_insertOrdered {s t : String} {texts : List String} :
    t ∈ insertOrdered s texts ↔ t = s ∨ t ∈ texts := by
  fun_induction insertOrdered s texts with
  | case1 => simp
  | case2 => simp
  | case3 => simp
  | case4 u rest _ _ ih =>
    rw [List.mem_cons, ih, List.mem_cons]
    exact or_left_comm

theorem pairwise_insertOrdered {s : String} {texts : List String}
    (h : texts.Pairwise (· < ·)) : (insertOrdered s texts).Pairwise (· < ·) := by
  fun_induction insertOrdered s texts with
  | case1 => exact List.pairwise_singleton ..
  | case2 t rest hlt =>
    refine List.pairwise_cons.mpr ⟨fun u hu => ?_, h⟩
    rcases List.mem_cons.mp hu with rfl | hu
    · exact hlt
    · exact String.lt_trans hlt (List.rel_of_pairwise_cons h hu)
  | case3 => exact h
  | case4 t rest hlt hne ih =>
    have hts : t < s := String.not_le.mp fun hle => hne (String.le_antisymm hle (String.not_lt.mp hlt))
    refine List.pairwise_cons.mpr ⟨fun u hu => ?_, ih (List.pairwise_cons.mp h).2⟩
    rcases mem_insertOrdered.mp hu with rfl | hu
    · exact hts
    · exact List.rel_of_pairwise_cons h hu

/-! ### What the client is told -/

/-- What the client learns about diagnostics. -/
inductive Notice where
  /-- All diagnostics of a document. -/
  | sent (uri : String) (diagnostics : List Diagnostic)
  /-- The session ends, and with it all that was sent. -/
  | cleared

namespace Notice

def isSent : Notice → Bool
  | .sent _ _ => true
  | .cleared => false

/-- The list that a notice gives a document. -/
def listFor? (uri : String) : Notice → Option (List Diagnostic)
  | .sent u diagnostics => if u = uri then some diagnostics else none
  | .cleared => none

/-- The documents with diagnostics after a notice. -/
def update (published : List String) : Notice → List String
  | .sent uri diagnostics =>
    if diagnostics.isEmpty then published.filter (· ≠ uri) else insertOrdered uri published
  | .cleared => []

end Notice

/-- The client shows a list for a document: it was sent, and nothing since then replaced
it or ended the session. -/
def Shows (record : List Notice) (uri : String) (diagnostics : List Diagnostic) : Prop :=
  ∃ before after, record = before ++ .sent uri diagnostics :: after ∧
    (∀ list, .sent uri list ∉ after) ∧ .cleared ∉ after

section Shows

variable {record : List Notice} {uri : String} {diagnostics : List Diagnostic}

theorem not_shows_nil : ¬ Shows [] uri diagnostics := by
  rintro ⟨before, after, h, -⟩
  simp at h

/-- What is shown after one more notice. -/
theorem shows_snoc {notice : Notice} :
    Shows (record ++ [notice]) uri diagnostics ↔
      notice = .sent uri diagnostics ∨
        Shows record uri diagnostics ∧ (∀ list, notice ≠ .sent uri list) ∧ notice ≠ .cleared := by
  constructor
  · rintro ⟨before, after, h, hnone, hclear⟩
    -- the new notice is the one that sent the list, or it is the last since then
    rcases List.eq_nil_or_concat after with rfl | ⟨init, last, rfl⟩
    · exact .inl (List.append_inj_right' h rfl |> List.singleton_inj.mp)
    · rw [List.concat_eq_append, ← List.cons_append, ← List.append_assoc] at h
      obtain ⟨hinit, hlast⟩ := List.append_inj' h rfl
      cases hlast
      simp only [List.concat_eq_append, List.mem_append, List.mem_singleton, not_or] at hnone hclear
      exact .inr ⟨⟨before, init, hinit, fun list => (hnone list).1, hclear.1⟩,
        fun list => Ne.symm (hnone list).2, Ne.symm hclear.2⟩
  · rintro (rfl | ⟨⟨before, after, rfl, hnone, hclear⟩, hother, hgoes⟩)
    · exact ⟨record, [], rfl, by simp, by simp⟩
    · refine ⟨before, after ++ [notice], by simp, fun list hm => ?_, fun hm => ?_⟩
      · rcases List.mem_append.mp hm with hm | hm
        · exact hnone list hm
        · exact hother list (List.mem_singleton.mp hm).symm
      · rcases List.mem_append.mp hm with hm | hm
        · exact hclear hm
        · exact hgoes (List.mem_singleton.mp hm).symm

/-- A list is the one that was sent last. -/
theorem Shows.eq_of_snoc {list : List Diagnostic}
    (h : Shows (record ++ [.sent uri list]) uri diagnostics) : diagnostics = list := by
  rcases shows_snoc.mp h with heq | ⟨-, hother, -⟩
  · cases heq
    rfl
  · exact absurd rfl (hother list)

/-- A list that is shown was shown before or is new. -/
theorem Shows.of_append {more : List Notice} (h : Shows (record ++ more) uri diagnostics) :
    .sent uri diagnostics ∈ more ∨ Shows record uri diagnostics := by
  induction more using List.reverseRecOn with
  | nil => exact .inr (by simpa using h)
  | append_singleton more notice ih =>
    rw [← List.append_assoc] at h
    rcases shows_snoc.mp h with rfl | ⟨h, -⟩
    · exact .inl (by simp)
    · exact (ih h).imp_left (List.mem_append_left _)

end Shows

/-- The documents that a fold over the notices keeps are in order, so none is kept twice. -/
theorem pairwise_foldl_update {published : List String} (h : published.Pairwise (· < ·))
    (record : List Notice) : (record.foldl Notice.update published).Pairwise (· < ·) := by
  induction record generalizing published with
  | nil => exact h
  | cons notice record ih =>
    refine ih ?_
    cases notice with
    | cleared => exact List.Pairwise.nil
    | sent uri diagnostics =>
      simp only [Notice.update]
      split
      · exact h.filter _
      · exact pairwise_insertOrdered h

/-- **A fold over the notices keeps the documents whose last list is not empty.** -/
theorem mem_foldl_update {record : List Notice} {uri : String} :
    uri ∈ record.foldl Notice.update [] ↔
      ∃ diagnostics, diagnostics ≠ [] ∧ Shows record uri diagnostics := by
  induction record using List.reverseRecOn with
  | nil => simp [not_shows_nil]
  | append_singleton record notice ih =>
    rw [List.foldl_append, List.foldl_cons, List.foldl_nil]
    cases notice with
    | cleared => simp [Notice.update, shows_snoc]
    | sent u list =>
      by_cases hu : u = uri
      · subst hu
        cases list with
        | nil => simp [Notice.update, shows_snoc]
        | cons d rest => simp [Notice.update, shows_snoc, mem_insertOrdered]
      · have hkeep : uri ∈ Notice.update (record.foldl Notice.update []) (.sent u list) ↔
            uri ∈ record.foldl Notice.update [] := by
          simp only [Notice.update]
          split
          · simp [Ne.symm hu]
          · simp [mem_insertOrdered, Ne.symm hu]
        rw [hkeep, ih]
        simp [shows_snoc, hu]

/-- Each document that is taken back is told once. -/
theorem filterMap_listFor?_withdrawn {uris : List String} (h : uris.Nodup) (uri : String) :
    (uris.map (Notice.sent · [])).filterMap (Notice.listFor? uri) =
      if uri ∈ uris then [[]] else [] := by
  induction uris with
  | nil => rfl
  | cons u uris ih =>
    obtain ⟨hu, hnodup⟩ := List.nodup_cons.mp h
    rw [List.map_cons, List.filterMap_cons, ih hnodup]
    by_cases heq : u = uri
    · subst heq
      simp [Notice.listFor?, hu]
    · simp [Notice.listFor?, heq, Ne.symm heq]

/-! ### The notices of a step -/

/-- The notice that an event is to the client. -/
def Compile.Event.notice? : Event → Option Notice
  | .publish uri diagnostics => some (.sent uri diagnostics)
  | _ => none

/-- The notice that the end of a session is. -/
def Happening.notice? : Happening → Option Notice
  | .cleared => some .cleared
  | _ => none

namespace Server

/-- What the client learns in a step. -/
def notices (s : Server) (step : Step) : List Notice :=
  (s.step step).2.filterMap Happening.notice? ++
    ((s.step step).1.engine.journal.drop s.engine.journal.length).filterMap Event.notice?

/-- What the client learns in the course of steps. -/
def record (s : Server) : List Step → List Notice
  | [] => []
  | step :: steps => s.notices step ++ (s.step step).1.record steps

theorem record_append (s : Server) (steps more : List Step) :
    s.record (steps ++ more) = s.record steps ++ (s.play steps).1.record more := by
  induction steps generalizing s with
  | nil => rfl
  | cons step steps ih => simp [record, play, ih]

theorem record_snoc (s : Server) (steps : List Step) (step : Step) :
    s.record (steps ++ [step]) = s.record steps ++ (s.play steps).1.notices step := by
  simp [record_append, record]

end Server

/-- The journal of an engine grows by events with the given notices. -/
def Compile.Sent (e e' : Engine) (notices : List Notice) : Prop :=
  ∃ events, e'.journal = e.journal ++ events ∧ events.filterMap Event.notice? = notices

namespace Compile.Sent

variable {e e' e'' : Engine} {ns ns' : List Notice}

theorem of_eq (h : e'.journal = e.journal) : Sent e e' [] := ⟨[], by simp [h], rfl⟩

theorem trans (h : Sent e e' ns) (h' : Sent e' e'' ns') : Sent e e'' (ns ++ ns') := by
  obtain ⟨events, hj, rfl⟩ := h
  obtain ⟨more, hj', rfl⟩ := h'
  exact ⟨events ++ more, by rw [hj', hj, List.append_assoc], List.filterMap_append⟩

theorem of_inward {events : List Event} (hj : e'.journal = e.journal ++ events)
    (h : ∀ event ∈ events, event.isOutward = false) : Sent e e' [] := by
  refine ⟨events, hj, List.filterMap_eq_nil_iff.mpr fun event hm => ?_⟩
  have hin := h event hm
  cases event with
  | publish => cases hin
  | _ => rfl

theorem reset (e : Engine) : Sent e e.reset [] :=
  of_inward (by rw [Engine.reset_eq]) e.lastKill_inward

theorem turn {run : Nat} {after : Engine × Option Outcome} {ms : List Moment}
    (turn : Turn e run after ms) : Sent e after.1 [] := by
  obtain ⟨events, hj, hin⟩ := turn.journal_eq
  exact of_inward hj hin

end Compile.Sent

namespace Server

theorem sent_publish (s : Server) (uri : String) (diagnostics : List Diagnostic) :
    Sent s.engine (s.publish uri diagnostics).engine [.sent uri diagnostics] :=
  ⟨[.publish uri diagnostics], rfl, rfl⟩

theorem sent_fail (s : Server) (text : String) : Sent s.engine (s.fail text).engine [] := by
  have hmessage : Sent s.engine.reset (s.fail text).engine [] :=
    ⟨[.showMessage (crashText text)], rfl, rfl⟩
  exact (Sent.reset s.engine).trans hmessage

theorem sent_notRun (s : Server) (job : Job) (command : Command) (reason : String) :
    Sent s.engine (s.report job (.notRun command reason)).engine
      (s.published.map (.sent · [])) := by
  refine ⟨s.published.map (.publish · []) ++ [.showMessage (notRunText command reason)], ?_, ?_⟩
  · simp [report, clearAll_eq, note, Engine.note]
  · simp [List.filterMap_map, Function.comp_def, Event.notice?]

/-- The notices of a step, once it is known what the journal grew by. -/
theorem notices_of_sent {s : Server} {step : Step} {ns : List Notice}
    (h : Sent s.engine (s.step step).1.engine ns) :
    s.notices step = (s.step step).2.filterMap Happening.notice? ++ ns := by
  obtain ⟨events, hj, rfl⟩ := h
  simp [notices, hj]

/-- No session ends while a run goes on. -/
theorem filterMap_notice?_ran {s s' : Server} {run : Nat} {hs : List Happening}
    (ran : Ran s run s' hs) : hs.filterMap Happening.notice? = [] := by
  have hmoments : ∀ moments : List Moment,
      (moments.map Happening.compile).filterMap Happening.notice? = [] := by
    simp [List.filterMap_map, Function.comp_def, Happening.notice?]
  cases ran with
  | unknown => rfl
  | waits => exact hmoments _
  | ends job stage outcome =>
    rw [List.filterMap_append, hmoments, List.nil_append]
    cases outcome with
    | finished result =>
      simp only [reported]
      split <;> rfl
    | _ => rfl

end Server

/-! ### What a step sends -/

/-- What a step can send, and the documents with diagnostics after it. -/
inductive Sends (s : Server) : Step → List String → List Notice → Prop where
  | nothing (step : Step) : Sends s step s.published []
  | cleared (request : Request) : Sends s (.request request) [] [.cleared]
  | closed (uri : String) :
    Sends s (.request (.closed uri)) (Notice.update s.published (.sent uri [])) [.sent uri []]
  | accepted (run : Nat) (rest : List Nat) (job : Job) (stage : Stage) (result : Result)
      (diagnostics : List Diagnostic) (hq : s.engine.queue = run :: rest)
      (hr : s.engine.runs[run]? = some { job, stage })
      (ho : (s.engine.resume run).2 = some (.finished result))
      (hd : diagnose s.environment.directory job.path result.stderr = .ok diagnostics) :
    Sends s .resume (Notice.update s.published (.sent job.uri diagnostics))
      [.sent job.uri diagnostics]
  | withdrawn (run : Nat) (rest : List Nat) (command : Command) (reason : String)
      (hq : s.engine.queue = run :: rest)
      (ho : (s.engine.resume run).2 = some (.notRun command reason)) :
    Sends s .resume [] (s.published.map (.sent · []))

/-- The documents with diagnostics change by what is sent. -/
theorem Sends.published_eq {s : Server} {step : Step} {published : List String}
    {ns : List Notice} (sends : Sends s step published ns) :
    published = ns.foldl Notice.update s.published := by
  cases sends with
  | nothing => rfl
  | cleared => rfl
  | closed => rfl
  | accepted => rfl
  | withdrawn =>
    have hall : ∀ uris published : List String,
        (uris.map (Notice.sent · [])).foldl Notice.update published =
          published.filter (· ∉ uris) := by
      intro uris
      induction uris with
      | nil => simp
      | cons uri uris ih =>
        intro published
        rw [List.map_cons, List.foldl_cons, ih]
        simp [Notice.update, List.filter_filter, Bool.and_comm]
    rw [hall]
    simp

namespace Server

theorem sent_turn (s : Server) (queue : List Nat) (run : Nat) :
    Sent s.engine ((s.withQueue queue).engine.resume run).1 [] := by
  have h := Sent.turn ((s.withQueue queue).engine.resume_turn run)
  exact h

/-- A compiler that cannot be run makes the server take back what is shown. -/
theorem withdraws {s : Server} {run : Nat} {rest : List Nat} {command : Command} {reason : String}
    (hq : s.engine.queue = run :: rest)
    (ho : (s.engine.resume run).2 = some (.notRun command reason)) :
    (s.step .resume).1.published = [] ∧
      s.notices .resume = s.published.map (.sent · []) := by
  have ran := (s.withQueue rest).resume_ran run
  have ho' : ((s.withQueue rest).engine.resume run).2 = some (.notRun command reason) :=
    (s.outcome_withQueue rest run).trans ho
  obtain ⟨job, hreport⟩ := ran.eq_report ho'
  have hstep : (s.step .resume).1 = { s.withQueue rest with
      engine := ((s.withQueue rest).engine.resume run).1 }.report job (.notRun command reason) := by
    rw [← hreport]
    simp only [step, hq]
  have hnone : (s.step .resume).2.filterMap Happening.notice? = [] := by
    simp only [step, hq]
    exact filterMap_notice?_ran ran
  have hsent : Sent s.engine (s.step .resume).1.engine ([] ++ s.published.map (.sent · [])) := by
    rw [hstep]
    exact (s.sent_turn rest run).trans
      (sent_notRun { s.withQueue rest with engine := _ } job command reason)
  constructor
  · rw [hstep]
    simp [report, clearAll_eq, note]
  · rw [notices_of_sent hsent, hnone, List.nil_append, List.nil_append]

theorem sends_resume {s s' : Server} {run : Nat} {rest : List Nat} {hs : List Happening}
    (hq : s.engine.queue = run :: rest) (hstep : s.step .resume = (s', hs))
    (ran : Ran (s.withQueue rest) run s' hs) :
    Sends s .resume s'.published (s.notices .resume) := by
  have hturn := s.sent_turn rest run
  have hnone := filterMap_notice?_ran ran
  have notices : ∀ {ns}, Sent s.engine s'.engine ns → s.notices .resume = ns := by
    intro ns hsent
    have hsent' : Sent s.engine (s.step .resume).1.engine ns := by rwa [hstep]
    rw [notices_of_sent hsent', hstep]
    simp only [hnone, List.nil_append]
  cases ran with
  | unknown =>
    rw [notices (.of_eq rfl)]
    exact .nothing .resume
  | waits =>
    rw [notices hturn]
    exact .nothing .resume
  | ends job stage outcome hr ho =>
    rw [outcome_withQueue] at ho
    cases outcome with
    | superseded =>
      rw [notices hturn]
      exact .nothing .resume
    | crashed text =>
      rw [notices (hturn.trans (sent_fail { s.withQueue rest with engine := _ } text))]
      exact .nothing .resume
    | notRun command reason =>
      obtain ⟨hpublished, hnotices⟩ := withdraws hq ho
      rw [hstep] at hpublished
      rw [hpublished, hnotices]
      exact .withdrawn run rest command reason hq ho
    | finished result =>
      have hdirectory : (s.withQueue rest).environment.directory = s.environment.directory := rfl
      simp only [report, accept, hdirectory] at notices ⊢
      cases hd : diagnose s.environment.directory job.path result.stderr with
      | ok diagnostics =>
        simp only [hd] at notices ⊢
        rw [notices (hturn.trans (sent_publish { s.withQueue rest with engine := _ } job.uri
          diagnostics))]
        exact .accepted run rest job stage result diagnostics hq hr ho hd
      | error fault =>
        simp only [hd] at notices ⊢
        rw [notices (hturn.trans (sent_fail { s.withQueue rest with engine := _ } fault.message))]
        exact .nothing .resume

theorem sends_handled {s s' : Server} {request : Request} {hs : List Happening}
    (hstep : s.step (.request request) = (s', hs)) (handled : Handled s request s' hs) :
    Sends s (.request request) s'.published (s.notices (.request request)) := by
  have notices : ∀ {ns}, Sent s.engine s'.engine ns →
      s.notices (.request request) = hs.filterMap Happening.notice? ++ ns := by
    intro ns hsent
    have hsent' : Sent s.engine (s.step (.request request)).1.engine ns := by rwa [hstep]
    rw [notices_of_sent hsent', hstep]
  cases handled with
  | tuned hr =>
    obtain ⟨_, _, _, _, _, rfl⟩ := hr
    rw [notices (.of_eq rfl)]
    exact .nothing _
  | submitted =>
    rw [notices (.of_eq rfl)]
    exact .nothing _
  | answered answer =>
    rw [notices (.of_eq (s.engine.answer_answered answer).journal_eq)]
    exact .nothing _
  | edited =>
    rw [notices (.of_eq rfl)]
    exact .nothing _
  | closed uri =>
    rw [notices (s.sent_publish uri [])]
    exact .closed uri
  | cleared hr =>
    obtain ⟨_, _, _, _, _, rfl⟩ := hr
    have hsent : Sent s.engine s.engine.reset [] := .reset s.engine
    rw [notices hsent]
    exact .cleared _
  | renewed compiler hr =>
    obtain ⟨_, _, _, _, _, rfl⟩ := hr
    have hsent : Sent s.engine (s.engine.reset.renew compiler) [] := .reset s.engine
    rw [notices hsent]
    exact .cleared _

/-- **A step sends nothing else.** -/
theorem step_sends (s : Server) (step : Step) :
    Sends s step (s.step step).1.published (s.notices step) := by
  cases step with
  | request request => exact sends_handled rfl (s.handle_handled request)
  | resume =>
    cases hq : s.engine.queue with
    | nil =>
      have hstep : s.step .resume = (s, []) := by simp only [step, hq]
      have hsent : Sent s.engine (s.step .resume).1.engine [] := .of_eq (by rw [hstep])
      rw [notices_of_sent hsent, hstep]
      exact .nothing .resume
    | cons run rest =>
      have hstep : s.step .resume =
          ((s.withQueue rest).resume run, (s.withQueue rest).resumed run) := by
        simp only [step, hq]
      have h := sends_resume hq hstep (resume_ran _ run)
      rwa [hstep]

/-! ### The server and the client -/

/-- **The documents that a server keeps are a fold over all that was sent.** -/
theorem published_eq_foldl (s : Server) (steps : List Step) :
    (s.play steps).1.published = (s.record steps).foldl Notice.update s.published := by
  induction steps generalizing s with
  | nil => rfl
  | cons step steps ih =>
    rw [record, List.foldl_append, ← (s.step_sends step).published_eq]
    exact ih (s.step step).1

/-- The lists that were sent are those that the journal has. -/
theorem sent_step (s : Server) (step : Step) :
    (s.step step).1.engine.journal.filterMap Event.notice? =
      s.engine.journal.filterMap Event.notice? ++ (s.notices step).filter Notice.isSent := by
  obtain ⟨events, hj⟩ := s.journal_prefix_step step
  have hsent : Sent s.engine (s.step step).1.engine (events.filterMap Event.notice?) :=
    ⟨events, hj.symm, rfl⟩
  have hends : ((s.step step).2.filterMap Happening.notice?).filter Notice.isSent = [] := by
    refine List.filter_eq_nil_iff.mpr fun notice hm => ?_
    obtain ⟨x, -, hx⟩ := List.mem_filterMap.mp hm
    cases x with
    | cleared =>
      cases hx
      simp [Notice.isSent]
    | _ => cases hx
  have hall : (events.filterMap Event.notice?).filter Notice.isSent =
      events.filterMap Event.notice? := by
    refine List.filter_eq_self.mpr fun notice hm => ?_
    obtain ⟨event, -, hx⟩ := List.mem_filterMap.mp hm
    cases event with
    | publish =>
      cases hx
      rfl
    | _ => cases hx
  rw [notices_of_sent hsent, List.filter_append, hends, hall, List.nil_append, ← hj,
    List.filterMap_append]

theorem sent_play (s : Server) (steps : List Step) :
    (s.play steps).1.engine.journal.filterMap Event.notice? =
      s.engine.journal.filterMap Event.notice? ++ (s.record steps).filter Notice.isSent := by
  induction steps generalizing s with
  | nil => simp [play, record]
  | cons step steps ih =>
    rw [record, List.filter_append, ← List.append_assoc, ← s.sent_step step]
    exact ih (s.step step).1

/-- **The documents that the server keeps are those that the client shows diagnostics
of.** After any steps:

* the record has all lists that were published, in order;
* a document is kept exactly if the last list sent for it in this session is not empty,
  and none is kept twice;
* when a compiler cannot be run, the last list of every document is empty afterwards. One
  empty list is sent for each document that had another, and none for the rest. -/
theorem published_mirrors_client (environment : Environment) (steps : List Step) :
    let s := ((start environment).play steps).1
    let record := (start environment).record steps
    record.filter Notice.isSent = s.engine.journal.filterMap Event.notice? ∧
    (∀ uri, uri ∈ s.published ↔
      ∃ diagnostics, diagnostics ≠ [] ∧ Shows record uri diagnostics) ∧
    s.published.Nodup ∧
    ∀ run rest command reason, s.engine.queue = run :: rest →
      (s.engine.resume run).2 = some (.notRun command reason) →
      (∀ uri diagnostics, Shows (record ++ s.notices .resume) uri diagnostics →
        diagnostics = []) ∧
      (∀ uri diagnostics, diagnostics ≠ [] → Shows record uri diagnostics →
        (s.notices .resume).filterMap (Notice.listFor? uri) = [[]]) ∧
      ∀ uri, (∀ diagnostics, Shows record uri diagnostics → diagnostics = []) →
        (s.notices .resume).filterMap (Notice.listFor? uri) = [] := by
  intro s record
  have hfold : s.published = record.foldl Notice.update [] :=
    published_eq_foldl (start environment) steps
  have hmem : ∀ uri, uri ∈ s.published ↔
      ∃ diagnostics, diagnostics ≠ [] ∧ Shows record uri diagnostics := by
    intro uri
    rw [hfold]
    exact mem_foldl_update
  have hnodup : s.published.Nodup := by
    rw [hfold]
    refine (pairwise_foldl_update List.Pairwise.nil record).imp fun {uri u} hlt heq => ?_
    exact String.lt_irrefl u (heq ▸ hlt)
  refine ⟨(sent_play (start environment) steps).symm, hmem, hnodup, ?_⟩
  intro run rest command reason hq ho
  obtain ⟨hpublished, hnotices⟩ := withdraws hq ho
  refine ⟨fun uri diagnostics hshows => ?_, fun uri diagnostics hne hshows => ?_, fun uri hall => ?_⟩
  · -- no document is kept after the step, so none has a list that is not empty
    have hfold' : (s.step .resume).1.published =
        (record ++ s.notices .resume).foldl Notice.update [] := by
      rw [List.foldl_append, ← hfold]
      exact (s.step_sends .resume).published_eq
    by_contra hne
    have hkept := mem_foldl_update.mpr ⟨diagnostics, hne, hshows⟩
    rw [← hfold', hpublished] at hkept
    cases hkept
  · rw [hnotices, filterMap_listFor?_withdrawn hnodup]
    exact if_pos ((hmem uri).mpr ⟨diagnostics, hne, hshows⟩)
  · rw [hnotices, filterMap_listFor?_withdrawn hnodup]
    refine if_neg fun hkept => ?_
    obtain ⟨diagnostics, hne, hshows⟩ := (hmem uri).mp hkept
    exact hne (hall diagnostics hshows)

/-- A document has a finding, and the compiler for another one is missing. -/
example :
    let s := ((start { directory := "/work" }).play
      [.request (.opened "file:///a"), .resume, .request (.answered (.spawned 0)), .resume,
        .request (.answered (.exited 0 (some 0) ⟨[], "/a:2:3:1:error:bad".toUTF8.data.toList⟩)),
        .resume, .request (.opened "file:///b"), .resume,
        .request (.answered (.spawnFailed 1 (.refused 2 "No such file or directory")))]).1
    s.published = ["file:///a"] ∧ s.notices .resume = [.sent "file:///a" []] := ⟨rfl, rfl⟩

end Server
end RenServer
