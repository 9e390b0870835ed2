/- # The diagnostics of a document are complete

Of the findings of a text, those are kept that lie in the document, on a line and at a column
that the editor can count to (`Finding.LiesIn`). A finding that is kept has one diagnostic,
on the line before its own and two characters to the left, as long as the finding
(`Finding.ShownAs`). The diagnostics stand in the order of the findings, none is lost and none
comes twice.

The reader of findings gives no negative length and no other level than error and warning
(`sound_of_readFindings`). So every level has a severity, a range never ends before it
begins, and the one thing that can go wrong is a finding beyond the last line or character
(`Finding.Beyond`). It has to be one that is kept: a finding of another document is of no
account, however far it lies.

Key definitions: `Range.Valid`, `Finding.LiesIn`, `Finding.Beyond`, `Finding.ShownAs`.
Key theorems: `Range.make_eq_ok_iff`, `Finding.toDiagnostic_eq_ok_iff`,
`sound_of_readFindings`, `reconcile_complete`.
-/
import RenServer.Proofs.Report.Diagnosis

namespace RenServer

open Text

/-! ### Positions and ranges -/

/-- Both numbers are within the limit. -/
def Position.Valid (p : Position) : Prop :=
  p.line ≤ maxCoordinate ∧ p.character ≤ maxCoordinate

/-- A range does not end before it begins. -/
def Range.Forward (r : Range) : Prop :=
  r.start.line < r.stop.line ∨ r.start.line = r.stop.line ∧ r.start.character ≤ r.stop.character

/-- Both ends are within the limits, and in order. -/
def Range.Valid (r : Range) : Prop := r.start.Valid ∧ r.stop.Valid ∧ r.Forward

theorem coordinate_eq_ok_iff {axis : Axis} {value : Int} {n : Nat} :
    coordinate axis value = .ok n ↔ (n : Int) = value ∧ n ≤ maxCoordinate := by
  unfold coordinate
  by_cases h : 0 ≤ value ∧ value ≤ maxCoordinate
  · rw [if_pos h, Except.ok.injEq]
    omega
  · rw [if_neg h]
    constructor
    · intro heq
      cases heq
    · intro hn
      exact absurd (by omega) h

theorem Position.make_eq_ok_iff {line character : Int} {p : Position} :
    Position.make line character = .ok p ↔
      ((p.line : Int) = line ∧ (p.character : Int) = character) ∧ p.Valid := by
  unfold Position.make
  simp only [bind_eq_ok_iff, coordinate_eq_ok_iff]
  constructor
  · rintro ⟨l, ⟨hl, hlmax⟩, c, ⟨hc, hcmax⟩, heq⟩
    cases heq
    exact ⟨⟨hl, hc⟩, hlmax, hcmax⟩
  · rintro ⟨⟨hl, hc⟩, hlmax, hcmax⟩
    exact ⟨p.line, ⟨hl, hlmax⟩, p.character, ⟨hc, hcmax⟩, rfl⟩

/-- **A range has the numbers that it is made of.** -/
theorem Range.make_eq_ok_iff {startLine startCharacter stopLine stopCharacter : Int} {r : Range} :
    Range.make startLine startCharacter stopLine stopCharacter = .ok r ↔
      (((r.start.line : Int) = startLine ∧ (r.start.character : Int) = startCharacter) ∧
        r.start.Valid) ∧
      ((r.stop.line : Int) = stopLine ∧ (r.stop.character : Int) = stopCharacter) ∧
        r.stop.Valid := by
  unfold Range.make
  simp only [bind_eq_ok_iff, Position.make_eq_ok_iff]
  constructor
  · rintro ⟨start, hstart, stop, hstop, heq⟩
    cases heq
    exact ⟨hstart, hstop⟩
  · rintro ⟨hstart, hstop⟩
    exact ⟨r.start, hstart, r.stop, hstop, rfl⟩

/-! ### Findings and their diagnostics -/

namespace Finding

/-- A finding lies in a document, at a place that the editor can count to. -/
def LiesIn (directory document : String) (f : Finding) : Prop :=
  Path.absolute directory.toList f.path.toList =
      Path.absolute directory.toList document.toList ∧
    1 ≤ f.line ∧ 2 ≤ f.col

instance (directory document : String) (f : Finding) : Decidable (f.LiesIn directory document) :=
  inferInstanceAs (Decidable (_ ∧ _ ∧ _))

/-- A finding ends beyond the last line or character. -/
def Beyond (f : Finding) : Prop :=
  (maxCoordinate : Int) < f.line - 1 ∨ (maxCoordinate : Int) < f.col - 2 + f.length

instance (f : Finding) : Decidable f.Beyond := inferInstanceAs (Decidable (_ ∨ _))

/-- The diagnostic that a finding has. -/
structure ShownAs (f : Finding) (d : Diagnostic) : Prop where
  start : (d.range.start.line : Int) = f.line - 1 ∧ (d.range.start.character : Int) = f.col - 2
  stop : (d.range.stop.line : Int) = f.line - 1 ∧
    (d.range.stop.character : Int) = f.col - 2 + f.length
  severity : f.level = "error" ∧ d.severity = .error ∨ f.level = "warning" ∧ d.severity = .warning
  source : d.source = "renc"
  message : d.message = f.message

variable {f : Finding} {d : Diagnostic}

theorem belongs_iff {directory document : String} :
    f.belongs directory.toList document.toList = true ↔ f.LiesIn directory document := by
  simp only [belongs, LiesIn, Path.same, Bool.and_eq_true, beq_iff_eq, decide_eq_true_eq]
  have hplace : (0 ≤ f.line - 1 ∧ 0 ≤ f.col - 2) ↔ (1 ≤ f.line ∧ 2 ≤ f.col) := by omega
  rw [hplace]

/-- A number of the range is beyond the limit exactly if the line or the end is. -/
theorem exists_exceeds_iff (hlength : 0 ≤ f.length) : (∃ place, f.Exceeds place) ↔ f.Beyond := by
  constructor
  · rintro ⟨⟨axis, value⟩, hlt, ⟨-, heq⟩ | ⟨-, heq | heq⟩⟩
    · left
      simp only at hlt heq
      omega
    · right
      simp only at hlt heq
      omega
    · right
      simp only at hlt heq
      omega
  · rintro (hline | hstop)
    · exact ⟨⟨.line, _⟩, hline, .inl ⟨rfl, rfl⟩⟩
    · exact ⟨⟨.character, _⟩, hstop, .inr ⟨rfl, .inr rfl⟩⟩

theorem ofLevel?_eq_some_iff {level : String} {severity : Severity} :
    Severity.ofLevel? level = some severity ↔
      level = "error" ∧ severity = .error ∨ level = "warning" ∧ severity = .warning := by
  unfold Severity.ofLevel?
  by_cases herror : level = "error"
  · simp [herror, eq_comm]
  · by_cases hwarning : level = "warning"
    · simp [hwarning, eq_comm]
    · simp [herror, hwarning]

/-- **The diagnostic of a finding shows the finding.** -/
theorem toDiagnostic_eq_ok_iff :
    f.toDiagnostic = .ok d ↔ f.ShownAs d ∧ d.range.start.Valid ∧ d.range.stop.Valid := by
  have hopen : f.toDiagnostic = .ok d ↔
      ∃ r, compilerRange f.line f.col f.length = .ok r ∧
        ∃ severity, Severity.ofLevel? f.level = some severity ∧
          d = ⟨r, severity, "renc", f.message⟩ := by
    unfold toDiagnostic
    rw [bind_eq_ok_iff]
    cases hrange : compilerRange f.line f.col f.length with
    | error place => simp [Except.mapError]
    | ok r =>
      cases hlevel : Severity.ofLevel? f.level with
      | none => simp [Except.mapError]
      | some severity => simp [Except.mapError, pure, Except.pure, eq_comm]
  rw [hopen]
  constructor
  · rintro ⟨r, hrange, severity, hseverity, rfl⟩
    obtain ⟨⟨hstart, hstartValid⟩, hstop, hstopValid⟩ := Range.make_eq_ok_iff.mp hrange
    exact ⟨⟨hstart, hstop, ofLevel?_eq_some_iff.mp hseverity, rfl, rfl⟩, hstartValid, hstopValid⟩
  · rintro ⟨hshown, hstartValid, hstopValid⟩
    refine ⟨d.range, Range.make_eq_ok_iff.mpr ?_, d.severity,
      ofLevel?_eq_some_iff.mpr hshown.severity, ?_⟩
    · exact ⟨⟨hshown.start, hstartValid⟩, hshown.stop, hstopValid⟩
    · rw [← hshown.source, ← hshown.message]

/-- **A finding that is kept has a diagnostic, unless it lies beyond the limits.** -/
theorem LiesIn.toDiagnostic_cases {directory document : String} (h : f.LiesIn directory document)
    (hlength : 0 ≤ f.length) (hlevel : f.level.toList ∈ levels) :
    (∃ d, f.toDiagnostic = .ok d ∧ ¬ f.Beyond) ∨
      ∃ place, f.toDiagnostic = .error (.outOfRange place) ∧ f.Beyond := by
  rw [← exists_exceeds_iff hlength]
  rcases Finding.toDiagnostic_cases (belongs_iff.mpr h) hlength hlevel with
    ⟨d, hd, hfits⟩ | ⟨place, hp, herr⟩
  · exact .inl ⟨d, hd, fun ⟨place, hp⟩ => hfits place hp⟩
  · exact .inr ⟨place, herr, place, hp⟩

theorem ShownAs.forward (h : f.ShownAs d) (hlength : 0 ≤ f.length) : d.range.Forward := by
  obtain ⟨hstartLine, hstartCharacter⟩ := h.start
  obtain ⟨hstopLine, hstopCharacter⟩ := h.stop
  right
  omega

end Finding

/-! ### What the reader guarantees -/

/-- **Findings that were read have no negative length and a level that is known.** -/
theorem sound_of_readFindings {text : String} {fs : List Finding}
    (h : readFindings text = .ok fs) : ∀ f ∈ fs, 0 ≤ f.length ∧ f.level.toList ∈ levels := by
  intro f hf
  rcases mapM_cases (fun parts : List Char × Details => Finding.make parts.1 parts.2)
    ((lines text.toList).filterMap split?) with ⟨gs, hgs, hmade⟩ | ⟨_, -, t, -, herr⟩
  · obtain rfl : fs = gs := by
      have heq : Except.ok fs = Except.ok gs := h.symm.trans hgs
      exact Except.ok.inj heq
    obtain ⟨⟨path, d⟩, hm, hmake⟩ := exists_of_mem_results hmade hf
    obtain ⟨line, -, hs⟩ := List.mem_filterMap.mp hm
    obtain ⟨hlength, hlevel, -⟩ := sound_of_make hs hmake
    exact ⟨hlength, hlevel⟩
  · have hnone : Except.ok fs = Except.error t := h.symm.trans herr
    cases hnone

/-! ### Whole texts -/

theorem reconcile_eq (directory document : String) (fs : List Finding) :
    reconcile directory document fs =
      (fs.filter fun f => f.LiesIn directory document).mapM Finding.toDiagnostic := by
  unfold reconcile
  congr 1
  apply List.filter_congr
  intro f _
  rw [Bool.eq_iff_iff, Finding.belongs_iff, decide_eq_true_iff]

/-- **The diagnostics of a document are complete, of no other document, and well formed.**
Whatever findings a text has, and whichever document they are asked for: if none of the
findings that are kept lies beyond the last line or character, there is one diagnostic for
each of them, in their order, with the place, the severity and the message of the finding and
with the compiler as its source, and all ranges are valid. Otherwise, and only then, a place is
out of range. A level that is not known never occurs. -/
theorem reconcile_complete {text : String} {fs : List Finding} (hfs : readFindings text = .ok fs)
    (directory document : String) :
    let kept := fs.filter fun f => f.LiesIn directory document
    ((∀ f ∈ kept, ¬ f.Beyond) →
      ∃ ds, reconcile directory document fs = .ok ds ∧ List.Forall₂ Finding.ShownAs kept ds ∧
        ∀ d ∈ ds, d.range.Valid) ∧
    ((∃ place, reconcile directory document fs = .error (.outOfRange place)) ↔
      ∃ f ∈ kept, f.Beyond) ∧
    ∀ level, reconcile directory document fs ≠ .error (.unknownLevel level) := by
  intro kept
  have hsound : ∀ f ∈ kept, 0 ≤ f.length ∧ f.level.toList ∈ levels := fun f hf =>
    sound_of_readFindings hfs f (List.mem_filter.mp hf).1
  have hcases : ∀ f ∈ kept,
      (∃ d, f.toDiagnostic = .ok d ∧ ¬ f.Beyond) ∨
        ∃ place, f.toDiagnostic = .error (.outOfRange place) ∧ f.Beyond := by
    intro f hf
    have hin : f.LiesIn directory document := of_decide_eq_true (List.mem_filter.mp hf).2
    exact hin.toDiagnostic_cases (hsound f hf).1 (hsound f hf).2
  rw [reconcile_eq]
  rcases mapM_cases Finding.toDiagnostic kept with ⟨ds, hds, hmap⟩ | ⟨f, hf, fault, hfault, herr⟩
  · have hfits : ∀ f ∈ kept, ¬ f.Beyond := by
      intro f hf
      obtain ⟨d, -, hd⟩ := exists_ok_of_mem hmap hf
      rcases hcases f hf with ⟨_, -, hfit⟩ | ⟨place, herr, -⟩
      · exact hfit
      · rw [hd] at herr
        cases herr
    have hshown : List.Forall₂ Finding.ShownAs kept ds :=
      (mapM_eq_ok_iff.mp hds).imp fun _ _ h => (Finding.toDiagnostic_eq_ok_iff.mp h).1
    have hvalid : ∀ d ∈ ds, d.range.Valid := by
      intro d hd
      obtain ⟨f, hf, hok⟩ := exists_of_mem_results hmap hd
      obtain ⟨hs, hstart, hstop⟩ := Finding.toDiagnostic_eq_ok_iff.mp hok
      exact ⟨hstart, hstop, hs.forward (hsound f hf).1⟩
    rw [hds]
    refine ⟨fun _ => ⟨ds, rfl, hshown, hvalid⟩, ⟨?_, ?_⟩, fun level h => by cases h⟩
    · rintro ⟨place, h⟩
      cases h
    · rintro ⟨f, hf, hbeyond⟩
      exact absurd hbeyond (hfits f hf)
  · obtain ⟨place, hplace, hbeyond⟩ :
        ∃ place, f.toDiagnostic = .error (.outOfRange place) ∧ f.Beyond := by
      rcases hcases f hf with ⟨d, hd, -⟩ | hout
      · rw [hd] at hfault
        cases hfault
      · exact hout
    obtain rfl : fault = .outOfRange place := Except.error.inj (hfault.symm.trans hplace)
    rw [herr]
    refine ⟨fun hfits => absurd hbeyond (hfits f hf), ⟨fun _ => ⟨f, hf, hbeyond⟩, fun _ =>
      ⟨place, rfl⟩⟩, fun level h => by cases h⟩

/-- Four findings: one of the document, one far beyond the end of another document, one of the
document before its first character, and one of the document by another path. -/
def mixedFindings : String :=
  "/w/a:3:4:2:error: bad \n/b:9999999999:4:2:error:far\n/w/a:1:1:5:warning:early\n../w/./a:7:2:0: warning:w"

/-- Two of them are shown. The finding beyond the end is a fault of its own document only. -/
theorem mixed_reconciled :
    ∃ fs, readFindings mixedFindings = .ok fs ∧
      (∃ ds, reconcile "/w" "/w/a" fs = .ok ds ∧ List.Forall₂ Finding.ShownAs
        [⟨"/w/a", 3, 4, 2, "error", "bad"⟩, ⟨"../w/./a", 7, 2, 0, "warning", "w"⟩] ds) ∧
      ∃ place, reconcile "/w" "/b" fs = .error (.outOfRange place) := by
  have hfs : readFindings mixedFindings =
      .ok [⟨"/w/a", 3, 4, 2, "error", "bad"⟩, ⟨"/b", 9999999999, 4, 2, "error", "far"⟩,
        ⟨"/w/a", 1, 1, 5, "warning", "early"⟩, ⟨"../w/./a", 7, 2, 0, "warning", "w"⟩] := by
    decide +kernel
  obtain ⟨hshown, -, -⟩ := reconcile_complete hfs "/w" "/w/a"
  obtain ⟨-, hfault, -⟩ := reconcile_complete hfs "/w" "/b"
  refine ⟨_, hfs, ?_, hfault.mpr ?_⟩
  · obtain ⟨ds, hds, hforall, -⟩ := hshown (by decide +kernel)
    exact ⟨ds, hds, hforall⟩
  · decide +kernel

end RenServer
