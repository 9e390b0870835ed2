/- # Which output can be diagnosed

Each line of the compiler's standard error has at most one diagnostic of its own
(`lineDiagnostic?`). The diagnostics of a document are those of all lines, in order, if no
line is to blame for a fault; otherwise there are none at all, and the fault is that of
one of the lines (`diagnose_cases`).

A line can be blamed for two things: a numeral with more digits than can be read, or a
finding that belongs to the document at a place beyond the last line or character
(`Blamed`). A line that is no finding, a finding of another document, and a finding before
the first line or character are never to blame, and every level is known.

Key definitions: `Finding.Exceeds`, `Blamed`, `Harmless`, `lineDiagnostic?`.
Key theorems: `Finding.make_cases`, `Finding.toDiagnostic_cases`, `diagnose_cases`,
`diagnose_eq_ok_iff`.
-/
import RenServer.Proofs.Report.Grammar
import RenServer.Diagnostic

namespace RenServer

open Text

/-! ### Numerals that are too long -/

/-- **Details make a finding unless one of their numerals is too long.** -/
theorem Finding.make_cases {d : Details} (hd : d.Formed) (path : List Char) :
    (∃ f, Finding.make path d = .ok f ∧ 0 ≤ f.length ∧ f.level.toList ∈ levels ∧
        ∀ ds ∈ d.numerals, ds.length ≤ maxDigits) ∨
      ∃ ds ∈ d.numerals, maxDigits < ds.length ∧ Finding.make path d = .error ⟨ds.length⟩ := by
  rcases Finding.make_readOff hd path with ⟨f, hf, hread, hnone⟩ | ⟨t, ht, hsome⟩
  · refine .inl ⟨f, hf, hread.length.nonneg, ?_, Details.tooLong?_eq_none_iff.mp hnone⟩
    rw [hread.level]
    exact hd.level
  · obtain ⟨ds, hds, hlong, rfl⟩ := Details.of_tooLong? hsome
    exact .inr ⟨ds, hds, hlong, ht⟩

/-! ### Places that are out of range -/

theorem coordinate_cases (axis : Axis) {value : Int} (h : 0 ≤ value) :
    (value ≤ maxCoordinate ∧ ∃ n, coordinate axis value = .ok n) ∨
      ((maxCoordinate : Int) < value ∧ coordinate axis value = .error ⟨axis, value⟩) := by
  unfold coordinate
  by_cases hle : value ≤ maxCoordinate
  · exact .inl ⟨hle, _, if_pos ⟨h, hle⟩⟩
  · exact .inr ⟨Int.lt_of_not_ge hle, if_neg fun hx => hle hx.2⟩

/-- A number of the range of a finding is beyond the last line or character. -/
def Finding.Exceeds (f : Finding) (place : OutOfRange) : Prop :=
  (maxCoordinate : Int) < place.value ∧
    (place.axis = .line ∧ place.value = f.line - 1 ∨
      place.axis = .character ∧ (place.value = f.col - 2 ∨ place.value = f.col - 2 + f.length))

theorem compilerRange_cases (f : Finding) (hline : 0 ≤ f.line - 1) (hcol : 0 ≤ f.col - 2)
    (hlength : 0 ≤ f.length) :
    (∃ range, compilerRange f.line f.col f.length = .ok range ∧ ∀ place, ¬ f.Exceeds place) ∨
      ∃ place, f.Exceeds place ∧ compilerRange f.line f.col f.length = .error place := by
  have hstop : 0 ≤ f.col - 2 + f.length := by omega
  unfold compilerRange Range.make Position.make
  rcases coordinate_cases .line hline with ⟨hl, line, hline⟩ | ⟨hl, hline⟩
  · rcases coordinate_cases .character hcol with ⟨hc, start, hstart⟩ | ⟨hc, hstart⟩
    · rcases coordinate_cases .character hstop with ⟨hs, stop, hstop⟩ | ⟨hs, hstop⟩
      · left
        rw [hline, hstart, hstop]
        refine ⟨_, rfl, ?_⟩
        rintro ⟨axis, value⟩ ⟨hlt, ⟨-, heq⟩ | ⟨-, heq | heq⟩⟩
        all_goals
          simp only at hlt heq
          omega
      · refine .inr ⟨⟨.character, _⟩, ⟨hs, .inr ⟨rfl, .inr rfl⟩⟩, ?_⟩
        rw [hline, hstart, hstop]
        rfl
    · refine .inr ⟨⟨.character, _⟩, ⟨hc, .inr ⟨rfl, .inl rfl⟩⟩, ?_⟩
      rw [hline, hstart]
      rfl
  · refine .inr ⟨⟨.line, _⟩, ⟨hl, .inl ⟨rfl, rfl⟩⟩, ?_⟩
    rw [hline]
    rfl

theorem Severity.ofLevel?_of_mem {level : String} (h : level.toList ∈ levels) :
    ∃ severity, Severity.ofLevel? level = some severity := by
  simp only [levels, List.mem_cons, List.not_mem_nil, or_false, String.toList_inj] at h
  rcases h with rfl | rfl
  · exact ⟨.error, rfl⟩
  · exact ⟨.warning, rfl⟩

theorem Finding.nonneg_of_belongs {directory document : List Char} {f : Finding}
    (h : f.belongs directory document = true) : 0 ≤ f.line - 1 ∧ 0 ≤ f.col - 2 := by
  simp only [Finding.belongs, Bool.and_eq_true, decide_eq_true_eq] at h
  exact h.2

/-- **A finding that belongs to a document has a diagnostic unless its place is out of
range.** -/
theorem Finding.toDiagnostic_cases {directory document : List Char} {f : Finding}
    (hb : f.belongs directory document = true) (hlength : 0 ≤ f.length)
    (hlevel : f.level.toList ∈ levels) :
    (∃ diagnostic, f.toDiagnostic = .ok diagnostic ∧ ∀ place, ¬ f.Exceeds place) ∨
      ∃ place, f.Exceeds place ∧ f.toDiagnostic = .error (.outOfRange place) := by
  obtain ⟨hline, hcol⟩ := nonneg_of_belongs hb
  obtain ⟨severity, hseverity⟩ := Severity.ofLevel?_of_mem hlevel
  unfold Finding.toDiagnostic
  rcases compilerRange_cases f hline hcol hlength with ⟨range, hrange, hfits⟩ | ⟨place, hp, hrange⟩
  · left
    rw [hrange, hseverity]
    exact ⟨_, rfl, hfits⟩
  · refine .inr ⟨place, hp, ?_⟩
    rw [hrange]
    rfl

/-! ### Lines -/

section Lines

variable (directory document : String)

/-- What a line can be blamed for. -/
inductive Blamed (line : List Char) : DiagnosticFault → Prop where
  | tooLong {path : List Char} {d : Details} {ds : List Char} (hs : split? line = some (path, d))
      (hds : ds ∈ d.numerals) (hlong : maxDigits < ds.length) :
    Blamed line (.tooLong ⟨ds.length⟩)
  | outOfRange {path : List Char} {d : Details} {f : Finding} {place : OutOfRange}
      (hs : split? line = some (path, d)) (hf : Finding.make path d = .ok f)
      (hb : f.belongs directory.toList document.toList = true) (hp : f.Exceeds place) :
    Blamed line (.outOfRange place)

/-- A line that cannot be blamed for anything. -/
def Harmless (line : List Char) : Prop := ∀ fault, ¬ Blamed directory document line fault

/-- The diagnostic that a line has on its own. -/
def lineDiagnostic? (line : List Char) : Option Diagnostic := do
  let (path, d) ← split? line
  let f ← (Finding.make path d).toOption
  if f.belongs directory.toList document.toList then f.toDiagnostic.toOption else none

variable {directory document} {line : List Char}

/-- What is known about a finding that was made of a line. -/
theorem sound_of_make {path : List Char} {d : Details} (hs : split? line = some (path, d))
    {f : Finding} (hf : Finding.make path d = .ok f) :
    0 ≤ f.length ∧ f.level.toList ∈ levels ∧ ∀ ds ∈ d.numerals, ds.length ≤ maxDigits := by
  rcases Finding.make_cases (formed_of_split? hs) path with ⟨f', hf', hsound⟩ | ⟨_, -, -, herr⟩
  · rw [hf'] at hf
    cases hf
    exact hsound
  · rw [herr] at hf
    cases hf

theorem Blamed.of_make {path : List Char} {d : Details} (hs : split? line = some (path, d))
    {t : TooLong} (ht : Finding.make path d = .error t) :
    Blamed directory document line (.tooLong t) := by
  rcases Finding.make_cases (formed_of_split? hs) path with ⟨f, hf, -⟩ | ⟨ds, hds, hlong, herr⟩
  · rw [hf] at ht
    cases ht
  · rw [herr] at ht
    cases ht
    exact .tooLong hs hds hlong

theorem Blamed.of_toDiagnostic {path : List Char} {d : Details}
    (hs : split? line = some (path, d)) {f : Finding} (hf : Finding.make path d = .ok f)
    (hb : f.belongs directory.toList document.toList = true) {fault : DiagnosticFault}
    (he : f.toDiagnostic = .error fault) : Blamed directory document line fault := by
  obtain ⟨hlength, hlevel, -⟩ := sound_of_make hs hf
  rcases Finding.toDiagnostic_cases hb hlength hlevel with ⟨_, hd, -⟩ | ⟨place, hp, herr⟩
  · rw [hd] at he
    cases he
  · rw [herr] at he
    cases he
    exact .outOfRange hs hf hb hp

/-- A line is harmless if its finding can be made and shown. -/
theorem harmless_of_ok
    (h : ∀ path d, split? line = some (path, d) → ∃ f, Finding.make path d = .ok f ∧
      (f.belongs directory.toList document.toList = true → ∃ x, f.toDiagnostic = .ok x)) :
    Harmless directory document line := by
  rintro fault (⟨hs, hds, hlong⟩ | ⟨hs, hf, hb, hp⟩)
  · obtain ⟨f, hf, -⟩ := h _ _ hs
    exact absurd ((sound_of_make hs hf).2.2 _ hds) (Nat.not_le_of_lt hlong)
  · obtain ⟨f, hf', hshown⟩ := h _ _ hs
    rw [hf] at hf'
    cases hf'
    obtain ⟨x, hx⟩ := hshown hb
    obtain ⟨hlength, hlevel, -⟩ := sound_of_make hs hf
    rcases Finding.toDiagnostic_cases hb hlength hlevel with ⟨_, -, hfits⟩ | ⟨_, -, herr⟩
    · exact hfits _ hp
    · rw [herr] at hx
      cases hx

end Lines

/-! ### Whole texts -/

section Texts

variable {directory document text : String}

/-- **A text has the diagnostics of all its lines, or none because of one of them.** -/
theorem diagnose_cases (directory document text : String) :
    (∀ line ∈ lines text.toList, Harmless directory document line) ∧
        diagnose directory document text =
          .ok ((lines text.toList).filterMap (lineDiagnostic? directory document)) ∨
      ∃ line ∈ lines text.toList, ∃ fault, Blamed directory document line fault ∧
        diagnose directory document text = .error fault := by
  have hdiagnose : diagnose directory document text =
      (readFindings text).mapError .tooLong >>= reconcile directory document := rfl
  rw [hdiagnose]
  rcases mapM_cases (fun (path, d) => Finding.make path d) ((lines text.toList).filterMap split?)
    with ⟨fs, hfs, hmade⟩ | ⟨⟨path, d⟩, hm, t, ht, herr⟩
  · have hread : readFindings text = .ok fs := hfs
    rw [hread]
    rcases mapM_cases Finding.toDiagnostic
      (fs.filter (·.belongs directory.toList document.toList)) with
      ⟨ds, hds, hshown⟩ | ⟨f, hf, fault, hfault, herr⟩
    · refine .inl ⟨fun line hline => harmless_of_ok fun path d hs => ?_, ?_⟩
      · obtain ⟨f, hf, hmake⟩ :=
          exists_ok_of_mem hmade (List.mem_filterMap.mpr ⟨line, hline, hs⟩)
        refine ⟨f, hmake, fun hb => ?_⟩
        obtain ⟨x, -, hx⟩ := exists_ok_of_mem hshown (List.mem_filter.mpr ⟨hf, hb⟩)
        exact ⟨x, hx⟩
      · -- what is kept and shown of all findings is what is kept and shown line by line
        have hlines : (lines text.toList).filterMap (lineDiagnostic? directory document) = ds := by
          rw [← filterMap_toOption hshown, ← filterMap_toOption hmade, List.filterMap_filter,
            List.filterMap_filterMap, List.filterMap_filterMap]
          rfl
        rw [hlines]
        exact hds
    · obtain ⟨hmem, hb⟩ := List.mem_filter.mp hf
      obtain ⟨⟨path, d⟩, hm, hmake⟩ := exists_of_mem_results hmade hmem
      obtain ⟨line, hline, hs⟩ := List.mem_filterMap.mp hm
      exact .inr ⟨line, hline, fault, .of_toDiagnostic hs hmake hb hfault, herr⟩
  · obtain ⟨line, hline, hs⟩ := List.mem_filterMap.mp hm
    refine .inr ⟨line, hline, .tooLong t, .of_make hs ht, ?_⟩
    have hread : readFindings text = .error t := herr
    rw [hread]
    rfl

/-- **A text has diagnostics exactly if none of its lines is to blame.** -/
theorem diagnose_eq_ok_iff {ds : List Diagnostic} :
    diagnose directory document text = .ok ds ↔
      (∀ line ∈ lines text.toList, Harmless directory document line) ∧
        ds = (lines text.toList).filterMap (lineDiagnostic? directory document) := by
  rcases diagnose_cases directory document text with ⟨hall, hok⟩ | ⟨line, hline, fault, hb, herr⟩
  · rw [hok, Except.ok.injEq]
    exact ⟨fun h => ⟨hall, h.symm⟩, fun h => h.2.symm⟩
  · rw [herr]
    exact ⟨fun h => (by cases h), fun h => absurd hb (h.1 line hline fault)⟩

end Texts

end RenServer
