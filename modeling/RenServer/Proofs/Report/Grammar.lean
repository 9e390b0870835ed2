/- # The grammar of findings

A text is read line by line, and each line adds what it says on its own: nothing if it
cannot be taken apart, otherwise one finding, made of the way to take it apart that has the
shortest path (`Adds`). A number of a finding is what its digits write, in the digits of
any script (`Writes`).

The one thing that can go wrong is a numeral with more digits than can be read. The line
that is taken apart with the shortest path may hold three of them, and the first that is
too long is the fault of the line (`Fails`). A line either adds something or fails
(`lineFindings_eq_ok_iff`, `lineFindings_eq_error_iff`), and a text fails with the first
line that does (`readFindings_by_lines`).

Key definitions: `Writes`, `Shortest`, `Finding.ReadOff`, `Adds`, `Fails`.
Key theorems: `Finding.make_eq_ok_iff`, `Finding.make_eq_error_iff`, `readFindings_by_lines`.
-/
import RenServer.Proofs.Report.Findings
import RenServer.Proofs.Results

namespace RenServer

open Text

/-! ### Numbers -/

/-- Digits write a number: a digit after others adds its value to ten times theirs. -/
inductive Writes : List Char → Int → Prop where
  | nil : Writes [] 0
  | snoc {ds : List Char} {n : Int} {c : Char} {v : Nat} (h : Writes ds n)
      (hc : digitValue? c = some v) : Writes (ds ++ [c]) (10 * n + v)

theorem Writes.eq_ofDigits {ds : List Char} {n : Int} (h : Writes ds n) :
    n = ofDigits (ds.filterMap digitValue?) := by
  induction h with
  | nil => rfl
  | snoc h hc ih =>
    rw [List.filterMap_append, List.filterMap_cons_some hc, List.filterMap_nil, ofDigits,
      List.foldl_concat, ih, ofDigits]
    push_cast
    rfl

theorem Writes.nonneg {ds : List Char} {n : Int} (h : Writes ds n) : 0 ≤ n := by
  rw [h.eq_ofDigits]
  exact Int.natCast_nonneg _

theorem writes_ofDigits {ds : List Char} (h : ∀ c ∈ ds, isDigit c = true) :
    Writes ds (ofDigits (ds.filterMap digitValue?)) := by
  induction ds using List.reverseRecOn with
  | nil => exact .nil
  | append_singleton ds c ih =>
    rw [List.forall_mem_append, List.forall_mem_singleton] at h
    obtain ⟨v, hv⟩ := Option.isSome_iff_exists.mp h.2
    have hsnoc := (ih h.1).snoc hv
    have hvalue := hsnoc.eq_ofDigits
    rwa [hvalue] at hsnoc

/-- Digits write a number, or they are too many. -/
theorem Digits.digitsValue_cases {ds : List Char} (h : Digits ds) :
    (ds.length ≤ maxDigits ∧ ∃ n : Nat, digitsValue ds = .ok n ∧ Writes ds n) ∨
      (maxDigits < ds.length ∧ digitsValue ds = .error ⟨ds.length⟩) := by
  have hlen : (ds.filterMap digitValue?).length = ds.length :=
    List.filterMap_length_eq_length.mpr h.2
  unfold digitsValue limited
  rw [hlen]
  by_cases hle : ds.length ≤ maxDigits
  · exact .inl ⟨hle, _, if_pos hle, writes_ofDigits h.2⟩
  · exact .inr ⟨Nat.lt_of_not_le hle, if_neg hle⟩

/-! ### The finding of details -/

/-- A finding is read off a path and details: its numbers are what the digits write, and its
message is what stands between the blanks. -/
structure Finding.ReadOff (f : Finding) (path : List Char) (d : Details) : Prop where
  path : f.path.toList = path
  line : Writes d.line f.line
  col : Writes d.col f.col
  length : Writes d.length f.length
  level : f.level.toList = d.level
  message : f.message.toList = trim d.rest

/-- Only one finding is read off details. -/
theorem Finding.ReadOff.unique {f g : Finding} {path : List Char} {d : Details}
    (hf : f.ReadOff path d) (hg : g.ReadOff path d) : f = g := by
  have hpath : f.path = g.path := String.toList_inj.mp (hf.path.trans hg.path.symm)
  have hline : f.line = g.line := hf.line.eq_ofDigits.trans hg.line.eq_ofDigits.symm
  have hcol : f.col = g.col := hf.col.eq_ofDigits.trans hg.col.eq_ofDigits.symm
  have hlength : f.length = g.length := hf.length.eq_ofDigits.trans hg.length.eq_ofDigits.symm
  have hlevel : f.level = g.level := String.toList_inj.mp (hf.level.trans hg.level.symm)
  have hmessage : f.message = g.message := String.toList_inj.mp (hf.message.trans hg.message.symm)
  cases f
  cases g
  simp only at hpath hline hcol hlength hlevel hmessage
  rw [hpath, hline, hcol, hlength, hlevel, hmessage]

/-- The numerals of details. -/
def Details.numerals (d : Details) : List (List Char) := [d.line, d.col, d.length]

/-- The first numeral of details that is too long. -/
def Details.tooLong? (d : Details) : Option TooLong :=
  (d.numerals.find? fun ds => maxDigits < ds.length).map fun ds => ⟨ds.length⟩

theorem Details.tooLong?_eq_none_iff {d : Details} :
    d.tooLong? = none ↔ ∀ ds ∈ d.numerals, ds.length ≤ maxDigits := by
  simp [tooLong?]

theorem Details.of_tooLong? {d : Details} {t : TooLong} (h : d.tooLong? = some t) :
    ∃ ds ∈ d.numerals, maxDigits < ds.length ∧ t = ⟨ds.length⟩ := by
  obtain ⟨ds, hfind, rfl⟩ := Option.map_eq_some_iff.mp h
  exact ⟨ds, List.mem_of_find?_eq_some hfind, by simpa using List.find?_some hfind, rfl⟩

theorem Details.exists_tooLong?_iff {d : Details} :
    (∃ t, d.tooLong? = some t) ↔ ∃ ds ∈ d.numerals, maxDigits < ds.length := by
  rw [← Option.isSome_iff_exists]
  simp [tooLong?]

/-- **Details make the finding that is read off them, unless a numeral is too long.** The
fault is then that of the first such numeral. -/
theorem Finding.make_readOff {d : Details} (hd : d.Formed) (path : List Char) :
    (∃ f, Finding.make path d = .ok f ∧ f.ReadOff path d ∧ d.tooLong? = none) ∨
      ∃ t, Finding.make path d = .error t ∧ d.tooLong? = some t := by
  unfold Finding.make
  rcases hd.line.digitsValue_cases with ⟨hline, line, hl, hlineWrites⟩ | ⟨hline, hl⟩
  · rcases hd.col.digitsValue_cases with ⟨hcol, col, hc, hcolWrites⟩ | ⟨hcol, hc⟩
    · rcases hd.length.digitsValue_cases with ⟨hlength, length, hn, hlengthWrites⟩ | ⟨hlength, hn⟩
      · left
        rw [hl, hc, hn]
        refine ⟨_, rfl, ?_, ?_⟩
        · exact {
            path := String.toList_ofList
            line := hlineWrites
            col := hcolWrites
            length := hlengthWrites
            level := String.toList_ofList
            message := String.toList_ofList }
        · simp [Details.tooLong?_eq_none_iff, Details.numerals, hline, hcol, hlength]
      · refine .inr ⟨⟨d.length.length⟩, by rw [hl, hc, hn]; rfl, ?_⟩
        simp [Details.tooLong?, Details.numerals, Nat.not_lt.mpr hline, Nat.not_lt.mpr hcol,
          hlength]
    · refine .inr ⟨⟨d.col.length⟩, by rw [hl, hc]; rfl, ?_⟩
      simp [Details.tooLong?, Details.numerals, Nat.not_lt.mpr hline, hcol]
  · refine .inr ⟨⟨d.line.length⟩, by rw [hl]; rfl, ?_⟩
    simp [Details.tooLong?, Details.numerals, hline]

theorem Finding.make_eq_ok_iff {d : Details} (hd : d.Formed) {path : List Char} {f : Finding} :
    Finding.make path d = .ok f ↔ f.ReadOff path d ∧ d.tooLong? = none := by
  rcases Finding.make_readOff hd path with ⟨g, hg, hread, hnone⟩ | ⟨t, ht, hsome⟩
  · rw [hg, Except.ok.injEq]
    constructor
    · rintro rfl
      exact ⟨hread, hnone⟩
    · exact fun h => hread.unique h.1
  · simp [ht, hsome]

theorem Finding.make_eq_error_iff {d : Details} (hd : d.Formed) {path : List Char} {t : TooLong} :
    Finding.make path d = .error t ↔ d.tooLong? = some t := by
  rcases Finding.make_readOff hd path with ⟨g, hg, -, hnone⟩ | ⟨u, hu, hsome⟩
  · simp [hg, hnone]
  · simp [hu, hsome]

/-! ### Lines -/

/-- A line is taken apart with the shortest path that there is. -/
def Shortest (line path : List Char) (d : Details) : Prop :=
  TakenApart line path d ∧ ∀ p e, TakenApart line p e → path.length ≤ p.length

theorem Shortest.unique {line path p : List Char} {d e : Details} (h : Shortest line path d)
    (h' : Shortest line p e) : path = p ∧ d = e :=
  h.1.unique h'.1 (Nat.le_antisymm (h.2 p e h'.1) (h'.2 path d h.1))

/-- What a line adds to the findings. -/
inductive Adds (line : List Char) : List Finding → Prop where
  | nothing (h : ∀ path d, ¬ TakenApart line path d) : Adds line []
  | finding {path : List Char} {d : Details} {f : Finding} (h : Shortest line path d)
      (hread : f.ReadOff path d) (hfits : ∀ ds ∈ d.numerals, ds.length ≤ maxDigits) : Adds line [f]

/-- A line has a numeral that is too long. -/
def Fails (line : List Char) (t : TooLong) : Prop :=
  ∃ path d, Shortest line path d ∧ d.tooLong? = some t

/-- The findings of a line. -/
def lineFindings (line : List Char) : Except TooLong (List Finding) :=
  match split? line with
  | none => .ok []
  | some (path, d) => (Finding.make path d).map fun f => [f]

variable {line : List Char}

theorem formed_of_split? {path : List Char} {d : Details} (h : split? line = some (path, d)) :
    d.Formed := (split?_eq_some_iff.mp h).1.2.1

theorem lineFindings_eq_ok_iff {fs : List Finding} :
    lineFindings line = .ok fs ↔ Adds line fs := by
  unfold lineFindings
  cases hs : split? line with
  | none =>
    have hnot := split?_eq_none_iff.mp hs
    constructor
    · intro h
      cases h
      exact .nothing hnot
    · rintro (_ | ⟨h, -, -⟩)
      · rfl
      · exact absurd h.1 (hnot _ _)
  | some x =>
    obtain ⟨path, d⟩ := x
    have hshort : Shortest line path d := split?_eq_some_iff.mp hs
    have hd : d.Formed := formed_of_split? hs
    simp only [map_eq_ok_iff, Finding.make_eq_ok_iff hd, Details.tooLong?_eq_none_iff]
    constructor
    · rintro ⟨f, ⟨hread, hfits⟩, rfl⟩
      exact .finding hshort hread hfits
    · rintro (hnot | ⟨h, hread, hfits⟩)
      · exact absurd hshort.1 (hnot path d)
      · obtain ⟨rfl, rfl⟩ := hshort.unique h
        exact ⟨_, ⟨hread, hfits⟩, rfl⟩

theorem lineFindings_eq_error_iff {t : TooLong} :
    lineFindings line = .error t ↔ Fails line t := by
  unfold lineFindings
  cases hs : split? line with
  | none =>
    have hnot := split?_eq_none_iff.mp hs
    constructor
    · intro h
      cases h
    · rintro ⟨path, d, h, -⟩
      exact absurd h.1 (hnot path d)
  | some x =>
    obtain ⟨path, d⟩ := x
    have hshort : Shortest line path d := split?_eq_some_iff.mp hs
    have hd : d.Formed := formed_of_split? hs
    simp only [map_eq_error_iff, Finding.make_eq_error_iff hd]
    constructor
    · exact fun h => ⟨path, d, hshort, h⟩
    · rintro ⟨p, e, h, ht⟩
      obtain ⟨rfl, rfl⟩ := hshort.unique h
      exact ht

/-- A line fails unless it adds something. -/
theorem exists_adds_iff : (∃ fs, Adds line fs) ↔ ∀ t, ¬ Fails line t := by
  simp only [← lineFindings_eq_ok_iff, ← lineFindings_eq_error_iff]
  cases lineFindings line with
  | ok fs => simp
  | error t => simp

theorem exists_fails_iff :
    (∃ t, Fails line t) ↔
      ∃ path d, Shortest line path d ∧ ∃ ds ∈ d.numerals, maxDigits < ds.length := by
  simp only [← Details.exists_tooLong?_iff]
  constructor
  · rintro ⟨t, path, d, h, ht⟩
    exact ⟨path, d, h, t, ht⟩
  · rintro ⟨path, d, h, t, ht⟩
    exact ⟨t, path, d, h, ht⟩

/-! ### Whole texts -/

/-- The findings of lines are those of each line, one line after the other. -/
theorem mapM_make_eq (ls : List (List Char)) :
    (ls.filterMap split?).mapM (fun (path, d) => Finding.make path d) =
      (ls.mapM lineFindings).map List.flatten := by
  induction ls with
  | nil => rfl
  | cons line ls ih =>
    rw [List.mapM_cons]
    cases hs : split? line with
    | none =>
      have hline : lineFindings line = .ok [] := by rw [lineFindings, hs]
      rw [List.filterMap_cons_none hs, ih, hline]
      cases ls.mapM lineFindings with
      | error t => rfl
      | ok parts => rfl
    | some x =>
      obtain ⟨path, d⟩ := x
      have hline : lineFindings line = (Finding.make path d).map fun f => [f] := by
        rw [lineFindings, hs]
      rw [List.filterMap_cons_some hs, List.mapM_cons, ih, hline]
      simp only
      cases Finding.make path d with
      | error t => rfl
      | ok f =>
        cases ls.mapM lineFindings with
        | error t => rfl
        | ok parts => rfl

theorem readFindings_eq (text : String) :
    readFindings text = ((lines text.toList).mapM lineFindings).map List.flatten :=
  mapM_make_eq (lines text.toList)

/-- **A text is read by the grammar of its lines.** Its findings are those that its lines
add, in their order. If there are none, a numeral is too long, and the fault is that of the
first line with such a numeral and of its first such numeral. -/
theorem readFindings_by_lines (text : String) :
    (∀ fs, readFindings text = .ok fs ↔
      ∃ parts, List.Forall₂ Adds (lines text.toList) parts ∧ fs = parts.flatten) ∧
    (∀ t, readFindings text = .error t ↔
      ∃ before line after, lines text.toList = before ++ line :: after ∧
        (∀ l ∈ before, ∀ u, ¬ Fails l u) ∧ Fails line t) ∧
    ((∃ t, readFindings text = .error t) ↔
      ∃ line ∈ lines text.toList, ∃ path d, Shortest line path d ∧
        ∃ ds ∈ d.numerals, maxDigits < ds.length) := by
  refine ⟨fun fs => ?_, fun t => ?_, ?_⟩
  · simp only [readFindings_eq, map_eq_ok_iff, mapM_eq_ok_iff, lineFindings_eq_ok_iff,
      eq_comm (b := fs)]
  · simp only [readFindings_eq, map_eq_error_iff, mapM_eq_error_iff, lineFindings_eq_ok_iff,
      lineFindings_eq_error_iff, exists_adds_iff]
  · simp only [readFindings_eq, map_eq_error_iff, exists_mapM_eq_error_iff,
      lineFindings_eq_error_iff, exists_fails_iff]

example : readFindings "a:1:2:error:\np:١٢:3:4:\terror: q:5:6:7:warning: x " =
    .ok [⟨"p", 12, 3, 4, "error", "q:5:6:7:warning: x"⟩] := by decide +kernel

end RenServer
