/- # The form of a finding

A line is a finding if it can be taken apart into a path, a colon and details: three
numbers, each with a colon after it, blanks, a level, a colon, and the rest
(`TakenApart`). A line can often be taken apart in several ways, since a path may hold
colons and digits and a message may look like a finding. The reader takes the shortest
path: it finds a way if there is one, and then one with no longer path than any other
(`split?_eq_some_iff`, `split?_eq_none_iff`).

So a printed finding is read back if no shorter path fits, and the fields between the
colons decide that. Behind a path the fourth field is blanks and a level. Counted from a
colon inside the printed path, the fourth field is one of the three printed numbers, which
is no level, or it lies within the path, which then holds the start of details itself
(`length_le_of_takenApart`). A path that holds none is read back, whatever the message says
(`readFindings_printed`).

Key definitions: `Digits`, `Details.text`, `TakenApart`, `HoldsDetails`,
`Finding.Printable`, `FindingLine`.
Key theorems: `details?_eq_some_iff`, `split?_eq_some_iff`, `split?_eq_none_iff`,
`length_le_of_takenApart`, `readFindings_printed`.
-/
import RenServer.Proofs.Text.ReadBack
import RenServer.Report.Findings

namespace RenServer

open Text

/-! ### Details -/

/-- Decimal digits, at least one. -/
def Digits (s : List Char) : Prop := s ≠ [] ∧ ∀ c ∈ s, isDigit c = true

/-- Blanks, maybe none. -/
def Blanks (s : List Char) : Prop := ∀ c ∈ s, isBlank c = true

instance (s : List Char) : Decidable (Blanks s) :=
  List.decidableBAll (fun c => isBlank c = true) s

theorem Digits.colon_notMem {s : List Char} (h : Digits s) : ':' ∉ s := fun hm =>
  absurd (h.2 ':' hm) (by decide)

theorem Blanks.colon_notMem {s : List Char} (h : Blanks s) : ':' ∉ s := fun hm =>
  absurd (h ':' hm) (by decide)

theorem colon_notMem_level {level : List Char} (h : level ∈ levels) : ':' ∉ level := by
  revert level
  decide

/-- A level is no number, whatever stands before it. -/
theorem not_digits_level {gap level : List Char} (h : level ∈ levels) :
    ¬ Digits (gap ++ level) := by
  have hletter : ∀ level ∈ levels, level.all isDigit = false := by decide
  intro hd
  have hdigits : level.all isDigit = true :=
    List.all_eq_true.mpr fun c hc => hd.2 c (List.mem_append_right gap hc)
  rw [hletter level h] at hdigits
  cases hdigits

/-- The parts of details are what they should be. -/
structure Details.Formed (d : Details) : Prop where
  line : Digits d.line
  col : Digits d.col
  length : Digits d.length
  level : d.level ∈ levels

/-- Details as they are written, with a gap before the level. -/
def Details.text (gap : List Char) (d : Details) : List Char :=
  d.line ++ ':' :: (d.col ++ ':' :: (d.length ++ ':' :: (gap ++ d.level ++ ':' :: d.rest)))

theorem number?_eq_some_iff {s ds rest : List Char} :
    number? s = some (ds, rest) ↔ Digits ds ∧ s = ds ++ ':' :: rest := by
  constructor
  · intro h
    have hs : s.takeWhile isDigit ++ s.dropWhile isDigit = s := List.takeWhile_append_dropWhile
    have hall : ∀ c ∈ s.takeWhile isDigit, isDigit c = true := fun c hc => List.mem_takeWhile_imp hc
    unfold number? at h
    split at h
    · rename_i d ds' rest' hd hr
      simp only [Option.some.injEq, Prod.mk.injEq] at h
      obtain ⟨rfl, rfl⟩ := h
      rw [hd] at hs hall
      rw [hr] at hs
      exact ⟨⟨List.cons_ne_nil d ds', hall⟩, hs.symm⟩
    · cases h
  · rintro ⟨⟨hne, hall⟩, rfl⟩
    have hcolon : ¬ isDigit ':' = true := by decide
    have htake : (ds ++ ':' :: rest).takeWhile isDigit = ds := by
      rw [List.takeWhile_append_of_pos hall, List.takeWhile_cons_of_neg hcolon, List.append_nil]
    have hdrop : (ds ++ ':' :: rest).dropWhile isDigit = ':' :: rest := by
      rw [List.dropWhile_append_of_pos hall, List.dropWhile_cons_of_neg hcolon]
    obtain ⟨d, ds', rfl⟩ := List.exists_cons_of_ne_nil hne
    simp only [number?, htake, hdrop]

/-- No text goes on with both levels. -/
theorem level?_eq_some_iff {s level rest : List Char} :
    level? s = some (level, rest) ↔ level ∈ levels ∧ s = level ++ ':' :: rest := by
  have hafter : ∀ l r, after? (l ++ [':']) s = some r ↔ s = l ++ ':' :: r := fun l r => by
    rw [after?_eq_some_iff, List.append_assoc, List.singleton_append]
  constructor
  · intro h
    obtain ⟨l, hl, hmap⟩ := List.exists_of_findSome?_eq_some h
    obtain ⟨r, hr, heq⟩ := Option.map_eq_some_iff.mp hmap
    simp only [Prod.mk.injEq] at heq
    obtain ⟨rfl, rfl⟩ := heq
    exact ⟨hl, (hafter l r).mp hr⟩
  · rintro ⟨hl, hs⟩
    have hown := (hafter level rest).mpr hs
    simp only [levels, List.mem_cons, List.not_mem_nil, or_false] at hl
    rcases hl with rfl | rfl
    · rw [level?, levels, List.findSome?_cons, hown]
      rfl
    · have hnone : after? ("error".toList ++ [':']) s = none := by rw [hs]; rfl
      rw [level?, levels, List.findSome?_cons, hnone, List.findSome?_cons, hown]
      rfl

/-- A level follows the blanks of a text exactly if the text is blanks and then it. -/
theorem level?_trimStart_eq_some_iff {s level rest : List Char} :
    level? (trimStart s) = some (level, rest) ↔
      level ∈ levels ∧ ∃ gap, Blanks gap ∧ s = gap ++ level ++ ':' :: rest := by
  rw [level?_eq_some_iff]
  constructor
  · rintro ⟨hl, hs⟩
    refine ⟨hl, s.takeWhile isBlank, fun c hc => List.mem_takeWhile_imp hc, ?_⟩
    rw [List.append_assoc, ← hs]
    exact List.takeWhile_append_dropWhile.symm
  · rintro ⟨hl, gap, hgap, rfl⟩
    refine ⟨hl, ?_⟩
    rw [trimStart, List.append_assoc, List.dropWhile_append_of_pos hgap]
    simp only [levels, List.mem_cons, List.not_mem_nil, or_false] at hl
    rcases hl with rfl | rfl
    · rfl
    · rfl

/-- **Details are found exactly where they are written.** -/
theorem details?_eq_some_iff {s : List Char} {d : Details} :
    details? s = some d ↔ d.Formed ∧ ∃ gap, Blanks gap ∧ s = d.text gap := by
  simp only [details?, Option.bind_eq_bind, Option.bind_eq_some_iff, Prod.exists,
    number?_eq_some_iff, level?_trimStart_eq_some_iff, Option.pure_def, Option.some.injEq]
  constructor
  · rintro ⟨line, s, ⟨hline, rfl⟩, col, s, ⟨hcol, rfl⟩, length, s, ⟨hlength, rfl⟩, level, rest,
      ⟨hlevel, gap, hgap, rfl⟩, rfl⟩
    exact ⟨⟨hline, hcol, hlength, hlevel⟩, gap, hgap, rfl⟩
  · rintro ⟨h, gap, hgap, rfl⟩
    exact ⟨_, _, ⟨h.line, rfl⟩, _, _, ⟨h.col, rfl⟩, _, _, ⟨h.length, rfl⟩, _, _,
      ⟨h.level, gap, hgap, rfl⟩, rfl⟩

/-! ### The shortest path -/

/-- A line is a path, a colon and details. -/
def TakenApart (line path : List Char) (d : Details) : Prop :=
  path ≠ [] ∧ d.Formed ∧ ∃ gap, Blanks gap ∧ line = path ++ ':' :: d.text gap

theorem splitFrom?_eq_some {s path : List Char} {d : Details} (h : splitFrom? s = some (path, d)) :
    (∃ t, s = path ++ ':' :: t ∧ details? t = some d) ∧
      ∀ p t, s = p ++ ':' :: t → (details? t).isSome → path.length ≤ p.length := by
  induction s generalizing path with
  | nil => cases h
  | cons c rest ih =>
    unfold splitFrom? at h
    split at h
    · rename_i d' hd
      cases h
      split at hd
      · rename_i hc
        exact ⟨⟨rest, by rw [hc]; rfl, hd⟩, fun _ _ _ _ => Nat.zero_le _⟩
      · cases hd
    · rename_i hnone
      obtain ⟨⟨path', d'⟩, hrest, heq⟩ := Option.map_eq_some_iff.mp h
      simp only [Prod.mk.injEq] at heq
      obtain ⟨rfl, rfl⟩ := heq
      obtain ⟨⟨t, rfl, ht⟩, hmin⟩ := ih hrest
      refine ⟨⟨t, rfl, ht⟩, fun p u hp hu => ?_⟩
      cases p with
      | nil =>
        -- the first colon would have been taken
        rw [List.nil_append, List.cons.injEq] at hp
        rw [if_pos hp.1, hp.2] at hnone
        rw [hnone] at hu
        cases hu
      | cons x p =>
        rw [List.cons_append, List.cons.injEq] at hp
        exact Nat.succ_le_succ (hmin p u hp.2 hu)

theorem splitFrom?_eq_none {s : List Char} (h : splitFrom? s = none) (p t : List Char)
    (hs : s = p ++ ':' :: t) : details? t = none := by
  induction s generalizing p with
  | nil => simp at hs
  | cons c rest ih =>
    unfold splitFrom? at h
    split at h
    · cases h
    · rename_i hnone
      cases p with
      | nil =>
        rw [List.nil_append, List.cons.injEq] at hs
        rwa [if_pos hs.1, hs.2] at hnone
      | cons x p =>
        rw [List.cons_append, List.cons.injEq] at hs
        exact ih (Option.map_eq_none_iff.mp h) p hs.2

theorem takenApart_iff {line path : List Char} {d : Details} :
    TakenApart line path d ↔ path ≠ [] ∧ ∃ t, line = path ++ ':' :: t ∧ details? t = some d := by
  simp only [TakenApart, details?_eq_some_iff]
  constructor
  · rintro ⟨hne, hd, gap, hgap, rfl⟩
    exact ⟨hne, _, rfl, hd, gap, hgap, rfl⟩
  · rintro ⟨hne, _, rfl, hd, gap, hgap, rfl⟩
    exact ⟨hne, hd, gap, hgap, rfl⟩

/-- A line with a path and no shorter one is taken apart so. -/
theorem TakenApart.of_split? {line path : List Char} {d : Details}
    (h : split? line = some (path, d)) :
    TakenApart line path d ∧ ∀ p e, TakenApart line p e → path.length ≤ p.length := by
  cases line with
  | nil => cases h
  | cons c rest =>
    obtain ⟨⟨path', d'⟩, hrest, heq⟩ := Option.map_eq_some_iff.mp h
    simp only [Prod.mk.injEq] at heq
    obtain ⟨rfl, rfl⟩ := heq
    obtain ⟨⟨t, rfl, ht⟩, hmin⟩ := splitFrom?_eq_some hrest
    refine ⟨takenApart_iff.mpr ⟨List.cons_ne_nil c path', t, rfl, ht⟩, fun p e hp => ?_⟩
    obtain ⟨hne, u, hline, hu⟩ := takenApart_iff.mp hp
    obtain ⟨x, p, rfl⟩ := List.exists_cons_of_ne_nil hne
    rw [List.cons_append, List.cons.injEq] at hline
    exact Nat.succ_le_succ (hmin p u hline.2 (by simp [hu]))

/-- **A line is no finding exactly if it cannot be taken apart.** -/
theorem split?_eq_none_iff {line : List Char} :
    split? line = none ↔ ∀ path d, ¬ TakenApart line path d := by
  constructor
  · intro h path d hd
    obtain ⟨hne, t, rfl, ht⟩ := takenApart_iff.mp hd
    obtain ⟨c, path, rfl⟩ := List.exists_cons_of_ne_nil hne
    have hnone := splitFrom?_eq_none (Option.map_eq_none_iff.mp h) path t rfl
    rw [hnone] at ht
    cases ht
  · intro h
    cases hs : split? line with
    | none => rfl
    | some x => exact absurd (TakenApart.of_split? hs).1 (h x.1 x.2)

/-- The path fixes the details. -/
theorem TakenApart.unique {line path path' : List Char} {d d' : Details}
    (h : TakenApart line path d) (h' : TakenApart line path' d') (hlen : path.length = path'.length) :
    path = path' ∧ d = d' := by
  obtain ⟨-, t, rfl, ht⟩ := takenApart_iff.mp h
  obtain ⟨-, t', heq, ht'⟩ := takenApart_iff.mp h'
  obtain ⟨rfl, hcons⟩ := List.append_inj heq hlen
  rw [List.cons.injEq] at hcons
  rw [← hcons.2, ht, Option.some.injEq] at ht'
  exact ⟨rfl, ht'⟩

/-- **A line is taken apart with the shortest path.** -/
theorem split?_eq_some_iff {line path : List Char} {d : Details} :
    split? line = some (path, d) ↔
      TakenApart line path d ∧ ∀ p e, TakenApart line p e → path.length ≤ p.length := by
  refine ⟨TakenApart.of_split?, fun ⟨hd, hmin⟩ => ?_⟩
  cases hs : split? line with
  | none => exact absurd hd (split?_eq_none_iff.mp hs path d)
  | some x =>
    obtain ⟨hx, hxmin⟩ := TakenApart.of_split? hs
    have hlen : x.1.length = path.length := Nat.le_antisymm (hxmin path d hd) (hmin x.1 x.2 hx)
    obtain ⟨hpath, hdetails⟩ := hx.unique hd hlen
    rw [← hpath, ← hdetails]

/-! ### Paths that are read back -/

/-- A text holds the start of details: a colon, three numbers with a colon after each,
blanks, and a level. -/
def HoldsDetails (s : List Char) : Prop :=
  ∃ before line col length gap level after, Digits line ∧ Digits col ∧ Digits length ∧
    Blanks gap ∧ level ∈ levels ∧
    s = before ++ ':' :: (line ++ ':' :: (col ++ ':' :: (length ++ ':' :: (gap ++ level ++ after))))

/-- A text that names no level holds no details. -/
theorem HoldsDetails.exists_level_infix {s : List Char} (h : HoldsDetails s) :
    ∃ level ∈ levels, level <:+: s := by
  obtain ⟨before, line, col, length, gap, level, after, -, -, -, -, hlevel, rfl⟩ := h
  refine ⟨level, hlevel, before ++ ':' :: (line ++ ':' :: (col ++ ':' :: (length ++ ':' :: gap))),
    after, ?_⟩
  simp

/-- The first four fields of details are their numbers and their level. -/
theorem Details.Formed.fields_text {d : Details} (h : d.Formed) {gap : List Char}
    (hgap : Blanks gap) :
    fields ':' (d.text gap) =
      d.line :: d.col :: d.length :: (gap ++ d.level) :: fields ':' d.rest := by
  have hlevel : ':' ∉ gap ++ d.level := fun hm =>
    (List.mem_append.mp hm).elim hgap.colon_notMem (colon_notMem_level h.level)
  rw [Details.text, fields_append, fields_append, fields_append, fields_append,
    fields_of_notMem h.line.colon_notMem, fields_of_notMem h.col.colon_notMem,
    fields_of_notMem h.length.colon_notMem, fields_of_notMem hlevel]
  rfl

/-- A path that is cut short at one of its colons goes on behind it. -/
theorem eq_append_of_shorter {p path t u : List Char} (h : p ++ ':' :: t = path ++ ':' :: u)
    (hlt : p.length < path.length) : ∃ q, path = p ++ ':' :: q ∧ t = q ++ ':' :: u := by
  rcases List.append_eq_append_iff.mp h with ⟨q, rfl, hq⟩ | ⟨q, rfl, -⟩
  · cases q with
    | nil => simp at hlt
    | cons c q =>
      rw [List.cons_append, List.cons.injEq] at hq
      exact ⟨q, by rw [hq.1], hq.2⟩
  · rw [List.length_append] at hlt
    omega

/-- **A path that does not hold the start of details is the shortest.** -/
theorem length_le_of_takenApart {path gap : List Char} {d : Details} (hpath : ¬ HoldsDetails path)
    (hd : d.Formed) (hgap : Blanks gap) {p : List Char} {e : Details}
    (h : TakenApart (path ++ ':' :: d.text gap) p e) : path.length ≤ p.length := by
  obtain ⟨-, he, egap, hegap, heq⟩ := h
  by_contra hlt
  obtain ⟨q, hq, htext⟩ := eq_append_of_shorter heq.symm (Nat.lt_of_not_le hlt)
  have hfields := congrArg (fields ':') htext
  rw [fields_append, hd.fields_text hgap, he.fields_text hegap] at hfields
  have hnumber : ∀ {ds : List Char}, Digits ds → egap ++ e.level ≠ ds := fun hds heq =>
    not_digits_level he.level (heq ▸ hds)
  -- the fields of the rest of the path, and with them the place of the fourth field
  match hparts : fields ':' q with
  | [] => exact fields_ne_nil ':' q hparts
  | [_] =>
    rw [hparts] at hfields
    simp only [List.cons_append, List.nil_append, List.cons.injEq] at hfields
    exact hnumber hd.length hfields.2.2.2.1
  | [_, _] =>
    rw [hparts] at hfields
    simp only [List.cons_append, List.nil_append, List.cons.injEq] at hfields
    exact hnumber hd.col hfields.2.2.2.1
  | [_, _, _] =>
    rw [hparts] at hfields
    simp only [List.cons_append, List.nil_append, List.cons.injEq] at hfields
    exact hnumber hd.line hfields.2.2.2.1
  | l :: c :: n :: v :: more =>
    rw [hparts] at hfields
    simp only [List.cons_append, List.cons.injEq] at hfields
    obtain ⟨hl, hc, hn, hv, -⟩ := hfields
    have hafter : ∃ after, [':'].intercalate (v :: more) = v ++ after := by
      cases more with
      | nil => exact ⟨[], by simp⟩
      | cons m more => exact ⟨_, by rw [List.intercalate_cons_cons, List.append_assoc]⟩
    obtain ⟨after, hafter⟩ := hafter
    have hrest : q = l ++ ':' :: (c ++ ':' :: (n ++ ':' :: (v ++ after))) := by
      have hjoin := intercalate_fields ':' q
      rw [hparts, List.intercalate_cons_cons, List.intercalate_cons_cons,
        List.intercalate_cons_cons, hafter] at hjoin
      simpa using hjoin.symm
    refine hpath ⟨p, l, c, n, egap, e.level, after, hl ▸ he.line, hc ▸ he.col, hn ▸ he.length,
      hegap, he.level, ?_⟩
    rw [hq, hrest, hv]

/-! ### Printing -/

/-- The blanks that may stand in a finding. -/
structure Gaps where
  beforeLevel : List Char
  beforeMessage : List Char
  afterMessage : List Char

/-- Blanks that stay on the line. -/
def Gaps.Printable (g : Gaps) : Prop :=
  ∀ gap ∈ [g.beforeLevel, g.beforeMessage, g.afterMessage], Blanks gap ∧ Unbroken gap

namespace Finding

/-- The details of a finding, with blanks around its message. -/
def details (g : Gaps) (f : Finding) : Details where
  line := numeral f.line
  col := numeral f.col
  length := numeral f.length
  level := f.level.toList
  rest := g.beforeMessage ++ f.message.toList ++ g.afterMessage

/-- The line that shows a finding. -/
def text (g : Gaps) (f : Finding) : List Char :=
  f.path.toList ++ ':' :: (f.details g).text g.beforeLevel

/-- A number that a finding can show. -/
def Countable (n : Int) : Prop := 0 ≤ n ∧ isWritable n = true

/-- A finding that its line can show. -/
structure Printable (f : Finding) : Prop where
  path : f.path.toList ≠ [] ∧ Unbroken f.path.toList
  unambiguous : ¬ HoldsDetails f.path.toList
  line : Countable f.line
  col : Countable f.col
  length : Countable f.length
  level : f.level = "error" ∨ f.level = "warning"
  message : trim f.message.toList = f.message.toList ∧ Unbroken f.message.toList

theorem Countable.exists_nat {n : Int} (h : Countable n) :
    ∃ m : Nat, n = m ∧ isWritable m = true := by
  obtain ⟨m, rfl⟩ := Int.eq_ofNat_of_zero_le h.1
  exact ⟨m, rfl, h.2⟩

theorem Countable.digits {n : Int} (h : Countable n) : Digits (numeral n) := by
  obtain ⟨m, rfl, -⟩ := h.exists_nat
  rw [numeral_natCast]
  refine ⟨Nat.toDigits_ne_nil, fun c hc => ?_⟩
  rw [isDigit, digitValue?_of_isDigit (isDigit_toDigits m c hc)]
  rfl

theorem Countable.digitsValue {n : Int} (h : Countable n) :
    ∃ m : Nat, digitsValue (numeral n) = .ok m ∧ (m : Int) = n := by
  obtain ⟨m, rfl, hm⟩ := h.exists_nat
  refine ⟨m, ?_, rfl⟩
  rw [RenServer.digitsValue, numeral_natCast, limited_toDigits hm]

variable {f : Finding} {g : Gaps}

theorem Printable.formed (h : f.Printable) : (f.details g).Formed where
  line := h.line.digits
  col := h.col.digits
  length := h.length.digits
  level := by
    rcases h.level with hl | hl
    · simp [details, hl, levels]
    · simp [details, hl, levels]

theorem Printable.unbroken (h : f.Printable) (hg : g.Printable) : Unbroken (f.text g) := by
  have hgaps : ∀ gap ∈ [g.beforeLevel, g.beforeMessage, g.afterMessage], Unbroken gap :=
    fun gap hm => (hg gap hm).2
  simp only [List.forall_mem_cons] at hgaps
  obtain ⟨hbefore, hmessage, hafter, -⟩ := hgaps
  have hlevel : Unbroken f.level.toList := by
    rcases h.level with hl | hl
    · rw [hl]
      decide
    · rw [hl]
      decide
  have hcolon : isBreak ':' = false := by decide
  have hrest : Unbroken (f.details g).rest := (hmessage.append h.message.2).append hafter
  exact h.path.2.append (.cons hcolon ((unbroken_numeral _).append (.cons hcolon
    ((unbroken_numeral _).append (.cons hcolon ((unbroken_numeral _).append (.cons hcolon
      ((hbefore.append hlevel).append (.cons hcolon hrest)))))))))

/-- **A printed finding is taken apart as it was printed.** -/
theorem Printable.split?_text (h : f.Printable) (hg : g.Printable) :
    split? (f.text g) = some (f.path.toList, f.details g) := by
  have hgap : Blanks g.beforeLevel := (hg _ (by simp)).1
  exact split?_eq_some_iff.mpr ⟨⟨h.path.1, h.formed, g.beforeLevel, hgap, rfl⟩,
    fun _ _ => length_le_of_takenApart h.unambiguous h.formed hgap⟩

theorem Printable.make_details (h : f.Printable) (hg : g.Printable) :
    Finding.make f.path.toList (f.details g) = .ok f := by
  obtain ⟨line, hline, hl⟩ := h.line.digitsValue
  obtain ⟨col, hcol, hc⟩ := h.col.digitsValue
  obtain ⟨length, hlength, hn⟩ := h.length.digitsValue
  have hmessage : trim (f.details g).rest = f.message.toList :=
    trim_padded (hg _ (by simp)).1 (hg _ (by simp)).1 h.message.1
  have hread : Finding.make f.path.toList (f.details g) = .ok {
      path := String.ofList f.path.toList
      line, col, length
      level := String.ofList (f.details g).level
      message := String.ofList (trim (f.details g).rest) } := by
    simp only [Finding.make, details, hline, hcol, hlength]
    rfl
  rw [hread, hmessage, hl, hc, hn]
  simp [details]

end Finding

/-! ### Whole texts -/

/-- A line of the compiler's standard error: a finding with blanks, or something else. -/
inductive FindingLine where
  | finding (f : Finding) (g : Gaps)
  | other (line : List Char)

namespace FindingLine

def text : FindingLine → List Char
  | .finding f g => f.text g
  | .other line => line

/-- A line as it may stand in a text. Anything may stand between the findings that cannot
be taken apart. -/
def Printable : FindingLine → Prop
  | .finding f g => f.Printable ∧ g.Printable
  | .other line => Unbroken line ∧ ∀ path d, ¬ TakenApart line path d

def finding? : FindingLine → Option Finding
  | .finding f _ => some f
  | .other _ => none

theorem Printable.unbroken {l : FindingLine} (h : l.Printable) : Unbroken l.text := by
  cases l with
  | finding f g => exact Finding.Printable.unbroken h.1 h.2
  | other line => exact h.1

/-- Printed lines, read one by one, make the printed findings. -/
theorem mapM_make {ls : List FindingLine} (h : ∀ l ∈ ls, l.Printable) :
    ((ls.map text).filterMap split?).mapM (fun (path, d) => Finding.make path d) =
      .ok (ls.filterMap finding?) := by
  induction ls with
  | nil => rfl
  | cons l ls ih =>
    have hrest := ih fun x hx => h x (List.mem_cons_of_mem l hx)
    have hl := h l List.mem_cons_self
    cases l with
    | finding f g =>
      have hsplit : split? (text (.finding f g)) = some (f.path.toList, f.details g) :=
        hl.1.split?_text hl.2
      have hmake : Finding.make f.path.toList (f.details g) = .ok f := hl.1.make_details hl.2
      rw [List.map_cons, List.filterMap_cons_some hsplit, List.mapM_cons, hrest]
      simp only [hmake]
      rfl
    | other line =>
      have hsplit : split? (text (.other line)) = none := split?_eq_none_iff.mpr hl.2
      rw [List.map_cons, List.filterMap_cons_none hsplit, hrest]
      rfl

end FindingLine

/-- **Reading findings undoes printing them.** The findings of lines that were printed and
joined by any breaks are the printed ones, in their order: no shorter path fits, although
paths may hold colons and numbers and messages may look like findings. -/
theorem readFindings_printed {ls : List FindingLine} (hls : ∀ l ∈ ls, l.Printable) {text : String}
    (h : Joined (ls.map FindingLine.text) text.toList) :
    readFindings text = .ok (ls.filterMap FindingLine.finding?) := by
  have hunbroken : ∀ line ∈ ls.map FindingLine.text, Unbroken line := by
    intro line hm
    obtain ⟨l, hl, rfl⟩ := List.mem_map.mp hm
    exact (hls l hl).unbroken
  rw [readFindings, h.filterMap_lines rfl hunbroken]
  exact FindingLine.mapM_make hls

/-- A text whose first path goes on with three numbers and whose first message is itself a
finding. -/
def ambiguousFindings : List FindingLine :=
  [.finding ⟨"C:1:2:3:4", 12, 5, 3, "error", "x:1:2:3:warning:y"⟩ ⟨[' '], ['\t', ' '], [' ']⟩,
    .other "note:1:2:3: 1 error".toList, .finding ⟨"/a", 1, 2, 0, "warning", ""⟩ ⟨[], [], []⟩]

theorem readFindings_ambiguous :
    let text :=
      "C:1:2:3:4:12:5:3: error:\t x:1:2:3:warning:y \r\nnote:1:2:3: 1 error\n/a:1:2:0:warning:"
    (∀ l ∈ ambiguousFindings, l.Printable) ∧
      Joined (ambiguousFindings.map FindingLine.text) text.toList ∧
      readFindings text = .ok [⟨"C:1:2:3:4", 12, 5, 3, "error", "x:1:2:3:warning:y"⟩,
        ⟨"/a", 1, 2, 0, "warning", ""⟩] := by
  intro text
  have hcount : ∀ n ∈ [(12 : Int), 5, 3, 1, 2, 0], Finding.Countable n := by
    unfold Finding.Countable
    decide +kernel
  have hplain : ∀ path ∈ ["C:1:2:3:4".toList, "/a".toList], ¬ HoldsDetails path := by
    have hnone : ∀ path ∈ ["C:1:2:3:4".toList, "/a".toList],
        ¬ ∃ level ∈ levels, level <:+: path := by decide
    exact fun path hpath h => hnone path hpath h.exists_level_infix
  have hgaps : ∀ g ∈ [(⟨[' '], ['\t', ' '], [' ']⟩ : Gaps), ⟨[], [], []⟩], g.Printable := by
    simp only [Gaps.Printable]
    decide
  have hls : ∀ l ∈ ambiguousFindings, l.Printable := by
    simp only [ambiguousFindings, List.forall_mem_cons]
    refine ⟨⟨⟨⟨by decide, by decide⟩, hplain _ (by simp), hcount _ (by simp), hcount _ (by simp),
      hcount _ (by simp), .inl rfl, by decide, by decide⟩, hgaps _ (by simp)⟩,
      ⟨by decide, split?_eq_none_iff.mp (by decide)⟩,
      ⟨⟨⟨by decide, by decide⟩, hplain _ (by simp), hcount _ (by simp), hcount _ (by simp),
        hcount _ (by simp), .inr rfl, by decide, by decide⟩, hgaps _ (by simp)⟩, by simp⟩
  have hlines : ambiguousFindings.map FindingLine.text =
      ["C:1:2:3:4:12:5:3: error:\t x:1:2:3:warning:y ".toList, "note:1:2:3: 1 error".toList,
        "/a:1:2:0:warning:".toList] := by decide
  have htext : text.toList = "C:1:2:3:4:12:5:3: error:\t x:1:2:3:warning:y ".toList ++
      (['\r', '\n'] ++ ("note:1:2:3: 1 error".toList ++ (['\n'] ++
        "/a:1:2:0:warning:".toList))) := by decide
  have h : Joined (ambiguousFindings.map FindingLine.text) text.toList := by
    rw [hlines, htext]
    exact .cons _ .crlf (.cons _ (.single '\n' rfl) (.last _))
  exact ⟨hls, h, readFindings_printed hls h⟩

end RenServer
