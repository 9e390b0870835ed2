/- # Numbers that are too long

Of the values that hold no others, strings, dates and times are at worst malformed. A whole
number can be more: it may have too many digits. It then stands at the start of the text
(`LongNumber`), a long run of digits with it (`LongNumber.exists_infix`), and it is not taken
for anything else that may start with a digit. So a value is refused for its digits exactly
if a long number stands there (`exists_scalar_tooLong_iff`).

Key definitions: `Spells`, `LongNumeral`, `LongNumber`.
Key theorems: `LongNumber.exists_infix`, `reads_scalar`, `exists_scalar_tooLong_iff`.
-/
import RenServer.Proofs.Toml.Scanning
import RenServer.Toml.Document

namespace RenServer
namespace Toml

open Text

/-! ### Moments and numbers -/

section Numbers

variable {s rest : List Char}

theorem drop_of_fixed? {count low high n : Nat} (h : fixed? count low high s = some (n, rest)) :
    s.drop count = rest := by
  dsimp only [fixed?] at h
  split_ifs at h
  cases h
  rfl

theorem suffix_of_fixed? {count low high n : Nat} (h : fixed? count low high s = some (n, rest)) :
    rest <:+ s := drop_of_fixed? h ▸ List.drop_suffix _ _

theorem suffix_of_clock? (h : clock? s = some rest) : rest <:+ s := by
  simp only [clock?, Option.bind_eq_bind, Option.bind_eq_some_iff] at h
  obtain ⟨⟨hours, s1⟩, hhours, s2, hcolon, ⟨minutes, s3⟩, hminutes, hrest⟩ := h
  cases hrest
  exact ((suffix_of_fixed? hminutes).trans (suffix_of_after? hcolon)).trans
    (suffix_of_fixed? hhours)

theorem skipFraction_suffix (s : List Char) : skipFraction s <:+ s := by
  fun_cases skipFraction s with
  | case1 d rest hd => exact (List.dropWhile_suffix _).trans (List.suffix_append [_, _] rest)
  | case2 => exact List.suffix_rfl
  | case3 => exact List.suffix_rfl

theorem suffix_of_time? (h : time? s = some rest) : rest <:+ s := by
  simp only [time?, Option.bind_eq_bind, Option.bind_eq_some_iff] at h
  obtain ⟨s1, hclock, s2, hcolon, ⟨seconds, s3⟩, hseconds, hrest⟩ := h
  cases hrest
  exact (((skipFraction_suffix s3).trans (suffix_of_fixed? hseconds)).trans
    (suffix_of_after? hcolon)).trans (suffix_of_clock? hclock)

theorem getD_clock?_suffix {c : Char} : (clock? s).getD (c :: s) <:+ c :: s := by
  cases hclock : clock? s with
  | none => exact List.suffix_rfl
  | some rest => exact (suffix_of_clock? hclock).trans (List.suffix_cons c s)

theorem skipOffset_suffix (s : List Char) : skipOffset s <:+ s := by
  fun_cases skipOffset s with
  | case1 rest => exact List.suffix_cons _ _
  | case2 rest => exact List.suffix_cons _ _
  | case3 rest => exact getD_clock?_suffix
  | case4 rest => exact getD_clock?_suffix
  | case5 => exact List.suffix_rfl

theorem skipTime_suffix (s : List Char) : skipTime s <:+ s := by
  fun_cases skipTime s with
  | case1 c rest hc after hafter =>
    exact ((skipOffset_suffix after).trans (suffix_of_time? hafter)).trans (List.suffix_cons c rest)
  | case2 => exact List.suffix_rfl
  | case3 => exact List.suffix_rfl
  | case4 => exact List.suffix_rfl

theorem suffix_of_date? {year month day : Nat} (h : date? s = some (year, month, day, rest)) :
    rest <:+ s := by
  simp only [date?, Option.bind_eq_bind, Option.bind_eq_some_iff] at h
  obtain ⟨⟨y, s1⟩, hyear, s2, hdash, ⟨m, s3⟩, hmonth, s4, hdash', ⟨d, s5⟩, hday, hrest⟩ := h
  cases hrest
  exact ((((suffix_of_fixed? hday).trans (suffix_of_after? hdash')).trans
    (suffix_of_fixed? hmonth)).trans (suffix_of_after? hdash)).trans (suffix_of_fixed? hyear)

theorem tries_moment? (s : List Char) : Tries (· = .malformed) s Prod.snd (moment? s) := by
  intro x hx
  cases hdate : date? s with
  | some date =>
    obtain ⟨year, month, day, rest⟩ := date
    rw [moment?, hdate] at hx
    cases hx
    split_ifs
    · exact (skipTime_suffix rest).trans (suffix_of_date? hdate)
    · rfl
  | none =>
    rw [moment?, hdate] at hx
    obtain ⟨rest, htime, rfl⟩ := Option.map_eq_some_iff.1 hx
    exact suffix_of_time? htime

/-- Digits `ds` of a class are read off the start of a text, `rest` is left, and underscores
stand among them. -/
def Spells (isDigit : Char → Bool) (s ds rest : List Char) : Prop :=
  ∃ run, run ++ rest = s ∧ (∀ c ∈ run, isDigit c = true ∨ c = '_') ∧ ds = run.filter isDigit

theorem Spells.suffix {isDigit : Char → Bool} {ds : List Char} (h : Spells isDigit s ds rest) :
    rest <:+ s := by
  obtain ⟨run, rfl, -⟩ := h
  exact List.suffix_append _ _

theorem spells_digitRun (isDigit : Char → Bool) (s : List Char) :
    Spells isDigit s (digitRun isDigit s).1 (digitRun isDigit s).2 := by
  have hnone (s : List Char) : Spells isDigit s [] s := ⟨[], rfl, by simp, rfl⟩
  fun_induction digitRun isDigit s with
  | case1 => exact hnone []
  | case2 c rest hc more left hmore ih =>
    rw [hmore] at ih
    obtain ⟨run, hrun, hall, hmore'⟩ := ih
    refine ⟨c :: run, by rw [List.cons_append, hrun], ?_, ?_⟩
    · exact List.forall_mem_cons.2 ⟨.inl hc, hall⟩
    · rw [List.filter_cons_of_pos hc, ← hmore']
  | case3 d rest hd hscore ih =>
    obtain ⟨run, hrun, hall, hds⟩ := ih
    refine ⟨'_' :: run, by rw [List.cons_append, hrun], ?_, ?_⟩
    · exact List.forall_mem_cons.2 ⟨.inr rfl, hall⟩
    · rw [List.filter_cons_of_neg hscore, ← hds]
  | case4 d rest hc hd => exact hnone _
  | case5 hc => exact hnone _
  | case6 c rest hc hscore => exact hnone _

theorem spells_of_digits? {isDigit : Char → Bool} {ds : List Char}
    (h : digits? isDigit s = some (ds, rest)) : Spells isDigit s ds rest := by
  cases s with
  | nil => cases h
  | cons c s =>
    rw [digits?] at h
    split_ifs at h
    have hrun := spells_digitRun isDigit (c :: s)
    rw [Option.some.inj h] at hrun
    exact hrun

theorem spells_of_whole? {ds : List Char} (h : whole? s = some (ds, rest)) :
    Spells isAsciiDigit s ds rest := by
  unfold whole? at h
  split at h
  next rest =>
    cases h
    exact ⟨['0'], rfl, fun c hc => .inl (List.mem_singleton.1 hc ▸ rfl), rfl⟩
  next => exact spells_of_digits? h

theorem sign_suffix (s : List Char) : (sign s).2 <:+ s := by
  fun_cases sign s with
  | case1 rest => exact List.suffix_cons _ _
  | case2 rest => exact List.suffix_cons _ _
  | case3 => exact List.suffix_rfl

theorem suffix_of_fraction? {ds : List Char} (h : fraction? s = some (ds, rest)) : rest <:+ s := by
  unfold fraction? at h
  split at h
  next => exact (spells_of_digits? h).suffix.trans (List.suffix_cons _ _)
  next => cases h

theorem suffix_of_exponent? {power : Int} (h : exponent? s = some (power, rest)) :
    rest <:+ s := by
  cases s with
  | nil => cases h
  | cons c s =>
    rw [exponent?] at h
    split_ifs at h
    simp only [Option.bind_eq_bind, Option.bind_eq_some_iff] at h
    obtain ⟨⟨ds, left⟩, hds, hrest⟩ := h
    cases hrest
    exact ((spells_of_digits? hds).suffix.trans (sign_suffix s)).trans (List.suffix_cons c s)

theorem getD_exponent?_suffix (s : List Char) : ((exponent? s).getD (0, s)).2 <:+ s := by
  cases hexponent : exponent? s with
  | none => exact List.suffix_rfl
  | some read => exact suffix_of_exponent? hexponent

/-- ASCII digits, maybe with underscores among them, that are more than a numeral may have. -/
def LongNumeral (run : List Char) : Prop :=
  (∀ c ∈ run, isAsciiDigit c = true ∨ c = '_') ∧ maxDigits < run.countP isAsciiDigit

/-- A whole number with too many digits stands at the start of a text: a sign maybe, then
digits that do not start with zero, and neither a fraction nor an exponent after them. -/
def LongNumber (s : List Char) : Prop :=
  ∃ ds rest, whole? (sign s).2 = some (ds, rest) ∧ fraction? rest = none ∧
    exponent? rest = none ∧ maxDigits < ds.length

/-- The faults of a number at the start of a text. -/
def NumberFault (s : List Char) (fault : Fault) : Prop :=
  fault = .malformed ∨ LongNumber s ∧ ∃ numeral, fault = .tooLong numeral

theorem LongNumber.exists_infix (h : LongNumber s) : ∃ run, run <:+: s ∧ LongNumeral run := by
  obtain ⟨ds, rest, hwhole, -, -, hlong⟩ := h
  obtain ⟨run, hrun, hall, rfl⟩ := spells_of_whole? hwhole
  have hinfix : run <:+: (sign s).2 := ⟨[], rest, hrun⟩
  refine ⟨run, hinfix.trans (sign_suffix s).isInfix, hall, ?_⟩
  rwa [List.countP_eq_length_filter]

theorem limited_of_spells {ds : List Char} (h : Spells isAsciiDigit s ds rest) :
    limited (ds.filterMap digitValue?) =
      if ds.length ≤ maxDigits then .ok (ofDigits (ds.filterMap digitValue?))
      else .error ⟨ds.length⟩ := by
  obtain ⟨run, -, -, rfl⟩ := h
  have hdigits : ∀ c ∈ run.filter isAsciiDigit, c.isDigit = true := fun c hc =>
    (List.mem_filter.1 hc).2
  have hlength : ((run.filter isAsciiDigit).filterMap digitValue?).length =
      (run.filter isAsciiDigit).length := by
    rw [filterMap_digitValue? hdigits, List.length_map]
  rw [limited, hlength]

theorem tries_decimal? (s : List Char) : Tries (NumberFault s) s Prod.snd (decimal? s) := by
  intro x hx
  simp only [decimal?, Option.bind_eq_bind, Option.bind_eq_some_iff] at hx
  obtain ⟨⟨ds, s1⟩, hwhole, hx⟩ := hx
  have hds := spells_of_whole? hwhole
  refine Reads.mono ?_ (sign_suffix s)
  dsimp only at hx
  rw [limited_of_spells hds] at hx
  split at hx
  next hfraction hexponent =>
    cases hx
    by_cases hlong : ds.length ≤ maxDigits
    · rw [if_pos hlong]
      exact hds.suffix
    · rw [if_neg hlong]
      exact .inr ⟨⟨ds, s1, hwhole, hfraction, hexponent, Nat.lt_of_not_le hlong⟩, _, rfl⟩
  next power s2 hfraction hexponent =>
    cases hx
    exact (suffix_of_exponent? hexponent).trans hds.suffix
  next fs s2 hfraction =>
    cases hx
    exact ((getD_exponent?_suffix s2).trans (suffix_of_fraction? hfraction)).trans hds.suffix

theorem suffix_of_based? {v : Value} (h : based? s = some (v, rest)) : rest <:+ s := by
  have hnumber {base : Nat} {isDigit : Char → Bool} {t : List Char}
      (ht : based?.number base isDigit t = some (v, rest)) : rest <:+ t := by
    simp only [based?.number, Option.bind_eq_bind, Option.bind_eq_some_iff] at ht
    obtain ⟨⟨ds, left⟩, hds, hrest⟩ := ht
    cases hrest
    exact (spells_of_digits? hds).suffix
  unfold based? at h
  split at h
  next => exact (hnumber h).trans (List.suffix_cons _ _)
  next => exact (hnumber h).trans (List.suffix_cons _ _)
  next => exact (hnumber h).trans (List.suffix_cons _ _)
  next => cases h

theorem tries_number? (s : List Char) : Tries (NumberFault s) s Prod.snd (number? s) := by
  intro x hx
  unfold number? at hx
  split at hx
  next rest =>
    split at hx
    next read hbased =>
      cases hx
      exact (suffix_of_based? hbased).trans (List.suffix_cons _ _)
    next => exact tries_decimal? _ x hx
  next => exact tries_decimal? _ x hx

theorem tries_numberWord? (s : List Char) : Tries (NumberFault s) s Prod.snd (numberWord? s) := by
  have hword (word : List Char) (v : Value) : Tries (NumberFault s) s Prod.snd
      ((after? word (sign s).2).map fun rest => .ok (v, rest)) := by
    intro x hx
    obtain ⟨rest, hrest, rfl⟩ := Option.map_eq_some_iff.1 hx
    exact (suffix_of_after? hrest).trans (sign_suffix s)
  exact (hword _ _).or (hword _ _)

/-! A long number is not taken for anything else. -/

theorem mark?_drop {run : List Char} {m : Char} {n : Nat} (rest : List Char)
    (hrun : ∀ c ∈ run, isAsciiDigit c = true ∨ c = '_') (hn : n < run.length)
    (hm : isAsciiDigit m = false) (hscore : m ≠ '_') : mark? m ((run ++ rest).drop n) = none := by
  rw [mark?, after?_eq_none_iff, List.drop_append_of_le_length (Nat.le_of_lt hn),
    List.drop_eq_getElem_cons hn, List.cons_append, List.cons_prefix_cons]
  rintro ⟨rfl, -⟩
  obtain hdigit | hscore' := hrun _ (List.getElem_mem hn)
  · rw [hm] at hdigit
    cases hdigit
  · exact hscore hscore'

theorem moment?_of_run {run : List Char} (hrun : ∀ c ∈ run, isAsciiDigit c = true ∨ c = '_')
    (hlength : 4 < run.length) : moment? (run ++ rest) = none := by
  have hdate : date? (run ++ rest) = none := by
    cases hyear : fixed? 4 0 9999 (run ++ rest) with
    | none => simp [date?, hyear]
    | some year =>
      have hdash := mark?_drop (m := '-') rest hrun hlength (by decide) (by decide)
      rw [drop_of_fixed? hyear] at hdash
      simp [date?, hyear, hdash]
  have htime : time? (run ++ rest) = none := by
    cases hhours : fixed? 2 0 23 (run ++ rest) with
    | none => simp [time?, clock?, hhours]
    | some hours =>
      have hcolon := mark?_drop (n := 2) (m := ':') rest hrun (by omega) (by decide) (by decide)
      rw [drop_of_fixed? hhours] at hcolon
      simp [time?, clock?, hhours, hcolon]
  simp [moment?, hdate, htime]

theorem moment?_cons_of_not_digit {c : Char} (hc : isAsciiDigit c = false) :
    moment? (c :: s) = none := by
  have hfixed (count low high : Nat) : fixed? (count + 1) low high (c :: s) = none := by
    simp [fixed?, hc]
  simp [moment?, date?, time?, clock?, hfixed]

end Numbers

/-! ### Values without values in them -/

section Scalars

variable {s : List Char}

theorem reads_scalar (s : List Char) : Reads (NumberFault s) s Prod.snd (scalar s) := by
  rw [scalar]
  split
  next read hread =>
    have hstring : Reads (NumberFault s) s Prod.snd read :=
      (tries_string? s read hread).weaken fun _ => .inl
    exact Reads.map _ (fun _ => rfl) hstring
  next =>
    split
    next rest hrest => exact suffix_of_after? hrest
    next =>
      split
      next rest hrest => exact suffix_of_after? hrest
      next =>
        have hmoment : Tries (NumberFault s) s Prod.snd (moment? s) := fun x hx =>
          (tries_moment? s x hx).weaken fun _ => .inl
        have htried : Tries (NumberFault s) s Prod.snd
            (((moment? s).or (number? s)).or (numberWord? s)) :=
          (hmoment.or (tries_number? s)).or (tries_numberWord? s)
        cases hread : ((moment? s).or (number? s)).or (numberWord? s) with
        | none => exact .inl rfl
        | some read => exact htried read hread

/-- A long number starts with a sign or with a digit that is not zero, and is not taken for a
date or a time. -/
theorem LongNumber.start (h : LongNumber s) :
    ∃ c more, s = c :: more ∧ (c = '+' ∨ c = '-' ∨ isAsciiDigit c = true ∧ c ≠ '0') ∧
      moment? s = none := by
  obtain ⟨ds, rest, hwhole, -, -, hlong⟩ := h
  obtain ⟨run, hrun, hall, hds⟩ := spells_of_whole? hwhole
  have hlength : 4 < run.length := by
    have hfilter : ds.length ≤ run.length := hds ▸ List.length_filter_le _ _
    rw [maxDigits] at hlong
    omega
  fun_cases sign s with
  | case1 t => exact ⟨'-', t, rfl, .inr (.inl rfl), moment?_cons_of_not_digit (by decide)⟩
  | case2 t => exact ⟨'+', t, rfl, .inl rfl, moment?_cons_of_not_digit (by decide)⟩
  | case3 s hminus hplus =>
    have hsign : (sign s).2 = s := by
      unfold sign
      split
      next t => exact absurd rfl (hminus t)
      next t => exact absurd rfl (hplus t)
      next => rfl
    rw [hsign] at hwhole hrun
    have hmoment : moment? s = none := hrun ▸ moment?_of_run hall hlength
    cases s with
    | nil => cases hwhole
    | cons c more =>
      refine ⟨c, more, rfl, .inr (.inr ?_), hmoment⟩
      unfold whole? at hwhole
      split at hwhole
      next =>
        cases hwhole
        simp [maxDigits] at hlong
      next hzero =>
        rw [digits?] at hwhole
        split_ifs at hwhole with hc
        exact ⟨hc, fun h => hzero more (h ▸ rfl)⟩

/-- **Only a long number has too many digits, and every long number has.** -/
theorem exists_scalar_tooLong_iff :
    (∃ numeral, scalar s = .error (.tooLong numeral)) ↔ LongNumber s := by
  constructor
  · rintro ⟨numeral, hscalar⟩
    have hfault := reads_scalar s
    rw [hscalar] at hfault
    obtain hmalformed | ⟨hlong, -⟩ := hfault
    · cases hmalformed
    · exact hlong
  · intro h
    obtain ⟨c, more, rfl, hc, hmoment⟩ := h.start
    obtain ⟨ds, rest, hwhole, hfraction, hexponent, hlong⟩ := h
    have hne (d : Char) (hd : d ≠ '+' ∧ d ≠ '-' ∧ (isAsciiDigit d = false ∨ d = '0')) : c ≠ d := by
      rintro rfl
      obtain hplus | hminus | ⟨hdigit, hzero⟩ := hc
      · exact hd.1 hplus
      · exact hd.2.1 hminus
      · rcases hd.2.2 with hno | hno
        · rw [hdigit] at hno
          cases hno
        · exact hzero hno
    have hstring : string? (c :: more) = none := by
      simp [string?, hne '"' (by decide), hne '\'' (by decide)]
    have hword (d : Char) (word : List Char) (hd : c ≠ d) :
        after? (d :: word) (c :: more) = none := by
      rw [after?_eq_none_iff, List.cons_prefix_cons]
      exact fun h => hd h.1.symm
    have htrue : after? "true".toList (c :: more) = none := hword 't' _ (hne 't' (by decide))
    have hfalse : after? "false".toList (c :: more) = none := hword 'f' _ (hne 'f' (by decide))
    have hdecimal : decimal? (c :: more) = some (.error (.tooLong ⟨ds.length⟩)) := by
      simp [decimal?, hwhole, hfraction, hexponent, limited_of_spells (spells_of_whole? hwhole),
        Nat.not_le_of_lt hlong]
    have hnumber : number? (c :: more) = decimal? (c :: more) := by
      simp [number?, hne '0' (by decide)]
    refine ⟨⟨ds.length⟩, ?_⟩
    rw [scalar, hstring, htrue, hfalse, hmoment, hnumber, hdecimal]
    rfl

end Scalars

end Toml
end RenServer
