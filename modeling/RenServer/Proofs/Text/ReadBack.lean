/- # Texts that are read back

Within a line, the readers of the compiler's output undo what a writer does, one small
step at a time. A number written in decimal is read again (`integer?_numeral`); blanks
put around a field are trimmed (`trim_padded`); fields put together with a separator are
taken apart (`fields_intercalate`, `cut?_separated`).

Key definition: `numeral`.
Key theorems: `limited_toDigits`, `integer?_numeral`, `trim_padded`,
`fields_intercalate`, `cut?_separated`.
-/
import Mathlib.Data.List.DropRight
import Mathlib.Data.List.Infix
import RenServer.Proofs.Text.Lines
import RenServer.Text.Numeral
import RenServer.Text.Cut

namespace RenServer
namespace Text

/-! ### Numbers -/

/-- A whole number in decimal. -/
def numeral (n : Int) : List Char := (toString n).toList

theorem numeral_natCast (n : Nat) : numeral n = Nat.toDigits 10 n := by
  rw [← Nat.toList_repr]
  rfl

theorem numeral_negSucc (n : Nat) : numeral (.negSucc n) = '-' :: Nat.toDigits 10 (n + 1) := by
  have h : numeral (.negSucc n) = ("-" ++ (n + 1).repr).toList := rfl
  rw [h, String.toList_append, Nat.toList_repr]
  rfl

theorem isDigit_toDigits (n : Nat) : ∀ c ∈ Nat.toDigits 10 n, c.isDigit = true := fun _ =>
  Nat.isDigit_of_mem_toDigits (by decide) (by decide)

theorem mem_numeral {n : Int} {c : Char} (h : c ∈ numeral n) : c = '-' ∨ c.isDigit = true := by
  cases n with
  | ofNat m =>
    rw [Int.ofNat_eq_natCast, numeral_natCast] at h
    exact .inr (isDigit_toDigits m c h)
  | negSucc m =>
    rw [numeral_negSucc, List.mem_cons] at h
    exact h.imp_right (isDigit_toDigits (m + 1) c)

/-- The digits of the numerals are among the digits of all scripts. -/
theorem digitValue?_of_isDigit {c : Char} (h : c.isDigit = true) :
    digitValue? c = some (c.toNat - '0'.toNat) := by
  have hc : '0'.toNat ≤ c.toNat ∧ c.toNat ≤ '9'.toNat := Char.isDigit_iff_toNat.mp h
  have hz : zeros.find? (fun z => z ≤ c.toNat && c.toNat ≤ z + 9) = some 0x30 := by
    have h0 : (0x30 ≤ c.toNat && c.toNat ≤ 0x30 + 9) = true := by simpa using hc
    exact List.find?_cons_of_pos h0
  rw [digitValue?, hz]
  rfl

theorem filterMap_digitValue? {ds : List Char} (h : ∀ c ∈ ds, c.isDigit = true) :
    ds.filterMap digitValue? = ds.map fun c => c.toNat - '0'.toNat := by
  induction ds with
  | nil => rfl
  | cons c ds ih =>
    rw [List.filterMap_cons, digitValue?_of_isDigit (h c List.mem_cons_self), List.map_cons,
      ih fun x hx => h x (List.mem_cons_of_mem c hx)]

theorem ofDigits_toDigits (n : Nat) :
    ofDigits ((Nat.toDigits 10 n).filterMap digitValue?) = n := by
  rw [filterMap_digitValue? (isDigit_toDigits n), ofDigits, List.foldl_map]
  exact Nat.ofDigitChars_toDigits (by decide) (by decide)

/-- A number can be written if its digits are within the limit. -/
theorem isWritable_natCast_iff {n : Nat} :
    isWritable n = true ↔ (Nat.toDigits 10 n).length ≤ maxDigits := by
  rw [Nat.length_toDigits_le_iff (by decide) (by decide)]
  simp only [isWritable, decide_eq_true_iff, Nat.pow_eq, Int.natAbs_natCast]

/-- **The digits of a number within the limit give the number back.** -/
theorem limited_toDigits {n : Nat} (h : isWritable n = true) :
    limited ((Nat.toDigits 10 n).filterMap digitValue?) = .ok n := by
  have hvalues : ((Nat.toDigits 10 n).filterMap digitValue?).length ≤ maxDigits := by
    rw [filterMap_digitValue? (isDigit_toDigits n), List.length_map]
    exact isWritable_natCast_iff.mp h
  rw [limited, if_pos hvalues, ofDigits_toDigits]

/-- Digits without underscores are read one by one. -/
theorem digitValues?_of_isDigit {ds : List Char} (hne : ds ≠ [])
    (h : ∀ c ∈ ds, c.isDigit = true) : digitValues? ds = some (ds.filterMap digitValue?) := by
  induction ds with
  | nil => exact absurd rfl hne
  | cons c ds ih =>
    have hc := digitValue?_of_isDigit (h c List.mem_cons_self)
    cases ds with
    | nil => simp [digitValues?, hc]
    | cons d ds =>
      have hd : d ≠ '_' := by
        rintro rfl
        exact absurd (h '_' (by simp)) (by decide)
      have hrest := ih (List.cons_ne_nil d ds) fun x hx => h x (List.mem_cons_of_mem c hx)
      rw [digitValues?.eq_4 c (d :: ds) (by simp) (by simpa using hd), hc, hrest]
      simp [hc]

theorem natural?_toDigits {n : Nat} (h : isWritable n = true) :
    natural? (Nat.toDigits 10 n) = some n := by
  simp only [natural?, digitValues?_of_isDigit Nat.toDigits_ne_nil (isDigit_toDigits n),
    Option.bind_eq_bind, Option.bind_some, limited_toDigits h]
  rfl

theorem isBlank_of_isDigit {c : Char} (h : c.isDigit = true) : isBlank c = false := by
  have hc : 48 ≤ c.toNat ∧ c.toNat ≤ 57 := Char.isDigit_iff_toNat.mp h
  simp only [isBlank, Bool.or_eq_false_iff, Bool.and_eq_false_iff, decide_eq_false_iff_not,
    beq_eq_false_iff_ne]
  omega

theorem isBlank_numeral (n : Int) : ∀ c ∈ numeral n, isBlank c = false := by
  intro c hc
  rcases mem_numeral hc with rfl | hd
  · decide
  · exact isBlank_of_isDigit hd

theorem unbroken_numeral (n : Int) : Unbroken (numeral n) := by
  intro c hc
  have hblank := isBlank_numeral n c hc
  by_contra hb
  rw [Bool.not_eq_false, isBreak] at hb
  simp only [Bool.or_eq_true, beq_iff_eq] at hb
  rcases hb with ((((((((rfl | rfl) | rfl) | rfl) | rfl) | rfl) | rfl) | rfl) | rfl) | rfl <;>
    exact absurd hblank (by decide)

theorem colon_notMem_numeral (n : Int) : ':' ∉ numeral n := fun h =>
  absurd (mem_numeral h) (by decide)

/-! ### Blanks around a text -/

theorem dropWhile_of_none {p : Char → Bool} {s : List Char} (h : ∀ c ∈ s, p c = false) :
    s.dropWhile p = s := by
  cases s with
  | nil => rfl
  | cons c s => exact List.dropWhile_cons_of_neg (by simp [h c List.mem_cons_self])

theorem withoutMargins_of_none {s : List Char} (h : ∀ c ∈ s, isBlank c = false) :
    withoutMargins s = s := by
  have hm : ∀ c ∈ s, isMargin c = false := fun c hc => by simp [isMargin, h c hc]
  rw [withoutMargins, dropWhile_of_none hm,
    dropWhile_of_none fun c hc => hm c (List.mem_reverse.mp hc), List.reverse_reverse]

theorem trim_of_none {s : List Char} (h : ∀ c ∈ s, isBlank c = false) : trim s = s := by
  rw [trim, trimStart, dropWhile_of_none h, trimEnd,
    dropWhile_of_none fun c hc => h c (List.mem_reverse.mp hc), List.reverse_reverse]

/-- A text that has nothing to trim has nothing to trim at its start. -/
theorem trimStart_of_trim {s : List Char} (h : trim s = s) : trimStart s = s := by
  have hle : s.length ≤ (trimStart s).length := by
    calc s.length = (trimEnd (trimStart s)).length := by rw [← trim, h]
      _ ≤ (trimStart s).length := by
        rw [trimEnd, List.length_reverse]
        exact (List.dropWhile_sublist _).length_le.trans_eq List.length_reverse
  exact (List.dropWhile_sublist _).eq_of_length_le hle

/-- **Blanks around a text that begins and ends with none are trimmed.** -/
theorem trim_padded {before s after : List Char} (hb : ∀ c ∈ before, isBlank c = true)
    (ha : ∀ c ∈ after, isBlank c = true) (hs : trim s = s) : trim (before ++ s ++ after) = s := by
  have hstart : trimStart (before ++ s ++ after) = trimStart (s ++ after) := by
    rw [trimStart, List.append_assoc, List.dropWhile_append_of_pos hb]
    rfl
  have hend : ∀ t, trimEnd (t ++ after) = trimEnd t := fun t => by
    rw [trimEnd, List.reverse_append,
      List.dropWhile_append_of_pos fun c hc => ha c (List.mem_reverse.mp hc)]
    rfl
  have hown := trimStart_of_trim hs
  rw [trim, hstart]
  cases s with
  | nil =>
    have hnone : trimStart after = [] := List.dropWhile_eq_nil_iff.mpr ha
    rw [List.nil_append, hnone]
    rfl
  | cons c s =>
    -- the first character is no blank, so nothing is dropped before the blanks after
    have hc : ¬ isBlank c = true := by
      simpa using List.dropWhile_eq_self_iff.mp hown (Nat.succ_pos _)
    have hkeep : trimStart (c :: s ++ after) = c :: s ++ after := List.dropWhile_cons_of_neg hc
    rw [hkeep, hend]
    calc trimEnd (c :: s) = trimEnd (trimStart (c :: s)) := by rw [hown]
      _ = c :: s := hs

/-- **A number within the limit is read back from its numeral.** -/
theorem integer?_numeral {n : Int} (h : isWritable n = true) : integer? (numeral n) = some n := by
  rw [integer?, withoutMargins_of_none (isBlank_numeral n)]
  cases n with
  | ofNat m =>
    rw [Int.ofNat_eq_natCast, numeral_natCast]
    have hread := natural?_toDigits (n := m) h
    split
    · rename_i rest heq
      exact absurd (isDigit_toDigits m '-' (by rw [heq]; exact List.mem_cons_self)) (by decide)
    · rename_i rest heq
      exact absurd (isDigit_toDigits m '+' (by rw [heq]; exact List.mem_cons_self)) (by decide)
    · rw [hread]
      rfl
  | negSucc m =>
    have hread := natural?_toDigits (n := m + 1) h
    simp only [numeral_negSucc, hread]
    rfl

/-! ### Fields and separators -/

theorem fields_ne_nil (sep : Char) (s : List Char) : fields sep s ≠ [] := by
  fun_cases fields sep s <;> simp_all

/-- A separator divides the fields before it from the fields after it. -/
theorem fields_append (sep : Char) (s rest : List Char) :
    fields sep (s ++ sep :: rest) = fields sep s ++ fields sep rest := by
  induction s with
  | nil => simp [fields]
  | cons c s ih =>
    obtain ⟨part, more, hs⟩ := List.exists_cons_of_ne_nil (fields_ne_nil sep s)
    rw [List.cons_append, fields, ih, fields, hs]
    by_cases hc : c = sep
    · simp [hc]
    · simp [hc]

theorem fields_of_notMem {sep : Char} {part : List Char} (h : sep ∉ part) :
    fields sep part = [part] := by
  induction part with
  | nil => rfl
  | cons c part ih =>
    have hc : c ≠ sep := fun heq => h (by simp [heq])
    rw [fields, if_neg hc, ih fun hm => h (List.mem_cons_of_mem c hm)]

theorem notMem_of_mem_fields {sep : Char} {s part : List Char} (h : part ∈ fields sep s) :
    sep ∉ part := by
  induction s generalizing part with
  | nil =>
    rw [fields, List.mem_singleton] at h
    simp [h]
  | cons c s ih =>
    obtain ⟨first, more, hs⟩ := List.exists_cons_of_ne_nil (fields_ne_nil sep s)
    have hrest : ∀ x ∈ first :: more, sep ∉ x := fun x hx => ih (hs ▸ hx)
    rw [fields, hs] at h
    by_cases hc : c = sep
    · rw [if_pos hc, List.mem_cons] at h
      rcases h with rfl | h
      · exact List.not_mem_nil
      · exact hrest part h
    · rw [if_neg hc, List.mem_cons] at h
      rcases h with rfl | h
      · simp [hrest first List.mem_cons_self, Ne.symm hc]
      · exact hrest part (List.mem_cons_of_mem first h)

/-- **Fields without the separator are taken apart as they were put together.** -/
theorem fields_intercalate {sep : Char} {parts : List (List Char)} (hne : parts ≠ [])
    (h : ∀ part ∈ parts, sep ∉ part) : fields sep ([sep].intercalate parts) = parts := by
  induction parts with
  | nil => exact absurd rfl hne
  | cons part parts ih =>
    have hpart := fields_of_notMem (h part List.mem_cons_self)
    cases parts with
    | nil => rw [List.intercalate_singleton, hpart]
    | cons next parts =>
      rw [List.intercalate_cons_cons, List.append_assoc, List.singleton_append, fields_append,
        hpart, ih (List.cons_ne_nil next parts) fun x hx => h x (List.mem_cons_of_mem part hx)]
      rfl

/-- Fields that were taken apart are put together as they were. -/
theorem intercalate_fields (sep : Char) (s : List Char) :
    [sep].intercalate (fields sep s) = s := by
  induction s with
  | nil => rfl
  | cons c s ih =>
    obtain ⟨part, more, hs⟩ := List.exists_cons_of_ne_nil (fields_ne_nil sep s)
    rw [hs] at ih
    by_cases hc : c = sep
    · rw [fields, if_pos hc, hs, List.intercalate_cons_cons, ih, hc]
      rfl
    · rw [fields, if_neg hc, hs]
      cases more with
      | nil =>
        rw [List.intercalate_singleton] at ih
        simp [ih]
      | cons next more =>
        rw [List.intercalate_cons_cons] at ih
        simp [List.intercalate_cons_cons, ← ih]

theorem after?_eq_some_iff {start s rest : List Char} :
    after? start s = some rest ↔ s = start ++ rest := by
  induction start generalizing s with
  | nil => simp [after?]
  | cons t start ih =>
    cases s with
    | nil => simp [after?]
    | cons c s =>
      by_cases h : t = c
      · simp [after?, h, ih]
      · simp [after?, h, Ne.symm h]

theorem after?_eq_none_iff {start s : List Char} : after? start s = none ↔ ¬ start <+: s := by
  rw [Option.eq_none_iff_forall_ne_some]
  constructor
  · rintro h ⟨rest, hs⟩
    exact h rest (after?_eq_some_iff.mpr hs.symm)
  · intro h rest hs
    exact h ⟨rest, (after?_eq_some_iff.mp hs).symm⟩

/-- **A text is cut where the first separator of two different characters stands.** -/
theorem cut?_separated {a b : Char} (hab : a ≠ b) {name : List Char} (h : ¬ [a, b] <:+: name)
    (rest : List Char) : cut? [a, b] (name ++ ([a, b] ++ rest)) = some (name, rest) := by
  induction name with
  | nil =>
    have hafter : after? [a, b] ([a, b] ++ rest) = some rest := after?_eq_some_iff.mpr rfl
    have heq : cut? [a, b] (a :: b :: rest) = some ([], rest) := by
      rw [cut?]
      rw [show a :: b :: rest = [a, b] ++ rest from rfl, hafter]
    exact heq
  | cons c name ih =>
    have hnone : after? [a, b] (c :: (name ++ ([a, b] ++ rest))) = none := by
      rw [after?_eq_none_iff]
      rintro ⟨tail, htail⟩
      simp only [List.cons_append, List.nil_append, List.cons.injEq] at htail
      obtain ⟨rfl, htail⟩ := htail
      cases name with
      | nil =>
        rw [List.nil_append, List.cons.injEq] at htail
        exact hab htail.1.symm
      | cons d name =>
        rw [List.cons_append, List.cons.injEq] at htail
        exact h ⟨[], name, by rw [htail.1]; rfl⟩
    have hrest := ih fun hi => h (hi.trans (List.suffix_cons c name).isInfix)
    rw [List.cons_append, cut?, hnone]
    simp only [hrest, Option.map_some]

end Text
end RenServer
