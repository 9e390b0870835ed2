/- # The lines of texts that are put together

Two texts with a line break between them keep their lines. Only empty lines can come in or
get lost where the texts meet: a text that ends with a break is followed by an empty line,
and a `\r` meets a `\n` as one break. So the lines that are not empty are those of the first
text and then those of the second (`filled_append`), and everything else follows from this
one equation.

It is said of readers that take nothing from an empty line: what they read off two texts is
what they read off the one and then off the other (`filterMap_lines_append`), and off lines
that are joined by breaks they read what they read off each line (`Joined.filterMap_lines`).

Key definitions: `Unbroken`, `LineBreak`, `Joined`, `filled`.
Key theorems: `filled_append`, `filterMap_lines_append`, `Joined.filterMap_lines`.
-/
import Mathlib.Data.List.Basic
import RenServer.Text.Lines

namespace RenServer
namespace Text

/-! ### Lines and breaks -/

/-- A text within one line. -/
def Unbroken (s : List Char) : Prop := ∀ c ∈ s, isBreak c = false

-- by the list: characters could also be enumerated
instance (s : List Char) : Decidable (Unbroken s) :=
  List.decidableBAll (fun c => isBreak c = false) s

theorem Unbroken.append {s t : List Char} (hs : Unbroken s) (ht : Unbroken t) :
    Unbroken (s ++ t) :=
  fun c hc => (List.mem_append.mp hc).elim (hs c) (ht c)

theorem Unbroken.cons {c : Char} {s : List Char} (hc : isBreak c = false) (hs : Unbroken s) :
    Unbroken (c :: s) :=
  fun x hx => (List.mem_cons.mp hx).elim (fun h => h ▸ hc) (hs x)

/-- What stands between a line and the next. -/
inductive LineBreak : List Char → Prop where
  | single (c : Char) (h : isBreak c = true) : LineBreak [c]
  | crlf : LineBreak ['\r', '\n']

/-- Texts that are made of lines, with a break between each and the next and maybe one
after the last. -/
inductive Joined : List (List Char) → List Char → Prop where
  | nil : Joined [] []
  | last (line : List Char) : Joined [line] line
  | cons (line : List Char) {brk : List Char} {more : List (List Char)} {text : List Char}
      (hb : LineBreak brk) (h : Joined more text) : Joined (line :: more) (line ++ (brk ++ text))

/-- A break ends an empty line. What follows it is cut as if it stood alone, except that
a `\n` after `\r` belongs to the break. -/
theorem LineBreak.lines_append {brk : List Char} (h : LineBreak brk) (text : List Char) :
    ∃ rest, lines (brk ++ text) = [] :: rest ∧ (rest = lines text ∨ lines text = [] :: rest) := by
  cases h with
  | crlf => exact ⟨lines text, rfl, .inl rfl⟩
  | single c hc =>
    by_cases hlf : c = '\r' ∧ ∃ rest, text = '\n' :: rest
    · obtain ⟨rfl, rest, rfl⟩ := hlf
      exact ⟨lines rest, rfl, .inr rfl⟩
    · have hcrlf : ∀ rest, c = '\r' → text = '\n' :: rest → False :=
        fun rest hr ht => hlf ⟨hr, rest, ht⟩
      refine ⟨lines text, ?_, .inl rfl⟩
      rw [List.singleton_append, lines_cons hcrlf, if_pos hc]

theorem Unbroken.lines_eq {line : List Char} (hl : Unbroken line) (hne : line ≠ []) :
    lines line = [line] := by
  induction line with
  | nil => exact absurd rfl hne
  | cons c line ih =>
    have hc : isBreak c = false := hl c List.mem_cons_self
    have hcrlf : ∀ more, c = '\r' → line = '\n' :: more → False := by
      rintro _ rfl
      cases hc
    rw [lines_cons hcrlf]
    cases line with
    | nil =>
      rw [if_neg (by simp [hc])]
      rfl
    | cons d line =>
      rw [ih (fun x hx => hl x (List.mem_cons_of_mem c hx)) (List.cons_ne_nil d line)]
      simp [hc]

/-! ### Texts with a break between them -/

/-- The lines of a text that are not empty. -/
def filled (text : List Char) : List (List Char) := (lines text).filter (· ≠ [])

theorem LineBreak.eq_newline {brk text more : List Char} (hb : LineBreak brk)
    (h : brk ++ text = '\n' :: more) : brk = ['\n'] ∧ text = more := by
  cases hb with
  | single c hc =>
    rw [List.singleton_append, List.cons.injEq] at h
    exact ⟨by rw [h.1], h.2⟩
  | crlf =>
    rw [List.cons_append, List.cons.injEq] at h
    exact absurd h.1 (by decide)

/-- A break at the end of a text closes its last line. What follows has its own lines, up to
empty ones. -/
theorem LineBreak.lines_append_append {brk : List Char} (hb : LineBreak brk) (a b : List Char) :
    ∃ tail, lines (a ++ (brk ++ b)) = lines a ++ tail ∧ tail.filter (· ≠ []) = filled b := by
  -- by the recursion of `lines` on the first text
  fun_induction lines a with
  | case1 =>
    obtain ⟨rest, hrest, heq⟩ := hb.lines_append b
    refine ⟨[] :: rest, hrest, ?_⟩
    rcases heq with rfl | heq
    · rfl
    · rw [filled, heq]
  | case2 rest ih =>
    obtain ⟨tail, htail, hfilled⟩ := ih
    refine ⟨tail, ?_, hfilled⟩
    have hstep : lines ('\r' :: '\n' :: (rest ++ (brk ++ b))) = [] :: lines (rest ++ (brk ++ b)) := rfl
    rw [List.cons_append, List.cons_append, hstep, htail]
    rfl
  | case3 c rest hcrlf hc ih =>
    by_cases hmeet : c = '\r' ∧ ∃ more, rest ++ (brk ++ b) = '\n' :: more
    · -- the first text ends with `\r`, and the break after it is `\n`
      obtain ⟨rfl, more, hmore⟩ := hmeet
      cases rest with
      | cons d rest =>
        rw [List.cons_append, List.cons.injEq] at hmore
        exact absurd (by rw [hmore.1]) (hcrlf rest rfl)
      | nil =>
        rw [List.nil_append] at hmore
        obtain ⟨rfl, rfl⟩ := hb.eq_newline hmore
        exact ⟨lines b, rfl, rfl⟩
    · obtain ⟨tail, htail, hfilled⟩ := ih
      have hno : ∀ more, c = '\r' → rest ++ (brk ++ b) = '\n' :: more → False :=
        fun more hr hm => hmeet ⟨hr, more, hm⟩
      refine ⟨tail, ?_, hfilled⟩
      rw [List.cons_append, lines_cons hno, if_pos hc, htail]
      rfl
  | case4 c rest hcrlf hc hnil ih =>
    obtain rfl : rest = [] := by_contra fun hne => lines_ne_nil hne hnil
    obtain ⟨t, ht, heq⟩ := hb.lines_append b
    have hno : ∀ more, c = '\r' → brk ++ b = '\n' :: more → False := by
      rintro more rfl
      exact absurd rfl hc
    refine ⟨t, ?_, ?_⟩
    · rw [List.cons_append, List.nil_append, lines_cons hno, if_neg hc, ht]
      rfl
    · rcases heq with rfl | heq
      · rfl
      · rw [filled, heq]
        rfl
  | case5 c rest hcrlf hc line more hlines ih =>
    obtain ⟨tail, htail, hfilled⟩ := ih
    have hno : ∀ more, c = '\r' → rest ++ (brk ++ b) = '\n' :: more → False := by
      rintro more rfl
      exact absurd rfl hc
    refine ⟨tail, ?_, hfilled⟩
    rw [List.cons_append, lines_cons hno, if_neg hc, htail, hlines]
    rfl

/-- **Texts with a break between them keep their lines, up to empty ones.** -/
theorem filled_append {brk : List Char} (hb : LineBreak brk) (a b : List Char) :
    filled (a ++ (brk ++ b)) = filled a ++ filled b := by
  obtain ⟨tail, htail, hfilled⟩ := hb.lines_append_append a b
  rw [filled, htail, List.filter_append, hfilled]
  rfl

/-- What is read off the lines of a text is read off those that are not empty. -/
theorem filterMap_lines {α : Type} {read : List Char → Option α} (hread : read [] = none)
    (text : List Char) : (lines text).filterMap read = (filled text).filterMap read := by
  rw [filled, List.filterMap_filter]
  apply List.filterMap_congr
  intro line _
  by_cases hline : line = []
  · simp [hline, hread]
  · simp [hline]

/-- **What is read off two texts is read off the one and then off the other.** -/
theorem filterMap_lines_append {α : Type} {read : List Char → Option α} (hread : read [] = none)
    {brk : List Char} (hb : LineBreak brk) (a b : List Char) :
    (lines (a ++ (brk ++ b))).filterMap read =
      (lines a).filterMap read ++ (lines b).filterMap read := by
  rw [filterMap_lines hread, filterMap_lines hread, filterMap_lines hread, filled_append hb,
    List.filterMap_append]

/-! ### Lines that are joined -/

/-- **A reader that takes nothing from an empty line finds the joined lines again.** -/
theorem Joined.filterMap_lines {α : Type} {read : List Char → Option α} (hread : read [] = none)
    {ls : List (List Char)} {text : List Char} (h : Joined ls text) (hls : ∀ l ∈ ls, Unbroken l) :
    (lines text).filterMap read = ls.filterMap read := by
  have hline : ∀ line ∈ ls, (lines line).filterMap read = [line].filterMap read := by
    intro line hl
    by_cases hne : line = []
    · rw [hne, List.filterMap_cons_none hread]
      rfl
    · rw [(hls line hl).lines_eq hne]
  induction h with
  | nil => rfl
  | last line => exact hline line List.mem_cons_self
  | @cons line brk more text hb h ih =>
    have hmore := ih (fun l hl => hls l (List.mem_cons_of_mem line hl))
      fun l hl => hline l (List.mem_cons_of_mem line hl)
    rw [filterMap_lines_append hread hb, hline line List.mem_cons_self, hmore,
      ← List.filterMap_append, List.singleton_append]

end Text
end RenServer
