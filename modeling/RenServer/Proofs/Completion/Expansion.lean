/- # Snippets as an editor reads them

An editor takes a written snippet apart into characters, tab stops and placeholders
(`expand`). It goes through the text once: a backslash makes a character of the `$`, the
`}` or the backslash after it, a number after `$` or between `${` and `}` is a stop, and
`${1:` opens a placeholder, which may hold stops and placeholders of its own and which the
next `}` closes. Outside of placeholders a `}` is a character, and so is a backslash
before anything else. A `$` that does neither is refused, and so is a placeholder that
nothing closes.

Text is escaped by three replacements, one for each of these characters, which come to one
pass over the text (`escape_eq_flatMap`). Escaped text is read as the text that it was,
wherever it stands (`SnippetReader.run_escape`): no character of it begins, closes or hides
a place. So the parts of a snippet are read one after another as they were written, if the
final stop comes last (`expand_render`), and the snippet of a definition is read as the
definition with its first place in it (`definitionSnippet_expands`).

Choices and variables, which an editor also knows, begin with a `$` and are not read here.

Key definitions: `SnippetNode`, `SnippetReader`, `expand`, `FirstPlace`.
Key theorems: `escape_eq_flatMap`, `SnippetReader.run_escape`, `SnippetReader.run_render`,
`expand_render`, `firstPlace_of_split`, `definitionSnippet_expands`.
-/
import RenServer.Snippet

namespace RenServer

/-- What an editor finds in a snippet. -/
inductive SnippetNode where
  | char (c : Char)
  | stop (number : Nat)
  | placeholder (number : Nat) (inner : List SnippetNode)

/-! ### The reader -/

/-- What the last characters have begun. -/
inductive SnippetReader.Mode where
  /-- Nothing. -/
  | text
  /-- A backslash. -/
  | escaped
  /-- A dollar sign. -/
  | dollar
  /-- A dollar sign and the digits after it. -/
  | stop (number : Nat)
  /-- A dollar sign and a brace. -/
  | brace
  /-- A dollar sign, a brace and the digits after it. -/
  | number (number : Nat)

/-- A reader in the middle of a snippet. `opened` are the placeholders that are open, the
innermost first, each with its number and what stands before it, and `done` is what was
found in the innermost. -/
structure SnippetReader where
  mode : SnippetReader.Mode := .text
  opened : List (Nat × List SnippetNode) := []
  done : List SnippetNode := []

namespace SnippetReader

variable (r : SnippetReader)

/-- Finds something. -/
def add (nodes : List SnippetNode) : SnippetReader :=
  { r with mode := .text, done := r.done ++ nodes }

/-- Opens a placeholder. -/
def openPlace (number : Nat) : SnippetReader :=
  { mode := .text, opened := (number, r.done) :: r.opened, done := [] }

/-- Closes the innermost placeholder. Where none is open, the brace is a character. -/
def closePlace : SnippetReader :=
  match r.opened with
  | [] => r.add [.char '\x7d']
  | (number, before) :: opened =>
    { mode := .text, opened, done := before ++ [.placeholder number r.done] }

/-- A character that goes on with nothing. -/
def plain (c : Char) : SnippetReader :=
  if c = '\\' then { r with mode := .escaped }
  else if c = '$' then { r with mode := .dollar }
  else if c = '\x7d' then r.closePlace
  else r.add [.char c]

/-- A number with one more digit. -/
def withDigit (number : Nat) (c : Char) : Nat := 10 * number + (c.toNat - '0'.toNat)

/-- The next character. -/
def step (c : Char) : Option SnippetReader :=
  match r.mode with
  | .text => some (r.plain c)
  | .escaped =>
    if c = '\\' ∨ c = '$' ∨ c = '\x7d' then some (r.add [.char c])
    else some ((r.add [.char '\\']).plain c)
  | .dollar =>
    if c = '\x7b' then some { r with mode := .brace }
    else if c.isDigit then some { r with mode := .stop (withDigit 0 c) }
    else none
  | .stop n =>
    if c.isDigit then some { r with mode := .stop (withDigit n c) }
    else some ((r.add [.stop n]).plain c)
  | .brace => if c.isDigit then some { r with mode := .number (withDigit 0 c) } else none
  | .number n =>
    if c.isDigit then some { r with mode := .number (withDigit n c) }
    else if c = '\x7d' then some (r.add [.stop n])
    else if c = ':' then some (r.openPlace n)
    else none

/-- The next characters. -/
def run (s : List Char) : Option SnippetReader := s.foldlM step r

/-- The end of the snippet. -/
def finish : Option (List SnippetNode) :=
  match r.mode, r.opened with
  | .text, [] => some r.done
  | .escaped, [] => some (r.done ++ [.char '\\'])
  | .stop n, [] => some (r.done ++ [.stop n])
  | _, _ => none

end SnippetReader

/-- A snippet as an editor reads it. -/
def expand (snippet : String) : Option (List SnippetNode) :=
  (SnippetReader.run {} snippet.toList).bind SnippetReader.finish

/-! ### What is written is read -/

/-- A part of a snippet as an editor finds it. -/
def SnippetPart.nodes : SnippetPart → List SnippetNode
  | .text s => s.map .char
  | .stop n => [.stop n]
  | .placeholder n s => [.placeholder n (s.map .char)]

/-- A character of a text as it is written in a snippet. -/
def escapeChar (c : Char) : List Char :=
  if c = '\\' ∨ c = '$' ∨ c = '\x7d' then ['\\', c] else [c]

/-- **Three replacements are one pass.** The first is that of the backslash, so none of the
backslashes that the later ones put in is doubled. -/
theorem escape_eq_flatMap (s : List Char) : escape s = s.flatMap escapeChar := by
  unfold escape backslashed
  rw [List.flatMap_assoc, List.flatMap_assoc]
  congr 1
  funext c
  unfold escapeChar
  by_cases hslash : c = '\\'
  · simp [hslash]
  · by_cases hdollar : c = '$'
    · simp [hdollar]
    · by_cases hbrace : c = '\x7d'
      · simp [hbrace]
      · simp [hslash, hdollar, hbrace]

namespace SnippetReader

variable {r : SnippetReader}

theorem run_append (r : SnippetReader) (s t : List Char) :
    r.run (s ++ t) = (r.run s).bind fun r => r.run t := List.foldlM_append

theorem run_cons (r : SnippetReader) (c : Char) (s : List Char) :
    r.run (c :: s) = (r.step c).bind fun r => r.run s := List.foldlM_cons

theorem add_nil (h : r.mode = .text) : r.add [] = r := by
  unfold add
  rw [List.append_nil, ← h]

theorem add_add (r : SnippetReader) (nodes more : List SnippetNode) :
    (r.add nodes).add more = r.add (nodes ++ more) := by
  simp only [add, List.append_assoc]

theorem run_escapeChar (h : r.mode = .text) (c : Char) :
    r.run (escapeChar c) = some (r.add [.char c]) := by
  unfold escapeChar
  by_cases hc : c = '\\' ∨ c = '$' ∨ c = '\x7d'
  · rw [if_pos hc]
    simp [run, step, h, plain, hc, add]
  · rw [if_neg hc]
    simp only [not_or] at hc
    simp [run, step, h, plain, hc]

/-- **Escaped text is read as the text that it was.** -/
theorem run_escape (h : r.mode = .text) (s : List Char) :
    r.run (escape s) = some (r.add (s.map .char)) := by
  rw [escape_eq_flatMap]
  induction s generalizing r with
  | nil => exact congrArg some (add_nil h).symm
  | cons c s ih =>
    have hrest := ih (r := r.add [.char c]) rfl
    rw [List.flatMap_cons, run_append, run_escapeChar h, Option.bind_some, hrest, add_add]
    rfl

theorem run_digits (r : SnippetReader) (n : Nat) {ds : List Char}
    (h : ∀ c ∈ ds, c.isDigit = true) :
    run { r with mode := .number n } ds =
      some { r with mode := .number (Nat.ofDigitChars 10 ds n) } := by
  induction ds generalizing n with
  | nil => rfl
  | cons c ds ih =>
    have hc : c.isDigit = true := h c List.mem_cons_self
    have hrest := ih (withDigit n c) fun x hx => h x (List.mem_cons_of_mem c hx)
    rw [run_cons]
    simp only [step, hc, if_true, Option.bind_some]
    rw [hrest]
    rfl

/-- The number of a place is read. -/
theorem run_number (h : r.mode = .text) (n : Nat) :
    r.run (['$', '\x7b'] ++ Nat.toDigits 10 n) = some { r with mode := .number n } := by
  have hdigits : ∀ c ∈ Nat.toDigits 10 n, c.isDigit = true := fun _ =>
    Nat.isDigit_of_mem_toDigits (by decide) (by decide)
  have hopen : r.run ['$', '\x7b'] = some { r with mode := .brace } := by
    simp [run, step, h, plain]
  have hvalue : Nat.ofDigitChars 10 (Nat.toDigits 10 n) 0 = n :=
    Nat.ofDigitChars_toDigits (by decide) (by decide)
  obtain ⟨d, ds, hds⟩ := List.exists_cons_of_ne_nil (Nat.toDigits_ne_nil (b := 10) (n := n))
  rw [run_append, hopen, Option.bind_some]
  -- the first digit is read as a further digit of zero would be
  have hsame : run { r with mode := .brace } (Nat.toDigits 10 n) =
      run { r with mode := .number 0 } (Nat.toDigits 10 n) := by
    have hd : d.isDigit = true := hdigits d (by simp [hds])
    rw [hds, run_cons, run_cons]
    simp only [step, hd, if_true]
  rw [hsame, run_digits r 0 hdigits, hvalue]

/-- A part is read as it was written. Only the final stop is read no sooner than something
follows it. -/
theorem run_part (h : r.mode = .text) {part : SnippetPart} (hp : part ≠ .stop 0) :
    r.run part.render = some (r.add part.nodes) := by
  cases part with
  | text s => exact run_escape h s
  | stop n =>
    cases n with
    | zero => exact absurd rfl hp
    | succ n =>
      have hclose : run { r with mode := .number (n + 1) } ['\x7d'] =
          some (r.add [.stop (n + 1)]) := by
        simp [run, step, add]
      have hrender : (SnippetPart.stop (n + 1)).render =
          ['$', '\x7b'] ++ Nat.toDigits 10 (n + 1) ++ ['\x7d'] := rfl
      rw [hrender, run_append, run_number h, Option.bind_some, hclose]
      rfl
  | placeholder n s =>
    have hopen : run { r with mode := .number n } [':'] = some (r.openPlace n) := by
      simp [run, step, openPlace]
    have htext : (r.openPlace n).run (escape s) = some ((r.openPlace n).add (s.map .char)) :=
      run_escape rfl s
    have hclose : ((r.openPlace n).add (s.map .char)).run ['\x7d'] =
        some (r.add [.placeholder n (s.map .char)]) := by
      simp [run, step, plain, closePlace, openPlace, add]
    have hrender : (SnippetPart.placeholder n s).render =
        ['$', '\x7b'] ++ Nat.toDigits 10 n ++ ([':'] ++ (escape s ++ ['\x7d'])) := by
      simp [SnippetPart.render]
    rw [hrender, run_append, run_number h, Option.bind_some, run_append, hopen, Option.bind_some,
      run_append, htext, Option.bind_some, hclose]
    rfl

/-- **Parts are read one after another as they were written.** -/
theorem run_render (h : r.mode = .text) {parts : Snippet} (hp : ∀ part ∈ parts, part ≠ .stop 0) :
    r.run parts.render = some (r.add (parts.flatMap SnippetPart.nodes)) := by
  unfold Snippet.render
  induction parts generalizing r with
  | nil => exact congrArg some (add_nil h).symm
  | cons part parts ih =>
    have hpart := run_part h (hp part List.mem_cons_self)
    have hrest := ih (r := r.add part.nodes) rfl fun x hx => hp x (List.mem_cons_of_mem part hx)
    rw [List.flatMap_cons, run_append, hpart, Option.bind_some, hrest, add_add, List.flatMap_cons]

end SnippetReader

/-- **A snippet whose final stop comes last is read as it was written.** -/
theorem expand_render {parts : Snippet} (hp : ∀ part ∈ parts, part ≠ .stop 0) :
    expand (String.ofList (parts ++ [.stop 0] : Snippet).render) =
      some (parts.flatMap SnippetPart.nodes ++ [.stop 0]) := by
  have hparts : SnippetReader.run {} parts.render =
      some (SnippetReader.add {} (parts.flatMap SnippetPart.nodes)) :=
    SnippetReader.run_render rfl hp
  have hrender : (parts ++ [.stop 0] : Snippet).render = parts.render ++ ['$', '0'] := by
    simp [Snippet.render, SnippetPart.render]
  unfold expand
  rw [String.toList_ofList, hrender, SnippetReader.run_append, hparts]
  simp [SnippetReader.run, SnippetReader.step, SnippetReader.plain, SnippetReader.add,
    SnippetReader.withDigit, SnippetReader.finish]

/-! ### The snippet of a definition -/

/-- A definition is cut at its first place: right after the leftmost character that opens
one, or one further if a character to step over follows. -/
inductive FirstPlace : List Char → List Char → Prop where
  | after {before : List Char} {c : Char} {rest : List Char}
      (hbefore : ∀ x ∈ before, opensPlace x = false) (hc : opensPlace c = true)
      (hrest : ∀ x, rest.head? = some x → steppedOver x = false) :
    FirstPlace (before ++ [c]) rest
  | past {before : List Char} {c x : Char} {rest : List Char}
      (hbefore : ∀ x ∈ before, opensPlace x = false) (hc : opensPlace c = true)
      (hx : steppedOver x = true) :
    FirstPlace (before ++ [c, x]) rest

theorem FirstPlace.cons {d : Char} {p s : List Char} (hd : opensPlace d = false)
    (h : FirstPlace p s) : FirstPlace (d :: p) s := by
  have hall : ∀ before, (∀ x ∈ before, opensPlace x = false) →
      ∀ x ∈ d :: before, opensPlace x = false := fun before hbefore x hx =>
    (List.mem_cons.mp hx).elim (fun heq => heq ▸ hd) (hbefore x)
  cases h with
  | after hbefore hc hrest => exact .after (hall _ hbefore) hc hrest
  | past hbefore hc hx => exact .past (hall _ hbefore) hc hx

/-- A definition that is cut is cut at its first place. -/
theorem firstPlace_of_split {d p s : List Char} (h : splitDefinition? d = some (p, s)) :
    p ++ s = d ∧ FirstPlace p s := by
  have hnone : ∀ x ∈ ([] : List Char), opensPlace x = false := List.forall_mem_nil _
  induction d generalizing p with
  | nil => cases h
  | cons c rest ih =>
    unfold splitDefinition? at h
    by_cases hc : opensPlace c = true
    · rw [if_pos hc] at h
      cases rest with
      | nil =>
        cases h
        exact ⟨rfl, FirstPlace.after hnone hc (by simp)⟩
      | cons x more =>
        by_cases hx : steppedOver x = true
        · simp only [hx, if_true] at h
          cases h
          exact ⟨rfl, FirstPlace.past hnone hc hx⟩
        · simp only [hx] at h
          cases h
          exact ⟨rfl, FirstPlace.after hnone hc (by simpa using hx)⟩
    · rw [if_neg hc] at h
      obtain ⟨⟨p', s'⟩, hrest, heq⟩ := Option.map_eq_some_iff.mp h
      simp only [Prod.mk.injEq] at heq
      obtain ⟨rfl, rfl⟩ := heq
      obtain ⟨happend, hplace⟩ := ih hrest
      exact ⟨congrArg (c :: ·) happend, hplace.cons (by simpa using hc)⟩

theorem splitDefinition?_eq_none {d : List Char} (h : splitDefinition? d = none) :
    ∀ c ∈ d, opensPlace c = false := by
  induction d with
  | nil => simp
  | cons c rest ih =>
    unfold splitDefinition? at h
    by_cases hc : opensPlace c = true
    · rw [if_pos hc] at h
      split at h
      · cases h
      · split at h <;> cases h
    · rw [if_neg hc] at h
      have hrest := ih (Option.map_eq_none_iff.mp h)
      exact fun x hx => (List.mem_cons.mp hx).elim (fun heq => by simpa [heq] using hc) (hrest x)

theorem FirstPlace.exists_opensPlace {p s : List Char} (h : FirstPlace p s) :
    ∃ c ∈ p, opensPlace c = true := by
  cases h with
  | after _ hc _ => exact ⟨_, by simp, hc⟩
  | past _ hc _ => exact ⟨_, by simp, hc⟩

theorem expand_placed {d : String} {p s : List Char}
    (h : splitDefinition? d.toList = some (p, s)) :
    expand (definitionSnippet d) = some (p.map .char ++ [.stop 1] ++ s.map .char ++ [.stop 0]) := by
  have hsnippet : Snippet.ofDefinition d.toList = [.text p, .stop 1, .text s] ++ [.stop 0] := by
    simp [Snippet.ofDefinition, h]
  unfold definitionSnippet
  rw [hsnippet, expand_render (by simp)]
  simp [SnippetPart.nodes]

theorem expand_whole {d : String} (h : splitDefinition? d.toList = none) :
    expand (definitionSnippet d) = some [.placeholder 1 (d.toList.map .char), .stop 0] := by
  have hsnippet : Snippet.ofDefinition d.toList =
      [.placeholder 1 d.toList] ++ [.stop 0] := by
    simp [Snippet.ofDefinition, h]
  unfold definitionSnippet
  rw [hsnippet, expand_render (by simp)]
  rfl

/-- The characters that a node shows, those of a placeholder among them. -/
def SnippetNode.shown : SnippetNode → List Char
  | .char c => [c]
  | .stop _ => []
  | .placeholder _ inner => inner.flatMap fun
    | .char c => [c]
    | _ => []

/-- The snippet of a definition shows the definition. -/
theorem shown_expand (d : String) :
    (expand (definitionSnippet d)).map (·.flatMap SnippetNode.shown) = some d.toList := by
  cases h : splitDefinition? d.toList with
  | some parts =>
    obtain ⟨p, s⟩ := parts
    rw [expand_placed h, ← (firstPlace_of_split h).1]
    simp [List.flatMap_map, SnippetNode.shown]
  | none =>
    rw [expand_whole h]
    simp [List.flatMap_map, SnippetNode.shown]

/-- **An editor reads the snippet of a definition as the definition.** If a character of it
opens a place, the snippet is the text up to the first place, stop 1, the text after it and
the final stop; otherwise it is the whole definition as placeholder 1, and the final stop.
So the text of a definition adds no stop and takes none away, and two definitions never
have the same snippet. -/
theorem definitionSnippet_expands :
    (∀ d : String,
      ((∃ c ∈ d.toList, opensPlace c = true) ∧
        ∃ p s, p ++ s = d.toList ∧ FirstPlace p s ∧
          expand (definitionSnippet d) =
            some (p.map .char ++ [.stop 1] ++ s.map .char ++ [.stop 0])) ∨
      ((∀ c ∈ d.toList, opensPlace c = false) ∧
        expand (definitionSnippet d) =
          some [.placeholder 1 (d.toList.map .char), .stop 0])) ∧
    Function.Injective definitionSnippet := by
  constructor
  · intro d
    cases h : splitDefinition? d.toList with
    | some parts =>
      obtain ⟨p, s⟩ := parts
      obtain ⟨happend, hplace⟩ := firstPlace_of_split h
      obtain ⟨c, hc, hopens⟩ := hplace.exists_opensPlace
      have hmem : c ∈ d.toList := happend ▸ List.mem_append_left s hc
      exact .inl ⟨⟨c, hmem, hopens⟩, p, s, happend, hplace, expand_placed h⟩
    | none => exact .inr ⟨splitDefinition?_eq_none h, expand_whole h⟩
  · intro d d' h
    have hshown : some d.toList = some d'.toList := by
      rw [← shown_expand d, ← shown_expand d', h]
    exact String.toList_inj.mp (Option.some.inj hshown)

/-- A dollar sign that is not escaped would be a stop in the placeholder. -/
example : definitionSnippet "a$1" = "$\x7b1:a\\$1\x7d$0" ∧
    expand "$\x7b1:a$1\x7d$0" = some [.placeholder 1 [.char 'a', .stop 1], .stop 0] := ⟨rfl, rfl⟩

end RenServer
