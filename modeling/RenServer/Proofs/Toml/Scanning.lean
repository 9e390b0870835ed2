/- # What the readers of TOML leave

Every reader is judged by what it does with the text it is given (`Reads`): it leaves an end
of that text, or it has a fault of a given kind. What is left of an end is an end of the
whole, so a reader that calls others is judged by judging them (`Reads.bind`).

Blanks, comments, strings and keys are at worst malformed (`Scans`), and so are the tables
that the keys open (`Harmless`). Readers that count their steps have enough of them: from one
step for every character on, more steps change nothing (`basicUpto_stable`,
`multiBasicUpto_stable`, `keyUpto_stable`).

Key definitions: `Reads`, `Scans`, `Harmless`, `Tries`.
Key theorems: `Reads.bind`, `Reads.bind_congr`, `scans_key`, `keyUpto_stable`,
`harmless_insertDotted`.
-/
import Mathlib.Data.List.Infix
import RenServer.Proofs.Text.ReadBack
import RenServer.Toml.Node

namespace RenServer
namespace Toml

open Text

/-! ### What a reader may do -/

/-- An end of the text is left, or there is a fault of a kind. -/
def Reads {α : Type} (kind : Fault → Prop) (s : List Char) (left : α → List Char) :
    Except Fault α → Prop
  | .ok a => left a <:+ s
  | .error fault => kind fault

/-- An end of the text is left, or the text is malformed. -/
abbrev Scans {α : Type} (s : List Char) (left : α → List Char) (x : Except Fault α) : Prop :=
  Reads (· = .malformed) s left x

section Judging

variable {α β : Type} {kind kind' : Fault → Prop} {s t : List Char} {left : α → List Char}
  {left' : β → List Char}

theorem Reads.mono {x : Except Fault α} (h : Reads kind t left x) (hts : t <:+ s) :
    Reads kind s left x := by
  cases x with
  | ok a => exact List.IsSuffix.trans h hts
  | error fault => exact h

theorem Reads.weaken {x : Except Fault α} (h : Reads kind s left x)
    (hkind : ∀ fault, kind fault → kind' fault) : Reads kind' s left x := by
  cases x with
  | ok a => exact h
  | error fault => exact hkind fault h

theorem Reads.of_ok {x : Except Fault α} {a : α} (h : Reads kind s left x) (hx : x = .ok a) :
    left a <:+ s := by
  rw [hx] at h
  exact h

/-- The next reader is judged by what was left for it. -/
theorem Reads.bind {x : Except Fault α} {next : α → Except Fault β}
    (hx : Reads kind s left x) (hnext : ∀ a, Reads kind (left a) left' (next a)) :
    Reads kind s left' (x >>= next) := by
  cases x with
  | ok a => exact (hnext a).mono hx
  | error fault => exact hx

/-- Readers that do the same with every end of the text do the same after a reader of it. -/
theorem Reads.bind_congr {x : Except Fault α} {next next' : α → Except Fault β}
    (hx : Reads kind s left x) (hnext : ∀ a, left a <:+ s → next a = next' a) :
    x >>= next = x >>= next' := by
  cases x with
  | ok a => exact hnext a hx
  | error fault => rfl

theorem Reads.map {x : Except Fault α} (f : α → β) (hf : ∀ a, left' (f a) = left a)
    (hx : Reads kind s left x) : Reads kind s left' (x.map f) := by
  cases x with
  | ok a =>
    show left' (f a) <:+ s
    rw [hf]
    exact hx
  | error fault => exact hx

/-- A computation that reads nothing and finds at most that the text is malformed. -/
def Harmless (x : Except Fault α) : Prop := ∀ fault, x = .error fault → fault = .malformed

theorem Harmless.bind_reads {x : Except Fault α} {next : α → Except Fault β} (hx : Harmless x)
    (hkind : kind .malformed) (hnext : ∀ a, Reads kind s left' (next a)) :
    Reads kind s left' (x >>= next) := by
  cases x with
  | ok a => exact hnext a
  | error fault =>
    rw [hx fault rfl]
    exact hkind

theorem Reads.harmless {x : Except Fault α} (hx : Scans s left x) : Harmless x := by
  rintro fault rfl
  exact hx

end Judging

/-! ### Blanks, comments, strings and keys -/

section Scanning

variable {s rest : List Char}

theorem skipSpaces_suffix (s : List Char) : skipSpaces s <:+ s := List.dropWhile_suffix _

theorem scans_skipComment (s : List Char) : Scans s id (skipComment s) := by
  fun_cases skipComment s with
  | case1 rest hcontrol => rfl
  | case2 rest hcontrol =>
    exact (List.dropWhile_suffix _).trans (List.suffix_cons '#' rest)
  | case3 s hs => exact List.suffix_rfl

theorem scans_skipFillerFrom (inComment : Bool) (s : List Char) :
    Scans s id (skipFillerFrom inComment s) := by
  fun_induction skipFillerFrom inComment s with
  | case1 => exact List.suffix_rfl
  | case2 rest ih => exact ih.mono (List.suffix_cons _ _)
  | case3 => rfl
  | case4 c rest hline hcontrol ih => exact ih.mono (List.suffix_cons _ _)
  | case5 inComment rest hcomment ih => exact ih.mono (List.suffix_cons _ _)
  | case6 inComment c rest hcomment hsign hblank ih => exact ih.mono (List.suffix_cons _ _)
  | case7 => exact List.suffix_rfl

theorem scans_skipFiller (s : List Char) : Scans s id (skipFiller s) := scans_skipFillerFrom _ s

theorem suffix_of_after? {start : List Char} (h : after? start s = some rest) : rest <:+ s := by
  rw [after?_eq_some_iff.1 h]
  exact List.suffix_append _ _

theorem suffix_of_cut? {sep before : List Char} (h : cut? sep s = some (before, rest)) :
    rest <:+ s := by
  induction s generalizing before with
  | nil =>
    obtain ⟨after, hafter, heq⟩ := Option.map_eq_some_iff.1 h
    cases heq
    exact suffix_of_after? hafter
  | cons c cs ih =>
    rw [cut?] at h
    cases hafter : after? sep (c :: cs) with
    | some after =>
      rw [hafter] at h
      cases h
      exact suffix_of_after? hafter
    | none =>
      rw [hafter] at h
      obtain ⟨⟨first, after⟩, hcut, heq⟩ := Option.map_eq_some_iff.1 h
      cases heq
      exact (ih hcut).trans (List.suffix_cons c cs)

theorem scans_hexChar (count : Nat) (s : List Char) :
    Scans s Prod.snd (hexChar count s) := by
  fun_cases hexChar count s with
  | case1 n hn hvalid => exact List.drop_suffix _ _
  | case2 n hn hvalid => rfl
  | case3 hn => rfl

theorem scans_escape (multiline : Bool) (s : List Char) :
    Scans s Prod.snd (escape multiline s) := by
  fun_cases escape multiline s with
  | case1 rest => exact (scans_hexChar 4 rest).mono (List.suffix_cons _ _)
  | case2 rest => exact (scans_hexChar 8 rest).mono (List.suffix_cons _ _)
  | case3 c rest hu hU hblank more hmore =>
    have hline : '\n' :: more <:+ c :: rest := hmore ▸ List.dropWhile_suffix _
    exact ((List.dropWhile_suffix _).trans (List.suffix_cons _ _)).trans hline
  | case4 => rfl
  | case5 c rest hu hU hblank d hd => exact List.suffix_cons _ _
  | case6 => rfl
  | case7 => rfl

theorem scans_basicUpto (fuel : Nat) (s : List Char) : Scans s Prod.snd (basicUpto fuel s) := by
  fun_induction basicUpto fuel s with
  | case1 => rfl
  | case2 => rfl
  | case3 fuel rest => exact List.suffix_cons _ _
  | case4 fuel rest hquote ih =>
    refine Reads.mono (Reads.bind (scans_escape false rest) ?_) (List.suffix_cons _ _)
    rintro ⟨first, more⟩
    exact Reads.bind (ih more) fun a => List.suffix_rfl
  | case5 => rfl
  | case6 fuel c rest hquote hescape hcontrol ih =>
    exact Reads.mono (Reads.bind ih fun a => List.suffix_rfl) (List.suffix_cons _ _)

theorem scans_basic (s : List Char) : Scans s Prod.snd (basic s) := scans_basicUpto _ s

/-- **A step for every character is enough.** -/
theorem basicUpto_stable {fuel fuel' : Nat} (h : s.length < fuel) (h' : s.length < fuel') :
    basicUpto fuel s = basicUpto fuel' s := by
  induction fuel generalizing s fuel' with
  | zero => omega
  | succ fuel ih =>
    obtain _ | fuel' := fuel'
    · omega
    cases s with
    | nil => rfl
    | cons c rest =>
      rw [List.length_cons] at h h'
      have hshorter (t : List Char) (ht : t <:+ rest) :
          basicUpto fuel t = basicUpto fuel' t := by
        have := ht.length_le
        exact ih (by omega) (by omega)
      unfold basicUpto
      rw [hshorter rest List.suffix_rfl]
      refine ite_congr rfl (fun _ => rfl) fun _ => ite_congr rfl (fun _ => ?_) fun _ => rfl
      refine Reads.bind_congr (scans_escape false rest) fun ⟨first, more⟩ hmore => ?_
      dsimp only at hmore ⊢
      rw [hshorter more hmore]

theorem trailingQuotes_suffix (quote : Char) (s : List Char) :
    (trailingQuotes quote s).2 <:+ s := by
  fun_cases trailingQuotes quote s with
  | case1 => exact List.suffix_append [_, _] _
  | case2 => exact List.suffix_cons _ _
  | case3 => exact List.suffix_rfl
  | case4 => exact List.nil_suffix
  | case5 => exact List.suffix_rfl
  | case6 => exact List.suffix_rfl

theorem scans_multiBasicUpto (fuel : Nat) (s : List Char) :
    Scans s Prod.snd (multiBasicUpto fuel s) := by
  fun_induction multiBasicUpto fuel s with
  | case1 => rfl
  | case2 => rfl
  | case3 fuel rest ih =>
    refine Reads.mono (Reads.bind (scans_escape true rest) ?_) (List.suffix_cons _ _)
    rintro ⟨first, more⟩
    exact Reads.bind (ih more) fun a => List.suffix_rfl
  | case4 => rfl
  | case5 fuel c rest hescape hcontrol more hmore =>
    exact (trailingQuotes_suffix _ _).trans (suffix_of_after? hmore)
  | case6 fuel c rest hescape hcontrol hmore ih =>
    exact Reads.mono (Reads.bind ih fun a => List.suffix_rfl) (List.suffix_cons _ _)

theorem scans_multiBasic (s : List Char) : Scans s Prod.snd (multiBasic s) :=
  scans_multiBasicUpto _ s

/-- **A step for every character is enough.** -/
theorem multiBasicUpto_stable {fuel fuel' : Nat} (h : s.length < fuel) (h' : s.length < fuel') :
    multiBasicUpto fuel s = multiBasicUpto fuel' s := by
  induction fuel generalizing s fuel' with
  | zero => omega
  | succ fuel ih =>
    obtain _ | fuel' := fuel'
    · omega
    cases s with
    | nil => rfl
    | cons c rest =>
      rw [List.length_cons] at h h'
      have hshorter (t : List Char) (ht : t <:+ rest) :
          multiBasicUpto fuel t = multiBasicUpto fuel' t := by
        have := ht.length_le
        exact ih (by omega) (by omega)
      unfold multiBasicUpto
      rw [hshorter rest List.suffix_rfl]
      refine ite_congr rfl (fun _ => ?_) fun _ => rfl
      refine Reads.bind_congr (scans_escape true rest) fun ⟨first, more⟩ hmore => ?_
      dsimp only at hmore ⊢
      rw [hshorter more hmore]

theorem scans_literal (s : List Char) : Scans s Prod.snd (literal s) := by
  fun_cases literal s with
  | case1 => rfl
  | case2 body rest hcut => exact suffix_of_cut? hcut
  | case3 => rfl

theorem scans_multiLiteral (s : List Char) : Scans s Prod.snd (multiLiteral s) := by
  fun_cases multiLiteral s with
  | case1 => rfl
  | case2 body rest hcut hcontrol more left hquotes =>
    have hleft : left <:+ rest := by
      have := trailingQuotes_suffix '\'' rest
      rwa [hquotes] at this
    exact hleft.trans (suffix_of_cut? hcut)
  | case3 => rfl

theorem dropFirstNewline_suffix (s : List Char) : dropFirstNewline s <:+ s := by
  fun_cases dropFirstNewline s with
  | case1 rest => exact List.suffix_cons _ _
  | case2 => exact List.suffix_rfl

/-- A reader that only goes on where the text starts as it should. -/
def Tries {α : Type} (kind : Fault → Prop) (s : List Char) (left : α → List Char)
    (tried : Option (Except Fault α)) : Prop :=
  ∀ x, tried = some x → Reads kind s left x

theorem Tries.or {α : Type} {kind : Fault → Prop} {left : α → List Char}
    {first second : Option (Except Fault α)} (h : Tries kind s left first)
    (h' : Tries kind s left second) : Tries kind s left (first.or second) := by
  cases first with
  | none => exact h'
  | some x => exact h

theorem tries_string? (s : List Char) : Tries (· = .malformed) s Prod.snd (string? s) := by
  intro x hx
  unfold string? at hx
  split at hx
  next rest =>
    cases hx
    refine Reads.mono ?_ (List.suffix_cons _ _)
    split
    next more hmore =>
      exact (scans_multiBasic _).mono
        ((dropFirstNewline_suffix more).trans (suffix_of_after? hmore))
    next => exact scans_basic _
  next rest =>
    cases hx
    refine Reads.mono ?_ (List.suffix_cons _ _)
    split
    next more hmore =>
      exact (scans_multiLiteral _).mono
        ((dropFirstNewline_suffix more).trans (suffix_of_after? hmore))
    next => exact scans_literal _
  next => cases hx

theorem scans_keyPart (s : List Char) : Scans s Prod.snd (keyPart s) := by
  fun_cases keyPart s with
  | case1 => rfl
  | case2 c rest hbare => exact List.dropWhile_suffix _
  | case3 rest hbare =>
    exact Reads.mono (Reads.map _ (fun _ => rfl) (scans_basic rest)) (List.suffix_cons _ _)
  | case4 rest hbare hquote =>
    exact Reads.mono (Reads.map _ (fun _ => rfl) (scans_literal rest)) (List.suffix_cons _ _)
  | case5 => rfl

theorem scans_keyUpto (fuel : Nat) (s : List Char) : Scans s Prod.snd (keyUpto fuel s) := by
  induction fuel generalizing s with
  | zero => rfl
  | succ fuel ih =>
    refine Reads.bind (scans_keyPart s) ?_
    rintro ⟨part, rest⟩
    show Scans rest Prod.snd _
    dsimp only
    split
    next more hmore =>
      have hrest : '.' :: more <:+ rest := hmore ▸ skipSpaces_suffix rest
      refine Reads.mono (Reads.bind (ih _) fun a => List.suffix_rfl) ?_
      exact ((skipSpaces_suffix more).trans (List.suffix_cons _ _)).trans hrest
    next hdot => exact skipSpaces_suffix rest

theorem scans_key (s : List Char) : Scans s Prod.snd (key s) := scans_keyUpto _ s

/-- **A step for every character is enough**: a dot is read between two parts of a key. -/
theorem keyUpto_stable {fuel fuel' : Nat} (h : s.length < fuel) (h' : s.length < fuel') :
    keyUpto fuel s = keyUpto fuel' s := by
  induction fuel generalizing s fuel' with
  | zero => omega
  | succ fuel ih =>
    obtain _ | fuel' := fuel'
    · omega
    unfold keyUpto
    refine Reads.bind_congr (scans_keyPart s) fun ⟨part, rest⟩ hrest => ?_
    dsimp only at hrest ⊢
    split
    next more hmore =>
      have hdot : '.' :: more <:+ s := hmore ▸ (skipSpaces_suffix rest).trans hrest
      have hlength := hdot.length_le
      have hskip := (skipSpaces_suffix more).length_le
      rw [List.length_cons] at hlength
      have hnext : keyUpto fuel (skipSpaces more) = keyUpto fuel' (skipSpaces more) :=
        ih (by omega) (by omega)
      rw [hnext]
    next => rfl

end Scanning

/-! ### Tables -/

section Tables

theorem harmless_ok {α : Type} (a : α) : Harmless (.ok a) := fun _ h => nomatch h

theorem harmless_malformed {α : Type} : Harmless (.error .malformed : Except Fault α) :=
  fun _ h => (Except.error.inj h).symm

theorem Harmless.bind {α β : Type} {x : Except Fault α} {next : α → Except Fault β}
    (hx : Harmless x) (hnext : ∀ a, Harmless (next a)) : Harmless (x >>= next) := by
  cases x with
  | ok a => exact hnext a
  | error fault => exact fun fault' h => hx fault' (congrArg _ (Except.error.inj h))

theorem harmless_within {change : Fields → Except Fault Fields}
    (hchange : ∀ fields, Harmless (change fields)) (path : List String) (fields : Fields) :
    Harmless (fields.within change path) := by
  fun_induction Fields.within change path fields with
  | case1 fields => exact hchange fields
  | case2 k path fields hget ih => exact ih.bind fun _ => harmless_ok _
  | case3 k path fields mark inner hget ih => exact ih.bind fun _ => harmless_ok _
  | case4 k path fields closed last hget ih => exact ih.bind fun _ => harmless_ok _
  | case5 => exact harmless_malformed

theorem harmless_openField (key : String) (fields : Fields) :
    Harmless (fields.openField key) := by
  fun_cases Fields.openField key fields with
  | case1 => exact harmless_ok _
  | case2 => exact harmless_ok _
  | case3 => exact harmless_malformed

theorem harmless_appendItem (key : String) (fields : Fields) :
    Harmless (fields.appendItem key) := by
  fun_cases Fields.appendItem key fields with
  | case1 => exact harmless_ok _
  | case2 => exact harmless_ok _
  | case3 => exact harmless_malformed

theorem harmless_insertDotted (under : Nat) (v : Value) (path : List String) (fields : Fields) :
    Harmless (fields.insertDotted under v path) := by
  fun_induction Fields.insertDotted under v path fields with
  | case1 => exact harmless_malformed
  | case2 => exact harmless_ok _
  | case3 => exact harmless_malformed
  | case4 fields k path hpath hget ih => exact ih.bind fun _ => harmless_ok _
  | case5 fields k path hpath mark inner hget hmark ih => exact ih.bind fun _ => harmless_ok _
  | case6 => exact harmless_malformed
  | case7 => exact harmless_malformed

end Tables

end Toml
end RenServer
