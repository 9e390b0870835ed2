/- # Findings are matched by path, however it is spelled

A path is followed component by component from the root, and the place reached so far is all
that the rest of the path needs (`Path.walk_append`). A text of components that leads from every
place back to that place can be put in wherever a component ends, and the path still leads to
where it led (`Path.walk_idle`): nothing between two slashes, a dot, or a name and two dots.
The start of the path is not touched by this, and with it whether it is relative and whether it
has two slashes.

Every component of a place that was reached is a name (`Path.names_walk`), so the absolute path,
written out (`Path.Absolute.text`), is followed without a turn and leads to where it says. It is
a spelling of the path, and the same one for all spellings. So two texts have the same absolute
path exactly if one becomes the other by steps of these two kinds, there or back
(`Path.absolute_eq_iff_respelled`), and the diagnostics of a document depend on no spelling
(`reconcile_respelled`).

Key definitions: `Path.walk`, `Path.Name`, `Path.Absolute.text`, `Path.Idle`, `Path.Respelled`.
Key theorems: `Path.absolute_text`, `Path.walk_idle`, `Path.Respelled.absolute_eq`,
`Path.absolute_eq_iff_respelled`, `reconcile_respelled`.
-/
import Mathlib.Logic.Relation
import RenServer.Proofs.Report.Reconciled

namespace RenServer

namespace Path

open Text

/-! ### Following a path -/

/-- Where a path leads from a place, both with the last component first. -/
def walk (place : List (List Char)) (path : List Char) : List (List Char) :=
  (fields '/' path).foldl step place

theorem resolve_eq (path : List Char) : resolve path = (walk [] path).reverse := rfl

theorem walk_nil (place : List (List Char)) : walk place [] = place := rfl

theorem walk_append (place : List (List Char)) (path rest : List Char) :
    walk place (path ++ '/' :: rest) = walk (walk place path) rest := by
  unfold walk
  rw [fields_append, List.foldl_append]

theorem walk_slash (place : List (List Char)) (rest : List Char) :
    walk place ('/' :: rest) = walk place rest := walk_append place [] rest

theorem walk_component {component : List Char} (h : '/' ∉ component) (place : List (List Char)) :
    walk place component = step place component := by
  unfold walk
  rw [fields_of_notMem h]
  rfl

/-- A component that is the name of something. -/
structure Name (component : List Char) : Prop where
  ne_nil : component ≠ []
  slash_notMem : '/' ∉ component
  ne_here : component ≠ ['.']
  ne_up : component ≠ ['.', '.']

theorem Name.step_eq {component : List Char} (h : Name component) (place : List (List Char)) :
    step place component = component :: place := by
  unfold step
  rw [if_neg (not_or.mpr ⟨h.ne_nil, h.ne_here⟩), if_neg h.ne_up]

theorem names_step {place : List (List Char)} (hplace : ∀ c ∈ place, Name c)
    {component : List Char} (hc : '/' ∉ component) : ∀ c ∈ step place component, Name c := by
  unfold step
  by_cases hstay : component = [] ∨ component = ['.']
  · rw [if_pos hstay]
    exact hplace
  · rw [if_neg hstay]
    by_cases hup : component = ['.', '.']
    · rw [if_pos hup]
      exact fun c hmem => hplace c (List.mem_of_mem_tail hmem)
    · rw [if_neg hup]
      obtain ⟨hnil, hhere⟩ := not_or.mp hstay
      intro c hmem
      rcases List.mem_cons.mp hmem with rfl | hmem
      · exact ⟨hnil, hc, hhere, hup⟩
      · exact hplace c hmem

/-- **A path leads to a place of names only.** -/
theorem names_walk {place : List (List Char)} (hplace : ∀ c ∈ place, Name c) (path : List Char) :
    ∀ c ∈ walk place path, Name c := by
  have hparts : ∀ part ∈ fields '/' path, '/' ∉ part := fun _ => notMem_of_mem_fields
  unfold walk
  generalize fields '/' path = parts at hparts
  induction parts generalizing place with
  | nil => exact hplace
  | cons part parts ih =>
    apply ih (names_step hplace (hparts part List.mem_cons_self))
    exact fun x hx => hparts x (List.mem_cons_of_mem part hx)

/-- Names are followed without a turn. -/
theorem foldl_step_names {names : List (List Char)} (h : ∀ c ∈ names, Name c)
    (place : List (List Char)) : names.foldl step place = names.reverse ++ place := by
  induction names generalizing place with
  | nil => rfl
  | cons name names ih =>
    have hname : step place name = name :: place := (h name List.mem_cons_self).step_eq place
    rw [List.foldl_cons, hname, ih fun c hc => h c (List.mem_cons_of_mem name hc),
      List.reverse_cons, List.append_assoc, List.singleton_append]

/-! ### The absolute path, written out -/

/-- An absolute path as a text. -/
def Absolute.text (a : Absolute) : List Char :=
  (if a.doubled then ['/', '/'] else ['/']) ++ ['/'].intercalate a.components

theorem head?_intercalate_names {names : List (List Char)} (h : ∀ c ∈ names, Name c) :
    (['/'].intercalate names).head? ≠ some '/' := by
  cases names with
  | nil => simp
  | cons name names =>
    obtain ⟨c, cs, rfl⟩ := List.exists_cons_of_ne_nil (h name List.mem_cons_self).ne_nil
    have hc : c ≠ '/' := fun heq =>
      (h _ List.mem_cons_self).slash_notMem (heq ▸ List.mem_cons_self)
    cases names with
    | nil => simpa using hc
    | cons next names => simpa [List.intercalate_cons_cons] using hc

theorem isRooted_text (a : Absolute) : isRooted a.text = true := by
  unfold Absolute.text
  cases a.doubled <;> rfl

theorem isDoubled_text {a : Absolute} (h : ∀ c ∈ a.components, Name c) :
    isDoubled a.text = a.doubled := by
  have hhead := head?_intercalate_names h
  unfold Absolute.text
  generalize ['/'].intercalate a.components = rest at hhead
  cases a.doubled with
  | false =>
    cases rest with
    | nil => rfl
    | cons c rest => simp_all [isDoubled]
  | true =>
    cases rest with
    | nil => rfl
    | cons c rest => simp_all [isDoubled]

theorem resolve_text {a : Absolute} (h : ∀ c ∈ a.components, Name c) :
    resolve a.text = a.components := by
  have hwalk : walk [] (['/'].intercalate a.components) = a.components.reverse := by
    by_cases hnil : a.components = []
    · rw [hnil]
      rfl
    · unfold walk
      rw [fields_intercalate hnil fun c hc => (h c hc).slash_notMem, foldl_step_names h,
        List.append_nil]
  have htext : walk [] a.text = walk [] (['/'].intercalate a.components) := by
    unfold Absolute.text
    cases a.doubled with
    | false => exact walk_slash [] _
    | true => exact (walk_slash [] _).trans (walk_slash [] _)
  rw [resolve_eq, htext, hwalk, List.reverse_reverse]

theorem absolute_eq (directory path : List Char) :
    absolute directory path =
      ⟨isDoubled (rooted directory path), resolve (rooted directory path)⟩ := rfl

theorem names_absolute (directory path : List Char) :
    ∀ c ∈ (absolute directory path).components, Name c := by
  intro c hc
  have hnone : ∀ c ∈ ([] : List (List Char)), Name c := fun _ h => absurd h List.not_mem_nil
  exact names_walk hnone _ c (List.mem_reverse.mp hc)

/-- **The absolute path of a path, written out, has the same absolute path.** -/
theorem absolute_text (directory path : List Char) :
    absolute directory (absolute directory path).text = absolute directory path := by
  have hnames := names_absolute directory path
  generalize absolute directory path = a at hnames
  have hrooted : rooted directory a.text = a.text := if_pos (isRooted_text a)
  rw [absolute_eq, hrooted, isDoubled_text hnames, resolve_text hnames]

/-! ### Texts that lead nowhere -/

/-- A text of components that leads from every place back to that place. -/
inductive Idle : List Char → Prop where
  | nothing : Idle []
  | here : Idle ['.']
  | back {name : List Char} (h : Name name) : Idle (name ++ ['/', '.', '.'])

/-- What follows the end of a component. -/
def AtEnd (rest : List Char) : Prop := rest = [] ∨ ∃ more, rest = '/' :: more

theorem Idle.walk_eq {idle : List Char} (h : Idle idle) (place : List (List Char)) :
    walk place idle = place := by
  cases h with
  | nothing => rfl
  | here => rfl
  | @back name hname =>
    calc walk place (name ++ ['/', '.', '.'])
        = walk (walk place name) ['.', '.'] := walk_append place name ['.', '.']
      _ = walk (name :: place) ['.', '.'] := by
          rw [walk_component hname.slash_notMem, hname.step_eq]
      _ = place := rfl

/-- **What leads nowhere can be left out before the end of a component.** -/
theorem walk_idle {idle rest : List Char} (hidle : Idle idle) (hrest : AtEnd rest)
    (place : List (List Char)) : walk place (idle ++ rest) = walk place rest := by
  rcases hrest with rfl | ⟨more, rfl⟩
  · rw [List.append_nil, hidle.walk_eq, walk_nil]
  · rw [walk_append, hidle.walk_eq, walk_slash]

/-- A slash can be put in where a component ends. -/
theorem walk_slash_atEnd {rest : List Char} (hrest : AtEnd rest) (place : List (List Char))
    (path : List Char) : walk place (path ++ '/' :: rest) = walk place (path ++ rest) := by
  rcases hrest with rfl | ⟨more, rfl⟩
  · rw [walk_append, walk_nil, List.append_nil]
  · rw [walk_append, walk_slash, walk_append]

/-! ### Spellings -/

/-- One step from a spelling of a path to another. -/
inductive Respelled (directory : List Char) : List Char → List Char → Prop where
  /-- The path becomes absolute. -/
  | absolute (path : List Char) : Respelled directory path (absolute directory path).text
  /-- Behind a component comes a slash, with a text that leads nowhere. -/
  | inserted (before idle rest : List Char) (hbefore : ∃ c ∈ before, c ≠ '/') (hidle : Idle idle)
      (hrest : AtEnd rest) :
    Respelled directory (before ++ rest) (before ++ '/' :: (idle ++ rest))
  /-- A slash behind a component is followed by a text that leads nowhere. -/
  | filled (before idle rest : List Char) (hbefore : ∃ c ∈ before, c ≠ '/') (hidle : Idle idle)
      (hrest : AtEnd rest) :
    Respelled directory (before ++ '/' :: rest) (before ++ '/' :: (idle ++ rest))

section Start

variable {before : List Char}

/-- Whether a path starts with two slashes is settled before its first component ends. -/
theorem isDoubled_append (h : ∃ c ∈ before, c ≠ '/') (rest : List Char) :
    isDoubled (before ++ rest) = isDoubled before := by
  obtain ⟨c, hmem, hc⟩ := h
  match before with
  | [] => exact absurd hmem List.not_mem_nil
  | [a] =>
    obtain rfl := List.mem_singleton.mp hmem
    simp [isDoubled, hc]
  | [a, b] =>
    by_cases ha : a = '/'
    · have hb : b ≠ '/' := by
        rcases List.mem_pair.mp hmem with rfl | rfl
        · exact absurd ha hc
        · exact hc
      simp [isDoubled, hb]
    · simp [isDoubled, ha]
  | a :: b :: d :: more =>
    by_cases ha : a = '/'
    · by_cases hb : b = '/'
      · by_cases hd : d = '/'
        · simp [isDoubled, ha, hb, hd]
        · simp [isDoubled, ha, hb, hd]
      · simp [isDoubled, hb]
    · simp [isDoubled, ha]

theorem rooted_append (h : before ≠ []) (directory rest : List Char) :
    rooted directory (before ++ rest) = rooted directory before ++ rest := by
  have hrooted : isRooted (before ++ rest) = isRooted before := by
    obtain ⟨c, before, rfl⟩ := List.exists_cons_of_ne_nil h
    rw [List.cons_append]
    unfold isRooted
    split <;> simp_all
  unfold rooted
  rw [hrooted]
  split_ifs
  · rfl
  · rw [List.append_assoc]
  · rw [List.append_assoc, List.cons_append]

end Start

variable {directory p q : List Char}

/-- What comes after a component is followed from the place that the component leads to. -/
theorem absolute_append {before rest rest' : List Char} (h : ∃ c ∈ before, c ≠ '/')
    (hwalk : ∀ path, walk [] (path ++ rest) = walk [] (path ++ rest')) :
    absolute directory (before ++ rest) = absolute directory (before ++ rest') := by
  have hne : before ≠ [] := by
    obtain ⟨c, hmem, -⟩ := h
    exact List.ne_nil_of_mem hmem
  have hrooted : ∃ c ∈ rooted directory before, c ≠ '/' := by
    obtain ⟨c, hmem, hc⟩ := h
    refine ⟨c, ?_, hc⟩
    unfold rooted
    split_ifs
    · exact hmem
    · exact List.mem_append_right _ hmem
    · exact List.mem_append_right _ (List.mem_cons_of_mem _ hmem)
  rw [absolute_eq, absolute_eq, rooted_append hne, rooted_append hne, isDoubled_append hrooted,
    isDoubled_append hrooted, resolve_eq, resolve_eq, hwalk]

/-- **A step from a spelling to another keeps the absolute path.** -/
theorem Respelled.absolute_eq (h : Respelled directory p q) :
    Path.absolute directory p = Path.absolute directory q := by
  cases h with
  | absolute => exact (absolute_text directory p).symm
  | inserted before idle rest hbefore hidle hrest =>
    apply absolute_append hbefore
    intro path
    rw [← walk_slash_atEnd hrest, walk_append, walk_append, walk_idle hidle hrest]
  | filled before idle rest hbefore hidle hrest =>
    apply absolute_append hbefore
    intro path
    rw [walk_append, walk_append, walk_idle hidle hrest]

/-- **Two texts have the same absolute path exactly if they are spellings of each other.** -/
theorem absolute_eq_iff_respelled :
    absolute directory p = absolute directory q ↔
      Relation.EqvGen (Respelled directory) p q := by
  constructor
  · intro h
    have hp : Relation.EqvGen (Respelled directory) p (absolute directory p).text :=
      .rel _ _ (.absolute p)
    have hq : Relation.EqvGen (Respelled directory) q (absolute directory p).text := by
      rw [h]
      exact .rel _ _ (.absolute q)
    exact .trans _ _ _ hp (.symm _ _ hq)
  · intro h
    induction h with
    | rel p q h => exact h.absolute_eq
    | refl p => rfl
    | symm p q _ ih => exact ih.symm
    | trans p q r _ _ hpq hqr => exact hpq.trans hqr

end Path

/-! ### Findings of a document -/

/-- Two findings that differ in nothing but the spelling of their paths. -/
structure Finding.Respelled (directory : String) (f g : Finding) : Prop where
  path : Relation.EqvGen (Path.Respelled directory.toList) f.path.toList g.path.toList
  rest : g = { f with path := g.path }

variable {directory document document' : String}

/-- A finding belongs to a document exactly if its path is a spelling of the document's, and it
lies at a place that the editor can count to. -/
theorem Finding.belongs_iff_respelled {f : Finding} :
    f.belongs directory.toList document.toList = true ↔
      Relation.EqvGen (Path.Respelled directory.toList) f.path.toList document.toList ∧
        1 ≤ f.line ∧ 2 ≤ f.col := by
  rw [Finding.belongs_iff, Finding.LiesIn, Path.absolute_eq_iff_respelled]

theorem Finding.Respelled.belongs_eq {f g : Finding} (h : f.Respelled directory g)
    (hdocument : Relation.EqvGen (Path.Respelled directory.toList) document.toList
      document'.toList) :
    f.belongs directory.toList document.toList = g.belongs directory.toList document'.toList := by
  have hline : g.line = f.line := by rw [h.rest]
  have hcol : g.col = f.col := by rw [h.rest]
  rw [Bool.eq_iff_iff, Finding.belongs_iff_respelled, Finding.belongs_iff_respelled, hline, hcol]
  apply and_congr_left'
  constructor
  · intro hf
    exact .trans _ _ _ (.symm _ _ h.path) (.trans _ _ _ hf hdocument)
  · intro hg
    exact .trans _ _ _ h.path (.trans _ _ _ hg (.symm _ _ hdocument))

theorem Finding.Respelled.toDiagnostic_eq {f g : Finding} (h : f.Respelled directory g) :
    f.toDiagnostic = g.toDiagnostic := by
  rw [h.rest]
  rfl

/-- **Diagnostics do not depend on how paths are spelled.** Whatever the findings and the
document: if the path of the document and the path of any of the findings are spelled in
another way, be it as absolute paths or with a slash, a dot, or a name and two dots put in
behind a component, any number of times, then the diagnostics, or the fault that there are none,
are the same. A finding with a path that is no spelling of the document's is never among them. -/
theorem reconcile_respelled {findings findings' : List Finding}
    (hdocument : Relation.EqvGen (Path.Respelled directory.toList) document.toList
      document'.toList)
    (hfindings : List.Forall₂ (Finding.Respelled directory) findings findings') :
    reconcile directory document findings = reconcile directory document' findings' ∧
      ∀ f ∈ findings, f.belongs directory.toList document.toList = true ↔
        Relation.EqvGen (Path.Respelled directory.toList) f.path.toList document.toList ∧
          1 ≤ f.line ∧ 2 ≤ f.col := by
  refine ⟨?_, fun f _ => Finding.belongs_iff_respelled⟩
  unfold reconcile
  induction hfindings with
  | nil => rfl
  | @cons f g findings findings' hfirst _ ih =>
    rw [List.filter_cons, List.filter_cons, hfirst.belongs_eq hdocument]
    by_cases hbelongs : g.belongs directory.toList document'.toList = true
    · rw [if_pos hbelongs, if_pos hbelongs, List.mapM_cons, List.mapM_cons,
        hfirst.toDiagnostic_eq, ih]
    · rw [if_neg hbelongs, if_neg hbelongs, ih]

/-- The relative path of a finding takes a detour behind its first component, and the document,
of which the path starts with two slashes, gets a dot behind its last one. -/
theorem reconcile_detour :
    let f : Finding := ⟨"b/c", 3, 4, 2, "error", "bad"⟩
    let g : Finding := ⟨"b/x/../c", 3, 4, 2, "error", "bad"⟩
    Relation.EqvGen (Path.Respelled "//a".toList) "//a/b/c/".toList "//a/b/c/.".toList ∧
      f.Respelled "//a" g ∧
      reconcile "//a" "//a/b/c/" [f] = reconcile "//a" "//a/b/c/." [g] ∧
      reconcile "//a" "//a/b/c/" [f] = .ok [⟨⟨⟨2, 2⟩, ⟨2, 4⟩⟩, .error, "renc", "bad"⟩] := by
  intro f g
  have hdocument :
      Relation.EqvGen (Path.Respelled "//a".toList) "//a/b/c/".toList "//a/b/c/.".toList :=
    .rel _ _ (.filled "//a/b/c".toList ['.'] [] ⟨'a', by decide, by decide⟩ .here (.inl rfl))
  have hx : Path.Name ['x'] := ⟨by decide, by decide, by decide, by decide⟩
  have hpath : Path.Respelled "//a".toList "b/c".toList "b/x/../c".toList :=
    .inserted ['b'] ['x', '/', '.', '.'] ['/', 'c'] ⟨'b', by decide, by decide⟩ (.back hx)
      (.inr ⟨['c'], rfl⟩)
  have hfinding : f.Respelled "//a" g := ⟨.rel _ _ hpath, rfl⟩
  obtain ⟨hsame, -⟩ := reconcile_respelled hdocument (.cons hfinding .nil)
  exact ⟨hdocument, hfinding, hsame, by decide +kernel⟩

end RenServer
