/- # Where a document is refused

A text is refused, rather than found malformed, at one place: where a value is due and either
there is no room for it or a number with too many digits stands there (`Stuck`). Everything
before that place is in order. To come to it is to go from statement to statement (`Awaits`)
and then into arrays and inline tables (`Comes`), past the values that could be read. An array
takes two of the room from the values in it, an inline table three.

A fault at such a place is the fault of the whole text (`Comes.fails`, `Awaits.fails`), and
a fault that is more than a malformed text comes from such a place
(`exists_comes_of_failsWith`, `exists_awaits_of_error`). So the refused texts are told by what
stands in them (`exists_parse_error_iff`), whatever the room is.

The readers count their steps. They have enough of them, since a separator is read between any
two values (`valueUpto_stable`, `statementsUpto_stable`), so each reader is given by an equation
without the count (`value_eq`, `arrayItems_eq`, `tableFields_eq`, `statements_eq`).

Key definitions: `Comes`, `Awaits`, `Stuck`, `Refused`.
Key theorems: `valueUpto_stable`, `value_eq`, `Comes.fails`, `exists_comes_of_failsWith`,
`exists_parse_error_iff`, `Refused.shows`.
-/
import RenServer.Proofs.Results
import RenServer.Proofs.Toml.Numbers

namespace RenServer
namespace Toml

open Text

/-! ### Steps enough for values -/

section Steps

theorem scans_afterEquals (s : List Char) : Scans s id (afterEquals s) := by
  fun_cases afterEquals s with
  | case1 rest => exact (skipSpaces_suffix rest).trans (List.suffix_cons _ _)
  | case2 => rfl

/-- An end of the text is left, if anything was read. -/
abbrev Leaves {α : Type} (s : List Char) (left : α → List Char) (x : Except Fault α) : Prop :=
  Reads (fun _ => True) s left x

theorem Reads.leaves {α : Type} {kind : Fault → Prop} {s : List Char} {left : α → List Char}
    {x : Except Fault α} (h : Reads kind s left x) : Leaves s left x := h.weaken fun _ _ => trivial

theorem leaves_descend (room : Nat) (s : List Char) : Leaves s (fun _ => s) (descend room s) := by
  unfold descend
  split_ifs
  · exact List.suffix_rfl
  · trivial

section Values

variable {value value' : Reader Value} {items items' : Reader (List Value)}
  {fields fields' : Fields → Reader Fields}

theorem leaves_valueWith (hitems : ∀ room s, Leaves s Prod.snd (items room s))
    (hfields : ∀ found room s, Leaves s Prod.snd (fields found room s)) (room : Nat)
    (s : List Char) : Leaves s Prod.snd (valueWith items fields room s) := by
  unfold valueWith
  refine Reads.bind (leaves_descend room s) fun inner => ?_
  split
  next rest =>
    refine Reads.mono ?_ (List.suffix_cons '[' rest)
    refine Reads.bind (scans_skipFiller rest).leaves fun t => ?_
    split
    next more => exact List.suffix_cons _ _
    next => exact Reads.bind (hitems _ _) fun a => List.suffix_rfl
  next rest =>
    refine Reads.mono ?_ ((skipSpaces_suffix rest).trans (List.suffix_cons _ rest))
    split
    next more hmore => exact hmore ▸ List.suffix_cons _ _
    next => exact Reads.bind (hfields _ _ _) fun a => List.suffix_rfl
  next => exact (reads_scalar _).leaves

theorem leaves_itemsWith (hvalue : ∀ room s, Leaves s Prod.snd (value room s))
    (hitems : ∀ room s, Leaves s Prod.snd (items room s)) (room : Nat) (s : List Char) :
    Leaves s Prod.snd (itemsWith value items room s) := by
  unfold itemsWith
  refine Reads.bind (hvalue room s) fun ⟨item, rest⟩ => ?_
  refine Reads.bind (scans_skipFiller rest).leaves fun t => ?_
  split
  next more => exact List.suffix_cons _ _
  next more =>
    refine Reads.mono (Reads.bind (scans_skipFiller more).leaves fun t => ?_)
      (List.suffix_cons _ _)
    split
    next => exact List.suffix_cons _ _
    next => exact Reads.bind (hitems _ _) fun a => List.suffix_rfl
  next => trivial

theorem leaves_fieldsWith (hvalue : ∀ room s, Leaves s Prod.snd (value room s))
    (hfields : ∀ found room s, Leaves s Prod.snd (fields found room s)) (found : Fields)
    (room : Nat) (s : List Char) : Leaves s Prod.snd (fieldsWith value fields found room s) := by
  unfold fieldsWith
  refine Reads.bind (scans_key s).leaves fun ⟨k, rest⟩ => ?_
  refine Reads.bind (scans_afterEquals rest).leaves fun t => ?_
  refine Reads.bind (hvalue room t) fun ⟨v, rest⟩ => ?_
  refine (harmless_insertDotted 0 v k found).bind_reads trivial fun found => ?_
  refine Reads.mono ?_ (skipSpaces_suffix rest)
  split
  next more hmore => exact hmore ▸ List.suffix_cons _ _
  next more hmore =>
    have hmore' : skipSpaces more <:+ skipSpaces rest :=
      (skipSpaces_suffix more).trans (hmore ▸ List.suffix_cons _ _)
    exact (hfields found room _).mono hmore'
  next => trivial

/-- A value is read alike if what is in it is: a bracket stands before that. -/
theorem valueWith_congr {room : Nat} {s : List Char}
    (hitems : ∀ inner t, t.length < s.length → items inner t = items' inner t)
    (hfields : ∀ found inner t, t.length < s.length →
      fields found inner t = fields' found inner t) :
    valueWith items fields room s = valueWith items' fields' room s := by
  unfold valueWith
  refine bind_congr fun inner => ?_
  split
  next rest =>
    rw [List.length_cons] at hitems
    refine Reads.bind_congr (scans_skipFiller rest) fun t ht => ?_
    have hlength : t.length ≤ rest.length := ht.length_le
    split
    next => rfl
    next => rw [hitems inner t (by omega)]
  next rest =>
    rw [List.length_cons] at hfields
    have hlength := (skipSpaces_suffix rest).length_le
    split
    next => rfl
    next => rw [hfields .nil inner _ (by omega)]
  next => rfl

/-- Items are read alike if the first is and the others are: a comma stands between. -/
theorem itemsWith_congr {room : Nat} {s : List Char} (hvalue : value room s = value' room s)
    (hleaves : Leaves s Prod.snd (value room s))
    (hitems : ∀ t, t.length < s.length → items room t = items' room t) :
    itemsWith value items room s = itemsWith value' items' room s := by
  unfold itemsWith
  rw [← hvalue]
  refine Reads.bind_congr hleaves fun ⟨item, rest⟩ hrest => ?_
  refine Reads.bind_congr (scans_skipFiller rest) fun t ht => ?_
  have hlength : t.length ≤ s.length := (List.IsSuffix.trans ht hrest).length_le
  split
  next => rfl
  next more =>
    rw [List.length_cons] at hlength
    refine Reads.bind_congr (scans_skipFiller more) fun t ht => ?_
    have hnext : t.length ≤ more.length := ht.length_le
    split
    next => rfl
    next => rw [hitems t (by omega)]
  next => rfl

/-- Fields are read alike if the first value is and the others are: a comma stands between. -/
theorem fieldsWith_congr {found : Fields} {room : Nat} {s : List Char}
    (hvalue : ∀ t, t.length ≤ s.length → value room t = value' room t)
    (hleaves : ∀ t, Leaves t Prod.snd (value room t))
    (hfields : ∀ found t, t.length < s.length → fields found room t = fields' found room t) :
    fieldsWith value fields found room s = fieldsWith value' fields' found room s := by
  unfold fieldsWith
  refine Reads.bind_congr (scans_key s) fun ⟨k, rest⟩ hrest => ?_
  refine Reads.bind_congr (scans_afterEquals rest) fun t ht => ?_
  have hlength : t.length ≤ s.length := (List.IsSuffix.trans ht hrest).length_le
  rw [← hvalue t hlength]
  refine Reads.bind_congr (hleaves t) fun ⟨v, left⟩ hleft => ?_
  refine bind_congr fun found => ?_
  have hleft' := ((skipSpaces_suffix left).trans hleft).length_le
  split
  next => rfl
  next more hmore =>
    rw [hmore, List.length_cons] at hleft'
    have hskip := (skipSpaces_suffix more).length_le
    exact hfields found _ (by omega)
  next => rfl

end Values

/-- **Every reader of values leaves an end of the text.** -/
theorem leaves_valueUpto (fuel : Nat) :
    (∀ room s, Leaves s Prod.snd (valueUpto fuel room s)) ∧
    (∀ room s, Leaves s Prod.snd (itemsUpto fuel room s)) ∧
    ∀ found room s, Leaves s Prod.snd (fieldsUpto fuel found room s) := by
  induction fuel with
  | zero => exact ⟨fun _ _ => trivial, fun _ _ => trivial, fun _ _ _ => trivial⟩
  | succ fuel ih =>
    obtain ⟨hvalue, hitems, hfields⟩ := ih
    exact ⟨leaves_valueWith hitems hfields, leaves_itemsWith hvalue hitems,
      leaves_fieldsWith hvalue hfields⟩

/-- **Two steps for every character are enough.** -/
theorem valueUpto_stable (fuel : Nat) :
    (∀ room s fuel', 2 * s.length + 2 ≤ fuel → 2 * s.length + 2 ≤ fuel' →
      valueUpto fuel room s = valueUpto fuel' room s) ∧
    (∀ room s fuel', 2 * s.length + 3 ≤ fuel → 2 * s.length + 3 ≤ fuel' →
      itemsUpto fuel room s = itemsUpto fuel' room s) ∧
    ∀ found room s fuel', 2 * s.length + 3 ≤ fuel → 2 * s.length + 3 ≤ fuel' →
      fieldsUpto fuel found room s = fieldsUpto fuel' found room s := by
  induction fuel with
  | zero => exact ⟨by omega, by omega, by omega⟩
  | succ fuel ih =>
    obtain ⟨hvalue, hitems, hfields⟩ := ih
    refine ⟨fun room s fuel' h h' => ?_, fun room s fuel' h h' => ?_,
      fun found room s fuel' h h' => ?_⟩
    all_goals obtain _ | fuel' := fuel'
    all_goals try omega
    · refine valueWith_congr (fun inner t ht => ?_) fun found inner t ht => ?_
      · exact hitems inner t fuel' (by omega) (by omega)
      · exact hfields found inner t fuel' (by omega) (by omega)
    · refine itemsWith_congr ?_ ((leaves_valueUpto fuel).1 room s) fun t ht => ?_
      · exact hvalue room s fuel' (by omega) (by omega)
      · exact hitems room t fuel' (by omega) (by omega)
    · refine fieldsWith_congr (fun t ht => ?_) ((leaves_valueUpto fuel).1 room) fun found t ht => ?_
      · exact hvalue room t fuel' (by omega) (by omega)
      · exact hfields found room t fuel' (by omega) (by omega)

/-! ### The readers without their steps -/

/-- The items of an array from one of them on. -/
def arrayItems (room : Nat) (s : List Char) : Except Fault (List Value × List Char) :=
  itemsUpto (2 * s.length + 3) room s

/-- The fields of an inline table from one of them on, after those found so far. -/
def tableFields (found : Fields) (room : Nat) (s : List Char) :
    Except Fault (Fields × List Char) :=
  fieldsUpto (2 * s.length + 3) found room s

theorem leaves_value (room : Nat) (s : List Char) : Leaves s Prod.snd (value room s) :=
  (leaves_valueUpto _).1 room s

theorem value_eq (room : Nat) (s : List Char) :
    value room s = valueWith arrayItems tableFields room s := by
  refine valueWith_congr (fun inner t ht => ?_) fun found inner t ht => ?_
  · exact (valueUpto_stable _).2.1 inner t _ (by omega) (Nat.le_refl _)
  · exact (valueUpto_stable _).2.2 found inner t _ (by omega) (Nat.le_refl _)

theorem arrayItems_eq (room : Nat) (s : List Char) :
    arrayItems room s = itemsWith value arrayItems room s := by
  refine itemsWith_congr rfl (leaves_value room s) fun t ht => ?_
  exact (valueUpto_stable _).2.1 room t _ (by omega) (Nat.le_refl _)

theorem tableFields_eq (found : Fields) (room : Nat) (s : List Char) :
    tableFields found room s = fieldsWith value tableFields found room s := by
  refine fieldsWith_congr (fun t ht => ?_) ((leaves_valueUpto _).1 room) fun found t ht => ?_
  · exact (valueUpto_stable _).1 room t _ (by omega) (Nat.le_refl _)
  · exact (valueUpto_stable _).2.2 found room t _ (by omega) (Nat.le_refl _)

end Steps

/-! ### Where a value is due -/

/-- What a reader is about to read: a value, the items of an array, or the fields of an inline
table after those found so far. -/
inductive Expected where
  | value
  | items
  | fields (found : Fields)

/-- A reader that expects something at `s`, with `room` for it, comes to a value at `t`, with
`left` for that. What it reads before is in order. -/
inductive Comes : Expected → Nat → List Char → Nat → List Char → Prop where
  | here {room : Nat} {s : List Char} : Comes .value room s room s
  | array {room left : Nat} {rest s t : List Char} (hs : skipFiller rest = .ok s)
      (hopen : s.head? ≠ some ']') (h : Comes .items room s left t) :
      Comes .value (room + 2) ('[' :: rest) left t
  | table {room left : Nat} {rest t : List Char} (hopen : (skipSpaces rest).head? ≠ some '\x7d')
      (h : Comes (.fields .nil) room (skipSpaces rest) left t) :
      Comes .value (room + 3) ('\x7b' :: rest) left t
  | item {room left : Nat} {s t : List Char} (h : Comes .value room s left t) :
      Comes .items room s left t
  | laterItem {room left : Nat} {s rest more next t : List Char} {item : Value}
      (hitem : value room s = .ok (item, rest)) (hcomma : skipFiller rest = .ok (',' :: more))
      (hnext : skipFiller more = .ok next) (hopen : next.head? ≠ some ']')
      (h : Comes .items room next left t) : Comes .items room s left t
  | field {room left : Nat} {s rest u t : List Char} {k : List String} {found : Fields}
      (hkey : key s = .ok (k, rest)) (hequals : afterEquals rest = .ok u)
      (h : Comes .value room u left t) : Comes (.fields found) room s left t
  | laterField {room left : Nat} {s rest u after more t : List Char} {k : List String}
      {v : Value} {found found' : Fields} (hkey : key s = .ok (k, rest))
      (hequals : afterEquals rest = .ok u) (hvalue : value room u = .ok (v, after))
      (hfound : found.insertDotted 0 v k = .ok found') (hcomma : skipSpaces after = ',' :: more)
      (h : Comes (.fields found') room (skipSpaces more) left t) :
      Comes (.fields found) room s left t

/-- The reader of what is expected fails with a fault. -/
def FailsWith : Expected → Nat → List Char → Fault → Prop
  | .value, room, s, fault => value room s = .error fault
  | .items, room, s, fault => arrayItems room s = .error fault
  | .fields found, room, s, fault => tableFields found room s = .error fault

/-- There is no room for the value at the start of a text, or it is a number with too many
digits. -/
def Stuck (room : Nat) (s : List Char) : Prop := room < taken s ∨ LongNumber s

section Places

variable {expected : Expected} {room left : Nat} {s t : List Char} {fault : Fault}

/-- **A fault in a value is the fault of what the value is in.** -/
theorem Comes.fails (h : Comes expected room s left t) (hfault : value left t = .error fault) :
    FailsWith expected room s fault := by
  induction h with
  | here => exact hfault
  | @array room _ rest s _ hs hopen _ ih =>
    have hitems : arrayItems room s = .error fault := ih hfault
    show value (room + 2) ('[' :: rest) = .error fault
    have hdescend : descend (room + 2) ('[' :: rest) = .ok room := by simp [descend, taken]
    rw [value_eq, valueWith, hdescend]
    simp only [hs, bind, Except.bind]
    split
    next => simp at hopen
    next => rw [hitems]
  | @table room _ rest _ hopen _ ih =>
    have hfields : tableFields .nil room (skipSpaces rest) = .error fault := ih hfault
    show value (room + 3) ('\x7b' :: rest) = .error fault
    have hdescend : descend (room + 3) ('\x7b' :: rest) = .ok room := by simp [descend, taken]
    rw [value_eq, valueWith, hdescend]
    simp only [bind, Except.bind]
    split
    next hclosed => simp [hclosed] at hopen
    next => rw [hfields]
  | @item room _ s _ _ ih =>
    have hvalue : value room s = .error fault := ih hfault
    show arrayItems room s = .error fault
    rw [arrayItems_eq, itemsWith, hvalue]
    rfl
  | @laterItem room _ s _ _ next _ _ hitem hcomma hnext hopen _ ih =>
    have hitems : arrayItems room next = .error fault := ih hfault
    show arrayItems room s = .error fault
    rw [arrayItems_eq, itemsWith, hitem]
    simp only [hcomma, hnext, bind, Except.bind]
    split
    next => simp at hopen
    next => rw [hitems]
  | @field room _ s _ u _ _ found hkey hequals _ ih =>
    have hvalue : value room u = .error fault := ih hfault
    show tableFields found room s = .error fault
    rw [tableFields_eq, fieldsWith, hkey]
    simp only [hequals, hvalue, bind, Except.bind]
  | @laterField room _ s _ _ _ more _ _ _ found found' hkey hequals hvalue hfound hcomma _ ih =>
    have hfields : tableFields found' room (skipSpaces more) = .error fault := ih hfault
    show tableFields found room s = .error fault
    rw [tableFields_eq, fieldsWith, hkey]
    simp only [hequals, hvalue, hfound, hcomma, bind, Except.bind]
    exact hfields

theorem head?_ne {c : Char} (h : ∀ rest, s ≠ c :: rest) : s.head? ≠ some c := by
  cases s with
  | nil => simp
  | cons d rest =>
    intro hd
    obtain rfl : d = c := Option.some.inj hd
    exact h rest rfl

/-- A value fails where it is, or in what is in it. -/
theorem cause_of_value (h : value room s = .error fault) (hfault : fault ≠ .malformed) :
    Stuck room s ∨
      (∃ inner rest t, room = inner + 2 ∧ s = '[' :: rest ∧ skipFiller rest = .ok t ∧
        t.head? ≠ some ']' ∧ arrayItems inner t = .error fault) ∨
      ∃ inner rest, room = inner + 3 ∧ s = '\x7b' :: rest ∧
        (skipSpaces rest).head? ≠ some '\x7d' ∧
        tableFields .nil inner (skipSpaces rest) = .error fault := by
  rw [value_eq, valueWith, bind_eq_error_iff] at h
  by_cases hroom : taken s ≤ room
  · have hdescend : descend room s = .ok (room - taken s) := if_pos hroom
    simp only [hdescend, reduceCtorEq, false_or, Except.ok.injEq, exists_eq_left'] at h
    split at h
    next rest =>
      have hinner : room = (room - 2) + 2 := (Nat.sub_add_cancel hroom).symm
      rcases bind_eq_error_iff.mp h with hfiller | ⟨t, ht, h⟩
      · exact absurd ((scans_skipFiller rest).harmless fault hfiller) hfault
      · split at h
        next => cases h
        next hopen =>
          rcases bind_eq_error_iff.mp h with hitems | ⟨_, -, hpure⟩
          · exact .inr (.inl ⟨_, rest, t, hinner, rfl, ht, head?_ne hopen, hitems⟩)
          · cases hpure
    next rest =>
      have hinner : room = (room - 3) + 3 := (Nat.sub_add_cancel hroom).symm
      split at h
      next => cases h
      next hopen =>
        rcases bind_eq_error_iff.mp h with hfields | ⟨_, -, hpure⟩
        · exact .inr (.inr ⟨_, rest, hinner, rfl, head?_ne hopen, hfields⟩)
        · cases hpure
    next =>
      have hnumber := reads_scalar s
      rw [h] at hnumber
      obtain hmalformed | ⟨hlong, -⟩ := hnumber
      · exact absurd hmalformed hfault
      · exact .inl (.inr hlong)
  · exact .inl (.inl (Nat.lt_of_not_le hroom))

/-- Items fail in the first of them or in those after it. -/
theorem cause_of_items (h : arrayItems room s = .error fault) (hfault : fault ≠ .malformed) :
    value room s = .error fault ∨
      ∃ item rest more next, value room s = .ok (item, rest) ∧
        skipFiller rest = .ok (',' :: more) ∧ skipFiller more = .ok next ∧
        next.head? ≠ some ']' ∧ arrayItems room next = .error fault := by
  rw [arrayItems_eq, itemsWith] at h
  rcases bind_eq_error_iff.mp h with hvalue | ⟨⟨item, rest⟩, hvalue, h⟩
  · exact .inl hvalue
  right
  rcases bind_eq_error_iff.mp h with hfiller | ⟨t, ht, h⟩
  · exact absurd ((scans_skipFiller rest).harmless fault hfiller) hfault
  split at h
  next => cases h
  next more =>
    rcases bind_eq_error_iff.mp h with hfiller | ⟨next, hnext, h⟩
    · exact absurd ((scans_skipFiller more).harmless fault hfiller) hfault
    split at h
    next => cases h
    next hopen =>
      rcases bind_eq_error_iff.mp h with hitems | ⟨_, -, hpure⟩
      · exact ⟨item, rest, more, next, hvalue, ht, hnext, head?_ne hopen, hitems⟩
      · cases hpure
  next => exact absurd (Except.error.inj h).symm hfault

/-- Fields fail in the first value or in those after it. -/
theorem cause_of_fields {found : Fields} (h : tableFields found room s = .error fault)
    (hfault : fault ≠ .malformed) :
    ∃ k rest u, key s = .ok (k, rest) ∧ afterEquals rest = .ok u ∧
      (value room u = .error fault ∨
        ∃ v after more found', value room u = .ok (v, after) ∧
          found.insertDotted 0 v k = .ok found' ∧ skipSpaces after = ',' :: more ∧
          tableFields found' room (skipSpaces more) = .error fault) := by
  rw [tableFields_eq, fieldsWith] at h
  rcases bind_eq_error_iff.mp h with hkey | ⟨⟨k, rest⟩, hkey, h⟩
  · exact absurd ((scans_key s).harmless fault hkey) hfault
  rcases bind_eq_error_iff.mp h with hequals | ⟨u, hequals, h⟩
  · exact absurd ((scans_afterEquals rest).harmless fault hequals) hfault
  refine ⟨k, rest, u, hkey, hequals, ?_⟩
  rcases bind_eq_error_iff.mp h with hvalue | ⟨⟨v, after⟩, hvalue, h⟩
  · exact .inl hvalue
  right
  rcases bind_eq_error_iff.mp h with hfound | ⟨found', hfound, h⟩
  · exact absurd (harmless_insertDotted 0 v k found fault hfound) hfault
  split at h
  next => cases h
  next more hcomma => exact ⟨v, after, more, found', hvalue, hfound, hcomma, h⟩
  next => exact absurd (Except.error.inj h).symm hfault

theorem comma_suffix_of_item {rest more : List Char} {item : Value}
    (hitem : value room s = .ok (item, rest)) (hcomma : skipFiller rest = .ok (',' :: more)) :
    ',' :: more <:+ s :=
  ((scans_skipFiller rest).of_ok hcomma).trans ((leaves_value room s).of_ok hitem)

theorem value_suffix_of_key {rest u : List Char} {k : List String}
    (hkey : key s = .ok (k, rest)) (hequals : afterEquals rest = .ok u) : u <:+ s :=
  ((scans_afterEquals rest).of_ok hequals).trans ((scans_key s).of_ok hkey)

theorem comma_suffix_of_field {after more : List Char} {v : Value}
    (hvalue : value room s = .ok (v, after)) (hcomma : skipSpaces after = ',' :: more) :
    ',' :: more <:+ s :=
  hcomma ▸ (skipSpaces_suffix after).trans ((leaves_value room s).of_ok hvalue)

/-- What is expected at a shorter text weighs less, and a value less than what starts with
it. -/
def Expected.weight : Expected → List Char → Nat
  | .value, s => 2 * s.length
  | _, s => 2 * s.length + 1

/-- One step towards the place where a reader fails: it is there, or another reader that has
less to read fails with the same fault. -/
theorem exists_nearer_of_failsWith (h : FailsWith expected room s fault)
    (hfault : fault ≠ .malformed) :
    (expected = .value ∧ Stuck room s) ∨
      ∃ expected' room' s', expected'.weight s' < expected.weight s ∧
        FailsWith expected' room' s' fault ∧
        ∀ left t, Comes expected' room' s' left t → Comes expected room s left t := by
  cases expected with
  | value =>
    rcases cause_of_value h hfault with hstuck | ⟨inner, rest, u, rfl, rfl, hu, hopen, hitems⟩ |
      ⟨inner, rest, rfl, rfl, hopen, hfields⟩
    · exact .inl ⟨rfl, hstuck⟩
    · refine .inr ⟨.items, inner, u, ?_, hitems, fun _ _ => .array hu hopen⟩
      have hlength : u.length ≤ rest.length := ((scans_skipFiller rest).of_ok hu).length_le
      simp only [Expected.weight, List.length_cons]
      omega
    · refine .inr ⟨.fields .nil, inner, skipSpaces rest, ?_, hfields, fun _ _ => .table hopen⟩
      have hlength := (skipSpaces_suffix rest).length_le
      simp only [Expected.weight, List.length_cons]
      omega
  | items =>
    right
    rcases cause_of_items h hfault with hvalue |
      ⟨item, rest, more, next, hitem, hcomma, hnext, hopen, hitems⟩
    · exact ⟨.value, room, s, Nat.lt_succ_self _, hvalue, fun _ _ => .item⟩
    · refine ⟨.items, room, next, ?_, hitems, fun _ _ => .laterItem hitem hcomma hnext hopen⟩
      have hmore := (comma_suffix_of_item hitem hcomma).length_le
      have hlength : next.length ≤ more.length := ((scans_skipFiller more).of_ok hnext).length_le
      simp only [Expected.weight, List.length_cons] at hmore ⊢
      omega
  | fields found =>
    right
    obtain ⟨k, rest, u, hkey, hequals, hcause⟩ := cause_of_fields h hfault
    have hu := (value_suffix_of_key hkey hequals).length_le
    rcases hcause with hvalue | ⟨v, after, more, found', hvalue, hfound, hcomma, hfields⟩
    · refine ⟨.value, room, u, ?_, hvalue, fun _ _ => .field hkey hequals⟩
      simp only [Expected.weight]
      omega
    · refine ⟨.fields found', room, skipSpaces more, ?_, hfields,
        fun _ _ => .laterField hkey hequals hvalue hfound hcomma⟩
      have hmore := (comma_suffix_of_field hvalue hcomma).length_le
      have hlength := (skipSpaces_suffix more).length_le
      simp only [Expected.weight, List.length_cons] at hmore ⊢
      omega

/-- **A reader that fails comes to the place where it does**, unless the text is malformed. -/
theorem exists_comes_of_failsWith (h : FailsWith expected room s fault)
    (hfault : fault ≠ .malformed) :
    ∃ left t, Comes expected room s left t ∧ Stuck left t ∧ value left t = .error fault := by
  obtain ⟨n, hn⟩ : ∃ n, expected.weight s < n := ⟨_, Nat.lt_succ_self _⟩
  induction n generalizing expected room s with
  | zero => omega
  | succ n ih =>
    rcases exists_nearer_of_failsWith h hfault with
      ⟨rfl, hstuck⟩ | ⟨expected', room', s', hless, hfails, hcomes⟩
    · exact ⟨room, s, .here, hstuck, h⟩
    · obtain ⟨left, t, hplace, ht⟩ := ih hfails (by omega)
      exact ⟨left, t, hcomes left t hplace, ht⟩

/-- A reader that is stuck finds more than a malformed text. -/
theorem Stuck.exists_error (h : Stuck room s) :
    ∃ fault, value room s = .error fault ∧ fault ≠ .malformed := by
  by_cases hroom : taken s ≤ room
  · have hlong : LongNumber s := h.resolve_left (Nat.not_lt_of_le hroom)
    obtain ⟨numeral, hscalar⟩ := exists_scalar_tooLong_iff.mpr hlong
    refine ⟨.tooLong numeral, ?_, by simp⟩
    have hdescend : descend room s = .ok (room - taken s) := if_pos hroom
    rw [value_eq, valueWith, hdescend]
    obtain ⟨c, more, rfl, hc, -⟩ := hlong.start
    simp only [bind, Except.bind]
    -- neither a sign nor a digit opens an array or a table
    split
    next heq =>
      cases heq
      exact absurd hc (by decide)
    next heq =>
      cases heq
      exact absurd hc (by decide)
    next => exact hscalar
  · have hdescend : descend room s = .error .tooDeep := if_neg hroom
    refine ⟨.tooDeep, ?_, by simp⟩
    rw [value_eq, valueWith, hdescend]
    rfl

end Places

/-! ### Statements -/

section Statements

variable {room : Nat} {d : Draft} {s t : List Char} {fault : Fault}

theorem scans_headerKey (closing s : List Char) : Scans s Prod.snd (headerKey closing s) := by
  rw [headerKey]
  refine Reads.mono (Reads.bind (scans_key _) fun ⟨k, rest⟩ => ?_) (skipSpaces_suffix s)
  dsimp only
  split
  next last rest' hlast hafter => exact suffix_of_after? hafter
  next => rfl

theorem leaves_statement (room : Nat) (d : Draft) (s : List Char) :
    Leaves s Prod.snd (statement room d s) := by
  unfold statement
  split
  next rest =>
    refine Reads.mono (Reads.bind (scans_headerKey _ rest).leaves fun ⟨⟨path, last⟩, rest⟩ => ?_)
      (List.suffix_append ['[', '['] rest)
    exact (harmless_within (harmless_appendItem last) path d.fields).bind_reads trivial
      fun _ => List.suffix_rfl
  next rest hrest =>
    refine Reads.mono (Reads.bind (scans_headerKey _ rest).leaves fun ⟨⟨path, last⟩, rest⟩ => ?_)
      (List.suffix_cons _ _)
    exact (harmless_within (harmless_openField last) path d.fields).bind_reads trivial
      fun _ => List.suffix_rfl
  next => exact List.suffix_rfl
  next =>
    refine Reads.bind (scans_key _).leaves fun ⟨k, rest⟩ => ?_
    refine Reads.bind (scans_afterEquals rest).leaves fun t => ?_
    refine Reads.bind (leaves_value room t) fun ⟨v, rest⟩ => ?_
    exact (harmless_within (harmless_insertDotted _ v k) d.header d.fields).bind_reads trivial
      fun _ => List.suffix_rfl

/-- Statements are read alike if those after the first line are: a line end stands between. -/
theorem statementsWith_congr {next next' : Draft → List Char → Except Fault Draft}
    (hnext : ∀ d t, t.length < s.length → next d t = next' d t) :
    statementsWith room next d s = statementsWith room next' d s := by
  have hspaces := (skipSpaces_suffix s).length_le
  unfold statementsWith
  split
  next => rfl
  next rest hrest =>
    rw [hrest, List.length_cons] at hspaces
    exact hnext d rest (by omega)
  next =>
    refine Reads.bind_congr (leaves_statement room d _) fun ⟨d, rest⟩ hrest => ?_
    refine Reads.bind_congr (scans_skipComment _) fun t ht => ?_
    have hlength := (List.IsSuffix.trans ht (skipSpaces_suffix rest)).length_le
    have hrest' : rest.length ≤ (skipSpaces s).length := hrest.length_le
    split
    next => rfl
    next more =>
      simp only [id, List.length_cons] at hlength
      exact hnext d more (by omega)
    next => rfl

/-- **A step for every character is enough.** -/
theorem statementsUpto_stable {fuel fuel' : Nat} (h : s.length < fuel) (h' : s.length < fuel') :
    statementsUpto room fuel d s = statementsUpto room fuel' d s := by
  induction fuel generalizing fuel' d s with
  | zero => omega
  | succ fuel ih =>
    obtain _ | fuel' := fuel'
    · omega
    exact statementsWith_congr fun d t ht => ih (by omega) (by omega)

theorem statements_eq (room : Nat) (d : Draft) (s : List Char) :
    statements room d s = statementsWith room (statements room) d s :=
  statementsWith_congr fun _ _ ht => statementsUpto_stable ht (Nat.lt_succ_self _)

/-- Statements up to the one whose value is due at `t`. What is read before is in order. -/
inductive Awaits (room : Nat) : Draft → List Char → List Char → Prop where
  | here {d : Draft} {s rest t : List Char} {k : List String}
      (hkey : key (skipSpaces s) = .ok (k, rest)) (hequals : afterEquals rest = .ok t) :
      Awaits room d s t
  | blank {d : Draft} {s rest t : List Char} (hs : skipSpaces s = '\n' :: rest)
      (h : Awaits room d rest t) : Awaits room d s t
  | later {d d' : Draft} {s rest more t : List Char}
      (hstatement : statement room d (skipSpaces s) = .ok (d', rest))
      (hline : skipComment (skipSpaces rest) = .ok ('\n' :: more))
      (h : Awaits room d' more t) : Awaits room d s t

/-- A key starts with one of its characters or with a quote. -/
theorem exists_start_of_key {a : List String × List Char} (h : key s = .ok a) :
    ∃ c more, s = c :: more ∧ (isBare c = true ∨ c = '"' ∨ c = '\'') := by
  obtain ⟨part, hpart, -⟩ := bind_eq_ok_iff.mp h
  cases s with
  | nil => cases hpart
  | cons c more =>
    refine ⟨c, more, rfl, ?_⟩
    by_contra hc
    rw [not_or, not_or] at hc
    rw [keyPart, if_neg hc.1, if_neg hc.2.1, if_neg hc.2.2] at hpart
    cases hpart

theorem statement_of_key {rest : List Char} {k : List String} (hkey : key s = .ok (k, rest))
    (hequals : afterEquals rest = .ok t) (hvalue : value room t = .error fault) :
    statement room d s = .error fault := by
  obtain ⟨c, more, rfl, hc⟩ := exists_start_of_key hkey
  unfold statement
  split
  next heq =>
    cases heq
    exact absurd hc (by decide)
  next heq =>
    cases heq
    exact absurd hc (by decide)
  next heq =>
    cases heq
    exact absurd hc (by decide)
  next => simp only [hkey, hequals, hvalue, bind, Except.bind]

/-- A statement does not start with the end of its line. -/
theorem ne_of_statement {a : Draft × List Char} (h : statement room d s = .ok a) :
    s ≠ [] ∧ ∀ rest, s ≠ '\n' :: rest := by
  constructor
  · rintro rfl
    obtain ⟨read, hkey, -⟩ := bind_eq_ok_iff.mp h
    obtain ⟨c, more, heq, -⟩ := exists_start_of_key hkey
    cases heq
  · rintro rest rfl
    obtain ⟨read, hkey, -⟩ := bind_eq_ok_iff.mp h
    obtain ⟨c, more, heq, hc⟩ := exists_start_of_key hkey
    cases heq
    exact absurd hc (by decide)

/-- **A fault in the value that is due is the fault of the statements.** -/
theorem Awaits.fails (h : Awaits room d s t) (hfault : value room t = .error fault) :
    statements room d s = .error fault := by
  induction h with
  | @here d s rest t k hkey hequals =>
    have hstatement : statement room d (skipSpaces s) = .error fault :=
      statement_of_key hkey hequals hfault
    obtain ⟨c, more, hs, hc⟩ := exists_start_of_key hkey
    rw [statements_eq, statementsWith]
    split
    next hnil => simp [hnil] at hs
    next hline =>
      rw [hline] at hs
      cases hs
      exact absurd hc (by decide)
    next =>
      rw [hstatement]
      rfl
  | blank hs _ ih =>
    rw [statements_eq, statementsWith, hs]
    exact ih hfault
  | @later d d' s rest more t hstatement hline _ ih =>
    obtain ⟨hnil, hbreak⟩ := ne_of_statement hstatement
    rw [statements_eq, statementsWith]
    split
    next heq => exact absurd heq hnil
    next heq => exact absurd heq (hbreak _)
    next =>
      rw [hstatement]
      simp only [hline, bind, Except.bind]
      exact ih hfault

theorem harmless_header {change : List String → String → Fields → Except Fault Fields}
    (hchange : ∀ path last, Harmless (change path last d.fields)) (closing s : List Char) :
    Harmless (do
      let ((path, last), rest) ← headerKey closing s
      let fields ← change path last d.fields
      return (d.under path last fields, rest)) :=
  (scans_headerKey closing s).harmless.bind fun ((path, last), _) =>
    (hchange path last).bind fun _ => harmless_ok _

/-- A statement fails in its value. -/
theorem cause_of_statement (h : statement room d s = .error fault) (hfault : fault ≠ .malformed) :
    ∃ k rest t, key s = .ok (k, rest) ∧ afterEquals rest = .ok t ∧
      value room t = .error fault := by
  unfold statement at h
  split at h
  next =>
    have hheader := harmless_header (d := d) (fun path last =>
      harmless_within (harmless_appendItem last) path d.fields) _ _ fault h
    exact absurd hheader hfault
  next =>
    have hheader := harmless_header (d := d) (fun path last =>
      harmless_within (harmless_openField last) path d.fields) _ _ fault h
    exact absurd hheader hfault
  next => cases h
  next =>
    rcases bind_eq_error_iff.mp h with hkey | ⟨⟨k, rest⟩, hkey, h⟩
    · exact absurd ((scans_key _).harmless fault hkey) hfault
    rcases bind_eq_error_iff.mp h with hequals | ⟨t, hequals, h⟩
    · exact absurd ((scans_afterEquals rest).harmless fault hequals) hfault
    rcases bind_eq_error_iff.mp h with hvalue | ⟨⟨v, left⟩, -, h⟩
    · exact ⟨k, rest, t, hkey, hequals, hvalue⟩
    rcases bind_eq_error_iff.mp h with hfields | ⟨_, -, hpure⟩
    · have hharmless := harmless_within (harmless_insertDotted d.number v k) d.header d.fields
      exact absurd (hharmless fault hfields) hfault
    · cases hpure

/-- **Statements that fail come to the value that does**, unless the text is malformed. -/
theorem exists_awaits_of_error {fuel : Nat} (h : statementsUpto room fuel d s = .error fault)
    (hfault : fault ≠ .malformed) : ∃ t, Awaits room d s t ∧ value room t = .error fault := by
  induction fuel generalizing d s with
  | zero => exact absurd (Except.error.inj h).symm hfault
  | succ fuel ih =>
    rw [statementsUpto, statementsWith] at h
    split at h
    next => cases h
    next rest hs =>
      obtain ⟨t, ht, hvalue⟩ := ih h
      exact ⟨t, .blank hs ht, hvalue⟩
    next =>
      rcases bind_eq_error_iff.mp h with hstatement | ⟨⟨d', rest⟩, hstatement, h⟩
      · obtain ⟨k, rest, t, hkey, hequals, hvalue⟩ := cause_of_statement hstatement hfault
        exact ⟨t, .here hkey hequals, hvalue⟩
      rcases bind_eq_error_iff.mp h with hcomment | ⟨u, hu, h⟩
      · exact absurd ((scans_skipComment _).harmless fault hcomment) hfault
      split at h
      next => cases h
      next more =>
        obtain ⟨t, ht, hvalue⟩ := ih h
        exact ⟨t, .later hstatement hu ht, hvalue⟩
      next => exact absurd (Except.error.inj h).symm hfault

/-- A text is refused with so much room: where a value is due in it, there is no room for it,
or a number with too many digits stands there. -/
def Refused (room : Nat) (s : List Char) : Prop :=
  ∃ t left u, Awaits room {} s t ∧ Comes .value room t left u ∧ Stuck left u

/-- **The texts that are refused are told by what stands in them.** -/
theorem exists_parse_error_iff :
    (∃ fault, parse room s = .error fault ∧ fault ≠ .malformed) ↔ Refused room s := by
  constructor
  · rintro ⟨fault, hparse, hfault⟩
    rcases bind_eq_error_iff.mp hparse with hstatements | ⟨_, -, hpure⟩
    · obtain ⟨t, ht, hvalue⟩ := exists_awaits_of_error hstatements hfault
      have hvalue : FailsWith .value room t fault := hvalue
      obtain ⟨left, u, hu, hstuck, -⟩ := exists_comes_of_failsWith hvalue hfault
      exact ⟨t, left, u, ht, hu, hstuck⟩
    · cases hpure
  · rintro ⟨t, left, u, ht, hu, hstuck⟩
    obtain ⟨fault, hvalue, hfault⟩ := hstuck.exists_error
    have hstatements : statements room {} s = .error fault := ht.fails (hu.fails hvalue)
    refine ⟨fault, ?_, hfault⟩
    rw [parse, hstatements]
    rfl

end Statements

/-! ### What such a text shows -/

section Shown

variable {room left : Nat} {s t : List Char}

/-- The brackets that open a value with values in it. -/
def isOpening (c : Char) : Bool := c == '[' || c == '\x7b'

theorem Comes.suffix {expected : Expected} (h : Comes expected room s left t) : t <:+ s := by
  induction h with
  | here => exact List.suffix_rfl
  | array hs _ _ ih =>
    exact (ih.trans ((scans_skipFiller _).of_ok hs)).trans (List.suffix_cons _ _)
  | table _ _ ih => exact (ih.trans (skipSpaces_suffix _)).trans (List.suffix_cons _ _)
  | item _ ih => exact ih
  | laterItem hitem hcomma hnext _ _ ih =>
    exact ((ih.trans ((scans_skipFiller _).of_ok hnext)).trans (List.suffix_cons _ _)).trans
      (comma_suffix_of_item hitem hcomma)
  | field hkey hequals _ ih => exact ih.trans (value_suffix_of_key hkey hequals)
  | laterField hkey hequals hvalue _ hcomma _ ih =>
    exact (((ih.trans (skipSpaces_suffix _)).trans (List.suffix_cons _ _)).trans
      (comma_suffix_of_field hvalue hcomma)).trans (value_suffix_of_key hkey hequals)

theorem Awaits.suffix {d : Draft} (h : Awaits room d s t) : t <:+ s := by
  induction h with
  | here hkey hequals => exact (value_suffix_of_key hkey hequals).trans (skipSpaces_suffix _)
  | @blank _ s _ _ hs _ ih =>
    have hrest := skipSpaces_suffix s
    rw [hs] at hrest
    exact (ih.trans (List.suffix_cons _ _)).trans hrest
  | @later _ _ s rest more _ hstatement hline _ ih =>
    have hmore : '\n' :: more <:+ rest :=
      ((scans_skipComment _).of_ok hline).trans (skipSpaces_suffix rest)
    have hrest : rest <:+ s :=
      ((leaves_statement _ _ _).of_ok hstatement).trans (skipSpaces_suffix s)
    exact ((ih.trans (List.suffix_cons _ _)).trans hmore).trans hrest

/-- **No more of the room is taken than three for every opening bracket.** -/
theorem Comes.room_le {expected : Expected} (h : Comes expected room s left t) :
    room + 3 * t.countP isOpening ≤ left + 3 * s.countP isOpening := by
  have hle {u v : List Char} (huv : u <:+ v) : u.countP isOpening ≤ v.countP isOpening :=
    huv.sublist.countP_le
  induction h with
  | here => exact Nat.le_refl _
  | array hs _ _ ih =>
    have hcount := hle ((scans_skipFiller _).of_ok hs)
    rw [List.countP_cons_of_pos rfl]
    simp only [id] at hcount
    omega
  | @table _ _ rest _ _ _ ih =>
    have hcount := hle (skipSpaces_suffix rest)
    rw [List.countP_cons_of_pos rfl]
    omega
  | item _ ih => exact ih
  | @laterItem _ _ _ _ more next _ _ hitem hcomma hnext _ _ ih =>
    have hcount := hle ((((scans_skipFiller more).of_ok hnext).trans (List.suffix_cons _ _)).trans
      (comma_suffix_of_item hitem hcomma))
    simp only [id] at hcount
    omega
  | field hkey hequals _ ih =>
    have hcount := hle (value_suffix_of_key hkey hequals)
    omega
  | @laterField _ _ _ _ _ _ more _ _ _ _ _ hkey hequals hvalue _ hcomma _ ih =>
    have hcount := hle (((skipSpaces_suffix more).trans (List.suffix_cons _ _)).trans
      ((comma_suffix_of_field hvalue hcomma).trans (value_suffix_of_key hkey hequals)))
    omega

theorem le_of_lt_taken (h : room < taken s) : room ≤ 3 * s.countP isOpening := by
  unfold taken at h
  split at h
  next =>
    rw [List.countP_cons_of_pos rfl]
    omega
  next =>
    rw [List.countP_cons_of_pos rfl]
    omega
  next => omega

/-- **A text that is refused gives itself away**: a long run of digits stands in it, or there
are opening brackets enough to use up the room. -/
theorem Refused.shows (h : Refused room s) :
    (∃ run, run <:+: s ∧ LongNumeral run) ∨ room ≤ 3 * s.countP isOpening := by
  obtain ⟨t, left, u, ht, hu, hstuck⟩ := h
  have hus : u <:+ s := hu.suffix.trans ht.suffix
  rcases hstuck with hroom | hlong
  · right
    have hleft := le_of_lt_taken hroom
    have htaken := hu.room_le
    have hcount := ht.suffix.sublist.countP_le (p := isOpening)
    omega
  · obtain ⟨run, hrun, hnumeral⟩ := hlong.exists_infix
    exact .inl ⟨run, hrun.trans hus.isInfix, hnumeral⟩

end Shown

end Toml
end RenServer
