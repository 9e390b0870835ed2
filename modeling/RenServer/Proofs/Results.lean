/- # Results and the first fault

A computation gives a result or a fault. A list of them gives all results, or the fault of
the first that has one.

Key theorems: `bind_eq_ok_iff`, `bind_eq_error_iff`, `mapM_cases`, `mapM_eq_ok_iff`,
`mapM_eq_error_iff`.
-/
import Mathlib.Data.List.Forall2

namespace RenServer

variable {α β ε : Type} {f : α → Except ε β}

/-- Results are collected if all are there; otherwise a fault of one of them is that of
the whole. -/
theorem mapM_cases (f : α → Except ε β) (l : List α) :
    (∃ ys, l.mapM f = .ok ys ∧ l.map f = ys.map .ok) ∨
      ∃ a ∈ l, ∃ e, f a = .error e ∧ l.mapM f = .error e := by
  induction l with
  | nil => exact .inl ⟨[], rfl, rfl⟩
  | cons a l ih =>
    cases ha : f a with
    | error e =>
      refine .inr ⟨a, List.mem_cons_self, e, ha, ?_⟩
      rw [List.mapM_cons, ha]
      rfl
    | ok y =>
      rcases ih with ⟨ys, hys, hmap⟩ | ⟨b, hb, e, he, herr⟩
      · refine .inl ⟨y :: ys, ?_, by rw [List.map_cons, ha, hmap, List.map_cons]⟩
        rw [List.mapM_cons, ha, hys]
        rfl
      · refine .inr ⟨b, List.mem_cons_of_mem a hb, e, he, ?_⟩
        rw [List.mapM_cons, ha, herr]
        rfl

theorem filterMap_toOption {l : List α} {ys : List β} (h : l.map f = ys.map .ok) :
    l.filterMap (fun a => (f a).toOption) = ys := by
  have hcomp : l.filterMap (fun a => (f a).toOption) = (l.map f).filterMap Except.toOption := by
    rw [List.filterMap_map]
    rfl
  rw [hcomp, h, List.filterMap_map]
  exact List.filterMap_some

theorem exists_ok_of_mem {l : List α} {ys : List β} (h : l.map f = ys.map .ok) {a : α}
    (ha : a ∈ l) : ∃ y ∈ ys, f a = .ok y := by
  have hm : f a ∈ ys.map .ok := h ▸ List.mem_map_of_mem ha
  obtain ⟨y, hy, heq⟩ := List.mem_map.mp hm
  exact ⟨y, hy, heq.symm⟩

theorem exists_of_mem_results {l : List α} {ys : List β} (h : l.map f = ys.map .ok) {y : β}
    (hy : y ∈ ys) : ∃ a ∈ l, f a = .ok y := by
  have hm : .ok y ∈ l.map f := h ▸ List.mem_map_of_mem hy
  exact List.mem_map.mp hm

theorem bind_eq_ok_iff {x : Except ε α} {y : β} :
    x >>= f = .ok y ↔ ∃ a, x = .ok a ∧ f a = .ok y := by
  cases x with
  | error e => simp [bind, Except.bind]
  | ok a => simp [bind, Except.bind]

theorem bind_eq_error_iff {x : Except ε α} {e : ε} :
    x >>= f = .error e ↔ x = .error e ∨ ∃ a, x = .ok a ∧ f a = .error e := by
  cases x with
  | error e => simp [bind, Except.bind]
  | ok a => simp [bind, Except.bind]

theorem mapM_eq_ok_iff {l : List α} {ys : List β} :
    l.mapM f = .ok ys ↔ List.Forall₂ (fun a y => f a = .ok y) l ys := by
  induction l generalizing ys with
  | nil =>
    rw [List.forall₂_nil_left_iff, List.mapM_nil]
    exact ⟨fun h => by cases h; rfl, fun h => by rw [h]; rfl⟩
  | cons a l ih =>
    rw [List.mapM_cons, bind_eq_ok_iff, List.forall₂_cons_left_iff]
    constructor
    · rintro ⟨y, hy, h⟩
      obtain ⟨zs, hzs, heq⟩ := bind_eq_ok_iff.mp h
      cases heq
      exact ⟨y, zs, hy, ih.mp hzs, rfl⟩
    · rintro ⟨y, zs, hy, hzs, rfl⟩
      exact ⟨y, hy, bind_eq_ok_iff.mpr ⟨zs, ih.mpr hzs, rfl⟩⟩

/-- The fault of a list is that of its first element with one. -/
theorem mapM_eq_error_iff {l : List α} {e : ε} :
    l.mapM f = .error e ↔ ∃ before a after, l = before ++ a :: after ∧
      (∀ b ∈ before, ∃ y, f b = .ok y) ∧ f a = .error e := by
  induction l with
  | nil => simp [pure, Except.pure]
  | cons x l ih =>
    rw [List.mapM_cons, bind_eq_error_iff]
    constructor
    · rintro (hx | ⟨y, hy, h⟩)
      · exact ⟨[], x, l, rfl, by simp, hx⟩
      · rcases bind_eq_error_iff.mp h with hl | ⟨_, -, hpure⟩
        · obtain ⟨before, a, after, rfl, hok, ha⟩ := ih.mp hl
          exact ⟨x :: before, a, after, rfl, List.forall_mem_cons.mpr ⟨⟨y, hy⟩, hok⟩, ha⟩
        · cases hpure
    · rintro ⟨before, a, after, hl, hok, ha⟩
      cases before with
      | nil =>
        obtain ⟨rfl, rfl⟩ := List.cons.inj hl
        exact .inl ha
      | cons b before =>
        obtain ⟨rfl, rfl⟩ := List.cons.inj hl
        obtain ⟨⟨y, hy⟩, hrest⟩ := List.forall_mem_cons.mp hok
        exact .inr ⟨y, hy, bind_eq_error_iff.mpr (.inl (ih.mpr ⟨before, a, after, rfl, hrest, ha⟩))⟩

theorem exists_mapM_eq_error_iff {l : List α} :
    (∃ e, l.mapM f = .error e) ↔ ∃ a ∈ l, ∃ e, f a = .error e := by
  rcases mapM_cases f l with ⟨ys, hys, hmap⟩ | ⟨a, ha, e, he, herr⟩
  · constructor
    · rintro ⟨e, h⟩
      rw [hys] at h
      cases h
    · rintro ⟨a, ha, e, he⟩
      obtain ⟨y, -, hy⟩ := exists_ok_of_mem hmap ha
      rw [he] at hy
      cases hy
  · exact ⟨fun _ => ⟨a, ha, e, he⟩, fun _ => ⟨e, herr⟩⟩

theorem map_eq_ok_iff {x : Except ε α} {g : α → β} {y : β} :
    x.map g = .ok y ↔ ∃ a, x = .ok a ∧ g a = y := by
  cases x with
  | error e => simp [Except.map]
  | ok a => simp [Except.map]

theorem map_eq_error_iff {x : Except ε α} {g : α → β} {e : ε} :
    x.map g = .error e ↔ x = .error e := by
  cases x with
  | error e => simp [Except.map]
  | ok a => simp [Except.map]

end RenServer
