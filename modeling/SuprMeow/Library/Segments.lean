import Mathlib.Data.List.Basic
import Mathlib.Tactic.Common

/-!
# The segments of a stream

A stream is cut at a separator into the segments that are already terminated and the one that is
not, which `List.splitOn` lists last.

* `terminated_append`, `unfinished_append` — reading on only needs the unfinished segment;
* `terminated_of_mem`, `unfinished_of_mem` — one separator at a time;
* `not_mem_unfinished` — the unfinished segment holds no separator;
* `splitLast_eq_some_iff` — the cut at the last separator.
-/

set_option autoImplicit false

namespace Segments

variable {α : Type*} [DecidableEq α] (sep : α)

/-- The segments that end in a separator, without it. -/
def terminated (xs : List α) : List (List α) := (xs.splitOn sep).dropLast

/-- What comes after the last separator. -/
def unfinished (xs : List α) : List α := (xs.splitOn sep).getLast (List.splitOn_ne_nil sep xs)

theorem splitOn_eq (xs : List α) :
    xs.splitOn sep = terminated sep xs ++ [unfinished sep xs] :=
  (List.dropLast_append_getLast _).symm

variable {sep}

theorem splitOn_eq_iff {xs : List α} {ls : List (List α)} {r : List α} :
    xs.splitOn sep = ls ++ [r] ↔ terminated sep xs = ls ∧ unfinished sep xs = r := by
  rw [splitOn_eq, List.append_singleton_inj]

/-! ## One separator at a time -/

theorem terminated_of_not_mem {xs : List α} (h : sep ∉ xs) : terminated sep xs = [] := by
  simp [terminated, List.splitOn_eq_singleton h]

theorem unfinished_of_not_mem {xs : List α} (h : sep ∉ xs) : unfinished sep xs = xs := by
  simp [unfinished, List.splitOn_eq_singleton h]

@[simp] theorem unfinished_nil : unfinished sep [] = [] := unfinished_of_not_mem List.not_mem_nil

section

variable {xs : List α} (ys : List α) (h : sep ∉ xs)

include h

theorem splitOn_of_mem :
    (xs ++ sep :: ys).splitOn sep = (xs :: terminated sep ys) ++ [unfinished sep ys] := by
  rw [List.splitOn_append_cons_self_of_not_mem h, splitOn_eq, List.cons_append]

theorem terminated_of_mem : terminated sep (xs ++ sep :: ys) = xs :: terminated sep ys :=
  (splitOn_eq_iff.1 (splitOn_of_mem ys h)).1

theorem unfinished_of_mem : unfinished sep (xs ++ sep :: ys) = unfinished sep ys :=
  (splitOn_eq_iff.1 (splitOn_of_mem ys h)).2

end

/-- Lists by their separators: none, or one after a segment. -/
theorem segments_induction (sep : α) {p : List α → Prop} (none : ∀ xs, sep ∉ xs → p xs)
    (some : ∀ xs ys, sep ∉ xs → p ys → p (xs ++ sep :: ys)) (xs : List α) : p xs := by
  by_cases h : sep ∈ xs
  · obtain ⟨as, bs, rfl, has⟩ := List.eq_append_cons_of_mem h
    exact some as bs has (segments_induction sep none some bs)
  · exact none xs h
termination_by xs.length
decreasing_by subst_vars; simp; omega

theorem not_mem_unfinished (xs : List α) : sep ∉ unfinished sep xs := by
  induction xs using segments_induction sep with
  | none xs h => rwa [unfinished_of_not_mem h]
  | some xs ys h ih => rwa [unfinished_of_mem ys h]

/-! ## Reading on -/

theorem splitOn_append (xs ys : List α) :
    (xs ++ ys).splitOn sep = terminated sep xs ++ (unfinished sep xs ++ ys).splitOn sep := by
  induction xs using segments_induction sep with
  | none xs h => rw [terminated_of_not_mem h, unfinished_of_not_mem h, List.nil_append]
  | some xs zs h ih =>
    rw [List.append_assoc, List.cons_append, List.splitOn_append_cons_self_of_not_mem h, ih,
      terminated_of_mem zs h, unfinished_of_mem zs h, List.cons_append]

theorem append_parts (xs ys : List α) :
    terminated sep (xs ++ ys) = terminated sep xs ++ terminated sep (unfinished sep xs ++ ys) ∧
      unfinished sep (xs ++ ys) = unfinished sep (unfinished sep xs ++ ys) := by
  apply splitOn_eq_iff.1
  rw [splitOn_append, splitOn_eq sep (unfinished sep xs ++ ys), List.append_assoc]

theorem terminated_append (xs ys : List α) :
    terminated sep (xs ++ ys) =
      terminated sep xs ++ terminated sep (unfinished sep xs ++ ys) :=
  (append_parts xs ys).1

theorem unfinished_append (xs ys : List α) :
    unfinished sep (xs ++ ys) = unfinished sep (unfinished sep xs ++ ys) :=
  (append_parts xs ys).2

/-! ## The last separator -/

/-- What comes before and behind the last separator. -/
def splitLast (sep : α) : List α → Option (List α × List α)
  | [] => none
  | x :: xs =>
    match splitLast sep xs with
    | some (as, bs) => some (x :: as, bs)
    | none => if x = sep then some ([], xs) else none

theorem splitLast_eq_none_iff {xs : List α} : splitLast sep xs = none ↔ sep ∉ xs := by
  induction xs with
  | nil => simp [splitLast]
  | cons x xs ih =>
    rw [splitLast, List.mem_cons, not_or]
    cases hs : splitLast sep xs with
    | some p =>
      have : ¬ sep ∉ xs := fun h => by rw [ih.2 h] at hs; cases hs
      exact iff_of_false (by simp) fun h => this h.2
    | none =>
      by_cases hx : x = sep
      · exact iff_of_false (by simp [hx]) fun h => h.1 hx.symm
      · exact iff_of_true (by simp [hx]) ⟨fun h => hx h.symm, ih.1 hs⟩

theorem splitLast_append {as bs : List α} (h : sep ∉ bs) :
    splitLast sep (as ++ sep :: bs) = some (as, bs) := by
  induction as with
  | nil => simp [splitLast, splitLast_eq_none_iff.2 h]
  | cons a as ih => rw [List.cons_append, splitLast, ih]

/-- **The cut at the last separator.** -/
theorem splitLast_eq_some_iff {xs as bs : List α} :
    splitLast sep xs = some (as, bs) ↔ xs = as ++ sep :: bs ∧ sep ∉ bs := by
  constructor
  · intro h
    induction xs generalizing as with
    | nil => cases h
    | cons x xs ih =>
      rw [splitLast] at h
      split at h
      · rename_i as' bs' hs
        cases h
        obtain ⟨rfl, hbs⟩ := ih hs
        exact ⟨rfl, hbs⟩
      · rename_i hs
        split at h
        · rename_i hx
          cases h
          exact ⟨by rw [hx]; rfl, splitLast_eq_none_iff.1 hs⟩
        · cases h
  · rintro ⟨rfl, h⟩
    exact splitLast_append h

end Segments
