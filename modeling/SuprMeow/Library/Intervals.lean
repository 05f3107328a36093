import Mathlib.Algebra.BigOperators.Group.Finset.Piecewise
import Mathlib.Algebra.BigOperators.Ring.Finset
import Mathlib.Algebra.Order.Ring.Nat
import Mathlib.Algebra.Order.Group.Int
import Mathlib.Tactic.Ring

/-!
# Intervals of positions

Two ways to count intervals in one pass: the most of equal length that do not overlap, taking each
as soon as it begins behind the last one taken, and how many contain a position, from an array of
differences.

* `le_greedy_iff` — no choice of starts is longer than the greedy one;
* `sum_mark` — an interval counts for the positions it contains.
-/

set_option autoImplicit false

namespace Intervals

/-! ## Intervals that do not overlap -/

/-- How many are taken, from `count` on, of the intervals of length `k` that begin at `next` or
behind it. -/
def greedy (k : Nat) : List Nat → Nat → Nat → Nat
  | [], count, _ => count
  | start :: rest, count, next =>
    if next ≤ start then greedy k rest (count + 1) (start + k) else greedy k rest count next

theorem greedy_add (k : Nat) (l : List Nat) (count next : Nat) :
    greedy k l count next = count + greedy k l 0 next := by
  induction l generalizing count next with
  | nil => rfl
  | cons start rest ih =>
    unfold greedy
    split
    · rw [ih (count + 1), ih (0 + 1)]
      omega
    · exact ih count next

/-- Starts behind `next`, so far apart that their intervals do not overlap. -/
structure Apart (k next : Nat) (s : List Nat) : Prop where
  spaced : s.Pairwise fun a b => a + k ≤ b
  behind : ∀ x ∈ s, next ≤ x

theorem Apart.cons {k next start : Nat} {s : List Nat} (h : Apart k (start + k) s)
    (hs : next ≤ start) : Apart k next (start :: s) := by
  constructor
  · exact List.pairwise_cons.2 ⟨h.behind, h.spaced⟩
  · rw [List.forall_mem_cons]
    exact ⟨hs, fun x hx => by have := h.behind x hx; omega⟩

theorem Apart.tail {k next start : Nat} {s : List Nat} (h : Apart k next (start :: s)) :
    Apart k (start + k) s :=
  ⟨(List.pairwise_cons.1 h.spaced).2, (List.pairwise_cons.1 h.spaced).1⟩

/-- **The greedy choice is a longest one.** -/
theorem le_greedy_iff {k : Nat} {l : List Nat} : ∀ {next m : Nat}, l.Pairwise (· < ·) →
    (m ≤ greedy k l 0 next ↔ ∃ s, s.Sublist l ∧ s.length = m ∧ Apart k next s) := by
  induction l with
  | nil =>
    intro next m _
    unfold greedy
    constructor
    · intro hm
      exact ⟨[], List.Sublist.refl _, (Nat.le_zero.1 hm).symm, List.Pairwise.nil, by simp⟩
    · rintro ⟨s, hs, rfl, -⟩
      rw [List.sublist_nil.1 hs]
      rfl
  | cons start rest ih =>
    intro next m hl
    obtain ⟨hstart, hrest⟩ := List.pairwise_cons.1 hl
    unfold greedy
    by_cases hnext : next ≤ start
    · rw [if_pos hnext, greedy_add]
      constructor
      · intro hm
        cases m with
        | zero => exact ⟨[], List.nil_sublist _, rfl, List.Pairwise.nil, by simp⟩
        | succ m =>
          obtain ⟨s, hs, hlen, hapart⟩ := (@ih (start + k) m hrest).1 (by omega)
          exact ⟨start :: s, hs.cons_cons _, congrArg Nat.succ hlen, hapart.cons hnext⟩
      · rintro ⟨s, hs, rfl, hapart⟩
        cases s with
        | nil => exact Nat.zero_le _
        | cons x s =>
          -- the first start of any choice is `start` or behind it
          have htail : s.Sublist rest ∧ start ≤ x := by
            rcases List.sublist_cons_iff.1 hs with hs | ⟨r, hr, hs⟩
            · exact ⟨(List.sublist_cons_self x s).trans hs,
                (hstart x (hs.subset List.mem_cons_self)).le⟩
            · obtain ⟨rfl, rfl⟩ := List.cons.inj hr
              exact ⟨hs, le_rfl⟩
          have hs' : Apart k (start + k) s :=
            ⟨hapart.tail.spaced, fun y hy => by have := hapart.tail.behind y hy; omega⟩
          have hle := (@ih (start + k) s.length hrest).2 ⟨s, htail.1, rfl, hs'⟩
          rw [List.length_cons]
          omega
    · rw [if_neg hnext, ih hrest]
      constructor
      · rintro ⟨s, hs, h⟩
        exact ⟨s, hs.cons _, h⟩
      · rintro ⟨s, hs, hlen, hapart⟩
        refine ⟨s, ?_, hlen, hapart⟩
        rcases List.sublist_cons_iff.1 hs with hs | ⟨r, rfl, hs⟩
        · exact hs
        · exact absurd (hapart.behind start List.mem_cons_self) hnext

/-! ## Differences -/

/-- One more at `low`, one less behind `high`. -/
def mark (delta : Nat → Int) (low high : Nat) : Nat → Int :=
  let delta := Function.update delta low (delta low + 1)
  Function.update delta (high + 1) (delta (high + 1) - 1)

theorem sum_update (delta : Nat → Int) (i : Nat) (x : Int) (n : Nat) :
    ∑ j ∈ Finset.range n, Function.update delta i (delta i + x) j =
      ∑ j ∈ Finset.range n, delta j + if i < n then x else 0 := by
  by_cases hi : i < n
  · have hmem := Finset.mem_range.2 hi
    rw [Finset.sum_update_of_mem hmem, if_pos hi,
      Finset.sum_eq_add_sum_sdiff_singleton_of_mem hmem delta]
    ring
  · rw [if_neg hi, add_zero]
    refine Finset.sum_congr rfl fun j hj => Function.update_of_ne ?_ _ _
    rintro rfl
    exact hi (Finset.mem_range.1 hj)

/-- **An interval counts for the positions it contains.** -/
theorem sum_mark (delta : Nat → Int) {low high : Nat} (h : low ≤ high) (s : Nat) :
    ∑ j ∈ Finset.range (s + 1), mark delta low high j =
      ∑ j ∈ Finset.range (s + 1), delta j + if low ≤ s ∧ s ≤ high then 1 else 0 := by
  unfold mark
  rw [sub_eq_add_neg, sum_update, sum_update]
  by_cases hlow : low ≤ s
  · by_cases hhigh : s ≤ high
    · rw [if_pos (by omega), if_neg (by omega), if_pos ⟨hlow, hhigh⟩, add_zero]
    · rw [if_pos (by omega), if_pos (by omega), if_neg fun hn => hhigh hn.2]
      ring
  · rw [if_neg (by omega), if_neg (by omega), if_neg fun hn => hlow hn.1, add_zero]

end Intervals
