import Mathlib.Algebra.Order.Field.Basic
import Mathlib.Tactic.Linarith

/-!
# Curves through knots

A curve that is constant before its first knot and from its last one on, and a straight line
between two neighbours.

* `chord_mem` — a line stays between the heights of its ends;
* `curve_monotone` — the curve of a rising chain of knots rises.
-/

set_option autoImplicit false

namespace PiecewiseLinear

variable {K : Type*}

structure Knot (K : Type*) where
  x : K
  y : K

/-- The line through two knots. -/
def chord [Field K] (lo hi : Knot K) (x : K) : K :=
  lo.y + (hi.y - lo.y) * (x - lo.x) / (hi.x - lo.x)

theorem chord_left [Field K] (lo hi : Knot K) : chord lo hi lo.x = lo.y := by
  unfold chord
  rw [sub_self, mul_zero, zero_div, add_zero]

section Curve

variable [Field K] [LinearOrder K]

/-- The curve from a knot on. -/
def curve : Knot K → List (Knot K) → K → K
  | lo, [], _ => lo.y
  | lo, hi :: rest, x =>
    if x ≤ lo.x then lo.y else if x ≤ hi.x then chord lo hi x else curve hi rest x

/-- The knots move to the right and upwards. -/
def Rising : Knot K → List (Knot K) → Prop
  | _, [] => True
  | lo, hi :: rest => lo.x < hi.x ∧ lo.y ≤ hi.y ∧ Rising hi rest

end Curve

section Ordered

variable [Field K] [LinearOrder K] [IsStrictOrderedRing K] {lo hi : Knot K} {x x' : K}

theorem chord_le_chord (hx : lo.x < hi.x) (hy : lo.y ≤ hi.y) (h : x ≤ x') :
    chord lo hi x ≤ chord lo hi x' := by
  have hwidth : 0 < hi.x - lo.x := sub_pos.2 hx
  have hrise : (hi.y - lo.y) * (x - lo.x) ≤ (hi.y - lo.y) * (x' - lo.x) :=
    mul_le_mul_of_nonneg_left (by linarith) (sub_nonneg.2 hy)
  have hdiv := div_le_div_of_nonneg_right hrise hwidth.le
  unfold chord
  linarith

theorem chord_right (hx : lo.x < hi.x) : chord lo hi hi.x = hi.y := by
  have hwidth : hi.x - lo.x ≠ 0 := (sub_pos.2 hx).ne'
  unfold chord
  rw [mul_div_assoc, div_self hwidth, mul_one, add_sub_cancel]

/-- A line stays between the heights of its ends. -/
theorem chord_mem (hx : lo.x < hi.x) (hy : lo.y ≤ hi.y) (h0 : lo.x ≤ x) (h1 : x ≤ hi.x) :
    lo.y ≤ chord lo hi x ∧ chord lo hi x ≤ hi.y := by
  have hleft := chord_le_chord hx hy h0
  have hright := chord_le_chord hx hy h1
  rw [chord_left] at hleft
  rw [chord_right hx] at hright
  exact ⟨hleft, hright⟩

/-- The curve is never below its first knot. -/
theorem le_curve {rest : List (Knot K)} (h : Rising lo rest) (x : K) : lo.y ≤ curve lo rest x := by
  induction rest generalizing lo with
  | nil => exact le_rfl
  | cons hi rest ih =>
    obtain ⟨hx, hy, hrest⟩ := h
    unfold curve
    split
    · exact le_rfl
    · rename_i h0
      split
      · rename_i h1
        exact (chord_mem hx hy (not_le.1 h0).le h1).1
      · exact hy.trans (ih hrest)

/-- **The curve of a rising chain rises.** -/
theorem curve_monotone {rest : List (Knot K)} (h : Rising lo rest) : Monotone (curve lo rest) := by
  intro x x' hle
  induction rest generalizing lo with
  | nil => exact le_rfl
  | cons hi rest ih =>
    have hlow := le_curve h x'
    obtain ⟨hx, hy, hrest⟩ := h
    unfold curve at hlow ⊢
    by_cases h0 : x ≤ lo.x
    · rw [if_pos h0]
      exact hlow
    · have h0' : ¬ x' ≤ lo.x := fun hn => h0 (hle.trans hn)
      rw [if_neg h0, if_neg h0']
      by_cases h1 : x' ≤ hi.x
      · rw [if_pos (hle.trans h1), if_pos h1]
        exact chord_le_chord hx hy hle
      · rw [if_neg h1]
        split
        · rename_i h2
          exact (chord_mem hx hy (not_le.1 h0).le h2).2.trans (le_curve hrest x')
        · exact ih hrest

end Ordered

end PiecewiseLinear
