import Mathlib.Data.List.Basic
import Mathlib.Tactic.Common
import Mathlib.Tactic.Positivity
import Mathlib.Tactic.Ring

/-!
# Strided arrays of four dimensions

An array has an extent and a stride in each dimension.  Its elements are numbered with the first
dimension running fastest.

* `dot_le_last` — an index within the extents stays within the span of the array;
* `dot_unravel` — in row-major strides the `e`-th element is at `ts * e`;
* `unravel_row` — the elements of one row.
-/

set_option autoImplicit false

namespace Strided

/-- Extents, strides or an index. -/
structure Dims where
  d0 : Nat
  d1 : Nat
  d2 : Nat
  d3 : Nat
  deriving DecidableEq

namespace Dims

def count (ne : Dims) : Nat := ne.d0 * ne.d1 * ne.d2 * ne.d3

/-- The number of rows, a row being a run of the first dimension. -/
def rows (ne : Dims) : Nat := ne.d1 * ne.d2 * ne.d3

/-- The index of the `e`-th element. -/
def unravel (ne : Dims) (e : Nat) : Dims :=
  ⟨e % ne.d0, e / ne.d0 % ne.d1, e / ne.d0 / ne.d1 % ne.d2, e / ne.d0 / ne.d1 / ne.d2⟩

/-- The distance of an index from the origin. -/
def dot (i nb : Dims) : Nat := i.d0 * nb.d0 + i.d1 * nb.d1 + i.d2 * nb.d2 + i.d3 * nb.d3

/-- The index in an array repeated along its dimensions. -/
def wrap (i ne : Dims) : Dims := ⟨i.d0 % ne.d0, i.d1 % ne.d1, i.d2 % ne.d2, i.d3 % ne.d3⟩

def Below (i ne : Dims) : Prop := i.d0 < ne.d0 ∧ i.d1 < ne.d1 ∧ i.d2 < ne.d2 ∧ i.d3 < ne.d3

/-- The distance of the last element. -/
def last (ne nb : Dims) : Nat :=
  (ne.d0 - 1) * nb.d0 + (ne.d1 - 1) * nb.d1 + (ne.d2 - 1) * nb.d2 + (ne.d3 - 1) * nb.d3

/-- Strides of consecutive elements of `ts` bytes; a dimension of one element has any stride. -/
structure RowMajor (ts : Nat) (ne nb : Dims) : Prop where
  d0 : ne.d0 ≠ 1 → nb.d0 = ts
  d1 : ne.d1 ≠ 1 → nb.d1 = ts * ne.d0
  d2 : ne.d2 ≠ 1 → nb.d2 = ts * (ne.d0 * ne.d1)
  d3 : ne.d3 ≠ 1 → nb.d3 = ts * (ne.d0 * ne.d1 * ne.d2)

variable {ne nb i : Dims} {e : Nat}

theorem count_eq (ne : Dims) : ne.count = ne.d0 * ne.rows := by
  simp only [count, rows, Nat.mul_assoc]

theorem pos_of_lt_count (h : e < ne.count) : 0 < ne.d0 ∧ 0 < ne.d1 ∧ 0 < ne.d2 ∧ 0 < ne.d3 := by
  have hpos : 0 < ne.d0 * ne.d1 * ne.d2 * ne.d3 := Nat.zero_lt_of_lt h
  simp only [Nat.pos_iff_ne_zero, ne_eq, Nat.mul_eq_zero] at hpos ⊢
  tauto

theorem unravel_below (h : e < ne.count) : (ne.unravel e).Below ne := by
  obtain ⟨h0, h1, h2, h3⟩ := pos_of_lt_count h
  refine ⟨Nat.mod_lt _ h0, Nat.mod_lt _ h1, Nat.mod_lt _ h2, ?_⟩
  simp only [unravel, Nat.div_div_eq_div_mul]
  rw [Nat.div_lt_iff_lt_mul (by positivity)]
  calc e < ne.d0 * ne.d1 * ne.d2 * ne.d3 := h
    _ = ne.d3 * (ne.d0 * ne.d1 * ne.d2) := Nat.mul_comm ..

/-- A wrapped index is within extents that are all positive. -/
theorem wrap_below {k : Dims} (h : k.Below ne) (i : Dims) : (i.wrap ne).Below ne :=
  ⟨Nat.mod_lt _ (Nat.zero_lt_of_lt h.1), Nat.mod_lt _ (Nat.zero_lt_of_lt h.2.1),
    Nat.mod_lt _ (Nat.zero_lt_of_lt h.2.2.1), Nat.mod_lt _ (Nat.zero_lt_of_lt h.2.2.2)⟩

theorem wrap_of_below (h : i.Below ne) : i.wrap ne = i := by
  obtain ⟨h0, h1, h2, h3⟩ := h
  simp only [wrap, Nat.mod_eq_of_lt, h0, h1, h2, h3]

theorem dot_le_last (h : i.Below ne) (nb : Dims) : i.dot nb ≤ ne.last nb := by
  obtain ⟨h0, h1, h2, h3⟩ := h
  have m0 := Nat.mul_le_mul_right nb.d0 (Nat.le_sub_one_of_lt h0)
  have m1 := Nat.mul_le_mul_right nb.d1 (Nat.le_sub_one_of_lt h1)
  have m2 := Nat.mul_le_mul_right nb.d2 (Nat.le_sub_one_of_lt h2)
  have m3 := Nat.mul_le_mul_right nb.d3 (Nat.le_sub_one_of_lt h3)
  unfold dot last
  omega

/-- In a dimension of one element the stride does not matter. -/
theorem term_eq {j n b c : Nat} (hj : j < n) (h : n ≠ 1 → b = c) : j * b = j * c := by
  by_cases hn : n = 1
  · obtain rfl : j = 0 := by omega
    simp
  · rw [h hn]

theorem RowMajor.dot_eq {ts : Nat} (h : RowMajor ts ne nb) (hi : i.Below ne) :
    i.dot nb = ts * (i.d0 + ne.d0 * (i.d1 + ne.d1 * (i.d2 + ne.d2 * i.d3))) := by
  unfold dot
  rw [term_eq hi.1 h.d0, term_eq hi.2.1 h.d1, term_eq hi.2.2.1 h.d2, term_eq hi.2.2.2 h.d3]
  ring

/-- **In row-major strides the elements follow one another.** -/
theorem RowMajor.dot_unravel {ts : Nat} (h : RowMajor ts ne nb) (he : e < ne.count) :
    (ne.unravel e).dot nb = ts * e := by
  rw [h.dot_eq (unravel_below he)]
  simp only [unravel, Nat.mod_add_div]

theorem RowMajor.last_eq {ts : Nat} (h : RowMajor ts ne nb) (hpos : 0 < ne.count) :
    ts + ne.last nb = ts * ne.count := by
  obtain ⟨h0, h1, h2, h3⟩ := pos_of_lt_count hpos
  have hi : (⟨ne.d0 - 1, ne.d1 - 1, ne.d2 - 1, ne.d3 - 1⟩ : Dims).Below ne :=
    ⟨Nat.sub_one_lt_of_lt h0, Nat.sub_one_lt_of_lt h1, Nat.sub_one_lt_of_lt h2,
      Nat.sub_one_lt_of_lt h3⟩
  have hlast : ne.last nb = (⟨ne.d0 - 1, ne.d1 - 1, ne.d2 - 1, ne.d3 - 1⟩ : Dims).dot nb := rfl
  obtain ⟨a, ha⟩ : ∃ a, ne.d0 = a + 1 := ⟨ne.d0 - 1, by omega⟩
  obtain ⟨b, hb⟩ : ∃ b, ne.d1 = b + 1 := ⟨ne.d1 - 1, by omega⟩
  obtain ⟨c, hc⟩ : ∃ c, ne.d2 = c + 1 := ⟨ne.d2 - 1, by omega⟩
  obtain ⟨d, hd⟩ : ∃ d, ne.d3 = d + 1 := ⟨ne.d3 - 1, by omega⟩
  rw [hlast, h.dot_eq hi]
  simp only [count, ha, hb, hc, hd, Nat.add_sub_cancel]
  ring

/-- **The elements of row `r`.** -/
theorem unravel_row {r c : Nat} (hc : c < ne.d0) :
    ne.unravel (ne.d0 * r + c) = ⟨c, r % ne.d1, r / ne.d1 % ne.d2, r / ne.d1 / ne.d2⟩ := by
  have hdiv : (ne.d0 * r + c) / ne.d0 = r := by
    rw [Nat.mul_add_div (Nat.zero_lt_of_lt hc), Nat.div_eq_of_lt hc, Nat.add_zero]
  have hmod : (ne.d0 * r + c) % ne.d0 = c := by
    rw [Nat.mul_add_mod, Nat.mod_eq_of_lt hc]
  simp only [unravel]
  rw [hdiv, hmod]

end Dims

end Strided
