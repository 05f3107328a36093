import Mathlib.Data.List.Basic

/-!
# Loops whose counter wraps around

`for (i = 0; i < bound; i += step)` over an unsigned counter, with a body that emits one element
for each index from `i` up to the next step or the bound.

* `loop_blocks` — the first passes;
* `loop_fits` — a loop that emits every index once;
* `loop_wraps` — a loop whose counter wraps around first does not.
-/

set_option autoImplicit false

namespace WrappingLoop

variable {α : Type}

/-- The loop from `i` on, with what was emitted before; the counter is taken modulo `M`.  `none`
when the fuel runs out. -/
def loop (M bound step : Nat) (body : Nat → List α) : Nat → Nat → List α → Option (List α)
  | 0, _, _ => none
  | fuel + 1, i, out =>
    if i < bound then loop M bound step body fuel ((i + step) % M) (out ++ body i) else some out

/-- The elements of a pass; the last one is clipped. -/
def block (bound step : Nat) (f : Nat → α) (i : Nat) : List α :=
  (List.range (min step (bound - i))).map fun b => f (i + b)

/-- The passes up to the bound. -/
def passes (bound step : Nat) : Nat := (bound + step - 1) / step

variable {M bound step : Nat} {f : Nat → α} {body : Nat → List α}

theorem le_passes (bound : Nat) {step : Nat} (hstep : 0 < step) :
    bound ≤ passes bound step * step := by
  have hdiv := Nat.div_add_mod (bound + step - 1) step
  have hmod := Nat.mod_lt (bound + step - 1) hstep
  rw [passes, Nat.mul_comm]
  omega

theorem passes_le (bound step : Nat) : passes bound step * step ≤ bound + step - 1 :=
  Nat.div_mul_le_self _ _

theorem mul_lt_of_lt_passes {j : Nat} (h : j < passes bound step) : j * step < bound := by
  have hmul := Nat.mul_le_mul_right step (Nat.succ_le_of_lt h)
  have hle := passes_le bound step
  rw [Nat.succ_mul] at hmul
  have hstep : 0 < step := by
    by_contra hzero
    rw [Nat.eq_zero_of_not_pos hzero, passes, Nat.div_zero] at h
    omega
  omega

theorem append_block {m : Nat} (h : m ≤ bound) :
    (List.range m).map f ++ block bound step f m = (List.range (min (m + step) bound)).map f := by
  have hsplit : min (m + step) bound = m + min step (bound - m) := by omega
  rw [hsplit, List.range_add, List.map_append, List.map_map]
  rfl

theorem loop_fuel {fuel i : Nat} {out r : List α} (k : Nat)
    (h : loop M bound step body fuel i out = some r) :
    loop M bound step body (fuel + k) i out = some r := by
  induction fuel generalizing i out with
  | zero => cases h
  | succ fuel ih =>
    rw [Nat.succ_add]
    rw [loop] at h ⊢
    split
    · rename_i hi
      rw [if_pos hi] at h
      exact ih h
    · rename_i hi
      rwa [if_neg hi] at h

/-- The fuel does not show in what a loop emits. -/
theorem loop_unique {fuel fuel' i : Nat} {out r r' : List α}
    (h : loop M bound step body fuel i out = some r)
    (h' : loop M bound step body fuel' i out = some r') : r = r' := by
  have hmore := loop_fuel fuel' h
  rw [Nat.add_comm, loop_fuel fuel h'] at hmore
  exact Option.some.inj hmore.symm

/-- What was emitted stays. -/
theorem loop_extends {fuel i : Nat} {out r : List α}
    (h : loop M bound step body fuel i out = some r) : out <+: r := by
  induction fuel generalizing i out with
  | zero => cases h
  | succ fuel ih =>
    rw [loop] at h
    split at h
    · exact (List.prefix_append out (body i)).trans (ih h)
    · cases h
      exact List.prefix_rfl

/-- **After `j` passes every index before `j * step` has been emitted once, in order.** -/
theorem loop_blocks (hbound : bound ≤ M) {j : Nat} (hj : j ≤ passes bound step) (fuel : Nat) :
    loop M bound step (block bound step f) (fuel + j) 0 [] =
      loop M bound step (block bound step f) fuel (j * step % M)
        ((List.range (min (j * step) bound)).map f) := by
  induction j generalizing fuel with
  | zero =>
    rw [Nat.zero_mul, Nat.zero_mod, Nat.zero_min]
    rfl
  | succ j ih =>
    have hlt := mul_lt_of_lt_passes hj
    have hle := Nat.le_of_lt hlt
    have hpass := ih (Nat.le_of_succ_le hj) (fuel + 1)
    rw [Nat.min_eq_left hle, Nat.mod_eq_of_lt (Nat.lt_of_lt_of_le hlt hbound), loop, if_pos hlt,
      append_block hle, ← Nat.succ_mul] at hpass
    rw [← hpass, Nat.add_right_comm, Nat.add_assoc]

/-- **A loop whose counter does not wrap around emits every index once, in order.** -/
theorem loop_fits (hstep : 0 < step) (hbound : bound ≤ M) (h : passes bound step * step < M) :
    loop M bound step (block bound step f) (1 + passes bound step) 0 [] =
      some ((List.range bound).map f) := by
  have hle := le_passes bound hstep
  rw [loop_blocks hbound (Nat.le_refl _), Nat.mod_eq_of_lt h, Nat.min_eq_right hle, loop,
    if_neg (Nat.not_lt.2 hle)]

/-- **A loop whose counter wraps around has emitted too much, if it ends.** -/
theorem loop_wraps (hstep : 2 * step ≤ M) (hpos : 0 < step) (hbound : bound < M)
    (h : M ≤ passes bound step * step) {fuel : Nat} {r : List α}
    (hr : loop M bound step (block bound step f) fuel 0 [] = some r) : bound < r.length := by
  have hle := passes_le bound step
  have hge := le_passes bound hpos
  -- The counter comes back to an index before the bound.
  have hback : passes bound step * step % M < bound ∧
      passes bound step * step % M = passes bound step * step - M := by
    rw [Nat.mod_eq_sub_mod h, Nat.mod_eq_of_lt (by omega)]
    omega
  have hmore := loop_fuel (passes bound step + 1) hr
  rw [← Nat.add_assoc, Nat.add_right_comm, loop_blocks (Nat.le_of_lt hbound) (Nat.le_refl _),
    Nat.min_eq_right hge, loop, if_pos hback.1] at hmore
  have hlen := (loop_extends hmore).length_le
  rw [List.length_append, block, List.length_map, List.length_map, List.length_range,
    List.length_range] at hlen
  omega

end WrappingLoop
