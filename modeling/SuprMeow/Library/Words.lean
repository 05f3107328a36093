import Mathlib.Algebra.Order.Ring.Nat

/-!
# Unsigned machine words

Addition, subtraction and multiplication on words of `w` bits, as numbers below `2 ^ w`.

* `add_eq`, `sub_eq`, `mul_eq` — what they are where nothing wraps around.
-/

set_option autoImplicit false

namespace Word

def add (w a b : Nat) : Nat := (a + b) % 2 ^ w

def sub (w a b : Nat) : Nat := (2 ^ w - b + a) % 2 ^ w

def mul (w a b : Nat) : Nat := a * b % 2 ^ w

variable {w a b : Nat}

theorem add_eq (h : a + b < 2 ^ w) : add w a b = a + b := Nat.mod_eq_of_lt h

theorem mul_eq (h : a * b < 2 ^ w) : mul w a b = a * b := Nat.mod_eq_of_lt h

theorem sub_eq (hle : b ≤ a) (h : a < 2 ^ w) : sub w a b = a - b := by
  unfold sub
  have hsum : 2 ^ w - b + a = a - b + 2 ^ w := by omega
  rw [hsum, Nat.add_mod_right, Nat.mod_eq_of_lt (by omega)]

end Word
