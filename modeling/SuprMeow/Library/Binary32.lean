import Mathlib.Data.BitVec
import Mathlib.Data.Rat.Defs
import Mathlib.Order.Monotone.Basic
import Mathlib.Tactic.Ring
import Mathlib.Tactic.IntervalCases

/-!
# Binary32 bit patterns and the value order

A single-precision number is its 32-bit interchange pattern: sign, 8 exponent bits, 23
fraction bits.  `scaled` is the value times `2 ^ 149`, an integer for every finite pattern;
the infinities continue the formula (exponent field 255), which puts them above and below
every finite value.

* `magnitude_strictMono` — the low 31 bits, read as a number, order the magnitudes;
* `gt`, `eq` — the IEEE comparisons (no NaN compares, the two zeros are equal);
* `descending_lt_iff`, `descending_eq_iff` — one unsigned number per pattern, in the opposite
  order of the values.

The last section reads masks and shifts of a word as arithmetic.
-/

set_option autoImplicit false

namespace Binary32

/-- A single-precision pattern. -/
abbrev Pattern := BitVec 32

def exponent (u : Pattern) : Nat := u.toNat / 2 ^ 23 % 2 ^ 8
def fraction (u : Pattern) : Nat := u.toNat % 2 ^ 23

def isNaN (u : Pattern) : Bool := decide (exponent u = 255 ∧ fraction u ≠ 0)
def isFinite (u : Pattern) : Bool := decide (exponent u ≠ 255)

theorem isNaN_eq (u : Pattern) : isNaN u = decide (0x7f800000 < u.toNat % 2 ^ 31) := by
  have hu := u.isLt
  rw [isNaN, decide_eq_decide, exponent, fraction]
  omega

theorem isNaN_of_isFinite {u : Pattern} (h : isFinite u = true) : isNaN u = false := by
  simp only [isFinite, isNaN, decide_eq_true_eq, decide_eq_false_iff_not] at *
  exact fun hn => h hn.1

/-- Magnitude of the low 31 bits `b`, times `2 ^ 149`. -/
def magnitude (b : Nat) : Nat :=
  if b / 2 ^ 23 = 0 then b % 2 ^ 23 else (2 ^ 23 + b % 2 ^ 23) * 2 ^ (b / 2 ^ 23 - 1)

/-- The value of a pattern, times `2 ^ 149`. -/
def scaled (u : Pattern) : Int :=
  if u.toNat < 2 ^ 31 then magnitude u.toNat else -magnitude (u.toNat - 2 ^ 31)

/-- The value of a pattern. -/
def toRat (u : Pattern) : Rat := scaled u / 2 ^ 149

/-- IEEE `a > b`. -/
def gt (a b : Pattern) : Bool := !isNaN a && !isNaN b && decide (scaled b < scaled a)

/-- IEEE `a == b`. -/
def eq (a b : Pattern) : Bool := !isNaN a && !isNaN b && decide (scaled a = scaled b)

/-! ## The order of values -/

theorem magnitude_lt_succ (b : Nat) : magnitude b < magnitude (b + 1) := by
  unfold magnitude
  rw [show (2 : Nat) ^ 23 = 8388608 from rfl]
  have hb := Nat.div_add_mod b 8388608
  have hm := Nat.mod_lt b (show 0 < 8388608 by decide)
  generalize b / 8388608 = e at *
  generalize b % 8388608 = m at *
  subst hb
  by_cases hlast : m + 1 < 8388608
  · -- same exponent, next fraction
    rw [show (8388608 * e + m + 1) / 8388608 = e by omega,
      show (8388608 * e + m + 1) % 8388608 = m + 1 by omega]
    split
    · omega
    · exact Nat.mul_lt_mul_of_pos_right (by omega) (Nat.two_pow_pos _)
  · -- the fraction overflows into the exponent
    rw [show (8388608 * e + m + 1) / 8388608 = e + 1 by omega,
      show (8388608 * e + m + 1) % 8388608 = 0 by omega, if_neg (Nat.succ_ne_zero e)]
    cases e with
    | zero => simp; omega
    | succ e =>
      simp only [Nat.add_sub_cancel, Nat.succ_ne_zero, if_false, Nat.pow_succ]
      calc (8388608 + m) * 2 ^ e < (8388608 * 2) * 2 ^ e :=
            Nat.mul_lt_mul_of_pos_right (by omega) (Nat.two_pow_pos e)
        _ = (8388608 + 0) * (2 ^ e * 2) := by ring

theorem magnitude_strictMono : StrictMono magnitude := strictMono_nat_of_lt_succ magnitude_lt_succ

theorem magnitude_zero : magnitude 0 = 0 := rfl

theorem magnitude_lt_iff {a b : Nat} : magnitude a < magnitude b ↔ a < b :=
  magnitude_strictMono.lt_iff_lt

theorem scaled_of_lt {u : Pattern} (h : u.toNat < 2 ^ 31) : scaled u = magnitude u.toNat :=
  if_pos h

theorem scaled_of_ge {u : Pattern} (h : 2 ^ 31 ≤ u.toNat) :
    scaled u = -magnitude (u.toNat - 2 ^ 31) := if_neg (by omega)

/-- A number that falls as the value rises: `2 ^ 31 - 1 - b` for a non-negative pattern with low
bits `b` (and for `-0`), the pattern itself for a negative one. -/
def descending (u : Pattern) : Nat :=
  if u.toNat ≤ 2 ^ 31 then 2 ^ 31 - 1 - u.toNat % 2 ^ 31 else u.toNat

/-- **Descending keys and values are in opposite orders.** -/
theorem descending_lt_iff (u v : Pattern) : descending u < descending v ↔ scaled v < scaled u := by
  have hu := u.isLt
  have hv := v.isLt
  rcases Nat.lt_or_ge u.toNat (2 ^ 31) with u0 | u0 <;>
    rcases Nat.lt_or_ge v.toNat (2 ^ 31) with v0 | v0
  · rw [scaled_of_lt u0, scaled_of_lt v0, Int.ofNat_lt, magnitude_lt_iff]
    unfold descending; split <;> split <;> omega
  · rw [scaled_of_lt u0, scaled_of_ge v0]
    have hm := @magnitude_lt_iff 0 (v.toNat - 2 ^ 31)
    have hu' := @magnitude_lt_iff 0 u.toNat
    rw [magnitude_zero] at hm hu'
    unfold descending; split <;> split <;> omega
  · rw [scaled_of_ge u0, scaled_of_lt v0]
    have hm := @magnitude_lt_iff 0 (u.toNat - 2 ^ 31)
    have hv' := @magnitude_lt_iff 0 v.toNat
    rw [magnitude_zero] at hm hv'
    unfold descending; split <;> split <;> omega
  · rw [scaled_of_ge u0, scaled_of_ge v0, Int.neg_lt_neg_iff, Int.ofNat_lt, magnitude_lt_iff]
    unfold descending; split <;> split <;> omega

theorem descending_eq_iff (u v : Pattern) : descending u = descending v ↔ scaled u = scaled v := by
  have h1 := descending_lt_iff u v
  have h2 := descending_lt_iff v u
  omega

/-! ## Masks and shifts as arithmetic -/

theorem and_high16 (x : BitVec 32) : (x &&& 0xffff0000#32).toNat = x.toNat / 65536 * 65536 := by
  have h : x &&& 0xffff0000#32 = (x >>> 16) <<< 16 := by
    ext i hi
    simp only [BitVec.getElem_and, BitVec.getElem_shiftLeft]
    interval_cases i <;> simp
  have hx := x.isLt
  rw [h]
  simp only [BitVec.toNat_shiftLeft, BitVec.toNat_ushiftRight, Nat.shiftRight_eq_div_pow,
    Nat.shiftLeft_eq]
  omega

theorem and_sign_eq_zero (x : BitVec 32) : x &&& 0x80000000#32 = 0#32 ↔ x.toNat < 2 ^ 31 := by
  have h : x &&& 0x80000000#32 = (x >>> 31) <<< 31 := by
    ext i hi
    simp only [BitVec.getElem_and, BitVec.getElem_shiftLeft]
    interval_cases i <;> simp
  have hx := x.isLt
  rw [h, ← BitVec.toNat_inj]
  simp only [BitVec.toNat_shiftLeft, BitVec.toNat_ushiftRight, Nat.shiftRight_eq_div_pow,
    Nat.shiftLeft_eq, BitVec.toNat_ofNat]
  omega

theorem or_sign {x : BitVec 32} (h : x.toNat < 2 ^ 31) :
    (x ||| 0x80000000#32).toNat = x.toNat + 2 ^ 31 := by
  rw [BitVec.toNat_or, Nat.or_comm]
  have hor := Nat.two_pow_add_eq_or_of_lt h 1
  simp at hor ⊢
  omega

theorem shiftRight16_and_one (x : BitVec 32) :
    ((x >>> 16) &&& 1#32).toNat = x.toNat / 65536 % 2 := by
  simp [BitVec.toNat_and, Nat.shiftRight_eq_div_pow, Nat.and_one_is_mod]

end Binary32
