import Mathlib.Algebra.BigOperators.Fin
import Mathlib.Algebra.BigOperators.Intervals
import Mathlib.Algebra.Order.BigOperators.Group.Finset
import Mathlib.Data.Nat.Size
import Mathlib.Tactic.Ring

/-!
# Powers by bits, blocks and buckets

* `pow_div_two_pow_step` — one step of square and multiply from the top bit;
* `blockDigit`, `sum_blockDigit` — the digits of `2 ^ T / B` in base `2 ^ k`, each from one
  modular power;
* `prod_bucket_pow` — factors sorted into buckets by their exponent;
* `prod_split_pow` — the buckets aggregated in two directions, over a split of the exponent;
* `horner_pow` — exponents in base `2 ^ k` from the top digit.
-/

set_option autoImplicit false

open Finset

namespace BucketPower

/-! ## Square and multiply -/

section Monoid

variable {M : Type*} [Monoid M]

theorem div_two_pow (n i : Nat) :
    n / 2 ^ i = 2 * (n / 2 ^ (i + 1)) + (n.testBit i).toNat := by
  have hbit : (n.testBit i).toNat = n / 2 ^ i % 2 := by
    rw [Nat.testBit_eq_decide_div_mod_eq]
    rcases Nat.mod_two_eq_zero_or_one (n / 2 ^ i) with h | h <;> simp [h]
  rw [hbit, pow_succ, ← Nat.div_div_eq_div_mul]
  omega

/-- **One step of square and multiply.** -/
theorem pow_div_two_pow_step (x : M) (n i : Nat) :
    x ^ (n / 2 ^ i) =
      if n.testBit i then x ^ (n / 2 ^ (i + 1)) * x ^ (n / 2 ^ (i + 1)) * x
      else x ^ (n / 2 ^ (i + 1)) * x ^ (n / 2 ^ (i + 1)) := by
  rw [div_two_pow n i]
  cases n.testBit i
  · simp [two_mul, pow_add]
  · simp [two_mul, pow_add]

theorem div_top_bit {n : Nat} (h : n ≠ 0) : n / 2 ^ (n.size - 1) = 1 := by
  have hpos : 0 < n.size := Nat.size_pos.2 (Nat.pos_of_ne_zero h)
  have hlow : 2 ^ (n.size - 1) ≤ n := Nat.lt_size.1 (by omega)
  have hhigh : n < 2 ^ n.size := Nat.lt_size_self n
  have htwo : 2 ^ n.size = 2 * 2 ^ (n.size - 1) := by
    conv_lhs => rw [← Nat.sub_add_cancel hpos, pow_succ]
    ring
  rw [Nat.div_eq_iff (Nat.two_pow_pos _)]
  omega

end Monoid

/-! ## The digits of a quotient -/

/-- Digit `m`, in base `2 ^ k`, of `2 ^ T / B`. -/
def blockDigit (B T k m : Nat) : Nat := 2 ^ k * (2 ^ (T - k * (m + 1)) % B) / B

theorem blockDigit_lt {B : Nat} (hB : 0 < B) (T k m : Nat) : blockDigit B T k m < 2 ^ k := by
  unfold blockDigit
  rw [Nat.div_lt_iff_lt_mul hB]
  have h := Nat.mod_lt (2 ^ (T - k * (m + 1))) hB
  exact Nat.mul_lt_mul_of_pos_left h (Nat.two_pow_pos k)

/-- What a shift by one more digit adds to the quotient. -/
theorem mul_div_eq_add (p : Nat) {B : Nat} (hB : 0 < B) (a : Nat) :
    p * a / B = p * (a / B) + p * (a % B) / B := by
  have h : p * a = p * (a % B) + B * (p * (a / B)) := by
    conv_lhs => rw [← Nat.mod_add_div a B]
    ring
  rw [h, Nat.add_mul_div_left _ _ hB, Nat.add_comm]

theorem two_pow_div_eq_add {B : Nat} (hB : 0 < B) {T k m : Nat} (h : k * (m + 1) ≤ T) :
    2 ^ (T - k * m) / B = 2 ^ k * (2 ^ (T - k * (m + 1)) / B) + blockDigit B T k m := by
  have hsplit : T - k * m = k + (T - k * (m + 1)) := by
    rw [Nat.mul_succ] at h ⊢
    omega
  rw [hsplit, pow_add, mul_div_eq_add _ hB]
  rfl

/-- **The first `n` digits and what is left.** -/
theorem sum_blockDigit_add {B : Nat} (hB : 0 < B) {T k : Nat} :
    ∀ n, k * n ≤ T →
      ∑ m ∈ range n, blockDigit B T k m * 2 ^ (k * m) + 2 ^ (T - k * n) / B * 2 ^ (k * n) =
        2 ^ T / B := by
  intro n
  induction n with
  | zero => simp
  | succ n ih =>
    intro hn
    have hle : k * n ≤ T := le_trans (Nat.mul_le_mul_left k n.le_succ) hn
    have hstep := two_pow_div_eq_add hB hn
    rw [sum_range_succ, ← ih hle, hstep]
    have hpow : 2 ^ (k * (n + 1)) = 2 ^ k * 2 ^ (k * n) := by rw [← pow_add]; ring_nf
    rw [hpow]
    ring

/-- The digits are all of it once what is left is below the divisor. -/
theorem sum_blockDigit {B : Nat} (hB : 0 < B) {T k : Nat} (hk : 2 ^ (T % k) < B) :
    ∑ m ∈ range (T / k), blockDigit B T k m * 2 ^ (k * m) = 2 ^ T / B := by
  have h := sum_blockDigit_add hB (T / k) (Nat.mul_div_le T k)
  have hrest : T - k * (T / k) = T % k := by
    have := Nat.mod_add_div T k
    omega
  rwa [hrest, Nat.div_eq_of_lt hk, Nat.zero_mul, Nat.add_zero] at h

/-! ## Buckets -/

section CommMonoid

variable {M : Type*} [CommMonoid M] {ι : Type*}

/-- **Sorting factors into buckets by exponent.** -/
theorem prod_bucket_pow (s : Finset ι) (d : ι → Nat) (g : ι → M) {n : Nat}
    (h : ∀ i ∈ s, d i < n) :
    ∏ b ∈ range n, (∏ i ∈ s with d i = b, g i) ^ b = ∏ i ∈ s, g i ^ d i := by
  rw [← prod_fiberwise_of_maps_to (t := range n) (g := d) (fun i hi => mem_range.2 (h i hi))]
  refine prod_congr rfl fun b _ => ?_
  rw [← prod_pow]
  refine prod_congr rfl fun i hi => ?_
  rw [(mem_filter.1 hi).2]

theorem prod_range_mul (a b : Nat) (f : Nat → M) :
    ∏ i ∈ range (a * b), f i = ∏ q ∈ range a, ∏ r ∈ range b, f (q * b + r) := by
  induction a with
  | zero => simp
  | succ a ih =>
    rw [Nat.succ_mul, prod_range_add, ih, prod_range_succ]

/-- **Aggregating buckets along both halves of the exponent.** -/
theorem prod_split_pow (p q : Nat) (y : Nat → M) :
    (∏ u ∈ range p, (∏ v ∈ range q, y (u * q + v)) ^ (u * q)) *
        ∏ v ∈ range q, (∏ u ∈ range p, y (u * q + v)) ^ v =
      ∏ b ∈ range (p * q), y b ^ b := by
  have hleft : ∏ u ∈ range p, (∏ v ∈ range q, y (u * q + v)) ^ (u * q) =
      ∏ u ∈ range p, ∏ v ∈ range q, y (u * q + v) ^ (u * q) :=
    prod_congr rfl fun u _ => (prod_pow _ _ _).symm
  have hright : ∏ v ∈ range q, (∏ u ∈ range p, y (u * q + v)) ^ v =
      ∏ u ∈ range p, ∏ v ∈ range q, y (u * q + v) ^ v := by
    rw [prod_comm]
    exact prod_congr rfl fun v _ => (prod_pow _ _ _).symm
  rw [hleft, hright, prod_range_mul, ← prod_mul_distrib]
  refine prod_congr rfl fun u _ => ?_
  rw [← prod_mul_distrib]
  exact prod_congr rfl fun v _ => (pow_add _ _ _).symm

/-! ## From the top digit -/

/-- The accumulator after digits `l - 1` down to `l - n`. -/
theorem horner_pow (f : Nat → M) (p : Nat) :
    ∀ n x, (List.range n).reverse.foldl (fun x j => x ^ p * f j) x =
      x ^ p ^ n * ∏ j ∈ range n, f j ^ p ^ j := by
  intro n
  induction n with
  | zero => simp
  | succ n ih =>
    intro x
    rw [List.range_succ, List.reverse_append, List.reverse_singleton, List.singleton_append,
      List.foldl_cons, ih, prod_range_succ, mul_pow, ← pow_mul, ← pow_succ']
    rw [mul_assoc, mul_comm (f n ^ p ^ n)]

/-- Positions `i * l + j` below a bound, by their last digit. -/
theorem prod_interleave (l n N : Nat) (hN : N ≤ n * l) (f : Nat → M) :
    ∏ j ∈ range l, ∏ i ∈ range n with i * l + j < N, f (i * l + j) = ∏ m ∈ range N, f m := by
  have hfull : ∏ j ∈ range l, ∏ i ∈ range n with i * l + j < N, f (i * l + j) =
      ∏ m ∈ range (n * l), if m < N then f m else 1 := by
    rw [prod_range_mul, prod_comm]
    exact prod_congr rfl fun j _ => (prod_filter _ _)
  rw [hfull, ← prod_filter]
  refine prod_congr ?_ fun _ _ => rfl
  ext m
  simp only [mem_filter, mem_range]
  omega

end CommMonoid

/-! ## Roots from two representations -/

/-- Two ways to write an element through the quotient and the remainder of an exponent. -/
theorem div_pow_eq {G : Type*} [CommGroup G] (x y w : G) (E B : Nat)
    (h : w ^ B * x ^ (E % B) = y) : (w / x ^ (E / B)) ^ B = y / x ^ E := by
  have hE : x ^ E = (x ^ (E / B)) ^ B * x ^ (E % B) := by
    rw [← pow_mul, ← pow_add, Nat.mul_comm, Nat.div_add_mod]
  rw [div_pow, hE, ← h, mul_div_mul_right_eq_div]

end BucketPower
