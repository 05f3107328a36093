import Mathlib.Data.Nat.Digits.Lemmas
import SuprMeow.Library.Pairs

/-!
# Numerals with the most significant digit first

* `value_cons`, `value_append`, `value_lt` — the value of a numeral, part by part;
* `value_cons_le_iff` — two numerals of one length compare digit by digit from the left;
* `value_pairs` — two digits of base `b` are one of base `b ^ 2`.
-/

set_option autoImplicit false

namespace Positional

/-- The number written in base `b`. -/
def value (b : Nat) (ds : List Nat) : Nat := Nat.ofDigits b ds.reverse

variable {b : Nat}

@[simp] theorem value_nil : value b [] = 0 := rfl

theorem value_append (xs ys : List Nat) :
    value b (xs ++ ys) = value b xs * b ^ ys.length + value b ys := by
  unfold value
  rw [List.reverse_append, Nat.ofDigits_append, List.length_reverse]
  ring

theorem value_cons (d : Nat) (ds : List Nat) :
    value b (d :: ds) = d * b ^ ds.length + value b ds := by
  have h := value_append (b := b) [d] ds
  have hone : value b [d] = d := Nat.ofDigits_singleton
  rwa [List.singleton_append, hone] at h

theorem value_lt (hb : 1 < b) {ds : List Nat} (h : ∀ d ∈ ds, d < b) :
    value b ds < b ^ ds.length := by
  unfold value
  rw [← List.length_reverse]
  apply Nat.ofDigits_lt_base_pow_length hb
  intro d hd
  exact h d (List.mem_reverse.1 hd)

/-- Leading zeros count nothing. -/
theorem value_dropWhile_zero (ds : List Nat) : value b (ds.dropWhile (· == 0)) = value b ds := by
  induction ds with
  | nil => rfl
  | cons d ds ih =>
    rw [List.dropWhile_cons]
    split
    · rename_i hd
      rw [ih, value_cons, beq_iff_eq.1 hd, Nat.zero_mul, Nat.zero_add]
    · rfl

/-- Reading digit by digit. -/
theorem foldl_value (ds : List Nat) (n : Nat) :
    ds.foldl (fun n d => n * b + d) n = n * b ^ ds.length + value b ds := by
  induction ds generalizing n with
  | nil => simp
  | cons d ds ih =>
    rw [List.foldl_cons, ih, value_cons, List.length_cons, Nat.pow_succ]
    ring

/-- **Numerals of one length compare digit by digit from the left.** -/
theorem value_cons_le_iff (hb : 1 < b) {x y : Nat} {xs ys : List Nat}
    (hlen : xs.length = ys.length) (hxs : ∀ d ∈ xs, d < b) (hys : ∀ d ∈ ys, d < b) :
    value b (x :: xs) ≤ value b (y :: ys) ↔ x < y ∨ x = y ∧ value b xs ≤ value b ys := by
  have hx := value_lt hb hxs
  have hy := value_lt hb hys
  rw [value_cons, value_cons, hlen]
  rw [hlen] at hx
  rcases lt_trichotomy x y with h | rfl | h
  · refine iff_of_true ?_ (.inl h)
    have hstep : (x + 1) * b ^ ys.length ≤ y * b ^ ys.length := Nat.mul_le_mul_right _ h
    rw [Nat.succ_mul] at hstep
    omega
  · simp
  · refine iff_of_false ?_ (by omega)
    have hstep : (y + 1) * b ^ ys.length ≤ x * b ^ ys.length := Nat.mul_le_mul_right _ h
    rw [Nat.succ_mul] at hstep
    omega

/-- The leading digits are what is left when the others are divided off. -/
theorem value_append_div (hb : 1 < b) (xs : List Nat) {ys : List Nat} (hys : ∀ d ∈ ys, d < b) :
    value b (xs ++ ys) / b ^ ys.length = value b xs := by
  have hy := value_lt hb hys
  have hpos : 0 < b ^ ys.length := Nat.pow_pos (by omega)
  rw [value_append, Nat.add_comm, Nat.add_mul_div_right _ _ hpos, Nat.div_eq_of_lt hy,
    Nat.zero_add]

/-- **Two digits of base `b` are one of base `b ^ 2`.** -/
theorem value_pairs : ∀ {ds : List Nat}, ds.length % 2 = 0 →
    value b ds = value (b ^ 2) (Pairs.map (fun hi lo => hi * b + lo) ds)
  | [], _ => rfl
  | [_], hlen => by simp at hlen
  | hi :: lo :: ds, hlen => by
    have heven : ds.length % 2 = 0 := by
      rw [List.length_cons, List.length_cons] at hlen
      omega
    have hpow : (b ^ 2) ^ (Pairs.map (fun hi lo => hi * b + lo) ds).length = b ^ ds.length := by
      rw [← Nat.pow_mul, Pairs.length_map heven]
    have hright : value (b ^ 2) (Pairs.map (fun hi lo => hi * b + lo) (hi :: lo :: ds)) =
        (hi * b + lo) * b ^ ds.length + value b ds := by
      rw [value_pairs heven, ← hpow, ← value_cons]
      rfl
    rw [hright, value_cons, value_cons, List.length_cons]
    ring

end Positional
