import SuprMeow.Library.Positional

/-!
# The compact form of a large number

One byte holds the number of bytes, three bytes the leading ones; the top bit of the three is a
sign, so a number whose first byte has it counts one byte more and keeps one byte less.

* `decode_encode` — what the form keeps of a number;
* `decode_encode_eq` — as arithmetic on the number itself.
-/

set_option autoImplicit false

namespace Compact

open Positional

/-- The three bytes behind the length: the leading bytes, filled up from the right. -/
def mantissa (ds : List Nat) : Nat := value 256 (ds.take 3) * 256 ^ (3 - ds.length)

/-- The compact form of a number, given by its significant bytes. -/
def encode (ds : List Nat) : Nat :=
  if mantissa ds < 2 ^ 23 then ds.length * 2 ^ 24 + mantissa ds
  else (ds.length + 1) * 2 ^ 24 + mantissa ds / 256

/-- The number of a compact form without its sign. -/
def decode (c : Nat) : Nat :=
  let size := c / 2 ^ 24
  let word := c % 2 ^ 23
  if size ≤ 3 then word / 256 ^ (3 - size) else word * 256 ^ (size - 3)

theorem decode_compose (size : Nat) {word : Nat} (h : word < 2 ^ 23) :
    decode (size * 2 ^ 24 + word) =
      if size ≤ 3 then word / 256 ^ (3 - size) else word * 256 ^ (size - 3) := by
  have hsize : (size * 2 ^ 24 + word) / 2 ^ 24 = size := by omega
  have hword : (size * 2 ^ 24 + word) % 2 ^ 23 = word := by omega
  unfold decode
  rw [hsize, hword]

/-- How many leading bytes are kept. -/
def kept (ds : List Nat) : Nat := if ds.headD 0 < 128 then 3 else 2

variable {ds : List Nat}

theorem mantissa_cons {d : Nat} {rest : List Nat} (h : ∀ x ∈ rest, x < 256) :
    ∃ low < 2 ^ 16, mantissa (d :: rest) = d * 2 ^ 16 + low := by
  have hdigit : ∀ x ∈ rest.take 2, x < 256 := fun x hx => h x (List.mem_of_mem_take hx)
  have hlt := value_lt (by decide : 1 < 256) hdigit
  have hlen : (rest.take 2).length + (2 - rest.length) = 2 := by
    rw [List.length_take]
    omega
  have hpow : 256 ^ (rest.take 2).length * 256 ^ (2 - rest.length) = 2 ^ 16 := by
    rw [← Nat.pow_add, hlen]
    decide
  refine ⟨value 256 (rest.take 2) * 256 ^ (2 - rest.length), ?_, ?_⟩
  · calc value 256 (rest.take 2) * 256 ^ (2 - rest.length)
        < 256 ^ (rest.take 2).length * 256 ^ (2 - rest.length) :=
          Nat.mul_lt_mul_of_pos_right hlt (Nat.pow_pos (by decide))
      _ = 2 ^ 16 := hpow
  · have hsub : 3 - (d :: rest).length = 2 - rest.length := by
      rw [List.length_cons]
      omega
    unfold mantissa
    rw [List.take_succ_cons, value_cons, hsub, Nat.add_mul, Nat.mul_assoc, hpow]

/-- The sign bit of the mantissa is the top bit of the first byte. -/
theorem mantissa_lt_iff (hd : ∀ d ∈ ds, d < 256) : mantissa ds < 2 ^ 23 ↔ kept ds = 3 := by
  cases ds with
  | nil => exact iff_of_true (by decide) rfl
  | cons d rest =>
    obtain ⟨low, hlow, hm⟩ := mantissa_cons (d := d) fun x hx => hd x (List.mem_cons_of_mem d hx)
    unfold kept
    rw [hm, List.headD_cons]
    split <;> omega

theorem mantissa_lt (hd : ∀ d ∈ ds, d < 256) : mantissa ds < 2 ^ 24 := by
  cases ds with
  | nil => decide
  | cons d rest =>
    obtain ⟨low, hlow, hm⟩ := mantissa_cons (d := d) fun x hx => hd x (List.mem_cons_of_mem d hx)
    have hfirst := hd d List.mem_cons_self
    omega

/-- Without its last byte the mantissa is made of the two leading bytes. -/
theorem mantissa_div (hd : ∀ d ∈ ds, d < 256) :
    mantissa ds / 256 = value 256 (ds.take 2) * 256 ^ (2 - ds.length) := by
  rcases Nat.lt_or_ge 2 ds.length with hlen | hlen
  · have hlast : ∀ x ∈ (ds.drop 2).take 1, x < 256 := fun x hx =>
      hd x (List.mem_of_mem_drop (List.mem_of_mem_take hx))
    have hone : ((ds.drop 2).take 1).length = 1 := by simp; omega
    have hsplit : ds.take 3 = ds.take 2 ++ (ds.drop 2).take 1 := List.take_add (i := 2) (j := 1)
    have h3 : 3 - ds.length = 0 := by omega
    have h2 : 2 - ds.length = 0 := by omega
    have hdiv := value_append_div (by decide : 1 < 256) (ds.take 2) hlast
    unfold mantissa
    rw [h3, h2, Nat.pow_zero, Nat.mul_one, Nat.mul_one, hsplit, ← hdiv, hone, Nat.pow_one]
  · have htake : ds.take 3 = ds.take 2 := by
      rw [List.take_of_length_le (by omega), List.take_of_length_le hlen]
    have hsub : 3 - ds.length = 2 - ds.length + 1 := by omega
    unfold mantissa
    rw [htake, hsub, Nat.pow_succ, ← Nat.mul_assoc, Nat.mul_div_cancel _ (by decide : 0 < 256)]

/-- **The compact form keeps the leading bytes.** -/
theorem decode_encode (hd : ∀ d ∈ ds, d < 256) :
    decode (encode ds) = value 256 (ds.take (kept ds)) * 256 ^ (ds.length - kept ds) := by
  have hpos : ∀ k, 0 < 256 ^ k := fun k => Nat.pow_pos (by decide)
  unfold encode
  by_cases hm : mantissa ds < 2 ^ 23
  · rw [if_pos hm, decode_compose _ hm, (mantissa_lt_iff hd).1 hm]
    unfold mantissa
    split
    · rename_i hlen
      have hzero : ds.length - 3 = 0 := by omega
      rw [hzero, Nat.mul_div_cancel _ (hpos _), Nat.pow_zero, Nat.mul_one]
    · rename_i hlen
      have hzero : 3 - ds.length = 0 := by omega
      rw [hzero, Nat.pow_zero, Nat.mul_one]
  · have hkept : kept ds = 2 := by
      have h3 := mt (mantissa_lt_iff hd).2 hm
      unfold kept at h3 ⊢
      split at h3
      · exact absurd rfl h3
      · rename_i hfirst
        rw [if_neg hfirst]
    have hlt := mantissa_lt hd
    rw [if_neg hm, decode_compose _ (by omega), mantissa_div hd, hkept]
    split
    · rename_i hlen
      have hzero : ds.length - 2 = 0 := by omega
      have hsub : 3 - (ds.length + 1) = 2 - ds.length := by omega
      rw [hzero, hsub, Nat.mul_div_cancel _ (hpos _), Nat.pow_zero, Nat.mul_one]
    · rename_i hlen
      have hzero : 2 - ds.length = 0 := by omega
      have hsub : ds.length + 1 - 3 = ds.length - 2 := by omega
      rw [hzero, hsub, Nat.pow_zero, Nat.mul_one]

/-- The weight of the last byte that is kept. -/
def unit (ds : List Nat) : Nat := 256 ^ (ds.length - kept ds)

/-- **The compact form rounds down to a multiple of that weight.** -/
theorem decode_encode_eq (hd : ∀ d ∈ ds, d < 256) :
    decode (encode ds) = value 256 ds / unit ds * unit ds := by
  have hlow : ∀ x ∈ ds.drop (kept ds), x < 256 := fun x hx => hd x (List.mem_of_mem_drop hx)
  have hdiv := value_append_div (by decide : 1 < 256) (ds.take (kept ds)) hlow
  rw [List.take_append_drop, List.length_drop] at hdiv
  unfold unit
  rw [decode_encode hd, hdiv]

end Compact
