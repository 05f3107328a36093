import SuprMeow.Library.Binary32
import SuprMeow.Library.Ranking

/-!
# Snapping and order keys (`pow_histogram.cu`, `pow_gpu.cu`)

The scalar device functions of the two sampler files, on 32-bit patterns.

* `PowHistogram.snap`, `PowGpu.snapBf16Reg` — bf16 rounding, the same function in both files;
* `PowHistogram.key` — the 16-bit histogram bin of a logit;
* `PowGpu.transformVal`, `PowGpu.packKey` — the 32-bit value field and the 64-bit segment key.

* `PowGpu.precedes`, `PowGpu.rankedIds` — the normative order of a stream's ids.

`transformVal_toNat` and `key_toNat` reduce the three bit tricks to `Binary32.descending`, so
that every order fact below is a fact about that one function.
-/

set_option autoImplicit false

open Binary32

namespace PowHistogram

/-- `snap`: round to nearest even at bit 16, in wrapping 32-bit arithmetic. -/
def snap (f : Pattern) : Pattern := (f + 0x7fff#32 + ((f >>> 16) &&& 1#32)) &&& 0xffff0000#32

/-- `key`: the bin of a logit; smaller bins hold larger values. -/
def key (f : Pattern) : BitVec 32 :=
  let u := snap f >>> 16
  let u := if u = 0x8000#32 then 0#32 else u  -- signed zeros share a rank
  if u &&& 0x8000#32 ≠ 0#32 then u else ~~~u &&& 0x7fff#32

/-- Number of histogram bins. -/
def bins : Nat := 65536

theorem snap_toNat (f : Pattern) :
    (snap f).toNat = (f.toNat + 32767 + f.toNat / 65536 % 2) % 2 ^ 32 / 65536 * 65536 := by
  rw [snap, and_high16, BitVec.toNat_add, BitVec.toNat_add, shiftRight16_and_one,
    show (0x7fff#32).toNat = 32767 from rfl]
  omega

theorem snap_mod (f : Pattern) : (snap f).toNat % 65536 = 0 := by
  rw [snap_toNat]; omega

/-- Rounding carries into the infinity, never past it. -/
theorem round_le (x : Nat) (h : x % 2147483648 ≤ 2139095040) :
    (x + 32767 + x / 65536 % 2) % 4294967296 / 65536 * 65536 % 2147483648 ≤ 2139095040 := by
  -- sign, exponent and upper fraction, lower half
  obtain ⟨sgn, hi, lo, hhi, hlo, rfl⟩ : ∃ sgn hi lo, hi < 32768 ∧ lo < 65536 ∧
      x = sgn * 2147483648 + hi * 65536 + lo :=
    ⟨x / 2147483648, x / 65536 % 32768, x % 65536, by omega, by omega, by omega⟩
  have hexp : hi < 32640 ∨ hi = 32640 ∧ lo = 0 := by omega
  clear h
  obtain ⟨c, hc⟩ : ∃ c, c = (lo + 32767 + hi % 2) / 65536 := ⟨_, rfl⟩
  have hle : hi + c ≤ 32640 := by omega
  have hmod : ∀ y, y % 4294967296 / 65536 * 65536 % 2147483648 = y / 65536 % 32768 * 65536 := by
    intro y; omega
  have hcarry : (sgn * 2147483648 + hi * 65536 + lo + 32767 + hi % 2) / 65536 =
      sgn * 32768 + (hi + c) := by omega
  rw [show (sgn * 2147483648 + hi * 65536 + lo) / 65536 % 2 = hi % 2 by omega, hmod, hcarry,
    Nat.mul_comm sgn, Nat.mul_add_mod, Nat.mod_eq_of_lt (by omega)]
  exact Nat.mul_le_mul_right 65536 hle

theorem isNaN_snap {f : Pattern} (h : isNaN f = false) : isNaN (snap f) = false := by
  rw [isNaN_eq, decide_eq_false_iff_not, Nat.not_lt] at h ⊢
  rw [snap_toNat]
  exact round_le _ h

theorem shiftRight16_and_sign (u : BitVec 32) (h : u.toNat < 65536) :
    u &&& 0x8000#32 = 0#32 ↔ u.toNat < 32768 := by
  have hand : u &&& 0x8000#32 = (u >>> 15 &&& 1#32) <<< 15 := by
    ext i hi
    simp only [BitVec.getElem_and, BitVec.getElem_shiftLeft]
    interval_cases i <;> simp
  rw [hand, ← BitVec.toNat_inj]
  simp only [BitVec.toNat_shiftLeft, BitVec.toNat_and, BitVec.toNat_ushiftRight,
    Nat.shiftRight_eq_div_pow, Nat.shiftLeft_eq, BitVec.toNat_ofNat]
  norm_num
  omega

theorem not_and_low15 (u : BitVec 32) (h : u.toNat < 32768) :
    (~~~u &&& 0x7fff#32).toNat = 32767 - u.toNat := by
  have hand : (~~~u &&& 0x7fff#32).toNat = (~~~u).toNat % 2 ^ 15 := by
    rw [BitVec.toNat_and]
    exact Nat.and_two_pow_sub_one_eq_mod _ 15
  rw [hand, BitVec.toNat_not]
  omega

/-- **A bin is the high half of the descending key of the snapped value.** -/
theorem key_toNat (f : Pattern) : (key f).toNat = descending (snap f) / 65536 := by
  have hlow := snap_mod f
  have hlt := (snap f).isLt
  have hu : (snap f >>> 16).toNat = (snap f).toNat / 65536 := by
    simp [BitVec.toNat_ushiftRight, Nat.shiftRight_eq_div_pow]
  have hzero : snap f >>> 16 = 0x8000#32 ↔ (snap f).toNat / 65536 = 32768 := by
    rw [← BitVec.toNat_inj, hu]; rfl
  simp only [key, hzero]
  unfold descending
  by_cases h0 : (snap f).toNat / 65536 = 32768
  · rw [if_pos h0, if_neg (by simp), if_pos (by omega), not_and_low15 _ (by decide)]
    simp only [BitVec.toNat_ofNat]
    omega
  · rw [if_neg h0]
    have hsign := shiftRight16_and_sign (snap f >>> 16) (by rw [hu]; omega)
    by_cases hneg : (snap f).toNat / 65536 < 32768
    · rw [if_neg (by rw [not_not, hsign, hu]; exact hneg), not_and_low15 _ (by rw [hu]; exact hneg),
        hu, if_pos (by omega)]
      omega
    · rw [if_pos (by rw [ne_eq, hsign, hu]; exact hneg), hu, if_neg (by omega)]

theorem key_lt_bins (f : Pattern) : (key f).toNat < bins := by
  have := (snap f).isLt
  rw [key_toNat, bins]
  unfold descending
  split <;> omega

/-- A snapped value has no low bits, so the bin keeps all of its order. -/
theorem key_lt_iff (f g : Pattern) :
    (key f).toNat < (key g).toNat ↔ descending (snap f) < descending (snap g) := by
  have hf := snap_mod f
  have hg := snap_mod g
  have hlf := (snap f).isLt
  have hlg := (snap g).isLt
  rw [key_toNat, key_toNat]
  unfold descending
  split <;> split <;> omega

theorem key_eq_iff (f g : Pattern) :
    (key f).toNat = (key g).toNat ↔ descending (snap f) = descending (snap g) := by
  have h1 := key_lt_iff f g
  have h2 := key_lt_iff g f
  omega

end PowHistogram

namespace PowGpu

/-- `snap_bf16_reg`. -/
def snapBf16Reg (v : Pattern) : Pattern :=
  (v + (0x00007FFF#32 + ((v >>> 16) &&& 1#32))) &&& 0xFFFF0000#32

/-- `transform_val`: ascending in the result is descending in the value. -/
def transformVal (v : Pattern) : BitVec 32 :=
  let u := if v = 0x80000000#32 then 0x00000000#32 else v  -- -0.0 == +0.0, same rank
  let u := if u &&& 0x80000000#32 ≠ 0#32 then ~~~u else u ||| 0x80000000#32
  ~~~u

/-- `pack_key`. -/
def packKey (v : Pattern) (idx : BitVec 32) : BitVec 64 :=
  let u := if v = 0x80000000#32 then 0x00000000#32 else v
  let u := if u &&& 0x80000000#32 ≠ 0#32 then ~~~u else u ||| 0x80000000#32
  ((~~~u).setWidth 64 <<< 32) ||| idx.setWidth 64

theorem snapBf16Reg_eq (v : Pattern) : snapBf16Reg v = PowHistogram.snap v := by
  rw [snapBf16Reg, PowHistogram.snap, BitVec.add_assoc]

/-- **The value field is the descending key.** -/
theorem transformVal_toNat (v : Pattern) : (transformVal v).toNat = descending v := by
  have hv := v.isLt
  have hzero : v = 0x80000000#32 ↔ v.toNat = 2147483648 := by rw [← BitVec.toNat_inj]; rfl
  unfold transformVal descending
  by_cases h0 : v.toNat = 2147483648
  · simp [hzero.2 h0]
  · simp only [hzero, if_neg h0, ne_eq, and_sign_eq_zero]
    by_cases hneg : v.toNat < 2 ^ 31
    · rw [if_neg (by simpa using hneg), if_pos (by omega), BitVec.toNat_not, or_sign hneg]
      omega
    · rw [if_pos hneg, if_neg (by omega), BitVec.not_not]

theorem descending_lt (v : Pattern) : descending v < 2 ^ 32 :=
  transformVal_toNat v ▸ (transformVal v).isLt

/-- Packing a high field above a 32-bit low field. -/
theorem packKey_toNat (v : Pattern) (idx : BitVec 32) :
    (packKey v idx).toNat = descending v * 2 ^ 32 + idx.toNat := by
  have hd := descending_lt v
  have hidx := idx.isLt
  have hpack : packKey v idx = ((transformVal v).setWidth 64 <<< 32) ||| idx.setWidth 64 := rfl
  have hor := Nat.two_pow_add_eq_or_of_lt hidx (descending v)
  rw [hpack, BitVec.toNat_or, BitVec.toNat_shiftLeft, BitVec.toNat_setWidth, BitVec.toNat_setWidth,
    transformVal_toNat, Nat.shiftLeft_eq, Nat.mod_eq_of_lt (by omega), Nat.mod_eq_of_lt (by omega),
    Nat.mod_eq_of_lt (by omega), Nat.mul_comm (descending v), ← hor]

/-! ## The normative order -/

/-- Value descending (`-0` equal to `+0`), id ascending; `v i` is the value of id `i`. -/
def precedes (v : Nat → Pattern) (i j : Nat) : Bool :=
  gt (v i) (v j) || (eq (v i) (v j) && decide (i ≤ j))

/-- The ids `0 … n-1` of a stream by rank. -/
def rankedIds (v : Nat → Pattern) (n : Nat) : List Nat := (List.range n).mergeSort (precedes v)

/-- The order as one key. -/
def rankKey (v : Nat → Pattern) (i : Nat) : Lex (Nat × Nat) := toLex (descending (v i), i)

theorem rankKey_injective (v : Nat → Pattern) : Function.Injective (rankKey v) :=
  fun _ _ h => congrArg (fun p => (ofLex p).2) h

theorem rankKey_lt_iff {v : Nat → Pattern} {i j : Nat} :
    rankKey v i < rankKey v j ↔
      descending (v i) < descending (v j) ∨ descending (v i) = descending (v j) ∧ i < j :=
  Prod.Lex.toLex_lt_toLex

theorem precedes_eq {v : Nat → Pattern} {i j : Nat} (hi : isNaN (v i) = false)
    (hj : isNaN (v j) = false) : precedes v i j = decide (rankKey v i ≤ rankKey v j) := by
  have h : rankKey v i ≤ rankKey v j ↔
      descending (v i) < descending (v j) ∨ descending (v i) = descending (v j) ∧ i ≤ j :=
    Prod.Lex.toLex_le_toLex
  simp only [precedes, gt, Binary32.eq, hi, hj, h, descending_lt_iff, descending_eq_iff,
    Bool.not_false, Bool.true_and, Bool.decide_or, Bool.decide_and]

/-- **The normative order ranks by the descending key.** -/
theorem rankedIds_eq_ranking {v : Nat → Pattern} {n : Nat}
    (h : ∀ i < n, isNaN (v i) = false) :
    rankedIds v n = Ranking.ranking (rankKey v) (List.range n) :=
  Ranking.mergeSort_eq_ranking (fun _ _ _ _ h => rankKey_injective v h) fun i hi j hj =>
    precedes_eq (h i (List.mem_range.1 hi)) (h j (List.mem_range.1 hj))

theorem rankedIds_perm (v : Nat → Pattern) (n : Nat) : (rankedIds v n).Perm (List.range n) :=
  List.mergeSort_perm _ _

@[simp] theorem length_rankedIds (v : Nat → Pattern) (n : Nat) : (rankedIds v n).length = n := by
  simp [rankedIds]

theorem mem_rankedIds {v : Nat → Pattern} {n i : Nat} : i ∈ rankedIds v n ↔ i < n := by
  rw [(rankedIds_perm v n).mem_iff, List.mem_range]

theorem rankedIds_pairwise {v : Nat → Pattern} {n : Nat} (h : ∀ i < n, isNaN (v i) = false) :
    (rankedIds v n).Pairwise fun i j => rankKey v i ≤ rankKey v j :=
  rankedIds_eq_ranking h ▸ Ranking.ranking_pairwise _ _

end PowGpu
