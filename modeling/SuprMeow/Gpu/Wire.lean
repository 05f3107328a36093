import SuprMeow.Gpu.Bf16
import SuprMeow.Gpu.Device

/-!
# The bf16 wire format (`pow_gpu.cu`)

The staging pass of `pow_gpu_sort_and_stats_batched_k` narrows each logit to the upper 16 bits of
its snapped value: sixteen at a time with AVX2, the rest one by one.  `k_widen_bf16` restores the
32-bit patterns on the device.

* `mm256PackusEpi32`, `mm256Permute4x64` — the two instructions that move lanes;
* `stageBody_eq` — one vector iteration narrows sixteen values in their order;
* `wire_exact` — the staged values are the upper halves, and widened they are what `k_snap_bf16`
  leaves.
-/

set_option autoImplicit false

open Binary32

namespace PowGpu

/-! ## Vector instructions -/

/-- A `__m256i` by its eight 32-bit lanes. -/
abbrev Epi32 := Nat → BitVec 32

/-- A `__m256i` by its sixteen 16-bit lanes. -/
abbrev Epi16 := Nat → BitVec 16

/-- `_mm256_set1_epi32`. -/
def mm256Set1Epi32 (x : BitVec 32) : Epi32 := fun _ => x

/-- `_mm256_loadu_si256` of 32-bit values. -/
def mm256LoaduEpi32 (p : Buffer (BitVec 32)) (i : Nat) : Epi32 := fun l => p (i + l)

/-- `_mm256_add_epi32`. -/
def mm256AddEpi32 (a b : Epi32) : Epi32 := fun l => a l + b l

/-- `_mm256_and_si256`. -/
def mm256AndSi256 (a b : Epi32) : Epi32 := fun l => a l &&& b l

/-- `_mm256_srli_epi32`. -/
def mm256SrliEpi32 (a : Epi32) (imm : Nat) : Epi32 := fun l => a l >>> imm

/-- A signed 32-bit value as an unsigned 16-bit one, clamped. -/
def saturateU16 (x : BitVec 32) : BitVec 16 :=
  if x.toInt < 0 then 0#16 else if 65535 < x.toInt then 65535#16 else x.setWidth 16

/-- `_mm256_packus_epi32`: each 128-bit half holds four lanes of `a`, then four of `b`. -/
def mm256PackusEpi32 (a b : Epi32) : Epi16 := fun l =>
  let half := l / 8
  saturateU16 (if l % 8 < 4 then a (half * 4 + l % 8) else b (half * 4 + (l % 8 - 4)))

/-- `_mm256_permute4x64_epi64`: quarter `q` of the result is the one bits `2q` of `imm` name. -/
def mm256Permute4x64 (a : Epi16) (imm : Nat) : Epi16 := fun l =>
  a (imm / 4 ^ (l / 4) % 4 * 4 + l % 4)

/-- `_mm256_storeu_si256` of 16-bit values. -/
def mm256StoreuEpi16 (p : Buffer (BitVec 16)) (i : Nat) (a : Epi16) : Buffer (BitVec 16) :=
  fun j => if i ≤ j ∧ j < i + 16 then a (j - i) else p j

/-! ## The staging pass -/

/-- The rounding and the shift on eight lanes. -/
def narrowEpi32 (a : Epi32) : Epi32 :=
  let bias := mm256Set1Epi32 0x7FFF#32
  let one := mm256Set1Epi32 1#32
  mm256SrliEpi32 (mm256AddEpi32 a (mm256AddEpi32 bias
    (mm256AndSi256 (mm256SrliEpi32 a 16) one))) 16

/-- One iteration of the vector loop. -/
def stageBody (input : Buffer (BitVec 32)) (i : Nat) (stage16 : Buffer (BitVec 16)) :
    Buffer (BitVec 16) :=
  let a := narrowEpi32 (mm256LoaduEpi32 input i)
  let c := narrowEpi32 (mm256LoaduEpi32 input (i + 8))
  mm256StoreuEpi16 stage16 i (mm256Permute4x64 (mm256PackusEpi32 a c) 0xD8)

/-- The vector loop from `i` on: where it stops and what it has written. -/
def stageVector (input : Buffer (BitVec 32)) (total i : Nat) (stage16 : Buffer (BitVec 16)) :
    Nat × Buffer (BitVec 16) :=
  if i + 16 ≤ total then stageVector input total (i + 16) (stageBody input i stage16)
  else (i, stage16)
termination_by total - i

/-- The scalar narrowing. -/
def narrowBf16 (x : BitVec 32) : BitVec 16 :=
  ((x + (0x00007FFF#32 + ((x >>> 16) &&& 1#32))) >>> 16).setWidth 16

/-- The scalar loop from `i` on. -/
def stageTail (input : Buffer (BitVec 32)) (total i : Nat) (stage16 : Buffer (BitVec 16)) :
    Buffer (BitVec 16) :=
  if i < total then
    stageTail input total (i + 1) (Function.update stage16 i (narrowBf16 (input i)))
  else stage16
termination_by total - i

/-- The staging pass; a build without AVX2 has the scalar loop alone. -/
def stageBf16 (avx2 : Bool) (input : Buffer (BitVec 32)) (total : Nat)
    (stage16 : Buffer (BitVec 16)) : Buffer (BitVec 16) :=
  let r := if avx2 then stageVector input total 0 stage16 else (0, stage16)
  stageTail input total r.1 r.2

/-- `k_widen_bf16`. -/
def kWidenBf16 (w : Buffer (BitVec 16)) (v : Buffer Pattern) (total : Nat) : Buffer Pattern :=
  v.launch total fun i => (w i).setWidth 32 <<< 16

/-- `k_snap_bf16`. -/
def kSnapBf16 (v : Buffer Pattern) (total : Nat) : Buffer Pattern :=
  v.launch total fun i => (v i + (0x00007FFF#32 + ((v i >>> 16) &&& 1#32))) &&& 0xFFFF0000#32

/-! ## One value -/

theorem kSnapBf16_apply (v : Buffer Pattern) (total i : Nat) :
    kSnapBf16 v total i = if i < total then snapBf16Reg (v i) else v i := rfl

/-- The upper half of the snapped value. -/
theorem narrowBf16_eq (x : BitVec 32) : narrowBf16 x = (snapBf16Reg x >>> 16).setWidth 16 := by
  apply BitVec.eq_of_toNat_eq
  unfold narrowBf16 snapBf16Reg
  rw [BitVec.toNat_setWidth, BitVec.toNat_setWidth, BitVec.toNat_ushiftRight,
    BitVec.toNat_ushiftRight, Nat.shiftRight_eq_div_pow, Nat.shiftRight_eq_div_pow, and_high16]
  omega

/-- Nothing below the upper half is left in a snapped value. -/
theorem widen_narrowBf16 (x : BitVec 32) :
    (narrowBf16 x).setWidth 32 <<< 16 = snapBf16Reg x := by
  have hlt := (snapBf16Reg x).isLt
  have hmod : (snapBf16Reg x).toNat % 65536 = 0 := by
    rw [snapBf16Reg_eq]
    exact PowHistogram.snap_mod x
  apply BitVec.eq_of_toNat_eq
  rw [narrowBf16_eq, BitVec.toNat_shiftLeft, BitVec.toNat_setWidth, BitVec.toNat_setWidth,
    BitVec.toNat_ushiftRight, Nat.shiftRight_eq_div_pow, Nat.shiftLeft_eq]
  omega

/-- A value shifted down by 16 is not clamped. -/
theorem saturateU16_ushiftRight (y : BitVec 32) :
    saturateU16 (y >>> 16) = (y >>> 16).setWidth 16 := by
  have hlt := y.isLt
  have hy : (y >>> 16).toNat = y.toNat / 65536 := by
    rw [BitVec.toNat_ushiftRight, Nat.shiftRight_eq_div_pow]
  have hint : (y >>> 16).toInt = (y.toNat / 65536 : Nat) := by
    rw [BitVec.toInt_eq_toNat_of_lt (by omega), hy]
  unfold saturateU16
  rw [if_neg (by omega), if_neg (by omega)]

theorem narrowEpi32_apply (a : Epi32) (l : Nat) :
    saturateU16 (narrowEpi32 a l) = narrowBf16 (a l) :=
  saturateU16_ushiftRight _

/-! ## The loops -/

/-- The pack interleaves the halves of its operands; the permutation puts them in order. -/
theorem permute_packus (a c : Epi32) {l : Nat} (h : l < 16) :
    mm256Permute4x64 (mm256PackusEpi32 a c) 0xD8 l =
      saturateU16 (if l < 8 then a l else c (l - 8)) := by
  unfold mm256Permute4x64 mm256PackusEpi32
  interval_cases l <;> rfl

/-- **One vector iteration narrows sixteen values.** -/
theorem stageBody_eq (input : Buffer (BitVec 32)) (i : Nat) (stage16 : Buffer (BitVec 16))
    (j : Nat) :
    stageBody input i stage16 j =
      if i ≤ j ∧ j < i + 16 then narrowBf16 (input j) else stage16 j := by
  unfold stageBody mm256StoreuEpi16
  split
  · rename_i hj
    rw [permute_packus _ _ (show j - i < 16 by omega)]
    split
    · rw [narrowEpi32_apply, mm256LoaduEpi32, Nat.add_sub_cancel' hj.1]
    · rw [narrowEpi32_apply, mm256LoaduEpi32, show i + 8 + (j - i - 8) = j by omega]
  · rfl

/-- The vector loop has narrowed everything before the index it stops at. -/
theorem stageVector_eq (input : Buffer (BitVec 32)) (total i : Nat)
    (stage16 : Buffer (BitVec 16)) (hi : i ≤ total) :
    i ≤ (stageVector input total i stage16).1 ∧ (stageVector input total i stage16).1 ≤ total ∧
    ∀ j, (stageVector input total i stage16).2 j =
      if i ≤ j ∧ j < (stageVector input total i stage16).1 then narrowBf16 (input j)
      else stage16 j := by
  induction i, stage16 using stageVector.induct input total with
  | case1 i stage16 h ih =>
    obtain ⟨hle, htotal, hval⟩ := ih h
    rw [stageVector, if_pos h]
    refine ⟨by omega, htotal, fun j => ?_⟩
    rw [hval j, stageBody_eq]
    by_cases hj : i ≤ j ∧ j < i + 16
    · rw [if_pos hj, ite_self, if_pos (by omega)]
    · rw [if_neg hj]
      exact if_congr (by omega) rfl rfl
  | case2 i stage16 h =>
    rw [stageVector, if_neg h]
    exact ⟨Nat.le_refl i, hi, fun j => (if_neg (by omega)).symm⟩

/-- The scalar loop narrows the rest. -/
theorem stageTail_eq (input : Buffer (BitVec 32)) (total i : Nat)
    (stage16 : Buffer (BitVec 16)) (j : Nat) :
    stageTail input total i stage16 j =
      if i ≤ j ∧ j < total then narrowBf16 (input j) else stage16 j := by
  induction i, stage16 using stageTail.induct input total with
  | case1 i stage16 h ih =>
    rw [stageTail, if_pos h, ih]
    by_cases hj : j = i
    · subst hj
      rw [if_neg (by omega), if_pos (by omega), Function.update_self]
    · rw [Function.update_of_ne hj]
      exact if_congr (by omega) rfl rfl
  | case2 i stage16 h =>
    rw [stageTail, if_neg h, if_neg (by omega)]

/-- **The staging pass narrows every value and writes nothing else.** -/
theorem stageBf16_eq (avx2 : Bool) (input : Buffer (BitVec 32)) (total : Nat)
    (stage16 : Buffer (BitVec 16)) (j : Nat) :
    stageBf16 avx2 input total stage16 j =
      if j < total then narrowBf16 (input j) else stage16 j := by
  unfold stageBf16
  rw [stageTail_eq]
  cases avx2 with
  | false =>
    rw [if_neg Bool.false_ne_true]
    exact if_congr (by omega) rfl rfl
  | true =>
    obtain ⟨-, hle, hval⟩ := stageVector_eq input total 0 stage16 (Nat.zero_le total)
    rw [if_pos rfl, hval j]
    by_cases hj : j < (stageVector input total 0 stage16).1
    · rw [if_neg (by omega), if_pos (by omega), if_pos (by omega)]
    · rw [if_neg (show ¬ (0 ≤ j ∧ j < (stageVector input total 0 stage16).1) by omega)]
      exact if_congr (by omega) rfl rfl

/-- **The bf16 wire format loses nothing.**  Each staged value is the upper half of the snapped
logit at its index, nothing beyond the array is written, and widening gives what `k_snap_bf16`
would have. -/
theorem wire_exact (avx2 : Bool) (logits : Buffer Pattern) (total : Nat)
    (stage16 : Buffer (BitVec 16)) (dVals : Buffer Pattern) :
    (∀ i < total, stageBf16 avx2 logits total stage16 i =
      (snapBf16Reg (logits i) >>> 16).setWidth 16) ∧
    (∀ i, total ≤ i → stageBf16 avx2 logits total stage16 i = stage16 i) ∧
    ∀ i < total, kWidenBf16 (stageBf16 avx2 logits total stage16) dVals total i =
      kSnapBf16 logits total i := by
  refine ⟨fun i hi => ?_, fun i hi => ?_, fun i hi => ?_⟩
  · rw [stageBf16_eq, if_pos hi, narrowBf16_eq]
  · rw [stageBf16_eq, if_neg (by omega)]
  · rw [kWidenBf16, Buffer.launch_of_lt _ _ hi, stageBf16_eq, if_pos hi, widen_narrowBf16,
      kSnapBf16_apply, if_pos hi]

/-- A value whose rounding carries into the exponent, a wrapping NaN and fifteen zeros. -/
example : (List.range 17).map (stageBf16 true
    (fun i => if i = 3 then 0x3fffffff#32 else if i = 16 then 0xffffffff#32 else 0#32) 17
    fun _ => 1#16) = (List.range 17).map fun i => if i = 3 then 0x4000#16 else 0#16 := by
  simp [List.range_succ, stageBf16_eq, narrowBf16]

end PowGpu
