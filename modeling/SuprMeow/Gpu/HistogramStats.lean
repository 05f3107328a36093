import Mathlib.Algebra.Field.Basic
import Mathlib.Data.Rat.Cast.Defs
import SuprMeow.Gpu.Histogram
import SuprMeow.Gpu.TopkExact

/-!
# The statistics of the histogram sampler (`pow_histogram.cu`)

`summarize` also writes six sums: a softmax denominator, the values of four rank ranges, and the
values of all ranks.  It never looks at a sorted list: each bin adds its value times the overlap
of its ranks with a range, 256 lanes share the bins, and a tree adds the lanes.

* `overlap`, `binStats`, `laneStats`, `reduce` — the kernel's sums;
* `sum_overlap` — bin by bin, overlaps count ranks of the sorted list;
* `histogramStats_exact` — in exact arithmetic the six sums are those of `k_stats_seg`.
-/

set_option autoImplicit false

open Binary32

namespace PowHistogram

open PowGpu

/-! ## The kernel -/

/-- `value`: what a bin's ids are worth. -/
def value (k : BitVec 32) : Pattern :=
  (if k &&& 0x8000#32 ≠ 0#32 then k else ~~~k &&& 0x7fff#32) <<< 16

/-- `overlap`: how many of `count` ranks from `start` on lie in `[lo, hi)`. -/
def overlap (start count lo hi : Nat) : Nat :=
  let a := max start lo
  let b := min (add32 start count) hi
  if b > a then b - a else 0

/-- One thread's search for the first bin that holds ids. -/
def headLoop (row : Buffer Nat) (begin rank : Nat) (head : Pattern) : Pattern :=
  ((List.range binsPerThread).foldl (fun (st : Pattern × Nat) j =>
    let count := row (begin + j)
    (if count ≠ 0 ∧ st.2 = 0 then value (BitVec.ofNat 32 (begin + j)) else st.1,
      add32 st.2 count)) (head, rank)).1

/-- The shared `head`, uninitialised at `head0`. -/
def summarizeHead (scan : BlockScan) (row : Buffer Nat) (head0 : Pattern) : Pattern :=
  let total := fun t => binTotal row (t * binsPerThread)
  (List.range threads).foldl (fun head t =>
    headLoop row (t * binsPerThread) (scan.exclusiveSum total t) head) head0

section Kernel

variable {F : Type} [Semiring F] (A : Arith F) (ranks : Buffer Nat) (n : Nat) (head : Pattern)

/-- What one bin adds to `sums[j]`. -/
def binStats (bin j : Nat) : F :=
  let start := ranks bin
  let count : Nat := ((if bin + 1 < bins then ranks (bin + 1) else n) + 2 ^ 32 - start) % 2 ^ 32
  if count ≠ 0 then
    let v := value (BitVec.ofNat 32 bin)
    match j with
    | 0 => (count : F) * A.term v head
    | 1 => A.value v * (overlap start count 0 50 : F)
    | 2 => A.value v * (overlap start count 50 500 : F)
    | 3 => A.value v * (overlap start count 500 2000 : F)
    | 4 => A.value v * (overlap start count 2000 n : F)
    | 5 => A.value v * (count : F)
    | _ => 0
  else 0

/-- One lane: the bins `t`, `t + threads`, … below `bins`. -/
def laneStats (j t : Nat) : F :=
  (List.range' t ((bins - t + threads - 1) / threads) threads).foldl
    (fun sum bin => sum + binStats A ranks n head bin j) 0

/-- The tree over the lanes, from stride `2 ^ (m - 1)` down to 1. -/
def reduce : Nat → Buffer F → Buffer F
  | 0, lanes => lanes
  | m + 1, lanes => reduce m fun t => if t < 2 ^ m then lanes t + lanes (t + 2 ^ m) else lanes t

end Kernel

/-- The statistics `summarize` stores for one row of counts; it does not read its `k`. -/
def summarizeStats {F : Type} [Semiring F] (A : Arith F) (scan : BlockScan) (row : Buffer Nat)
    (n _k : Nat) (head0 : Pattern) (j : Nat) : F :=
  reduce 8 (laneStats A (summarize scan row) n (summarizeHead scan row head0) j) 0

/-- Exact arithmetic in a field, for any function in place of `exp`. -/
def exactArith {F : Type} [Field F] (exp : F → F) (invTemp : F) : Arith F where
  value v := (toRat v : F)
  term v head := exp (toRat v * invTemp - toRat head * invTemp)

/-! ## Lanes and tree -/

section Lanes

variable {F : Type} [Semiring F]

/-- The tree adds up the first `2 ^ m` lanes. -/
theorem reduce_zero : ∀ (m : Nat) (lanes : Buffer F),
    reduce m lanes 0 = ∑ t ∈ Finset.range (2 ^ m), lanes t := by
  intro m
  induction m with
  | zero => intro lanes; simp [reduce]
  | succ m ih =>
    intro lanes
    rw [reduce, ih, Nat.pow_succ, Nat.mul_two, Finset.sum_range_add, ← Finset.sum_add_distrib]
    refine Finset.sum_congr rfl fun t ht => ?_
    rw [if_pos (Finset.mem_range.1 ht), Nat.add_comm]

theorem foldl_lane (f : Nat → F) (step : Nat) :
    ∀ len start z, (List.range' start len step).foldl (fun sum bin => sum + f bin) z =
      z + ∑ i ∈ Finset.range len, f (start + step * i) := by
  intro len
  induction len with
  | zero => intro start z; simp
  | succ len ih =>
    intro start z
    rw [List.range'_succ, List.foldl_cons, ih, Finset.sum_range_succ', Nat.mul_zero, Nat.add_zero,
      add_assoc, add_comm (f start)]
    refine congrArg (z + ·) (congrArg (· + f start) (Finset.sum_congr rfl fun i _ => ?_))
    rw [Nat.mul_succ, Nat.add_assoc, Nat.add_comm step]

theorem sum_lanes (f : Nat → F) (T : Nat) :
    ∀ m, ∑ t ∈ Finset.range T, ∑ i ∈ Finset.range m, f (t + T * i) =
      ∑ b ∈ Finset.range (m * T), f b := by
  intro m
  induction m with
  | zero => simp
  | succ m ih =>
    rw [Nat.succ_mul, Finset.sum_range_add, ← ih, ← Finset.sum_add_distrib]
    refine Finset.sum_congr rfl fun t _ => ?_
    rw [Finset.sum_range_succ, Nat.mul_comm m, Nat.add_comm t]

/-- **The lanes and the tree add every bin once.** -/
theorem reduce_laneStats (A : Arith F) (ranks : Buffer Nat) (n : Nat) (head : Pattern) (j : Nat) :
    reduce 8 (laneStats A ranks n head j) 0 =
      ∑ bin ∈ Finset.range bins, binStats A ranks n head bin j := by
  have hlane : ∀ t < threads, laneStats A ranks n head j t =
      ∑ i ∈ Finset.range binsPerThread, binStats A ranks n head (t + threads * i) j := by
    intro t ht
    have hlen : (bins - t + threads - 1) / threads = binsPerThread := by
      unfold bins threads binsPerThread at *
      unfold bins threads
      omega
    rw [laneStats, hlen, foldl_lane, zero_add]
  have hthreads : 2 ^ 8 = threads := by decide
  have hbins : binsPerThread * threads = bins := by decide
  rw [reduce_zero, hthreads, Finset.sum_congr rfl fun t ht => hlane t (Finset.mem_range.1 ht),
    sum_lanes fun bin => binStats A ranks n head bin j, hbins]

end Lanes

/-! ## The value of a bin -/

theorem value_toNat {b : Nat} (hb : b < 65536) : (value (BitVec.ofNat 32 b)).toNat =
    if b < 32768 then (32767 - b) * 65536 else b * 65536 := by
  have hlt : b % 2 ^ 32 = b := Nat.mod_eq_of_lt (by omega)
  have hsign := shiftRight16_and_sign (BitVec.ofNat 32 b) (by rw [BitVec.toNat_ofNat]; omega)
  rw [BitVec.toNat_ofNat, hlt] at hsign
  unfold value
  split
  · rename_i hneg
    rw [ne_eq, hsign] at hneg
    rw [if_neg hneg, BitVec.toNat_shiftLeft, BitVec.toNat_ofNat, Nat.shiftLeft_eq, hlt]
    omega
  · rename_i hpos
    rw [not_not, hsign] at hpos
    rw [if_pos hpos, BitVec.toNat_shiftLeft, Nat.shiftLeft_eq,
      not_and_low15 _ (by rw [BitVec.toNat_ofNat, hlt]; exact hpos), BitVec.toNat_ofNat, hlt]
    omega

/-- **A bin's value ranks as the snapped values in it.** -/
theorem descending_value {w : Pattern} (hw : w.toNat % 65536 = 0) :
    descending (value (BitVec.ofNat 32 (descending w / 65536))) = descending w := by
  have hlt := descending_lt w
  have hval := value_toNat (show descending w / 65536 < 65536 by omega)
  have hwlt := w.isLt
  unfold descending at *
  split_ifs at hval ⊢ <;> omega

theorem overlap_eq {start count lo hi : Nat} (h : start + count < 2 ^ 32) :
    overlap start count lo hi =
      ((Finset.Ico start (start + count)).filter fun r => lo ≤ r ∧ r < hi).card := by
  have hset : ((Finset.Ico start (start + count)).filter fun r => lo ≤ r ∧ r < hi) =
      Finset.Ico (max start lo) (min (start + count) hi) := by
    ext r
    rw [Finset.mem_filter, Finset.mem_Ico, Finset.mem_Ico]
    omega
  rw [hset, Nat.card_Ico, overlap, add32, Nat.mod_eq_of_lt h]
  split <;> omega

/-! ## Bins by rank -/

section Ranks

variable {logits : Buffer Pattern} {n s : Nat}

/-- The snapped values of stream `s`. -/
def snapped (logits : Buffer Pattern) (n s : Nat) : Buffer Pattern :=
  fun i => snap (logits (s * n + i))

theorem binOf_eq (i : Nat) : binOf logits n s i = descending (snapped logits n s i) / 65536 :=
  key_toNat _

theorem rankedVal_mem {v : Buffer Pattern} {r : Nat} (hr : r < n) :
    ∃ i < n, rankedVal v n r = v i :=
  ⟨_, mem_rankedIds.1 (List.mem_of_getElem? (rankedIds_getD hr)), rfl⟩

theorem exists_rank {v : Buffer Pattern} {i : Nat} (hi : i < n) :
    ∃ r < n, rankedVal v n r = v i := by
  obtain ⟨r, hr⟩ := List.mem_iff_getElem?.1 (mem_rankedIds.2 hi : i ∈ rankedIds v n)
  have hrn : r < n := by
    obtain ⟨hr', -⟩ := List.getElem?_eq_some_iff.1 hr
    rwa [length_rankedIds] at hr'
  exact ⟨r, hrn, congrArg v (Option.some.inj ((rankedIds_getD hrn).symm.trans hr))⟩

theorem descending_rankedVal_mono {v : Buffer Pattern} (hnan : ∀ i < n, isNaN (v i) = false)
    {r r' : Nat} (hrr : r ≤ r') (hr' : r' < n) :
    descending (rankedVal v n r) ≤ descending (rankedVal v n r') := by
  rcases Nat.eq_or_lt_of_le hrr with rfl | hlt
  · exact le_rfl
  · obtain ⟨h, hget⟩ := List.getElem?_eq_some_iff.1 (rankedIds_getD (v := v) (hrr.trans_lt hr'))
    obtain ⟨h', hget'⟩ := List.getElem?_eq_some_iff.1 (rankedIds_getD (v := v) hr')
    have hpw := List.pairwise_iff_getElem.1 (rankedIds_pairwise hnan) r r' h h' hlt
    rw [hget, hget'] at hpw
    rcases Prod.Lex.toLex_le_toLex.1 hpw with hd | hd
    · exact hd.le
    · exact hd.1.le

variable (hnan : ∀ i < n, isNaN (snapped logits n s i) = false)
include hnan

/-- **The ranks of a bin are those its start ranks bracket.** -/
theorem binOf_lt_iff {b r : Nat} (hr : r < n) :
    descending (rankedVal (snapped logits n s) n r) / 65536 < b ↔
      r < BucketSelect.below (binOf logits n s) n b := by
  refine BucketSelect.lt_below_iff
    (g := fun r => descending (rankedVal (snapped logits n s) n r) / 65536)
    (fun r r' hrr hr' => Nat.div_le_div_right (descending_rankedVal_mono hnan hrr hr')) ?_ hr
  have hsum := sum_rankedVal (snapped logits n s) n
    fun w => if descending w / 65536 < b then 1 else 0
  rw [← Finset.card_filter, ← Finset.card_filter] at hsum
  unfold BucketSelect.below
  simp only [binOf_eq]
  exact hsum

theorem mem_Ico_below_iff {b r : Nat} (hr : r < n) :
    descending (rankedVal (snapped logits n s) n r) / 65536 = b ↔
      BucketSelect.below (binOf logits n s) n b ≤ r ∧
        r < BucketSelect.below (binOf logits n s) n (b + 1) := by
  have h := binOf_lt_iff hnan (b := b) hr
  have h' := binOf_lt_iff hnan (b := b + 1) hr
  omega

theorem rankedVal_value {b r : Nat} (hr : r < n)
    (hb : BucketSelect.below (binOf logits n s) n b ≤ r)
    (hb' : r < BucketSelect.below (binOf logits n s) n (b + 1)) :
    descending (rankedVal (snapped logits n s) n r) =
      descending (value (BitVec.ofNat 32 b)) := by
  obtain ⟨i, -, hi⟩ := rankedVal_mem (v := snapped logits n s) hr
  rw [← (mem_Ico_below_iff hnan hr).2 ⟨hb, hb'⟩]
  refine (descending_value ?_).symm
  rw [hi]
  exact snap_mod _

/-! ## Sums by overlap -/

/-- **Bin by bin, overlaps count the ranks of the sorted list.** -/
theorem sum_overlap {F : Type} [Semiring F] (hn : n < 2 ^ 32) {c : Pattern → F}
    (hc : ∀ w w', descending w = descending w' → c w = c w') (lo hi : Nat) :
    ∑ b ∈ Finset.range bins, c (value (BitVec.ofNat 32 b)) *
        (overlap (BucketSelect.below (binOf logits n s) n b)
          (BucketSelect.bucket (binOf logits n s) n b).card lo hi : F) =
      ∑ r ∈ Finset.range n,
        if lo ≤ r ∧ r < hi then c (rankedVal (snapped logits n s) n r) else 0 := by
  have hall : BucketSelect.below (binOf logits n s) n bins = n :=
    BucketSelect.below_all fun i _ => key_lt_bins _
  have hblocks := @BucketSelect.sum_below (binOf logits n s) n F _
    (fun r => if lo ≤ r ∧ r < hi then c (rankedVal (snapped logits n s) n r) else 0) bins
  rw [hall] at hblocks
  rw [← hblocks]
  refine Finset.sum_congr rfl fun b _ => ?_
  have hle := @BucketSelect.below_le (binOf logits n s) n (b + 1)
  have hsucc := @BucketSelect.below_succ (binOf logits n s) n b
  have hconst : ∀ r ∈ Finset.Ico (BucketSelect.below (binOf logits n s) n b)
      (BucketSelect.below (binOf logits n s) n (b + 1)),
      (if lo ≤ r ∧ r < hi then c (rankedVal (snapped logits n s) n r) else 0) =
        if lo ≤ r ∧ r < hi then c (value (BitVec.ofNat 32 b)) else 0 := by
    intro r hr
    rw [Finset.mem_Ico] at hr
    rw [hc _ _ (rankedVal_value hnan (by omega) hr.1 hr.2)]
  have hov := @overlap_eq (BucketSelect.below (binOf logits n s) n b)
    (BucketSelect.bucket (binOf logits n s) n b).card lo hi (by omega)
  rw [Finset.sum_congr rfl hconst, ← Finset.sum_filter, Finset.sum_const, nsmul_eq_mul, hsucc, hov]
  exact ((Nat.cast_commute _ _).eq).symm

/-! ## Head -/

/-- The first bin that holds ids holds the id of rank 0. -/
theorem first_bin (hn0 : 0 < n) :
    ∃ b0 < bins, (BucketSelect.bucket (binOf logits n s) n b0).card ≠ 0 ∧
      (∀ b < b0, (BucketSelect.bucket (binOf logits n s) n b).card = 0) ∧
      descending (value (BitVec.ofNat 32 b0)) =
        descending (rankedVal (snapped logits n s) n 0) := by
  have hlt := descending_lt (rankedVal (snapped logits n s) n 0)
  obtain ⟨b0, hb0⟩ : ∃ b0, b0 = descending (rankedVal (snapped logits n s) n 0) / 65536 := ⟨_, rfl⟩
  obtain ⟨hlo, hhi⟩ := (mem_Ico_below_iff hnan hn0).1 hb0.symm
  have hsucc := @BucketSelect.below_succ (binOf logits n s) n b0
  refine ⟨b0, by unfold bins; omega, by omega, fun b hb => ?_, ?_⟩
  · have hmono := @BucketSelect.below_mono (binOf logits n s) n _ _ (Nat.succ_le_of_lt hb)
    have := @BucketSelect.below_succ (binOf logits n s) n b
    rw [Nat.succ_eq_add_one] at hmono
    omega
  · exact (rankedVal_value hnan hn0 hlo hhi).symm

end Ranks

section Head

variable {row : Buffer Nat} {b0 : Nat} (hne : row b0 ≠ 0) (hfirst : ∀ b < b0, row b = 0)
include hne hfirst

theorem sum_eq_zero_iff {c : Nat} : ∑ b ∈ Finset.range c, row b = 0 ↔ c ≤ b0 := by
  rw [Finset.sum_eq_zero_iff]
  constructor
  · intro h
    by_contra hlt
    exact hne (h b0 (Finset.mem_range.2 (by omega)))
  · intro h b hb
    rw [Finset.mem_range] at hb
    exact hfirst b (by omega)

/-- One thread sets the head when the first bin is its own. -/
theorem headLoop_eq (htotal : ∑ b ∈ Finset.range bins, row b < 2 ^ 32) (begin : Nat)
    (head : Pattern) : ∀ m, begin + m ≤ bins →
      (List.range m).foldl (fun (st : Pattern × Nat) j =>
          let count := row (begin + j)
          (if count ≠ 0 ∧ st.2 = 0 then value (BitVec.ofNat 32 (begin + j)) else st.1,
            add32 st.2 count)) (head, ∑ b ∈ Finset.range begin, row b) =
        (if begin ≤ b0 ∧ b0 < begin + m then value (BitVec.ofNat 32 b0) else head,
          ∑ b ∈ Finset.range (begin + m), row b) := by
  intro m
  induction m with
  | zero => intro _; exact Prod.ext (if_neg (by omega)).symm rfl
  | succ m ih =>
    intro hm
    have hlt := sum_lt htotal hm
    rw [← Nat.add_assoc, Finset.sum_range_succ] at hlt
    rw [List.range_succ, List.foldl_append, ih (by omega), List.foldl_cons, List.foldl_nil]
    simp only [sum_eq_zero_iff hne hfirst]
    rw [← Nat.add_assoc, Finset.sum_range_succ, add32, Nat.mod_eq_of_lt hlt]
    refine Prod.ext ?_ rfl
    dsimp only
    by_cases hb : begin + m = b0
    · rw [if_pos ⟨hb ▸ hne, hb.le⟩, if_pos (by omega), hb]
    · have hskip : ¬ (row (begin + m) ≠ 0 ∧ begin + m ≤ b0) := fun h =>
        h.1 (hfirst _ (lt_of_le_of_ne h.2 hb))
      rw [if_neg hskip]
      exact if_congr (by omega) rfl rfl

/-- **The shared head is the value of the first bin that holds ids.** -/
theorem summarizeHead_eq (htotal : ∑ b ∈ Finset.range bins, row b < 2 ^ 32) (hb0 : b0 < bins)
    (scan : BlockScan) (head0 : Pattern) :
    summarizeHead scan row head0 = value (BitVec.ofNat 32 b0) := by
  have hloop : ∀ T ≤ threads, (List.range T).foldl (fun head t =>
      headLoop row (t * binsPerThread)
        (scan.exclusiveSum (fun t => binTotal row (t * binsPerThread)) t) head) head0 =
      if b0 < T * binsPerThread then value (BitVec.ofNat 32 b0) else head0 := by
    intro T
    induction T with
    | zero => intro _; exact (if_neg (by omega)).symm
    | succ T ih =>
      intro hT
      have hle : (T + 1) * binsPerThread ≤ bins := Nat.mul_le_mul_right binsPerThread hT
      rw [Nat.succ_mul] at hle ⊢
      rw [List.range_succ, List.foldl_append, ih (by omega), List.foldl_cons, List.foldl_nil,
        scan_prefix htotal scan (show T < threads by omega), headLoop,
        headLoop_eq hne hfirst htotal _ _ _ hle]
      dsimp only
      by_cases hb : b0 < T * binsPerThread
      · rw [if_neg (by omega), if_pos hb, if_pos (by omega)]
      · rw [if_neg hb]
        exact if_congr (by omega) rfl rfl
  exact (hloop threads le_rfl).trans (if_pos hb0)

end Head

/-! ## The six statistics -/

/-- The ranks statistic `j` covers, and what each adds. -/
def statLo : Nat → Nat
  | 2 => 50
  | 3 => 500
  | 4 => 2000
  | _ => 0

def statHi (n : Nat) : Nat → Nat
  | 1 => 50
  | 2 => 500
  | 3 => 2000
  | _ => n

def statTerm {F : Type} (A : Arith F) (head : Pattern) (j : Nat) (v : Pattern) : F :=
  if j = 0 then A.term v head else A.value v

section Stats

variable {F : Type} [Field F] {A : Arith F}

/-- What a bin adds is its term times the overlap of its ranks. -/
theorem binStats_eq {ranks : Buffer Nat} {key : Nat → Nat} {n b j : Nat} (head : Pattern)
    (hn : n < 2 ^ 32) (hkey : ∀ i < n, key i < bins)
    (hranks : ∀ b < bins, ranks b = BucketSelect.below key n b) (hb : b < bins) (hj : j < 6) :
    binStats A ranks n head b j = statTerm A head j (value (BitVec.ofNat 32 b)) *
      (overlap (BucketSelect.below key n b) (BucketSelect.bucket key n b).card (statLo j)
        (statHi n j) : F) := by
  have hsucc := @BucketSelect.below_succ key n b
  have hle := @BucketSelect.below_le key n (b + 1)
  have hnext : (if b + 1 < bins then ranks (b + 1) else n) = BucketSelect.below key n (b + 1) := by
    split
    · rename_i h
      exact hranks _ h
    · rename_i h
      rw [show b + 1 = bins by omega, BucketSelect.below_all hkey]
  have hcount : ((if b + 1 < bins then ranks (b + 1) else n) + 2 ^ 32 - ranks b) % 2 ^ 32 =
      (BucketSelect.bucket key n b).card := by
    rw [hnext, hranks b hb]
    omega
  have hall : overlap (BucketSelect.below key n b) (BucketSelect.bucket key n b).card 0 n =
      (BucketSelect.bucket key n b).card := by
    rw [overlap, add32, Nat.mod_eq_of_lt (by omega)]
    split <;> omega
  have hnone : ∀ lo hi, overlap (BucketSelect.below key n b) 0 lo hi = 0 := by
    intro lo hi
    rw [overlap, add32, Nat.mod_eq_of_lt (by omega)]
    exact if_neg (by omega)
  unfold binStats
  dsimp only
  rw [hcount, hranks b hb]
  split
  · rcases (by omega : j = 0 ∨ j = 1 ∨ j = 2 ∨ j = 3 ∨ j = 4 ∨ j = 5) with
      rfl | rfl | rfl | rfl | rfl | rfl
    · show (_ : F) * A.term _ head = A.term _ head * (overlap _ _ 0 n : F)
      rw [hall, mul_comm]
    · rfl
    · rfl
    · rfl
    · rfl
    · show A.value _ * _ = A.value _ * (overlap _ _ 0 n : F)
      rw [hall]
  · rename_i h
    rw [not_not.1 h, hnone, Nat.cast_zero, mul_zero]

/-- `k_stats_seg` sums the same ranks of a sorted list. -/
theorem kStatsSeg_eq (sorted : Buffer Pattern) (n : Nat) (head : Pattern) {j : Nat} (hj : j < 6) :
    kStatsSeg A sorted n head j = ∑ r ∈ Finset.range n,
      if statLo j ≤ r ∧ r < statHi n j then statTerm A head j (sorted r) else 0 := by
  have hbucket : ∀ r, (rankBucket r = 1 ↔ r < 50) ∧ (rankBucket r = 2 ↔ 50 ≤ r ∧ r < 500) ∧
      (rankBucket r = 3 ↔ 500 ≤ r ∧ r < 2000) ∧ (rankBucket r = 4 ↔ 2000 ≤ r) := fun r => by
    unfold rankBucket
    split_ifs <;> omega
  have hall : ∀ f : Nat → F, ∑ r ∈ Finset.range n, f r =
      ∑ r ∈ Finset.range n, if 0 ≤ r ∧ r < n then f r else 0 := fun f =>
    Finset.sum_congr rfl fun r hr => (if_pos ⟨r.zero_le, Finset.mem_range.1 hr⟩).symm
  have hpart : ∀ lo hi, (∀ r < n, rankBucket r = j ↔ lo ≤ r ∧ r < hi) →
      (∑ r ∈ Finset.range n, if rankBucket r = j then A.value (sorted r) else 0) =
        ∑ r ∈ Finset.range n, if lo ≤ r ∧ r < hi then A.value (sorted r) else 0 := fun lo hi h =>
    Finset.sum_congr rfl fun r hr => if_congr (h r (Finset.mem_range.1 hr)) rfl rfl
  rcases (by omega : j = 0 ∨ j = 1 ∨ j = 2 ∨ j = 3 ∨ j = 4 ∨ j = 5) with
    rfl | rfl | rfl | rfl | rfl | rfl
  · exact hall _
  · exact hpart 0 50 fun r _ => by have := hbucket r; omega
  · exact hpart 50 500 fun r _ => (hbucket r).2.1
  · exact hpart 500 2000 fun r _ => (hbucket r).2.2.1
  · exact hpart 2000 n fun r hr => by have := hbucket r; omega
  · exact hall _

/-- **The kernel's statistics are sums over the sorted list.** -/
theorem summarizeStats_eq {logits : Buffer Pattern} {n s : Nat} {order : Nat → List Nat}
    (hn : n < 2 ^ 32) (hnan : ∀ i < n, isNaN (snapped logits n s i) = false)
    (horder : (order s).Perm (List.range n)) (scan : BlockScan) (k : Nat) (head0 : Pattern)
    {j : Nat} (hj : j < 6)
    (hterm : ∀ head w w', descending w = descending w' →
      statTerm A head j w = statTerm A head j w') :
    summarizeStats A scan (countValues logits n s (order s) fun _ => 0) n k head0 j =
      ∑ r ∈ Finset.range n, if statLo j ≤ r ∧ r < statHi n j then
        statTerm A (summarizeHead scan (countValues logits n s (order s) fun _ => 0) head0) j
          (rankedVal (snapped logits n s) n r) else 0 := by
  rw [summarizeStats, reduce_laneStats, ← sum_overlap hnan hn (hterm _)]
  refine Finset.sum_congr rfl fun b hb => ?_
  exact binStats_eq _ hn (fun i _ => key_lt_bins _)
    (fun b hb => @ranksOf_eq scan order logits n s hn horder b hb) (Finset.mem_range.1 hb) hj

end Stats

/-! ## Against the full sort -/

theorem toRat_congr {u w : Pattern} (h : descending u = descending w) : toRat u = toRat w := by
  rw [toRat, toRat, (descending_eq_iff u w).1 h]

theorem toRat_le {u w : Pattern} (h : descending w ≤ descending u) : toRat u ≤ toRat w := by
  have hlt := (descending_lt_iff u w).not.1 (Nat.not_lt.2 h)
  unfold toRat
  gcongr
  exact_mod_cast Int.not_lt.1 hlt

/-- The statistics of one row against its values `v` and their sorted list. -/
structure ExactStats {F : Type} [Field F] (exp : F → F) (invTemp : F) (v : Buffer Pattern)
    (n : Nat) (head : Pattern) (stats : Nat → F) : Prop where
  head_max : ∀ i < n, toRat (v i) ≤ toRat head
  head_mem : ∃ i < n, toRat (v i) = toRat head
  softmax : stats 0 =
    ∑ i ∈ Finset.range n, exp (toRat (v i) * invTemp - toRat head * invTemp)
  top : stats 1 = ∑ r ∈ Finset.Ico 0 (min 50 n), (toRat (rankedVal v n r) : F)
  upper : stats 2 = ∑ r ∈ Finset.Ico 50 (min 500 n), (toRat (rankedVal v n r) : F)
  lower : stats 3 = ∑ r ∈ Finset.Ico 500 (min 2000 n), (toRat (rankedVal v n r) : F)
  tail : stats 4 = ∑ r ∈ Finset.Ico 2000 n, (toRat (rankedVal v n r) : F)
  total : stats 5 = ∑ r ∈ Finset.Ico 0 n, (toRat (rankedVal v n r) : F)

theorem sum_if_between {G : Type} [AddCommMonoid G] (N lo hi : Nat) (f : Nat → G) :
    (∑ i ∈ Finset.range N, if lo ≤ i ∧ i < hi then f i else 0) =
      ∑ i ∈ Finset.Ico lo (min hi N), f i := by
  rw [← Finset.sum_filter]
  refine Finset.sum_congr ?_ fun _ _ => rfl
  ext i
  rw [Finset.mem_filter, Finset.mem_range, Finset.mem_Ico]
  omega

/-- The head has the value of rank 0. -/
theorem summarizeHead_rank {logits : Buffer Pattern} {n s : Nat} {order : Nat → List Nat}
    (hn0 : 0 < n) (hn : n < 2 ^ 32) (hnan : ∀ i < n, isNaN (snapped logits n s i) = false)
    (horder : (order s).Perm (List.range n)) (scan : BlockScan) (head0 : Pattern) :
    descending (summarizeHead scan (countValues logits n s (order s) fun _ => 0) head0) =
      descending (rankedVal (snapped logits n s) n 0) := by
  have hcount := countValues_eq (s := s) logits hn horder
  have htotal : ∑ b ∈ Finset.range bins, countValues logits n s (order s) (fun _ => 0) b <
      2 ^ 32 := by
    rw [Finset.sum_congr rfl fun b _ => hcount b, BucketSelect.sum_card_bucket]
    exact lt_of_le_of_lt (BucketSelect.below_le _) hn
  obtain ⟨b0, hb0, hne, hfirst, hrank⟩ := first_bin hnan hn0
  rw [@summarizeHead_eq _ b0 (by rw [hcount]; exact hne)
    (fun b hb => by rw [hcount]; exact hfirst b hb) htotal hb0]
  exact hrank

/-- **The histogram statistics are exact.**  Every row's sums are those over its sorted snapped
values, the head is the largest of them, and `k_stats_seg` on the full sort has the same six. -/
theorem histogramStats_exact {F : Type} [Field F] (exp : F → F) (invTemp : F) (C : CubRadixSort 64)
    (scan : BlockScan) {logits : Buffer Pattern} {S n : Nat} (k : Nat) (hn : 20 ≤ n ∧ n < 2 ^ 31)
    (hfin : ∀ i < S * n, isFinite (snap (logits i)) = true) {order : Nat → List Nat}
    (horder : ∀ s < S, (order s).Perm (List.range n)) (head0 : Pattern) (b : SortScratch) :
    ∀ s < S,
      ExactStats exp invTemp (snapped logits n s) n
          (summarizeHead scan (countValues logits n s (order s) fun _ => 0) head0)
          (summarizeStats (exactArith exp invTemp) scan
            (countValues logits n s (order s) fun _ => 0) n k head0) ∧
        ∀ j < 6, summarizeStats (exactArith exp invTemp) scan
            (countValues logits n s (order s) fun _ => 0) n k head0 j =
          kStatsSeg (exactArith exp invTemp)
            ((segSort C (fun i => snap (logits i)) S n b).val.row n s) n
            ((segSort C (fun i => snap (logits i)) S n b).val (s * n)) j := by
  intro s hs
  have hn32 : n < 2 ^ 32 := by omega
  have hnan : ∀ i < n, isNaN (snapped logits n s i) = false := fun i hi =>
    isNaN_of_isFinite (hfin _ (block_lt hs hi))
  obtain ⟨head, hhead⟩ : ∃ head,
      head = summarizeHead scan (countValues logits n s (order s) fun _ => 0) head0 := ⟨_, rfl⟩
  have hrank := summarizeHead_rank (by omega) hn32 hnan (horder s hs) scan head0
  have hterm : ∀ j, ∀ head w w', descending w = descending w' →
      statTerm (exactArith exp invTemp) head j w = statTerm (exactArith exp invTemp) head j w' := by
    intro j head w w' h
    unfold statTerm exactArith
    dsimp only
    rw [toRat_congr h]
  have hstats := fun j (hj : j < 6) => summarizeStats_eq (A := exactArith exp invTemp) hn32 hnan
    (horder s hs) scan k head0 hj (hterm j)
  rw [← hhead] at hrank hstats ⊢
  have hpart : ∀ j lo hi, j < 6 → j ≠ 0 → statLo j = lo → statHi n j = hi →
      summarizeStats (exactArith exp invTemp) scan
          (countValues logits n s (order s) fun _ => 0) n k head0 j =
        ∑ r ∈ Finset.Ico lo (min hi n), (toRat (rankedVal (snapped logits n s) n r) : F) := by
    intro j lo hi hj h0 hlo hhi
    rw [hstats j hj, hlo, hhi, sum_if_between]
    exact Finset.sum_congr rfl fun r _ => if_neg h0
  constructor
  · constructor
    case head_max =>
      intro i hi
      obtain ⟨r, hr, hri⟩ := exists_rank (v := snapped logits n s) hi
      refine toRat_le ?_
      rw [hrank, ← hri]
      exact descending_rankedVal_mono hnan r.zero_le hr
    case head_mem =>
      obtain ⟨i, hi, hi0⟩ := rankedVal_mem (v := snapped logits n s) (show 0 < n by omega)
      exact ⟨i, hi, toRat_congr (by rw [hrank, hi0])⟩
    case softmax =>
      rw [hstats 0 (by decide), ← sum_rankedVal (snapped logits n s) n fun w =>
        exp (toRat w * invTemp - toRat head * invTemp)]
      exact Finset.sum_congr rfl fun r hr => if_pos ⟨r.zero_le, Finset.mem_range.1 hr⟩
    case top => exact hpart 1 0 50 (by decide) (by decide) rfl rfl
    case upper => exact hpart 2 50 500 (by decide) (by decide) rfl rfl
    case lower => exact hpart 3 500 2000 (by decide) (by decide) rfl rfl
    case tail => rw [hpart 4 2000 n (by decide) (by decide) rfl rfl, min_self]
    case total => rw [hpart 5 0 n (by decide) (by decide) rfl rfl, min_self]
  · intro j hj
    have hfull := segSort_rank C (fun i => snap (logits i)) (show n ≤ 2 ^ 32 by omega)
      (fun i hi => isNaN_of_isFinite (hfin i hi)) b
    have h0 := (hfull.val_eq hs (show 0 < n by omega)).2
    rw [Nat.add_zero] at h0
    rw [hstats j hj, kStatsSeg_eq _ _ _ hj]
    refine Finset.sum_congr rfl fun r hr => if_congr Iff.rfl ?_ rfl
    rw [Finset.mem_range] at hr
    show _ = statTerm _ _ j ((segSort C (fun i => snap (logits i)) S n b).val (s * n + r))
    rw [(hfull.val_eq hs hr).2, h0]
    unfold statTerm exactArith
    dsimp only
    rw [toRat_congr hrank]
    rfl

/-- Twenty ones add up to twenty. -/
theorem histogramStats_exact_ones :
    summarizeStats (exactArith (fun x => x + 1) (1 : Rat)) BlockScan.sequential
      (countValues (fun _ => 0x3f800000#32) 20 0 (List.range 20) fun _ => 0) 20 1 0#32 5 = 20 := by
  have h := (@histogramStats_exact Rat _ (fun x => x + 1) 1 (CubRadixSort.stableSort 64)
    BlockScan.sequential (fun _ => 0x3f800000#32) 1 20 1 ⟨by decide, by decide⟩
    (fun _ _ => by decide) (fun _ => List.range 20) (fun _ _ => List.Perm.refl _) 0#32
    ⟨fun _ => 0, fun _ => 0, ⟨fun _ => 0, fun _ => 0⟩⟩ 0 (by decide)).1.total
  have hone : toRat (snap 0x3f800000#32) = 1 := by decide +kernel
  rw [h]
  show ∑ r ∈ Finset.Ico 0 20, ((toRat (snap 0x3f800000#32) : Rat) : Rat) = 20
  rw [hone, Finset.sum_const, Nat.card_Ico]
  norm_num

end PowHistogram
