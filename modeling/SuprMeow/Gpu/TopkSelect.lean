import Mathlib.Algebra.BigOperators.Group.Finset.Basic
import Mathlib.Order.Interval.Finset.Nat
import SuprMeow.Gpu.FlatSort

/-!
# The top-K radix select (`pow_gpu.cu`)

With `MEOW_TOPK_SELECT` the sorting calls take only the keys of the first value buckets that
together hold `topk` keys, sort those, and read the first `topk` back; the statistics come from
that prefix and from sums over the unsorted values.

* `deviceBranch`, `hostBranch` — which sort a call runs; `deviceBranch_ne_select`: the device
  path never selects;
* `hostSelect` — the select branch of the host path;
* `kTopkCutoff_eq`, `kTopkCompact_eq` — the cutoff, and what any order of slot allocations
  compacts;
* `hostSorted_rank`, `hostSelect_id` — the ids it returns.

The host keys are `k_pack_seg` keys: `topk_bin_of` then reads bits 2 to 17 of the value field,
the 56-bit sort drops its top byte, and the id mask keeps 18 of 32 id bits.

Values enter the statistics through `Arith`, in exact arithmetic: any commutative addition, and
any exponential.
-/

set_option autoImplicit false

open Binary32

namespace PowGpu

/-! ## Which sort a call runs -/

/-- Environment switches, and whether the select scratch could be allocated. -/
structure Flags where
  histogram : Bool
  sort32 : Bool
  select : Bool
  stats1blk : Bool
  ready : Bool

inductive Branch where
  | refused
  | histogram
  | sort32
  | select
  | flat
  | segmented
  deriving DecidableEq

/-- `cand_cap`. -/
def candCap : Nat := 65536

/-- `topk` as both calls clamp it. -/
def clampTopk (topk n : Nat) : Nat := if topk < 1 ∨ topk > n then n else topk

/-- `pow_gpu_sort_and_stats_device_k` up to its first sort. -/
def deviceBranch (f : Flags) (S n topk : Nat) : Branch :=
  let topk := clampTopk topk n
  if S < 1 ∨ n < 1 then .refused
  else if f.histogram ∧ topk ≤ 64 then .histogram
  else if S > 64 ∨ n > 2 ^ 18 then .refused
  else if !f.sort32 ∧ f.select ∧ f.ready ∧ topk > 0 ∧ topk ≤ candCap ∧ n > 4 * candCap then .select
  else if f.sort32 then .sort32
  else .flat

/-- `pow_gpu_sort_and_stats_batched_k` up to its first sort. -/
def hostBranch (f : Flags) (snapBf16 : Bool) (S n topk : Nat) : Branch :=
  let topk := clampTopk topk n
  if S < 1 ∨ n < 1 then .refused
  else if f.histogram ∧ snapBf16 ∧ topk ≤ 64 then .histogram
  else if f.select ∧ f.ready ∧ topk > 0 ∧ topk ≤ candCap ∧ n > 4 * candCap then .select
  else if S ≤ 64 ∧ n ≤ 2 ^ 18 then .flat
  else .segmented

/-- **The device path never selects**: it refuses more than `2 ^ 18` ids, and the select wants
more than `4 * cand_cap`. -/
theorem deviceBranch_ne_select (f : Flags) (S n topk : Nat) :
    deviceBranch f S n topk ≠ .select := by
  unfold deviceBranch
  dsimp only
  split
  · exact nofun
  split
  · exact nofun
  split
  · exact nofun
  rename_i hsize
  split
  · rename_i hsel
    have hcap : 4 * candCap = 2 ^ 18 := rfl
    omega
  · split <;> exact nofun

theorem hostBranch_select {f : Flags} {snapBf16 : Bool} {S n topk : Nat}
    (h : hostBranch f snapBf16 S n topk = .select) :
    1 ≤ topk ∧ topk ≤ candCap ∧ 4 * candCap < n ∧ clampTopk topk n = topk := by
  unfold hostBranch at h
  dsimp only at h
  split at h
  · cases h
  split at h
  · cases h
  split at h
  · rename_i hsel
    obtain ⟨-, -, hpos, hle, hn⟩ := hsel
    -- a clamped `topk` would be `n`, which exceeds the capacity
    have hclamp : clampTopk topk n = topk := by
      unfold clampTopk at hle ⊢
      split
      · rename_i hc
        rw [if_pos hc] at hle
        omega
      · rfl
    rw [hclamp] at hpos hle
    exact ⟨hpos, hle, hn, hclamp⟩
  · split at h <;> cases h

/-! ## Kernels -/

def TOPK_HIST_BITS : Nat := 16
def TOPK_HIST_BINS : Nat := 2 ^ TOPK_HIST_BITS

/-- `topk_bin_of`. -/
def topkBinOf (key : BitVec 64) : Nat :=
  ((key >>> (18 + 32 - TOPK_HIST_BITS)) &&& BitVec.ofNat 64 (TOPK_HIST_BINS - 1)).toNat

/-- `k_topk_hist` on segment `seg`, with its `atomicAdd`s in the order `order`. -/
def kTopkHist (keys : Buffer (BitVec 64)) (n seg : Nat) (order : List Nat) (hist : Buffer Nat) :
    Buffer Nat :=
  order.foldl (fun g i => atomicAdd g (topkBinOf (keys (seg * n + i)))) hist

/-- The bucket walk of `k_topk_cutoff` from bucket `b` on: the bucket it stops at and the
running count. -/
def cutoffWalk (g : Buffer Nat) (K : Nat) : Nat → Nat → Nat → Nat × Nat
  | 0, b, acc => (b, acc)
  | fuel + 1, b, acc =>
    let acc := add32 acc (g b)
    if acc ≥ K then (b, acc) else cutoffWalk g K fuel (b + 1) acc

/-- `k_topk_cutoff` on one segment: cutoff and overflow. -/
def kTopkCutoff (g : Buffer Nat) (K cap : Nat) : Nat × Nat :=
  let (b, acc) := cutoffWalk g K TOPK_HIST_BINS 0 0
  let b := if b ≥ TOPK_HIST_BINS then TOPK_HIST_BINS - 1 else b
  (b, if acc > cap then acc else 0)

/-- `k_topk_compact` on segment `seg`: slots are allocated in the order `order`.  The result is
the slot array and the count. -/
def kTopkCompact (keys : Buffer (BitVec 64)) (n cap cut seg : Nat) (order : List Nat)
    (dst : Buffer (BitVec 64)) : Buffer (BitVec 64) × Nat :=
  order.foldl (fun st i =>
    let k := keys (seg * n + i)
    if topkBinOf k ≤ cut then
      (if st.2 < cap then Function.update st.1 st.2 k else st.1, st.2 + 1)
    else st) (dst, 0)

/-- The id `k_topk_unpack` reads from a sorted slot. -/
def topkId (k : BitVec 64) : BitVec 32 := (k &&& 0x3FFFF#64).setWidth 32

/-- The statistics' view of the values: a value, and `exp(v * inv_temp - head * inv_temp)`. -/
structure Arith (G : Type) where
  value : Pattern → G
  term : Pattern → Pattern → G

section Stats

variable {G : Type} [AddCommMonoid G] (A : Arith G)

/-- The rank bucket of a rank. -/
def rankBucket (r : Nat) : Nat :=
  if r < 50 then 1 else if r < 500 then 2 else if r < 2000 then 3 else 4

/-- `k_stats_seg` on one segment. -/
def kStatsSeg (sorted : Buffer Pattern) (n : Nat) (head : Pattern) (j : Nat) : G :=
  if j = 0 then ∑ i ∈ Finset.range n, A.term (sorted i) head
  else if j = 5 then ∑ i ∈ Finset.range n, A.value (sorted i)
  else ∑ i ∈ Finset.range n, if rankBucket i = j then A.value (sorted i) else 0

/-- `k_stats_topk` on one segment: no branch of it adds to statistic 4. -/
def kStatsTopk (topv : Buffer Pattern) (K : Nat) (raw : Buffer Pattern) (n : Nat)
    (head : Pattern) (j : Nat) : G :=
  if j = 0 then ∑ i ∈ Finset.range n, A.term (raw i) head
  else if j = 5 then ∑ i ∈ Finset.range n, A.value (raw i)
  else ∑ r ∈ Finset.range K,
    if r < 2000 ∧ rankBucket r = j then A.value (topv r) else 0

end Stats

/-- Host results of the select; row `s` of each array is stream `s`. -/
structure TopkOut (G : Type) where
  idx : Buffer (Buffer (BitVec 32))
  val : Buffer (Buffer Pattern)
  heads : Buffer Pattern
  stats : Buffer (Buffer G)

/-- Scratch before the call. -/
structure SelectScratch (G : Type) where
  keysIn : Buffer (BitVec 64)
  cand : Buffer (Buffer (BitVec 64))
  candSorted : Buffer (Buffer (BitVec 64))
  stats : Buffer (Buffer G)

/-- The orders of the atomic operations of each segment. -/
structure SelectRun where
  histOrder : Nat → List Nat
  slotOrder : Nat → List Nat

/-- The values the host path works on, after `k_snap_bf16`. -/
def hostVals (snapBf16 : Bool) (logits : Buffer Pattern) : Buffer Pattern :=
  fun i => if snapBf16 then snapBf16Reg (logits i) else logits i

/-- Cutoff and overflow of each segment. -/
def hostCutoff (R : SelectRun) (keys : Buffer (BitVec 64)) (n K : Nat) (s : Nat) : Nat × Nat :=
  kTopkCutoff (kTopkHist keys n s (R.histOrder s) fun _ => 0) K candCap

/-- The sorted slots of each segment; `k_topk_offsets` ends a segment at its count. -/
def hostSorted {G : Type} (C : CubRadixSort 64) (R : SelectRun) (b : SelectScratch G)
    (keys : Buffer (BitVec 64)) (n K : Nat) (s : Nat) : Buffer (BitVec 64) :=
  let cand := kTopkCompact keys n candCap (hostCutoff R keys n K s).1 s (R.slotOrder s) (b.cand s)
  (b.candSorted s).write 0 (C.sortKeys 0 56 (cand.1.slice 0 (min cand.2 candCap)))

/-- The select branch of `pow_gpu_sort_and_stats_batched_k`; `none` when the call does not take
it or a segment overflows. -/
def hostSelect {G : Type} [AddCommMonoid G] (C : CubRadixSort 64) (A : Arith G) (f : Flags)
    (R : SelectRun) (b : SelectScratch G) (snapBf16 : Bool) (logits : Buffer Pattern)
    (S n topk : Nat) : Option (TopkOut G) :=
  if hostBranch f snapBf16 S n topk ≠ .select then none
  else
    let K := clampTopk topk n
    let vals := hostVals snapBf16 logits
    let keys := kPackSeg vals b.keysIn n (S * n)
    if ∀ s < S, (hostCutoff R keys n K s).2 = 0 then
      let sorted := hostSorted C R b keys n K
      let idx := fun s r => topkId (sorted s r)
      let val := fun s r => vals (s * n + (idx s r).toNat)
      let heads := fun s => val s 0
      some {
        idx := idx
        val := val
        heads := heads
        stats := fun s j => (if f.stats1blk then b.stats s j else 0) +
          kStatsTopk A (val s) K (vals.row n s) n (heads s) j }
    else none

/-! ## Cutoff -/

/-- Whichever value bits the bucket of a host key reads, they are bits 2 to 17 of the value
field. -/
def hostBucket (v : Buffer Pattern) (i : Nat) : Nat := (transformVal (v i)).toNat / 4 % 65536

theorem topkBinOf_eq (k : BitVec 64) : topkBinOf k = k.toNat / 2 ^ 34 % 2 ^ 16 := by
  have h : ∀ m : Nat, m &&& (BitVec.ofNat 64 (TOPK_HIST_BINS - 1)).toNat = m % 2 ^ 16 :=
    fun m => Nat.and_two_pow_sub_one_eq_mod m 16
  rw [topkBinOf, BitVec.toNat_and, h, BitVec.toNat_ushiftRight, Nat.shiftRight_eq_div_pow]
  rfl

theorem kPackSeg_bin (vals : Buffer Pattern) (keys : Buffer (BitVec 64)) {S n s i : Nat}
    (hn : n ≤ 2 ^ 32) (hs : s < S) (hi : i < n) :
    topkBinOf (kPackSeg vals keys n (S * n) (s * n + i)) = hostBucket (vals.row n s) i := by
  have hd := transformVal_toNat (vals (s * n + i))
  rw [topkBinOf_eq, kPackSeg_toNat vals keys hn hs hi, hostBucket, Buffer.row, hd]
  omega

theorem hostBucket_lt (v : Buffer Pattern) (i : Nat) : hostBucket v i < TOPK_HIST_BINS :=
  Nat.mod_lt _ (by decide)

section Cutoff

variable {key : Nat → Nat} {n : Nat} {g : Buffer Nat} (hn : n < 2 ^ 32)
  (hg : ∀ b, g b = (BucketSelect.bucket key n b).card)
include hn hg

/-- The walk stops at the first bucket whose cumulative count reaches `K`. -/
theorem cutoffWalk_eq {K : Nat} :
    ∀ fuel b, BucketSelect.below key n b < K → K ≤ BucketSelect.below key n (b + fuel) →
      ∃ c, cutoffWalk g K fuel b (BucketSelect.below key n b) =
          (c, BucketSelect.below key n (c + 1)) ∧ c < b + fuel ∧
        BucketSelect.below key n c < K ∧ K ≤ BucketSelect.below key n (c + 1) := by
  intro fuel
  induction fuel with
  | zero =>
    intro b hlt hle
    rw [Nat.add_zero] at hle
    omega
  | succ fuel ih =>
    intro b hlt hle
    have hacc : add32 (BucketSelect.below key n b) (g b) = BucketSelect.below key n (b + 1) := by
      rw [hg, add32, ← BucketSelect.below_succ,
        Nat.mod_eq_of_lt (lt_of_le_of_lt (BucketSelect.below_le _) hn)]
    rw [cutoffWalk, hacc]
    split
    · rename_i hK
      exact ⟨b, rfl, by omega, hlt, hK⟩
    · rename_i hK
      obtain ⟨c, hc, hcb, h1, h2⟩ := ih (b + 1) (by omega)
        (by rw [Nat.add_right_comm]; exact hle)
      exact ⟨c, hc, by omega, h1, h2⟩

/-- **The cutoff bucket and the overflow count.** -/
theorem kTopkCutoff_eq {K cap : Nat} (hK : 1 ≤ K) (hKn : K ≤ n)
    (hbins : ∀ i < n, key i < TOPK_HIST_BINS) :
    ∃ c, kTopkCutoff g K cap =
        (c,
          if BucketSelect.below key n (c + 1) > cap then BucketSelect.below key n (c + 1) else 0) ∧
      BucketSelect.below key n c < K ∧ K ≤ BucketSelect.below key n (c + 1) := by
  have h0 : BucketSelect.below key n 0 = 0 := BucketSelect.below_zero
  obtain ⟨c, hc, hlt, h1, h2⟩ := cutoffWalk_eq hn hg (K := K) TOPK_HIST_BINS 0 (by omega)
    (by rw [Nat.zero_add, BucketSelect.below_all hbins]; exact hKn)
  rw [h0] at hc
  refine ⟨c, ?_, h1, h2⟩
  rw [kTopkCutoff, hc]
  dsimp only
  rw [if_neg (show ¬ c ≥ TOPK_HIST_BINS by omega)]

end Cutoff

/-! ## Compaction -/

/-- The ids up to the cutoff. -/
def candidates (keys : Buffer (BitVec 64)) (n cut seg : Nat) (order : List Nat) : List Nat :=
  order.filter fun i => topkBinOf (keys (seg * n + i)) ≤ cut

theorem candidates_snoc_of_le {keys : Buffer (BitVec 64)} {n cut seg i : Nat} (order : List Nat)
    (h : topkBinOf (keys (seg * n + i)) ≤ cut) :
    candidates keys n cut seg (order ++ [i]) = candidates keys n cut seg order ++ [i] := by
  simp [candidates, h]

theorem candidates_snoc_of_not_le {keys : Buffer (BitVec 64)} {n cut seg i : Nat}
    (order : List Nat) (h : ¬ topkBinOf (keys (seg * n + i)) ≤ cut) :
    candidates keys n cut seg (order ++ [i]) = candidates keys n cut seg order := by
  simp [candidates, h]

/-- **Any order of slot allocations compacts the keys up to the cutoff.** -/
theorem kTopkCompact_eq (keys : Buffer (BitVec 64)) {n cap cut seg : Nat} (dst : Buffer (BitVec 64))
    (order : List Nat) (hcap : (candidates keys n cut seg order).length ≤ cap) :
    (kTopkCompact keys n cap cut seg order dst).2 = (candidates keys n cut seg order).length ∧
    ∀ c < (candidates keys n cut seg order).length,
      ((candidates keys n cut seg order).map fun i => keys (seg * n + i))[c]? =
        some ((kTopkCompact keys n cap cut seg order dst).1 c) := by
  induction order using List.reverseRecOn with
  | nil => exact ⟨rfl, fun c hc => absurd hc (Nat.not_lt_zero c)⟩
  | append_singleton order i ih =>
    have hsnoc : kTopkCompact keys n cap cut seg (order ++ [i]) dst =
        if topkBinOf (keys (seg * n + i)) ≤ cut then
          (if (kTopkCompact keys n cap cut seg order dst).2 < cap then
              Function.update (kTopkCompact keys n cap cut seg order dst).1
                (kTopkCompact keys n cap cut seg order dst).2 (keys (seg * n + i))
            else (kTopkCompact keys n cap cut seg order dst).1,
            (kTopkCompact keys n cap cut seg order dst).2 + 1)
        else kTopkCompact keys n cap cut seg order dst := by
      rw [kTopkCompact, List.foldl_append]
      rfl
    by_cases hsel : topkBinOf (keys (seg * n + i)) ≤ cut
    · rw [candidates_snoc_of_le order hsel, List.length_append, List.length_singleton] at hcap ⊢
      obtain ⟨hcnt, hslots⟩ := ih (by omega)
      rw [hsnoc, if_pos hsel, hcnt, if_pos (by omega), List.map_append, List.map_singleton]
      refine ⟨rfl, fun c hc => ?_⟩
      dsimp only
      by_cases hlt : c < (candidates keys n cut seg order).length
      · rw [List.getElem?_append_left (by rwa [List.length_map]), hslots c hlt,
          Function.update_of_ne (by omega)]
      · -- the slot just allocated
        have hc' : c = (candidates keys n cut seg order).length := by omega
        rw [hc', Function.update_self, List.getElem?_append_right (by rw [List.length_map]),
          List.length_map, Nat.sub_self]
        rfl
    · rw [candidates_snoc_of_not_le order hsel] at hcap ⊢
      rw [hsnoc, if_neg hsel]
      exact ih hcap

/-- The compacted segment as a list. -/
theorem kTopkCompact_slice (keys : Buffer (BitVec 64)) {n cap cut seg : Nat}
    (dst : Buffer (BitVec 64)) (order : List Nat)
    (hcap : (candidates keys n cut seg order).length ≤ cap) :
    (kTopkCompact keys n cap cut seg order dst).1.slice 0
        (min (kTopkCompact keys n cap cut seg order dst).2 cap) =
      (candidates keys n cut seg order).map fun i => keys (seg * n + i) := by
  obtain ⟨hcnt, hslots⟩ := kTopkCompact_eq keys dst order hcap
  rw [hcnt, min_eq_left hcap]
  refine List.ext_getElem? fun c => ?_
  rw [Buffer.slice, Nat.sub_zero, List.getElem?_map]
  by_cases hc : c < (candidates keys n cut seg order).length
  · rw [hslots c hc, List.getElem?_range' hc]
    simp
  · rw [List.getElem?_eq_none (by simpa using hc), List.getElem?_eq_none (by simpa using hc)]
    rfl

/-! ## The ids of the select -/

/-- Fewer than `K` ids lie in smaller buckets. -/
def InFirstBuckets (v : Buffer Pattern) (n K i : Nat) : Prop :=
  BucketSelect.below (hostBucket v) n (hostBucket v i) < K

instance (v : Buffer Pattern) (n K i : Nat) : Decidable (InFirstBuckets v n K i) :=
  inferInstanceAs (Decidable (_ < _))

/-- Bits 0 to 55 of the host key of id `i`. -/
def lowKey (v : Buffer Pattern) (i : Nat) : Nat := (transformVal (v i)).toNat % 2 ^ 24 * 2 ^ 32 + i

/-- `j` lies in the first buckets, with `r` of their ids before it by the low key. -/
def SelectedAt (v : Buffer Pattern) (n K r j : Nat) : Prop :=
  j < n ∧ InFirstBuckets v n K j ∧
    (List.range n).countP (fun i => InFirstBuckets v n K i ∧ lowKey v i < lowKey v j) = r

/-- A sort by the selected bits, when a key function names them. -/
theorem sortKeys_map (C : CubRadixSort 64) {b e : Nat} {κ : Nat → Nat} {k : Nat → BitVec 64}
    {l : List Nat} (hk : ∀ i ∈ l, digits b e (k i) = κ i) (hinj : Ranking.Separates κ l) :
    C.sortKeys b e (l.map k) = (Ranking.ranking κ l).map k := by
  have hsep : Ranking.Separates (digits b e) (l.map k) := by
    intro x hx y hy hxy
    obtain ⟨i, hi, rfl⟩ := List.mem_map.1 hx
    obtain ⟨j, hj, rfl⟩ := List.mem_map.1 hy
    rw [hk i hi, hk j hj] at hxy
    rw [hinj i hi j hj hxy]
  rw [C.eq_ranking hsep]
  refine (Ranking.eq_ranking hsep ((Ranking.ranking_perm κ l).map k) ?_).symm
  rw [List.pairwise_map]
  refine (Ranking.ranking_pairwise κ l).imp_of_mem fun {i j} hi hj hij => ?_
  rwa [hk i (Ranking.mem_ranking.1 hi), hk j (Ranking.mem_ranking.1 hj)]

/-- **The cutoff of a segment**, from the ids' buckets. -/
theorem hostCutoff_eq {R : SelectRun} (keys : Buffer (BitVec 64)) (vals : Buffer Pattern)
    {S n K s : Nat} (hn : n < 2 ^ 31) (hs : s < S) (hhist : (R.histOrder s).Perm (List.range n))
    (hK : 1 ≤ K) (hKn : K ≤ n) :
    ∃ c, hostCutoff R (kPackSeg vals keys n (S * n)) n K s =
        (c, if BucketSelect.below (hostBucket (vals.row n s)) n (c + 1) > candCap then
          BucketSelect.below (hostBucket (vals.row n s)) n (c + 1) else 0) ∧
      BucketSelect.below (hostBucket (vals.row n s)) n c < K ∧
      K ≤ BucketSelect.below (hostBucket (vals.row n s)) n (c + 1) := by
  have hbucket : ∀ c, BucketSelect.bucket
      (fun i => topkBinOf (kPackSeg vals keys n (S * n) (s * n + i))) n c =
      BucketSelect.bucket (hostBucket (vals.row n s)) n c := fun c => by
    ext i
    rw [BucketSelect.mem_bucket, BucketSelect.mem_bucket]
    exact and_congr_right fun hi => by rw [kPackSeg_bin vals keys (by omega) hs hi]
  have hg := fun c => (foldl_atomicAdd_eq
    (fun i => topkBinOf (kPackSeg vals keys n (S * n) (s * n + i)))
    (show n < 2 ^ 32 by omega) hhist c).trans (congrArg Finset.card (hbucket c))
  exact kTopkCutoff_eq (show n < 2 ^ 32 by omega) hg hK hKn fun i _ => hostBucket_lt _ i

section Ids

variable {G : Type} (C : CubRadixSort 64) {R : SelectRun} (b : SelectScratch G)
  (vals : Buffer Pattern) {S n K s : Nat} (hn : n < 2 ^ 31) (hs : s < S)
  (hhist : (R.histOrder s).Perm (List.range n)) (hslot : (R.slotOrder s).Perm (List.range n))
  (hK : 1 ≤ K) (hKn : K ≤ n)
  (hovf : (hostCutoff R (kPackSeg vals b.keysIn n (S * n)) n K s).2 = 0)
include hn hs hhist hslot hK hKn hovf

/-- Without overflow the candidates are the ids of the first buckets, at least `K` of them. -/
theorem hostCandidates :
    (∀ i < n, topkBinOf (kPackSeg vals b.keysIn n (S * n) (s * n + i)) ≤
        (hostCutoff R (kPackSeg vals b.keysIn n (S * n)) n K s).1 ↔
      InFirstBuckets (vals.row n s) n K i) ∧
    K ≤ (candidates (kPackSeg vals b.keysIn n (S * n)) n
      (hostCutoff R (kPackSeg vals b.keysIn n (S * n)) n K s).1 s (R.slotOrder s)).length ∧
    (candidates (kPackSeg vals b.keysIn n (S * n)) n
      (hostCutoff R (kPackSeg vals b.keysIn n (S * n)) n K s).1 s (R.slotOrder s)).length ≤
      candCap := by
  have hbin := fun i (hi : i < n) => kPackSeg_bin vals b.keysIn (show n ≤ 2 ^ 32 by omega) hs hi
  obtain ⟨c, hcut, hlt, hle⟩ := hostCutoff_eq b.keysIn vals hn hs hhist hK hKn
  rw [hcut] at hovf ⊢
  have hcap : BucketSelect.below (hostBucket (vals.row n s)) n (c + 1) ≤ candCap := by
    by_contra hgt
    rw [if_pos (Nat.lt_of_not_le hgt)] at hovf
    omega
  have hmem : ∀ i < n, topkBinOf (kPackSeg vals b.keysIn n (S * n) (s * n + i)) ≤ c ↔
      InFirstBuckets (vals.row n s) n K i := fun i hi => by
    rw [hbin i hi, InFirstBuckets]
    constructor
    · intro h
      exact lt_of_le_of_lt (BucketSelect.below_mono h) hlt
    · intro h
      by_contra hgt
      have := @BucketSelect.below_mono (hostBucket (vals.row n s)) n _ _
        (show c + 1 ≤ hostBucket (vals.row n s) i by omega)
      omega
  have hlen : (candidates (kPackSeg vals b.keysIn n (S * n)) n c s (R.slotOrder s)).length =
      BucketSelect.below (hostBucket (vals.row n s)) n (c + 1) := by
    rw [candidates, ← List.countP_eq_length_filter, hslot.countP_eq, BucketSelect.below,
      Finset.card_def, Finset.filter_val, Finset.range_val, Multiset.range, Multiset.filter_coe,
      Multiset.coe_card, List.countP_eq_length_filter]
    refine congrArg List.length (List.filter_congr fun i hi => ?_)
    rw [hbin i (List.mem_range.1 hi), decide_eq_decide]
    omega
  rw [hlen]
  exact ⟨hmem, hle, hcap⟩

/-- **The sorted slot `r` holds the key of the id selected at `r`.** -/
theorem hostSorted_rank {r : Nat} (hr : r < K) :
    ∃ j, hostSorted C R b (kPackSeg vals b.keysIn n (S * n)) n K s r =
        kPackSeg vals b.keysIn n (S * n) (s * n + j) ∧
      ∀ i, SelectedAt (vals.row n s) n K r i ↔ i = j := by
  obtain ⟨hmem, hlen, hcap⟩ := hostCandidates b vals hn hs hhist hslot hK hKn hovf
  have hcand : ∀ i, i ∈ candidates (kPackSeg vals b.keysIn n (S * n)) n
      (hostCutoff R (kPackSeg vals b.keysIn n (S * n)) n K s).1 s (R.slotOrder s) ↔
      i < n ∧ InFirstBuckets (vals.row n s) n K i := fun i => by
    rw [candidates, List.mem_filter, hslot.mem_iff, List.mem_range, decide_eq_true_eq]
    exact and_congr_right fun hi => hmem i hi
  have hsep : Ranking.Separates (lowKey (vals.row n s)) (candidates
      (kPackSeg vals b.keysIn n (S * n)) n
      (hostCutoff R (kPackSeg vals b.keysIn n (S * n)) n K s).1 s (R.slotOrder s)) := by
    intro i hi j hj hij
    have hi' := ((hcand i).1 hi).1
    have hj' := ((hcand j).1 hj).1
    unfold lowKey at hij
    omega
  have hdig : ∀ i ∈ candidates (kPackSeg vals b.keysIn n (S * n)) n
      (hostCutoff R (kPackSeg vals b.keysIn n (S * n)) n K s).1 s (R.slotOrder s),
      digits 0 56 (kPackSeg vals b.keysIn n (S * n) (s * n + i)) = lowKey (vals.row n s) i := by
    intro i hi
    have hi' := ((hcand i).1 hi).1
    have hd := transformVal_toNat (vals (s * n + i))
    rw [digits, kPackSeg_toNat vals b.keysIn (by omega) hs hi', lowKey, Buffer.row, hd]
    omega
  have hslots := kTopkCompact_slice (kPackSeg vals b.keysIn n (S * n)) (b.cand s)
    (R.slotOrder s) hcap
  have hsort := sortKeys_map C hdig hsep
  have hrlen : r < (Ranking.ranking (lowKey (vals.row n s)) (candidates
      (kPackSeg vals b.keysIn n (S * n)) n
      (hostCutoff R (kPackSeg vals b.keysIn n (S * n)) n K s).1 s (R.slotOrder s))).length := by
    rw [Ranking.length_ranking]
    omega
  have hnd : (candidates (kPackSeg vals b.keysIn n (S * n)) n
      (hostCutoff R (kPackSeg vals b.keysIn n (S * n)) n K s).1 s (R.slotOrder s)).Nodup :=
    (hslot.nodup_iff.2 List.nodup_range).filter _
  have hcount : ∀ j, (candidates (kPackSeg vals b.keysIn n (S * n)) n
      (hostCutoff R (kPackSeg vals b.keysIn n (S * n)) n K s).1 s (R.slotOrder s)).countP
        (fun i => decide (lowKey (vals.row n s) i < lowKey (vals.row n s) j)) =
      (List.range n).countP fun i => InFirstBuckets (vals.row n s) n K i ∧
        lowKey (vals.row n s) i < lowKey (vals.row n s) j := fun j => by
    rw [candidates, List.countP_filter, hslot.countP_eq]
    refine List.countP_congr fun i hi => ?_
    rw [Bool.and_eq_true, decide_eq_true_eq, decide_eq_true_eq, decide_eq_true_eq,
      hmem i (List.mem_range.1 hi), and_comm]
  obtain ⟨j, hj⟩ : ∃ j, (Ranking.ranking (lowKey (vals.row n s)) (candidates
      (kPackSeg vals b.keysIn n (S * n)) n
      (hostCutoff R (kPackSeg vals b.keysIn n (S * n)) n K s).1 s (R.slotOrder s)))[r]? = some j :=
    ⟨_, List.getElem?_eq_getElem hrlen⟩
  refine ⟨j, ?_, fun i => ?_⟩
  · rw [hostSorted, hslots, hsort]
    conv_lhs => rw [← Nat.zero_add r]
    exact Buffer.write_of_some (by rw [List.getElem?_map, hj]; rfl)
  · have hiff := @Ranking.getElem?_ranking_iff _ _ _ (lowKey (vals.row n s)) _ hsep hnd r i
    rw [hcand, hcount, hj, Option.some.injEq, and_assoc] at hiff
    exact hiff.symm.trans eq_comm

/-- The id a sorted slot yields is the selected id, cut to 18 bits. -/
theorem hostSelect_id {r : Nat} (hr : r < K) (id : Nat) :
    (topkId (hostSorted C R b (kPackSeg vals b.keysIn n (S * n)) n K s r)).toNat = id ↔
      ∃ j, SelectedAt (vals.row n s) n K r j ∧ id = j % 2 ^ 18 := by
  obtain ⟨j, hj, huniq⟩ := hostSorted_rank C b vals hn hs hhist hslot hK hKn hovf hr
  have hjn : j < n := ((huniq j).2 rfl).1
  have hid : (topkId (kPackSeg vals b.keysIn n (S * n) (s * n + j))).toNat = j % 2 ^ 18 := by
    rw [topkId, flatIdMask_toNat, kPackSeg_toNat vals b.keysIn (by omega) hs hjn]
    omega
  rw [hj, hid]
  constructor
  · intro h
    exact ⟨j, (huniq j).2 rfl, h.symm⟩
  · rintro ⟨i, hi, rfl⟩
    rw [(huniq i).1 hi]

end Ids

end PowGpu
