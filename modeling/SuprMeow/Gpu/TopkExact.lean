import SuprMeow.Gpu.TopkSelect

/-!
# The top-K radix select against the full sort

* `MatchesFull` — what the select promises: ids, values and statistics of the full sort;
* `SelectOk` — the inputs on which it keeps the promise, stream by stream;
* `hostSelect_iff` — the one holds exactly when the other does;
* `select_exact_iff` — the same against the segmented sort, and the device path never selects.
-/

set_option autoImplicit false

open Binary32

namespace PowGpu

/-! ## The select against the full sort -/

/-- The value of rank `r`. -/
def rankedVal (v : Buffer Pattern) (n r : Nat) : Pattern := v ((rankedIds v n).getD r 0)

/-- The select returns what the full sort `full` has, with the statistics of `k_stats_seg`. -/
structure MatchesFull {G : Type} [AddCommMonoid G] (A : Arith G) (out : TopkOut G) (full : Ranked)
    (S n K : Nat) : Prop where
  idx : ∀ s < S, ∀ r < K, out.idx s r = full.idx (s * n + r)
  val : ∀ s < S, ∀ r < K, out.val s r = full.val (s * n + r)
  stats : ∀ s < S, ∀ j < 6,
    out.stats s j = kStatsSeg A (full.val.row n s) n (full.val (s * n)) j

/-- Fewer than `K` ids come before `i` in the full order. -/
def InFront (v : Buffer Pattern) (n K i : Nat) : Prop :=
  i < n ∧ (List.range n).countP (fun j => decide (rankKey v j < rankKey v i)) < K

/-- `a` gives each id of the front a stand-in among the ids of the first buckets: itself, or an id
that differs by a multiple of `2 ^ 18`.  By the low 24 value bits and the id, the stand-ins come in
the order of the front, before every other id of those buckets. -/
structure FrontKept (v : Buffer Pattern) (n K : Nat) (a : Nat → Nat) : Prop where
  mem : ∀ i, InFront v n K i → a i < n ∧ InFirstBuckets v n K (a i)
  fits : ∀ i, InFront v n K i → a i % 2 ^ 18 = i
  mono : ∀ i, InFront v n K i → ∀ i', InFront v n K i' → rankKey v i < rankKey v i' →
    lowKey v (a i) < lowKey v (a i')
  first : ∀ i, InFront v n K i → ∀ j < n, InFirstBuckets v n K j →
    (∀ i', InFront v n K i' → j ≠ a i') → lowKey v (a i) < lowKey v j

/-- The part of statistic `j` that the select never adds up: of the rank buckets, the ranks from
`K` on and all ranks from 2000 on. -/
def leftOut {G : Type} [AddCommMonoid G] (A : Arith G) (v : Buffer Pattern) (n K j : Nat) : G :=
  if j = 0 ∨ j = 5 then 0
  else ∑ r ∈ Finset.range n,
    if rankBucket r = j ∧ ¬(r < K ∧ r < 2000) then A.value (rankedVal v n r) else 0

/-- When the select is right for one stream, on its logits and on what `d_stats` held: the front
has its stand-ins, and `d_stats` held what the select leaves out. -/
structure SelectOk {G : Type} [AddCommMonoid G] (A : Arith G) (base : Nat → G) (v : Buffer Pattern)
    (n K : Nat) : Prop where
  front : ∃ a, FrontKept v n K a
  stats : ∀ j < 6, base j = leftOut A v n K j

theorem rankedIds_getD {v : Buffer Pattern} {n r : Nat} (h : r < n) :
    (rankedIds v n)[r]? = some ((rankedIds v n).getD r 0) := by
  obtain ⟨id, hid, -⟩ := rankedIds_getElem? v h
  rw [List.getD_eq_getElem?_getD, hid, Option.getD_some]

theorem Ranked.HoldsRanks.val_eq {full : Ranked} {v : Buffer Pattern} {S n s r : Nat}
    (h : full.HoldsRanks v S n) (hs : s < S) (hr : r < n) :
    (full.idx (s * n + r)).toNat = (rankedIds (v.row n s) n).getD r 0 ∧
      full.val (s * n + r) = rankedVal (v.row n s) n r := by
  obtain ⟨id, hid, hidx, hval⟩ := h s hs r hr
  have heq : (rankedIds (v.row n s) n).getD r 0 = id :=
    Option.some.inj ((rankedIds_getD hr).symm.trans hid)
  rw [rankedVal, heq]
  exact ⟨hidx, hval⟩

section Sums

variable {G : Type} [AddCommMonoid G]

/-- A sum over the ranks is a sum over the ids. -/
theorem sum_rankedVal (v : Buffer Pattern) (n : Nat) (f : Pattern → G) :
    ∑ r ∈ Finset.range n, f (rankedVal v n r) = ∑ i ∈ Finset.range n, f (v i) := by
  refine Finset.sum_nbij (fun r => (rankedIds v n).getD r 0) ?_ ?_ ?_ fun _ _ => rfl
  · intro r hr
    rw [Finset.mem_range] at hr ⊢
    exact mem_rankedIds.1 (List.mem_of_getElem? (rankedIds_getD hr))
  · intro r hr r' hr' heq
    simp only [Finset.coe_range, Set.mem_Iio] at hr hr'
    have hnd : (rankedIds v n).Nodup := (rankedIds_perm v n).nodup_iff.2 List.nodup_range
    exact (List.getElem?_inj (by rwa [length_rankedIds]) hnd).1
      ((rankedIds_getD hr).trans ((congrArg some heq).trans (rankedIds_getD hr').symm))
  · intro i hi
    simp only [Finset.coe_range, Set.mem_Iio] at hi
    obtain ⟨r, hr⟩ := List.mem_iff_getElem?.1 (mem_rankedIds.2 hi)
    have hrn : r < n := by
      obtain ⟨hr', -⟩ := List.getElem?_eq_some_iff.1 hr
      rwa [length_rankedIds] at hr'
    exact ⟨r, by simpa using hrn, Option.some.inj ((rankedIds_getD hrn).symm.trans hr)⟩

variable (A : Arith G)

/-- Only the first `K` sorted values matter to `k_stats_topk`. -/
theorem kStatsTopk_congr {topv topv' : Buffer Pattern} {K n : Nat} (raw : Buffer Pattern)
    (head : Pattern) (h : ∀ r < K, topv r = topv' r) (j : Nat) :
    kStatsTopk A topv K raw n head j = kStatsTopk A topv' K raw n head j := by
  have hall : ∀ f : Nat → Pattern → G,
      ∑ r ∈ Finset.range K, f r (topv r) = ∑ r ∈ Finset.range K, f r (topv' r) := fun f =>
    Finset.sum_congr rfl fun r hr => by rw [h r (Finset.mem_range.1 hr)]
  unfold kStatsTopk
  rw [hall fun r x => if r < 2000 ∧ rankBucket r = j then A.value x else 0]

theorem kStatsSeg_congr {w w' : Buffer Pattern} {n : Nat} (head : Pattern)
    (h : ∀ r < n, w r = w' r) (j : Nat) : kStatsSeg A w n head j = kStatsSeg A w' n head j := by
  have hall : ∀ f : Nat → Pattern → G,
      ∑ i ∈ Finset.range n, f i (w i) = ∑ i ∈ Finset.range n, f i (w' i) := fun f =>
    Finset.sum_congr rfl fun i hi => by rw [h i (Finset.mem_range.1 hi)]
  unfold kStatsSeg
  rw [hall fun _ x => A.term x head, hall fun _ x => A.value x,
    hall fun i x => if rankBucket i = j then A.value x else 0]

/-- The full statistics are what the select adds up and what it leaves out. -/
theorem kStatsSeg_eq_add (v : Buffer Pattern) {n K : Nat} (hK : K ≤ n) (j : Nat) :
    kStatsSeg A (rankedVal v n) n (rankedVal v n 0) j =
      leftOut A v n K j + kStatsTopk A (rankedVal v n) K v n (rankedVal v n 0) j := by
  by_cases h0 : j = 0
  · rw [kStatsSeg, if_pos h0, leftOut, if_pos (.inl h0), kStatsTopk, if_pos h0, zero_add]
    exact sum_rankedVal v n fun x => A.term x (rankedVal v n 0)
  by_cases h5 : j = 5
  · rw [kStatsSeg, if_neg h0, if_pos h5, leftOut, if_pos (.inr h5), kStatsTopk, if_neg h0,
      if_pos h5, zero_add]
    exact sum_rankedVal v n fun x => A.value x
  -- a rank below `K` and 2000 is added up, every other one left out
  have htop : (∑ r ∈ Finset.range K,
        if r < 2000 ∧ rankBucket r = j then A.value (rankedVal v n r) else 0) =
      ∑ r ∈ Finset.range n,
        if r < K ∧ r < 2000 ∧ rankBucket r = j then A.value (rankedVal v n r) else 0 := by
    rw [← Finset.sum_filter, ← Finset.sum_filter]
    refine Finset.sum_congr ?_ fun _ _ => rfl
    ext r
    rw [Finset.mem_filter, Finset.mem_filter, Finset.mem_range, Finset.mem_range]
    constructor
    · rintro ⟨hr, h⟩
      exact ⟨by omega, hr, h⟩
    · rintro ⟨-, hr, h⟩
      exact ⟨hr, h⟩
  rw [kStatsSeg, if_neg h0, if_neg h5, leftOut, if_neg (by omega), kStatsTopk, if_neg h0,
    if_neg h5, htop, ← Finset.sum_add_distrib]
  refine Finset.sum_congr rfl fun r _ => ?_
  by_cases hb : rankBucket r = j <;> by_cases hk : r < K ∧ r < 2000
  · rw [if_pos hb, if_neg (fun h => h.2 hk), if_pos ⟨hk.1, hk.2, hb⟩, zero_add]
  · rw [if_pos hb, if_pos ⟨hb, hk⟩, if_neg (fun h => hk ⟨h.1, h.2.1⟩), add_zero]
  · rw [if_neg hb, if_neg (fun h => hb h.1), if_neg (fun h => hb h.2.2), zero_add]
  · rw [if_neg hb, if_neg (fun h => hb h.1), if_neg (fun h => hb h.2.2), zero_add]

end Sums

/-! ## The front and its stand-ins -/

section Front

variable {v : Buffer Pattern} {n K : Nat}

theorem rankKey_separates (v : Buffer Pattern) (l : List Nat) :
    Ranking.Separates (rankKey v) l := fun _ _ _ _ h => rankKey_injective v h

theorem mem_front_iff (hnan : ∀ i < n, isNaN (v i) = false) {i : Nat} :
    i ∈ (rankedIds v n).take K ↔ InFront v n K i := by
  rw [rankedIds_eq_ranking hnan, Ranking.mem_take_ranking_iff (rankKey_separates v _)
    List.nodup_range, List.mem_range]
  rfl

/-- The ids of the first buckets. -/
def firstIds (v : Buffer Pattern) (n K : Nat) : List Nat :=
  (List.range n).filter fun i => decide (InFirstBuckets v n K i)

theorem mem_firstIds {i : Nat} : i ∈ firstIds v n K ↔ i < n ∧ InFirstBuckets v n K i := by
  rw [firstIds, List.mem_filter, List.mem_range, decide_eq_true_eq]

theorem firstIds_nodup : (firstIds v n K).Nodup := List.nodup_range.filter _

theorem lowKey_separates (hn : n < 2 ^ 31) : Ranking.Separates (lowKey v) (firstIds v n K) := by
  intro i hi j hj hij
  have hi' := (mem_firstIds.1 hi).1
  have hj' := (mem_firstIds.1 hj).1
  unfold lowKey at hij
  omega

/-- The id selected at `r` is the one of rank `r` by the low key. -/
theorem selectedAt_iff (hn : n < 2 ^ 31) {r j : Nat} : SelectedAt v n K r j ↔
    (Ranking.ranking (lowKey v) (firstIds v n K))[r]? = some j := by
  rw [Ranking.getElem?_ranking_iff (lowKey_separates hn) firstIds_nodup, mem_firstIds, and_assoc,
    firstIds, List.countP_filter, SelectedAt]
  simp only [Bool.decide_and, Bool.and_comm]

/-- **The selected ids, cut to 18 bits, are the front** exactly when the front has stand-ins. -/
theorem selected_iff (hn : n < 2 ^ 31) (hnan : ∀ i < n, isNaN (v i) = false) (hK : K ≤ n)
    (hex : ∀ r < K, ∃ j, SelectedAt v n K r j) :
    (∀ r < K, ∃ j, SelectedAt v n K r j ∧ (rankedIds v n)[r]? = some (j % 2 ^ 18)) ↔
      ∃ a, FrontKept v n K a := by
  have hlist : (∀ r < K, ∃ j, SelectedAt v n K r j ∧ (rankedIds v n)[r]? = some (j % 2 ^ 18)) ↔
      (rankedIds v n).take K =
        ((Ranking.ranking (lowKey v) (firstIds v n K)).take K).map (· % 2 ^ 18) := by
    constructor
    · intro h
      refine List.ext_getElem? fun r => ?_
      rw [List.getElem?_map]
      by_cases hr : r < K
      · obtain ⟨j, hj, hid⟩ := h r hr
        rw [List.getElem?_take_of_lt hr, List.getElem?_take_of_lt hr, hid,
          (selectedAt_iff hn).1 hj]
        rfl
      · rw [List.getElem?_take_eq_none (by omega), List.getElem?_take_eq_none (by omega)]
        rfl
    · intro h r hr
      obtain ⟨j, hj⟩ := hex r hr
      have hget := congrArg (·[r]?) h
      simp only [List.getElem?_map, List.getElem?_take_of_lt hr, (selectedAt_iff hn).1 hj,
        Option.map_some] at hget
      exact ⟨j, hj, hget⟩
  rw [hlist, rankedIds_eq_ranking hnan, Ranking.take_eq_map_take_iff (rankKey_separates v _)
    List.nodup_range (lowKey_separates hn) firstIds_nodup (by rwa [List.length_range])]
  rw [← rankedIds_eq_ranking hnan]
  simp only [mem_front_iff hnan]
  constructor
  · rintro ⟨a, hmem, hmono, hfirst⟩
    exact ⟨a, fun i hi => mem_firstIds.1 (hmem i hi).1, fun i hi => (hmem i hi).2, hmono,
      fun i hi j hj hjb => hfirst i hi j (mem_firstIds.2 ⟨hj, hjb⟩)⟩
  · rintro ⟨a, hmem, hfits, hmono, hfirst⟩
    exact ⟨a, fun i hi => ⟨mem_firstIds.2 (hmem i hi), hfits i hi⟩, hmono,
      fun i hi j hj => hfirst i hi j (mem_firstIds.1 hj).1 (mem_firstIds.1 hj).2⟩

end Front

/-! ## The whole call -/

section Call

variable {G : Type} [AddCommMonoid G] {C : CubRadixSort 64} {A : Arith G} {f : Flags}
  {R : SelectRun} {b : SelectScratch G} {snapBf16 : Bool} {logits : Buffer Pattern}
  {S n topk : Nat} {out : TopkOut G}

/-- What `d_stats` holds when `k_stats_topk` starts: `MEOW_STATS_1BLK` drops the memset. -/
def statsBase (f : Flags) (b : SelectScratch G) (s j : Nat) : G :=
  if f.stats1blk then b.stats s j else 0

/-- A call that selects, taken apart. -/
theorem hostSelect_cases (h : hostSelect C A f R b snapBf16 logits S n topk = some out) :
    1 ≤ topk ∧ topk ≤ candCap ∧ 4 * candCap < n ∧
    (∀ s < S, (hostCutoff R (kPackSeg (hostVals snapBf16 logits) b.keysIn n (S * n)) n topk s).2 =
      0) ∧
    (∀ s r, out.idx s r = topkId (hostSorted C R b
      (kPackSeg (hostVals snapBf16 logits) b.keysIn n (S * n)) n topk s r)) ∧
    (∀ s r, out.val s r = hostVals snapBf16 logits (s * n + (out.idx s r).toNat)) ∧
    ∀ s j, out.stats s j = statsBase f b s j + kStatsTopk A (out.val s) topk
      ((hostVals snapBf16 logits).row n s) n (out.val s 0) j := by
  unfold hostSelect at h
  split at h
  · cases h
  rename_i hbranch
  obtain ⟨hpos, hcap, hn, hclamp⟩ := hostBranch_select (not_not.1 hbranch)
  rw [hclamp] at h
  dsimp only at h
  split at h
  · rename_i hovf
    cases h
    exact ⟨hpos, hcap, hn, hovf, fun _ _ => rfl, fun _ _ => rfl, fun _ _ => rfl⟩
  · cases h

end Call

/-- **When the select returns the head and the statistics of the full sort.** -/
theorem hostSelect_iff {G : Type} [AddCancelCommMonoid G] {C : CubRadixSort 64} {A : Arith G}
    {f : Flags} {R : SelectRun} {b : SelectScratch G} {snapBf16 : Bool} {logits : Buffer Pattern}
    {S n topk : Nat} {out : TopkOut G} (hn : n < 2 ^ 31)
    (hR : ∀ s < S, (R.histOrder s).Perm (List.range n) ∧ (R.slotOrder s).Perm (List.range n))
    (hnan : ∀ i < S * n, isNaN (hostVals snapBf16 logits i) = false)
    (h : hostSelect C A f R b snapBf16 logits S n topk = some out) {full : Ranked}
    (hfull : full.HoldsRanks (hostVals snapBf16 logits) S n) :
    MatchesFull A out full S n topk ↔
      ∀ s < S, SelectOk A (statsBase f b s) ((hostVals snapBf16 logits).row n s) n topk := by
  obtain ⟨hpos, hcap, hbig, hovf, hidx, hval, hstats⟩ := hostSelect_cases h
  have hK : topk ≤ n := by omega
  have hnanRow : ∀ s < S, ∀ i < n, isNaN ((hostVals snapBf16 logits).row n s i) = false :=
    fun s hs i hi => hnan _ (block_lt hs hi)
  have hid : ∀ s (_ : s < S) r (_ : r < topk), out.idx s r = full.idx (s * n + r) ↔
      ∃ j, SelectedAt ((hostVals snapBf16 logits).row n s) n topk r j ∧
        (rankedIds ((hostVals snapBf16 logits).row n s) n)[r]? = some (j % 2 ^ 18) := by
    intro s hs r hr
    rw [← BitVec.toNat_inj, (hfull.val_eq hs (show r < n by omega)).1, hidx,
      hostSelect_id C b _ hn hs (hR s hs).1 (hR s hs).2 hpos hK (hovf s hs) hr,
      rankedIds_getD (show r < n by omega)]
    simp only [Option.some.injEq]
  have hfront : ∀ s < S, (∀ r < topk, out.idx s r = full.idx (s * n + r)) ↔
      ∃ a, FrontKept ((hostVals snapBf16 logits).row n s) n topk a := by
    intro s hs
    rw [← selected_iff hn (hnanRow s hs) hK fun r hr => ?_]
    · exact forall₂_congr fun r hr => hid s hs r hr
    · obtain ⟨j, -, huniq⟩ := hostSorted_rank C b _ hn hs (hR s hs).1 (hR s hs).2 hpos hK
        (hovf s hs) hr
      exact ⟨j, (huniq j).2 rfl⟩
  -- once the ids agree, so do the values, and the statistics miss what the select leaves out
  have hvals : (∀ s < S, ∀ r < topk, out.idx s r = full.idx (s * n + r)) → ∀ s < S, ∀ r < topk,
      out.val s r = rankedVal ((hostVals snapBf16 logits).row n s) n r := by
    intro hall s hs r hr
    rw [hval, hall s hs r hr, (hfull.val_eq hs (show r < n by omega)).1]
    rfl
  have hseg : ∀ s < S, ∀ j, kStatsSeg A (full.val.row n s) n (full.val (s * n)) j =
      kStatsSeg A (rankedVal ((hostVals snapBf16 logits).row n s) n) n
        (rankedVal ((hostVals snapBf16 logits).row n s) n 0) j := fun s hs j => by
    have h0 := (hfull.val_eq hs (show 0 < n by omega)).2
    rw [Nat.add_zero] at h0
    rw [h0]
    exact kStatsSeg_congr A _ (fun r hr => (hfull.val_eq hs hr).2) j
  have hstat : (∀ s < S, ∀ r < topk, out.idx s r = full.idx (s * n + r)) → ∀ s < S, ∀ j,
      (out.stats s j = kStatsSeg A (full.val.row n s) n (full.val (s * n)) j ↔
        statsBase f b s j = leftOut A ((hostVals snapBf16 logits).row n s) n topk j) := by
    intro hall s hs j
    rw [hstats, hseg s hs, kStatsSeg_eq_add A _ hK, hvals hall s hs 0 hpos,
      kStatsTopk_congr A _ _ (hvals hall s hs), add_left_inj]
  constructor
  · rintro ⟨hi, -, hst⟩ s hs
    exact ⟨(hfront s hs).1 (hi s hs), fun j hj => (hstat hi s hs j).1 (hst s hs j hj)⟩
  · intro hok
    have hi : ∀ s < S, ∀ r < topk, out.idx s r = full.idx (s * n + r) := fun s hs =>
      (hfront s hs).2 (hok s hs).front
    refine ⟨hi, fun s hs r hr => ?_, fun s hs j hj => (hstat hi s hs j).2 ((hok s hs).stats j hj)⟩
    rw [hvals hi s hs r hr, (hfull.val_eq hs (show r < n by omega)).2]

theorem hostVals_isNaN {snapBf16 : Bool} {logits : Buffer Pattern} {N : Nat}
    (hnan : ∀ i < N, isNaN (logits i) = false) :
    ∀ i < N, isNaN (hostVals snapBf16 logits i) = false := by
  intro i hi
  unfold hostVals
  split
  · rw [snapBf16Reg_eq]
    exact PowHistogram.isNaN_snap (hnan i hi)
  · exact hnan i hi

/-- The logit `0x3f830000` at the ids `marked`, zero elsewhere. -/
def markedRow (marked : List Nat) : Buffer Pattern :=
  fun i => if i ∈ marked then 0x3f830000#32 else 0#32

/-- One logit above zero, at id `2 ^ 18`. -/
def wideRow : Buffer Pattern := markedRow [262144]

def rangeRun (n : Nat) : SelectRun := ⟨fun _ => List.range n, fun _ => List.range n⟩

theorem rangeRun_perm (n s : Nat) : ((rangeRun n).histOrder s).Perm (List.range n) ∧
    ((rangeRun n).slotOrder s).Perm (List.range n) := ⟨List.Perm.refl _, List.Perm.refl _⟩

def ratArith : Arith Rat := ⟨toRat, fun _ _ => 0⟩

def zeroScratch : SelectScratch Rat :=
  ⟨fun _ => 0, fun _ _ => 0, fun _ _ => 0, fun _ _ => 0⟩

def zeroSort : SortScratch := ⟨fun _ => 0, fun _ => 0, ⟨fun _ => 0, fun _ => 0⟩⟩

section Marked

variable {marked : List Nat}

theorem markedRow_isNaN (i : Nat) : isNaN (markedRow marked i) = false := by
  unfold markedRow
  split <;> decide

theorem hostVals_markedRow : hostVals true (markedRow marked) = markedRow marked := by
  funext i
  rw [hostVals, if_pos rfl, markedRow]
  split <;> decide

theorem row_zero (v : Buffer Pattern) (n : Nat) : v.row n 0 = v := by
  funext i
  rw [Buffer.row, Nat.zero_mul, Nat.zero_add]

theorem hostBucket_markedRow (i : Nat) :
    hostBucket (markedRow marked) i = if i ∈ marked then 16383 else 65535 := by
  unfold hostBucket markedRow
  split <;> decide

theorem descending_markedRow (i : Nat) :
    descending (markedRow marked i) = if i ∈ marked then 1081933823 else 2147483647 := by
  unfold markedRow
  split <;> decide

/-- The marked ids fill the buckets before the last one. -/
theorem below_markedRow {n b : Nat} (hnd : marked.Nodup) (hlt : ∀ i ∈ marked, i < n)
    (hb : 16383 < b) (hb' : b ≤ 65535) :
    BucketSelect.below (hostBucket (markedRow marked)) n b = marked.length := by
  rw [← List.toFinset_card_of_nodup hnd, BucketSelect.below]
  congr 1
  ext i
  rw [Finset.mem_filter, Finset.mem_range, hostBucket_markedRow, List.mem_toFinset]
  constructor
  · rintro ⟨-, h⟩
    split at h
    · assumption
    · omega
  · intro hi
    rw [if_pos hi]
    exact ⟨hlt i hi, hb⟩

/-- As many candidates as marked ids: the call selects and does not overflow. -/
theorem hostSelect_markedRow {n : Nat} (hnd : marked.Nodup) (hlt : ∀ i ∈ marked, i < n)
    (hn : n < 2 ^ 31)
    (hbranch : hostBranch ⟨false, false, true, false, true⟩ true 1 n marked.length = .select) :
    ∃ out, hostSelect (CubRadixSort.stableSort 64) ratArith ⟨false, false, true, false, true⟩
      (rangeRun n) zeroScratch true (markedRow marked) 1 n marked.length = some out := by
  obtain ⟨hpos, hcap, hbig, hclamp⟩ := hostBranch_select hbranch
  have hovf : ∀ s < 1, (hostCutoff (rangeRun n)
      (kPackSeg (hostVals true (markedRow marked)) zeroScratch.keysIn n (1 * n)) n
      (clampTopk marked.length n) s).2 = 0 := by
    intro s hs
    obtain rfl : s = 0 := by omega
    obtain ⟨c, hc, hbelow, -⟩ := @hostCutoff_eq (rangeRun n) zeroScratch.keysIn
      (hostVals true (markedRow marked)) 1 n marked.length 0 hn hs (rangeRun_perm _ 0).1 hpos
      (by omega)
    rw [hostVals_markedRow, row_zero] at hc hbelow
    -- the cutoff lies in the buckets of the marked ids
    have hc16 : c < 16384 := by
      by_contra hge
      have hle := @BucketSelect.below_mono (hostBucket (markedRow marked)) n 16384 c (by omega)
      rw [below_markedRow hnd hlt (by omega) (by omega)] at hle
      omega
    have hle := @BucketSelect.below_mono (hostBucket (markedRow marked)) n (c + 1) 16384 hc16
    rw [@below_markedRow marked n 16384 hnd hlt (by omega) (by omega)] at hle
    rw [hclamp, hostVals_markedRow, hc, if_neg (by omega)]
  exact ⟨_, (if_neg (by rw [hbranch]; simp)).trans (if_pos hovf)⟩

end Marked

theorem hostSelect_wideRow :
    ∃ out, hostSelect (CubRadixSort.stableSort 64) ratArith ⟨false, false, true, false, true⟩
      (rangeRun 262145) zeroScratch true wideRow 1 262145 1 = some out :=
  hostSelect_markedRow (by decide : ([262144] : List Nat).Nodup) (by decide) (by norm_num)
    (by decide)

/-- Id `2 ^ 18` comes first, and no id below `2 ^ 18` stands in for it. -/
theorem not_selectOk_wideRow : ¬ SelectOk ratArith
    (statsBase ⟨false, false, true, false, true⟩ zeroScratch 0) wideRow 262145 1 := by
  rintro ⟨⟨a, hkept⟩, -⟩
  have hfront : InFront wideRow 262145 1 262144 := by
    refine ⟨by norm_num, Nat.lt_one_iff.2 (List.countP_eq_zero.2 fun j hj => ?_)⟩
    have hj := List.mem_range.1 hj
    rw [decide_eq_true_eq, rankKey_lt_iff, wideRow, descending_markedRow, descending_markedRow]
    rw [if_pos (List.mem_singleton_self _)]
    simp only [List.mem_singleton]
    split <;> omega
  have := hkept.fits _ hfront
  omega

/-- The ids before `i` in the order of a marked row: a marked id for any other, and of two alike
the smaller. -/
theorem rankKey_markedRow {marked : List Nat} {i j : Nat} :
    rankKey (markedRow marked) j < rankKey (markedRow marked) i ↔
      j ∈ marked ∧ i ∉ marked ∨ (j ∈ marked ↔ i ∈ marked) ∧ j < i := by
  rw [rankKey_lt_iff, descending_markedRow, descending_markedRow]
  by_cases hj : j ∈ marked <;> by_cases hi : i ∈ marked <;> simp [hi, hj]

/-- **The front of a marked row are the marked ids.** -/
theorem inFront_markedRow {marked : List Nat} {n i : Nat} (hnd : marked.Nodup)
    (hlt : ∀ j ∈ marked, j < n) :
    InFront (markedRow marked) n marked.length i ↔ i ∈ marked := by
  constructor
  · intro h
    by_contra hi
    have hsub : marked.Subperm (List.range n) :=
      List.subperm_of_subset hnd fun j hj => List.mem_range.2 (hlt j hj)
    have hall : marked.countP (fun j =>
        decide (rankKey (markedRow marked) j < rankKey (markedRow marked) i)) = marked.length :=
      List.countP_eq_length.2 fun j hj => decide_eq_true (rankKey_markedRow.2 (.inl ⟨hj, hi⟩))
    have hle := hsub.countP_le (p := fun j =>
      decide (rankKey (markedRow marked) j < rankKey (markedRow marked) i))
    have hfew := h.2
    omega
  · intro hi
    refine ⟨hlt i hi, ?_⟩
    -- only the other marked ids come before a marked one
    have hsub : ((List.range n).filter fun j =>
        decide (rankKey (markedRow marked) j < rankKey (markedRow marked) i)).Subperm
        (marked.erase i) := by
      refine List.subperm_of_subset (List.nodup_range.filter _) fun j hj => ?_
      rw [List.mem_filter, decide_eq_true_eq, rankKey_markedRow] at hj
      rcases hj.2 with ⟨-, hni⟩ | ⟨hiff, hji⟩
      · exact absurd hi hni
      · exact (List.mem_erase_of_ne hji.ne).2 (hiff.2 hi)
    have hle := hsub.length_le
    rw [List.length_erase_of_mem hi, ← List.countP_eq_length_filter] at hle
    have hpos := List.length_pos_of_mem hi
    omega

theorem inFirstBuckets_markedRow {marked : List Nat} {n i : Nat} (hnd : marked.Nodup)
    (hlt : ∀ j ∈ marked, j < n) :
    InFirstBuckets (markedRow marked) n marked.length i ↔ i ∈ marked := by
  rw [InFirstBuckets, hostBucket_markedRow]
  by_cases hi : i ∈ marked
  · have hnone : BucketSelect.below (hostBucket (markedRow marked)) n 16383 = 0 := by
      refine Finset.card_eq_zero.2 (Finset.filter_eq_empty_iff.2 fun j _ => ?_)
      rw [hostBucket_markedRow]
      split <;> omega
    rw [if_pos hi, hnone]
    exact iff_of_true (List.length_pos_of_mem hi) hi
  · rw [if_neg hi, below_markedRow hnd hlt (by omega) le_rfl]
    exact iff_of_false (lt_irrefl _) hi

/-- Marked ids that fit 18 bits stand for themselves, and the zeros left out add nothing. -/
theorem selectOk_markedRow {marked : List Nat} {n : Nat} (hnd : marked.Nodup)
    (hlt : ∀ i ∈ marked, i < n) (hfit : ∀ i ∈ marked, i < 2 ^ 18) (hlen : marked.length < 2000) :
    SelectOk ratArith (statsBase ⟨false, false, true, false, true⟩ zeroScratch 0)
      (markedRow marked) n marked.length := by
  constructor
  · refine ⟨id, fun i hi => ?_, fun i hi => ?_, fun i hi i' hi' hii' => ?_, fun i _ j _ hj hne => ?_⟩
    · exact ⟨hi.1, (inFirstBuckets_markedRow hnd hlt).2 ((inFront_markedRow hnd hlt).1 hi)⟩
    · exact Nat.mod_eq_of_lt (hfit i ((inFront_markedRow hnd hlt).1 hi))
    · rw [inFront_markedRow hnd hlt] at hi hi'
      rcases rankKey_markedRow.1 hii' with ⟨-, hni⟩ | ⟨-, hlt'⟩
      · exact absurd hi' hni
      · rw [id, id, lowKey, lowKey, markedRow, markedRow, if_pos hi, if_pos hi']
        omega
    · exact absurd rfl (hne j ((inFront_markedRow hnd hlt).2
        ((inFirstBuckets_markedRow hnd hlt).1 hj)))
  · intro j _
    have hnone : leftOut ratArith (markedRow marked) n marked.length j = 0 := by
      unfold leftOut
      split
      · rfl
      refine Finset.sum_eq_zero fun r hr => ?_
      split
      · rename_i hout
        rw [Finset.mem_range] at hr
        have hid := rankedIds_getD (v := markedRow marked) hr
        have hrank := @rankedIds_eq_ranking (markedRow marked) n fun i _ => markedRow_isNaN i
        rw [hrank, Ranking.getElem?_ranking_iff (rankKey_separates _ _) List.nodup_range,
          ← hrank] at hid
        -- the id of a rank left out is not in the front, so its logit is zero
        have hunmarked : (rankedIds (markedRow marked) n).getD r 0 ∉ marked := fun hin => by
          have := ((inFront_markedRow hnd hlt).2 hin).2
          omega
        have hzero : scaled 0#32 = 0 := by decide
        rw [rankedVal, markedRow, if_neg hunmarked]
        simp [ratArith, toRat, hzero]
      · rfl
    rw [hnone]
    rfl

end PowGpu
