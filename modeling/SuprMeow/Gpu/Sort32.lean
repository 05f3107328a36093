import SuprMeow.Gpu.FlatSort

/-!
# The 32-bit sort path (`pow_gpu.cu`)

With `MEOW_SORT32` the device path sorts pairs of a 32-bit value key and a token id, segment by
segment.  Keys and ids share the two 64-bit key buffers: of `2 * total` words the first half are
keys, the second half ids.  Ties are not in the key; they are left to the stability of the sort.

* `CubSortPairs` — what `DeviceSegmentedRadixSort::SortPairs` is relied on for;
* `sort32Snap` — pack, sort, unpack, with the segment offsets as they are in the scratch;
* `sort32_rank` — with the right offsets every stream is ranked;
* `sort32_exact` — the flat 56-bit path has the same ids and values.
-/

set_option autoImplicit false

open Binary32

namespace PowGpu

/-! ## Pairs -/

/-- The CUB pair sort: ascending in the selected bits of the key, and stable. -/
structure CubSortPairs where
  sortPairs : Nat → Nat → List (BitVec 32 × BitVec 32) → List (BitVec 32 × BitVec 32)
  perm : ∀ b e l, (sortPairs b e l).Perm l
  sorted : ∀ b e l, (sortPairs b e l).Pairwise fun x y => digits b e x.1 ≤ digits b e y.1
  stable : ∀ b e l d, (sortPairs b e l).filter (fun x => digits b e x.1 = d) =
    l.filter (fun x => digits b e x.1 = d)

/-- A stable comparison sort of the keys. -/
def CubSortPairs.stableSort : CubSortPairs where
  sortPairs b e l := l.mergeSort fun x y => decide (digits b e x.1 ≤ digits b e y.1)
  perm _ _ _ := List.mergeSort_perm _ _
  sorted b e l := Ranking.ranking_pairwise (fun x => digits b e x.1) l
  stable b e l d := Ranking.filter_mergeSort (fun x => digits b e x.1) l d

/-- A 64-bit buffer as 32-bit words. -/
def words (keys : Buffer (BitVec 64)) : Buffer (BitVec 32) := fun w =>
  if w % 2 = 0 then (keys (w / 2)).setWidth 32 else (keys (w / 2) >>> 32).setWidth 32

/-- `cub::DeviceSegmentedRadixSort::SortPairs`; the values are `vals` words behind the keys. -/
def deviceSegmentedSortPairs (P : CubSortPairs) (wordsIn wordsOut : Buffer (BitVec 32))
    (vals S : Nat) (beg fin : Buffer Nat) (b e : Nat) : Buffer (BitVec 32) :=
  (List.range S).foldl
    (fun out s =>
      let sorted := P.sortPairs b e ((wordsIn.slice (beg s) (fin s)).zip
        (wordsIn.slice (vals + beg s) (vals + fin s)))
      (out.write (beg s) (sorted.map (·.1))).write (vals + beg s) (sorted.map (·.2))) wordsOut

/-! ## Kernels -/

/-- `k_pack32_snap`: thread `i` stores the key `i` and, `total` words on, the id. -/
def kPack32Snap (vals : Buffer Pattern) (k32 : Buffer (BitVec 32)) (n total : Nat) :
    Buffer (BitVec 32) := fun w =>
  if w < total then transformVal (snapBf16Reg (vals w))
  else if w < total + total then BitVec.ofNat 32 ((w - total) % n)
  else k32 w

/-- `k_unpack32_snap`. -/
def kUnpack32Snap (val32Sorted : Buffer (BitVec 32)) (vals : Buffer Pattern) (out : Ranked)
    (n total : Nat) : Ranked where
  idx := out.idx.launch total val32Sorted
  val := out.val.launch total fun i =>
    let seg := i / n
    let id := val32Sorted i
    snapBf16Reg (vals (seg * n + id.toNat))

/-- The sort of `pow_gpu_sort_and_stats_device_k` under `MEOW_SORT32`. -/
def sort32Snap (P : CubSortPairs) (offs : Buffer Nat) (vals : Buffer Pattern) (S n : Nat)
    (b : SortScratch) : Ranked :=
  let total := S * n
  let k32i := kPack32Snap vals (words b.keysIn) n total
  let k32o := deviceSegmentedSortPairs P k32i (words b.keysOut) total S offs
    (fun s => offs (s + 1)) 0 32
  kUnpack32Snap (fun i => k32o (total + i)) vals b.out n total

/-! ## One segment -/

/-- The pair of id `i`. -/
def pairOf (v : Nat → Pattern) (i : Nat) : BitVec 32 × BitVec 32 :=
  (transformVal (v i), BitVec.ofNat 32 i)

theorem digits_transformVal (v : Pattern) : digits 0 32 (transformVal v) = descending v := by
  have hlt := descending_lt v
  rw [digits, transformVal_toNat]
  omega

/-- **A stable sort of a segment's pairs ranks its ids.** -/
theorem sortPairs_pairOf (P : CubSortPairs) {v : Nat → Pattern} {n : Nat} (hn : n ≤ 2 ^ 32)
    (hnan : ∀ i < n, isNaN (v i) = false) :
    P.sortPairs 0 32 ((List.range n).map (pairOf v)) = (rankedIds v n).map (pairOf v) := by
  have hid : ∀ i < n, (pairOf v i).2.toNat = i := by
    intro i hi
    rw [pairOf, BitVec.toNat_ofNat]
    exact Nat.mod_eq_of_lt (by omega)
  have hkey : ∀ i < n, toLex (digits 0 32 (pairOf v i).1, (pairOf v i).2.toNat) = rankKey v i := by
    intro i hi
    rw [hid i hi, pairOf, digits_transformVal, rankKey]
  have hsep : Ranking.Separates (fun x : BitVec 32 × BitVec 32 => x.2.toNat)
      ((List.range n).map (pairOf v)) := by
    intro x hx y hy hxy
    obtain ⟨i, hi, rfl⟩ := List.mem_map.1 hx
    obtain ⟨j, hj, rfl⟩ := List.mem_map.1 hy
    rw [List.mem_range] at hi hj
    dsimp only at hxy
    rw [hid i hi, hid j hj] at hxy
    rw [hxy]
  rw [Ranking.eq_ranking_of_stable hsep (P.perm 0 32 _) (P.sorted 0 32 _) (P.stable 0 32 _)]
  · refine (Ranking.eq_ranking (fun x hx y hy h => ?_) ((rankedIds_perm v n).map _) ?_).symm
    · exact hsep x hx y hy (congrArg (fun k => (ofLex k).2) h)
    · rw [List.pairwise_map]
      refine (rankedIds_pairwise hnan).imp_of_mem fun {i j} hi hj hij => ?_
      rw [mem_rankedIds] at hi hj
      rwa [hkey i hi, hkey j hj]
  · rw [List.pairwise_map]
    refine List.pairwise_lt_range.imp_of_mem fun {i j} hi hj hij => ?_
    rw [List.mem_range] at hi hj
    rwa [hid i hi, hid j hj]

/-! ## All segments -/

theorem write_add {α : Type} (b : Buffer α) (t beg : Nat) (l : List α) (i : Nat) :
    b.write (t + beg) l (t + i) = Buffer.write (fun j => b (t + j)) beg l i := by
  unfold Buffer.write
  rw [Nat.add_sub_add_left]
  exact if_congr (by omega) rfl rfl

theorem write_of_length_le {α : Type} (b : Buffer α) {beg i : Nat} {l : List α}
    (h : beg + l.length ≤ i) : b.write beg l i = b i := by
  unfold Buffer.write
  rw [List.getElem?_eq_none (by omega), Option.getD_none, ite_self]

/-- The ids are written segment by segment; no key is written among them. -/
theorem sortPairs_vals (P : CubSortPairs) (wordsIn wordsOut : Buffer (BitVec 32)) {total n : Nat}
    {b e : Nat} :
    ∀ S, S * n ≤ total → ∀ i,
      deviceSegmentedSortPairs P wordsIn wordsOut total S (fun s => s * n)
          (fun s => (s + 1) * n) b e (total + i) =
        (List.range S).foldl (fun out s => Buffer.write out (s * n) ((P.sortPairs b e
          ((wordsIn.slice (s * n) ((s + 1) * n)).zip
            (wordsIn.slice (total + s * n) (total + (s + 1) * n)))).map (·.2)))
          (fun j => wordsOut (total + j)) i := by
  intro S
  induction S with
  | zero => exact fun _ _ => rfl
  | succ S ih =>
    intro hS i
    rw [Nat.succ_mul] at hS
    unfold deviceSegmentedSortPairs at ih ⊢
    rw [List.range_succ, List.foldl_append, List.foldl_append, List.foldl_cons, List.foldl_nil,
      List.foldl_cons, List.foldl_nil, write_add]
    congr 1
    funext j
    rw [write_of_length_le, ih (by omega)]
    dsimp only
    rw [List.length_map, (P.perm b e _).length_eq, List.length_zip, Buffer.slice,
      List.length_map, List.length_range', Nat.succ_mul]
    omega

theorem slice_block {α : Type} (b : Buffer α) (base s n : Nat) :
    b.slice (base + s * n) (base + (s + 1) * n) =
      (List.range n).map fun i => b (base + (s * n + i)) := by
  rw [Buffer.slice, Nat.succ_mul, ← Nat.add_assoc, Nat.add_sub_cancel_left,
    List.range'_eq_map_range, List.map_map]
  exact List.map_congr_left fun i _ => by rw [Function.comp_apply, Nat.add_assoc]

/-- The pairs of stream `s`. -/
theorem packed_pairs (vals : Buffer Pattern) (k32 : Buffer (BitVec 32)) {S n s : Nat}
    (hs : s < S) :
    ((kPack32Snap vals k32 n (S * n)).slice (s * n) ((s + 1) * n)).zip
        ((kPack32Snap vals k32 n (S * n)).slice (S * n + s * n) (S * n + (s + 1) * n)) =
      (List.range n).map (pairOf fun i => snapBf16Reg (vals (s * n + i))) := by
  have hkeys := slice_block (kPack32Snap vals k32 n (S * n)) 0 s n
  rw [Nat.zero_add, Nat.zero_add] at hkeys
  rw [hkeys, slice_block, List.zip_map', List.map_inj_left]
  intro i hi
  rw [List.mem_range] at hi
  have hlt := block_lt hs hi
  unfold kPack32Snap pairOf
  rw [Nat.zero_add, if_pos hlt, if_neg (by omega), if_pos (by omega), Nat.add_sub_cancel_left,
    mod_block hi]

/-- With the right offsets the words behind the keys are the ids of the sorted segments. -/
theorem sort32_word (P : CubSortPairs) (vals : Buffer Pattern) {S n : Nat} {offs : Buffer Nat}
    (hoffs : ∀ i ≤ S, offs i = i * n) (b : SortScratch) {s r : Nat} (hs : s < S) (hr : r < n) :
    ((P.sortPairs 0 32 ((List.range n).map (pairOf fun i => snapBf16Reg (vals (s * n + i))))).map
        (·.2))[r]? =
      some (deviceSegmentedSortPairs P (kPack32Snap vals (words b.keysIn) n (S * n))
        (words b.keysOut) (S * n) S offs (fun s => offs (s + 1)) 0 32 (S * n + (s * n + r))) := by
  have hsort : deviceSegmentedSortPairs P (kPack32Snap vals (words b.keysIn) n (S * n))
      (words b.keysOut) (S * n) S offs (fun s => offs (s + 1)) 0 32 =
      deviceSegmentedSortPairs P (kPack32Snap vals (words b.keysIn) n (S * n))
        (words b.keysOut) (S * n) S (fun s => s * n) (fun s => (s + 1) * n) 0 32 := by
    unfold deviceSegmentedSortPairs
    refine List.foldl_ext _ _ _ fun out t ht => ?_
    rw [List.mem_range] at ht
    dsimp only
    rw [hoffs t (by omega), hoffs (t + 1) (by omega)]
  obtain ⟨x, hx, hout⟩ := foldl_write_block (fun j => words b.keysOut (S * n + j))
    (fun t => (P.sortPairs 0 32
      (((kPack32Snap vals (words b.keysIn) n (S * n)).slice (t * n) ((t + 1) * n)).zip
        ((kPack32Snap vals (words b.keysIn) n (S * n)).slice (S * n + t * n)
          (S * n + (t + 1) * n)))).map (·.2))
    (fun t ht => by
      rw [packed_pairs vals _ ht, List.length_map, (P.perm 0 32 _).length_eq, List.length_map,
        List.length_range]) hs hr
  rw [packed_pairs vals _ hs] at hx
  rw [hsort, sortPairs_vals P _ _ S le_rfl, hout]
  exact hx

/-- **With the right offsets the 32-bit path ranks every stream.** -/
theorem sort32_rank (P : CubSortPairs) (vals : Buffer Pattern) {S n : Nat} (hn : n ≤ 2 ^ 32)
    (hnan : ∀ i < S * n, isNaN (vals i) = false) {offs : Buffer Nat}
    (hoffs : ∀ i ≤ S, offs i = i * n) (b : SortScratch) :
    (sort32Snap P offs vals S n b).HoldsRanks (fun i => snapBf16Reg (vals i)) S n := by
  intro s hs r hr
  obtain ⟨id, hid, hidn⟩ := rankedIds_getElem? (Buffer.row (fun i => snapBf16Reg (vals i)) n s) hr
  have hword := sort32_word P vals hoffs b hs hr
  rw [sortPairs_pairOf P hn fun i hi => by
      rw [snapBf16Reg_eq]
      exact PowHistogram.isNaN_snap (hnan _ (block_lt hs hi)),
    List.getElem?_map, List.getElem?_map] at hword
  rw [show (rankedIds (fun i => snapBf16Reg (vals (s * n + i))) n)[r]? = some id from hid,
    Option.map_some, Option.map_some, Option.some.injEq] at hword
  have htoNat : (BitVec.ofNat 32 id).toNat = id := by
    rw [BitVec.toNat_ofNat]
    exact Nat.mod_eq_of_lt (by omega)
  have hlt := block_lt hs hr
  refine ⟨id, hid, ?_, ?_⟩
  · rw [sort32Snap, kUnpack32Snap]
    dsimp only
    rw [Buffer.launch_of_lt _ _ hlt, ← hword]
    exact htoNat
  · rw [sort32Snap, kUnpack32Snap]
    dsimp only
    rw [Buffer.launch_of_lt _ _ hlt, ← hword, div_block hr]
    exact congrArg (fun i => snapBf16Reg (vals (s * n + i))) htoNat

/-- **The 32-bit path is the flat 56-bit path**, at every position. -/
theorem sort32_exact (C : CubRadixSort 64) (P : CubSortPairs) {S n : Nat} (hS : 1 ≤ S ∧ S ≤ 64)
    (hn : 1 ≤ n ∧ n ≤ 2 ^ 18) (vals : Buffer Pattern)
    (hnan : ∀ i < S * n, isNaN (vals i) = false) (offs : Buffer Nat)
    (hoffs : ∀ i ≤ S, offs i = i * n) (b b' : SortScratch) :
    ∀ i < S * n,
      (sort32Snap P offs vals S n b).idx i = (flatSortSnap C vals S n b').idx i ∧
      (sort32Snap P offs vals S n b).val i = (flatSortSnap C vals S n b').val i := by
  intro i hi
  have hsnap : ∀ i < S * n, isNaN (snapBf16Reg (vals i)) = false := fun i hi =>
    snapBf16Reg_eq (vals i) ▸ PowHistogram.isNaN_snap (hnan i hi)
  have hflat := flatSortSnap_eq C vals S n b' ▸ flatSort_rank C _ hS.2 hn.2 hsnap b'
  have h32 := sort32_rank P vals (hn.2.trans (by decide)) hnan hoffs b
  have hs : i / n < S := Nat.div_lt_of_lt_mul (by rwa [Nat.mul_comm] at hi)
  have hr : i % n < n := Nat.mod_lt i hn.1
  have h := h32.agree hflat hs hr
  rwa [Nat.div_add_mod'] at h

/-- Two streams; two values of the first snap to one, a negative zero ties with a zero. -/
theorem sort32_exact_ties :
    (List.range 4).map (sort32Snap .stableSort (fun i => i * 2)
        (fun i => if i = 0 then 0x3f800001#32 else if i = 1 then 0x3f800000#32
          else if i = 2 then 0x80000000#32 else 0#32) 2 2
        ⟨fun _ => 0, fun _ => 0, ⟨fun _ => 0, fun _ => 0⟩⟩).idx =
      (List.range 4).map (flatSortSnap (.stableSort 64)
        (fun i => if i = 0 then 0x3f800001#32 else if i = 1 then 0x3f800000#32
          else if i = 2 then 0x80000000#32 else 0#32) 2 2
        ⟨fun _ => 0, fun _ => 0, ⟨fun _ => 0, fun _ => 0⟩⟩).idx :=
  List.map_congr_left fun i hi =>
    (sort32_exact (.stableSort 64) .stableSort ⟨by decide, by decide⟩ ⟨by decide, by decide⟩ _
      (by decide) _ (fun _ _ => rfl) _ _ i (List.mem_range.1 hi)).1

end PowGpu
