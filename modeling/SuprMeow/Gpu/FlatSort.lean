import SuprMeow.Gpu.Bf16
import SuprMeow.Gpu.Device

/-!
# The full sort of all streams (`pow_gpu.cu`)

The flat path packs stream, value and id
into one 56-bit key and sorts all `S * n` keys at once; the segmented path packs value and id
into 64 bits and sorts each stream by itself.

* `kPackFlat`, `kPackFlatSnap`, `kUnpackFlat`, `kUnpackFlatSnap` — the flat kernels;
* `kPackSeg`, `kUnpackSeg` — the segmented kernels;
* `flatSort`, `flatSortSnap`, `segSort` — pack, sort, unpack;
* `flatKey_toNat`, `kPackFlat_fields` — the three fields do not overlap and are recovered;
* `sortKeys_blocks` — what a CUB sort does to keys that order streams first and ranks second;
* `flatSort_rank`, `segSort_rank`, `flatSort_exact` — output position `s * n + r` is rank `r`
  of stream `s`, on either path.
-/

set_option autoImplicit false

open Binary32

namespace PowGpu

/-! ## Kernels -/

/-- Ids and values in sorted order (`d_idx`, `d_sorted`). -/
structure Ranked where
  idx : Buffer (BitVec 32)
  val : Buffer Pattern

/-- `k_pack_flat`. -/
def kPackFlat (vals : Buffer Pattern) (keys : Buffer (BitVec 64)) (n total : Nat) :
    Buffer (BitVec 64) :=
  keys.launch total fun i =>
    let seg := BitVec.ofNat 64 (i / n)
    let idx := BitVec.ofNat 64 (i % n)
    (seg <<< 50) ||| ((transformVal (vals i)).setWidth 64 <<< 18) ||| idx

/-- `k_pack_flat_snap`. -/
def kPackFlatSnap (vals : Buffer Pattern) (keys : Buffer (BitVec 64)) (n total : Nat) :
    Buffer (BitVec 64) :=
  keys.launch total fun i =>
    let seg := BitVec.ofNat 64 (i / n)
    let idx := BitVec.ofNat 64 (i % n)
    let sv := snapBf16Reg (vals i)
    (seg <<< 50) ||| ((transformVal sv).setWidth 64 <<< 18) ||| idx

/-- `k_unpack_flat`. -/
def kUnpackFlat (keys : Buffer (BitVec 64)) (vals : Buffer Pattern) (out : Ranked)
    (n total : Nat) : Ranked where
  idx := out.idx.launch total fun i => (keys i &&& 0x3FFFF#64).setWidth 32
  val := out.val.launch total fun i =>
    let seg := (keys i >>> 50).toNat
    let id := (keys i &&& 0x3FFFF#64).setWidth 32
    vals (seg * n + id.toNat)

/-- `k_unpack_flat_snap`. -/
def kUnpackFlatSnap (keys : Buffer (BitVec 64)) (vals : Buffer Pattern) (out : Ranked)
    (n total : Nat) : Ranked where
  idx := out.idx.launch total fun i => (keys i &&& 0x3FFFF#64).setWidth 32
  val := out.val.launch total fun i =>
    let seg := (keys i >>> 50).toNat
    let id := (keys i &&& 0x3FFFF#64).setWidth 32
    snapBf16Reg (vals (seg * n + id.toNat))

/-- `k_pack_seg`. -/
def kPackSeg (vals : Buffer Pattern) (keys : Buffer (BitVec 64)) (n total : Nat) :
    Buffer (BitVec 64) :=
  keys.launch total fun i => packKey (vals i) (BitVec.ofNat 32 (i % n))

/-- `k_unpack_seg`. -/
def kUnpackSeg (keys : Buffer (BitVec 64)) (vals : Buffer Pattern) (out : Ranked)
    (n total : Nat) : Ranked where
  idx := out.idx.launch total fun i => (keys i &&& 0xFFFFFFFF#64).setWidth 32
  val := out.val.launch total fun i =>
    let seg := i / n
    let id := (keys i &&& 0xFFFFFFFF#64).setWidth 32
    vals (seg * n + id.toNat)

/-- Scratch of a sorting call; its contents before the call are arbitrary. -/
structure SortScratch where
  keysIn : Buffer (BitVec 64)
  keysOut : Buffer (BitVec 64)
  out : Ranked

/-- The flat branch of `pow_gpu_sort_and_stats_batched_k`. -/
def flatSort (C : CubRadixSort 64) (vals : Buffer Pattern) (S n : Nat) (b : SortScratch) :
    Ranked :=
  let total := S * n
  let keysIn := kPackFlat vals b.keysIn n total
  let keysOut := deviceSortKeys C keysIn b.keysOut total 0 56
  kUnpackFlat keysOut vals b.out n total

/-- The full sort of `pow_gpu_sort_and_stats_device_k`. -/
def flatSortSnap (C : CubRadixSort 64) (vals : Buffer Pattern) (S n : Nat) (b : SortScratch) :
    Ranked :=
  let total := S * n
  let keysIn := kPackFlatSnap vals b.keysIn n total
  let keysOut := deviceSortKeys C keysIn b.keysOut total 0 56
  kUnpackFlatSnap keysOut vals b.out n total

/-- The segmented branch of `pow_gpu_sort_and_stats_batched_k`, with `offs[i] = i * n`. -/
def segSort (C : CubRadixSort 64) (vals : Buffer Pattern) (S n : Nat) (b : SortScratch) :
    Ranked :=
  let total := S * n
  let offs : Buffer Nat := fun i => i * n
  let keysIn := kPackSeg vals b.keysIn n total
  let keysOut := deviceSegmentedSortKeys C keysIn b.keysOut S offs (fun i => offs (i + 1)) 0 64
  kUnpackSeg keysOut vals b.out n total

/-- Snapping inside the kernels is snapping the input first. -/
theorem flatSortSnap_eq (C : CubRadixSort 64) (vals : Buffer Pattern) (S n : Nat)
    (b : SortScratch) :
    flatSortSnap C vals S n b = flatSort C (fun i => snapBf16Reg (vals i)) S n b := rfl

/-! ## The fields of a key -/

/-- **The three fields of a flat key do not overlap.** -/
theorem flatKey_toNat {s i : Nat} (t : BitVec 32) (hs : s < 64) (hi : i < 2 ^ 18) :
    ((BitVec.ofNat 64 s <<< 50) ||| (t.setWidth 64 <<< 18) ||| BitVec.ofNat 64 i).toNat =
      s * 2 ^ 50 + t.toNat * 2 ^ 18 + i := by
  have ht := t.isLt
  have hlow := Nat.two_pow_add_eq_or_of_lt hi (s * 2 ^ 32 + t.toNat)
  have hmid := Nat.two_pow_add_eq_or_of_lt (show t.toNat * 2 ^ 18 < 2 ^ 50 by omega) s
  have hfields : (BitVec.ofNat 64 s <<< 50 ||| t.setWidth 64 <<< 18).toNat =
      2 ^ 50 * s ||| t.toNat * 2 ^ 18 := by
    simp only [BitVec.toNat_or, BitVec.toNat_shiftLeft, BitVec.toNat_ofNat, BitVec.toNat_setWidth,
      Nat.shiftLeft_eq]
    rw [Nat.mod_eq_of_lt (show s < 2 ^ 64 by omega),
      Nat.mod_eq_of_lt (show s * 2 ^ 50 < 2 ^ 64 by omega),
      Nat.mod_eq_of_lt (show t.toNat < 2 ^ 64 by omega),
      Nat.mod_eq_of_lt (show t.toNat * 2 ^ 18 < 2 ^ 64 by omega), Nat.mul_comm s]
  rw [BitVec.toNat_or, hfields, BitVec.toNat_ofNat, Nat.mod_eq_of_lt (show i < 2 ^ 64 by omega),
    ← hmid, show 2 ^ 50 * s + t.toNat * 2 ^ 18 = 2 ^ 18 * (s * 2 ^ 32 + t.toNat) by omega, ← hlow]
  omega

theorem shiftRight50_toNat (k : BitVec 64) : (k >>> 50).toNat = k.toNat / 2 ^ 50 := by
  rw [BitVec.toNat_ushiftRight, Nat.shiftRight_eq_div_pow]

theorem flatIdMask_toNat (k : BitVec 64) :
    ((k &&& 0x3FFFF#64).setWidth 32).toNat = k.toNat % 2 ^ 18 := by
  have h : k.toNat &&& (0x3FFFF#64).toNat = k.toNat % 2 ^ 18 := Nat.and_two_pow_sub_one_eq_mod _ 18
  rw [BitVec.toNat_setWidth, BitVec.toNat_and, h]
  omega

theorem segIdMask_toNat (k : BitVec 64) :
    ((k &&& 0xFFFFFFFF#64).setWidth 32).toNat = k.toNat % 2 ^ 32 := by
  have h : k.toNat &&& (0xFFFFFFFF#64).toNat = k.toNat % 2 ^ 32 :=
    Nat.and_two_pow_sub_one_eq_mod _ 32
  rw [BitVec.toNat_setWidth, BitVec.toNat_and, h]
  omega

theorem div_block {s n i : Nat} (hi : i < n) : (s * n + i) / n = s := by
  rw [Nat.mul_comm, Nat.mul_add_div (by omega), Nat.div_eq_of_lt hi, Nat.add_zero]

theorem mod_block {s n i : Nat} (hi : i < n) : (s * n + i) % n = i := by
  rw [Nat.mul_comm, Nat.mul_add_mod, Nat.mod_eq_of_lt hi]

theorem block_lt {s S n i : Nat} (hs : s < S) (hi : i < n) : s * n + i < S * n :=
  calc s * n + i < s * n + n := by omega
    _ = (s + 1) * n := by rw [Nat.succ_mul]
    _ ≤ S * n := Nat.mul_le_mul_right n hs

/-- The key `k_pack_flat` stores for id `i` of stream `s`. -/
theorem kPackFlat_toNat (vals : Buffer Pattern) (keys : Buffer (BitVec 64)) {S n s i : Nat}
    (hS : S ≤ 64) (hn : n ≤ 2 ^ 18) (hs : s < S) (hi : i < n) :
    (kPackFlat vals keys n (S * n) (s * n + i)).toNat =
      s * 2 ^ 50 + descending (vals (s * n + i)) * 2 ^ 18 + i := by
  rw [kPackFlat, Buffer.launch_of_lt _ _ (block_lt hs hi), div_block hi, mod_block hi,
    flatKey_toNat _ (by omega) (by omega), transformVal_toNat]

/-- The key `k_pack_seg` stores for id `i` of stream `s`. -/
theorem kPackSeg_toNat (vals : Buffer Pattern) (keys : Buffer (BitVec 64)) {S n s i : Nat}
    (hn : n ≤ 2 ^ 32) (hs : s < S) (hi : i < n) :
    (kPackSeg vals keys n (S * n) (s * n + i)).toNat =
      descending (vals (s * n + i)) * 2 ^ 32 + i := by
  rw [kPackSeg, Buffer.launch_of_lt _ _ (block_lt hs hi), mod_block hi, packKey_toNat,
    BitVec.toNat_ofNat, Nat.mod_eq_of_lt (by omega)]

/-! ## Sorting keys that order streams first and ranks second -/

/-- **Any CUB sort of such keys puts every stream in rank order.** -/
theorem sortKeys_blocks (C : CubRadixSort 64) {b e S n : Nat} {v : Nat → Nat → Pattern}
    {k : Nat → Nat → BitVec 64} (hnan : ∀ s < S, ∀ i < n, isNaN (v s i) = false)
    (hk : ∀ s < S, ∀ t < S, ∀ i < n, ∀ j < n, digits b e (k s i) < digits b e (k t j) ↔
      s < t ∨ s = t ∧ rankKey (v s) i < rankKey (v s) j) :
    C.sortKeys b e ((List.range S).flatMap fun s => (List.range n).map (k s)) =
      (List.range S).flatMap fun s => (rankedIds (v s) n).map (k s) := by
  have hsep : Ranking.Separates (digits b e)
      ((List.range S).flatMap fun s => (List.range n).map (k s)) := by
    intro x hx y hy hxy
    obtain ⟨s, hs, hx⟩ := List.mem_flatMap.1 hx
    obtain ⟨t, ht, hy⟩ := List.mem_flatMap.1 hy
    obtain ⟨i, hi, rfl⟩ := List.mem_map.1 hx
    obtain ⟨j, hj, rfl⟩ := List.mem_map.1 hy
    rw [List.mem_range] at hs ht hi hj
    have hst := hk s hs t ht i hi j hj
    have hts := hk t ht s hs j hj i hi
    rw [hxy] at hst hts
    have heq : s = t := by
      rcases Nat.lt_trichotomy s t with h | h | h
      · exact absurd (hst.2 (.inl h)) (lt_irrefl _)
      · exact h
      · exact absurd (hts.2 (.inl h)) (lt_irrefl _)
    subst heq
    have hij : i = j := by
      rcases lt_trichotomy (rankKey (v s) i) (rankKey (v s) j) with h | h | h
      · exact absurd (hst.2 (.inr ⟨rfl, h⟩)) (lt_irrefl _)
      · exact rankKey_injective _ h
      · exact absurd (hts.2 (.inr ⟨rfl, h⟩)) (lt_irrefl _)
    rw [hij]
  rw [C.eq_ranking hsep]
  refine (Ranking.eq_ranking hsep ?_ ?_).symm
  · exact Ranking.perm_flatMap_block fun s _ => (rankedIds_perm (v s) n).map _
  · refine Ranking.pairwise_flatMap_block (fun s hs => ?_) fun s t hst ht x hx y hy => ?_
    · rw [List.pairwise_map]
      refine (rankedIds_pairwise (hnan s hs)).imp_of_mem fun {i j} hi hj hij => ?_
      rw [mem_rankedIds] at hi hj
      refine Nat.not_lt.1 fun hlt => ?_
      rcases (hk s hs s hs j hj i hi).1 hlt with h | ⟨_, h⟩
      · omega
      · exact absurd hij (not_le_of_gt h)
    · obtain ⟨i, hi, rfl⟩ := List.mem_map.1 hx
      obtain ⟨j, hj, rfl⟩ := List.mem_map.1 hy
      rw [mem_rankedIds] at hi hj
      exact ((hk s (hst.trans ht) t ht i hi j hj).2 (.inl hst)).le

/-- Output position `s * n + r` is rank `r` of stream `s`, with that id's value. -/
def Ranked.HoldsRanks (out : Ranked) (v : Buffer Pattern) (S n : Nat) : Prop :=
  ∀ s < S, ∀ r < n, ∃ id, (rankedIds (v.row n s) n)[r]? = some id ∧
    (out.idx (s * n + r)).toNat = id ∧ out.val (s * n + r) = v (s * n + id)

theorem rankedIds_getElem? (v : Nat → Pattern) {n r : Nat} (h : r < n) :
    ∃ id, (rankedIds v n)[r]? = some id ∧ id < n := by
  have hr : r < (rankedIds v n).length := by rwa [length_rankedIds]
  exact ⟨(rankedIds v n)[r], List.getElem?_eq_getElem hr, mem_rankedIds.1 (List.getElem_mem hr)⟩

/-- **The flat sort ranks every stream.** -/
theorem flatSort_rank (C : CubRadixSort 64) (vals : Buffer Pattern) {S n : Nat} (hS : S ≤ 64)
    (hn : n ≤ 2 ^ 18) (hnan : ∀ i < S * n, isNaN (vals i) = false) (b : SortScratch) :
    (flatSort C vals S n b).HoldsRanks vals S n := by
  intro s hs r hr
  obtain ⟨id, hid, hidn⟩ := rankedIds_getElem? (vals.row n s) hr
  have hlt := block_lt hs hr
  have hkey := fun s (hs : s < S) i (hi : i < n) => kPackFlat_toNat vals b.keysIn hS hn hs hi
  have hslice : (kPackFlat vals b.keysIn n (S * n)).slice 0 (S * n) =
      (List.range S).flatMap fun s => (List.range n).map fun i =>
        kPackFlat vals b.keysIn n (S * n) (s * n + i) := by
    rw [Buffer.slice, Nat.sub_zero, ← List.range_eq_range', ← Ranking.range_mul, List.map_flatMap]
    simp only [List.map_map, Function.comp_def]
  have hsort := sortKeys_blocks C (b := 0) (e := 56) (v := vals.row n)
    (k := fun s i => kPackFlat vals b.keysIn n (S * n) (s * n + i))
    (fun s hs i hi => hnan _ (block_lt hs hi)) fun s hs t ht i hi j hj => by
      have hi' := descending_lt (vals (s * n + i))
      have hj' := descending_lt (vals (t * n + j))
      rw [rankKey_lt_iff]
      simp only [digits, hkey s hs i hi, hkey t ht j hj, Buffer.row]
      by_cases hst : s = t
      · subst hst; omega
      · omega
  have hout : deviceSortKeys C (kPackFlat vals b.keysIn n (S * n)) b.keysOut (S * n) 0 56
      (s * n + r) = kPackFlat vals b.keysIn n (S * n) (s * n + id) := by
    rw [deviceSortKeys, hslice, hsort]
    conv_lhs => rw [← Nat.zero_add (s * n + r)]
    refine Buffer.write_of_some ?_
    rw [Ranking.getElem?_flatMap_block (fun s _ => by simp) hs hr, List.getElem?_map, hid]
    rfl
  have hd := descending_lt (vals (s * n + id))
  have hmask : (kPackFlat vals b.keysIn n (S * n) (s * n + id)).toNat % 2 ^ 18 = id := by
    rw [hkey s hs id hidn]; omega
  have hseg : (kPackFlat vals b.keysIn n (S * n) (s * n + id)).toNat / 2 ^ 50 = s := by
    rw [hkey s hs id hidn]; omega
  refine ⟨id, hid, ?_, ?_⟩
  · simp only [flatSort, kUnpackFlat, Buffer.launch_of_lt _ _ hlt]
    rw [hout, flatIdMask_toNat, hmask]
  · simp only [flatSort, kUnpackFlat, Buffer.launch_of_lt _ _ hlt]
    rw [hout, flatIdMask_toNat, shiftRight50_toNat, hmask, hseg]

/-- The same with the snapping inside the kernels. -/
theorem flatSortSnap_rank (C : CubRadixSort 64) (vals : Buffer Pattern) {S n : Nat} (hS : S ≤ 64)
    (hn : n ≤ 2 ^ 18) (hnan : ∀ i < S * n, isNaN (PowHistogram.snap (vals i)) = false)
    (b : SortScratch) :
    (flatSortSnap C vals S n b).HoldsRanks (fun i => PowHistogram.snap (vals i)) S n := by
  rw [flatSortSnap_eq]
  simp only [snapBf16Reg_eq]
  exact flatSort_rank C _ hS hn hnan b

theorem foldl_write_block {α : Type} (out : Buffer α) (f : Nat → List α) {S n s r : Nat}
    (hlen : ∀ s < S, (f s).length = n) (hs : s < S) (hr : r < n) :
    ∃ x, (f s)[r]? = some x ∧
      (List.range S).foldl (fun out s => out.write (s * n) (f s)) out (s * n + r) = x := by
  induction S with
  | zero => omega
  | succ S ih =>
    rw [List.range_succ, List.foldl_append]
    by_cases hsS : s = S
    · subst hsS
      have hr' : r < (f s).length := by rw [hlen s (by omega)]; exact hr
      exact ⟨_, List.getElem?_eq_getElem hr', Buffer.write_of_some (List.getElem?_eq_getElem hr')⟩
    · -- the last row starts after position `s * n + r`
      obtain ⟨x, hx, hw⟩ := ih (fun s hs => hlen s (by omega)) (by omega)
      refine ⟨x, hx, ?_⟩
      have hlt := block_lt (show s < S by omega) hr
      simp only [List.foldl_cons, List.foldl_nil, Buffer.write]
      rw [if_neg (by omega)]
      exact hw

/-- **The segmented sort ranks every stream.** -/
theorem segSort_rank (C : CubRadixSort 64) (vals : Buffer Pattern) {S n : Nat}
    (hn : n ≤ 2 ^ 32) (hnan : ∀ i < S * n, isNaN (vals i) = false) (b : SortScratch) :
    (segSort C vals S n b).HoldsRanks vals S n := by
  intro s hs r hr
  obtain ⟨id, hid, hidn⟩ := rankedIds_getElem? (vals.row n s) hr
  have hlt := block_lt hs hr
  have hkey := fun s (hs : s < S) i (hi : i < n) => kPackSeg_toNat vals b.keysIn hn hs hi
  have hslice : ∀ s < S, (kPackSeg vals b.keysIn n (S * n)).slice (s * n) ((s + 1) * n) =
      (List.range 1).flatMap fun _ => (List.range n).map fun i =>
        kPackSeg vals b.keysIn n (S * n) (s * n + i) := fun s _ => by
    rw [Buffer.slice, Nat.succ_mul, Nat.add_sub_cancel_left, List.range'_eq_map_range]
    simp only [List.map_map, Function.comp_def, List.range_one, List.flatMap_cons,
      List.flatMap_nil, List.append_nil]
  have hsort := fun s (hs : s < S) => sortKeys_blocks C (b := 0) (e := 64) (S := 1)
    (v := fun _ => vals.row n s)
    (k := fun _ i => kPackSeg vals b.keysIn n (S * n) (s * n + i))
    (fun _ _ i hi => hnan _ (block_lt hs hi)) fun a ha t ht i hi j hj => by
      have hi' := descending_lt (vals (s * n + i))
      have hj' := descending_lt (vals (s * n + j))
      rw [rankKey_lt_iff]
      simp only [digits, hkey s hs i hi, hkey s hs j hj, Buffer.row]
      omega
  have hrow : ∀ s < S, C.sortKeys 0 64
      ((kPackSeg vals b.keysIn n (S * n)).slice (s * n) ((s + 1) * n)) =
      (rankedIds (vals.row n s) n).map fun i => kPackSeg vals b.keysIn n (S * n) (s * n + i) :=
    fun s hs => by
      rw [hslice s hs, hsort s hs, List.range_one, List.flatMap_cons, List.flatMap_nil,
        List.append_nil]
  obtain ⟨x, hx, hout⟩ := foldl_write_block b.keysOut
    (fun s => C.sortKeys 0 64 ((kPackSeg vals b.keysIn n (S * n)).slice (s * n) ((s + 1) * n)))
    (fun s hs => by rw [hrow s hs]; simp) hs hr
  rw [hrow s hs, List.getElem?_map, hid, Option.map_some, Option.some.injEq] at hx
  subst hx
  have hd := descending_lt (vals (s * n + id))
  have hmask : ((kPackSeg vals b.keysIn n (S * n) (s * n + id)).toNat) % 2 ^ 32 = id := by
    rw [hkey s hs id hidn]; omega
  refine ⟨id, hid, ?_, ?_⟩
  · simp only [segSort, kUnpackSeg, Buffer.launch_of_lt _ _ hlt, deviceSegmentedSortKeys]
    rw [hout, segIdMask_toNat, hmask]
  · simp only [segSort, kUnpackSeg, Buffer.launch_of_lt _ _ hlt, deviceSegmentedSortKeys]
    rw [hout, segIdMask_toNat, hmask, div_block hr]

/-! ## The sorted output as a whole -/

section HoldsRanks

variable {out out' : Ranked} {v : Buffer Pattern} {S n : Nat}

/-- Two outputs in rank order agree at every position. -/
theorem Ranked.HoldsRanks.agree (h : out.HoldsRanks v S n) (h' : out'.HoldsRanks v S n)
    {s r : Nat} (hs : s < S) (hr : r < n) :
    out.idx (s * n + r) = out'.idx (s * n + r) ∧ out.val (s * n + r) = out'.val (s * n + r) := by
  obtain ⟨id, hid, hidx, hval⟩ := h s hs r hr
  obtain ⟨id', hid', hidx', hval'⟩ := h' s hs r hr
  have heq : id = id' := Option.some.inj (hid.symm.trans hid')
  subst heq
  exact ⟨BitVec.eq_of_toNat_eq (hidx.trans hidx'.symm), hval.trans hval'.symm⟩

/-- The ids of one stream, in output order, are the ranked ids. -/
theorem Ranked.HoldsRanks.ids (h : out.HoldsRanks v S n) {s : Nat} (hs : s < S) :
    (List.range n).map (fun r => (out.idx (s * n + r)).toNat) = rankedIds (v.row n s) n := by
  refine List.ext_getElem? fun r => ?_
  by_cases hr : r < n
  · obtain ⟨id, hid, hidx, _⟩ := h s hs r hr
    rw [List.getElem?_map, List.getElem?_range hr, hid, Option.map_some, hidx]
  · rw [List.getElem?_eq_none (by simpa using hr), List.getElem?_eq_none (by simpa using hr)]

/-- The values of one stream, in output order, are those of the ranked ids. -/
theorem Ranked.HoldsRanks.vals (h : out.HoldsRanks v S n) {s : Nat} (hs : s < S) :
    (List.range n).map (fun r => out.val (s * n + r)) =
      (rankedIds (v.row n s) n).map (v.row n s) := by
  refine List.ext_getElem? fun r => ?_
  by_cases hr : r < n
  · obtain ⟨id, hid, _, hval⟩ := h s hs r hr
    rw [List.getElem?_map, List.getElem?_range hr, List.getElem?_map, hid, Option.map_some,
      Option.map_some, hval]
    rfl
  · rw [List.getElem?_eq_none (by simpa using hr), List.getElem?_eq_none (by simpa using hr)]

/-- No id of a stream is lost or repeated. -/
theorem Ranked.HoldsRanks.ids_perm (h : out.HoldsRanks v S n) {s : Nat} (hs : s < S) :
    ((List.range n).map fun r => (out.idx (s * n + r)).toNat).Perm (List.range n) :=
  h.ids hs ▸ rankedIds_perm _ _

end HoldsRanks

/-! ## Exactness of the flat path -/

/-- The stream, the value field and the id are recovered from a flat key. -/
theorem kPackFlat_fields (vals : Buffer Pattern) (keys : Buffer (BitVec 64)) {S n s i : Nat}
    (hS : S ≤ 64) (hn : n ≤ 2 ^ 18) (hs : s < S) (hi : i < n) :
    (kPackFlat vals keys n (S * n) (s * n + i) >>> 50).toNat = s ∧
    (kPackFlat vals keys n (S * n) (s * n + i) >>> 18).setWidth 32 =
      transformVal (vals (s * n + i)) ∧
    ((kPackFlat vals keys n (S * n) (s * n + i) &&& 0x3FFFF#64).setWidth 32).toNat = i := by
  have hkey := kPackFlat_toNat vals keys hS hn hs hi
  have hd := descending_lt (vals (s * n + i))
  refine ⟨?_, BitVec.eq_of_toNat_eq ?_, ?_⟩
  · rw [shiftRight50_toNat, hkey]; omega
  · rw [BitVec.toNat_setWidth, BitVec.toNat_ushiftRight, Nat.shiftRight_eq_div_pow, hkey,
      transformVal_toNat]
    omega
  · rw [flatIdMask_toNat, hkey]; omega

/-- **The flat combined-key sort is exact.**  The fields of every key are recovered; the flat
and the snapping flat path hold the ranks of the (snapped) values; every stream's ids are a
permutation; and both agree with the segmented path. -/
theorem flatSort_exact (C : CubRadixSort 64) {S n : Nat} (hS : 1 ≤ S ∧ S ≤ 64)
    (hn : 1 ≤ n ∧ n ≤ 2 ^ 18) (vals : Buffer Pattern)
    (hnan : ∀ i < S * n, isNaN (vals i) = false) (b b' : SortScratch) :
    (∀ s < S, ∀ i < n,
      (kPackFlat vals b.keysIn n (S * n) (s * n + i) >>> 50).toNat = s ∧
      (kPackFlat vals b.keysIn n (S * n) (s * n + i) >>> 18).setWidth 32 =
        transformVal (vals (s * n + i)) ∧
      ((kPackFlat vals b.keysIn n (S * n) (s * n + i) &&& 0x3FFFF#64).setWidth 32).toNat = i) ∧
    (flatSort C vals S n b).HoldsRanks vals S n ∧
    (flatSortSnap C vals S n b).HoldsRanks (fun i => snapBf16Reg (vals i)) S n ∧
    (∀ s < S,
      ((List.range n).map fun r => ((flatSort C vals S n b).idx (s * n + r)).toNat).Perm
        (List.range n) ∧
      ((List.range n).map fun r => ((flatSortSnap C vals S n b).idx (s * n + r)).toNat).Perm
        (List.range n)) ∧
    (∀ s < S, ∀ r < n,
      (flatSort C vals S n b).idx (s * n + r) = (segSort C vals S n b').idx (s * n + r) ∧
      (flatSort C vals S n b).val (s * n + r) = (segSort C vals S n b').val (s * n + r)) ∧
    (∀ s < S, ∀ r < n,
      (flatSortSnap C vals S n b).idx (s * n + r) =
        (segSort C (fun i => snapBf16Reg (vals i)) S n b').idx (s * n + r) ∧
      (flatSortSnap C vals S n b).val (s * n + r) =
        (segSort C (fun i => snapBf16Reg (vals i)) S n b').val (s * n + r)) := by
  have hsnap : ∀ i < S * n, isNaN (snapBf16Reg (vals i)) = false := fun i hi =>
    snapBf16Reg_eq (vals i) ▸ PowHistogram.isNaN_snap (hnan i hi)
  have hflat := flatSort_rank C vals hS.2 hn.2 hnan b
  have hflatSnap := flatSortSnap_eq C vals S n b ▸ flatSort_rank C _ hS.2 hn.2 hsnap b
  have hseg := segSort_rank C vals (hn.2.trans (by decide)) hnan b'
  have hsegSnap := segSort_rank C _ (hn.2.trans (by decide)) hsnap b'
  exact ⟨fun s hs i hi => kPackFlat_fields vals b.keysIn hS.2 hn.2 hs hi, hflat, hflatSnap,
    fun s hs => ⟨hflat.ids_perm hs, hflatSnap.ids_perm hs⟩,
    fun s hs r hr => hflat.agree hseg hs hr, fun s hs r hr => hflatSnap.agree hsegSnap hs hr⟩

/-- Two streams of both zeros, a negative value and a subnormal. -/
theorem flatSort_exact_zeros :
    (flatSort (CubRadixSort.stableSort 64)
      (fun i => if i = 1 then 0x80000000#32 else if i = 2 then 0xbf800000#32 else 1#32) 2 2
      ⟨fun _ => 0, fun _ => 0, ⟨fun _ => 0, fun _ => 0⟩⟩).HoldsRanks
      (fun i => if i = 1 then 0x80000000#32 else if i = 2 then 0xbf800000#32 else 1#32) 2 2 :=
  (flatSort_exact (CubRadixSort.stableSort 64) ⟨by decide, by decide⟩ ⟨by decide, by decide⟩ _
    (by decide) _ ⟨fun _ => 0, fun _ => 0, ⟨fun _ => 0, fun _ => 0⟩⟩).2.1

end PowGpu
