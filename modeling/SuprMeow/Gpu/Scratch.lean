import SuprMeow.Gpu.HistogramStats
import SuprMeow.Gpu.Sort32
import SuprMeow.Gpu.TopkExact
import SuprMeow.Library.Runs

/-!
# The batch scratch (`pow_gpu.cu`)

`pow_gpu_sort_and_stats_batched`, `_batched_k` and `_device_k` share one thread-local set of
device buffers.  `BatchScratch::ensure` keeps it whenever it is large enough, and with it the
segment offsets, which depend on the vocabulary it was allocated for.

* `ensure`, `call` — the allocation and the three calls, any of whose CUDA steps may fail;
* `Contents` — what the buffers hold before a call: anything;
* `Invisible` — a call returns what it would on fresh scratch, with the right offsets;
* `invisible_iff`, `scratch_invisible_iff` — when it does, call by call and over every run.
-/

set_option autoImplicit false

open Binary32

namespace PowGpu

/-! ## The scratch -/

/-- The temporary storage the CUB sorts ask for; more items or segments never need less. -/
structure TempStorage where
  segKeys : Nat → Nat → Nat
  keys : Nat → Nat
  segPairs : Nat → Nat → Nat
  segKeys_mono : ∀ {i j s t}, i ≤ j → s ≤ t → segKeys i s ≤ segKeys j t
  keys_mono : ∀ {i j}, i ≤ j → keys i ≤ keys j
  segPairs_mono : ∀ {i j s t}, i ≤ j → s ≤ t → segPairs i s ≤ segPairs j t

/-- What `ensure` allocates: enough for each of the three sorts. -/
def TempStorage.bytes (T : TempStorage) (total S : Nat) : Nat :=
  max (max (T.segKeys total S) (T.keys total)) (T.segPairs total S)

/-- `BatchScratch` without its buffers. -/
structure BatchScratch where
  capTotal : Nat
  capSeg : Nat
  offs : Buffer Nat
  topkReady : Bool
  tempBytes : Nat
  failed : Bool

/-- Before the first `ensure`, and after `release`. -/
def BatchScratch.released : BatchScratch := ⟨0, 0, fun _ => 0, false, 0, false⟩

/-- Large enough for `S` streams of `n` values. -/
def BatchScratch.Holds (σ : BatchScratch) (S n : Nat) : Prop := S * n ≤ σ.capTotal ∧ S ≤ σ.capSeg

instance (σ : BatchScratch) (S n : Nat) : Decidable (σ.Holds S n) :=
  inferInstanceAs (Decidable (_ ∧ _))

/-- What the buffers hold when a call starts. -/
structure Contents (F : Type) where
  vals : Buffer Pattern
  keysOut : Buffer (BitVec 64)
  out : Ranked
  sel : SelectScratch F

def Contents.sort {F : Type} (b : Contents F) : SortScratch := ⟨b.sel.keysIn, b.keysOut, b.out⟩

/-! ## The calls -/

inductive Entry where
  | batched
  | batchedK
  | deviceK
  deriving DecidableEq

/-- One call: its arguments, and what the device and the driver choose.  `allocated` and
`topkAllocated` are the allocations of `ensure`, `selectOk` the overflow copy and the candidate
sort, `ok` every other CUDA step. -/
structure Call where
  entry : Entry
  S : Nat
  n : Nat
  topk : Nat
  snapBf16 : Bool
  logits : Buffer Pattern
  total_lt : S * n < 2 ^ 31
  allocated : Bool
  topkAllocated : Bool
  selectOk : Bool
  ok : Bool
  run : SelectRun
  run_perm : ∀ s < S, (run.histOrder s).Perm (List.range n) ∧ (run.slotOrder s).Perm (List.range n)
  hist : PowHistogram.Launch
  head0 : Pattern

/-- The device and the process-wide switches. -/
structure Device (F : Type) where
  C : CubRadixSort 64
  P : CubSortPairs
  T : TempStorage
  scan : PowHistogram.BlockScan
  A : Arith F
  histogram : Bool
  sort32 : Bool
  select : Bool
  stats1blk : Bool
  stub : Bool
  stubVal : Nat → Pattern

def Device.flags {F : Type} (D : Device F) (ready : Bool) : Flags :=
  ⟨D.histogram, D.sort32, D.select, D.stats1blk, ready⟩

/-- Host results; row `s` of each array is stream `s`. -/
structure Result (F : Type) where
  idx : Buffer (Buffer (BitVec 32))
  val : Buffer (Buffer Pattern)
  heads : Buffer Pattern
  stats : Buffer (Buffer F)
  probes : Buffer (Buffer Pattern)

/-- `BatchScratch::ensure`, and whether it succeeds. -/
def ensure (T : TempStorage) (c : Call) (σ : BatchScratch) : BatchScratch × Bool :=
  if σ.failed then (σ, false)
  else if σ.Holds c.S c.n then (σ, true)
  else if c.allocated then
    ({ capTotal := c.S * c.n
       capSeg := c.S
       offs := fun i => i * c.n
       topkReady := c.topkAllocated
       tempBytes := T.bytes (c.S * c.n) c.S
       failed := false }, true)
  else ({ BatchScratch.released with failed := true }, false)

/-- Ranks each array row is copied for. -/
def Call.ranks (c : Call) : Nat :=
  match c.entry with
  | .batched => c.n
  | .batchedK => clampTopk c.topk c.n
  | .deviceK => clampTopk c.topk c.n

/-- `k_probes_snap`. -/
def kProbesSnap (vals : Buffer Pattern) (n s p : Nat) : Pattern :=
  let step := if n / 20 > 0 then n / 20 else 1
  let idx := p * step
  if idx < n then snapBf16Reg (vals (s * n + idx)) else 0#32

/-- The segmented sort of 64-bit keys, with the offsets as they are in the scratch. -/
def segSortAt (C : CubRadixSort 64) (offs : Buffer Nat) (vals : Buffer Pattern) (S n : Nat)
    (b : SortScratch) : Ranked :=
  let total := S * n
  let keysIn := kPackSeg vals b.keysIn n total
  let keysOut := deviceSegmentedSortKeys C keysIn b.keysOut S offs (fun i => offs (i + 1)) 0 64
  kUnpackSeg keysOut vals b.out n total

/-- The sorts of all keys. -/
inductive FullSort where
  | flat
  | flatSnap
  | sort32
  | segmented
  deriving DecidableEq

/-- What serves a call once the scratch is there. -/
inductive Sorting (F : Type) where
  | stub
  | select (out : TopkOut F)
  | full (k : FullSort)

/-- A sort that reads the segment offsets. -/
def Sorting.Segmented {F : Type} : Sorting F → Prop
  | .full .segmented => True
  | .full .sort32 => True
  | _ => False

section Calls

variable {F : Type} [Semiring F] (D : Device F)

/-- `pow_gpu_histogram_device_k` with its statistics; it has buffers of its own. -/
def Call.histogram (c : Call) : Option (Result F) :=
  let k := clampTopk c.topk c.n
  (PowHistogram.powGpuHistogramDeviceK D.scan c.hist c.logits c.S c.n k).map fun out =>
    { idx := fun s r => BitVec.ofNat 32 (out.ids s r)
      val := out.values
      heads := out.heads
      stats := fun s j => PowHistogram.summarizeStats D.A D.scan
        (PowHistogram.countValues c.logits c.n s (c.hist.order s) fun _ => 0) c.n k c.head0 j
      probes := fun s p => if c.entry = .deviceK then out.probes s p else 0#32 }

/-- What a call returns before it asks for the scratch; `none` when it does ask. -/
def Call.early (c : Call) : Option (Option (Result F)) :=
  if c.S < 1 ∨ c.n < 1 then some none
  else
    match c.entry with
    | .batched => none
    | .batchedK =>
      if D.histogram ∧ c.snapBf16 ∧ clampTopk c.topk c.n ≤ 64 then some (c.histogram D) else none
    | .deviceK =>
      if D.histogram ∧ clampTopk c.topk c.n ≤ 64 then some (c.histogram D)
      else if c.S > 64 ∨ c.n > 2 ^ 18 then some none
      else none

/-- What serves a call.  The select of the device call needs more ids than the call accepts. -/
def Call.sorting (ready : Bool) (b : Contents F) (c : Call) : Sorting F :=
  match c.entry with
  | .batched => .full .segmented
  | .batchedK =>
    match (if c.selectOk then
        hostSelect D.C D.A (D.flags ready) c.run b.sel c.snapBf16 c.logits c.S c.n c.topk
      else none) with
    | some out => .select out
    | none => .full (if c.S ≤ 64 ∧ c.n ≤ 2 ^ 18 then .flat else .segmented)
  | .deviceK => if D.stub then .stub else .full (if D.sort32 then .sort32 else .flatSnap)

/-- `d_vals` after the copy from the host and the snap. -/
def Call.vals (b : Contents F) (c : Call) : Buffer Pattern :=
  b.vals.launch (c.S * c.n) (hostVals c.snapBf16 c.logits)

/-- The sorted ids and values of a full sort.  A sort without enough temporary storage returns
an error nobody reads, and leaves its output alone. -/
def Call.ranked (σ : BatchScratch) (b : Contents F) (c : Call) : FullSort → Ranked
  | .flat =>
    if D.T.keys (c.S * c.n) ≤ σ.tempBytes then flatSort D.C (c.vals b) c.S c.n b.sort
    else kUnpackFlat b.keysOut (c.vals b) b.out c.n (c.S * c.n)
  | .flatSnap =>
    if D.T.keys (c.S * c.n) ≤ σ.tempBytes then flatSortSnap D.C c.logits c.S c.n b.sort
    else kUnpackFlatSnap b.keysOut c.logits b.out c.n (c.S * c.n)
  | .sort32 =>
    if D.T.segPairs (c.S * c.n) c.S ≤ σ.tempBytes then
      sort32Snap D.P σ.offs c.logits c.S c.n b.sort
    else kUnpack32Snap (fun i => words b.keysOut (c.S * c.n + i)) c.logits b.out c.n (c.S * c.n)
  | .segmented =>
    if D.T.segKeys (c.S * c.n) c.S ≤ σ.tempBytes then
      segSortAt D.C σ.offs (c.vals b) c.S c.n b.sort
    else kUnpackSeg b.keysOut (c.vals b) b.out c.n (c.S * c.n)

/-- What the call copies to the host. -/
def Call.result (σ : BatchScratch) (b : Contents F) (c : Call) : Sorting F → Result F
  | .stub =>
    { idx := fun _ r => BitVec.ofNat 32 r
      val := fun _ r => D.stubVal r
      heads := fun _ => D.stubVal 0
      stats := fun _ _ => 1
      probes := fun _ _ => 0#32 }
  | .select out => ⟨out.idx, out.val, out.heads, out.stats, fun _ _ => 0#32⟩
  | .full k =>
    let sorted := c.ranked D σ b k
    { idx := fun s r => sorted.idx (s * c.n + r)
      val := fun s r => sorted.val (s * c.n + r)
      heads := fun s => sorted.val (s * c.n)
      stats := fun s j => kStatsSeg D.A (sorted.val.row c.n s) c.n (sorted.val (s * c.n)) j
      probes := fun s p => if c.entry = .deviceK then kProbesSnap c.logits c.n s p else 0#32 }

/-- One call; `none` is the result `false`. -/
def call (σ : BatchScratch) (b : Contents F) (c : Call) : BatchScratch × Option (Result F) :=
  match c.early D with
  | some r => (σ, r)
  | none =>
    let (σ', ready) := ensure D.T c σ
    (σ', if ready && c.ok then some (c.result D σ' b (c.sorting D σ'.topkReady b)) else none)

end Calls

/-! ## Sorts on other contents -/

section Sorts

theorem slice_congr {α : Type} {b b' : Buffer α} {beg fin : Nat} (h : ∀ i < fin, b i = b' i) :
    b.slice beg fin = b'.slice beg fin := by
  unfold Buffer.slice
  refine List.map_congr_left fun i hi => h i ?_
  obtain ⟨j, hj, rfl⟩ := List.mem_range'.1 hi
  omega

/-- The flat sort writes every key, and writes only keys it was given. -/
theorem deviceSortKeys_congr (C : CubRadixSort 64) {kin kin' kout kout' : Buffer (BitVec 64)}
    {total b e : Nat} (h : ∀ i < total, kin i = kin' i) {i : Nat} (hi : i < total) :
    deviceSortKeys C kin kout total b e i = deviceSortKeys C kin' kout' total b e i ∧
      ∃ j < total, deviceSortKeys C kin kout total b e i = kin j := by
  have hlen : i < (C.sortKeys b e (kin.slice 0 total)).length := by
    rw [(C.perm b e _).length_eq, Buffer.slice, List.length_map, List.length_range']
    omega
  have hget : ∀ out : Buffer (BitVec 64), out.write 0 (C.sortKeys b e (kin.slice 0 total)) i =
      (C.sortKeys b e (kin.slice 0 total))[i] := fun out => by
    conv_lhs => rw [← Nat.zero_add i]
    exact Buffer.write_of_some (List.getElem?_eq_getElem hlen)
  unfold deviceSortKeys
  rw [← slice_congr h, hget, hget]
  refine ⟨rfl, ?_⟩
  obtain ⟨j, hj, hkey⟩ := List.mem_map.1 ((C.perm b e _).mem_iff.1 (List.getElem_mem hlen))
  obtain ⟨j', hj', rfl⟩ := List.mem_range'.1 hj
  exact ⟨_, by omega, hkey.symm⟩

/-- **The flat sort depends on the values alone.** -/
theorem flatSort_congr (C : CubRadixSort 64) {vals vals' : Buffer Pattern} {S n : Nat}
    (hS : S ≤ 64) (hn : n ≤ 2 ^ 18) (h : ∀ i < S * n, vals i = vals' i) (b b' : SortScratch)
    {i : Nat} (hi : i < S * n) :
    (flatSort C vals S n b).idx i = (flatSort C vals' S n b').idx i ∧
      (flatSort C vals S n b).val i = (flatSort C vals' S n b').val i := by
  have hkeys : ∀ i < S * n, kPackFlat vals b.keysIn n (S * n) i =
      kPackFlat vals' b'.keysIn n (S * n) i := by
    intro i hi
    unfold kPackFlat
    rw [Buffer.launch_of_lt _ _ hi, Buffer.launch_of_lt _ _ hi, h i hi]
  obtain ⟨heq, j, hj, hkey⟩ := @deviceSortKeys_congr C _ _ b.keysOut b'.keysOut _ 0 56
    hkeys _ hi
  unfold flatSort kUnpackFlat
  dsimp only
  rw [Buffer.launch_of_lt _ _ hi, Buffer.launch_of_lt _ _ hi, Buffer.launch_of_lt _ _ hi,
    Buffer.launch_of_lt _ _ hi, ← heq, hkey]
  refine ⟨rfl, ?_⟩
  -- the key read back is that of an id below `total`
  have hn0 : 0 < n := Nat.pos_of_ne_zero fun h0 => by rw [h0, Nat.mul_zero] at hi; omega
  have hs : j / n < S := Nat.div_lt_of_lt_mul (by rwa [Nat.mul_comm] at hj)
  have hm : j % n < n := Nat.mod_lt j hn0
  have hd := descending_lt (vals j)
  have hbits := kPackFlat_toNat vals b.keysIn hS hn hs hm
  have hidx : (kPackFlat vals b.keysIn n (S * n) j).toNat / 2 ^ 50 * n +
      (kPackFlat vals b.keysIn n (S * n) j).toNat % 2 ^ 18 = j := by
    have hdm := Nat.div_add_mod' j n
    rw [hdm] at hbits
    have hseg : (kPackFlat vals b.keysIn n (S * n) j).toNat / 2 ^ 50 = j / n := by omega
    have hlow : (kPackFlat vals b.keysIn n (S * n) j).toNat % 2 ^ 18 = j % n := by omega
    rw [hseg, hlow, hdm]
  rw [shiftRight50_toNat, flatIdMask_toNat, hidx]
  exact h j hj

/-- Each segment of a block-aligned sort holds the sort of its own keys. -/
theorem segmentedSortKeys_block (C : CubRadixSort 64) (kin kout : Buffer (BitVec 64))
    {S n b e : Nat} {offs : Buffer Nat} (hoffs : ∀ i ≤ S, offs i = i * n) {s r : Nat} (hs : s < S)
    (hr : r < n) :
    (C.sortKeys b e (kin.slice (s * n) ((s + 1) * n)))[r]? = some
      (deviceSegmentedSortKeys C kin kout S offs (fun i => offs (i + 1)) b e (s * n + r)) := by
  have hfold : deviceSegmentedSortKeys C kin kout S offs (fun i => offs (i + 1)) b e =
      (List.range S).foldl (fun out s =>
        Buffer.write out (s * n) (C.sortKeys b e (kin.slice (s * n) ((s + 1) * n)))) kout := by
    unfold deviceSegmentedSortKeys
    refine List.foldl_ext _ _ _ fun out t ht => ?_
    rw [List.mem_range] at ht
    dsimp only
    rw [hoffs t (by omega), hoffs (t + 1) (by omega)]
  obtain ⟨x, hx, hout⟩ := foldl_write_block kout
    (fun s => C.sortKeys b e (kin.slice (s * n) ((s + 1) * n)))
    (fun t _ => by
      rw [(C.perm b e _).length_eq, Buffer.slice, List.length_map, List.length_range', Nat.succ_mul]
      omega) hs hr
  rw [hfold, hout]
  exact hx

/-- **With the right offsets the segmented sort depends on the values alone.** -/
theorem segSortAt_congr (C : CubRadixSort 64) {vals vals' : Buffer Pattern} {S n : Nat}
    (hn : n ≤ 2 ^ 32) (h : ∀ i < S * n, vals i = vals' i) {offs offs' : Buffer Nat}
    (hoffs : ∀ i ≤ S, offs i = i * n) (hoffs' : ∀ i ≤ S, offs' i = i * n) (b b' : SortScratch)
    {i : Nat} (hi : i < S * n) :
    (segSortAt C offs vals S n b).idx i = (segSortAt C offs' vals' S n b').idx i ∧
      (segSortAt C offs vals S n b).val i = (segSortAt C offs' vals' S n b').val i := by
  have hn0 : 0 < n := Nat.pos_of_ne_zero fun h0 => by rw [h0, Nat.mul_zero] at hi; omega
  have hs : i / n < S := Nat.div_lt_of_lt_mul (by rwa [Nat.mul_comm] at hi)
  have hr : i % n < n := Nat.mod_lt i hn0
  have hdm := Nat.div_add_mod' i n
  have hkeys : ∀ i < S * n, kPackSeg vals b.keysIn n (S * n) i =
      kPackSeg vals' b'.keysIn n (S * n) i := by
    intro i hi
    unfold kPackSeg
    rw [Buffer.launch_of_lt _ _ hi, Buffer.launch_of_lt _ _ hi, h i hi]
  have hend : (i / n + 1) * n ≤ S * n := Nat.mul_le_mul_right n hs
  have hslice : (kPackSeg vals b.keysIn n (S * n)).slice (i / n * n) ((i / n + 1) * n) =
      (kPackSeg vals' b'.keysIn n (S * n)).slice (i / n * n) ((i / n + 1) * n) :=
    slice_congr fun i hi => hkeys i (by omega)
  have hblock := segmentedSortKeys_block C (kPackSeg vals b.keysIn n (S * n)) b.keysOut
    (b := 0) (e := 64) hoffs hs hr
  have hblock' := segmentedSortKeys_block C (kPackSeg vals' b'.keysIn n (S * n)) b'.keysOut
    (b := 0) (e := 64) hoffs' hs hr
  rw [← hslice, hblock, Option.some.injEq, hdm] at hblock'
  rw [hdm] at hblock
  -- the key read back is that of an id of the segment
  obtain ⟨hlen, hget⟩ := List.getElem?_eq_some_iff.1 hblock
  obtain ⟨j, hj, hkey⟩ := List.mem_map.1
    ((C.perm 0 64 _).mem_iff.1 (hget ▸ List.getElem_mem hlen))
  obtain ⟨q, hq, rfl⟩ := List.mem_range'.1 hj
  rw [Nat.succ_mul, Nat.add_sub_cancel_left] at hq
  rw [Nat.one_mul] at hkey
  unfold segSortAt kUnpackSeg
  dsimp only
  rw [Buffer.launch_of_lt _ _ hi, Buffer.launch_of_lt _ _ hi, Buffer.launch_of_lt _ _ hi,
    Buffer.launch_of_lt _ _ hi, ← hblock']
  refine ⟨rfl, ?_⟩
  rw [← hkey, segIdMask_toNat, kPackSeg_toNat vals b.keysIn hn hs hq, Nat.mul_add_mod',
    Nat.mod_eq_of_lt (by omega)]
  exact h _ (block_lt hs hq)

/-- **With the right offsets the pair sort depends on the values alone.** -/
theorem sort32Snap_congr (P : CubSortPairs) (vals : Buffer Pattern) {S n : Nat}
    {offs offs' : Buffer Nat} (hoffs : ∀ i ≤ S, offs i = i * n) (hoffs' : ∀ i ≤ S, offs' i = i * n)
    (b b' : SortScratch) {i : Nat} (hi : i < S * n) :
    (sort32Snap P offs vals S n b).idx i = (sort32Snap P offs' vals S n b').idx i ∧
      (sort32Snap P offs vals S n b).val i = (sort32Snap P offs' vals S n b').val i := by
  have hn0 : 0 < n := Nat.pos_of_ne_zero fun h0 => by rw [h0, Nat.mul_zero] at hi; omega
  have hs : i / n < S := Nat.div_lt_of_lt_mul (by rwa [Nat.mul_comm] at hi)
  have hr : i % n < n := Nat.mod_lt i hn0
  have hdm := Nat.div_add_mod' i n
  have hword := sort32_word P vals hoffs b hs hr
  rw [sort32_word P vals hoffs' b' hs hr, Option.some.injEq, hdm] at hword
  unfold sort32Snap kUnpack32Snap
  dsimp only
  rw [Buffer.launch_of_lt _ _ hi, Buffer.launch_of_lt _ _ hi, Buffer.launch_of_lt _ _ hi,
    Buffer.launch_of_lt _ _ hi, hword]
  exact ⟨rfl, rfl⟩

end Sorts

/-! ## The select on other contents -/

section Select

variable {F : Type} [AddCommMonoid F]

/-- `k_pack_seg` overwrites every key a call reads. -/
theorem hostCutoff_congr {R : SelectRun} (vals : Buffer Pattern) (keys keys' : Buffer (BitVec 64))
    {S n K s : Nat} (hs : s < S) (hhist : (R.histOrder s).Perm (List.range n)) :
    hostCutoff R (kPackSeg vals keys n (S * n)) n K s =
      hostCutoff R (kPackSeg vals keys' n (S * n)) n K s := by
  have hhist : kTopkHist (kPackSeg vals keys n (S * n)) n s (R.histOrder s) (fun _ => 0) =
      kTopkHist (kPackSeg vals keys' n (S * n)) n s (R.histOrder s) fun _ => 0 := by
    unfold kTopkHist
    refine List.foldl_ext _ _ _ fun g i hi => ?_
    have hlt := block_lt hs (List.mem_range.1 (hhist.mem_iff.1 hi))
    rw [kPackSeg, kPackSeg, Buffer.launch_of_lt _ _ hlt, Buffer.launch_of_lt _ _ hlt]
  rw [hostCutoff, hostCutoff, hhist]

theorem hostSelect_heads {C : CubRadixSort 64} {A : Arith F} {f : Flags} {R : SelectRun}
    {b : SelectScratch F} {snapBf16 : Bool} {logits : Buffer Pattern} {S n topk : Nat}
    {out : TopkOut F} (h : hostSelect C A f R b snapBf16 logits S n topk = some out) (s : Nat) :
    out.heads s = out.val s 0 := by
  unfold hostSelect at h
  dsimp only at h
  split at h
  · cases h
  split at h
  · cases h
    rfl
  · cases h

/-- **Whether the select overflows does not depend on the contents, nor do its ids and values;
its statistics do when `d_stats` is not cleared.** -/
theorem hostSelect_congr (C : CubRadixSort 64) (A : Arith F) (f : Flags) {R : SelectRun}
    {b b' : SelectScratch F} {snapBf16 : Bool} {logits : Buffer Pattern} {S n topk : Nat}
    (hn : n < 2 ^ 31)
    (hR : ∀ s < S, (R.histOrder s).Perm (List.range n) ∧ (R.slotOrder s).Perm (List.range n)) :
    (hostSelect C A f R b snapBf16 logits S n topk = none ↔
      hostSelect C A f R b' snapBf16 logits S n topk = none) ∧
    ∀ out out', hostSelect C A f R b snapBf16 logits S n topk = some out →
      hostSelect C A f R b' snapBf16 logits S n topk = some out' →
      ∀ s < S, (∀ r < topk, out.idx s r = out'.idx s r ∧ out.val s r = out'.val s r) ∧
        out.heads s = out'.heads s ∧
        ∀ j, ∃ x, out.stats s j = statsBase f b s j + x ∧
          out'.stats s j = statsBase f b' s j + x := by
  have hovf : ∀ K, (∀ s < S, (hostCutoff R (kPackSeg (hostVals snapBf16 logits) b.keysIn n (S * n))
        n K s).2 = 0) ↔
      ∀ s < S, (hostCutoff R (kPackSeg (hostVals snapBf16 logits) b'.keysIn n (S * n)) n K s).2 =
        0 := fun K =>
    forall_congr' fun s => forall_congr' fun hs => by
      rw [hostCutoff_congr _ b.keysIn b'.keysIn hs (hR s hs).1]
  constructor
  · unfold hostSelect
    dsimp only
    split
    · rfl
    · simp only [hovf]
      split <;> simp
  intro out out' hout hout' s hs
  obtain ⟨hpos, hcap, hbig, hz, hidx, hval, hstats⟩ := hostSelect_cases hout
  obtain ⟨-, -, -, hz', hidx', hval', hstats'⟩ := hostSelect_cases hout'
  have hK : topk ≤ n := by unfold candCap at *; omega
  have hid : ∀ r < topk, out.idx s r = out'.idx s r := by
    intro r hr
    have hsel := hostSelect_id C b _ hn hs (hR s hs).1 (hR s hs).2 hpos hK (hz s hs) hr
    have hsel' := hostSelect_id C b' _ hn hs (hR s hs).1 (hR s hs).2 hpos hK (hz' s hs) hr
    rw [← BitVec.toNat_inj, hidx, hidx']
    exact (hsel _).2 ((hsel' _).1 rfl)
  have hvals : ∀ r < topk, out.val s r = out'.val s r := fun r hr => by
    rw [hval, hval', hid r hr]
  refine ⟨fun r hr => ⟨hid r hr, hvals r hr⟩, ?_, fun j => ⟨_, hstats s j, ?_⟩⟩
  · rw [hostSelect_heads hout, hostSelect_heads hout']
    exact hvals 0 hpos
  · rw [hstats' s j, kStatsTopk_congr A _ _ hvals, hvals 0 hpos]

end Select

/-! ## A call on other contents -/

/-- Equal where the caller's arrays are. -/
structure Result.Agrees {F : Type} (r r' : Result F) (S K : Nat) : Prop where
  idx : ∀ s < S, ∀ q < K, r.idx s q = r'.idx s q
  val : ∀ s < S, ∀ q < K, r.val s q = r'.val s q
  heads : ∀ s < S, r.heads s = r'.heads s
  stats : ∀ s < S, ∀ j < 6, r.stats s j = r'.stats s j
  probes : ∀ s < S, ∀ p < 20, r.probes s p = r'.probes s p

theorem Result.Agrees.refl {F : Type} (r : Result F) (S K : Nat) : r.Agrees r S K :=
  ⟨fun _ _ _ _ => rfl, fun _ _ _ _ => rfl, fun _ _ => rfl, fun _ _ _ _ => rfl, fun _ _ _ _ => rfl⟩

/-- A scratch that serves a call: enough temporary storage, and the offsets if they are read. -/
structure BatchScratch.Serves {F : Type} (D : Device F) (c : Call) (k : FullSort)
    (σ : BatchScratch) : Prop where
  temp : D.T.bytes (c.S * c.n) c.S ≤ σ.tempBytes
  offs : k = .segmented ∨ k = .sort32 → ∀ i ≤ c.S, σ.offs i = i * c.n

section Agree

variable {F : Type} {D : Device F} {c : Call}

theorem Call.n_lt (hS : 1 ≤ c.S) : c.n < 2 ^ 31 :=
  lt_of_le_of_lt (Nat.le_mul_of_pos_left c.n hS) c.total_lt

/-- **A full sort on scratch that serves the call depends on the call alone.** -/
theorem Call.ranked_congr {k : FullSort} (hS : 1 ≤ c.S)
    (hfit : k = .flat ∨ k = .flatSnap → c.S ≤ 64 ∧ c.n ≤ 2 ^ 18) {σ σ' : BatchScratch}
    (hσ : σ.Serves D c k) (hσ' : σ'.Serves D c k) (b b' : Contents F) {i : Nat}
    (hi : i < c.S * c.n) :
    (c.ranked D σ b k).idx i = (c.ranked D σ' b' k).idx i ∧
      (c.ranked D σ b k).val i = (c.ranked D σ' b' k).val i := by
  have hvals : ∀ i < c.S * c.n, c.vals b i = c.vals b' i := fun i hi => by
    rw [Call.vals, Call.vals, Buffer.launch_of_lt _ _ hi, Buffer.launch_of_lt _ _ hi]
  have htemp := hσ.temp
  have htemp' := hσ'.temp
  unfold TempStorage.bytes at htemp htemp'
  cases k with
  | flat =>
    obtain ⟨h64, h18⟩ := hfit (.inl rfl)
    dsimp only [Call.ranked]
    rw [if_pos (by omega), if_pos (by omega)]
    exact flatSort_congr D.C h64 h18 hvals _ _ hi
  | flatSnap =>
    obtain ⟨h64, h18⟩ := hfit (.inr rfl)
    dsimp only [Call.ranked]
    rw [if_pos (by omega), if_pos (by omega), flatSortSnap_eq, flatSortSnap_eq]
    exact flatSort_congr D.C h64 h18 (fun _ _ => rfl) _ _ hi
  | sort32 =>
    dsimp only [Call.ranked]
    rw [if_pos (by omega), if_pos (by omega)]
    exact sort32Snap_congr D.P c.logits (hσ.offs (.inr rfl)) (hσ'.offs (.inr rfl)) _ _ hi
  | segmented =>
    have hn := Call.n_lt hS
    dsimp only [Call.ranked]
    rw [if_pos (by omega), if_pos (by omega)]
    exact segSortAt_congr D.C (by omega) hvals (hσ.offs (.inl rfl)) (hσ'.offs (.inl rfl)) _ _ hi

theorem Call.ranks_le : c.ranks ≤ c.n := by
  unfold Call.ranks clampTopk
  split
  · exact le_rfl
  all_goals split <;> omega

variable [Semiring F]

theorem Call.early_eq_none (h : c.early D = none) :
    1 ≤ c.S ∧ 1 ≤ c.n ∧ (c.entry = .deviceK → c.S ≤ 64 ∧ c.n ≤ 2 ^ 18) := by
  unfold Call.early at h
  split at h
  · cases h
  rename_i hpos
  refine ⟨by omega, by omega, fun he => ?_⟩
  rw [he] at h
  dsimp only at h
  split at h
  · cases h
  split at h
  · cases h
  · omega

/-- What a full sort returns on scratch that serves the call. -/
theorem Call.full_agrees {k : FullSort} (hS : 1 ≤ c.S) (hn : 1 ≤ c.n)
    (hfit : k = .flat ∨ k = .flatSnap → c.S ≤ 64 ∧ c.n ≤ 2 ^ 18) {σ σ' : BatchScratch}
    (hσ : σ.Serves D c k) (hσ' : σ'.Serves D c k) (b b' : Contents F) :
    (c.result D σ b (.full k)).Agrees (c.result D σ' b' (.full k)) c.S c.ranks := by
  have hrank := fun i (hi : i < c.S * c.n) => Call.ranked_congr hS hfit hσ hσ' b b' hi
  have hK := Call.ranks_le (c := c)
  have hhead : ∀ s < c.S, (c.ranked D σ b k).val (s * c.n) = (c.ranked D σ' b' k).val (s * c.n) :=
    fun s hs => (hrank _ (block_lt (i := 0) hs hn)).2
  constructor
  case idx => exact fun s hs q hq => (hrank _ (block_lt hs (by omega))).1
  case val => exact fun s hs q hq => (hrank _ (block_lt hs (by omega))).2
  case heads => exact hhead
  case stats =>
    intro s hs j _
    dsimp only [Call.result]
    rw [hhead s hs]
    exact kStatsSeg_congr D.A _ (fun q hq => (hrank _ (block_lt hs hq)).2) j
  case probes => exact fun _ _ _ _ => rfl

/-- What serves a call does not depend on the contents; only a select's results may. -/
theorem Call.sorting_cases (hS : 1 ≤ c.S) (ready : Bool) (b b' : Contents F) :
    (∃ out out', c.sorting D ready b = .select out ∧ c.sorting D ready b' = .select out' ∧
      c.entry = .batchedK ∧ hostSelect D.C D.A (D.flags ready) c.run b.sel c.snapBf16 c.logits c.S
        c.n c.topk = some out ∧
      hostSelect D.C D.A (D.flags ready) c.run b'.sel c.snapBf16 c.logits c.S c.n c.topk =
        some out') ∨
    (c.sorting D ready b = c.sorting D ready b' ∧ ∀ out, c.sorting D ready b ≠ .select out) := by
  have hsel := (@hostSelect_congr _ _ D.C D.A (D.flags ready) c.run b.sel b'.sel c.snapBf16
    c.logits c.S c.n c.topk (Call.n_lt hS) c.run_perm).1
  unfold Call.sorting
  split
  · exact .inr ⟨rfl, nofun⟩
  · rename_i he
    by_cases hok : c.selectOk = true
    · rw [if_pos hok, if_pos hok]
      cases h : hostSelect D.C D.A (D.flags ready) c.run b.sel c.snapBf16 c.logits c.S c.n
          c.topk with
      | none =>
        rw [hsel.1 h]
        exact .inr ⟨rfl, nofun⟩
      | some out =>
        cases h' : hostSelect D.C D.A (D.flags ready) c.run b'.sel c.snapBf16 c.logits c.S c.n
            c.topk with
        | none => rw [hsel.2 h'] at h; cases h
        | some out' => exact .inl ⟨out, out', rfl, rfl, he, rfl, rfl⟩
    · rw [if_neg hok, if_neg hok]
      exact .inr ⟨rfl, nofun⟩
  · refine .inr ⟨rfl, fun out h => ?_⟩
    split at h <;> cases h

theorem Call.sorting_flat {ready : Bool} {b : Contents F} {k : FullSort}
    (hearly : c.early D = none) (h : c.sorting D ready b = .full k)
    (hk : k = .flat ∨ k = .flatSnap) : c.S ≤ 64 ∧ c.n ≤ 2 ^ 18 := by
  unfold Call.sorting at h
  split at h
  · cases h
    rcases hk with hk | hk <;> cases hk
  · split at h
    · cases h
    · split at h
      · rename_i hle
        exact hle
      · cases h
        rcases hk with hk | hk <;> cases hk
  · rename_i he
    exact (Call.early_eq_none hearly).2.2 he

/-- The statistics of a select on contents `b` start from what `d_stats` held. -/
theorem Call.select_agrees (hS : 1 ≤ c.S) {ready : Bool} {b b' : Contents F} {out out' : TopkOut F}
    (he : c.entry = .batchedK)
    (h : hostSelect D.C D.A (D.flags ready) c.run b.sel c.snapBf16 c.logits c.S c.n c.topk =
      some out)
    (h' : hostSelect D.C D.A (D.flags ready) c.run b'.sel c.snapBf16 c.logits c.S c.n c.topk =
      some out') {σ σ' : BatchScratch}
    (hbase : ∀ s < c.S, ∀ j < 6, statsBase (D.flags ready) b.sel s j =
      statsBase (D.flags ready) b'.sel s j) :
    (c.result D σ b (.select out)).Agrees (c.result D σ' b' (.select out')) c.S c.ranks := by
  have hall := (hostSelect_congr D.C D.A (D.flags ready) (Call.n_lt hS) c.run_perm).2 out out' h h'
  have hK : c.ranks = c.topk := by
    obtain ⟨h1, h2, h3, -⟩ := hostSelect_cases h
    unfold Call.ranks clampTopk
    unfold candCap at h2 h3
    rw [he]
    exact if_neg (by omega)
  rw [hK]
  constructor
  case idx => exact fun s hs q hq => ((hall s hs).1 q hq).1
  case val => exact fun s hs q hq => ((hall s hs).1 q hq).2
  case heads => exact fun s hs => (hall s hs).2.1
  case stats =>
    intro s hs j hj
    obtain ⟨x, hx, hx'⟩ := (hall s hs).2.2 j
    show out.stats s j = out'.stats s j
    rw [hx, hx', hbase s hs j hj]
  case probes => exact fun _ _ _ _ => rfl

end Agree

/-! ## Runs -/

/-- The scratch, and the vocabulary of the call that allocated it. -/
structure Tracked where
  scratch : BatchScratch
  madeFor : Nat

section Runs

variable {F : Type} [Semiring F] (D : Device F)

/-- The calls of one thread; an event is a call and what the buffers hold when it starts. -/
def scratchMachine : Runs.Machine Tracked (Call × Contents F) where
  init := ⟨.released, 0⟩
  step t e := some
    { scratch := (call D t.scratch e.2 e.1).1
      madeFor := if (e.1.early D).isNone ∧ t.scratch.failed = false ∧
          ¬ t.scratch.Holds e.1.S e.1.n ∧ e.1.allocated then e.1.n else t.madeFor }

/-- The same call on freshly allocated scratch, with the select scratch there or not as `ready`
says. -/
def Call.onFresh (ready : Bool) (b : Contents F) (c : Call) : Option (Result F) :=
  (call D .released b { c with allocated := true, topkAllocated := ready }).2

/-- A call that asks for the scratch and gets it. -/
def Call.Gets (c : Call) (σ : BatchScratch) : Prop := c.early D = none ∧ (ensure D.T c σ).2 = true

/-- **Scratch reuse is invisible to a call**: when it returns `true` it returns what it would on
fresh scratch, whatever that holds, and a sort that reads the offsets finds `i * n`. -/
structure Invisible (t : Tracked) (e : Call × Contents F) : Prop where
  result : ∀ r, (call D t.scratch e.2 e.1).2 = some r → ∀ b, ∃ r',
    e.1.onFresh D (ensure D.T e.1 t.scratch).1.topkReady b = some r' ∧ r.Agrees r' e.1.S e.1.ranks
  offs : e.1.Gets D t.scratch →
    (e.1.sorting D (ensure D.T e.1 t.scratch).1.topkReady e.2).Segmented →
    ∀ i ≤ e.1.S, (ensure D.T e.1 t.scratch).1.offs i = i * e.1.n

/-- When it is: no sort reads the offsets of scratch kept from another vocabulary, and no select
adds to statistics that `MEOW_STATS_1BLK` leaves uncleared. -/
structure Tolerated (t : Tracked) (e : Call × Contents F) : Prop where
  vocab : e.1.Gets D t.scratch → t.scratch.Holds e.1.S e.1.n →
    (e.1.sorting D t.scratch.topkReady e.2).Segmented → e.1.n = t.madeFor
  cleared : e.1.Gets D t.scratch → e.1.ok = true → ∀ out,
    e.1.sorting D (ensure D.T e.1 t.scratch).1.topkReady e.2 = .select out → D.stats1blk = false

/-- What every run keeps: the offsets are those of the call that allocated, and so is the
temporary storage. -/
structure Tracked.Inv (t : Tracked) : Prop where
  offs : ∀ i ≤ t.scratch.capSeg, t.scratch.offs i = i * t.madeFor
  temp : 0 < t.scratch.capSeg →
    D.T.bytes t.scratch.capTotal t.scratch.capSeg ≤ t.scratch.tempBytes

end Runs

section Runs

variable {F : Type} [Semiring F] {D : Device F} {c : Call} {t : Tracked}

theorem TempStorage.bytes_mono (T : TempStorage) {i j s u : Nat} (hij : i ≤ j) (hsu : s ≤ u) :
    T.bytes i s ≤ T.bytes j u := by
  have h1 := T.segKeys_mono hij hsu
  have h2 := T.keys_mono hij
  have h3 := T.segPairs_mono hij hsu
  unfold TempStorage.bytes
  omega

theorem ensure_holds {T : TempStorage} {σ : BatchScratch} (hf : σ.failed = false)
    (h : σ.Holds c.S c.n) : ensure T c σ = (σ, true) := by
  unfold ensure
  rw [if_neg (by rw [hf]; decide), if_pos h]

theorem ensure_cases {T : TempStorage} {σ : BatchScratch} (h : (ensure T c σ).2 = true) :
    σ.failed = false ∧ (σ.Holds c.S c.n ∨ ¬ σ.Holds c.S c.n ∧ c.allocated = true ∧
      ensure T c σ = (⟨c.S * c.n, c.S, fun i => i * c.n, c.topkAllocated,
        T.bytes (c.S * c.n) c.S, false⟩, true)) := by
  unfold ensure at h ⊢
  split at h
  · cases h
  rename_i hf
  refine ⟨eq_false_of_ne_true hf, ?_⟩
  split at h
  · exact .inl ‹_›
  rename_i hh
  split at h
  · rename_i ha
    refine .inr ⟨hh, ha, ?_⟩
    rw [if_neg hf, if_neg hh, if_pos ha]
  · cases h

/-- A call that got the scratch has it serve, unless a sort reads offsets of another vocabulary. -/
theorem Tracked.Inv.serves (hI : t.Inv D) (hget : c.Gets D t.scratch) {k : FullSort}
    (hvocab : t.scratch.Holds c.S c.n → k = .segmented ∨ k = .sort32 → c.n = t.madeFor) :
    (ensure D.T c t.scratch).1.Serves D c k := by
  obtain ⟨hearly, hok⟩ := hget
  obtain ⟨hf, hh | ⟨hh, ha, heq⟩⟩ := ensure_cases hok
  · rw [ensure_holds hf hh]
    have hS := (Call.early_eq_none hearly).1
    obtain ⟨htotal, hseg⟩ := hh
    refine ⟨(D.T.bytes_mono htotal hseg).trans (hI.temp (by omega)), fun hk i hi => ?_⟩
    rw [hI.offs i (hi.trans hseg), hvocab ⟨htotal, hseg⟩ hk]
  · rw [heq]
    exact ⟨le_rfl, fun _ _ _ => rfl⟩

theorem Tracked.Inv.step {t' : Tracked} {e : Call × Contents F} (hI : t.Inv D)
    (h : (scratchMachine D).step t e = some t') : t'.Inv D := by
  obtain ⟨c, b⟩ := e
  cases h
  cases hearly : c.early D with
  | some r =>
    have hkeep : (call D t.scratch b c).1 = t.scratch := by rw [call, hearly]
    dsimp only
    rw [hkeep, if_neg (by simp)]
    exact hI
  | none =>
    have hcall : (call D t.scratch b c).1 = (ensure D.T c t.scratch).1 := by rw [call, hearly]
    dsimp only
    rw [hcall]
    unfold ensure
    by_cases hf : t.scratch.failed = true
    · rw [if_pos hf, if_neg (by simp [hf])]
      exact hI
    · rw [if_neg hf]
      by_cases hh : t.scratch.Holds c.S c.n
      · rw [if_pos hh, if_neg (fun h => h.2.2.1 hh)]
        exact hI
      · rw [if_neg hh]
        by_cases ha : c.allocated = true
        · rw [if_pos ha, if_pos ⟨rfl, eq_false_of_ne_true hf, hh, ha⟩]
          exact ⟨fun _ _ => rfl, fun _ => le_rfl⟩
        · rw [if_neg ha, if_neg (fun h => ha h.2.2.2)]
          -- a failed allocation leaves nothing
          refine ⟨fun i hi => ?_, fun h => absurd h (Nat.lt_irrefl 0)⟩
          have h0 : i = 0 := Nat.le_zero.1 hi
          rw [h0, Nat.zero_mul]
          rfl

theorem Call.onFresh_early {r : Option (Result F)} (hearly : c.early D = some r) (ready : Bool)
    (b : Contents F) : c.onFresh D ready b = r := by
  have hearly' : ({ c with allocated := true, topkAllocated := ready } : Call).early D = some r :=
    hearly
  rw [Call.onFresh, call, hearly']

theorem Call.onFresh_eq (hearly : c.early D = none) (ready : Bool) (b : Contents F) :
    c.onFresh D ready b = if c.ok then
      some (c.result D ⟨c.S * c.n, c.S, fun i => i * c.n, ready, D.T.bytes (c.S * c.n) c.S, false⟩ b
        (c.sorting D ready b)) else none := by
  have hS := (Call.early_eq_none hearly).1
  have hearly' : ({ c with allocated := true, topkAllocated := ready } : Call).early D = none :=
    hearly
  have hnot : ¬ BatchScratch.released.Holds c.S c.n := fun h => by
    have := h.2
    rw [show BatchScratch.released.capSeg = 0 from rfl] at this
    omega
  have hens : ensure D.T { c with allocated := true, topkAllocated := ready } .released =
      (⟨c.S * c.n, c.S, fun i => i * c.n, ready, D.T.bytes (c.S * c.n) c.S, false⟩, true) := by
    unfold ensure
    rw [if_neg (by decide), if_neg hnot, if_pos rfl]
  rw [Call.onFresh, call, hearly', hens]
  rfl

theorem call_eq (hearly : c.early D = none) (σ : BatchScratch) (b : Contents F) :
    (call D σ b c).2 = if (ensure D.T c σ).2 && c.ok then
      some (c.result D (ensure D.T c σ).1 b (c.sorting D (ensure D.T c σ).1.topkReady b))
        else none := by
  rw [call, hearly]

end Runs

section Iff

variable {F : Type} [Field F] {D : Device F} {t : Tracked}

variable {b : Contents F} {c : Call}

/-- A sort that reads the offsets of kept scratch finds those of its own vocabulary. -/
theorem Invisible.vocab (hI : t.Inv D) (h : Invisible D t (c, b)) (hget : c.Gets D t.scratch)
    (hh : t.scratch.Holds c.S c.n) (hseg : (c.sorting D t.scratch.topkReady b).Segmented) :
    c.n = t.madeFor := by
  obtain ⟨hf, -⟩ := ensure_cases hget.2
  have hS := (Call.early_eq_none hget.1).1
  have hoffs := h.offs hget
  rw [ensure_holds hf hh] at hoffs
  have h1 := hoffs hseg 1 hS
  rw [hI.offs 1 (hS.trans hh.2), Nat.one_mul, Nat.one_mul] at h1
  exact h1.symm

/-- A select whose statistics start from the scratch tells two contents apart. -/
theorem Invisible.cleared (h : Invisible D t (c, b)) (hget : c.Gets D t.scratch)
    (hok : c.ok = true) {out} (hsel : c.sorting D (ensure D.T c t.scratch).1.topkReady b =
      .select out) : D.stats1blk = false := by
  by_contra hflag
  have hflag : ∀ ready, (D.flags ready).stats1blk = true := fun _ => eq_true_of_ne_false hflag
  have hS := (Call.early_eq_none hget.1).1
  -- fresh statistics one larger than those found
  obtain ⟨b', hb'⟩ : ∃ b' : Contents F, ∀ s j, b'.sel.stats s j = b.sel.stats s j + 1 :=
    ⟨{ b with sel := { b.sel with stats := fun s j => b.sel.stats s j + 1 } }, fun _ _ => rfl⟩
  rcases Call.sorting_cases (c := c) (D := D) hS (ensure D.T c t.scratch).1.topkReady b b' with
    ⟨out, out', hb, hbfresh, -, hs, hs'⟩ | ⟨-, hno⟩
  · have hr := call_eq hget.1 t.scratch b
    rw [hget.2, hok, hb] at hr
    obtain ⟨r', hr', hagree⟩ := h.result _ hr b'
    rw [Call.onFresh_eq hget.1, if_pos hok, hbfresh, Option.some.injEq] at hr'
    subst hr'
    have hstat := hagree.stats 0 hS 0 (by decide)
    obtain ⟨x, hx, hx'⟩ := ((hostSelect_congr D.C D.A
      (D.flags (ensure D.T c t.scratch).1.topkReady) (Call.n_lt hS) c.run_perm).2 out out' hs
        hs' 0 hS).2.2 0
    have heq : out.stats 0 0 = out'.stats 0 0 := hstat
    rw [hx, hx', statsBase, statsBase, if_pos (hflag _), if_pos (hflag _), hb',
      add_left_inj, left_eq_add] at heq
    exact one_ne_zero heq
  · exact hno out hsel

/-- The result of a tolerated call, beside that on fresh scratch. -/
theorem Tolerated.result (hI : t.Inv D) (h : Tolerated D t (c, b)) {r : Result F}
    (hr : (call D t.scratch b c).2 = some r) (b' : Contents F) : ∃ r',
      c.onFresh D (ensure D.T c t.scratch).1.topkReady b' = some r' ∧ r.Agrees r' c.S c.ranks := by
  cases hearly : c.early D with
  | some r₀ =>
    rw [call, hearly] at hr
    have hr₀ : r₀ = some r := hr
    subst hr₀
    exact ⟨r, Call.onFresh_early hearly _ b', .refl r _ _⟩
  | none =>
    rw [call_eq hearly] at hr
    split at hr
    · rename_i hboth
      rw [Bool.and_eq_true] at hboth
      obtain ⟨hens, hok⟩ := hboth
      cases hr
      have hget : c.Gets D t.scratch := ⟨hearly, hens⟩
      obtain ⟨hS, hn, -⟩ := Call.early_eq_none hearly
      rw [Call.onFresh_eq hearly, if_pos hok]
      refine ⟨_, rfl, ?_⟩
      rcases Call.sorting_cases (c := c) (D := D) hS (ensure D.T c t.scratch).1.topkReady b b'
        with ⟨out, out', hb, hb', he, hs, hs'⟩ | ⟨heq, hno⟩
      · rw [hb, hb']
        refine Call.select_agrees hS he hs hs' fun s _ j _ => ?_
        have hflag : (D.flags (ensure D.T c t.scratch).1.topkReady).stats1blk = false :=
          h.cleared hget hok out hb
        rw [statsBase, statsBase, hflag]
        rfl
      · rw [← heq]
        cases hby : c.sorting D (ensure D.T c t.scratch).1.topkReady b with
        | stub => exact .refl _ _ _
        | select out => exact absurd hby (hno out)
        | full k =>
          refine Call.full_agrees hS hn (Call.sorting_flat hearly hby)
            (hI.serves hget fun hh hk => h.vocab hget hh ?_) ⟨le_rfl, fun _ _ _ => rfl⟩ b b'
          dsimp only
          rw [ensure_holds (ensure_cases hens).1 hh] at hby
          rw [hby]
          rcases hk with rfl | rfl
          · trivial
          · trivial
    · cases hr

theorem Tolerated.offs (hI : t.Inv D) (h : Tolerated D t (c, b)) (hget : c.Gets D t.scratch)
    (hseg : (c.sorting D (ensure D.T c t.scratch).1.topkReady b).Segmented) :
    ∀ i ≤ c.S, (ensure D.T c t.scratch).1.offs i = i * c.n := by
  obtain ⟨hf, hh | ⟨-, -, heq⟩⟩ := ensure_cases hget.2
  · rw [ensure_holds hf hh] at hseg ⊢
    intro i hi
    rw [hI.offs i (hi.trans hh.2), h.vocab hget hh hseg]
  · rw [heq]
    exact fun _ _ => rfl

/-- **When the reuse is invisible to a call.** -/
theorem invisible_iff (hI : t.Inv D) (e : Call × Contents F) :
    Invisible D t e ↔ Tolerated D t e := by
  obtain ⟨c, b⟩ := e
  constructor
  · intro h
    exact ⟨h.vocab hI, fun hget hok _ hsel => h.cleared hget hok hsel⟩
  · intro h
    exact ⟨fun _ hr b' => h.result hI hr b', h.offs hI⟩

/-- **When the reuse is invisible in a run**: exactly when every call is tolerated. -/
theorem scratch_invisible_iff (D : Device F) (es : List (Call × Contents F)) :
    (scratchMachine D).Guarded (Invisible D) (scratchMachine D).init es ↔
      (scratchMachine D).Guarded (Tolerated D) (scratchMachine D).init es := by
  refine (scratchMachine D).guarded_congr (I := Tracked.Inv D) (fun _ _ _ hI hs => hI.step hs)
    (fun _ e hI => invisible_iff hI e) ⟨fun i hi => ?_, fun h => absurd h (Nat.lt_irrefl 0)⟩
  have h0 : i = 0 := Nat.le_zero.1 hi
  rw [h0, Nat.zero_mul]
  rfl

end Iff

/-! ## A smaller vocabulary -/

def plainDevice : Device Rat where
  C := .stableSort 64
  P := .stableSort
  T := ⟨fun _ _ => 0, fun _ => 0, fun _ _ => 0, fun _ _ => le_rfl, fun _ => le_rfl,
    fun _ _ => le_rfl⟩
  scan := .sequential
  A := ratArith
  histogram := false
  sort32 := false
  select := false
  stats1blk := false
  stub := false
  stubVal := fun _ => 0#32

/-- `pow_gpu_sort_and_stats_batched` on two streams, every step of it succeeding. -/
def plainBatched (n : Nat) (logits : Buffer Pattern) (h : 2 * n < 2 ^ 31) : Call where
  entry := .batched
  S := 2
  n := n
  topk := n
  snapBf16 := true
  logits := logits
  total_lt := h
  allocated := true
  topkAllocated := true
  selectOk := true
  ok := true
  run := rangeRun n
  run_perm := fun s _ => rangeRun_perm n s
  hist := ⟨fun _ => [], [], true⟩
  head0 := 0#32

def zeroContents : Contents Rat := ⟨fun _ => 0, fun _ => 0, ⟨fun _ => 0, fun _ => 0⟩, zeroScratch⟩

/-- `2, 1` and `3, 4`. -/
def fourLogits : Buffer Pattern := fun i =>
  if i = 0 then 0x40000000#32 else if i = 1 then 0x3f800000#32
  else if i = 2 then 0x40400000#32 else 0x40800000#32

/-- **Reuse shows**: after a call on four ids, one on two ids sorts with offsets 0, 4, 8. -/
theorem scratch_reuse_visible :
    ¬ (scratchMachine plainDevice).Guarded (Invisible plainDevice) (scratchMachine plainDevice).init
      [(plainBatched 4 (fun _ => 0) (by decide), zeroContents),
        (plainBatched 2 fourLogits (by decide), zeroContents)] := by
  rintro ⟨-, h⟩
  have hoffs := (h _ rfl).1.offs ⟨rfl, rfl⟩ trivial 1 (by decide)
  exact absurd hoffs (by decide)

end PowGpu
