import Mathlib.Algebra.BigOperators.Group.Finset.Basic
import Mathlib.Algebra.Order.BigOperators.Group.Finset
import SuprMeow.Gpu.FlatSort
import SuprMeow.Library.Runs

/-!
# The bf16 histogram sampler (`pow_histogram.cu`)

`pow_gpu_histogram_device_k` runs four kernels: `count_values` counts every stream's bins by
atomic additions, `summarize` turns the counts into start ranks by a 256 × 256 scan,
`select_ids` inserts the ids into rank slots by atomic minima, `gather` reads the values back.
Whatever the device is free to choose is an argument: the order of the additions and the
schedule of the insertions.

* `countValues_eq`, `summarize_eq` — the counts and the start ranks;
* `selectIds` — the machine of the insertion threads of all streams;
* `powGpuHistogramDeviceK` — the host function.

The `double` statistics of `summarize` are not modelled here; that they are all finite is part
of `Launch.ok`.
-/

set_option autoImplicit false

open Binary32

namespace PowHistogram

open PowGpu (Buffer add32 atomicAdd)

/-! ## Kernels -/

/-- Threads of a block, and bins each of them owns in `summarize`. -/
def threads : Nat := 256
def binsPerThread : Nat := bins / threads

/-- Threads of `dim3(32, s)` that share one stream. -/
def stride : Nat := 32 * threads

def UINT32_MAX : Nat := 4294967295

/-- `count_values` on stream `s`, with its `atomicAdd`s in the order `order`. -/
def countValues (values : Buffer Pattern) (n s : Nat) (order : List Nat) (counts : Buffer Nat) :
    Buffer Nat :=
  order.foldl (fun counts i => atomicAdd counts (key (values (s * n + i))).toNat) counts

/-- `cub::BlockScan<uint32_t, threads>`. -/
structure BlockScan where
  exclusiveSum : (Nat → Nat) → Nat → Nat
  spec : ∀ f, ∀ t < threads, exclusiveSum f t = (∑ u ∈ Finset.range t, f u) % 2 ^ 32

/-- A scan that adds in thread order. -/
def BlockScan.sequential : BlockScan where
  exclusiveSum f t := (∑ u ∈ Finset.range t, f u) % 2 ^ 32
  spec _ _ _ := rfl

/-- One thread's total in `summarize`. -/
def binTotal (row : Buffer Nat) (begin : Nat) : Nat :=
  (List.range binsPerThread).foldl (fun total j => add32 total (row (begin + j))) 0

/-- One thread's loop that replaces its counts by start ranks. -/
def rankBins (row : Buffer Nat) (begin rank : Nat) : Buffer Nat :=
  ((List.range binsPerThread).foldl (fun (st : Buffer Nat × Nat) j =>
    let count := st.1 (begin + j)
    (Function.update st.1 (begin + j) st.2, add32 st.2 count)) (row, rank)).1

/-- `summarize` on one row: counts in, start ranks out. -/
def summarize (scan : BlockScan) (row : Buffer Nat) : Buffer Nat :=
  let total := fun t => binTotal row (t * binsPerThread)
  (List.range threads).foldl (fun out t =>
    rankBins out (t * binsPerThread) (scan.exclusiveSum total t)) row

/-- Registers of a `select_ids` thread. -/
structure Thread where
  i : Nat
  r : Nat
  fin : Nat
  candidate : Nat

/-- The slots of one stream and its threads. -/
structure SelectState where
  output : Buffer Nat
  thread : Buffer Thread

section Select

variable (values : Buffer Pattern) (ranks : Buffer (Buffer Nat)) (n k s : Nat)

/-- The top of the loop over ids: load the bin's rank range. -/
def enter (i : Nat) : Thread :=
  if i < n then
    let bin := (key (values (s * n + i))).toNat
    { i := i
      r := min (ranks s bin) k
      fin := if bin + 1 < bins then min (ranks s (bin + 1)) k else k
      candidate := i }
  else ⟨i, 0, 0, i⟩

/-- One step of thread `t`: an `atomicMin`, or the move to its next id. -/
def selectStep (st : SelectState) (t : Nat) : Option SelectState :=
  let th := st.thread t
  if t < stride ∧ th.i < n then
    if th.r < th.fin ∧ th.candidate ≠ UINT32_MAX then
      let old := st.output th.r
      some { output := Function.update st.output th.r (min old th.candidate)
             thread := Function.update st.thread t
               { th with r := th.r + 1, candidate := max old th.candidate } }
    else
      some { st with
        thread := Function.update st.thread t (enter values ranks n k s (th.i + stride)) }
  else none

/-- Slots after the `0xff` memset, threads at their first ids. -/
def selectInit : SelectState where
  output _ := UINT32_MAX
  thread t := enter values ranks n k s t

end Select

/-- `select_ids` over all streams; an event is a step of thread `t` of stream `s`. -/
def selectIds (values : Buffer Pattern) (ranks : Buffer (Buffer Nat)) (S n k : Nat) :
    Runs.Machine (Buffer SelectState) (Nat × Nat) where
  init := fun s => selectInit values ranks n k s
  step σ e :=
    if e.1 < S then
      (selectStep values ranks n k e.1 (σ e.1) e.2).map fun st => Function.update σ e.1 st
    else none

/-- Every thread of every stream has left its loop. -/
def Complete (S n : Nat) (σ : Buffer SelectState) : Prop :=
  ∀ s < S, ∀ t < stride, n ≤ ((σ s).thread t).i

def nan : Pattern := 0x7fc00000#32

/-- Host results; `ids s r` is element `s * k + r`. -/
structure Output where
  ids : Buffer (Buffer Nat)
  values : Buffer (Buffer Pattern)
  heads : Buffer Pattern
  probes : Buffer (Buffer Pattern)

/-- `gather`. -/
def gather (values : Buffer Pattern) (n : Nat) (ids : Buffer (Buffer Nat)) : Output :=
  let load := fun s id => if id < n then snap (values (s * n + id)) else nan
  { ids := ids
    values := fun s r => load s (ids s r)
    heads := fun s => load s (ids s 0)
    probes := fun s p => snap (values (s * n + (n / 20) * p)) }

/-- What the device and the driver choose: the order of the additions of each stream, the
schedule of the insertions, and whether every call succeeds with finite statistics. -/
structure Launch where
  order : Nat → List Nat
  sched : List (Nat × Nat)
  ok : Bool

/-- The start ranks `select_ids` reads. -/
def ranksOf (scan : BlockScan) (order : Nat → List Nat) (logits : Buffer Pattern) (n : Nat) :
    Buffer (Buffer Nat) :=
  fun s => summarize scan (countValues logits n s (order s) fun _ => 0)

/-- `pow_gpu_histogram_device_k`; `none` is the result `false`. -/
def powGpuHistogramDeviceK (scan : BlockScan) (L : Launch) (logits : Buffer Pattern)
    (S n k : Nat) : Option Output :=
  if S < 1 ∨ n < 20 ∨ k < 1 ∨ k > n ∨ k > 64 then none
  else
    let M := selectIds logits (ranksOf scan L.order logits n) S n k
    (M.exec M.init L.sched).bind fun σ =>
      if L.ok then some (gather logits n fun s => (σ s).output) else none

/-! ## Counting -/

/-- The bin of id `i` of stream `s`. -/
def binOf (values : Buffer Pattern) (n s i : Nat) : Nat := (key (values (s * n + i))).toNat

/-- **Whatever the order of the additions, a bin's count is the number of its ids.** -/
theorem countValues_eq (values : Buffer Pattern) {n s : Nat} (hn : n < 2 ^ 32) {order : List Nat}
    (horder : order.Perm (List.range n)) (b : Nat) :
    countValues values n s order (fun _ => 0) b =
      (BucketSelect.bucket (binOf values n s) n b).card :=
  PowGpu.foldl_atomicAdd_eq (binOf values n s) hn horder b

/-! ## Start ranks -/

section Summarize

variable {row : Buffer Nat}

theorem foldl_add32 (begin : Nat) :
    ∀ m, (List.range m).foldl (fun total j => add32 total (row (begin + j))) 0 =
      (∑ j ∈ Finset.range m, row (begin + j)) % 2 ^ 32 := by
  intro m
  induction m with
  | zero => simp
  | succ m ih =>
    rw [List.range_succ, List.foldl_append, ih, Finset.sum_range_succ, List.foldl_cons,
      List.foldl_nil, add32, Nat.mod_add_mod]

/-- The loop of one thread, after `m` of its bins. -/
theorem rankBins_loop (out : Buffer Nat) (begin rank : Nat) :
    ∀ m, (List.range m).foldl (fun (st : Buffer Nat × Nat) j =>
        let count := st.1 (begin + j)
        (Function.update st.1 (begin + j) st.2, add32 st.2 count)) (out, rank % 2 ^ 32) =
      (fun b => if begin ≤ b ∧ b < begin + m then
          (rank + ∑ j ∈ Finset.range (b - begin), out (begin + j)) % 2 ^ 32 else out b,
        (rank + ∑ j ∈ Finset.range m, out (begin + j)) % 2 ^ 32) := by
  intro m
  induction m with
  | zero =>
    exact Prod.ext (funext fun b => (if_neg (by omega)).symm) (by simp)
  | succ m ih =>
    rw [List.range_succ, List.foldl_append, ih, List.foldl_cons, List.foldl_nil]
    refine Prod.ext ?_ ?_
    · funext b
      by_cases hb : b = begin + m
      · subst hb
        simp
      · simp only [Function.update_of_ne hb]
        by_cases hin : begin ≤ b ∧ b < begin + m
        · rw [if_pos hin, if_pos (by omega)]
        · rw [if_neg hin, if_neg (by omega)]
    · simp only [Finset.sum_range_succ, add32]
      rw [if_neg (by omega), Nat.mod_add_mod, Nat.add_assoc]

theorem sum_blocks (m : Nat) :
    ∀ T, ∑ u ∈ Finset.range T, ∑ j ∈ Finset.range m, row (u * m + j) =
      ∑ b ∈ Finset.range (T * m), row b := by
  intro T
  induction T with
  | zero => simp
  | succ T ih => rw [Finset.sum_range_succ, ih, Nat.succ_mul, Finset.sum_range_add]

variable (htotal : ∑ b ∈ Finset.range bins, row b < 2 ^ 32)
include htotal

theorem sum_lt {m : Nat} (hm : m ≤ bins) : ∑ b ∈ Finset.range m, row b < 2 ^ 32 :=
  lt_of_le_of_lt (Finset.sum_le_sum_of_subset (Finset.range_subset_range.2 hm)) htotal

/-- The scanned prefix of thread `t` is the sum of all earlier bins. -/
theorem scan_prefix (scan : BlockScan) {t : Nat} (ht : t < threads) :
    scan.exclusiveSum (fun t => binTotal row (t * binsPerThread)) t =
      ∑ b ∈ Finset.range (t * binsPerThread), row b := by
  have hle : ∀ u ≤ threads, u * binsPerThread ≤ bins := fun u hu =>
    Nat.mul_le_mul_right binsPerThread hu
  have hblock : ∀ u < t, binTotal row (u * binsPerThread) =
      ∑ j ∈ Finset.range binsPerThread, row (u * binsPerThread + j) := fun u hu => by
    have h := sum_lt htotal (hle (u + 1) (by omega))
    rw [Nat.succ_mul, Finset.sum_range_add] at h
    rw [binTotal, foldl_add32, Nat.mod_eq_of_lt (by omega)]
  rw [scan.spec _ t ht, Finset.sum_congr rfl fun u hu => hblock u (Finset.mem_range.1 hu),
    sum_blocks, Nat.mod_eq_of_lt (sum_lt htotal (hle t ht.le))]

/-- The row after the first `T` threads. -/
theorem summarize_loop (scan : BlockScan) :
    ∀ T ≤ threads, (List.range T).foldl (fun out t => rankBins out (t * binsPerThread)
        (scan.exclusiveSum (fun t => binTotal row (t * binsPerThread)) t)) row =
      fun b => if b < T * binsPerThread then ∑ c ∈ Finset.range b, row c else row b := by
  intro T hT
  induction T with
  | zero => simp
  | succ T ih =>
    have hle : (T + 1) * binsPerThread ≤ bins := Nat.mul_le_mul_right binsPerThread hT
    have hscan := scan_prefix htotal scan (show T < threads by omega)
    have hlt := sum_lt htotal (show T * binsPerThread ≤ bins by rw [Nat.succ_mul] at hle; omega)
    rw [List.range_succ, List.foldl_append, ih (by omega), List.foldl_cons, List.foldl_nil,
      hscan, rankBins]
    have hloop := rankBins_loop
      (fun b => if b < T * binsPerThread then ∑ c ∈ Finset.range b, row c else row b)
      (T * binsPerThread) (∑ b ∈ Finset.range (T * binsPerThread), row b) binsPerThread
    rw [Nat.mod_eq_of_lt hlt] at hloop
    rw [hloop]
    funext b
    rw [Nat.succ_mul] at hle ⊢
    dsimp only
    by_cases hb : T * binsPerThread ≤ b ∧ b < T * binsPerThread + binsPerThread
    · rw [if_pos hb, if_pos hb.2, Finset.sum_congr rfl fun j _ => if_neg (by omega),
        ← Finset.sum_range_add, Nat.add_sub_cancel' hb.1,
        Nat.mod_eq_of_lt (sum_lt htotal (by omega))]
    · rw [if_neg hb]
      by_cases hb' : b < T * binsPerThread
      · rw [if_pos hb', if_pos (by omega)]
      · rw [if_neg hb', if_neg (by omega)]

/-- **`summarize` stores the sum of all smaller bins.** -/
theorem summarize_eq (scan : BlockScan) {b : Nat} (hb : b < bins) :
    summarize scan row b = ∑ c ∈ Finset.range b, row c := by
  rw [summarize, summarize_loop htotal scan threads le_rfl]
  exact if_pos hb

end Summarize

/-- **The start rank of a bin is the number of ids in smaller bins.** -/
theorem ranksOf_eq (scan : BlockScan) {order : Nat → List Nat} (logits : Buffer Pattern)
    {n s : Nat} (hn : n < 2 ^ 32) (horder : (order s).Perm (List.range n)) {b : Nat}
    (hb : b < bins) :
    ranksOf scan order logits n s b = BucketSelect.below (binOf logits n s) n b := by
  have hcount : ∀ m, ∑ c ∈ Finset.range m, countValues logits n s (order s) (fun _ => 0) c =
      BucketSelect.below (binOf logits n s) n m := fun m => by
    rw [Finset.sum_congr rfl fun b _ => countValues_eq logits hn horder b,
      BucketSelect.sum_card_bucket]
  rw [ranksOf, summarize_eq _ scan hb, hcount]
  rw [hcount]
  exact lt_of_le_of_lt (BucketSelect.below_le _) hn

end PowHistogram
