import SuprMeow.Gpu.HistogramSelect
import SuprMeow.Library.PartialSort
import SuprMeow.Library.WrappingLoop
import SuprMeow.Poi.CanaryPrompt

/-!
# The canary reference table (`--canary-ref`)

For each window number below `wmax` the generator derives the prompt, asks the engine for its
step-0 logits, snaps them and sorts 64 of them to the front.  It takes `S` numbers at a time, with
a 32-bit counter.

* `ranks_canaryRecord_iff` — a record holds the first 64 ranks, as the miner's two sorts report
  them, unless JSON cannot hold one of the values;
* `canaryRef_fits`, `canaryRef_wraps` — how the counter ends;
* `canaryRef_complete_iff` — when the table is complete.
-/

set_option autoImplicit false

open Binary32
open PowGpu (Buffer)
open Stratum (Bytes)

namespace Poi

/-! ## The generator -/

/-- `dump` of a value: JSON has no infinity and no NaN, so these are written as `null`. -/
def dumpVal (x : Pattern) : Option Pattern := if isFinite x then some x else none

/-- A record as its line of the file holds it. -/
structure CanaryRecord where
  w : Nat
  key : Bytes
  idx : List Nat
  val : List (Option Pattern)

/-- What a call of the generator works with. -/
structure RefGen where
  sha : Bytes → Digest
  env : CanaryEnv := {}
  seed : Seed
  nVocab : Nat
  /-- The engine's step-0 logits of a prompt. -/
  engine : List Int → Buffer Pattern
  sort : PartialSort (Pattern × Nat)

/-- `kTopK`. -/
def kTopK : Nat := 64

/-- The comparison of the sort. -/
def valueBefore (a c : Pattern × Nat) : Bool :=
  if !Binary32.eq a.1 c.1 then gt a.1 c.1 else decide (a.2 < c.2)

namespace RefGen

variable (G : RefGen)

def prompt (w : Nat) : List Int := canaryDerivePrompt G.sha G.env G.seed w G.nVocab

/-- `v`, before it is sorted. -/
def snapped (logits : Buffer Pattern) : List (Pattern × Nat) :=
  (List.range G.nVocab).map fun i => (PowGpu.snapBf16Reg (logits i), i)

def canaryRecord (w : Nat) : CanaryRecord :=
  let toks := G.prompt w
  let v := G.sort.run valueBefore kTopK (G.snapped (G.engine toks))
  { w
    key := canaryPromptKey G.sha toks
    idx := (v.take kTopK).map (·.2)
    val := (v.take kTopK).map fun p => dumpVal p.1 }

/-- The records of the pass at `w0`. -/
def batch (wmax S w0 : Nat) : List CanaryRecord :=
  (List.range (min S (wmax - w0))).map fun b => G.canaryRecord ((w0 + b) % 2 ^ 32)

/-- The records the generator writes; `none` when the fuel runs out. -/
def canaryRef (wmax S fuel : Nat) : Option (List CanaryRecord) :=
  WrappingLoop.loop (2 ^ 32) wmax S (G.batch wmax S) fuel 0 []

/-- The step-0 logits of the prompt of `(seed, w)`. -/
def logits (w : Nat) : Buffer Pattern := G.engine (G.prompt w)

end RefGen

/-! ## Records -/

/-- The first 64 ranked ids of the prompt of `w`. -/
def RefGen.firstIds (G : RefGen) (w : Nat) : List Nat :=
  (PowGpu.rankedIds (fun i => PowHistogram.snap (G.logits w i)) G.nVocab).take 64

/-- JSON can hold the values of the first 64 ranks. -/
def RefGen.Writable (G : RefGen) (w : Nat) : Prop :=
  ∀ i ∈ G.firstIds w, isFinite (PowHistogram.snap (G.logits w i)) = true

/-- The first 64 ranks of the prompt of `w`, in the normative order and as the miner's two sorts
report them for a batch with these logits in row `s`. -/
structure CanaryRecord.Ranks (G : RefGen) (r : CanaryRecord) : Prop where
  idx : r.idx = G.firstIds r.w
  val : r.val = r.idx.map fun i => some (PowHistogram.snap (G.logits r.w i))
  flat : ∀ (C : PowGpu.CubRadixSort 64) (b : PowGpu.SortScratch) (logits : Buffer Pattern)
    (S s : Nat), S ≤ 64 → G.nVocab ≤ 2 ^ 18 → s < S → logits.row G.nVocab s = G.logits r.w →
    (∀ i < S * G.nVocab, isNaN (PowHistogram.snap (logits i)) = false) →
      (List.range 64).map (fun k =>
        ((PowGpu.flatSortSnap C logits S G.nVocab b).idx (s * G.nVocab + k)).toNat) = r.idx ∧
      (List.range 64).map (fun k =>
        some ((PowGpu.flatSortSnap C logits S G.nVocab b).val (s * G.nVocab + k))) = r.val
  histogram : ∀ (scan : PowHistogram.BlockScan) (order : Nat → List Nat) (sched : List (Nat × Nat))
    (logits : Buffer Pattern) (S s : Nat) (σ : Buffer PowHistogram.SelectState)
    (out : PowHistogram.Output), s < S → logits.row G.nVocab s = G.logits r.w →
    (∀ t < S, ∀ i < G.nVocab,
      isFinite (PowHistogram.snap (logits (t * G.nVocab + i))) = true) →
    (∀ t < S, (order t).Perm (List.range G.nVocab)) →
    (PowHistogram.selectIds logits (PowHistogram.ranksOf scan order logits G.nVocab) S G.nVocab
      64).exec (PowHistogram.selectIds logits
        (PowHistogram.ranksOf scan order logits G.nVocab) S G.nVocab 64).init sched = some σ →
    PowHistogram.Complete S G.nVocab σ →
    PowHistogram.powGpuHistogramDeviceK scan ⟨order, sched, true⟩ logits S G.nVocab 64 =
      some out →
      (List.range 64).map (out.ids s) = r.idx ∧
        (List.range 64).map (fun k => some (out.values s k)) = r.val

/-- The normative order on pairs. -/
def pairKey (p : Pattern × Nat) : Lex (Nat × Nat) := toLex (descending p.1, p.2)

theorem valueBefore_eq {f : Buffer Pattern} {i j : Nat} (hi : isNaN (f i) = false)
    (hj : isNaN (f j) = false) :
    valueBefore (f i, i) (f j, j) = decide (PowGpu.rankKey f i < PowGpu.rankKey f j) := by
  have hlt := descending_lt_iff (f i) (f j)
  have heq := descending_eq_iff (f i) (f j)
  have hkey := PowGpu.rankKey_lt_iff (v := f) (i := i) (j := j)
  unfold valueBefore gt Binary32.eq
  simp only [hi, hj, Bool.not_false, Bool.true_and]
  by_cases h : scaled (f i) = scaled (f j)
  · rw [decide_eq_true h]
    have hd := heq.2 h
    refine decide_eq_decide.2 (Iff.trans ?_ hkey.symm)
    omega
  · rw [decide_eq_false h]
    have hd := mt heq.1 h
    refine decide_eq_decide.2 (Iff.trans ?_ hkey.symm)
    omega

namespace RefGen

variable {G : RefGen}

/-- The sorted pairs in front are the ranked ids with their values. -/
theorem take_sort {f logits : Buffer Pattern} (hn : 64 ≤ G.nVocab)
    (hf : f = fun i => PowHistogram.snap (logits i)) (hnan : ∀ i < G.nVocab, isNaN (f i) = false) :
    (G.sort.run valueBefore kTopK (G.snapped logits)).take kTopK =
      ((PowGpu.rankedIds f G.nVocab).take 64).map fun i => (f i, i) := by
  have hsnapped : G.snapped logits = (List.range G.nVocab).map fun i => (f i, i) := by
    simp only [snapped, PowGpu.snapBf16Reg_eq, hf]
  have hsep : Ranking.Separates pairKey ((List.range G.nVocab).map fun i => (f i, i)) := by
    intro a ha b hb hab
    obtain ⟨i, -, rfl⟩ := List.mem_map.1 ha
    obtain ⟨j, -, rfl⟩ := List.mem_map.1 hb
    have hij : i = j := congrArg (fun p => (ofLex p).2) hab
    rw [hij]
  have hnd : ((List.range G.nVocab).map fun i => (f i, i)).Nodup :=
    List.nodup_range.map fun i j h => congrArg Prod.snd h
  have hlt : ∀ a ∈ (List.range G.nVocab).map (fun i => (f i, i)),
      ∀ b ∈ (List.range G.nVocab).map (fun i => (f i, i)),
        valueBefore a b = decide (pairKey a < pairKey b) := by
    intro a ha b hb
    obtain ⟨i, hi, rfl⟩ := List.mem_map.1 ha
    obtain ⟨j, hj, rfl⟩ := List.mem_map.1 hb
    exact valueBefore_eq (hnan i (List.mem_range.1 hi)) (hnan j (List.mem_range.1 hj))
  have hranked : (PowGpu.rankedIds f G.nVocab).map (fun i => (f i, i)) =
      Ranking.ranking pairKey ((List.range G.nVocab).map fun i => (f i, i)) :=
    Ranking.eq_ranking hsep ((PowGpu.rankedIds_perm f G.nVocab).map _)
      (List.pairwise_map.2 (PowGpu.rankedIds_pairwise hnan))
  rw [hsnapped, G.sort.take_eq_ranking hsep hnd hlt (by simpa [kTopK] using hn), ← hranked,
    List.map_take]
  rfl

theorem firstIds_eq {w : Nat} (hn : 64 ≤ G.nVocab)
    (hnan : ∀ i < G.nVocab, isNaN (PowHistogram.snap (G.logits w i)) = false) :
    (G.canaryRecord w).idx = G.firstIds w := by
  refine (congrArg (List.map Prod.snd) (take_sort hn rfl hnan)).trans ?_
  rw [List.map_map]
  exact List.map_id _

theorem val_canaryRecord {w : Nat} (hn : 64 ≤ G.nVocab)
    (hnan : ∀ i < G.nVocab, isNaN (PowHistogram.snap (G.logits w i)) = false) :
    (G.canaryRecord w).val =
      (G.firstIds w).map fun i => dumpVal (PowHistogram.snap (G.logits w i)) := by
  refine (congrArg (List.map fun p => dumpVal p.1) (take_sort hn rfl hnan)).trans ?_
  rw [List.map_map]
  rfl

/-- The values are written as they are exactly when none of them is infinite. -/
theorem val_eq_iff {w : Nat} (hn : 64 ≤ G.nVocab)
    (hnan : ∀ i < G.nVocab, isNaN (PowHistogram.snap (G.logits w i)) = false) :
    (G.canaryRecord w).val =
      (G.firstIds w).map (fun i => some (PowHistogram.snap (G.logits w i))) ↔ G.Writable w := by
  rw [val_canaryRecord hn hnan, List.map_inj_left]
  refine forall₂_congr fun i _ => ?_
  unfold dumpVal
  split
  · rename_i h
    exact iff_of_true rfl h
  · rename_i h
    exact iff_of_false nofun h

/-- **A record holds the first 64 ranks, the ones both of the miner's sorts report, exactly when
none of their values is infinite.** -/
theorem ranks_canaryRecord_iff {w : Nat} (hn : 64 ≤ G.nVocab) (hn' : G.nVocab < 2 ^ 31)
    (hnan : ∀ i < G.nVocab, isNaN (PowHistogram.snap (G.logits w i)) = false) :
    (G.canaryRecord w).Ranks G ↔ G.Writable w := by
  have hidx := firstIds_eq hn hnan
  rw [← val_eq_iff hn hnan, ← hidx]
  refine ⟨fun h => h.val, fun hval => ?_⟩
  -- A row that holds these logits has the same ranked ids and the same values.
  have hrow : ∀ (logits : Buffer Pattern) (s : Nat), logits.row G.nVocab s = G.logits w →
      (fun i => PowHistogram.snap (logits (s * G.nVocab + i))) =
        fun i => PowHistogram.snap (G.logits w i) := by
    intro logits s h
    funext i
    rw [← h]
    rfl
  refine ⟨hidx, hval, ?_, ?_⟩
  · intro C b logits S s hS hn18 hs hlogits hrest
    have hfirst : ∀ {β : Type} (F : Nat → β),
        (List.range 64).map F = ((List.range G.nVocab).map F).take 64 := by
      intro β F
      rw [← List.map_take, List.take_range, Nat.min_eq_left hn]
    have hranks := PowGpu.flatSortSnap_rank C logits hS hn18 hrest b
    have hvalues : Buffer.row (fun i => PowHistogram.snap (logits i)) G.nVocab s =
        fun i => PowHistogram.snap (G.logits w i) := hrow logits s hlogits
    constructor
    · rw [hfirst, hranks.ids hs, hvalues, hidx]
      rfl
    · have hvals := congrArg (List.map some) (congrArg (List.take 64) (hranks.vals hs))
      rw [hvalues, ← hfirst, List.map_map, ← List.map_take, List.map_map] at hvals
      rw [hval, hidx]
      exact hvals
  · intro scan order sched logits S s σ out hs hlogits hfin horder hrun hdone hout
    obtain ⟨out', hout', hhead⟩ := PowHistogram.powGpuHistogramDeviceK_isHead scan
      (Nat.succ_le_of_lt (Nat.zero_lt_of_lt hs)) ⟨by omega, hn'⟩
      ⟨by decide, le_min le_rfl hn⟩ hfin horder hrun hdone
    cases hout.symm.trans hout'
    have hids : (List.range 64).map (out.ids s) = G.firstIds w := by
      rw [hhead.ids s hs, hrow logits s hlogits]
      rfl
    rw [← hidx] at hids
    refine ⟨hids, ?_⟩
    rw [hval, ← hids, List.map_map]
    refine List.map_congr_left fun r hr => ?_
    rw [hhead.values s hs r (List.mem_range.1 hr)]
    exact congrArg some (congrFun (hrow logits s hlogits) _)

/-! ## The loop -/

theorem canaryRef_fits {wmax S : Nat} (hwmax : wmax < 2 ^ 32) (hS : 1 ≤ S)
    (h : (wmax + S - 1) / S * S < 2 ^ 32) :
    ∃ fuel, G.canaryRef wmax S fuel = some ((List.range wmax).map G.canaryRecord) := by
  refine ⟨_, (WrappingLoop.loop_fits (f := fun w => G.canaryRecord (w % 2 ^ 32)) hS
    (Nat.le_of_lt hwmax) h).trans (congrArg some (List.map_congr_left ?_))⟩
  intro w hw
  have hlt := List.mem_range.1 hw
  rw [Nat.mod_eq_of_lt (hlt.trans hwmax)]

/-- A counter that wraps around is back before `wmax`, and its record is written again. -/
theorem canaryRef_wraps {wmax S : Nat} (hwmax : wmax < 2 ^ 32) (hS : 1 ≤ S ∧ S < 2 ^ 31)
    (h : 2 ^ 32 ≤ (wmax + S - 1) / S * S) {fuel : Nat} {recs : List CanaryRecord}
    (hrecs : G.canaryRef wmax S fuel = some recs) : wmax < recs.length :=
  WrappingLoop.loop_wraps (f := fun w => G.canaryRecord (w % 2 ^ 32)) (by omega) hS.1 hwmax h hrecs

/-- The generator ends, with one record for each window number in order, and each holds the ranks
of its prompt. -/
def Complete (G : RefGen) (wmax S : Nat) : Prop :=
  ∃ fuel recs, G.canaryRef wmax S fuel = some recs ∧
    recs.map (·.w) = List.range wmax ∧ ∀ r ∈ recs, r.Ranks G

theorem not_complete_of_wraps {wmax S : Nat} (hwmax : wmax < 2 ^ 32) (hS : 1 ≤ S ∧ S < 2 ^ 31)
    (h : 2 ^ 32 ≤ (wmax + S - 1) / S * S) : ¬G.Complete wmax S := by
  rintro ⟨fuel, recs, hrecs, hw, -⟩
  have hmore := canaryRef_wraps hwmax hS h hrecs
  have hlen := congrArg List.length hw
  rw [List.length_map, List.length_range] at hlen
  omega

/-- **The table is complete exactly when the counter can hold the first multiple of the slot count
that is not below `wmax` and no value to be written is infinite.** -/
theorem canaryRef_complete_iff {wmax S : Nat} (hwmax : 1 ≤ wmax ∧ wmax < 2 ^ 32)
    (hS : 1 ≤ S ∧ S < 2 ^ 31) (hn : 64 ≤ G.nVocab ∧ G.nVocab < 2 ^ 31)
    (hnan : ∀ w < wmax, ∀ i < G.nVocab, isNaN (PowHistogram.snap (G.logits w i)) = false) :
    G.Complete wmax S ↔
      (wmax + S - 1) / S * S < 2 ^ 32 ∧ ∀ w < wmax, G.Writable w := by
  have hranks : ∀ w < wmax, ((G.canaryRecord w).Ranks G ↔ G.Writable w) := fun w hw =>
    ranks_canaryRecord_iff hn.1 hn.2 (hnan w hw)
  constructor
  · intro h
    have hfits : (wmax + S - 1) / S * S < 2 ^ 32 := by
      by_contra hwraps
      exact not_complete_of_wraps hwmax.2 hS (Nat.not_lt.1 hwraps) h
    refine ⟨hfits, fun w hw => (hranks w hw).1 ?_⟩
    obtain ⟨fuel, recs, hrun, -, hall⟩ := h
    obtain ⟨fuel', hrun'⟩ := canaryRef_fits (G := G) hwmax.2 hS.1 hfits
    rw [WrappingLoop.loop_unique hrun hrun'] at hall
    exact hall _ (List.mem_map_of_mem (List.mem_range.2 hw))
  · rintro ⟨hfits, hwritable⟩
    obtain ⟨fuel, hrun⟩ := canaryRef_fits (G := G) hwmax.2 hS.1 hfits
    refine ⟨fuel, _, hrun, ?_, ?_⟩
    · rw [List.map_map]
      exact List.map_id _
    · intro r hr
      obtain ⟨w, hw, rfl⟩ := List.mem_map.1 hr
      have hlt := List.mem_range.1 hw
      exact (hranks w hlt).2 (hwritable w hlt)

/-- All logits are zero. -/
def flatGen : RefGen where
  sha := echo
  seed := zeroSeed
  nVocab := 64
  engine := fun _ _ => 0#32
  sort := PartialSort.ofFullSort _

theorem canaryRef_complete_three : flatGen.Complete 3 2 :=
  (canaryRef_complete_iff (by decide) (by decide) (by decide) (by decide)).2
    ⟨by decide, fun _ _ _ _ => (by decide : isFinite (PowHistogram.snap 0#32) = true)⟩

/-- Two slots do not divide the largest table: after its last record the counter is back at 0. -/
theorem largest_table_wraps : ¬flatGen.Complete (2 ^ 32 - 1) 2 :=
  not_complete_of_wraps (by decide) (by decide) (by decide)

end RefGen

end Poi
