import SuprMeow.Sampler.Reference

/-!
# The staged sampler: `sample_token_complete` as patched

The patched function takes the ranking from the injection slot, builds the survivor list from it
and runs `log_Z`, the softmax and the CDF over that list.

* `Staged` — the members, with `surv_valid_` and `surv_ids_`, which outlive the call;
* `stagedCore` — the distribution of one call; the slot may hold a prefix of the ranking only, and
  a read past it is `Stop.outOfBounds`;
* `sampleTokenComplete` — the whole call, with the draw and the 70 telemetry entries.

The compact CDF of `optimize-staged-poi.py` is opt-in and not part of this; neither is the CPU
fallback for a ranking kernel that fails, which produces the same full ranking.
-/

set_option autoImplicit false

open Binary32

namespace Sampler

structure Staged extends Members where
  survValid : Bool
  survIds : List Nat

section Steps

open MaskedFold (store)

variable {D : Type} (A : Arith D)

/-- `ensure_capacity_` without the zero-fills. -/
def Staged.ensureCapacity (s : Staged) (n : Nat) : Staged :=
  if s.size < n then
    { s with size := n, logits := fun _ => 0#32, probs := fun _ => 0#32, cdf := fun _ => 0#32 }
  else s

/-- `dev_logits_mode`: probes in the slot mark it, and then the host logits are stale. -/
def Call.deviceProbes (c : Call) : Option (Nat → Pattern) := c.presorted.bind Presorted.probes

/-- `working_logits`: the host logits are not snapped in device mode. -/
def Call.stagedWorking (c : Call) : Nat → Pattern :=
  match c.deviceProbes with
  | some _ => c.rawLogits
  | none => c.working A

/-- `kcopy`. -/
def Presorted.kcopy (p : Presorted) (n : Nat) : Nat :=
  if 0 < p.count ∧ p.count < n then p.count.toNat else n

/-- `pretemp_desc_`: the injected ranks, else a ranking of the whole vocabulary. -/
def Call.pretempDesc (c : Call) : List (Pattern × Nat) :=
  match c.presorted with
  | some p => (List.range (p.kcopy c.nVocab)).map fun r => (p.val r, p.idx r)
  | none => fullSort (c.working A) c.nVocab

/-- Step 2; skipped in device mode. -/
def Call.stagedScale (c : Call) (logits : Nat → Pattern) : Nat → Pattern :=
  match c.deviceProbes with
  | some _ => logits
  | none => store c.nVocab (fun i => c.scale A (c.working A i)) logits

/-! ## Top-k from the sorted prefix -/

/-- The order of `surv_iv_`: by id, then by value. -/
def ivLe (a b : Nat × Pattern) : Bool := decide (a.1 < b.1) || (a.1 == b.1 && !gt a.2 b.2)

/-- Mask, and the survivor list that goes with it. -/
structure StagedMask extends Mask where
  survValid : Bool
  survIds : List Nat

/-- The survivors: the leading ranks above the threshold, in id order. -/
def survIv (pre : List (Pattern × Nat)) (kpos : Nat) (kth : Pattern) : List (Nat × Pattern) :=
  (((pre.take kpos).takeWhile fun p => gt p.1 kth).map fun p => (p.2, p.1)).mergeSort ivLe

/-- Step 5, before the fallback.  The length of the list never exceeds `kpos`; the scan of the
vocabulary stays as the other branch. -/
def Call.survivorScan (c : Call) (pre : List (Pattern × Nat)) (kth : Pattern) (keep : Nat → Bool)
    (logits : Nat → Pattern) : StagedMask :=
  let iv := survIv pre c.kpos kth
  if iv.length ≤ c.kpos then
    { keep := iv.foldl (fun keep x => Function.update keep x.1 true)
        (store c.nVocab (fun _ => false) keep)
      logits := iv.foldl (fun logits x => Function.update logits x.1 (c.scale A x.2))
        (store c.nVocab (fun _ => ninf) logits)
      survivors := iv.length
      survValid := true
      survIds := iv.map Prod.fst }
  else
    { scanThreshold (c.stagedWorking A) c.nVocab kth keep logits with
      survValid := false
      survIds := [] }

/-- Step 5.  Without a cut the survivor list of an earlier call stays. -/
def Call.stagedTopK (c : Call) (s : Staged) (keep : Nat → Bool) (logits : Nat → Pattern) :
    Except Stop StagedMask :=
  if c.doTopK then
    let pre := c.pretempDesc A
    match pre[c.kpos]? with
    | none => .error .outOfBounds
    | some kth =>
      let scan := c.survivorScan A pre kth.1 keep logits
      if scan.survivors = 0 then
        match pre[0]? with
        | none => .error .outOfBounds
        | some best =>
          .ok { onlySurvivor c.nVocab best.2 (c.scaleBest A best.1) scan.keep scan.logits with
            survValid := scan.survValid
            survIds := if scan.survValid then [best.2] else scan.survIds }
      else .ok scan
  else
    .ok { keep := store c.nVocab (fun _ => true) keep
          logits := logits
          survivors := c.nVocab
          survValid := s.survValid
          survIds := s.survIds }

/-! ## Steps 7 and 8 over the survivors -/

def survMax (ids : List Nat) (logits : Nat → Pattern) : Pattern :=
  ids.foldl (fun m i => fmax m (logits i)) ninf

def survLogZ (ids : List Nat) (logits : Nat → Pattern) : Pattern :=
  let m := survMax ids logits
  if !eq m ninf then
    let sum := ids.foldl (fun s i => A.add s (A.exp (A.toDouble (A.subF (logits i) m)))) A.zero
    A.addF m (A.toFloat (A.log sum))
  else ninf

def survSoftmax (n : Nat) (ids : List Nat) (logits probs : Nat → Pattern) : Nat → Pattern :=
  let m := survMax ids logits
  let e := fun i => A.expF (A.subF (logits i) m)
  let Z := ids.foldl (fun Z i => A.add Z (A.toDouble (e i))) A.zero
  let probs := ids.foldl (fun probs i => Function.update probs i (e i))
    (store n (fun _ => 0#32) probs)
  if A.gt Z A.zero then
    let invZ := A.toFloat (A.div A.one Z)
    ids.foldl (fun probs i => Function.update probs i (A.mulF (probs i) invZ)) probs
  else store n (fun _ => 0#32) probs

/-- The CDF as constant runs between the survivors. -/
def survCumulate (n : Nat) (ids : List Nat) (probs cdf : Nat → Pattern) : Nat → Pattern :=
  let st := MaskedFold.runs (fun c i => A.addF c (probs i)) ids (0#32, cdf, 0)
  fun j => if st.2.2 ≤ j ∧ j < n then st.1 else st.2.1 j

/-- `softmax_log_z`, by the path that `surv_valid_` selects. -/
def stagedLogZ (n : Nat) (mask : StagedMask) (logits : Nat → Pattern) : Pattern :=
  if mask.survValid then survLogZ A mask.survIds logits else logZ A n logits

def stagedSoftmax (n : Nat) (mask : StagedMask) (logits probs : Nat → Pattern) : Nat → Pattern :=
  if mask.survValid then survSoftmax A n mask.survIds logits probs else softmax A n logits probs

def stagedCumulate (n : Nat) (mask : StagedMask) (probs cdf : Nat → Pattern) : Nat → Pattern :=
  if mask.survValid then survCumulate A n mask.survIds probs cdf else cumulate A n probs cdf

/-- Steps 5 to 9 of the patched sampler, up to the draw. -/
def stagedCore (c : Call) (s : Staged) : Except Stop (Staged × Outcome) :=
  if c.nVocab = 0 then .error .noVocab
  else do
    let n := c.nVocab
    let s := s.ensureCapacity n
    let mask ← c.stagedTopK A s (fun _ => false) (c.stagedScale A s.logits)
    if c.doTopP A ∧ 0 < mask.survivors then
      let t := topPBlock A n c.topP mask.keep mask.logits s.candExp
      let probs := nucleusProbs A n t s.probs
      let cdf := stagedCumulate A n mask probs s.cdf
      .ok (⟨⟨s.size, t.logits, probs, cdf, t.candExp⟩, mask.survValid, mask.survIds⟩,
        ⟨mask.keep, t.keep, t.logits, stagedLogZ A n mask t.logits, probs, cdf,
          raceSupport n t.logits⟩)
    else
      let probs := stagedSoftmax A n mask mask.logits s.probs
      let cdf := stagedCumulate A n mask probs s.cdf
      .ok (⟨⟨s.size, mask.logits, probs, cdf, s.candExp⟩, mask.survValid, mask.survIds⟩,
        ⟨mask.keep, mask.keep, mask.logits, stagedLogZ A n mask mask.logits, probs, cdf,
          raceSupport n mask.logits⟩)

/-! ## Draw and telemetry -/

/-- `SamplingResult`; `topk` pairs `topk_logits` with `topk_indices`. -/
structure SamplingResult where
  tokenId : Int
  tokenProb : Pattern
  softmaxLogZ : Pattern
  topk : List (Pattern × Nat)

/-- Step 9.  The hasher searches the whole vector `cdf_`. -/
def Call.draw (c : Call) (s : Staged) (o : Outcome) : Int :=
  if c.v4 then c.race o.support else c.sampleToken ((List.range s.size).map s.cdf)

def Call.tokenProb (c : Call) (o : Outcome) (token : Int) : Pattern :=
  if 0 ≤ token ∧ token < c.nVocab then
    if c.v4 then o.probs token.toNat else o.cdf token.toNat
  else 0#32

/-- The 20 probes of step 10; unset entries stay zero. -/
def Call.probe (c : Call) (i : Nat) : Pattern × Nat :=
  let idx := i * max 1 (c.nVocab / 20)
  if idx < c.nVocab then
    match c.deviceProbes with
    | some probes => (probes i, idx)
    | none => (c.stagedWorking A idx, idx)
  else (0#32, 0)

/-- Step 10: the first 50 ranks, read from `pretemp_desc_`, and the probes. -/
def Call.telemetry (c : Call) : Except Stop (List (Pattern × Nat)) :=
  let pre := c.pretempDesc A
  let topN := min 50 c.nVocab
  if topN ≤ pre.length then
    .ok (pre.take topN ++ List.replicate (50 - topN) (0#32, 0) ++ (List.range 20).map (c.probe A))
  else .error .outOfBounds

def sampleTokenComplete (c : Call) (s : Staged) : Except Stop (Staged × SamplingResult) := do
  let (s', o) ← stagedCore A c s
  let token := c.draw s' o
  let topk ← c.telemetry A
  .ok (s', ⟨token, c.tokenProb o token, o.softmaxLogZ, topk⟩)

end Steps

end Sampler
