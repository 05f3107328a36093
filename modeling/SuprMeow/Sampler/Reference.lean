import SuprMeow.Gpu.Bf16
import SuprMeow.Library.MaskedFold

/-!
# The vendored sampler: `sample_token_complete`

Logits are single-precision patterns; comparisons, the sort and the bf16 rounding are those of
the bits.  Everything that rounds (`+`, `-`, `*`, `/`, `exp`, `log` and the conversions) is a
parameter, and so are the two draws that consume the distribution.

* `Members` — what `PowSamplingCoordinator` keeps between calls;
* `topPBlock` — the nucleus cut, which both samplers share;
* `referenceCore` — the distribution of one call: mask, `log_Z`, probabilities, CDF;
* `Outcome.support` — the ids and logits that the v4 race runs over.

The logsumexp statistics (steps 3 and 4) depend on the logits and the kernel's sums alone and are
left out.
-/

set_option autoImplicit false

open Binary32

namespace Sampler

/-- `-std::numeric_limits<float>::infinity()`. -/
def ninf : Pattern := 0xff800000#32

/-- The rounding operations, in `float` and in `double`. -/
structure Arith (D : Type) where
  addF : Pattern → Pattern → Pattern
  subF : Pattern → Pattern → Pattern
  mulF : Pattern → Pattern → Pattern
  divF : Pattern → Pattern → Pattern
  /-- `std::exp(float)`. -/
  expF : Pattern → Pattern
  ofNat : Nat → Pattern
  /-- `snap_logits_to_precision_inplace`, one element, for `"fp16"` and `"int8"`. -/
  fp16 : Pattern → Pattern
  int8 : Pattern → Pattern
  toDouble : Pattern → D
  toFloat : D → Pattern
  zero : D
  one : D
  add : D → D → D
  div : D → D → D
  /-- `std::exp(double)`. -/
  exp : D → D
  log : D → D
  gt : D → D → Bool
  ge : D → D → Bool

/-- `std::max(a, b)`. -/
def fmax (a b : Pattern) : Pattern := if gt b a then b else a

/-- What the injection slot hands to the sampler: `count` ranks, and in device mode the probes. -/
structure Presorted where
  idx : Nat → Nat
  val : Nat → Pattern
  count : Int
  probes : Option (Nat → Pattern)

/-- The arguments of a call.  `presorted` is what `pow_gpu_take_presorted2` returns (only the
patched sampler asks), `sampleToken` and `race` are the hasher's draws for this context. -/
structure Call where
  nVocab : Nat
  rawLogits : Nat → Pattern
  temperature : Pattern
  topK : Int
  topP : Pattern
  computePrecision : String
  presorted : Option Presorted
  /-- `proof_version_ >= V4_PROOF_VERSION`. -/
  v4 : Bool
  sampleToken : List Pattern → Int
  race : List (Nat × Pattern) → Int

/-- Why a call has no result: the exception on `n_vocab <= 0`, or a read past the sorted prefix. -/
inductive Stop where
  | noVocab
  | outOfBounds
  deriving DecidableEq

/-- `logits_`, `probs_`, `cdf_` (all of length `size`) and the storage of `cand_exp_`. -/
structure Members where
  size : Nat
  logits : Nat → Pattern
  probs : Nat → Pattern
  cdf : Nat → Pattern
  candExp : Nat → Pattern

/-- What a call leaves: `survivors` is `keep_` after top-k, `keep` after top-p. -/
structure Outcome where
  survivors : Nat → Bool
  keep : Nat → Bool
  logits : Nat → Pattern
  softmaxLogZ : Pattern
  probs : Nat → Pattern
  cdf : Nat → Pattern
  /-- The support of the v4 race, in id order. -/
  support : List (Nat × Pattern)

section Steps

open MaskedFold (store)

variable {D : Type} (A : Arith D)

/-- `ensure_capacity_`: grown vectors are assigned, others cleared up to `n`. -/
def Members.ensureCapacity (m : Members) (n : Nat) : Members :=
  if m.size < n then
    { m with size := n, logits := fun _ => 0#32, probs := fun _ => 0#32, cdf := fun _ => 0#32 }
  else
    { m with
      logits := store n (fun _ => 0#32) m.logits
      probs := store n (fun _ => 0#32) m.probs
      cdf := store n (fun _ => 0#32) m.cdf }

/-- `snap_logits_to_precision_inplace`, one element; `"fp32"` is left alone. -/
def snapToPrecision (precision : String) (x : Pattern) : Pattern :=
  if precision = "bf16" then PowGpu.snapBf16Reg x
  else if precision = "fp16" then A.fp16 x
  else if precision = "int8" then A.int8 x
  else x

/-- `working_logits`. -/
def Call.working (c : Call) : Nat → Pattern :=
  if c.computePrecision ≠ "fp32" ∧ c.computePrecision ≠ "" then
    fun i => snapToPrecision A c.computePrecision (c.rawLogits i)
  else c.rawLogits

/-- Step 1: `pretemp_desc_`, the whole vocabulary by rank. -/
def fullSort (w : Nat → Pattern) (n : Nat) : List (Pattern × Nat) :=
  (PowGpu.rankedIds w n).map fun i => (w i, i)

/-- `temperature != 1.0f`. -/
def Call.scales (c : Call) : Bool := !eq c.temperature 0x3f800000#32

/-- Step 2: one logit after temperature. -/
def Call.scale (c : Call) (x : Pattern) : Pattern :=
  if c.scales then A.mulF x (A.divF 0x3f800000#32 c.temperature) else x

/-- The fallback's survivor, which is divided instead. -/
def Call.scaleBest (c : Call) (x : Pattern) : Pattern :=
  if c.scales then A.divF x c.temperature else x

def Call.doTopK (c : Call) : Prop := 0 < c.topK ∧ c.topK < c.nVocab

instance (c : Call) : Decidable c.doTopK := inferInstanceAs (Decidable (_ ∧ _))

/-- The rank of the threshold. -/
def Call.kpos (c : Call) : Nat := (min c.topK c.nVocab).toNat - 1

/-- `top_p > 0.0f && top_p < 1.0f - 1e-12f`. -/
def Call.doTopP (c : Call) : Bool :=
  gt c.topP 0#32 && gt (A.subF 0x3f800000#32 0x2b8cbccc#32) c.topP

/-! ## Top-k -/

/-- The mask while it is being built. -/
structure Mask where
  keep : Nat → Bool
  logits : Nat → Pattern
  survivors : Nat

/-- The scan of the whole vocabulary against the threshold. -/
def scanThreshold (w : Nat → Pattern) (n : Nat) (kth : Pattern) (keep : Nat → Bool)
    (logits : Nat → Pattern) : Mask where
  keep := store n (fun i => if gt (w i) kth then true else keep i) keep
  logits := store n (fun i => if gt (w i) kth then logits i else ninf) logits
  survivors := (List.range n).countP fun i => gt (w i) kth

/-- The scan for the global argmax: `best` and its id. -/
def argmaxScan (w : Nat → Pattern) (n : Nat) : Pattern × Nat :=
  (List.range' 1 (n - 1)).foldl (fun st i =>
    if gt (w i) st.1 || (eq (w i) st.1 && decide (i < st.2)) then (w i, i) else st) (w 0, 0)

/-- Exactly one survivor. -/
def onlySurvivor (n argmax : Nat) (value : Pattern) (keep : Nat → Bool) (logits : Nat → Pattern) :
    Mask where
  keep := Function.update (store n (fun _ => false) keep) argmax true
  logits := Function.update (store n (fun _ => ninf) logits) argmax value
  survivors := 1

/-- Step 5. -/
def Call.topKBlock (c : Call) (keep : Nat → Bool) (logits : Nat → Pattern) :
    Except Stop Mask :=
  let w := c.working A
  if c.doTopK then
    match (fullSort w c.nVocab)[c.kpos]? with
    | none => .error .outOfBounds
    | some kth =>
      let scan := scanThreshold w c.nVocab kth.1 keep logits
      if scan.survivors = 0 then
        let argmax := (argmaxScan w c.nVocab).2
        .ok (onlySurvivor c.nVocab argmax (c.scaleBest A (w argmax)) scan.keep scan.logits)
      else .ok scan
  else .ok ⟨store c.nVocab (fun _ => true) keep, logits, c.nVocab⟩

/-! ## Top-p -/

/-- The candidates after the nucleus cut. -/
structure Nucleus where
  keep : Nat → Bool
  logits : Nat → Pattern
  cand : List Nat
  candExp : Nat → Pattern
  keptZ : D

/-- The rank at which the accumulated mass reaches `p`, or the number of candidates. -/
def cutLoop (candExp : Nat → Pattern) (Z : D) (p : Pattern) : List Nat → D → Nat → Nat
  | [], _, size => size
  | r :: rs, cum, size =>
    let cum := A.add cum (A.div (A.toDouble (candExp r)) Z)
    if A.ge cum (A.toDouble p) then r else cutLoop candExp Z p rs cum size

/-- Step 6.  When the mass never reaches `p` the sum of the kept scores reads one entry past the
end of `cand_exp_`. -/
def topPBlock (n : Nat) (p : Pattern) (keep : Nat → Bool) (logits : Nat → Pattern)
    (candExp : Nat → Pattern) : Nucleus (D := D) :=
  let cand := ((List.range n).filter keep).mergeSort (PowGpu.precedes logits)
  let size := cand.length
  let maxSurvivor := logits (cand.headD 0)
  let candExp := store size (fun r => A.expF (A.subF (logits (cand.getD r 0)) maxSurvivor)) candExp
  let Z := (List.range size).foldl (fun Z r => A.add Z (A.toDouble (candExp r))) A.zero
  let cut := cutLoop A candExp Z p (List.range size) A.zero size
  let tail := cand.drop (cut + 1)
  { keep := tail.foldl (fun keep i => Function.update keep i false) keep
    logits := tail.foldl (fun logits i => Function.update logits i ninf) logits
    cand := cand
    candExp := candExp
    keptZ := (List.range (cut + 1)).foldl (fun Z r => A.add Z (A.toDouble (candExp r))) A.zero }

/-- Step 7 under top-p: the probabilities of the kept candidates. -/
def nucleusProbs (n : Nat) (t : Nucleus (D := D)) (probs : Nat → Pattern) : Nat → Pattern :=
  if A.gt t.keptZ A.zero then
    t.cand.zipIdx.foldl (fun probs x =>
      if t.keep x.1 then
        Function.update probs x.1 (A.toFloat (A.div (A.toDouble (t.candExp x.2)) t.keptZ))
      else probs) (store n (fun _ => 0#32) probs)
  else
    let kept := (List.range n).countP t.keep
    let u := if 0 < kept then A.divF 0x3f800000#32 (A.ofNat kept) else 0#32
    store n (fun i => if t.keep i then u else 0#32) probs

/-! ## Steps 7 and 8 over the whole vocabulary -/

/-- The largest logit that is not masked. -/
def maxKept (n : Nat) (logits : Nat → Pattern) : Pattern :=
  (List.range n).foldl (fun m i => if !eq (logits i) ninf then fmax m (logits i) else m) ninf

/-- `softmax_log_z`. -/
def logZ (n : Nat) (logits : Nat → Pattern) : Pattern :=
  let m := maxKept n logits
  if !eq m ninf then
    let sum := (List.range n).foldl (fun s i =>
      if !eq (logits i) ninf then A.add s (A.exp (A.toDouble (A.subF (logits i) m))) else s) A.zero
    A.addF m (A.toFloat (A.log sum))
  else ninf

/-- The masked softmax. -/
def softmax (n : Nat) (logits probs : Nat → Pattern) : Nat → Pattern :=
  let m := maxKept n logits
  let e := fun i => A.expF (A.subF (logits i) m)
  let Z := (List.range n).foldl (fun Z i =>
    if eq (logits i) ninf then Z else A.add Z (A.toDouble (e i))) A.zero
  let probs := store n (fun i => if eq (logits i) ninf then 0#32 else e i) probs
  if A.gt Z A.zero then
    let invZ := A.toFloat (A.div A.one Z)
    store n (fun i => A.mulF (probs i) invZ) probs
  else store n (fun _ => 0#32) probs

/-- The running sum of the probabilities, in id order. -/
def cumulate (n : Nat) (probs cdf : Nat → Pattern) : Nat → Pattern :=
  ((List.range n).foldl (fun (st : Pattern × (Nat → Pattern)) i =>
    (A.addF st.1 (probs i), Function.update st.2 i (A.addF st.1 (probs i)))) (0#32, cdf)).2

/-- `sup_ids`, `sup_logits`. -/
def raceSupport (n : Nat) (logits : Nat → Pattern) : List (Nat × Pattern) :=
  ((List.range n).filter fun i => !eq (logits i) ninf).map fun i => (i, logits i)

/-- Steps 5 to 9 of the vendored sampler, up to the draw. -/
def referenceCore (c : Call) (m : Members) : Except Stop (Members × Outcome) :=
  if c.nVocab = 0 then .error .noVocab
  else do
    let n := c.nVocab
    let m := m.ensureCapacity n
    let mask ← c.topKBlock A (fun _ => false)
      (store n (fun i => c.scale A (c.working A i)) m.logits)
    if c.doTopP A ∧ 0 < mask.survivors then
      let t := topPBlock A n c.topP mask.keep mask.logits m.candExp
      let probs := nucleusProbs A n t m.probs
      let cdf := cumulate A n probs m.cdf
      .ok (⟨m.size, t.logits, probs, cdf, t.candExp⟩,
        ⟨mask.keep, t.keep, t.logits, logZ A n t.logits, probs, cdf, raceSupport n t.logits⟩)
    else
      let probs := softmax A n mask.logits m.probs
      let cdf := cumulate A n probs m.cdf
      .ok (⟨m.size, mask.logits, probs, cdf, m.candExp⟩,
        ⟨mask.keep, mask.keep, mask.logits, logZ A n mask.logits, probs, cdf,
          raceSupport n mask.logits⟩)

end Steps

end Sampler
