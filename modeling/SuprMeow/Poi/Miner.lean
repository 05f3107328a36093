import SuprMeow.Poi.Coordinator
import SuprMeow.Stratum.Client

/-!
# The miner of one sampler group

`PoiMiner`: `set_job` turns a pool job into the parameters of the sampler, `on_logits` drives one
sequence by one token and drains the proof egress, `take_share` hands finished shares over.
What the outside decides is an argument: whether the VDF prover or the parameter check fails,
which token the sampler draws, whether a digest meets a target, whether a message has arrived.

The egress is a lossless queue; `onLogits` takes at most one message off it.  `History` and the
labels marked so are records no code path reads.
-/

set_option autoImplicit false

namespace Poi

open Stratum (Bytes)

/-! ## Jobs, proofs and shares -/

structure PoiJobParams where
  headerPrefix : Bytes := []
  blockTarget : Bytes := []
  shareTarget : Bytes := []
  modelIdentifier : Bytes := []
  modelDifficulty : Nat := 1000000
  normalizer : Nat := 1000000
  requestId : Nat := 0
  height : Nat := 0
  jobId : Bytes := []
  selfVdfTick : Nat := 0
  poolVdf : Bytes := []
  poolVdfTick : Nat := 0
  valid : Bool := false
  deriving DecidableEq

/-- The parent hash as it stands in the header: bytes 4 to 36. -/
def PoiJobParams.parent (p : PoiJobParams) : Bytes := (p.headerPrefix.drop 8).take 64

/-- The entries of the parameter map that vary with the job; the map is empty before the first. -/
structure PowParams where
  target : Bytes := []
  shareTarget : Bytes := []
  headerPrefix : Bytes := []
  blockHash : Bytes := []
  vdf : Bytes := []
  tick : Nat := 0
  difficulty : Nat := 0
  modelIdentifier : Bytes := []
  requestId : Nat := 0
  deriving DecidableEq

/-- What a share is labelled with. -/
structure Label where
  jobId : Bytes
  height : Nat
  vdfTick : Nat
  deriving DecidableEq

/-- A serialized `MiningResponse`: `achievedHex` is the header hash it implies, empty when the
hash or the header prefix is missing; `lowCredit` says the summed surprisal is below 70 bits.
`serial` and `origin` (the call whose parameters it was mined under) are records. -/
structure Proof where
  reqId : Nat
  achievedHex : Bytes
  lowCredit : Bool
  serial : Nat
  origin : Label
  deriving DecidableEq

/-- A `PoiShare`; `proof` stands for `proof_raw` and `proof_b64`. -/
structure PoiShare where
  jobId : Bytes
  height : Nat
  nonce : Nat
  proof : Proof
  achievedHex : Bytes
  vdfTick : Nat
  deriving DecidableEq

/-- The labels of a share agree with the call its proof was mined under. -/
def PoiShare.Labelled (s : PoiShare) : Prop :=
  s.jobId = s.proof.origin.jobId ∧ s.height = s.proof.origin.height ∧
    s.vdfTick = s.proof.origin.vdfTick

instance (s : PoiShare) : Decidable s.Labelled := inferInstanceAs (Decidable (_ ∧ _))

structure History where
  emitted : List Proof := []
  received : Nat := 0
  enqueued : List PoiShare := []
  /-- Proofs dropped by a rule: unknown job, no header hash, low credit. -/
  dropped : List Proof := []
  /-- Shares given out by `take_share`. -/
  handed : List PoiShare := []

structure Miner where
  nStreams : Nat := 1
  coord : Coordinator PowParams := {}
  job : PoiJobParams := {}
  params : PowParams := {}
  lastCtx : Nat → Option Nat := fun _ => none
  promptLen : Nat → Nat := fun _ => 0
  pendingQ : List PoiShare := []
  jobByReq : List (Nat × PoiJobParams) := []
  ready : Bool := false
  vdfHex : Bytes := []
  vdfTick : Nat := 0
  parentHashHex : Bytes := []
  jobId : Bytes := []
  nonceSeq : Nat := 0
  droppedLowcred : Nat := 0
  egress : List Proof := []
  /-- Records: the label of `params`, of each sequence's parameters, whether the VDF in place and
  the one of `params` were proved here, and what happened. -/
  origin : Label := ⟨[], 0, 0⟩
  seqOrigin : Nat → Label := fun _ => ⟨[], 0, 0⟩
  provedHere : Bool := false
  jobProved : Bool := false
  hist : History := {}

/-! ## `set_job` -/

/-- What a `set_job` meets: whether the parent reads as hex, the VDF proof in hex (empty when
proving failed), whether `update_pow_params` accepts the parameters, and the order in which the
job map is iterated. -/
structure JobOutcome where
  parentHex : Bool := true
  vdfProof : Bytes := []
  accepted : Bool := true
  scan : List Nat := []
  deriving DecidableEq

/-- Below this the chain announces a block under an embargo. -/
def defaultSelfVdfTick : Nat := 315000

/-- The tick of a self-made proof: the operator's, else the pool's, else the default. -/
def PoiJobParams.selfTick (p : PoiJobParams) : Nat :=
  if p.selfVdfTick ≠ 0 then p.selfVdfTick
  else if p.poolVdfTick ≠ 0 then p.poolVdfTick
  else defaultSelfVdfTick

/-- The tick of a pool-issued proof. -/
def PoiJobParams.poolTick (p : PoiJobParams) : Nat :=
  if p.poolVdfTick ≠ 0 then p.poolVdfTick else 1000

namespace Miner

/-- The VDF part of `set_job`; the tick moves before the prover can fail. -/
def updateVdf (m : Miner) (p : PoiJobParams) (vdfProof : Bytes) : Miner × Bool :=
  if p.poolVdf ≠ [] then
    if p.poolVdf ≠ m.vdfHex ∨ p.parent ≠ m.parentHashHex then
      ({ m with
          vdfHex := p.poolVdf
          vdfTick := p.poolTick
          parentHashHex := p.parent
          provedHere := false }, true)
    else (m, true)
  else if p.parent ≠ m.parentHashHex ∨ m.vdfHex = [] then
    if vdfProof = [] then ({ m with vdfTick := p.selfTick }, false)
    else
      ({ m with
          vdfTick := p.selfTick
          vdfHex := vdfProof
          parentHashHex := p.parent
          provedHere := true }, true)
  else (m, true)

/-- The parameter map of a job. -/
def powParams (m : Miner) (p : PoiJobParams) : PowParams where
  target := p.blockTarget
  shareTarget := p.shareTarget
  headerPrefix := p.headerPrefix
  blockHash := p.parent
  vdf := m.vdfHex
  tick := m.vdfTick
  difficulty := p.modelDifficulty
  modelIdentifier := p.modelIdentifier
  requestId := p.requestId

/-- `job_by_req[p.request_id] = p`. -/
def insertJob (l : List (Nat × PoiJobParams)) (p : PoiJobParams) : List (Nat × PoiJobParams) :=
  l.eraseP (·.1 == p.requestId) ++ [(p.requestId, p)]

/-- The eviction loop: in iteration order, entries of other jobs go until 8 are left. -/
def evict (jobId : Bytes) : List Nat → List (Nat × PoiJobParams) → List (Nat × PoiJobParams)
  | [], l => l
  | k :: ks, l =>
    if l.length ≤ 8 then l
    else if l.any (fun e => e.1 == k && e.2.jobId != jobId) then
      evict jobId ks (l.eraseP (·.1 == k))
    else evict jobId ks l

/-- The end of a `set_job` whose parameters were accepted. -/
def install (m : Miner) (p : PoiJobParams) (scan : List Nat) : Miner :=
  let params := m.powParams p
  let label : Label := ⟨p.jobId, p.height, m.vdfTick⟩
  let jobs := insertJob m.jobByReq p
  { m with
    coord := (List.range m.nStreams).foldl (fun c sq => c.updatePowParamsForSequence sq params)
      (m.coord.updatePowParams params)
    params
    jobByReq := if 16 < jobs.length then evict p.jobId scan jobs else jobs
    job := p
    jobId := p.jobId
    ready := true
    origin := label
    seqOrigin := fun sq => if sq < m.nStreams then label else m.seqOrigin sq
    jobProved := m.provedHere }

/-- `set_job` and its return value.  `none`: the parent is not hex and the exception leaves
`set_job`, or `scan` is no iteration order of the map. -/
def setJob (m : Miner) (p : PoiJobParams) (o : JobOutcome) : Option (Miner × Bool) :=
  -- Every stream's next window starts afresh.
  let m₀ := { m with lastCtx := fun _ => none }
  if p.valid = false ∨ p.headerPrefix.length ≠ 152 then some (m₀, false)
  else if o.parentHex = false then none
  else
    let v := m₀.updateVdf p o.vdfProof
    if v.2 = false then some (v.1, false)
    else if o.accepted = false then
      some ({ v.1 with coord := v.1.coord.applyPowParams (v.1.powParams p) }, false)
    else if 16 < (insertJob v.1.jobByReq p).length ∧
        ¬ o.scan.Perm ((insertJob v.1.jobByReq p).map (·.1)) then none
    else some (v.1.install p o.scan, true)

end Miner

/-! ## `on_logits` -/

/-- What `check_solutions` comes to once it examines a window. -/
inductive CheckOutcome where
  | quiet
  | emit (achievedHex : Bytes) (lowCredit : Bool)
  | throws
  deriving DecidableEq

/-- What an `on_logits` meets: the token drawn (`none` when the sampler throws), whether the
cooldown after a solution is on, what the check comes to, and whether a message has arrived. -/
structure StepOutcome where
  draw : Option Int
  cooling : Bool := false
  check : CheckOutcome := .quiet
  recv : Bool := false
  deriving DecidableEq

/-- What an `on_logits` did: its return value, the step it sampled at with the prompt registered
then, the token recorded, and the windows `check_solutions` examined. -/
structure Report where
  ret : Int
  sampled : Option (Nat × Option (List Int)) := none
  recorded : Option Int := none
  examined : List (List Int) := []
  deriving DecidableEq

namespace Miner

/-- A window starts when the context has stopped growing. -/
def startsWindow (m : Miner) (seq : Nat) (context : List Int) : Bool :=
  match m.lastCtx seq with
  | none => true
  | some last => decide (context.length ≤ last)

/-- The window start: a row, the parameters and the prompt. -/
def startWindow (m : Miner) (seq : Nat) (context : List Int) : Miner :=
  let c := (m.coord.ensureSequence seq).updatePowParamsForSequence seq m.params
  { m with
    coord := c.setPromptTokens seq context
    promptLen := Function.update m.promptLen seq context.length
    seqOrigin := Function.update m.seqOrigin seq m.origin }

/-- `on_logits` up to the call of the sampler. -/
def enter (m : Miner) (seq : Nat) (context : List Int) : Miner :=
  let m := if m.startsWindow seq context then m.startWindow seq context else m
  { m with lastCtx := Function.update m.lastCtx seq (some context.length) }

/-- `cleanup_sequence` and `last_ctx.erase`. -/
def retire (m : Miner) (seq : Nat) : Miner :=
  { m with
    coord := m.coord.cleanupSequence seq
    lastCtx := Function.update m.lastCtx seq none }

/-- The proof of a window of sequence `seq`, mined under the parameters `p`. -/
def proofOf (m : Miner) (seq : Nat) (p : PowParams) (achievedHex : Bytes) (lowCredit : Bool) :
    Proof :=
  { reqId := p.requestId, achievedHex, lowCredit, serial := m.hist.emitted.length
    origin := m.seqOrigin seq }

/-- The end of a check: the miner and whether it threw.  `std::stoll` refuses a request id from
2^63 on. -/
def conclude (m : Miner) (seq : Nat) : CheckOutcome → Miner × Bool
  | .quiet => (m, false)
  | .throws => (m, true)
  | .emit achievedHex lowCredit =>
    match m.coord.params seq with
    | none => (m, false)
    | some p =>
      if 2 ^ 63 ≤ p.requestId then (m, true)
      else
        let pr := m.proofOf seq p achievedHex lowCredit
        ({ m with
            egress := m.egress ++ [pr]
            hist := { m.hist with emitted := m.hist.emitted ++ [pr] } }, false)

/-- `check_solutions` on one sequence: the miner, the window examined, and whether it threw. -/
def checkWindow (m : Miner) (seq : Nat) (o : StepOutcome) : Miner × List (List Int) × Bool :=
  let r := m.coord.checkSolutions seq o.cooling
  let m := { m with coord := r.1 }
  match r.2 with
  | none => (m, [], false)
  | some w => ((m.conclude seq o.check).1, [w], (m.conclude seq o.check).2)

/-- What becomes of a message: the miner after it. -/
def receive (m : Miner) (pr : Proof) : Miner :=
  match m.jobByReq.find? (·.1 == pr.reqId) with
  -- Never relabel delayed output as work for the current job.
  | none => { m with hist := { m.hist with dropped := m.hist.dropped ++ [pr] } }
  | some e =>
    let m := { m with nonceSeq := (m.nonceSeq + 1) % 2 ^ 64 }
    if pr.achievedHex = [] then
      { m with hist := { m.hist with dropped := m.hist.dropped ++ [pr] } }
    else if pr.lowCredit then
      { m with
        droppedLowcred := m.droppedLowcred + 1
        hist := { m.hist with dropped := m.hist.dropped ++ [pr] } }
    else
      let share : PoiShare :=
        { jobId := e.2.jobId, height := e.2.height, nonce := m.nonceSeq, proof := pr
          achievedHex := pr.achievedHex, vdfTick := m.vdfTick }
      { m with
        pendingQ := m.pendingQ ++ [share]
        hist := { m.hist with enqueued := m.hist.enqueued ++ [share] } }

/-- The end of `on_logits`: one non-blocking receive. -/
def drain (m : Miner) (recv : Bool) : Miner :=
  match recv, m.egress with
  | true, pr :: rest =>
    receive { m with
      egress := rest
      hist := { m.hist with received := m.hist.received + 1 } } pr
  | _, _ => m

/-- The coordinator after `sample_token_complete`. -/
def beginSample (m : Miner) (seq : Nat) : Miner :=
  { m with coord := (m.coord.beginSample seq).1 }

/-- `record_complete_step`. -/
def recordStep (m : Miner) (seq : Nat) (token : Int) : Miner :=
  { m with coord := m.coord.recordCompleteStep seq token }

/-- `on_logits` once a token of the vocabulary is drawn; `steps` counts it. -/
def accept (m : Miner) (seq : Nat) (token : Int) (steps : Nat)
    (sampled : Option (Nat × Option (List Int))) (o : StepOutcome) : Miner × Report :=
  let m := m.recordStep seq token
  let recorded := some token
  if steps < windowSize then (m.drain o.recv, { ret := token, sampled, recorded })
  else
    let r := m.checkWindow seq o
    if r.2.2 then (r.1, { ret := -1, sampled, recorded, examined := r.2.1 })
    else ((r.1.retire seq).drain o.recv, { ret := token, sampled, recorded, examined := r.2.1 })

/-- `on_logits` after the window start; a token outside the vocabulary aborts the window. -/
def sample (m : Miner) (seq nVocab : Nat) (context : List Int) (o : StepOutcome) :
    Miner × Report :=
  let steps := context.length - m.promptLen seq + 1
  match (m.coord.beginSample seq).2, o.draw with
  | some step, some token =>
    let m := m.beginSample seq
    let sampled := some (step, m.coord.promptTokens seq)
    if token < 0 ∨ (nVocab : Int) ≤ token then (m.retire seq, { ret := -1, sampled })
    else m.accept seq token steps sampled o
  | _, _ => (m.beginSample seq, { ret := -1 })

/-- `on_logits`; a return value of -1 is a refusal or an exception caught. -/
def onLogits (m : Miner) (seq nVocab : Nat) (context : List Int) (o : StepOutcome) :
    Miner × Report :=
  if m.ready = false then (m, { ret := -1 })
  else (m.enter seq context).sample seq nVocab context o

/-- The shares in `given` leave `pending_q`. -/
def give (m : Miner) (given pending : List PoiShare) : Miner :=
  { m with pendingQ := pending, hist := { m.hist with handed := m.hist.handed ++ given } }

@[simp] theorem give_pendingQ (m : Miner) (given pending : List PoiShare) :
    (m.give given pending).pendingQ = pending := rfl

/-- `take_share`. -/
def takeShare (m : Miner) : Option (PoiShare × Miner) :=
  match m.pendingQ with
  | [] => none
  | s :: rest => some (s, m.give [s] rest)

end Miner

end Poi
