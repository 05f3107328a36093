import SuprMeow.Library.Fallible
import SuprMeow.Precheck.Window

/-!
# The gates

Seven rules of the verifier, each over the same context: the window, the one pass of the
canonical kernel, the metrics built from it, and the sunset call that scaffold and flat region
share.  The vendored rule functions are parameters.

* `runSunset` — the shared call, made at most once;
* `Gate.check` — the gates by name, in the order of `pipeline`.
-/

set_option autoImplicit false

namespace Precheck

inductive Gate where
  | strict
  | nearPin
  | candidateBand
  | promptScaffold
  | flatRegion
  | creditTier
  | antiParrot
  deriving DecidableEq

/-- The bit of a gate in a mask. -/
def Gate.index : Gate → Nat
  | .strict => 0
  | .nearPin => 1
  | .candidateBand => 2
  | .promptScaffold => 3
  | .flatRegion => 4
  | .creditTier => 5
  | .antiParrot => 6

def gateBit (g : Gate) : Nat := 1 <<< g.index

def gateName : Gate → String
  | .strict => "strict"
  | .nearPin => "near-pin"
  | .candidateBand => "candidate-band"
  | .promptScaffold => "prompt-scaffold"
  | .flatRegion => "flat-region"
  | .creditTier => "credit-tier"
  | .antiParrot => "anti-parrot"

inductive Outcome where
  | pass
  | reject
  | unavailable
  deriving DecidableEq

/-! ## The vendored rules -/

/-- `MAX_STEP_CREDIT`, of the scaffold and of the flat region. -/
def maxStepCredit : Nat := 32768

/-- `credit_v4::Status`. -/
inductive KernelStatus where
  | ok
  | badFloatEnvironment
  | badInput
  deriving DecidableEq

/-- The fields of `credit_v4::WindowStructure` the gates read. -/
structure WindowStructure (F : Type) where
  lower : List F := []
  upper : List F := []
  position : List Int := []
  creditUnits : List Nat := []
  nearPinCount : Nat := 0
  bcapUnits : Nat := 0
  collisionU : Nat := 0
  collisionId : Nat := 0
  valid : Bool := false
  candidateActiveRows : Nat := 0
  candidateTotal : Nat := 0
  candidateLargestTerms : Nat := 0
  candidateComplete : Bool := false
  candidateReject : Bool := false

structure StructureMetrics where
  nearPinCount : Nat := 0
  bcapUnits : Nat := 0
  collisionU : Nat := 0
  collisionId : Nat := 0
  valid : Bool := false

structure CreditMetrics where
  stepUnits : List Nat := []
  totalUnits : Nat := 0
  valid : Bool := false

inductive Tier where
  | invalid
  | admissionRequired
  | free
  deriving DecidableEq

/-- `PIN_REJECT_COUNT`. -/
def pinRejectCount : Nat := 175

/-- `B_FREE_UNITS`: 70 bits at 1024 units each. -/
def bFreeUnits : Nat := 70 * 1024

/-- What `tc_sunset_window_batch` returns and writes. -/
structure Sunset where
  status : Int
  out : List Nat := []
  failedStep : Nat := 0

structure AntiparrotVerdict where
  ok : Bool := true
  status : Int := 0
  failedStep : Nat := 0
  reason : String := ""

/-- The functions of the verifier the pre-check calls; any of them may throw. -/
structure Kernels (F : Type) where
  /-- `FloatEnvironmentOk`, and what it says once the mode is set: why not, if it is not. -/
  floatEnvironment : Except Thrown (Option String)
  floatEnvironmentSet : Except Thrown (Option String)
  /-- `a > b`. -/
  greater : F → F → Bool
  /-- `fabs(a - b) <= kChosenProbAtol`. -/
  close : F → F → Bool
  computeWindowStructure : List Nat → List F → List Nat → List Nat →
    Except Thrown (KernelStatus × WindowStructure F × String)
  structureRejects : StructureMetrics → Except Thrown Bool
  candidateReason : Nat → Nat → Nat → Except Thrown String
  sunsetWindow : List Nat → List F → List Nat → List Nat → List Nat → List Nat → List Nat →
    Except Thrown Sunset
  scaffoldReason : List Nat → Except Thrown String
  flatReason : Nat → Nat → Nat → Bool → Except Thrown String
  tierForBCredUnits : Nat → Except Thrown Tier
  ruleset5Tier : Nat → StructureMetrics → Except Thrown Tier
  totalPrice : CreditMetrics → StructureMetrics → Except Thrown Nat
  ruleset5TotalPrice : CreditMetrics → StructureMetrics → Except Thrown Nat
  antiparrot : List (List F) → List (List Nat) → List Nat → List Nat →
    Except Thrown AntiparrotVerdict
  /-- Credit units as bits with two decimals. -/
  bits : Nat → String
  /-- The two heights `ruleset5_active` reads. -/
  detectorPolicyHeight : Nat
  v3SunsetHeight : Nat

variable {F : Type}

/-! ## The context of one evaluation -/

structure Ctx (F : Type) where
  w : Window F
  ws : WindowStructure F
  sunsetDone : Bool := false
  sunsetStatus : Int := -1
  sunsetOut : List Nat := []
  sunsetFailed : Nat := 0
  padNorm : List Nat := []
  sm : StructureMetrics := {}
  cm : CreditMetrics := {}
  credUnitsSum : Nat := 0
  metricsOk : Bool := false

/-- `build_metrics`. -/
def Ctx.buildMetrics (c : Ctx F) : Ctx F :=
  let sum := c.ws.creditUnits.sum % 2 ^ 64
  { c with
    sm :=
      { nearPinCount := c.ws.nearPinCount
        bcapUnits := c.ws.bcapUnits
        collisionU := c.ws.collisionU
        collisionId := c.ws.collisionId
        valid := c.ws.valid }
    cm := { stepUnits := c.ws.creditUnits, totalUnits := sum, valid := c.ws.valid }
    credUnitsSum := sum
    metricsOk := c.ws.valid }

def ruleset5Active (K : Kernels F) (height : Nat) : Bool :=
  height ≠ 0 && K.detectorPolicyHeight ≤ height && K.v3SunsetHeight ≤ height

structure GateResult where
  outcome : Outcome := .pass
  reason : String := ""
  ruleset5TierWithheld : Bool := false

namespace GateResult

def pass : GateResult := {}

def reject (reason : String) : GateResult := { outcome := .reject, reason }

def unavailable (reason : String) : GateResult := { outcome := .unavailable, reason }

end GateResult

/-! ## The gates -/

/-- What is wrong with step `s` of the window. -/
def strictViolation (K : Kernels F) [Inhabited F] (c : Ctx F) (s : Nat) : Option String :=
  if c.ws.position.getD s 0 < 0 ∨
      K.greater (c.ws.upper.getD s default) (c.ws.lower.getD s default) = false then
    some ("v4: chosen token absent from the active row at step " ++ toString s)
  else if c.w.chosenProbs.length ≤ s ∨
      K.close (c.w.chosenProbs.getD s default) (c.ws.upper.getD s default) = false then
    some ("v4: chosen_probs does not match the row's upper endpoint at step " ++ toString s)
  else none

def gateStrict (K : Kernels F) [Inhabited F] (c : Ctx F) : Except Thrown (GateResult × Ctx F) :=
  match (List.range kWindow).findSome? (strictViolation K c) with
  | some why => .ok (.reject why, c)
  | none => .ok (.pass, c)

def gateNearPin (K : Kernels F) (c : Ctx F) : Except Thrown (GateResult × Ctx F) :=
  if c.metricsOk = false then .ok (.unavailable "structure aggregate incomplete", c)
  else do
    let rejects ← K.structureRejects c.sm
    if rejects ∨ pinRejectCount ≤ c.ws.nearPinCount then
      return (.reject ("proof v4: near-pinned window rejected: N = " ++
        toString c.ws.nearPinCount ++ " >= " ++ toString pinRejectCount ++
        " (the last legal near-pin count is " ++ toString (pinRejectCount - 1) ++ ")"), c)
    else return (.pass, c)

def gateCandidateBand (K : Kernels F) (c : Ctx F) : Except Thrown (GateResult × Ctx F) :=
  if c.ws.candidateComplete = false then
    .ok (.unavailable "candidate-band aggregate incomplete", c)
  else if c.ws.candidateReject then do
    let why ← K.candidateReason c.ws.candidateActiveRows c.ws.candidateTotal
      c.ws.candidateLargestTerms
    return (.reject why, c)
  else .ok (.pass, c)

/-- `normalize_pad_mask`: an empty mask is all-visible. -/
def normalizePadMask (w : Window F) : List Nat :=
  if w.pad = [] then List.replicate w.prompt.length 0 else w.pad

/-- `run_sunset`. -/
def runSunset (K : Kernels F) (c : Ctx F) : Except Thrown (Ctx F) :=
  if c.sunsetDone then .ok c
  else if (normalizePadMask c.w).length ≠ c.w.prompt.length then
    .ok { c with sunsetDone := true, padNorm := normalizePadMask c.w, sunsetStatus := -2 }
  else do
    let r ← K.sunsetWindow c.w.rowLen c.w.logits c.w.ids c.w.chosen c.w.prompt
      (normalizePadMask c.w) c.ws.creditUnits
    return { c with
      sunsetDone := true, padNorm := normalizePadMask c.w
      sunsetStatus := r.status, sunsetOut := r.out, sunsetFailed := r.failedStep }

/-- Status 2 is a proof failure, every other one but 0 abstains. -/
def sunsetStatusResult (c : Ctx F) : GateResult :=
  if c.sunsetStatus = 0 then .pass
  else if c.sunsetStatus = 2 then
    .reject ("post-sunset admission: invalid evidence at step " ++ toString c.sunsetFailed)
  else if c.sunsetStatus = -2 then .unavailable "pad_mask length differs from prompt length"
  else .unavailable ("sunset kernel status " ++ toString c.sunsetStatus)

def gatePromptScaffold (K : Kernels F) (c : Ctx F) : Except Thrown (GateResult × Ctx F) := do
  let c ← runSunset K c
  let st := sunsetStatusResult c
  if st.outcome ≠ .pass then return (st, c)
  else if c.sunsetOut.getD 4 0 ≠ 0 then do
    let why ← K.scaffoldReason (c.sunsetOut.take 4)
    return (.reject why, c)
  else return (.pass, c)

/-- A scaffold that rejects leaves the flat region uncomputed. -/
def gateFlatRegion (K : Kernels F) (c : Ctx F) : Except Thrown (GateResult × Ctx F) := do
  let c ← runSunset K c
  let st := sunsetStatusResult c
  if st.outcome ≠ .pass then return (st, c)
  else if c.sunsetOut.getD 4 0 ≠ 0 then
    return (.unavailable "flat region not computed (scaffold rejected)", c)
  else if c.sunsetOut.getD 10 0 ≠ 1 then
    return (.unavailable "flat-region metrics incomplete", c)
  else if c.sunsetOut.getD 9 0 ≠ 0 then do
    let why ← K.flatReason (c.sunsetOut.getD 5 0) (c.sunsetOut.getD 6 0) (c.sunsetOut.getD 7 0)
      (c.sunsetOut.getD 8 0 ≠ 0)
    return (.reject why, c)
  else return (.pass, c)

/-- The one tier decision: that of ruleset 5 over a complete structure, else by the credit. -/
def tierOf (K : Kernels F) (c : Ctx F) : Except Thrown Tier :=
  if ruleset5Active K c.w.height && c.metricsOk then K.ruleset5Tier c.credUnitsSum c.sm
  else K.tierForBCredUnits c.credUnitsSum

/-- Admission is withheld by policy; the free windows of ruleset 5 are counted apart. -/
def tierResult (K : Kernels F) (c : Ctx F) : Tier → GateResult
  | .invalid =>
    .reject ("v3 proof below B_FLOOR (B_cred " ++ K.bits c.credUnitsSum ++ " bits)")
  | .admissionRequired =>
    if ruleset5Active K c.w.height && c.metricsOk && bFreeUnits ≤ c.credUnitsSum then
      { outcome := .reject
        reason := "ruleset 5: free window with N=" ++ toString c.sm.nearPinCount ++
          " > 128 near-pins needs admission (A below the priced Argon target); " ++
          "withheld by miner policy"
        ruleset5TierWithheld := true }
    else
      .reject ("admission tier: B_cred " ++ K.bits c.credUnitsSum ++
        " bits below B_FREE (70); withheld by miner policy")
  | .free => .pass

def gateCreditTier (K : Kernels F) (c : Ctx F) : Except Thrown (GateResult × Ctx F) := do
  let tier ← tierOf K c
  return (tierResult K c tier, c)

/-- The rows of the flat arrays. -/
def splitRows {α : Type} : List Nat → List α → List (List α)
  | [], _ => []
  | n :: lens, xs => xs.take n :: splitRows lens (xs.drop n)

def unpadded (w : Window F) : List Nat :=
  if w.pad.length = w.prompt.length then
    ((w.prompt.zip w.pad).filter (·.2 = 0)).map (·.1)
  else w.prompt

def gateAntiParrot (K : Kernels F) (c : Ctx F) : Except Thrown (GateResult × Ctx F) := do
  let v ← K.antiparrot (splitRows c.w.rowLen c.w.logits) (splitRows c.w.rowLen c.w.ids)
    c.w.chosen (unpadded c.w)
  if v.ok = false then
    if v.status = 2 then
      return (.reject ("v3 anti-parrot: invalid step evidence at step " ++
        toString v.failedStep), c)
    else return (.unavailable ("anti-parrot kernel status " ++ toString v.status), c)
  else if v.reason ≠ "" then return (.reject ("v3 anti-parrot rejected (" ++ v.reason ++ ")"), c)
  else return (.pass, c)

def Gate.check (K : Kernels F) [Inhabited F] (g : Gate) (c : Ctx F) :
    Except Thrown (GateResult × Ctx F) :=
  match g with
  | .strict => gateStrict K c
  | .nearPin => gateNearPin K c
  | .candidateBand => gateCandidateBand K c
  | .promptScaffold => gatePromptScaffold K c
  | .flatRegion => gateFlatRegion K c
  | .creditTier => gateCreditTier K c
  | .antiParrot => gateAntiParrot K c

/-- `kPipeline`, the order of the verifier. -/
def pipeline : List Gate :=
  [.strict, .nearPin, .candidateBand, .promptScaffold, .flatRegion, .creditTier, .antiParrot]

end Precheck
