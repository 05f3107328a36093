import SuprMeow.Library.Decimal
import SuprMeow.Library.Words
import SuprMeow.Poi.Hex
import SuprMeow.Precheck.Evaluate

/-!
# The credit tier under ruleset 5

From a height on, a window whose credit makes it free needs admission when it has more than 128
near-pins.  Both activation heights may come from the environment.

* `envHeight` — what an override is read as;
* `PowV4.ruleset5Tier_eq` — the vendored tier, wherever the structure has a price;
* `ruleset5_tightens` — ruleset 5 rejects all that was rejected, and what it adds is what it flags.
-/

set_option autoImplicit false

namespace Precheck

open Stratum (Bytes)

/-! ## Activation heights -/

/-- `std::strtoll` in base 10: the number, within `long long`, and what is left. -/
def strtoll (s : Bytes) : Option (Int × Bytes) :=
  (Decimal.read s).map fun r => (max (-2 ^ 63) (min r.1 (2 ^ 63 - 1)), r.2)

/-- `env_height`; a variable that is not a number from 0 on counts as unset. -/
def envHeight (raw : Option Bytes) (dflt : Nat) : Nat :=
  match raw with
  | none => dflt
  | some raw =>
    let raw := raw.dropWhile (· = 32)
    if raw = [] then dflt
    else
      match strtoll raw with
      | none => dflt
      | some (v, rest) => if rest = [] ∧ 0 ≤ v then v.toNat else dflt

/-- `MINING_DETECTOR_POLICY_HEIGHT` and `MINING_V3_SUNSET_HEIGHT`. -/
structure HeightEnv where
  detector : Option Bytes := none
  sunset : Option Bytes := none

variable {F : Type}

/-- The kernels in a process with this environment. -/
def Kernels.withEnv (K : Kernels F) (env : HeightEnv) : Kernels F :=
  { K with
    detectorPolicyHeight := envHeight env.detector 31400
    v3SunsetHeight := envHeight env.sunset 27615 }

/-- The same window as a candidate at another height. -/
def Ctx.atHeight (c : Ctx F) (height : Nat) : Ctx F := { c with w := { c.w with height } }

/-! ## The vendored tiers -/

/-- `B_FLOOR_UNITS`. -/
def bFloorUnits : Nat := 45 * 1024

/-- `PIN_FREE_COUNT`. -/
def pinFreeCount : Nat := 128

/-- `tier_for_b_cred_units`. -/
def tierForBCredUnits (units : Nat) : Tier :=
  if units < bFloorUnits then .invalid
  else if units < bFreeUnits then .admissionRequired
  else .free

/-- The tier of ruleset 5 over a structure that has a price. -/
def ruleset5Tier (units : Nat) (sm : StructureMetrics) : Tier :=
  if tierForBCredUnits units = .free ∧ pinFreeCount < sm.nearPinCount then .admissionRequired
  else tierForBCredUnits units

namespace PowV4

/-- `V4PinPrice`. -/
def pinPrice (nearPinCount : Nat) : Nat :=
  if 256 < nearPinCount then 0
  else if pinRejectCount ≤ nearPinCount then 0
  else
    let excess := if pinFreeCount < nearPinCount then Word.sub 64 nearPinCount pinFreeCount else 0
    let p := Word.add 64 1000
      (Word.mul 64 (Word.mul 64 1000 excess) excess / Word.mul 64 46 46)
    let p := if p < 1000 then 1000 else p
    if 2000 < p then 2000 else p

/-- `V4StatePrice`, in `unsigned __int128`. -/
def statePrice (sm : StructureMetrics) : Nat :=
  if sm.valid = false then 0
  else if sm.bcapUnits = 0 ∨ 256 * 1024 < sm.bcapUnits then 0
  else
    let d := Word.mul 128 (Word.mul 128 sm.bcapUnits sm.bcapUnits) (2 ^ 63)
    if sm.collisionU = 0 ∨ d < sm.collisionU then 0
    else if sm.collisionId = 0 ∨ d < sm.collisionId then 0
    else
      let byU := Word.mul 128 40 sm.collisionU
      let byId := Word.mul 128 24 sm.collisionId
      let scaled := Word.mul 128 1000 (if byU < byId then byU else byId) / d
      if scaled ≤ 1000 then 1000
      else if 2000 ≤ scaled then 2000
      else scaled

/-- `V4StructurePrice`; 0 is no price. -/
def structurePrice (sm : StructureMetrics) : Nat :=
  if sm.valid = false then 0
  else if pinPrice sm.nearPinCount = 0 then 0
  else if statePrice sm = 0 then 0
  else if statePrice sm < pinPrice sm.nearPinCount then pinPrice sm.nearPinCount
  else statePrice sm

/-- `V4Ruleset5Tier`. -/
def ruleset5Tier (units : Nat) (sm : StructureMetrics) : Tier :=
  if structurePrice sm = 0 then .invalid
  else
    let tier := tierForBCredUnits units
    if tier = .free ∧ pinFreeCount < sm.nearPinCount then .admissionRequired else tier

/-- **Where the structure has a price, the vendored tier is the credit tier but for the free windows
with too many near-pins.** -/
theorem ruleset5Tier_eq {sm : StructureMetrics} (h : structurePrice sm ≠ 0) (units : Nat) :
    ruleset5Tier units sm = Precheck.ruleset5Tier units sm := if_neg h

end PowV4

/-- What the tier functions answer on a window. -/
structure TierRules (K : Kernels F) (c : Ctx F) : Prop where
  credit : K.tierForBCredUnits c.credUnitsSum = .ok (tierForBCredUnits c.credUnitsSum)
  ruleset5 : c.metricsOk = true →
    K.ruleset5Tier c.credUnitsSum c.sm = .ok (ruleset5Tier c.credUnitsSum c.sm)

/-- The kernels with the vendored tiers. -/
def Kernels.withVendoredTiers (K : Kernels F) : Kernels F :=
  { K with
    tierForBCredUnits := fun units => .ok (Precheck.tierForBCredUnits units)
    ruleset5Tier := fun units sm => .ok (PowV4.ruleset5Tier units sm) }

/-- The vendored tiers answer so on every window whose structure, when complete, has a price. -/
theorem Kernels.withVendoredTiers_rules (K : Kernels F) {c : Ctx F}
    (h : c.metricsOk = true → PowV4.structurePrice c.sm ≠ 0) :
    TierRules K.withVendoredTiers c where
  credit := rfl
  ruleset5 hm := congrArg Except.ok (PowV4.ruleset5Tier_eq (h hm) c.credUnitsSum)

/-! ## Activation -/

/-- Once active, ruleset 5 stays so. -/
theorem ruleset5Active_mono {K : Kernels F} {h h' : Nat} (ha : ruleset5Active K h = true)
    (hle : h ≤ h') : ruleset5Active K h' = true := by
  simp only [ruleset5Active, Bool.and_eq_true, ne_eq, decide_eq_true_eq] at ha ⊢
  omega

/-! ## Tiers -/

theorem tierForBCredUnits_free_iff (units : Nat) :
    tierForBCredUnits units = .free ↔ bFreeUnits ≤ units := by
  unfold tierForBCredUnits bFreeUnits bFloorUnits
  split_ifs <;> simp <;> omega

theorem tierForBCredUnits_admission {units : Nat}
    (h : tierForBCredUnits units = .admissionRequired) : ¬ bFreeUnits ≤ units := by
  rw [← tierForBCredUnits_free_iff, h]
  simp

/-- The tier once ruleset 5 is active: that of the structure, if it is complete. -/
def activeTier (metricsOk : Bool) (units : Nat) (sm : StructureMetrics) : Tier :=
  if metricsOk = true then ruleset5Tier units sm else tierForBCredUnits units

theorem activeTier_free_iff (metricsOk : Bool) (units : Nat) (sm : StructureMetrics) :
    activeTier metricsOk units sm = .free ↔
      bFreeUnits ≤ units ∧ ¬ (metricsOk = true ∧ pinFreeCount < sm.nearPinCount) := by
  unfold activeTier ruleset5Tier
  rw [← tierForBCredUnits_free_iff]
  split
  · rename_i hm
    split
    · rename_i h
      exact iff_of_false (by simp) fun hn => hn.2 ⟨hm, h.2⟩
    · rename_i h
      exact ⟨fun hf => ⟨hf, fun hn => h ⟨hf, hn.2⟩⟩, fun hf => hf.1⟩
  · rename_i hm
    exact ⟨fun hf => ⟨hf, fun hn => hm hn.1⟩, fun hf => hf.1⟩

/-- A window with the credit of a free one needs admission for its near-pins only. -/
theorem activeTier_admission_iff (metricsOk : Bool) (units : Nat) (sm : StructureMetrics) :
    activeTier metricsOk units sm = .admissionRequired ∧ bFreeUnits ≤ units ↔
      metricsOk = true ∧ bFreeUnits ≤ units ∧ pinFreeCount < sm.nearPinCount := by
  have hcredit : tierForBCredUnits units = .admissionRequired → ¬ bFreeUnits ≤ units :=
    tierForBCredUnits_admission
  have hfree := tierForBCredUnits_free_iff units
  unfold activeTier ruleset5Tier
  split
  · rename_i hm
    split
    · rename_i h
      exact iff_of_true ⟨rfl, hfree.1 h.1⟩ ⟨hm, hfree.1 h.1, h.2⟩
    · rename_i h
      refine iff_of_false (fun hn => hcredit hn.1 hn.2) fun hn => h ⟨hfree.2 hn.2.1, hn.2.2⟩
  · rename_i hm
    exact iff_of_false (fun hn => hcredit hn.1 hn.2) fun hn => hm hn.1

theorem tierResult_reject_iff (K : Kernels F) (c : Ctx F) (t : Tier) :
    (tierResult K c t).outcome = .reject ↔ t ≠ .free := by
  cases t with
  | invalid => simp [tierResult, GateResult.reject]
  | admissionRequired =>
    unfold tierResult
    split_ifs <;> simp [GateResult.reject]
  | free => simp [tierResult, GateResult.pass]

theorem tierResult_withheld_iff (K : Kernels F) (c : Ctx F) (t : Tier) :
    (tierResult K c t).ruleset5TierWithheld = true ↔ t = .admissionRequired ∧
      ruleset5Active K c.w.height = true ∧ c.metricsOk = true ∧ bFreeUnits ≤ c.credUnitsSum := by
  cases t with
  | invalid => simp [tierResult, GateResult.reject]
  | admissionRequired =>
    simp only [tierResult, true_and]
    split
    · rename_i h
      simpa [and_assoc] using h
    · rename_i h
      simpa [GateResult.reject, and_assoc] using h
  | free => simp [tierResult, GateResult.pass]

/-! ## Results -/

/-- A gate over one tier. -/
theorem gateCreditTier_eq {K : Kernels F} {c : Ctx F} {t : Tier} (h : tierOf K c = .ok t) :
    gateCreditTier K c = .ok (tierResult K c t, c) := by
  unfold gateCreditTier
  rw [h]
  rfl

theorem tierOf_inactive {K : Kernels F} {c : Ctx F} (hrules : TierRules K c) (env : HeightEnv)
    {h : Nat} (hn : ruleset5Active (K.withEnv env) h = false) :
    tierOf (K.withEnv env) (c.atHeight h) = .ok (tierForBCredUnits c.credUnitsSum) := by
  unfold tierOf
  rw [show (c.atHeight h).w.height = h from rfl, hn]
  exact hrules.credit

theorem tierOf_active {K : Kernels F} {c : Ctx F} (hrules : TierRules K c) (env : HeightEnv)
    {h : Nat} (ha : ruleset5Active (K.withEnv env) h = true) :
    tierOf (K.withEnv env) (c.atHeight h) =
      .ok (activeTier c.metricsOk c.credUnitsSum c.sm) := by
  unfold tierOf activeTier
  rw [show (c.atHeight h).w.height = h from rfl, ha, Bool.true_and]
  change (if c.metricsOk = true then _ else _) = _
  split
  · rename_i hm
    exact hrules.ruleset5 hm
  · exact hrules.credit

/-- **Ruleset 5 rejects what was rejected; what it rejects besides are the complete windows with the
credit of a free one and more than 128 near-pins, and these it flags.** -/
theorem ruleset5_tightens (env : HeightEnv) (K : Kernels F) (c : Ctx F) (hrules : TierRules K c)
    (h₄ h₅ : Nat) (h4 : ruleset5Active (K.withEnv env) h₄ = false)
    (h5 : ruleset5Active (K.withEnv env) h₅ = true) :
    ∃ r₄ r₅, gateCreditTier (K.withEnv env) (c.atHeight h₄) = .ok (r₄, c.atHeight h₄) ∧
      gateCreditTier (K.withEnv env) (c.atHeight h₅) = .ok (r₅, c.atHeight h₅) ∧
      (r₄.outcome = .reject → r₅.outcome = .reject) ∧
      (r₅.outcome = .reject ∧ r₄.outcome ≠ .reject ↔
        c.metricsOk = true ∧ bFreeUnits ≤ c.credUnitsSum ∧ pinFreeCount < c.sm.nearPinCount) ∧
      (r₅.ruleset5TierWithheld = true ↔
        c.metricsOk = true ∧ bFreeUnits ≤ c.credUnitsSum ∧ pinFreeCount < c.sm.nearPinCount) ∧
      r₄.ruleset5TierWithheld = false ∧
      ∀ h ≥ h₅, ruleset5Active (K.withEnv env) h = true := by
  have ht₄ := tierOf_inactive hrules env h4
  have ht₅ := tierOf_active hrules env h5
  refine ⟨_, _, gateCreditTier_eq ht₄, gateCreditTier_eq ht₅, ?_, ?_, ?_, ?_, ?_⟩
  · rw [tierResult_reject_iff, tierResult_reject_iff, ne_eq, ne_eq, activeTier_free_iff,
      tierForBCredUnits_free_iff]
    exact fun hn hf => hn hf.1
  · rw [tierResult_reject_iff, ne_eq, ne_eq, tierResult_reject_iff, ne_eq, not_not,
      activeTier_free_iff, tierForBCredUnits_free_iff]
    tauto
  · rw [tierResult_withheld_iff, ← activeTier_admission_iff]
    change activeTier _ _ _ = .admissionRequired ∧ ruleset5Active _ h₅ = true ∧
      c.metricsOk = true ∧ bFreeUnits ≤ c.credUnitsSum ↔ _
    rw [h5]
    constructor
    · exact fun h => ⟨h.1, h.2.2.2⟩
    · exact fun h => ⟨h.1, rfl, ((activeTier_admission_iff _ _ _).1 h).1, h.2⟩
  · rw [← Bool.not_eq_true, tierResult_withheld_iff]
    rintro ⟨hadm, -, -, hge⟩
    exact tierForBCredUnits_admission hadm hge
  · exact fun h hge => ruleset5Active_mono h5 hge

/-- Rules that find a scaffold in every prompt, and nothing else. -/
def scaffoldRules : Kernels Nat where
  floatEnvironment := .ok none
  floatEnvironmentSet := .ok none
  greater a b := decide (b < a)
  close a b := decide (a = b)
  computeWindowStructure lens _ _ _ :=
    .ok (.ok,
      { lower := lens.map fun _ => 0
        upper := lens.map fun _ => 1
        position := lens.map fun _ => 0
        creditUnits := lens.map fun _ => 1024
        valid := true
        candidateComplete := true }, "")
  structureRejects _ := .ok false
  candidateReason _ _ _ := .ok "candidate band"
  sunsetWindow _ _ _ _ _ _ _ := .ok { status := 0, out := [2, 1, 1, 9, 1] }
  scaffoldReason _ := .ok "prompt scaffold"
  flatReason _ _ _ _ := .ok "flat region"
  tierForBCredUnits units := .ok (if bFreeUnits ≤ units then .free else .invalid)
  ruleset5Tier _ _ := .ok .free
  totalPrice _ _ := .ok 0
  ruleset5TotalPrice _ _ := .ok 0
  antiparrot _ _ _ _ := .ok {}
  bits units := toString (units / 1024)
  detectorPolicyHeight := 31400
  v3SunsetHeight := 27615

/-- 80 bits of credit and 140 near-pins. -/
def nearPinned : Ctx Nat where
  w := {}
  ws := {}
  sm :=
    { nearPinCount := 140
      bcapUnits := 1024
      collisionU := 2 ^ 83
      collisionId := 2 ^ 83
      valid := true }
  credUnitsSum := 80 * 1024
  metricsOk := true

/-- Ruleset 5 from height 100 on. -/
def rehearsal : HeightEnv where
  detector := some (Stratum.text "100")
  sunset := some (Stratum.text " 50")

theorem ruleset5_tightens_nearPinned :
    ∃ r₄ r₅, gateCreditTier (scaffoldRules.withVendoredTiers.withEnv rehearsal)
        (nearPinned.atHeight 99) = .ok (r₄, nearPinned.atHeight 99) ∧
      gateCreditTier (scaffoldRules.withVendoredTiers.withEnv rehearsal)
        (nearPinned.atHeight 100) = .ok (r₅, nearPinned.atHeight 100) ∧
      r₄.outcome ≠ .reject ∧ r₅.outcome = .reject ∧ r₅.ruleset5TierWithheld = true := by
  obtain ⟨r₄, r₅, h₄, h₅, -, hnew, hflag, -⟩ := ruleset5_tightens rehearsal
    scaffoldRules.withVendoredTiers nearPinned
    (scaffoldRules.withVendoredTiers_rules fun _ => by decide +kernel)
    99 100 (by decide +kernel) (by decide +kernel)
  have hmore : nearPinned.metricsOk = true ∧ bFreeUnits ≤ nearPinned.credUnitsSum ∧
      pinFreeCount < nearPinned.sm.nearPinCount := by decide
  exact ⟨r₄, r₅, h₄, h₅, (hnew.2 hmore).2, (hnew.2 hmore).1, hflag.2 hmore⟩

end Precheck
