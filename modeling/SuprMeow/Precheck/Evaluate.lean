import SuprMeow.Library.Sieve
import SuprMeow.Precheck.Gates

/-!
# The verdict over a window

`evaluate_window` runs the canonical kernel once and then the enabled gates in order, on one
context that they share.

* `Ctx.Shared` — the context is as it was built, or as the sunset call left it: the gates cannot
  tell;
* `evaluateWindow_settles` — for every mask the verdict is settled by what the single gates say.
-/

set_option autoImplicit false

namespace Precheck

variable {F : Type}

/-! ## `evaluate_window` -/

/-- `gate_mask & gate_bit(g)`. -/
def enabled (mask : Nat) (g : Gate) : Bool := mask.testBit g.index

structure Verdict where
  outcome : Outcome := .unavailable
  /-- The gate that rejected. -/
  gate : Option Gate := none
  reason : String := ""
  hashHex : String := ""
  isSolution : Bool := false
  ruleset5 : Bool := false
  nearPinCount : Nat := 0
  priceR4P : Nat := 0
  priceR5P : Nat := 0
  ruleset5TierWithheld : Bool := false

/-- What is thrown, with the verdict as it is by then. -/
abbrev Evaluation (α : Type) := Except (Thrown × Verdict) α

def Verdict.guard {α : Type} (v : Verdict) (x : Except Thrown α) : Evaluation α :=
  x.mapError fun e => (e, v)

/-- `ensure_float_environment`: why not, if it cannot be. -/
def ensureFloatEnvironment (K : Kernels F) : Except Thrown (Option String) := do
  match ← K.floatEnvironment with
  | none => return none
  | some _ => K.floatEnvironmentSet

/-- The enabled gates in order, up to the first that rejects; one that cannot decide leaves its
reason behind if it is the first. -/
def runGates (K : Kernels F) [Inhabited F] (mask : Nat) :
    List Gate → Verdict → Ctx F → Evaluation Verdict
  | [], v, _ => .ok { v with outcome := if v.reason = "" then .pass else .unavailable }
  | g :: rest, v, c =>
    if enabled mask g then do
      let (r, c) ← v.guard (g.check K c)
      match r.outcome with
      | .reject =>
        return { v with
          outcome := .reject, gate := some g, reason := r.reason
          ruleset5TierWithheld := r.ruleset5TierWithheld }
      | .unavailable =>
        runGates K mask rest
          (if v.reason = "" then { v with reason := gateName g ++ ": " ++ r.reason } else v) c
      | .pass => runGates K mask rest v c
    else runGates K mask rest v c

/-- The measurements of the verdict. -/
def measure (K : Kernels F) (v : Verdict) (c : Ctx F) : Evaluation Verdict :=
  let v := { v with ruleset5 := ruleset5Active K c.w.height }
  if c.metricsOk then do
    let v := { v with nearPinCount := c.sm.nearPinCount }
    let p4 ← v.guard (K.totalPrice c.cm c.sm)
    let p5 ← v.guard (K.ruleset5TotalPrice c.cm c.sm)
    return { v with priceR4P := p4, priceR5P := p5 }
  else .ok v

/-- The body of `evaluate_window`, inside its `try`. -/
def evaluateBody (K : Kernels F) [Inhabited F] (w : Window F) (mask : Nat) :
    Evaluation Verdict := do
  let v : Verdict := { hashHex := w.hashHex, isSolution := w.isSolution }
  match ← v.guard (ensureFloatEnvironment K) with
  | some why => return { v with reason := "float environment: " ++ why }
  | none =>
    if w.rowLen.length ≠ kWindow ∨ w.chosen.length ≠ kWindow then
      return { v with reason := "not a 256-step window" }
    else
      let (st, ws, err) ← v.guard (K.computeWindowStructure w.rowLen w.logits w.ids w.chosen)
      match st with
      | .badFloatEnvironment =>
        return { v with reason := "float environment refused by kernel" }
      | .badInput =>
        if enabled mask .strict then
          return { v with
            outcome := .reject, gate := some .strict
            reason := "proof v4: canonical credit kernel rejected step " ++
              toString ws.lower.length ++ ": " ++ err }
        else return { v with reason := "canonical kernel refused the window: " ++ err }
      | .ok =>
        if ws.creditUnits.length ≠ kWindow ∨ ws.position.length ≠ kWindow then
          return { v with reason := "kernel returned an incomplete window" }
        else do
          let c := { w, ws : Ctx F }.buildMetrics
          runGates K mask pipeline (← measure K v c) c

def Thrown.text : Thrown → String
  | .exception what => "internal error: " ++ what
  | .unknown => "internal error"

/-- `evaluate_window`: what is thrown ends as unavailable. -/
def evaluateWindow (K : Kernels F) [Inhabited F] (w : Window F) (mask : Nat) : Verdict :=
  match evaluateBody K w mask with
  | .ok v => v
  | .error (e, v) => { v with outcome := .unavailable, reason := e.text }

/-- `evaluate`. -/
def evaluate (R : Reader F) (K : Kernels F) [Inhabited F] (data : List Nat) (mask height : Nat) :
    Verdict :=
  match decode R data with
  | .error r => { reason := r.text, hashHex := r.hashHex, isSolution := r.isSolution }
  | .ok w => evaluateWindow K { w with height := height } mask

/-! ## Rules that do not throw -/

/-- The vendored rules are total. -/
structure Kernels.Total (K : Kernels F) : Prop where
  floatEnvironment : ∃ r, K.floatEnvironment = .ok r
  floatEnvironmentSet : ∃ r, K.floatEnvironmentSet = .ok r
  computeWindowStructure : ∀ lens logits ids chosen,
    ∃ r, K.computeWindowStructure lens logits ids chosen = .ok r
  structureRejects : ∀ sm, ∃ r, K.structureRejects sm = .ok r
  candidateReason : ∀ n t l, ∃ r, K.candidateReason n t l = .ok r
  sunsetWindow : ∀ lens logits ids chosen prompt pad credits,
    ∃ r, K.sunsetWindow lens logits ids chosen prompt pad credits = .ok r
  scaffoldReason : ∀ covered, ∃ r, K.scaffoldReason covered = .ok r
  flatReason : ∀ a b n e, ∃ r, K.flatReason a b n e = .ok r
  tierForBCredUnits : ∀ units, ∃ r, K.tierForBCredUnits units = .ok r
  ruleset5Tier : ∀ units sm, ∃ r, K.ruleset5Tier units sm = .ok r
  totalPrice : ∀ cm sm, ∃ r, K.totalPrice cm sm = .ok r
  ruleset5TotalPrice : ∀ cm sm, ∃ r, K.ruleset5TotalPrice cm sm = .ok r
  antiparrot : ∀ logits ids chosen prompt, ∃ r, K.antiparrot logits ids chosen prompt = .ok r

variable [Inhabited F] {K : Kernels F} {c c' c₀ : Ctx F} {w : Window F}

/-! ## The shared context -/

/-- Two contexts that differ in the sunset call only. -/
structure Ctx.Like (c₀ c : Ctx F) : Prop where
  w : c.w = c₀.w
  ws : c.ws = c₀.ws
  sm : c.sm = c₀.sm
  credUnitsSum : c.credUnitsSum = c₀.credUnitsSum
  metricsOk : c.metricsOk = c₀.metricsOk

omit [Inhabited F] in
theorem runSunset_done (h : c.sunsetDone = true) : runSunset K c = .ok c := by
  unfold runSunset
  rw [if_pos h]

omit [Inhabited F] in
theorem runSunset_like (h : runSunset K c = .ok c') : c.Like c' ∧ c'.sunsetDone = true := by
  unfold runSunset at h
  split at h
  · rename_i hd
    cases h
    exact ⟨⟨rfl, rfl, rfl, rfl, rfl⟩, hd⟩
  · split at h
    · cases h
      exact ⟨⟨rfl, rfl, rfl, rfl, rfl⟩, rfl⟩
    · obtain ⟨r, -, h⟩ := Fallible.seq_ok.1 h
      cases h
      exact ⟨⟨rfl, rfl, rfl, rfl, rfl⟩, rfl⟩

omit [Inhabited F] in
theorem Kernels.Total.runSunset (hK : K.Total) (c : Ctx F) : ∃ c', runSunset K c = .ok c' := by
  unfold Precheck.runSunset
  split
  · exact ⟨c, rfl⟩
  · split
    · exact ⟨_, rfl⟩
    · obtain ⟨r, hr⟩ := hK.sunsetWindow c.w.rowLen c.w.logits c.w.ids c.w.chosen c.w.prompt
        (normalizePadMask c.w) c.ws.creditUnits
      exact ⟨_, Fallible.seq_ok.2 ⟨r, hr, rfl⟩⟩

/-- The context as it was built, or as the sunset call left it. -/
def Ctx.Shared (K : Kernels F) (c₀ c : Ctx F) : Prop := c = c₀ ∨ runSunset K c₀ = .ok c

omit [Inhabited F] in
theorem Ctx.Shared.like (h : c₀.Shared K c) : c₀.Like c := by
  rcases h with rfl | h
  · exact ⟨rfl, rfl, rfl, rfl, rfl⟩
  · exact (runSunset_like h).1

omit [Inhabited F] in
/-- The sunset call leaves the same context whether it was made before or not. -/
theorem Ctx.Shared.runSunset (h : c₀.Shared K c) (h₁ : runSunset K c₀ = .ok c') :
    runSunset K c = .ok c' := by
  rcases h with rfl | h
  · exact h₁
  · rw [h₁] at h
    cases h
    exact runSunset_done (runSunset_like h₁).2

/-- A gate that says the same on both contexts. -/
def Steady (K : Kernels F) (f : Ctx F → Except Thrown (GateResult × Ctx F)) : Prop :=
  ∀ c₀ : Ctx F, ∃ r, ∀ c, c₀.Shared K c → ∃ c', f c = .ok (r, c') ∧ c₀.Shared K c'

omit [Inhabited F] in
/-- A gate that leaves the context alone is steady if it reads nothing of the sunset call. -/
theorem steady_of_like {f : Ctx F → Except Thrown (GateResult × Ctx F)}
    (h : ∀ c₀ : Ctx F, ∃ r, ∀ c, c₀.Like c → f c = .ok (r, c)) : Steady K f := by
  intro c₀
  obtain ⟨r, hr⟩ := h c₀
  exact ⟨r, fun c hc => ⟨c, hr c hc.like, hc⟩⟩

theorem steady_strict : Steady K (gateStrict K) := by
  refine steady_of_like fun c₀ => ?_
  have hsame (c : Ctx F) (h : c₀.Like c) : strictViolation K c = strictViolation K c₀ := by
    funext s
    unfold strictViolation
    rw [h.w, h.ws]
  cases hv : (List.range kWindow).findSome? (strictViolation K c₀) with
  | some why => exact ⟨.reject why, fun c h => by unfold gateStrict; rw [hsame c h, hv]⟩
  | none => exact ⟨.pass, fun c h => by unfold gateStrict; rw [hsame c h, hv]⟩

omit [Inhabited F] in
theorem steady_nearPin (hK : K.Total) : Steady K (gateNearPin K) := by
  refine steady_of_like fun c₀ => ?_
  obtain ⟨rejects, hr⟩ := hK.structureRejects c₀.sm
  by_cases hm : c₀.metricsOk = false
  · constructor
    intro c h
    unfold gateNearPin
    rw [h.metricsOk, if_pos hm]
  · by_cases hpins : rejects ∨ pinRejectCount ≤ c₀.ws.nearPinCount
    all_goals
      constructor
      intro c h
      unfold gateNearPin
      rw [h.metricsOk, if_neg hm, h.sm, h.ws, hr]
    · exact if_pos hpins
    · exact if_neg hpins

omit [Inhabited F] in
theorem steady_candidateBand (hK : K.Total) : Steady K (gateCandidateBand K) := by
  refine steady_of_like fun c₀ => ?_
  obtain ⟨why, hw⟩ := hK.candidateReason c₀.ws.candidateActiveRows c₀.ws.candidateTotal
    c₀.ws.candidateLargestTerms
  by_cases hc : c₀.ws.candidateComplete = false
  · constructor
    intro c h
    unfold gateCandidateBand
    rw [h.ws, if_pos hc]
  · by_cases hr : c₀.ws.candidateReject = true
    · constructor
      intro c h
      unfold gateCandidateBand
      rw [h.ws, if_neg hc, if_pos hr, hw]
      rfl
    · constructor
      intro c h
      unfold gateCandidateBand
      rw [h.ws, if_neg hc, if_neg hr]

omit [Inhabited F] in
theorem steady_creditTier (hK : K.Total) : Steady K (gateCreditTier K) := by
  refine steady_of_like fun c₀ => ?_
  obtain ⟨tier, ht⟩ : ∃ tier, tierOf K c₀ = .ok tier := by
    unfold tierOf
    split
    · exact hK.ruleset5Tier _ _
    · exact hK.tierForBCredUnits _
  refine ⟨tierResult K c₀ tier, fun c h => Fallible.seq_ok.2 ⟨tier, ?_, ?_⟩⟩
  · rw [← ht]
    unfold tierOf
    rw [h.w, h.credUnitsSum, h.metricsOk, h.sm]
  · unfold tierResult
    rw [h.w, h.credUnitsSum, h.metricsOk, h.sm]
    rfl

omit [Inhabited F] in
theorem steady_antiParrot (hK : K.Total) : Steady K (gateAntiParrot K) := by
  refine steady_of_like fun c₀ => ?_
  obtain ⟨v, hv⟩ := hK.antiparrot (splitRows c₀.w.rowLen c₀.w.logits)
    (splitRows c₀.w.rowLen c₀.w.ids) c₀.w.chosen (unpadded c₀.w)
  by_cases hok : v.ok = false
  · by_cases hst : v.status = 2
    all_goals
      constructor
      intro c h
      unfold gateAntiParrot
      rw [h.w, hv]
      refine (if_pos hok).trans ?_
    · exact if_pos hst
    · exact if_neg hst
  · by_cases hreason : v.reason ≠ ""
    all_goals
      constructor
      intro c h
      unfold gateAntiParrot
      rw [h.w, hv]
      refine (if_neg hok).trans ?_
    · exact if_pos hreason
    · exact if_neg hreason

/-! ## The gates that share the sunset call -/

omit [Inhabited F] in
/-- A gate that makes the sunset call and then leaves the context alone is steady. -/
theorem steady_of_sunset (hK : K.Total) {f : Ctx F → Except Thrown (GateResult × Ctx F)}
    (h : ∀ c₁ : Ctx F, ∃ r, ∀ c, runSunset K c = .ok c₁ → f c = .ok (r, c₁)) : Steady K f := by
  intro c₀
  obtain ⟨c₁, h₁⟩ := hK.runSunset c₀
  obtain ⟨r, hr⟩ := h c₁
  exact ⟨r, fun c hc => ⟨c₁, hr c (hc.runSunset h₁), .inr h₁⟩⟩

omit [Inhabited F] in
theorem steady_promptScaffold (hK : K.Total) : Steady K (gatePromptScaffold K) := by
  refine steady_of_sunset hK fun c₁ => ?_
  obtain ⟨why, hw⟩ := hK.scaffoldReason (c₁.sunsetOut.take 4)
  by_cases hst : (sunsetStatusResult c₁).outcome ≠ .pass
  · exact ⟨_, fun c h => Fallible.seq_ok.2 ⟨c₁, h, if_pos hst⟩⟩
  · by_cases hr : c₁.sunsetOut.getD 4 0 ≠ 0
    · refine ⟨.reject why, fun c h => Fallible.seq_ok.2 ⟨c₁, h, ?_⟩⟩
      refine (if_neg hst).trans ((if_pos hr).trans ?_)
      rw [hw]
      rfl
    · exact ⟨_, fun c h => Fallible.seq_ok.2 ⟨c₁, h, (if_neg hst).trans (if_neg hr)⟩⟩

omit [Inhabited F] in
theorem steady_flatRegion (hK : K.Total) : Steady K (gateFlatRegion K) := by
  refine steady_of_sunset hK fun c₁ => ?_
  obtain ⟨why, hw⟩ := hK.flatReason (c₁.sunsetOut.getD 5 0) (c₁.sunsetOut.getD 6 0)
    (c₁.sunsetOut.getD 7 0) (c₁.sunsetOut.getD 8 0 ≠ 0)
  by_cases hst : (sunsetStatusResult c₁).outcome ≠ .pass
  · exact ⟨_, fun c h => Fallible.seq_ok.2 ⟨c₁, h, if_pos hst⟩⟩
  by_cases hscaffold : c₁.sunsetOut.getD 4 0 ≠ 0
  · exact ⟨_, fun c h => Fallible.seq_ok.2 ⟨c₁, h, (if_neg hst).trans (if_pos hscaffold)⟩⟩
  by_cases hdone : c₁.sunsetOut.getD 10 0 ≠ 1
  · exact ⟨_, fun c h => Fallible.seq_ok.2
      ⟨c₁, h, (if_neg hst).trans ((if_neg hscaffold).trans (if_pos hdone))⟩⟩
  by_cases hr : c₁.sunsetOut.getD 9 0 ≠ 0
  · refine ⟨.reject why, fun c h => Fallible.seq_ok.2 ⟨c₁, h, ?_⟩⟩
    refine (if_neg hst).trans ((if_neg hscaffold).trans ((if_neg hdone).trans
      ((if_pos hr).trans ?_)))
    rw [hw]
    rfl
  · exact ⟨_, fun c h => Fallible.seq_ok.2 ⟨c₁, h, (if_neg hst).trans
      ((if_neg hscaffold).trans ((if_neg hdone).trans (if_neg hr)))⟩⟩

/-- **What a gate says does not depend on the gates before it.** -/
theorem Kernels.Total.steady (hK : K.Total) (g : Gate) : Steady K (g.check K) := by
  cases g with
  | strict => exact steady_strict
  | nearPin => exact steady_nearPin hK
  | candidateBand => exact steady_candidateBand hK
  | promptScaffold => exact steady_promptScaffold hK
  | flatRegion => exact steady_flatRegion hK
  | creditTier => exact steady_creditTier hK
  | antiParrot => exact steady_antiParrot hK

/-- What a row of gates leaves of the context. -/
def afterGates (K : Kernels F) : List Gate → Ctx F → Except Thrown (Ctx F)
  | [], c => .ok c
  | g :: rest, c => do
    let (_, c) ← g.check K c
    afterGates K rest c

theorem afterGates_shared (hK : K.Total) {c₀ : Ctx F} (gs : List Gate) (h : c₀.Shared K c) :
    ∃ c', afterGates K gs c = .ok c' ∧ c₀.Shared K c' := by
  induction gs generalizing c with
  | nil => exact ⟨c, rfl, h⟩
  | cons g rest ih =>
    obtain ⟨r, hr⟩ := hK.steady g c₀
    obtain ⟨c₁, hc, h₁⟩ := hr c h
    obtain ⟨c', hc', h'⟩ := ih h₁
    exact ⟨c', Fallible.seq_ok.2 ⟨(r, c₁), hc, hc'⟩, h'⟩

/-! ## What the verdict is made of -/

/-- A gate's result as the row of gates sees it. -/
def GateResult.decision (r : GateResult) : Sieve.Decision (String × Bool) :=
  match r.outcome with
  | .pass => .pass
  | .unavailable => .abstain
  | .reject => .reject (r.reason, r.ruleset5TierWithheld)

def Verdict.Matches (v : Verdict) : Sieve.Verdict Gate (String × Bool) → Prop
  | .pass => v.outcome = .pass
  | .abstain => v.outcome = .unavailable
  | .reject g (why, withheld) => v.outcome = .reject ∧ v.gate = some g ∧ v.reason = why ∧
      v.ruleset5TierWithheld = withheld

theorem gateName_reason_ne (g : Gate) (reason : String) : gateName g ++ ": " ++ reason ≠ "" := by
  rw [Ne, String.append_eq_empty_iff, String.append_eq_empty_iff]
  exact fun h => absurd h.1.2 (by decide)

/-- **The loop over the gates settles on what the single gates say.** -/
theorem runGates_settles {d : Gate → Sieve.Decision (String × Bool)} {c₀ : Ctx F}
    (hd : ∀ g, ∃ r : GateResult, d g = r.decision ∧
      ∀ c, c₀.Shared K c → ∃ c', g.check K c = .ok (r, c') ∧ c₀.Shared K c')
    (mask : Nat) (gs : List Gate) (v : Verdict) (h : c₀.Shared K c) :
    ∃ v', runGates K mask gs v c = .ok v' ∧
      v'.Matches (if v.reason = "" then Sieve.settle (Sieve.masked (enabled mask) d) gs
        else (Sieve.settle (Sieve.masked (enabled mask) d) gs).orAbstain) := by
  induction gs generalizing v c with
  | nil =>
    refine ⟨_, rfl, ?_⟩
    split <;> rfl
  | cons g rest ih =>
    unfold runGates Sieve.settle Sieve.masked
    by_cases hm : enabled mask g = true
    · obtain ⟨r, hdr, hr⟩ := hd g
      obtain ⟨c', hc, h'⟩ := hr c h
      rw [if_pos hm, if_pos hm, hdr, hc]
      change ∃ v', (match r.outcome with
        | .reject => _
        | .unavailable => _
        | .pass => _) = Except.ok v' ∧ _
      unfold GateResult.decision
      cases ho : r.outcome with
      | pass => exact ih v h'
      | reject =>
        refine ⟨_, rfl, ?_⟩
        split <;> exact ⟨rfl, rfl, rfl, rfl⟩
      | unavailable =>
        by_cases hv : v.reason = ""
        · have := ih { v with reason := gateName g ++ ": " ++ r.reason } h'
          rw [if_neg (gateName_reason_ne g r.reason)] at this
          rw [if_pos hv, if_pos hv]
          exact this
        · have := ih v h'
          rw [if_neg hv] at this
          rw [if_neg hv, if_neg hv]
          dsimp only
          rw [Sieve.orAbstain_idem]
          exact this
    · rw [if_neg hm, if_neg hm]
      exact ih v h

/-- A gate's decision on a fresh context. -/
theorem Kernels.Total.decides (hK : K.Total) (c₀ : Ctx F) :
    ∃ d : Gate → Sieve.Decision (String × Bool), ∀ g, ∃ r : GateResult, d g = r.decision ∧
      ∀ c, c₀.Shared K c → ∃ c', g.check K c = .ok (r, c') ∧ c₀.Shared K c' := by
  choose r hr using fun g => hK.steady g c₀
  exact ⟨fun g => (r g).decision, fun g => ⟨r g, rfl, hr g⟩⟩

theorem mem_pipeline (g : Gate) : g ∈ pipeline := by
  cases g <;> decide

/-- A verdict that is unavailable whatever the mask. -/
theorem matches_unavailable {v : Verdict} (hv : v.outcome = .unavailable) {mask : Nat}
    {d : Gate → Sieve.Decision (String × Bool)} (hd : ∀ g, enabled mask g = true → d g = .abstain)
    (hm : ∃ g, enabled mask g = true) :
    v.Matches (Sieve.settle (Sieve.masked (enabled mask) d) pipeline) := by
  obtain ⟨g, hg⟩ := hm
  rw [Sieve.settle_of_abstain (fun g _ => hd g) ⟨g, mem_pipeline g, hg⟩]
  exact hv

omit [Inhabited F] in
theorem Kernels.Total.ensureFloatEnvironment (hK : K.Total) :
    ∃ r, Precheck.ensureFloatEnvironment K = .ok r := by
  obtain ⟨r, hr⟩ := hK.floatEnvironment
  obtain ⟨r', hr'⟩ := hK.floatEnvironmentSet
  unfold Precheck.ensureFloatEnvironment
  rw [hr]
  cases r with
  | none => exact ⟨none, rfl⟩
  | some why => exact ⟨r', hr'⟩

omit [Inhabited F] in
theorem Kernels.Total.measure (hK : K.Total) (v : Verdict) (c : Ctx F) :
    ∃ v', measure K v c = .ok v' ∧ v'.reason = v.reason := by
  obtain ⟨p4, h4⟩ := hK.totalPrice c.cm c.sm
  obtain ⟨p5, h5⟩ := hK.ruleset5TotalPrice c.cm c.sm
  unfold Precheck.measure
  rw [h4, h5]
  split
  · exact ⟨_, rfl, rfl⟩
  · exact ⟨_, rfl, rfl⟩

theorem evaluateWindow_of_body {mask : Nat} {v : Verdict} (h : evaluateBody K w mask = .ok v) :
    evaluateWindow K w mask = v := by
  unfold evaluateWindow
  rw [h]

/-- How far the mask matters: not at all, for the strict gate that speaks for a kernel that
refused the window, or for the row of gates. -/
theorem Kernels.Total.body (hK : K.Total) (w : Window F) :
    (∃ v, v.outcome = .unavailable ∧ ∀ mask, evaluateBody K w mask = .ok v) ∨
    (∃ v why, v.outcome = .unavailable ∧ v.ruleset5TierWithheld = false ∧
      ∀ mask, evaluateBody K w mask = .ok (if enabled mask .strict then
        { v with outcome := .reject, gate := some .strict, reason := why } else v)) ∨
    ∃ (v : Verdict) (c : Ctx F), v.reason = "" ∧
      ∀ mask, evaluateBody K w mask = runGates K mask pipeline v c := by
  obtain ⟨env, henv⟩ := hK.ensureFloatEnvironment
  obtain ⟨⟨st, ws, err⟩, hkernel⟩ := hK.computeWindowStructure w.rowLen w.logits w.ids w.chosen
  unfold evaluateBody
  rw [henv, hkernel]
  cases env with
  | some why => exact .inl ⟨_, rfl, fun _ => rfl⟩
  | none =>
    by_cases hshape : w.rowLen.length ≠ kWindow ∨ w.chosen.length ≠ kWindow
    · exact .inl ⟨_, rfl, fun _ => if_pos hshape⟩
    · cases st with
      | badFloatEnvironment => exact .inl ⟨_, rfl, fun _ => if_neg hshape⟩
      | badInput =>
        refine .inr (.inl ⟨{ hashHex := w.hashHex, isSolution := w.isSolution
                             reason := "canonical kernel refused the window: " ++ err },
          "proof v4: canonical credit kernel rejected step " ++ toString ws.lower.length ++
            ": " ++ err, rfl, rfl, fun mask => (if_neg hshape).trans ?_⟩)
        by_cases hm : enabled mask .strict = true
        · rw [if_pos hm]
          exact if_pos hm
        · rw [if_neg hm]
          exact if_neg hm
      | ok =>
        by_cases hpart : ws.creditUnits.length ≠ kWindow ∨ ws.position.length ≠ kWindow
        · exact .inl ⟨_, rfl, fun _ => (if_neg hshape).trans (if_pos hpart)⟩
        · obtain ⟨v, hv, hreason⟩ := hK.measure
            { hashHex := w.hashHex, isSolution := w.isSolution } { w, ws : Ctx F }.buildMetrics
          refine .inr (.inr ⟨v, { w, ws : Ctx F }.buildMetrics, hreason, fun mask => ?_⟩)
          refine (if_neg hshape).trans ((if_neg hpart).trans ?_)
          rw [hv]
          rfl

/-- **For every mask the verdict is settled by what the single gates say.** -/
theorem evaluateWindow_settles (hK : K.Total) (w : Window F) :
    ∃ d, ∀ mask, (∃ g, enabled mask g = true) →
      (evaluateWindow K w mask).Matches
        (Sieve.settle (Sieve.masked (enabled mask) d) pipeline) := by
  rcases hK.body w with ⟨v, hv, hbody⟩ | ⟨v, why, hv, hwithheld, hbody⟩ | ⟨v, c, hv, hbody⟩
  · refine ⟨fun _ => .abstain, fun mask hm => ?_⟩
    rw [evaluateWindow_of_body (hbody mask)]
    exact matches_unavailable hv (fun _ _ => rfl) hm
  · refine ⟨fun g => if g = .strict then .reject (why, false) else .abstain, fun mask hm => ?_⟩
    rw [evaluateWindow_of_body (hbody mask)]
    by_cases hs : enabled mask .strict = true
    · have hfirst : Sieve.settle (Sieve.masked (enabled mask) fun g =>
          if g = .strict then .reject (why, false) else .abstain) pipeline
          = .reject .strict (why, false) :=
        Sieve.settle_eq_reject.2
          ⟨[], _, rfl, Sieve.masked_eq_reject.2 ⟨hs, if_pos rfl⟩, nofun⟩
      rw [if_pos hs, hfirst]
      exact ⟨rfl, rfl, rfl, hwithheld⟩
    · rw [if_neg hs]
      refine matches_unavailable hv (fun g hg => if_neg ?_) hm
      rintro rfl
      exact hs hg
  · obtain ⟨d, hd⟩ := hK.decides c
    refine ⟨d, fun mask _ => ?_⟩
    obtain ⟨v', hrun, hmatch⟩ := runGates_settles hd mask pipeline v (.inl rfl)
    rw [if_pos hv] at hmatch
    rw [evaluateWindow_of_body ((hbody mask).trans hrun)]
    exact hmatch

end Precheck
