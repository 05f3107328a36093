import SuprMeow.Precheck.Sunset
import SuprMeow.Precheck.TotalPrice

/-!
# Gate masks

The verdict under a mask of gates, from the verdicts of the gates alone.

* `firstReject_iff` — the first gate of a mask that rejects alone;
* `gates_compose` — gate masks compose, and what cannot be evaluated is never rejected.
-/

set_option autoImplicit false

open Binary32 (Pattern)

namespace Precheck

open Rules (halvingRow halvingRules)

variable {F : Type} [Inhabited F] {K : Kernels F} {w : Window F}

/-! ## Single gates -/

theorem enabled_gateBit (g h : Gate) : enabled (gateBit g) h = decide (h = g) := by
  cases g <;> cases h <;> decide

/-- A single gate's verdict is its decision. -/
theorem settle_single (d : Gate → Sieve.Decision (String × Bool)) (g : Gate) :
    Sieve.settle (Sieve.masked (enabled (gateBit g)) d) pipeline = (d g).alone g := by
  have hrow : pipeline.filter (enabled (gateBit g)) = [g] := by
    cases g <;> decide
  rw [← Sieve.settle_filter, hrow, Sieve.settle_singleton]

/-- What a verdict that matches says of the row. -/
theorem Verdict.Matches.unavailable_iff {v : Verdict} {u : Sieve.Verdict Gate (String × Bool)}
    (h : v.Matches u) : v.outcome = .unavailable ↔ u = .abstain := by
  cases u with
  | pass =>
    have hv : v.outcome = .pass := h
    rw [hv]
    exact ⟨nofun, nofun⟩
  | abstain => exact ⟨fun _ => rfl, fun _ => h⟩
  | reject g r =>
    rw [h.1]
    exact ⟨nofun, nofun⟩

theorem Verdict.Matches.pass_iff {v : Verdict} {u : Sieve.Verdict Gate (String × Bool)}
    (h : v.Matches u) : v.outcome = .pass ↔ u = .pass := by
  cases u with
  | pass => exact ⟨fun _ => rfl, fun _ => h⟩
  | abstain =>
    have hv : v.outcome = .unavailable := h
    rw [hv]
    exact ⟨nofun, nofun⟩
  | reject g r =>
    rw [h.1]
    exact ⟨nofun, nofun⟩

theorem Verdict.Matches.rejected_iff {v : Verdict} {u : Sieve.Verdict Gate (String × Bool)}
    (h : v.Matches u) : v.outcome = .reject ↔ ∃ g r, u = .reject g r := by
  cases u with
  | pass =>
    have hv : v.outcome = .pass := h
    rw [hv]
    exact ⟨nofun, nofun⟩
  | abstain =>
    have hv : v.outcome = .unavailable := h
    rw [hv]
    exact ⟨nofun, nofun⟩
  | reject g r => exact ⟨fun _ => ⟨g, r, rfl⟩, fun _ => h.1⟩

theorem Verdict.Matches.reject_iff {v : Verdict} {u : Sieve.Verdict Gate (String × Bool)}
    (h : v.Matches u) {g : Gate} :
    (v.outcome = .reject ∧ v.gate = some g) ↔ ∃ r, u = .reject g r := by
  constructor
  · rintro ⟨hout, hgate⟩
    obtain ⟨g', r, rfl⟩ := h.rejected_iff.1 hout
    have hg : some g' = some g := h.2.1.symm.trans hgate
    cases hg
    exact ⟨r, rfl⟩
  · rintro ⟨r, rfl⟩
    exact ⟨h.1, h.2.1⟩

/-- A gate that rejects or abstains alone. -/
theorem single_iff {d : Gate → Sieve.Decision (String × Bool)} {g : Gate}
    (h : (evaluateWindow K w (gateBit g)).Matches ((d g).alone g)) :
    ((evaluateWindow K w (gateBit g)).outcome = .reject ↔ ∃ r, d g = .reject r) ∧
      ((evaluateWindow K w (gateBit g)).outcome = .unavailable ↔ d g = .abstain) := by
  rw [h.unavailable_iff, h.rejected_iff]
  cases d g with
  | pass => exact ⟨⟨nofun, nofun⟩, nofun, nofun⟩
  | abstain => exact ⟨⟨nofun, nofun⟩, fun _ => rfl, fun _ => rfl⟩
  | reject r => exact ⟨⟨fun _ => ⟨r, rfl⟩, fun _ => ⟨g, r, rfl⟩⟩, nofun, nofun⟩

/-- `g` is the first gate of the mask, in the order of the pipeline, that rejects alone. -/
def FirstReject (K : Kernels F) (w : Window F) (mask : Nat) (g : Gate) : Prop :=
  ∃ pre post, pipeline = pre ++ g :: post ∧ enabled mask g = true ∧
    (evaluateWindow K w (gateBit g)).outcome = .reject ∧
    ∀ h ∈ pre, enabled mask h = true → (evaluateWindow K w (gateBit h)).outcome ≠ .reject

theorem firstReject_iff {d : Gate → Sieve.Decision (String × Bool)}
    (hd : ∀ g, (evaluateWindow K w (gateBit g)).Matches ((d g).alone g)) {mask : Nat} {g : Gate} :
    FirstReject K w mask g ↔
      ∃ r, Sieve.settle (Sieve.masked (enabled mask) d) pipeline = .reject g r := by
  constructor
  · rintro ⟨pre, post, hrow, hg, hout, hpre⟩
    obtain ⟨r, hr⟩ := (single_iff (hd g)).1.1 hout
    refine ⟨r, Sieve.settle_eq_reject.2
      ⟨pre, post, hrow, Sieve.masked_eq_reject.2 ⟨hg, hr⟩, fun h hh r' hr' => ?_⟩⟩
    obtain ⟨hon, hdh⟩ := Sieve.masked_eq_reject.1 hr'
    exact hpre h hh hon ((single_iff (hd h)).1.2 ⟨r', hdh⟩)
  · rintro ⟨r, hr⟩
    obtain ⟨pre, post, hrow, hg, hpre⟩ := Sieve.settle_eq_reject.1 hr
    obtain ⟨hon, hdg⟩ := Sieve.masked_eq_reject.1 hg
    refine ⟨pre, post, hrow, hon, (single_iff (hd g)).1.2 ⟨r, hdg⟩, fun h hh hon' hout => ?_⟩
    obtain ⟨r', hr'⟩ := (single_iff (hd h)).1.1 hout
    exact hpre h hh r' (Sieve.masked_eq_reject.2 ⟨hon', hr'⟩)

/-- What ends without a window or with something thrown is unavailable. -/
theorem evaluate_fails_open (R : Reader F) (K : Kernels F) (mask : Nat) :
    (∀ data height refusal, decode R data = .error refusal →
      (evaluate R K data mask height).outcome = .unavailable) ∧
    ∀ (w : Window F) e, evaluateBody K w mask = .error e →
      (evaluateWindow K w mask).outcome = .unavailable := by
  refine ⟨fun data height refusal h => ?_, fun w e h => ?_⟩
  · unfold evaluate
    rw [h]
  · unfold evaluateWindow
    rw [h]

/-- **Gate masks compose and fail open.**  The last two parts hold whatever the rules throw. -/
theorem gates_compose (hK : K.Total) (w : Window F) (mask : Nat)
    (hm : ∃ g, enabled mask g = true) :
    (∀ g, ((evaluateWindow K w mask).outcome = .reject ∧
        (evaluateWindow K w mask).gate = some g) ↔ FirstReject K w mask g) ∧
    (∀ g, FirstReject K w mask g →
      (evaluateWindow K w mask).reason = (evaluateWindow K w (gateBit g)).reason ∧
      (evaluateWindow K w mask).ruleset5TierWithheld
        = (evaluateWindow K w (gateBit g)).ruleset5TierWithheld ∧
      (evaluateWindow K w mask).gate = (evaluateWindow K w (gateBit g)).gate) ∧
    ((∀ g, enabled mask g = true → (evaluateWindow K w (gateBit g)).outcome ≠ .reject) →
      ((evaluateWindow K w mask).outcome = .unavailable ↔
        ∃ g, enabled mask g = true ∧ (evaluateWindow K w (gateBit g)).outcome = .unavailable) ∧
      ((evaluateWindow K w mask).outcome = .pass ↔
        ¬ ∃ g, enabled mask g = true ∧
          (evaluateWindow K w (gateBit g)).outcome = .unavailable)) ∧
    (∀ (c₀ : Ctx F) (gs : List Gate) (g : Gate), ∃ c r c₁ c₂, afterGates K gs c₀ = .ok c ∧
      g.check K c = .ok (r, c₁) ∧ g.check K c₀ = .ok (r, c₂)) ∧
    (∀ (R : Reader F) (K' : Kernels F) data mask' height refusal,
      decode R data = .error refusal →
      (evaluate R K' data mask' height).outcome = .unavailable) ∧
    ∀ (K' : Kernels F) (w' : Window F) mask' e, evaluateBody K' w' mask' = .error e →
      (evaluateWindow K' w' mask').outcome = .unavailable := by
  obtain ⟨d, hd⟩ := evaluateWindow_settles hK w
  have hmask := hd mask hm
  have hone (g : Gate) : (evaluateWindow K w (gateBit g)).Matches ((d g).alone g) := by
    have := hd (gateBit g) ⟨g, by rw [enabled_gateBit]; exact decide_eq_true rfl⟩
    rwa [settle_single] at this
  refine ⟨fun g => ?_, fun g hg => ?_, fun hno => ?_, fun c₀ gs g => ?_,
    fun R K' data mask' height refusal h => (evaluate_fails_open R K' mask').1 _ _ _ h,
    fun K' w' mask' e h => ?_⟩
  · rw [hmask.reject_iff, firstReject_iff hone]
  · obtain ⟨⟨why, withheld⟩, hr⟩ := (firstReject_iff hone).1 hg
    obtain ⟨-, -, -, hdg, -⟩ := Sieve.settle_eq_reject.1 hr
    have hsingle := hone g
    rw [(Sieve.masked_eq_reject.1 hdg).2] at hsingle
    rw [hr] at hmask
    obtain ⟨-, hgate, hreason, hwith⟩ := hmask
    obtain ⟨-, hgate', hreason', hwith'⟩ := hsingle
    exact ⟨hreason.trans hreason'.symm, hwith.trans hwith'.symm, hgate.trans hgate'.symm⟩
  · rw [hmask.unavailable_iff, hmask.pass_iff]
    have hsilent : ∀ g ∈ pipeline, ∀ r, Sieve.masked (enabled mask) d g ≠ .reject r := by
      intro g _ r hr
      obtain ⟨hon, hdg⟩ := Sieve.masked_eq_reject.1 hr
      exact hno g hon ((single_iff (hone g)).1.2 ⟨r, hdg⟩)
    rcases Sieve.settle_of_no_reject hsilent with ⟨hs, g, -, hg⟩ | ⟨hs, hall⟩
    · have hwho : ∃ g, enabled mask g = true ∧
          (evaluateWindow K w (gateBit g)).outcome = .unavailable := by
        obtain ⟨hon, hdg⟩ := Sieve.masked_eq_abstain.1 hg
        exact ⟨g, hon, (single_iff (hone g)).2.2 hdg⟩
      rw [hs]
      exact ⟨⟨fun _ => hwho, fun _ => rfl⟩, nofun, fun h => absurd hwho h⟩
    · have hnone : ¬ ∃ g, enabled mask g = true ∧
          (evaluateWindow K w (gateBit g)).outcome = .unavailable := by
        rintro ⟨g, hon, hout⟩
        have hg := hall g (mem_pipeline g)
        rw [Sieve.masked_eq_abstain.2 ⟨hon, (single_iff (hone g)).2.1 hout⟩] at hg
        cases hg
      rw [hs]
      exact ⟨⟨nofun, fun h => absurd h hnone⟩, fun _ => hnone, fun _ => rfl⟩
  · have hfresh : c₀.Shared K c₀ := .inl rfl
    obtain ⟨c, hc, hshared⟩ := afterGates_shared hK gs hfresh
    obtain ⟨r, hr⟩ := hK.steady g c₀
    obtain ⟨c₁, h₁, -⟩ := hr c hshared
    obtain ⟨c₂, h₂, -⟩ := hr c₀ hfresh
    exact ⟨c, r, c₁, c₂, hc, h₁, h₂⟩
  · unfold evaluateWindow
    rw [h]

/-- The vendored conditions, tiers and prices, over rows that are read as probabilities. -/
def vendoredKernels : Kernels Pattern :=
  { halvingRules.base.withVendoredTiers.withVendoredPrices with
    computeWindowStructure := fun _ _ _ chosen => .ok (.ok,
      { lower := chosen.map fun _ => 0#32
        upper := chosen.map fun tok => (halvingRow tok).1.headD 0#32
        position := chosen.map fun _ => 0
        creditUnits := chosen.map fun tok => if tok = 50 then 1024 else 0
        bcapUnits := 1024, collisionU := 2 ^ 83, collisionId := 2 ^ 83
        valid := true, candidateComplete := true }, "")
    sunsetWindow := fun rowLen logits _ chosen prompt pad credits =>
      match halvingRules.withVendoredSunset.sunsetEvaluate (splitRows rowLen logits) chosen prompt
          pad credits with
      | .ok (.ok r) => .ok r
      | _ => .ok { status := 4 } }

/-- Copied text with three holes of one bit, then 75 bits of other credit. -/
def holedText : List Nat :=
  List.replicate 126 9 ++ List.replicate 3 7 ++ 50 :: List.replicate 23 7 ++
    50 :: List.replicate 23 7 ++ 50 :: List.replicate 3 7 ++ List.replicate 75 50

def holedWindow : Window Pattern :=
  { rowLen := holedText.map fun tok => (halvingRow tok).1.length
    logits := holedText.flatMap fun tok => (halvingRow tok).1
    ids := holedText.flatMap fun tok => (halvingRow tok).2
    chosen := holedText
    chosenProbs := holedText.map fun tok => (halvingRow tok).1.headD 0#32
    prompt := List.replicate 3 7
    height := 40000 }

/-- All seven gates over a window that only the scaffold gate rejects. -/
theorem gates_compose_scaffold :
    (evaluateWindow vendoredKernels holedWindow 127).outcome = .reject ∧
      (evaluateWindow vendoredKernels holedWindow 127).gate = some .promptScaffold ∧
      FirstReject vendoredKernels holedWindow 127 .promptScaffold := by
  have htotal : vendoredKernels.Total := by
    refine ⟨⟨_, rfl⟩, ⟨_, rfl⟩, fun _ _ _ _ => ⟨_, rfl⟩, fun _ => ⟨_, rfl⟩, fun _ _ _ => ⟨_, rfl⟩,
      fun lens logits ids chosen prompt pad credits => ?_, fun _ => ⟨_, rfl⟩,
      fun _ _ _ _ => ⟨_, rfl⟩, fun _ => ⟨_, rfl⟩, fun _ _ => ⟨_, rfl⟩, fun _ _ => ⟨_, rfl⟩,
      fun _ _ => ⟨_, rfl⟩, fun _ _ _ _ => ⟨_, rfl⟩⟩
    simp only [vendoredKernels]
    split <;> exact ⟨_, rfl⟩
  have hrun : (evaluateWindow vendoredKernels holedWindow 127).outcome = .reject ∧
      (evaluateWindow vendoredKernels holedWindow 127).gate = some .promptScaffold := by
    decide +kernel
  exact ⟨hrun.1, hrun.2,
    ((gates_compose htotal holedWindow 127 ⟨.strict, by decide⟩).1 .promptScaffold).1 hrun⟩

end Precheck
