import Mathlib
import SuprMeow.Library.PiecewiseLinear
import SuprMeow.Library.Words
import SuprMeow.Precheck.CreditTier

/-!
# What a proof costs

The integer prices of the vendored rules, in thousandths, next to the rational prices they stand
for.  The code counts in `uint64_t`; the checks it begins with keep every product within one.

* `interpolatePriceFloor_eq`, `relativePrice_eq` — the curve through the anchors, rounded down;
* `sweep_eq` — one pass finds the largest deficit and the credit before each tail;
* `profilePrice_eq`, `tailFactor_eq` — both factors are the rational ones, rounded down;
* `Later.profileCurve_le`, `Later.tailCurve_le` — credit that arrives later is never cheaper.
-/

set_option autoImplicit false

open PiecewiseLinear (Knot curve chord Rising)

namespace Precheck

namespace PowV4

/-! ## The code -/

/-- `PRICE_W`, and the per-step cap `B_STEP_MAX_UNITS`. -/
def priceW : Nat := 256

def bStepMaxUnits : Nat := 32768

/-- `PRICE_Q`, `PRICE_MIN_P` and `PRICE_MAX_P`. -/
def priceQ : Nat := 1000

def priceMinP : Nat := 1000

def priceMaxP : Nat := 3000

structure PriceAnchor where
  dNum : Nat
  dDen : Nat
  P : Nat

/-- `PRICE_ANCHORS.front()`. -/
def frontAnchor : PriceAnchor := ⟨1, 20, 1000⟩

/-- The rest of `PRICE_ANCHORS`. -/
def laterAnchors : List PriceAnchor := [⟨1, 4, 1350⟩, ⟨3, 4, 3000⟩]

structure PriceAbsEnvelope where
  prefixSteps : Nat
  thresholdUnits : Nat

/-- `PRICE_ABS_ENVELOPES`. -/
def priceAbsEnvelopes : List PriceAbsEnvelope := [⟨192, 20 * 1024⟩, ⟨224, 32 * 1024⟩]

def priceAbsSlopeP : Nat := 2000

structure PriceTailEnvelope where
  tailSteps : Nat
  thresholdUnits : Nat

/-- `PRICE_TAIL_ENVELOPES`. -/
def priceTailEnvelopes : List PriceTailEnvelope := [⟨64, 96 * 1024⟩, ⟨32, 48 * 1024⟩]

def priceTailSlopeP : Nat := 1000

def priceTailMaxP : Nat := 2000

structure ProofPrice where
  P : Nat
  Q : Nat
  deriving DecidableEq

/-- `PRICE_FAIL_CLOSED`. -/
def priceFailClosed : ProofPrice := ⟨0, 0⟩

/-- `InterpolatePriceFloor`. -/
def interpolatePriceFloor (D S : Nat) (lo hi : PriceAnchor) : Nat :=
  let numerator := Word.mul 64 (Word.mul 64 (Word.sub 64 hi.P lo.P)
    (Word.sub 64 (Word.mul 64 D lo.dDen) (Word.mul 64 lo.dNum S))) hi.dDen
  let denominator := Word.mul 64 S
    (Word.sub 64 (Word.mul 64 hi.dNum lo.dDen) (Word.mul 64 lo.dNum hi.dDen))
  Word.add 64 lo.P (numerator / denominator)

/-- The loop over the units: their sum, unless one is above the cap. -/
def sumUnits : List Nat → Nat → Option Nat
  | [], total => some total
  | units :: rest, total =>
    if bStepMaxUnits < units then none else sumUnits rest (Word.add 64 total units)

/-- The checks that `V4ProfilePrice` and `V4TailFactor` begin with. -/
def evidenceTotal (credits : CreditMetrics) : Option Nat :=
  if credits.valid = false then none
  else if credits.stepUnits.length ≠ priceW then none
  else
    match sumUnits credits.stepUnits 0 with
    | none => none
    | some total => if total ≠ credits.totalUnits then none else some total

/-- The pass over the units: what `prefix_at` holds behind it, and `D`. -/
def sweep (total : Nat) : List Nat → Nat → Nat → List Nat → Nat → List Nat × Nat
  | [], _, _, prefixAt, D => (prefixAt, D)
  | units :: rest, i, sum, prefixAt, D =>
    let sum := Word.add 64 sum units
    let t := Word.add 64 i 1
    let prefixAt := List.zipWith (fun e p => if t = e.prefixSteps then sum else p)
      priceAbsEnvelopes prefixAt
    let tTotal := Word.mul 64 t total
    let wPrefix := Word.mul 64 priceW sum
    let D := if wPrefix < tTotal ∧ D < Word.sub 64 tTotal wPrefix then Word.sub 64 tTotal wPrefix
      else D
    sweep total rest t sum prefixAt D

/-- The loop over the segments between the anchors. -/
def anchorPrice (D S : Nat) : PriceAnchor → List PriceAnchor → Nat
  | lo, [] => lo.P
  | lo, hi :: rest =>
    if Word.mul 64 D hi.dDen ≤ Word.mul 64 hi.dNum S then interpolatePriceFloor D S lo hi
    else anchorPrice D S hi rest

def relativePrice (D S : Nat) : Nat :=
  if Word.mul 64 D frontAnchor.dDen ≤ Word.mul 64 frontAnchor.dNum S then frontAnchor.P
  else anchorPrice D S frontAnchor laterAnchors

/-- The price of an absolute envelope. -/
def absPrice (e : PriceAbsEnvelope) (prefixAt : Nat) : Nat :=
  let shortfall :=
    if prefixAt < e.thresholdUnits then Word.sub 64 e.thresholdUnits prefixAt else 0
  Word.add 64 priceMinP (Word.mul 64 priceAbsSlopeP shortfall / e.thresholdUnits)

/-- The larger of two prices, as the loops choose it. -/
def raise (p q : Nat) : Nat := if p < q then q else p

/-- `V4ProfilePrice`. -/
def profilePrice (credits : CreditMetrics) : ProofPrice :=
  match evidenceTotal credits with
  | none => priceFailClosed
  | some total =>
    if total = 0 then ⟨priceMaxP, priceQ⟩
    else
      let S := Word.mul 64 priceW total
      let (prefixAt, D) := sweep total credits.stepUnits 0 0 (priceAbsEnvelopes.map fun _ => 0) 0
      let p := (priceAbsEnvelopes.zip prefixAt).foldl (fun p ep => raise p (absPrice ep.1 ep.2))
        (relativePrice D S)
      let p := if p < priceMinP then priceMinP else p
      ⟨if priceMaxP < p then priceMaxP else p, priceQ⟩

/-- The price of a tail. -/
def tailPrice (e : PriceTailEnvelope) (bTail : Nat) : Nat :=
  let excess := if e.thresholdUnits < bTail then Word.sub 64 bTail e.thresholdUnits else 0
  Word.add 64 priceMinP (Word.mul 64 priceTailSlopeP excess / e.thresholdUnits)

/-- `V4TailFactor`; 0 is no factor. -/
def tailFactor (credits : CreditMetrics) : Nat :=
  match evidenceTotal credits with
  | none => 0
  | some _ =>
    let late := priceTailEnvelopes.foldl (fun p e =>
      raise p (tailPrice e ((credits.stepUnits.drop (priceW - e.tailSteps)).foldl (Word.add 64) 0)))
      priceMinP
    if priceTailMaxP < late then priceTailMaxP else late

/-! ## The rational prices -/

/-- The credit of the first `t` steps. -/
def creditAt (c : List Nat) (t : Nat) : Nat := (c.take t).sum

/-- How far the credit is behind the steps after `t` of them. -/
def lag (c : List Nat) (t : Nat) : ℚ := t / priceW - creditAt c t / c.sum

def deficit (c : List Nat) : ℚ :=
  (Finset.range (priceW + 1)).sup' ⟨0, Finset.mem_range.2 (Nat.succ_pos _)⟩ (lag c)

/-- An anchor as a point of the curve. -/
def PriceAnchor.knot (a : PriceAnchor) : Knot ℚ := ⟨a.dNum / a.dDen, a.P⟩

/-- The price of a relative deficit. -/
def relativeCurve (d : ℚ) : ℚ := curve frontAnchor.knot (laterAnchors.map PriceAnchor.knot) d

/-- The price of the credit that is missing before a tail. -/
def shortfallPrice (c : List Nat) (e : PriceAbsEnvelope) : ℚ :=
  priceMinP + priceAbsSlopeP * max 0 ((e.thresholdUnits : ℚ) - creditAt c e.prefixSteps) /
    e.thresholdUnits

/-- The price of the credit in a tail. -/
def excessPrice (c : List Nat) (e : PriceTailEnvelope) : ℚ :=
  priceMinP + priceTailSlopeP *
    max 0 (((c.sum : ℚ) - creditAt c (priceW - e.tailSteps)) - e.thresholdUnits) / e.thresholdUnits

def profileCurve (c : List Nat) : ℚ :=
  min priceMaxP (max priceMinP
    (priceAbsEnvelopes.foldl (fun p e => max p (shortfallPrice c e)) (relativeCurve (deficit c))))

def tailCurve (c : List Nat) : ℚ :=
  min priceTailMaxP (priceTailEnvelopes.foldl (fun p e => max p (excessPrice c e)) priceMinP)

/-! ## Evidence -/

/-- A unit vector that is priced. -/
structure Evidence (c : List Nat) : Prop where
  length : c.length = priceW
  cap : ∀ u ∈ c, u ≤ bStepMaxUnits

theorem sumUnits_eq_some {c : List Nat} {s r : Nat} (hs : s + bStepMaxUnits * c.length < 2 ^ 64) :
    sumUnits c s = some r ↔ (∀ u ∈ c, u ≤ bStepMaxUnits) ∧ r = s + c.sum := by
  induction c generalizing s with
  | nil => simp [sumUnits, eq_comm]
  | cons u c ih =>
    rw [List.length_cons, Nat.mul_succ] at hs
    unfold sumUnits
    split
    · rename_i hu
      simp [not_le.2 hu]
    · rename_i hu
      have hadd : Word.add 64 s u = s + u := Word.add_eq (by omega)
      rw [hadd, ih (by omega), List.forall_mem_cons, List.sum_cons, Nat.add_assoc,
        and_iff_right (not_lt.1 hu)]

/-- What the checks let through. -/
theorem evidenceTotal_eq_some {credits : CreditMetrics} {total : Nat} :
    evidenceTotal credits = some total ↔
      credits.valid = true ∧ Evidence credits.stepUnits ∧
        credits.totalUnits = credits.stepUnits.sum ∧ total = credits.stepUnits.sum := by
  unfold evidenceTotal
  by_cases hv : credits.valid = true
  · by_cases hl : credits.stepUnits.length = priceW
    · have hsum := @sumUnits_eq_some credits.stepUnits 0
      rw [hl] at hsum
      have hiff := fun r => @hsum r (by unfold bStepMaxUnits priceW; omega)
      rw [if_neg (by simp [hv]), if_neg (by simp [hl])]
      cases hs : sumUnits credits.stepUnits 0 with
      | none =>
        have hno : ¬ Evidence credits.stepUnits := by
          intro he
          have := (hiff _).2 ⟨he.cap, rfl⟩
          rw [hs] at this
          simp at this
        simp [hno]
      | some r =>
        obtain ⟨hcap, hr⟩ := (hiff r).1 hs
        rw [Nat.zero_add] at hr
        have he : Evidence credits.stepUnits := ⟨hl, hcap⟩
        simp only [hv, he, hr, true_and]
        split
        · rename_i hne
          simp [Ne.symm hne]
        · rename_i heq
          simp [not_not.1 heq, eq_comm]
    · have hno : ¬ Evidence credits.stepUnits := fun he => hl he.length
      simp [hv, hl, hno]
  · simp [hv]

namespace Evidence

variable {c : List Nat} (h : Evidence c)

include h

theorem sum_le : c.sum ≤ 2 ^ 23 := by
  have hle := List.sum_le_card_nsmul c bStepMaxUnits h.cap
  rw [h.length] at hle
  exact hle

omit h in
theorem creditAt_le_sum (t : Nat) : creditAt c t ≤ c.sum := by
  have hsplit := List.sum_take_add_sum_drop c t
  unfold creditAt
  omega

theorem creditAt_le (t : Nat) : creditAt c t ≤ 2 ^ 23 := (creditAt_le_sum t).trans h.sum_le

omit h in
theorem creditAt_succ {t : Nat} (ht : t < c.length) :
    creditAt c (t + 1) = creditAt c t + c.get ⟨t, ht⟩ := by
  unfold creditAt
  rw [List.take_succ_eq_append_getElem ht, List.sum_append, List.sum_singleton, List.get_eq_getElem]

omit h in
/-- The sum of the last units. -/
theorem sum_drop (t : Nat) : (c.drop t).sum = c.sum - creditAt c t := by
  have hsplit := List.sum_take_add_sum_drop c t
  unfold creditAt
  omega

end Evidence

/-! ## The pass over the units -/

/-- How far the credit is behind, in parts of `priceW * c.sum`. -/
def gap (c : List Nat) (t : Nat) : Nat := t * c.sum - priceW * creditAt c t

theorem sweep_step {c : List Nat} (h : Evidence c) : ∀ (rest : List Nat) (i : Nat), i ≤ priceW →
    rest = c.drop i →
      sweep c.sum rest i (creditAt c i)
          (priceAbsEnvelopes.map fun e => if e.prefixSteps ≤ i then creditAt c e.prefixSteps else 0)
          ((Finset.range (i + 1)).sup (gap c)) =
        (priceAbsEnvelopes.map fun e =>
            if e.prefixSteps ≤ priceW then creditAt c e.prefixSteps else 0,
          (Finset.range (priceW + 1)).sup (gap c))
  | [], i, hi, hrest => by
    have hlen := congrArg List.length hrest
    rw [List.length_drop, h.length, List.length_nil] at hlen
    have heq : i = priceW := by omega
    subst heq
    rfl
  | units :: rest, i, hi, hrest => by
    have hlt : i < c.length := by
      have hlen := congrArg List.length hrest
      rw [List.length_drop, List.length_cons] at hlen
      omega
    obtain ⟨hu, htail⟩ := List.cons_eq_cons.1 (hrest.trans (List.drop_eq_getElem_cons hlt))
    have hlt' := hlt
    rw [h.length] at hlt'
    have hsum : Word.add 64 (creditAt c i) units = creditAt c (i + 1) := by
      rw [Evidence.creditAt_succ hlt, hu]
      have := h.creditAt_le i
      have := h.cap _ (List.getElem_mem hlt)
      exact Word.add_eq (by unfold bStepMaxUnits at this; omega)
    have ht : Word.add 64 i 1 = i + 1 := Word.add_eq (by unfold priceW at hi; omega)
    have htt : (i + 1) * c.sum ≤ 256 * 2 ^ 23 := Nat.mul_le_mul hlt' h.sum_le
    have hwp : priceW * creditAt c (i + 1) ≤ 256 * 2 ^ 23 :=
      Nat.mul_le_mul le_rfl (h.creditAt_le _)
    unfold sweep
    dsimp only
    rw [hsum, ht, Word.mul_eq (lt_of_le_of_lt htt (by omega)),
      Word.mul_eq (lt_of_le_of_lt hwp (by omega))]
    have hsup : (if priceW * creditAt c (i + 1) < (i + 1) * c.sum ∧
          (Finset.range (i + 1)).sup (gap c) <
            Word.sub 64 ((i + 1) * c.sum) (priceW * creditAt c (i + 1)) then
          Word.sub 64 ((i + 1) * c.sum) (priceW * creditAt c (i + 1))
        else (Finset.range (i + 1)).sup (gap c)) = (Finset.range (i + 1 + 1)).sup (gap c) := by
      have hmax : (Finset.range (i + 1 + 1)).sup (gap c) =
          max (gap c (i + 1)) ((Finset.range (i + 1)).sup (gap c)) := by
        rw [Finset.range_add_one, Finset.sup_insert]
      rw [hmax]
      have hgap : gap c (i + 1) = (i + 1) * c.sum - priceW * creditAt c (i + 1) := rfl
      by_cases hpos : priceW * creditAt c (i + 1) < (i + 1) * c.sum
      · rw [Word.sub_eq hpos.le (by omega), ← hgap]
        split <;> omega
      · rw [if_neg fun hn => hpos hn.1]
        omega
    have hat : List.zipWith (fun e p => if i + 1 = e.prefixSteps then creditAt c (i + 1) else p)
          priceAbsEnvelopes
          (priceAbsEnvelopes.map fun e =>
            if e.prefixSteps ≤ i then creditAt c e.prefixSteps else 0) =
        priceAbsEnvelopes.map fun e =>
          if e.prefixSteps ≤ i + 1 then creditAt c e.prefixSteps else 0 := by
      rw [List.zipWith_map_right, List.zipWith_self]
      apply List.map_congr_left
      intro e _
      by_cases he : i + 1 = e.prefixSteps
      · rw [if_pos he, if_pos he.ge, he]
      · rw [if_neg he]
        have hiff : e.prefixSteps ≤ i ↔ e.prefixSteps ≤ i + 1 := by omega
        simp only [hiff]
    rw [hsup, hat]
    exact sweep_step h rest (i + 1) hlt' htail

/-- **One pass finds both**: the credit before each envelope and the largest deficit. -/
theorem sweep_eq {c : List Nat} (h : Evidence c) :
    sweep c.sum c 0 0 (priceAbsEnvelopes.map fun _ => 0) 0 =
      (priceAbsEnvelopes.map fun e => creditAt c e.prefixSteps,
        (Finset.range (priceW + 1)).sup (gap c)) := by
  have hstep := sweep_step h c 0 (Nat.zero_le _) rfl
  have hgap : gap c 0 = 0 := by
    unfold gap
    rw [Nat.zero_mul, Nat.zero_sub]
  have hzero : (Finset.range (0 + 1)).sup (gap c) = 0 := by
    rw [Finset.range_one, Finset.sup_singleton, hgap]
  rw [hzero] at hstep
  exact hstep

/-- The deficit as the fraction the code compares. -/
theorem deficit_eq {c : List Nat} (hpos : 0 < c.sum) :
    deficit c = ((Finset.range (priceW + 1)).sup (gap c) : Nat) / (priceW * c.sum : Nat) := by
  have hB : (0 : ℚ) < c.sum := by exact_mod_cast hpos
  have hW : (0 : ℚ) < priceW := by
    unfold priceW
    norm_num
  have hS : (0 : ℚ) < (priceW * c.sum : Nat) := by
    rw [Nat.cast_mul]
    exact mul_pos hW hB
  have hlag : ∀ t,
      lag c t = ((t * c.sum : ℚ) - priceW * creditAt c t) / (priceW * c.sum : Nat) := by
    intro t
    unfold lag
    rw [Nat.cast_mul]
    field_simp
  apply le_antisymm
  · apply Finset.sup'_le
    intro t ht
    rw [hlag]
    apply div_le_div_of_nonneg_right _ hS.le
    have hle : gap c t ≤ (Finset.range (priceW + 1)).sup (gap c) := Finset.le_sup ht
    have hcast : (t * c.sum : ℚ) - priceW * creditAt c t ≤ gap c t := by
      have hnat : t * c.sum ≤ gap c t + priceW * creditAt c t := by
        unfold gap
        omega
      have hq : (t * c.sum : ℚ) ≤ gap c t + priceW * creditAt c t := by exact_mod_cast hnat
      linarith
    exact hcast.trans (by exact_mod_cast hle)
  · obtain ⟨t, ht, heq⟩ := Finset.exists_mem_eq_sup (Finset.range (priceW + 1))
      ⟨0, Finset.mem_range.2 (Nat.succ_pos _)⟩ (gap c)
    rw [heq]
    by_cases hgap : gap c t = 0
    · have hzero : lag c 0 = 0 := by
        unfold lag creditAt
        simp
      rw [hgap, Nat.cast_zero, zero_div, ← hzero]
      exact Finset.le_sup' (lag c) (Finset.mem_range.2 (Nat.succ_pos _))
    · have hcast : (gap c t : ℚ) = t * c.sum - priceW * creditAt c t := by
        have hnat : gap c t + priceW * creditAt c t = t * c.sum := by
          unfold gap at hgap ⊢
          omega
        have hq : (gap c t : ℚ) + priceW * creditAt c t = t * c.sum := by exact_mod_cast hnat
        linarith
      rw [hcast, ← hlag]
      exact Finset.le_sup' (lag c) ht

/-! ## The curve through the anchors -/

/-- Neighbours the code can interpolate between without wrapping around. -/
structure AnchorsFit (lo hi : PriceAnchor) : Prop where
  den : 0 < lo.dDen ∧ lo.dDen ≤ 20
  den' : 0 < hi.dDen ∧ hi.dDen ≤ 20
  num : lo.dNum ≤ 20 ∧ hi.dNum ≤ 20
  apart : lo.dNum * hi.dDen < hi.dNum * lo.dDen
  dearer : lo.P ≤ hi.P
  cap : hi.P ≤ priceMaxP

theorem anchorsFit : List.IsChain AnchorsFit (frontAnchor :: laterAnchors) := by
  refine .cons_cons ⟨?_, ?_, ?_, ?_, ?_, ?_⟩
    (.cons_cons ⟨?_, ?_, ?_, ?_, ?_, ?_⟩ (.singleton _)) <;>
    decide

/-- The comparison with an anchor, and with its knot. -/
theorem le_knot_iff {a : PriceAnchor} (ha : 0 < a.dDen) {D S : Nat} (hS : 0 < S) :
    (D : ℚ) / S ≤ a.knot.x ↔ D * a.dDen ≤ a.dNum * S := by
  have hS' : (0 : ℚ) < S := by exact_mod_cast hS
  have ha' : (0 : ℚ) < a.dDen := by exact_mod_cast ha
  unfold PriceAnchor.knot
  rw [div_le_div_iff₀ hS' ha']
  exact_mod_cast Iff.rfl

/-- The line between two anchors over the denominator of the code. -/
theorem chord_knot {lo hi : PriceAnchor} (h : AnchorsFit lo hi) {D S : Nat} (hS : 0 < S)
    (hlo : lo.dNum * S ≤ D * lo.dDen) :
    chord lo.knot hi.knot ((D : ℚ) / S) = lo.P +
      (((hi.P - lo.P) * (D * lo.dDen - lo.dNum * S) * hi.dDen : Nat) : ℚ) /
        (S * (hi.dNum * lo.dDen - lo.dNum * hi.dDen) : Nat) := by
  have hS' : (S : ℚ) ≠ 0 := by exact_mod_cast hS.ne'
  have hl : (lo.dDen : ℚ) ≠ 0 := by exact_mod_cast h.den.1.ne'
  have hh : (hi.dDen : ℚ) ≠ 0 := by exact_mod_cast h.den'.1.ne'
  have hwide : (hi.dNum : ℚ) * lo.dDen - lo.dNum * hi.dDen ≠ 0 := by
    have : (lo.dNum * hi.dDen : ℚ) < hi.dNum * lo.dDen := by exact_mod_cast h.apart
    exact (sub_pos.2 this).ne'
  have hx : hi.knot.x - lo.knot.x =
      (hi.dNum * lo.dDen - lo.dNum * hi.dDen) / (hi.dDen * lo.dDen : ℚ) := by
    unfold PriceAnchor.knot
    field_simp
  have hd : (D : ℚ) / S - lo.knot.x = (D * lo.dDen - lo.dNum * S) / (S * lo.dDen : ℚ) := by
    unfold PriceAnchor.knot
    field_simp
  unfold chord
  rw [hx, hd, Nat.cast_mul, Nat.cast_mul, Nat.cast_sub h.dearer, Nat.cast_sub hlo, Nat.cast_mul S,
    Nat.cast_sub h.apart.le]
  push_cast
  show (lo.P : ℚ) + (hi.P - lo.P) * _ / _ = _
  field_simp

/-- **The interpolation is the line between the anchors, rounded down.** -/
theorem interpolatePriceFloor_eq {lo hi : PriceAnchor} (h : AnchorsFit lo hi) {D S : Nat}
    (hS : 0 < S) (hSle : S ≤ 2 ^ 31) (hD : D ≤ 2 ^ 31) (hlo : lo.dNum * S ≤ D * lo.dDen) :
    interpolatePriceFloor D S lo hi = ⌊chord lo.knot hi.knot ((D : ℚ) / S)⌋₊ := by
  have hfit := h
  obtain ⟨⟨-, hl⟩, ⟨-, hh⟩, ⟨hn, hn'⟩, hapart, hdear, hcap⟩ := hfit
  unfold priceMaxP at hcap
  have b1 : D * lo.dDen ≤ 2 ^ 31 * 20 := Nat.mul_le_mul hD hl
  have b2 : hi.dNum * lo.dDen ≤ 20 * 20 := Nat.mul_le_mul hn' hl
  have b3 : (hi.P - lo.P) * (D * lo.dDen - lo.dNum * S) ≤ 3000 * (2 ^ 31 * 20) :=
    Nat.mul_le_mul (by omega) (by omega)
  have b4 : (hi.P - lo.P) * (D * lo.dDen - lo.dNum * S) * hi.dDen ≤ 3000 * (2 ^ 31 * 20) * 20 :=
    Nat.mul_le_mul b3 hh
  have b5 : S * (hi.dNum * lo.dDen - lo.dNum * hi.dDen) ≤ 2 ^ 31 * (20 * 20) :=
    Nat.mul_le_mul hSle (by omega)
  have b6 := Nat.div_le_self ((hi.P - lo.P) * (D * lo.dDen - lo.dNum * S) * hi.dDen)
    (S * (hi.dNum * lo.dDen - lo.dNum * hi.dDen))
  unfold interpolatePriceFloor
  dsimp only
  rw [Word.mul_eq (a := D) (by omega), Word.mul_eq (a := lo.dNum) (b := S) (by omega),
    Word.mul_eq (a := hi.dNum) (by omega), Word.mul_eq (a := lo.dNum) (b := hi.dDen) (by omega),
    Word.sub_eq hdear (by omega), Word.sub_eq hlo (by omega), Word.sub_eq hapart.le (by omega),
    Word.mul_eq (a := hi.P - lo.P) (by omega), Word.mul_eq (b := hi.dDen) (by omega),
    Word.mul_eq (a := S) (by omega), Word.add_eq (by omega)]
  rw [chord_knot h hS hlo, add_comm (lo.P : ℚ), Nat.floor_add_natCast (by positivity),
    Nat.floor_div_eq_div, Nat.add_comm]

/-- **The loop over the segments finds the curve, rounded down.** -/
theorem anchorPrice_eq {D S : Nat} (hS : 0 < S) (hSle : S ≤ 2 ^ 31) (hD : D ≤ 2 ^ 31) :
    ∀ (rest : List PriceAnchor) (lo : PriceAnchor), List.IsChain AnchorsFit (lo :: rest) →
      ¬ (D : ℚ) / S ≤ lo.knot.x → lo.dNum * S ≤ D * lo.dDen →
        anchorPrice D S lo rest = ⌊curve lo.knot (rest.map PriceAnchor.knot) ((D : ℚ) / S)⌋₊
  | [], lo, _, _, _ => (Nat.floor_natCast lo.P).symm
  | hi :: rest, lo, hchain, hbehind, hlo => by
    obtain ⟨hfit, hchain⟩ := List.isChain_cons_cons.1 hchain
    have hn : hi.dNum * S ≤ 20 * 2 ^ 31 := Nat.mul_le_mul hfit.num.2 hSle
    have hd : D * hi.dDen ≤ 2 ^ 31 * 20 := Nat.mul_le_mul hD hfit.den'.2
    unfold anchorPrice
    rw [List.map_cons, curve, if_neg hbehind, Word.mul_eq (by omega), Word.mul_eq (by omega)]
    by_cases hle : D * hi.dDen ≤ hi.dNum * S
    · rw [if_pos hle, if_pos ((le_knot_iff hfit.den'.1 hS).2 hle)]
      exact interpolatePriceFloor_eq hfit hS hSle hD hlo
    · have hgt := fun h => hle ((le_knot_iff hfit.den'.1 hS).1 h)
      rw [if_neg hle, if_neg hgt]
      exact anchorPrice_eq hS hSle hD rest hi hchain hgt (not_le.1 hle).le

theorem relativePrice_eq {D S : Nat} (hS : 0 < S) (hSle : S ≤ 2 ^ 31) (hD : D ≤ 2 ^ 31) :
    relativePrice D S = ⌊relativeCurve ((D : ℚ) / S)⌋₊ := by
  have hfront := @le_knot_iff frontAnchor (by decide) D S hS
  have hd : D * frontAnchor.dDen ≤ 2 ^ 31 * 20 := Nat.mul_le_mul hD (by decide)
  have hn : frontAnchor.dNum * S ≤ 20 * 2 ^ 31 := Nat.mul_le_mul (by decide) hSle
  unfold relativePrice relativeCurve
  rw [Word.mul_eq (by omega), Word.mul_eq (by omega)]
  split
  · rename_i hle
    rw [laterAnchors, List.map_cons, curve, if_pos (hfront.2 hle)]
    exact (Nat.floor_natCast frontAnchor.P).symm
  · rename_i hgt
    exact anchorPrice_eq hS hSle hD laterAnchors frontAnchor anchorsFit
      (fun h => hgt (hfront.1 h)) (not_le.1 hgt).le

/-! ## The envelopes -/

theorem raise_eq (p q : Nat) : raise p q = max p q := by
  unfold raise
  split <;> omega

/-- Truncated subtraction as a rational. -/
theorem cast_tsub (a b : Nat) : ((a - b : Nat) : ℚ) = max 0 ((a : ℚ) - b) := by
  rcases le_total b a with h | h
  · have hq : (b : ℚ) ≤ a := by exact_mod_cast h
    rw [Nat.cast_sub h, max_eq_right (sub_nonneg.2 hq)]
  · have hq : (a : ℚ) ≤ b := by exact_mod_cast h
    rw [Nat.sub_eq_zero_of_le h, max_eq_left (sub_nonpos.2 hq), Nat.cast_zero]

/-- A slope over a threshold, rounded down. -/
theorem floor_slope (base slope x θ : Nat) :
    ⌊(base : ℚ) + slope * (x : ℚ) / θ⌋₊ = base + slope * x / θ := by
  have hcast : (slope : ℚ) * x / θ = (slope * x : Nat) / θ := by push_cast; rfl
  rw [hcast, add_comm, Nat.floor_add_natCast (by positivity), Nat.floor_div_eq_div, Nat.add_comm]

/-- Rounding down the largest of several prices. -/
theorem floor_foldl_max {α : Type} (f : α → ℚ) (l : List α) (p : ℚ) :
    ⌊l.foldl (fun p e => max p (f e)) p⌋₊ = l.foldl (fun p e => max p ⌊f e⌋₊) ⌊p⌋₊ := by
  induction l generalizing p with
  | nil => rfl
  | cons e l ih =>
    rw [List.foldl_cons, List.foldl_cons, ih, Nat.floor_mono.map_max]

theorem foldl_add {l : List Nat} {s : Nat} (h : s + l.sum < 2 ^ 64) :
    l.foldl (Word.add 64) s = s + l.sum := by
  induction l generalizing s with
  | nil => rfl
  | cons u l ih =>
    rw [List.sum_cons] at h
    rw [List.foldl_cons, Word.add_eq (by omega), ih (by omega), List.sum_cons, Nat.add_assoc]

/-- Thresholds whose slopes stay within a word. -/
theorem absPrice_eq {c : List Nat} {e : PriceAbsEnvelope} (he : e.thresholdUnits ≤ 2 ^ 17) :
    absPrice e (creditAt c e.prefixSteps) = ⌊shortfallPrice c e⌋₊ := by
  have hshort : (if creditAt c e.prefixSteps < e.thresholdUnits then
      Word.sub 64 e.thresholdUnits (creditAt c e.prefixSteps) else 0) =
      e.thresholdUnits - creditAt c e.prefixSteps := by
    split
    · rename_i hlt
      exact Word.sub_eq hlt.le (by omega)
    · omega
  have hdiv := Nat.div_le_self
    (priceAbsSlopeP * (e.thresholdUnits - creditAt c e.prefixSteps)) e.thresholdUnits
  unfold absPrice shortfallPrice
  dsimp only
  rw [hshort, ← cast_tsub, floor_slope]
  unfold priceAbsSlopeP priceMinP at *
  rw [Word.mul_eq (by omega), Word.add_eq (by omega)]

theorem tailPrice_eq {c : List Nat} (hsum : c.sum ≤ 2 ^ 23) {e : PriceTailEnvelope} :
    tailPrice e ((c.drop (priceW - e.tailSteps)).foldl (Word.add 64) 0) = ⌊excessPrice c e⌋₊ := by
  have hle := Evidence.creditAt_le_sum (c := c) (priceW - e.tailSteps)
  have hfold : (c.drop (priceW - e.tailSteps)).foldl (Word.add 64) 0 =
      c.sum - creditAt c (priceW - e.tailSteps) := by
    rw [foldl_add (by rw [Evidence.sum_drop]; omega), Evidence.sum_drop, Nat.zero_add]
  have hcast : ((c.sum : ℚ) - creditAt c (priceW - e.tailSteps)) =
      (c.sum - creditAt c (priceW - e.tailSteps) : Nat) := (Nat.cast_sub hle).symm
  have hex : (if e.thresholdUnits < c.sum - creditAt c (priceW - e.tailSteps) then
      Word.sub 64 (c.sum - creditAt c (priceW - e.tailSteps)) e.thresholdUnits else 0) =
      c.sum - creditAt c (priceW - e.tailSteps) - e.thresholdUnits := by
    split
    · rename_i hlt
      exact Word.sub_eq hlt.le (by omega)
    · omega
  have hdiv := Nat.div_le_self (priceTailSlopeP *
    (c.sum - creditAt c (priceW - e.tailSteps) - e.thresholdUnits)) e.thresholdUnits
  unfold tailPrice excessPrice
  dsimp only
  rw [hfold, hex, hcast, ← cast_tsub, floor_slope]
  unfold priceTailSlopeP priceMinP at *
  rw [Word.mul_eq (by omega), Word.add_eq (by omega)]

/-! ## The factors -/

/-- Credit metrics that have a price. -/
structure Priceable (credits : CreditMetrics) : Prop where
  valid : credits.valid = true
  evidence : Evidence credits.stepUnits
  total : credits.totalUnits = credits.stepUnits.sum

instance (credits : CreditMetrics) : Decidable (Priceable credits) :=
  decidable_of_iff (credits.valid = true ∧ (credits.stepUnits.length = priceW ∧
      ∀ u ∈ credits.stepUnits, u ≤ bStepMaxUnits) ∧
        credits.totalUnits = credits.stepUnits.sum)
    ⟨fun h => ⟨h.1, ⟨h.2.1.1, h.2.1.2⟩, h.2.2⟩,
      fun h => ⟨h.valid, ⟨h.evidence.length, h.evidence.cap⟩, h.total⟩⟩

theorem evidenceTotal_of_priceable {credits : CreditMetrics} (h : Priceable credits) :
    evidenceTotal credits = some credits.stepUnits.sum :=
  evidenceTotal_eq_some.2 ⟨h.valid, h.evidence, h.total, rfl⟩

theorem evidenceTotal_of_not {credits : CreditMetrics} (h : ¬ Priceable credits) :
    evidenceTotal credits = none := by
  cases htot : evidenceTotal credits with
  | none => rfl
  | some total =>
    obtain ⟨hv, he, ht, -⟩ := evidenceTotal_eq_some.1 htot
    exact absurd ⟨hv, he, ht⟩ h

theorem rising_knots : Rising frontAnchor.knot (laterAnchors.map PriceAnchor.knot) := by
  unfold Rising PriceAnchor.knot frontAnchor laterAnchors
  norm_num [Rising]

theorem relativeCurve_monotone : Monotone relativeCurve :=
  PiecewiseLinear.curve_monotone rising_knots

theorem le_foldl_max {α : Type} (f : α → ℚ) (l : List α) (p : ℚ) :
    p ≤ l.foldl (fun p e => max p (f e)) p := by
  induction l generalizing p with
  | nil => exact le_rfl
  | cons e l ih => exact (le_max_left _ _).trans (ih _)

/-- Without any credit the whole window is behind: the price is the cap. -/
theorem profileCurve_of_sum_eq_zero {c : List Nat} (h : c.sum = 0) :
    profileCurve c = priceMaxP := by
  have hlag : lag c priceW = 1 := by
    unfold lag priceW
    rw [h]
    norm_num
  have hdef : 1 ≤ deficit c := by
    rw [← hlag]
    exact Finset.le_sup' (lag c) (Finset.mem_range.2 (Nat.lt_succ_self _))
  have hone : relativeCurve 1 = priceMaxP := by
    unfold relativeCurve laterAnchors frontAnchor PriceAnchor.knot priceMaxP
    norm_num [curve]
  have hfold := le_foldl_max (shortfallPrice c) priceAbsEnvelopes (relativeCurve (deficit c))
  have hrel := relativeCurve_monotone hdef
  rw [hone] at hrel
  exact min_eq_left ((hrel.trans hfold).trans (le_max_right _ _))

/-- **The profile price is the rational one, rounded down to the thousandth**, and there is none for
any other evidence. -/
theorem profilePrice_eq (credits : CreditMetrics) :
    profilePrice credits =
      if Priceable credits then ⟨⌊profileCurve credits.stepUnits⌋₊, priceQ⟩
      else priceFailClosed := by
  unfold profilePrice
  by_cases hp : Priceable credits
  · have he := hp.evidence
    rw [evidenceTotal_of_priceable hp, if_pos hp]
    dsimp only
    split
    · rename_i hzero
      rw [profileCurve_of_sum_eq_zero hzero, Nat.floor_natCast]
    · rename_i hzero
      have hpos := Nat.pos_of_ne_zero hzero
      have hsum := he.sum_le
      have hS : Word.mul 64 priceW credits.stepUnits.sum = priceW * credits.stepUnits.sum :=
        Word.mul_eq (by unfold priceW; omega)
      have hD : (Finset.range (priceW + 1)).sup (gap credits.stepUnits) ≤ 2 ^ 31 := by
        apply Finset.sup_le
        intro t ht
        have ht' : t ≤ 256 := Nat.lt_succ_iff.1 (Finset.mem_range.1 ht)
        have := Nat.mul_le_mul ht' hsum
        unfold gap
        omega
      have hrel := @relativePrice_eq ((Finset.range (priceW + 1)).sup (gap credits.stepUnits))
        (priceW * credits.stepUnits.sum) (Nat.mul_pos (by decide) hpos)
        (by unfold priceW; omega) hD
      rw [← deficit_eq hpos] at hrel
      have habs : ∀ e ∈ priceAbsEnvelopes, absPrice e (creditAt credits.stepUnits e.prefixSteps) =
          ⌊shortfallPrice credits.stepUnits e⌋₊ := by
        intro e hmem
        apply absPrice_eq
        revert e
        decide
      have hfold := floor_foldl_max (shortfallPrice credits.stepUnits) priceAbsEnvelopes
        (relativeCurve (deficit credits.stepUnits))
      rw [hS, sweep_eq he]
      dsimp only
      have hloop : (priceAbsEnvelopes.zip (priceAbsEnvelopes.map fun e =>
          creditAt credits.stepUnits e.prefixSteps)).foldl
            (fun p ep => raise p (absPrice ep.1 ep.2))
          (relativePrice ((Finset.range (priceW + 1)).sup (gap credits.stepUnits))
            (priceW * credits.stepUnits.sum)) =
          ⌊priceAbsEnvelopes.foldl (fun p e => max p (shortfallPrice credits.stepUnits e))
            (relativeCurve (deficit credits.stepUnits))⌋₊ := by
        rw [hfold, hrel, List.zip_map_right, List.foldl_map, List.zip_eq_zipWith,
          List.zipWith_self, List.foldl_map]
        apply List.foldl_ext
        intro p e hmem
        rw [raise_eq]
        exact congrArg _ (habs e hmem)
      rw [hloop]
      unfold profileCurve
      rw [Nat.floor_mono.map_min, Nat.floor_mono.map_max, Nat.floor_natCast, Nat.floor_natCast]
      congr 1
      unfold priceMaxP priceMinP
      split <;> split <;> omega
  · rw [evidenceTotal_of_not hp, if_neg hp]

/-- **The tail factor is the rational one, rounded down to the thousandth.** -/
theorem tailFactor_eq (credits : CreditMetrics) :
    tailFactor credits =
      if Priceable credits then ⌊tailCurve credits.stepUnits⌋₊ else 0 := by
  unfold tailFactor
  by_cases hp : Priceable credits
  · have hsum := hp.evidence.sum_le
    have hfold := floor_foldl_max (excessPrice credits.stepUnits) priceTailEnvelopes priceMinP
    rw [evidenceTotal_of_priceable hp, if_pos hp]
    dsimp only
    have hloop : priceTailEnvelopes.foldl (fun p e => raise p (tailPrice e
        ((credits.stepUnits.drop (priceW - e.tailSteps)).foldl (Word.add 64) 0))) priceMinP =
        ⌊priceTailEnvelopes.foldl (fun p e => max p (excessPrice credits.stepUnits e))
          (priceMinP : ℚ)⌋₊ := by
      rw [hfold, Nat.floor_natCast]
      apply List.foldl_ext
      intro p e _
      rw [raise_eq, tailPrice_eq hsum]
    rw [hloop]
    unfold tailCurve
    rw [Nat.floor_mono.map_min, Nat.floor_natCast]
    split <;> omega
  · rw [evidenceTotal_of_not hp, if_neg hp]

/-! ## Late credit -/

/-- The same credit, which arrives later in `c'`. -/
structure Later (c c' : List Nat) : Prop where
  sum : c'.sum = c.sum
  behind : ∀ t, creditAt c' t ≤ creditAt c t

theorem Later.deficit_le {c c' : List Nat} (h : Later c c') : deficit c ≤ deficit c' := by
  apply Finset.sup'_le
  intro t ht
  refine le_trans ?_ (Finset.le_sup' (lag c') ht)
  have hle : (creditAt c' t : ℚ) ≤ creditAt c t := by exact_mod_cast h.behind t
  have hdiv := div_le_div_of_nonneg_right hle (Nat.cast_nonneg (α := ℚ) c.sum)
  unfold lag
  rw [h.sum]
  linarith

theorem foldl_max_le {α : Type} {f g : α → ℚ} {l : List α} (hfg : ∀ e ∈ l, f e ≤ g e) {p q : ℚ}
    (hpq : p ≤ q) :
    l.foldl (fun p e => max p (f e)) p ≤ l.foldl (fun p e => max p (g e)) q := by
  induction l generalizing p q with
  | nil => exact hpq
  | cons e l ih =>
    obtain ⟨he, hl⟩ := List.forall_mem_cons.1 hfg
    exact ih hl (max_le_max hpq he)

theorem Later.shortfallPrice_le {c c' : List Nat} (h : Later c c') (e : PriceAbsEnvelope) :
    shortfallPrice c e ≤ shortfallPrice c' e := by
  have hle : (creditAt c' e.prefixSteps : ℚ) ≤ creditAt c e.prefixSteps := by
    exact_mod_cast h.behind _
  have hmax : max 0 ((e.thresholdUnits : ℚ) - creditAt c e.prefixSteps) ≤
      max 0 ((e.thresholdUnits : ℚ) - creditAt c' e.prefixSteps) :=
    max_le_max le_rfl (sub_le_sub_left hle _)
  unfold shortfallPrice
  gcongr

theorem Later.excessPrice_le {c c' : List Nat} (h : Later c c') (e : PriceTailEnvelope) :
    excessPrice c e ≤ excessPrice c' e := by
  have hle : (creditAt c' (priceW - e.tailSteps) : ℚ) ≤ creditAt c (priceW - e.tailSteps) := by
    exact_mod_cast h.behind _
  have hmax : max 0 ((c.sum : ℚ) - creditAt c (priceW - e.tailSteps) - e.thresholdUnits) ≤
      max 0 ((c.sum : ℚ) - creditAt c' (priceW - e.tailSteps) - e.thresholdUnits) :=
    max_le_max le_rfl (sub_le_sub_right (sub_le_sub_left hle _) _)
  unfold excessPrice
  rw [h.sum]
  gcongr

theorem Later.profileCurve_le {c c' : List Nat} (h : Later c c') :
    profileCurve c ≤ profileCurve c' :=
  min_le_min le_rfl (max_le_max le_rfl
    (foldl_max_le (fun e _ => h.shortfallPrice_le e) (relativeCurve_monotone h.deficit_le)))

theorem Later.tailCurve_le {c c' : List Nat} (h : Later c c') : tailCurve c ≤ tailCurve c' :=
  min_le_min le_rfl (foldl_max_le (fun e _ => h.excessPrice_le e) le_rfl)

/-! ## Bounds -/

theorem profileCurve_mem (c : List Nat) : 1000 ≤ profileCurve c ∧ profileCurve c ≤ 3000 := by
  unfold profileCurve
  have hmax : ((3000 : Nat) : ℚ) = 3000 := by norm_num
  have hmin : ((1000 : Nat) : ℚ) = 1000 := by norm_num
  unfold priceMaxP priceMinP
  rw [hmax, hmin]
  exact ⟨le_min (by norm_num) (le_max_left _ _), min_le_left _ _⟩

theorem tailCurve_mem (c : List Nat) : 1000 ≤ tailCurve c ∧ tailCurve c ≤ 2000 := by
  have hfold := le_foldl_max (excessPrice c) priceTailEnvelopes priceMinP
  have hmax : ((2000 : Nat) : ℚ) = 2000 := by norm_num
  have hmin : ((1000 : Nat) : ℚ) = 1000 := by norm_num
  unfold tailCurve priceTailMaxP
  unfold priceMinP at hfold ⊢
  rw [hmin] at hfold
  rw [hmax, hmin]
  exact ⟨le_min (by norm_num) hfold, min_le_left _ _⟩

end PowV4

end Precheck
