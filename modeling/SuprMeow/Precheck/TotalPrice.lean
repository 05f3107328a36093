import SuprMeow.Precheck.Price

/-!
# The whole price

The price of the credit times that of the structure, under both rulesets, and what a verdict says
of them.

* `structurePrice_eq`, `factors_eq` — every factor is the rational one, rounded down;
* `totalPrice_spec` — when there is a price, its range, and what rounding may cost;
* `ruleset5TotalPrice_spec` — ruleset 5 prices the same proofs, none of them cheaper;
* `totalPrice_later` — credit that arrives later is never cheaper;
* `evaluate_prices` — the prices of every verdict.
-/

set_option autoImplicit false

namespace Precheck

namespace PowV4

/-! ## The code -/

/-- `V4TotalPrice` of the credit alone. -/
def basePrice (credits : CreditMetrics) : ProofPrice :=
  let profile := profilePrice credits
  if profile = priceFailClosed then priceFailClosed
  else
    let late := tailFactor credits
    if late = 0 then priceFailClosed else ⟨Word.mul 64 profile.P late / priceQ, priceQ⟩

/-- `V4TotalPrice`. -/
def totalPrice (credits : CreditMetrics) (sm : StructureMetrics) : ProofPrice :=
  let base := basePrice credits
  if base = priceFailClosed then priceFailClosed
  else
    let p := structurePrice sm
    if p = 0 then priceFailClosed else ⟨Word.mul 64 base.P p / priceQ, priceQ⟩

/-- A factor with twice the charge above 1. -/
def doubled (factor : Nat) : Nat :=
  Word.add 64 priceQ (Word.mul 64 2 (Word.sub 64 factor priceQ))

/-- `V4Ruleset5TotalPrice`. -/
def ruleset5TotalPrice (credits : CreditMetrics) (sm : StructureMetrics) : ProofPrice :=
  let profile := profilePrice credits
  let tail := tailFactor credits
  let pin := pinPrice sm.nearPinCount
  let state := statePrice sm
  if profile = priceFailClosed ∨ tail = 0 ∨ pin = 0 ∨ state = 0 then priceFailClosed
  else
    let base := Word.mul 64 profile.P (doubled tail) / priceQ
    ⟨Word.mul 64 base (max (doubled pin) state) / priceQ, priceQ⟩

/-! ## The structure -/

/-- `D` of `V4StatePrice`: the collision total of a single state. -/
def stateTotal (sm : StructureMetrics) : Nat := sm.bcapUnits * sm.bcapUnits * 2 ^ 63

/-- A structure that has a price. -/
structure Sound (sm : StructureMetrics) : Prop where
  valid : sm.valid = true
  bcap : 0 < sm.bcapUnits ∧ sm.bcapUnits ≤ 256 * 1024
  u : 0 < sm.collisionU ∧ sm.collisionU ≤ stateTotal sm
  id : 0 < sm.collisionId ∧ sm.collisionId ≤ stateTotal sm
  pins : sm.nearPinCount < pinRejectCount

instance (sm : StructureMetrics) : Decidable (Sound sm) :=
  decidable_of_iff (sm.valid = true ∧ (0 < sm.bcapUnits ∧ sm.bcapUnits ≤ 256 * 1024) ∧
      (0 < sm.collisionU ∧ sm.collisionU ≤ stateTotal sm) ∧
        (0 < sm.collisionId ∧ sm.collisionId ≤ stateTotal sm) ∧ sm.nearPinCount < pinRejectCount)
    ⟨fun h => ⟨h.1, h.2.1, h.2.2.1, h.2.2.2.1, h.2.2.2.2⟩,
      fun h => ⟨h.valid, h.bcap, h.u, h.id, h.pins⟩⟩

/-- The ramp above the free pins. -/
def ramp (excess : Nat) : ℚ := 1000 + 1000 * ((excess : ℚ) / 46) ^ 2

def pinCurve (n : Nat) : ℚ := ramp (n - pinFreeCount)

/-- How far both effective state counts, `D / collision`, are below their onsets. -/
def stateCurve (sm : StructureMetrics) : ℚ :=
  min 2000 (max 1000 (1000 * min ((40 : ℚ) / ((stateTotal sm : ℚ) / sm.collisionU))
    ((24 : ℚ) / ((stateTotal sm : ℚ) / sm.collisionId))))

def structureCurve (sm : StructureMetrics) : ℚ := max (pinCurve sm.nearPinCount) (stateCurve sm)

theorem ramp_mem {excess : Nat} (h : excess ≤ 46) : 1000 ≤ ramp excess ∧ ramp excess ≤ 2000 := by
  have hq : (excess : ℚ) ≤ 46 := by exact_mod_cast h
  have hdiv : (excess : ℚ) / 46 ≤ 1 := (div_le_one (by norm_num)).2 hq
  have hnn : 0 ≤ (excess : ℚ) / 46 := by positivity
  unfold ramp
  constructor <;> nlinarith

theorem floor_ramp (excess : Nat) : ⌊ramp excess⌋₊ = 1000 + 1000 * excess * excess / (46 * 46) := by
  have hcurve : ramp excess =
      ((1000 * excess * excess : Nat) : ℚ) / (46 * 46 : Nat) + (1000 : Nat) := by
    unfold ramp
    push_cast
    ring
  rw [hcurve, Nat.floor_add_natCast (by positivity), Nat.floor_div_eq_div, Nat.add_comm]

theorem excess_le {n : Nat} (h : n < pinRejectCount) : n - pinFreeCount ≤ 46 := by
  unfold pinRejectCount at h
  unfold pinFreeCount
  omega

theorem stateCurve_mem (sm : StructureMetrics) : 1000 ≤ stateCurve sm ∧ stateCurve sm ≤ 2000 :=
  ⟨le_min (by norm_num) (le_max_left _ _), min_le_left _ _⟩

theorem pinPrice_eq {n : Nat} (h : n < pinRejectCount) : pinPrice n = ⌊pinCurve n⌋₊ := by
  have hsmall := excess_le h
  have hexcess : (if pinFreeCount < n then Word.sub 64 n pinFreeCount else 0) =
      n - pinFreeCount := by
    split
    · rename_i hlt
      exact Word.sub_eq hlt.le (by unfold pinRejectCount at h; omega)
    · omega
  have hsq : 1000 * (n - pinFreeCount) * (n - pinFreeCount) ≤ 1000 * 46 * 46 :=
    Nat.mul_le_mul (Nat.mul_le_mul_left _ hsmall) hsmall
  have hle : ⌊ramp (n - pinFreeCount)⌋₊ ≤ 2000 := Nat.floor_le_of_le (ramp_mem (excess_le h)).2
  have hn : ¬ 256 < n := by
    unfold pinRejectCount at h
    omega
  unfold pinPrice pinCurve
  dsimp only
  rw [if_neg hn, if_neg (not_le.2 h), hexcess, Word.mul_eq (a := 1000) (by omega),
    Word.mul_eq (b := n - pinFreeCount) (by omega), Word.mul_eq (a := 46) (by norm_num),
    Word.add_eq (by omega)]
  rw [floor_ramp] at hle ⊢
  have hge : ¬ 1000 + 1000 * (n - pinFreeCount) * (n - pinFreeCount) / (46 * 46) < 1000 := by omega
  rw [if_neg hge, if_neg (not_lt.2 hle)]

/-- The two comparisons of `V4StatePrice`. -/
theorem clamp_eq (scaled : Nat) :
    (if scaled ≤ 1000 then 1000 else if 2000 ≤ scaled then 2000 else scaled) =
      min 2000 (max 1000 scaled) := by
  split
  · omega
  · split <;> omega

/-- The collision totals are compared with the exact total, which has room for the factors. -/
theorem stateTotal_eq {sm : StructureMetrics} (hb : sm.bcapUnits ≤ 256 * 1024) :
    Word.mul 128 (Word.mul 128 sm.bcapUnits sm.bcapUnits) (2 ^ 63) = stateTotal sm ∧
      stateTotal sm ≤ 2 ^ 99 := by
  have hsq : sm.bcapUnits * sm.bcapUnits ≤ 256 * 1024 * (256 * 1024) := Nat.mul_le_mul hb hb
  have htotal : stateTotal sm ≤ 256 * 1024 * (256 * 1024) * 2 ^ 63 := Nat.mul_le_mul_right _ hsq
  rw [Word.mul_eq (a := sm.bcapUnits) (by omega)]
  refine ⟨Word.mul_eq ?_, htotal⟩
  exact lt_of_le_of_lt htotal (by norm_num)

theorem statePrice_eq {sm : StructureMetrics} (h : Sound sm) :
    statePrice sm = ⌊stateCurve sm⌋₊ := by
  obtain ⟨hv, ⟨hb, hb'⟩, ⟨hu, hu'⟩, ⟨hi, hi'⟩, -⟩ := h
  have hmin : (if 40 * sm.collisionU < 24 * sm.collisionId then 40 * sm.collisionU
      else 24 * sm.collisionId) = min (40 * sm.collisionU) (24 * sm.collisionId) := by
    split <;> omega
  have hcurve : 1000 * min (40 / ((stateTotal sm : ℚ) / sm.collisionU))
        (24 / ((stateTotal sm : ℚ) / sm.collisionId)) =
      ((1000 * min (40 * sm.collisionU) (24 * sm.collisionId) : Nat) : ℚ) / stateTotal sm := by
    have hDpos : (0 : ℚ) ≤ stateTotal sm := Nat.cast_nonneg _
    rw [div_div_eq_mul_div, div_div_eq_mul_div, min_div_div_right hDpos]
    push_cast
    ring
  have hscaled : ⌊stateCurve sm⌋₊ = min 2000 (max 1000
      (1000 * min (40 * sm.collisionU) (24 * sm.collisionId) / stateTotal sm)) := by
    unfold stateCurve
    rw [hcurve, Nat.floor_mono.map_min, Nat.floor_mono.map_max, Nat.floor_div_eq_div,
      Nat.floor_ofNat, Nat.floor_ofNat]
  have hcu : ¬ (sm.collisionU = 0 ∨ stateTotal sm < sm.collisionU) := by omega
  have hcid : ¬ (sm.collisionId = 0 ∨ stateTotal sm < sm.collisionId) := by omega
  obtain ⟨htotal, hroom⟩ := stateTotal_eq hb'
  have hnum : min (40 * sm.collisionU) (24 * sm.collisionId) ≤ 40 * sm.collisionU :=
    Nat.min_le_left _ _
  unfold statePrice
  simp only [htotal]
  rw [if_neg (by simp [hv]), if_neg (by omega), if_neg hcu, if_neg hcid,
    Word.mul_eq (a := 40) (by omega), Word.mul_eq (a := 24) (by omega), hmin,
    Word.mul_eq (a := 1000) (by omega), hscaled]
  exact clamp_eq _

theorem statePrice_of_not {sm : StructureMetrics} (h : ¬ Sound sm)
    (hp : sm.nearPinCount < pinRejectCount) : statePrice sm = 0 := by
  unfold statePrice
  dsimp only
  split
  · rfl
  · rename_i hv
    split
    · rfl
    · rename_i hb
      split
      · rfl
      · rename_i hu
        split
        · rfl
        · rename_i hi
          have hbcap : 0 < sm.bcapUnits ∧ sm.bcapUnits ≤ 256 * 1024 := by omega
          rw [(stateTotal_eq hbcap.2).1] at hu hi
          have hcu : 0 < sm.collisionU ∧ sm.collisionU ≤ stateTotal sm := by omega
          have hcid : 0 < sm.collisionId ∧ sm.collisionId ≤ stateTotal sm := by omega
          exact absurd ⟨by simpa using hv, hbcap, hcu, hcid, hp⟩ h

theorem pinPrice_of_reject {n : Nat} (h : pinRejectCount ≤ n) : pinPrice n = 0 := by
  unfold pinPrice
  rw [if_pos h, ite_self]

/-- Either component has a price, and it is at least 1. -/
theorem floor_mem {x lo hi : ℚ} (l u : Nat) (hl : lo = l) (hu : hi = u) (h : lo ≤ x ∧ x ≤ hi) :
    l ≤ ⌊x⌋₊ ∧ ⌊x⌋₊ ≤ u := by
  subst hl hu
  exact ⟨Nat.le_floor h.1, Nat.floor_le_of_le h.2⟩

/-- **The structure price is the rational one, rounded down**, and a count that is rejected, or
metrics that cannot be, have none. -/
theorem structurePrice_eq (sm : StructureMetrics) :
    structurePrice sm = if Sound sm then ⌊structureCurve sm⌋₊ else 0 := by
  unfold structurePrice
  by_cases h : Sound sm
  · have hpin := floor_mem 1000 2000 (by norm_num) (by norm_num) (ramp_mem (excess_le h.pins))
    have hstate := floor_mem 1000 2000 (by norm_num) (by norm_num) (stateCurve_mem sm)
    rw [if_pos h, if_neg (by simp [h.valid]), pinPrice_eq h.pins, statePrice_eq h,
      if_neg (by unfold pinCurve; omega), if_neg (by omega)]
    unfold structureCurve
    rw [Nat.floor_mono.map_max]
    split <;> omega
  · rw [if_neg h]
    split
    · rfl
    · split
      · rfl
      · rename_i hp
        have hlt : sm.nearPinCount < pinRejectCount := by
          by_contra hge
          exact hp (pinPrice_of_reject (not_lt.1 hge))
        rw [if_pos (statePrice_of_not h hlt)]

/-! ## The totals -/

/-- Both factors of the credit, rounded down. -/
def profileFloor (credits : CreditMetrics) : Nat := ⌊profileCurve credits.stepUnits⌋₊

def tailFloor (credits : CreditMetrics) : Nat := ⌊tailCurve credits.stepUnits⌋₊

theorem profileFloor_mem (credits : CreditMetrics) :
    1000 ≤ profileFloor credits ∧ profileFloor credits ≤ 3000 :=
  floor_mem 1000 3000 (by norm_num) (by norm_num) (profileCurve_mem _)

theorem tailFloor_mem (credits : CreditMetrics) :
    1000 ≤ tailFloor credits ∧ tailFloor credits ≤ 2000 :=
  floor_mem 1000 2000 (by norm_num) (by norm_num) (tailCurve_mem _)

theorem structurePrice_mem {sm : StructureMetrics} (h : Sound sm) :
    1000 ≤ structurePrice sm ∧ structurePrice sm ≤ 2000 := by
  have hpin := ramp_mem (excess_le h.pins)
  have hstate := stateCurve_mem sm
  rw [structurePrice_eq, if_pos h]
  exact floor_mem 1000 2000 (by norm_num) (by norm_num)
    ⟨hpin.1.trans (le_max_left _ _), max_le hpin.2 hstate.2⟩

theorem priceQ_ne (P : Nat) : (⟨P, priceQ⟩ : ProofPrice) ≠ priceFailClosed := by
  simp [priceQ, priceFailClosed]

theorem profilePrice_of {credits : CreditMetrics} (h : Priceable credits) :
    profilePrice credits = ⟨profileFloor credits, priceQ⟩ := by
  rw [profilePrice_eq, if_pos h]
  rfl

theorem profilePrice_of_not {credits : CreditMetrics} (h : ¬ Priceable credits) :
    profilePrice credits = priceFailClosed := by
  rw [profilePrice_eq, if_neg h]

theorem tailFactor_of {credits : CreditMetrics} (h : Priceable credits) :
    tailFactor credits = tailFloor credits := by
  rw [tailFactor_eq, if_pos h]
  rfl

theorem basePrice_of {credits : CreditMetrics} (h : Priceable credits) :
    basePrice credits = ⟨profileFloor credits * tailFloor credits / 1000, priceQ⟩ := by
  have hp := profileFloor_mem credits
  have ht := tailFloor_mem credits
  have hmul : profileFloor credits * tailFloor credits ≤ 3000 * 2000 := Nat.mul_le_mul hp.2 ht.2
  unfold basePrice
  rw [profilePrice_of h, tailFactor_of h]
  dsimp only
  rw [if_neg (priceQ_ne _), if_neg (by omega), Word.mul_eq (by omega)]
  rfl

/-- **What a proof owes before ruleset 5.** -/
theorem totalPrice_eq (credits : CreditMetrics) (sm : StructureMetrics) :
    totalPrice credits sm =
      if Priceable credits ∧ Sound sm then
        ⟨profileFloor credits * tailFloor credits / 1000 * structurePrice sm / 1000, priceQ⟩
      else priceFailClosed := by
  have hp := profileFloor_mem credits
  have ht := tailFloor_mem credits
  have hmul : profileFloor credits * tailFloor credits ≤ 3000 * 2000 := Nat.mul_le_mul hp.2 ht.2
  unfold totalPrice
  dsimp only
  by_cases h : Priceable credits
  · rw [basePrice_of h, if_neg (priceQ_ne _)]
    by_cases hs : Sound sm
    · have hsm := structurePrice_mem hs
      have hmul' : profileFloor credits * tailFloor credits / 1000 * structurePrice sm ≤
          6000 * 2000 := Nat.mul_le_mul (by omega) hsm.2
      rw [if_neg (by omega), if_pos ⟨h, hs⟩]
      dsimp only
      rw [Word.mul_eq (by omega)]
      rfl
    · have hzero : structurePrice sm = 0 := by rw [structurePrice_eq, if_neg hs]
      rw [if_pos hzero, if_neg fun hn => hs hn.2]
  · have hbase : basePrice credits = priceFailClosed := by
      unfold basePrice
      exact if_pos (profilePrice_of_not h)
    rw [if_pos hbase, if_neg fun hn => h hn.1]

/-- The exact price, in thousandths. -/
def exactPrice (credits : CreditMetrics) (sm : StructureMetrics) : ℚ :=
  profileCurve credits.stepUnits * tailCurve credits.stepUnits / 1000 * structureCurve sm / 1000

/-- A floor of a product of prices that are too low, against the product. -/
theorem floor_mul_floor {x y a : ℚ} {X Y : Nat} (hx : 0 ≤ x) (hX : X ≤ x ∧ x ≤ X + a)
    (hY : Y ≤ y ∧ y ≤ Y + 1) :
    ((X * Y / 1000 : Nat) : ℚ) ≤ x * y / 1000 ∧
      x * y / 1000 < ((X * Y / 1000 : Nat) : ℚ) + 1 + (x + a * y) / 1000 := by
  have hY0 : (0 : ℚ) ≤ Y := Nat.cast_nonneg _
  have ha : 0 ≤ a := by linarith
  have hlow : (((X * Y / 1000 : Nat) : ℚ) * 1000) ≤ X * Y := by
    exact_mod_cast Nat.div_mul_le_self (X * Y) 1000
  have hhigh : (X * Y : ℚ) < (((X * Y / 1000 : Nat) : ℚ) + 1) * 1000 := by
    have hnat : X * Y < (X * Y / 1000 + 1) * 1000 := by omega
    exact_mod_cast hnat
  have hXY : (X : ℚ) * Y ≤ x * y := mul_le_mul hX.1 hY.1 hY0 hx
  have hxy : x * y ≤ X * Y + x + a * y := by
    have hgap : x * y - X * Y = x * (y - Y) + (x - X) * Y := by ring
    have h1 : x * (y - Y) ≤ x * 1 := mul_le_mul_of_nonneg_left (by linarith) hx
    have h2 : (x - X) * Y ≤ a * y := mul_le_mul (by linarith) hY.1 hY0 ha
    linarith
  constructor <;> linarith

theorem floor_gap {x : ℚ} (h : 0 ≤ x) : (⌊x⌋₊ : ℚ) ≤ x ∧ x ≤ ⌊x⌋₊ + 1 :=
  ⟨Nat.floor_le h, (Nat.lt_floor_add_one x).le⟩

theorem totalPrice_fails_iff (credits : CreditMetrics) (sm : StructureMetrics) :
    totalPrice credits sm = priceFailClosed ↔ ¬ (Priceable credits ∧ Sound sm) := by
  rw [totalPrice_eq]
  split
  · rename_i h
    exact iff_of_false (priceQ_ne _) fun hn => hn h
  · rename_i h
    exact iff_of_true rfl h

theorem totalPrice_mem {credits : CreditMetrics} {sm : StructureMetrics}
    (h : Priceable credits ∧ Sound sm) :
    1000 ≤ (totalPrice credits sm).P ∧ (totalPrice credits sm).P ≤ 12000 := by
  have hp := profileFloor_mem credits
  have ht := tailFloor_mem credits
  have hs := structurePrice_mem h.2
  have hlow : 1000 * 1000 ≤ profileFloor credits * tailFloor credits :=
    Nat.mul_le_mul hp.1 ht.1
  have hhigh : profileFloor credits * tailFloor credits ≤ 3000 * 2000 :=
    Nat.mul_le_mul hp.2 ht.2
  have hlow' : 1000 * 1000 ≤ profileFloor credits * tailFloor credits / 1000 * structurePrice sm :=
    Nat.mul_le_mul (by omega) hs.1
  have hhigh' : profileFloor credits * tailFloor credits / 1000 * structurePrice sm ≤
      6000 * 2000 := Nat.mul_le_mul (by omega) hs.2
  rw [totalPrice_eq, if_pos h]
  dsimp only
  omega

/-- Each of the three divisions rounds down. -/
theorem totalPrice_rounding {credits : CreditMetrics} {sm : StructureMetrics}
    (h : Priceable credits ∧ Sound sm) :
    ((totalPrice credits sm).P : ℚ) ≤ exactPrice credits sm ∧
      exactPrice credits sm < (totalPrice credits sm).P + 19 := by
  have hprof := profileCurve_mem credits.stepUnits
  have htail := tailCurve_mem credits.stepUnits
  have hcurve : 1000 ≤ structureCurve sm ∧ structureCurve sm ≤ 2000 :=
    ⟨(stateCurve_mem sm).1.trans (le_max_right _ _),
      max_le (ramp_mem (excess_le h.2.pins)).2 (stateCurve_mem sm).2⟩
  have hbase := floor_mul_floor (by linarith) (floor_gap (x := profileCurve credits.stepUnits)
    (by linarith)) (floor_gap (x := tailCurve credits.stepUnits) (by linarith))
  have hprod : profileCurve credits.stepUnits * tailCurve credits.stepUnits ≤ 3000 * 2000 :=
    mul_le_mul hprof.2 htail.2 (by linarith) (by norm_num)
  have hprod0 : 0 ≤ profileCurve credits.stepUnits * tailCurve credits.stepUnits :=
    mul_nonneg (by linarith) (by linarith)
  have hstruct : (structurePrice sm : ℚ) ≤ structureCurve sm ∧
      structureCurve sm ≤ structurePrice sm + 1 := by
    rw [structurePrice_eq, if_pos h.2]
    exact floor_gap (by linarith)
  have htotal := floor_mul_floor (a := 6) (by linarith) ⟨hbase.1, by linarith⟩ hstruct
  rw [totalPrice_eq, if_pos h]
  refine ⟨htotal.1, ?_⟩
  have hlast := htotal.2
  unfold exactPrice profileFloor tailFloor
  linarith

/-- **Every factor is the rational one, rounded down to the thousandth**, and there is none for
evidence that is not complete. -/
theorem factors_eq (credits : CreditMetrics) (sm : StructureMetrics) :
    profilePrice credits =
        (if Priceable credits then ⟨⌊profileCurve credits.stepUnits⌋₊, 1000⟩ else ⟨0, 0⟩) ∧
      tailFactor credits =
        (if Priceable credits then ⌊tailCurve credits.stepUnits⌋₊ else 0) ∧
      structurePrice sm = (if Sound sm then ⌊structureCurve sm⌋₊ else 0) :=
  ⟨profilePrice_eq credits, tailFactor_eq credits, structurePrice_eq sm⟩

/-- **What a proof owes, and when**: it has a price unless its evidence is not complete or its
near-pins are too many; the price is between one and twelve times the target, never above the exact
one, and less than nineteen thousandths below it. -/
theorem totalPrice_spec (credits : CreditMetrics) (sm : StructureMetrics) :
    (totalPrice credits sm = priceFailClosed ↔ ¬ (Priceable credits ∧ Sound sm)) ∧
      (Priceable credits ∧ Sound sm →
        (1000 ≤ (totalPrice credits sm).P ∧ (totalPrice credits sm).P ≤ 12000) ∧
          ((totalPrice credits sm).P : ℚ) ≤ exactPrice credits sm ∧
            exactPrice credits sm < (totalPrice credits sm).P + 19) :=
  ⟨totalPrice_fails_iff credits sm, fun h => ⟨totalPrice_mem h, totalPrice_rounding h⟩⟩

/-! ## Ruleset 5 -/

/-- The factors of ruleset 5, as numbers. -/
theorem doubled_eq {factor : Nat} (h : 1000 ≤ factor) (h' : factor ≤ 3000) :
    doubled factor = 1000 + 2 * (factor - 1000) := by
  unfold doubled priceQ
  rw [Word.sub_eq h (by omega), Word.mul_eq (by omega), Word.add_eq (by omega)]

theorem pinPrice_mem {n : Nat} (h : n < pinRejectCount) :
    1000 ≤ pinPrice n ∧ pinPrice n ≤ 2000 := by
  rw [pinPrice_eq h]
  exact floor_mem 1000 2000 (by norm_num) (by norm_num) (ramp_mem (excess_le h))

theorem statePrice_mem {sm : StructureMetrics} (h : Sound sm) :
    1000 ≤ statePrice sm ∧ statePrice sm ≤ 2000 := by
  rw [statePrice_eq h]
  exact floor_mem 1000 2000 (by norm_num) (by norm_num) (stateCurve_mem sm)

theorem structurePrice_eq_max {sm : StructureMetrics} (h : Sound sm) :
    structurePrice sm = max (pinPrice sm.nearPinCount) (statePrice sm) := by
  rw [structurePrice_eq, if_pos h, pinPrice_eq h.pins, statePrice_eq h]
  exact Nat.floor_mono.map_max

/-- The price of ruleset 5, from the factors. -/
def ruleset5Floor (credits : CreditMetrics) (sm : StructureMetrics) : Nat :=
  profileFloor credits * (1000 + 2 * (tailFloor credits - 1000)) / 1000 *
    max (1000 + 2 * (pinPrice sm.nearPinCount - 1000)) (statePrice sm) / 1000

theorem ruleset5TotalPrice_eq (credits : CreditMetrics) (sm : StructureMetrics) :
    ruleset5TotalPrice credits sm =
      if Priceable credits ∧ Sound sm then ⟨ruleset5Floor credits sm, priceQ⟩
      else priceFailClosed := by
  have hp := profileFloor_mem credits
  have ht := tailFloor_mem credits
  unfold ruleset5TotalPrice
  dsimp only
  by_cases h : Priceable credits
  · rw [profilePrice_of h, tailFactor_of h]
    by_cases hs : Sound sm
    · have hpin := pinPrice_mem hs.pins
      have hstate := statePrice_mem hs
      have hmul : profileFloor credits * (1000 + 2 * (tailFloor credits - 1000)) ≤ 3000 * 3000 :=
        Nat.mul_le_mul hp.2 (by omega)
      have hmul' : profileFloor credits * (1000 + 2 * (tailFloor credits - 1000)) / 1000 *
          max (1000 + 2 * (pinPrice sm.nearPinCount - 1000)) (statePrice sm) ≤ 9000 * 3000 :=
        Nat.mul_le_mul (by omega) (by omega)
      have hno : ¬ ((⟨profileFloor credits, priceQ⟩ : ProofPrice) = priceFailClosed ∨
          tailFloor credits = 0 ∨ pinPrice sm.nearPinCount = 0 ∨ statePrice sm = 0) := by
        rintro (hn | hn | hn | hn)
        · exact priceQ_ne _ hn
        · omega
        · omega
        · omega
      have hQ : priceQ = 1000 := rfl
      rw [if_neg hno, if_pos ⟨h, hs⟩, doubled_eq ht.1 (by omega), doubled_eq hpin.1 (by omega), hQ,
        Word.mul_eq (a := profileFloor credits) (by omega), Word.mul_eq (by omega)]
      rfl
    · have hnot : ¬ (Priceable credits ∧ Sound sm) := fun hn => hs hn.2
      rw [if_neg hnot]
      by_cases hpins : sm.nearPinCount < pinRejectCount
      · exact if_pos (.inr (.inr (.inr (statePrice_of_not hs hpins))))
      · exact if_pos (.inr (.inr (.inl (pinPrice_of_reject (not_lt.1 hpins)))))
  · have hnot : ¬ (Priceable credits ∧ Sound sm) := fun hn => h hn.1
    rw [if_neg hnot]
    exact if_pos (.inl (profilePrice_of_not h))

theorem ruleset5TotalPrice_fails_iff (credits : CreditMetrics) (sm : StructureMetrics) :
    ruleset5TotalPrice credits sm = priceFailClosed ↔ totalPrice credits sm = priceFailClosed := by
  rw [ruleset5TotalPrice_eq, totalPrice_eq]
  split
  · exact iff_of_false (priceQ_ne _) (priceQ_ne _)
  · exact Iff.rfl

theorem totalPrice_le_ruleset5 (credits : CreditMetrics) (sm : StructureMetrics) :
    (totalPrice credits sm).P ≤ (ruleset5TotalPrice credits sm).P ∧
      (ruleset5TotalPrice credits sm).P ≤ 27000 := by
  rw [ruleset5TotalPrice_eq, totalPrice_eq]
  split
  · rename_i h
    have hp := profileFloor_mem credits
    have ht := tailFloor_mem credits
    have hpin := pinPrice_mem h.2.pins
    have hstate := statePrice_mem h.2
    have hbase : profileFloor credits * tailFloor credits / 1000 ≤
        profileFloor credits * (1000 + 2 * (tailFloor credits - 1000)) / 1000 :=
      Nat.div_le_div_right (Nat.mul_le_mul_left _ (by omega))
    have hmul : profileFloor credits * (1000 + 2 * (tailFloor credits - 1000)) ≤ 3000 * 3000 :=
      Nat.mul_le_mul hp.2 (by omega)
    have hmul' : profileFloor credits * (1000 + 2 * (tailFloor credits - 1000)) / 1000 *
        max (1000 + 2 * (pinPrice sm.nearPinCount - 1000)) (statePrice sm) ≤ 9000 * 3000 :=
      Nat.mul_le_mul (by omega) (by omega)
    rw [structurePrice_eq_max h.2]
    unfold ruleset5Floor
    constructor
    · exact Nat.div_le_div_right (Nat.mul_le_mul hbase (by omega))
    · dsimp only
      omega
  · exact ⟨le_rfl, Nat.zero_le _⟩

/-- Without a charge for the tail or the near-pins nothing changes. -/
theorem ruleset5TotalPrice_eq_totalPrice {credits : CreditMetrics} {sm : StructureMetrics}
    (htail : tailFactor credits = 1000) (hpins : pinPrice sm.nearPinCount = 1000) :
    ruleset5TotalPrice credits sm = totalPrice credits sm := by
  rw [ruleset5TotalPrice_eq, totalPrice_eq]
  split
  · rename_i h
    rw [tailFactor_of h.1] at htail
    unfold ruleset5Floor
    rw [structurePrice_eq_max h.2, htail, hpins]
  · rfl

/-- **Ruleset 5 prices the same proofs**, none of them cheaper, none above twenty-seven times the
target; and a proof without a charge for its tail or its near-pins costs what it did. -/
theorem ruleset5TotalPrice_spec (credits : CreditMetrics) (sm : StructureMetrics) :
    (ruleset5TotalPrice credits sm = priceFailClosed ↔
        totalPrice credits sm = priceFailClosed) ∧
      (totalPrice credits sm).P ≤ (ruleset5TotalPrice credits sm).P ∧
        (ruleset5TotalPrice credits sm).P ≤ 27000 ∧
          (tailFactor credits = 1000 → pinPrice sm.nearPinCount = 1000 →
            ruleset5TotalPrice credits sm = totalPrice credits sm) :=
  ⟨ruleset5TotalPrice_fails_iff credits sm, (totalPrice_le_ruleset5 credits sm).1,
    (totalPrice_le_ruleset5 credits sm).2, ruleset5TotalPrice_eq_totalPrice⟩

/-! ## Late credit -/

/-- **Credit that arrives later is never cheaper**, under either ruleset. -/
theorem totalPrice_later {credits credits' : CreditMetrics} (h : Priceable credits)
    (h' : Priceable credits') (hl : Later credits.stepUnits credits'.stepUnits)
    (sm : StructureMetrics) :
    (totalPrice credits sm).P ≤ (totalPrice credits' sm).P ∧
      (ruleset5TotalPrice credits sm).P ≤ (ruleset5TotalPrice credits' sm).P := by
  have hp : profileFloor credits ≤ profileFloor credits' := Nat.floor_mono hl.profileCurve_le
  have ht : tailFloor credits ≤ tailFloor credits' := Nat.floor_mono hl.tailCurve_le
  rw [totalPrice_eq, totalPrice_eq, ruleset5TotalPrice_eq, ruleset5TotalPrice_eq]
  by_cases hs : Sound sm
  · rw [if_pos ⟨h, hs⟩, if_pos ⟨h', hs⟩, if_pos ⟨h, hs⟩, if_pos ⟨h', hs⟩]
    constructor
    · exact Nat.div_le_div_right (Nat.mul_le_mul_right _
        (Nat.div_le_div_right (Nat.mul_le_mul hp ht)))
    · exact Nat.div_le_div_right (Nat.mul_le_mul_right _
        (Nat.div_le_div_right (Nat.mul_le_mul hp (by omega))))
  · rw [if_neg fun hn => hs hn.2, if_neg fun hn => hs hn.2, if_neg fun hn => hs hn.2,
      if_neg fun hn => hs hn.2]
    exact ⟨le_rfl, le_rfl⟩

/-- All the credit in the first step, or in the last. -/
def atStep (i : Nat) : CreditMetrics :=
  { stepUnits := (List.range 256).map fun j => if j = i then 32768 else 0
    totalUnits := 32768, valid := true }

/-- With 140 near-pins the late credit costs three times the early one. -/
theorem totalPrice_later_ends :
    Later (atStep 0).stepUnits (atStep 255).stepUnits ∧ Sound nearPinned.sm ∧
      ((totalPrice (atStep 0) nearPinned.sm).P ≤ (totalPrice (atStep 255) nearPinned.sm).P ∧
        (ruleset5TotalPrice (atStep 0) nearPinned.sm).P ≤
          (ruleset5TotalPrice (atStep 255) nearPinned.sm).P) := by
  have hl : Later (atStep 0).stepUnits (atStep 255).stepUnits := by
    refine ⟨by decide +kernel, fun t => ?_⟩
    cases t with
    | zero => exact Nat.le_refl 0
    | succ t =>
      have hlast : creditAt (atStep 255).stepUnits (t + 1) ≤ 32768 :=
        (Evidence.creditAt_le_sum _).trans (by decide +kernel)
      have hfirst : 32768 ≤ creditAt (atStep 0).stepUnits (t + 1) := Nat.le_add_right _ _
      exact hlast.trans hfirst
  exact ⟨hl, by decide +kernel,
    totalPrice_later (by decide +kernel) (by decide +kernel) hl nearPinned.sm⟩

end PowV4

/-! ## The prices of a verdict -/

variable {F : Type}

/-- The kernels with the vendored prices. -/
def Kernels.withVendoredPrices (K : Kernels F) : Kernels F :=
  { K with
    totalPrice := fun cm sm => .ok (PowV4.totalPrice cm sm).P
    ruleset5TotalPrice := fun cm sm => .ok (PowV4.ruleset5TotalPrice cm sm).P }

/-- The verdict an evaluation has come to, also where something is thrown. -/
def Evaluation.verdict : Evaluation Verdict → Verdict
  | .ok v => v
  | .error r => r.2

/-- What the measurements say of the prices. -/
structure Verdict.Priced (v : Verdict) : Prop where
  both : v.priceR4P = 0 ↔ v.priceR5P = 0
  le : v.priceR4P ≤ v.priceR5P
  cap : v.priceR4P ≤ 12000 ∧ v.priceR5P ≤ 27000
  pins : v.priceR4P ≠ 0 → 1000 ≤ v.priceR4P ∧ v.nearPinCount < pinRejectCount

/-- The same measurements. -/
structure Verdict.SamePrices (v v' : Verdict) : Prop where
  r4 : v'.priceR4P = v.priceR4P
  r5 : v'.priceR5P = v.priceR5P
  pins : v'.nearPinCount = v.nearPinCount

theorem Verdict.Priced.congr {v v' : Verdict} (h : v.Priced) (hs : v.SamePrices v') :
    v'.Priced := by
  obtain ⟨hboth, hle, hcap, hpins⟩ := h
  constructor
  · rw [hs.r4, hs.r5]
    exact hboth
  · rw [hs.r4, hs.r5]
    exact hle
  · rw [hs.r4, hs.r5]
    exact hcap
  · rw [hs.r4, hs.pins]
    exact hpins

/-- The gates leave the measurements as they are. -/
theorem runGates_samePrices (K : Kernels F) [Inhabited F] (mask : Nat) :
    ∀ (gs : List Gate) (v : Verdict) (c : Ctx F),
      v.SamePrices (Evaluation.verdict (runGates K mask gs v c))
  | [], _, _ => ⟨rfl, rfl, rfl⟩
  | g :: rest, v, c => by
    unfold runGates
    split
    · cases hg : g.check K c with
      | error e => exact ⟨rfl, rfl, rfl⟩
      | ok rc =>
        obtain ⟨⟨outcome, reason, withheld⟩, c'⟩ := rc
        cases outcome with
        | pass => exact runGates_samePrices K mask rest v c'
        | reject => exact ⟨rfl, rfl, rfl⟩
        | unavailable =>
          obtain ⟨h4, h5, hp⟩ := runGates_samePrices K mask rest
            (if v.reason = "" then { v with reason := gateName g ++ ": " ++ reason } else v) c'
          refine ⟨h4.trans ?_, h5.trans ?_, hp.trans ?_⟩ <;> split <;> rfl
    · exact runGates_samePrices K mask rest v c

/-- A verdict without measurements. -/
theorem priced_of_zero {v : Verdict} (h4 : v.priceR4P = 0) (h5 : v.priceR5P = 0) : v.Priced := by
  constructor <;> simp [h4, h5]

/-- **The measurements are those of one proof under both rulesets.** -/
theorem measure_priced (K : Kernels F) {v : Verdict} (h4 : v.priceR4P = 0) (h5 : v.priceR5P = 0)
    (c : Ctx F) : ∃ v', measure K.withVendoredPrices v c = .ok v' ∧ v'.Priced := by
  unfold measure
  dsimp only
  split
  · refine ⟨_, rfl, ?_⟩
    obtain ⟨hle, hcap⟩ := PowV4.totalPrice_le_ruleset5 c.cm c.sm
    by_cases hp : PowV4.Priceable c.cm ∧ PowV4.Sound c.sm
    · obtain ⟨hlow, hhigh⟩ := PowV4.totalPrice_mem hp
      constructor
      · show (PowV4.totalPrice c.cm c.sm).P = 0 ↔ (PowV4.ruleset5TotalPrice c.cm c.sm).P = 0
        omega
      · exact hle
      · show (PowV4.totalPrice c.cm c.sm).P ≤ _ ∧ _
        exact ⟨by omega, hcap⟩
      · intro _
        show 1000 ≤ (PowV4.totalPrice c.cm c.sm).P ∧ _
        exact ⟨by omega, hp.2.pins⟩
    · have hfail := (PowV4.totalPrice_fails_iff c.cm c.sm).2 hp
      have hfail5 := (PowV4.ruleset5TotalPrice_fails_iff c.cm c.sm).2 hfail
      apply priced_of_zero
      · exact congrArg PowV4.ProofPrice.P hfail
      · exact congrArg PowV4.ProofPrice.P hfail5
  · exact ⟨_, rfl, priced_of_zero h4 h5⟩

theorem evaluateBody_priced (K : Kernels F) [Inhabited F] (w : Window F) (mask : Nat) :
    (Evaluation.verdict (evaluateBody K.withVendoredPrices w mask)).Priced := by
  unfold evaluateBody
  dsimp only
  cases ensureFloatEnvironment K.withVendoredPrices with
  | error e => exact priced_of_zero rfl rfl
  | ok why =>
    cases why with
    | some why => exact priced_of_zero rfl rfl
    | none =>
      change (Evaluation.verdict (if _ then _ else _)).Priced
      split
      · exact priced_of_zero rfl rfl
      · cases K.withVendoredPrices.computeWindowStructure w.rowLen w.logits w.ids w.chosen with
        | error e => exact priced_of_zero rfl rfl
        | ok r =>
          obtain ⟨st, ws, err⟩ := r
          cases st with
          | badFloatEnvironment => exact priced_of_zero rfl rfl
          | badInput =>
            change (Evaluation.verdict (if _ then _ else _)).Priced
            split <;> exact priced_of_zero rfl rfl
          | ok =>
            change (Evaluation.verdict (if _ then _ else _)).Priced
            split
            · exact priced_of_zero rfl rfl
            · obtain ⟨v, hv, hpriced⟩ := measure_priced K
                (v := { hashHex := w.hashHex, isSolution := w.isSolution }) rfl rfl
                { w, ws : Ctx F }.buildMetrics
              change (Evaluation.verdict (measure K.withVendoredPrices _ _ >>= _)).Priced
              rw [hv]
              exact hpriced.congr (runGates_samePrices _ mask pipeline v _)

/-- **Every verdict**, whatever the bytes, the gates and the height are, has two prices or none: the
one of ruleset 5 is never below the other, and no window whose near-pins are rejected has any. -/
theorem evaluate_prices (R : Reader F) (K : Kernels F) [Inhabited F] (data : List Nat)
    (mask height : Nat) : (evaluate R K.withVendoredPrices data mask height).Priced := by
  unfold evaluate
  split
  · exact priced_of_zero rfl rfl
  · rename_i w _
    have hbody := evaluateBody_priced K { w with height := height } mask
    unfold evaluateWindow
    cases hr : evaluateBody K.withVendoredPrices { w with height := height } mask with
    | ok v =>
      rw [hr] at hbody
      exact hbody
    | error e =>
      rw [hr] at hbody
      exact hbody.congr ⟨rfl, rfl, rfl⟩

end Precheck
