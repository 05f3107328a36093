import Mathlib.Algebra.BigOperators.Fin
import Mathlib.Algebra.BigOperators.Ring.List
import Mathlib.Algebra.Order.BigOperators.Group.List
import Mathlib.Algebra.Order.Chebyshev
import Mathlib.NumberTheory.Padics.PadicVal.Basic
import Mathlib.Tactic.Linarith
import Mathlib.Tactic.Ring
import SuprMeow.Library.Binary32
import SuprMeow.Library.Words
import SuprMeow.Precheck.Gates

/-!
# Flat regions

`flat_region::ComputeRow` and `ComputeWindow`: a row has a flat region when some stretch of its
masses, the largest first, carries a quarter of the row and is nearly uniform.  The masses are read
off the encodings, in parts of `2 ^ 149`; most rows are searched in 128 bits after what all masses
share is divided out, the others in 512.

* `units_eq_some` — the encodings that are masses, and their exact value;
* `search_eq` — the search, wherever the sums fit;
* `qualifies_iff`, `computeRow_ok_iff` — both widths find the regions of the exact masses;
* `computeWindow_ok_iff`, `computeWindow_reject_iff` — what a window comes to;
* `computeWindow_perm` — the order of the tokens in a row does not matter.
-/

set_option autoImplicit false

open Binary32 (Pattern magnitude scaled)

namespace Precheck

namespace FlatRegion

/-! ## The code -/

/-- `MAX_ROW` and `MIN_REGION`. -/
def maxRow : Nat := 50

def minRegion : Nat := 4

/-- `CREDIT_R` and `MAX_CAPPED_UNITS`. -/
def creditR : Nat := 1024

def maxCappedUnits : Nat := 80 * creditR

/-- `Units`. -/
def units (cdf : Bool) (value : Pattern) : Option Nat :=
  let bits := value.toNat
  let low := bits &&& 0x7fffffff
  if low = 0 then some 0
  else if bits >>> 31 ≠ 0 ∨ (if cdf then 0x40000000 else 0x3f800001) ≤ low then none
  else
    let exponent := bits >>> 23 &&& 255
    let fraction := bits &&& 0x7fffff
    if exponent = 0 then some fraction else some ((2 ^ 23 ||| fraction) <<< (exponent - 1))

/-- The loop of `Decode`. -/
def decodeLoop (cdf : Bool) : List Pattern → Nat → List Nat → Nat → Except String (List Nat × Nat)
  | [], _, p, total => .ok (p, total)
  | v :: vs, previous, p, total =>
    match units cdf v with
    | none => .error "invalid canonical probability encoding"
    | some value =>
      if cdf = true ∧ value < previous then .error "descending canonical CDF"
      else
        let mass := if cdf then Word.sub 512 value previous else value
        let previous := if cdf then value else previous
        if mass ≠ 0 then decodeLoop cdf vs previous (p ++ [mass]) (Word.add 512 total mass)
        else decodeLoop cdf vs previous p total

/-- `Decode`: the masses that are not zero, and their sum. -/
def decode (cdf : Bool) (values : List Pattern) : Except String (List Nat × Nat) :=
  if values.length = 0 ∨ maxRow < values.length then .error "invalid canonical row width"
  else
    match decodeLoop cdf values 0 [] 0 with
    | .error why => .error why
    | .ok (p, total) => if total = 0 then .error "zero canonical row mass" else .ok (p, total)

/-- The inner loop of `Search`, over the masses from `a` on. -/
def grow (w total : Nat) : List Nat → Nat → Nat → Nat → Bool
  | [], _, _, _ => false
  | x :: rest, length, mass, sumSquares =>
    let mass := Word.add w mass x
    let sumSquares := Word.add w sumSquares (Word.mul w x x)
    let length := length + 1
    if minRegion ≤ length ∧ total ≤ Word.mul w 4 mass ∧
        Word.mul w (9 * length) sumSquares ≤ Word.mul w (Word.mul w 10 mass) mass then true
    else grow w total rest length mass sumSquares

/-- `Search` in `w` bits. -/
def search (w : Nat) (p : List Nat) (total : Nat) : Bool :=
  let p := p.mergeSort (fun x y => decide (y ≤ x))
  (List.range (p.length + 1 - minRegion)).any fun a => grow w total (p.drop a) 0 0 0

/-- `boost::multiprecision::lsb` of a number that is not zero. -/
def lsb (n : Nat) : Nat := padicValNat 2 n

/-- `Qualifies`. -/
def qualifies (p : List Nat) (total : Nat) : Bool :=
  if p.length < minRegion then false
  else
    let shift := p.foldl (fun shift x => min shift (lsb x)) 512
    let reducedTotal := total >>> shift
    if reducedTotal.log2 < 59 then
      search 128 (p.map fun x => (x >>> shift) % 2 ^ 64) (reducedTotal % 2 ^ 64)
    else search 512 p total

/-- `ComputeRow`. -/
def computeRow (cdf : Bool) (values : List Pattern) : Except String Bool :=
  match decode cdf values with
  | .error why => .error why
  | .ok (p, total) => .ok (qualifies p total)

structure Metrics where
  cappedUnits : Nat := 0
  flatCappedUnits : Nat := 0
  flatCreditedRows : Nat := 0
  eligible : Bool := false
  reject : Bool := false
  deriving DecidableEq

/-- `Rejects`. -/
def rejects (cappedUnits flatCappedUnits : Nat) : Bool :=
  decide (0 < cappedUnits) && decide (cappedUnits ≤ maxCappedUnits) &&
    decide (flatCappedUnits ≤ cappedUnits) &&
      decide (Word.mul 64 3 cappedUnits ≤ Word.mul 64 4 flatCappedUnits)

/-- The loop over the credits. -/
def cappedSum : List Nat → Nat → Option Nat
  | [], sum => some sum
  | credit :: rest, sum =>
    if maxStepCredit < credit then none
    else cappedSum rest (Word.add 64 sum (min credit creditR))

/-- The loop over the rows. -/
def flatRows (cdf eligible : Bool) : List (List Pattern × Nat) → Metrics → Except String Metrics
  | [], m => .ok m
  | (row, credit) :: rest, m =>
    match decode cdf row with
    | .error why => .error why
    | .ok (p, total) =>
      if eligible = true ∧ credit ≠ 0 ∧ qualifies p total = true then
        flatRows cdf eligible rest { m with
          flatCappedUnits := Word.add 64 m.flatCappedUnits (min credit creditR)
          flatCreditedRows := m.flatCreditedRows + 1 }
      else flatRows cdf eligible rest m

/-- `ComputeWindow`. -/
def computeWindow (rows : List (List Pattern)) (credits : List Nat) (cdf : Bool) :
    Except String Metrics :=
  if rows.length ≠ kWindow ∨ credits.length ≠ kWindow then .error "expected 256 rows and credits"
  else
    match cappedSum credits 0 with
    | none => .error "credit exceeds canonical per-step cap"
    | some capped =>
      let eligible := decide (0 < capped ∧ capped ≤ maxCappedUnits)
      match flatRows cdf eligible (rows.zip credits) { cappedUnits := capped, eligible } with
      | .error why => .error why
      | .ok m => .ok { m with reject := rejects m.cappedUnits m.flatCappedUnits }

/-- What `Evaluate` writes to `out`. -/
def flatOut (rows : List (List Pattern)) (credits : List Nat) :
    Except Thrown (Option (List Nat)) :=
  .ok (match computeWindow rows credits false with
    | .error _ => none
    | .ok m => some [m.cappedUnits, m.flatCappedUnits, m.flatCreditedRows, m.eligible.toNat,
        m.reject.toNat])

/-! ## The encodings -/

/-- The largest mass, or endpoint. -/
def cap (cdf : Bool) : Nat := if cdf then 2 ^ 150 - 1 else 2 ^ 149

theorem and_low31 (n : Nat) : n &&& 0x7fffffff = n % 2 ^ 31 := Nat.and_two_pow_sub_one_eq_mod n 31

theorem and_low23 (n : Nat) : n &&& 0x7fffff = n % 2 ^ 23 := Nat.and_two_pow_sub_one_eq_mod n 23

theorem exponent_eq (n : Nat) : n >>> 23 &&& 255 = n / 2 ^ 23 % 2 ^ 8 := by
  rw [Nat.shiftRight_eq_div_pow]
  exact Nat.and_two_pow_sub_one_eq_mod _ 8

/-- The two cases of an encoding, as one number. -/
theorem mantissa_eq {b : Nat} (h : b < 2 ^ 31) :
    (if b >>> 23 &&& 255 = 0 then some (b &&& 0x7fffff)
      else some ((2 ^ 23 ||| b &&& 0x7fffff) <<< ((b >>> 23 &&& 255) - 1))) =
      some (magnitude b) := by
  have hor : 2 ^ 23 ||| b % 2 ^ 23 = 2 ^ 23 + b % 2 ^ 23 := by
    have hadd := Nat.two_pow_add_eq_or_of_lt (Nat.mod_lt b (Nat.two_pow_pos 23)) 1
    rw [Nat.mul_one] at hadd
    exact hadd.symm
  have hmod : b / 2 ^ 23 % 2 ^ 8 = b / 2 ^ 23 := Nat.mod_eq_of_lt (by omega)
  rw [exponent_eq, and_low23, hor, hmod, Nat.shiftLeft_eq]
  unfold magnitude
  split <;> rfl

/-- The first encoding that is refused. -/
def limit (cdf : Bool) : Nat := if cdf then 0x40000000 else 0x3f800001

theorem limit_le_iff {cdf : Bool} {b : Nat} : limit cdf ≤ b ↔ cap cdf < magnitude b := by
  cases cdf
  · have hone := @Binary32.magnitude_lt_iff 0x3f800000 b
    have h1 : magnitude 0x3f800000 = 2 ^ 149 := by decide +kernel
    rw [h1] at hone
    simp only [limit, cap, Bool.false_eq_true, if_false, hone]
    omega
  · have htwo := Binary32.magnitude_strictMono.le_iff_le (a := 0x40000000) (b := b)
    have h2 : magnitude 0x40000000 = 2 ^ 150 := by decide +kernel
    rw [h2] at htwo
    simp only [limit, cap, if_true, ← htwo]
    omega

/-- **The encodings that are masses, and their exact value.** -/
theorem units_eq_some {cdf : Bool} {v : Pattern} {m : Nat} :
    units cdf v = some m ↔ scaled v = m ∧ m ≤ cap cdf := by
  have hv := v.isLt
  unfold units
  dsimp only
  rw [and_low31, Nat.shiftRight_eq_div_pow]
  by_cases hzero : v.toNat % 2 ^ 31 = 0
  · have hs : scaled v = 0 := by
      unfold scaled
      split
      · have : v.toNat = 0 := by omega
        rw [this]
        rfl
      · have : v.toNat - 2 ^ 31 = 0 := by omega
        rw [this]
        rfl
    rw [if_pos hzero, hs, Option.some.injEq]
    constructor
    · rintro rfl
      exact ⟨rfl, Nat.zero_le _⟩
    · rintro ⟨h, -⟩
      omega
  · rw [if_neg hzero]
    by_cases hsign : v.toNat < 2 ^ 31
    · have hlow : v.toNat % 2 ^ 31 = v.toNat := Nat.mod_eq_of_lt hsign
      have hs : scaled v = magnitude v.toNat := Binary32.scaled_of_lt hsign
      have hdiv : v.toNat / 2 ^ 31 = 0 := Nat.div_eq_of_lt hsign
      have hlimit := @limit_le_iff cdf v.toNat
      rw [hs, hlow, mantissa_eq hsign]
      by_cases hle : limit cdf ≤ v.toNat
      · rw [if_pos (.inr hle)]
        have hcap := hlimit.1 hle
        simp only [reduceCtorEq, Nat.cast_inj, false_iff, not_and]
        omega
      · have hfits : ¬ (v.toNat / 2 ^ 31 ≠ 0 ∨ limit cdf ≤ v.toNat) := by omega
        unfold limit at hfits
        rw [if_neg hfits]
        have hcap : magnitude v.toNat ≤ cap cdf := not_lt.1 fun h => hle (hlimit.2 h)
        simp only [Option.some.injEq, Nat.cast_inj]
        constructor
        · rintro rfl
          exact ⟨rfl, hcap⟩
        · exact fun h => h.1
    · have hdiv : v.toNat / 2 ^ 31 ≠ 0 := by omega
      have hs : scaled v = -magnitude (v.toNat - 2 ^ 31) := Binary32.scaled_of_ge (not_lt.1 hsign)
      have hpos : 0 < magnitude (v.toNat - 2 ^ 31) := by
        have := @Binary32.magnitude_lt_iff 0 (v.toNat - 2 ^ 31)
        rw [Binary32.magnitude_zero] at this
        omega
      rw [if_pos (.inl hdiv), hs]
      simp only [reduceCtorEq, false_iff, not_and]
      omega

/-! ## The masses of a row -/

/-- What the next value is measured from. -/
def base (cdf : Bool) (v : Pattern) : Nat := if cdf then (scaled v).toNat else 0

/-- The masses of the values from `previous` on: the values themselves, or their differences. -/
def masses (cdf : Bool) : Nat → List Pattern → List Nat
  | _, [] => []
  | previous, v :: vs => ((scaled v).toNat - previous) :: masses cdf (base cdf v) vs

/-- Values in range, those of a CDF not falling. -/
def Encoded (cdf : Bool) : Nat → List Pattern → Prop
  | _, [] => True
  | previous, v :: vs =>
    (previous : Int) ≤ scaled v ∧ scaled v ≤ cap cdf ∧ Encoded cdf (base cdf v) vs

theorem masses_cons (cdf : Bool) (previous : Nat) (v : Pattern) (vs : List Pattern) :
    masses cdf previous (v :: vs) = ((scaled v).toNat - previous) :: masses cdf (base cdf v) vs :=
  rfl

theorem encoded_cons (cdf : Bool) (previous : Nat) (v : Pattern) (vs : List Pattern) :
    Encoded cdf previous (v :: vs) ↔
      (previous : Int) ≤ scaled v ∧ scaled v ≤ cap cdf ∧ Encoded cdf (base cdf v) vs := Iff.rfl

/-- The masses that are not zero. -/
def support (p : List Nat) : List Nat := p.filter fun x => decide (x ≠ 0)

/-- What `Decode` reads as a row. -/
structure ValidRow (cdf : Bool) (values : List Pattern) : Prop where
  width : 1 ≤ values.length ∧ values.length ≤ maxRow
  encoded : Encoded cdf 0 values
  mass : (masses cdf 0 values).sum ≠ 0

theorem length_masses {cdf : Bool} (previous : Nat) (values : List Pattern) :
    (masses cdf previous values).length = values.length := by
  induction values generalizing previous with
  | nil => rfl
  | cons v vs ih => rw [masses_cons, List.length_cons, ih, List.length_cons]

theorem masses_le {cdf : Bool} {previous : Nat} {values : List Pattern}
    (h : Encoded cdf previous values) : ∀ x ∈ masses cdf previous values, x ≤ cap cdf := by
  induction values generalizing previous with
  | nil => simp [masses]
  | cons v vs ih =>
    obtain ⟨-, hcap, hrest⟩ := h
    rw [masses_cons, List.forall_mem_cons]
    exact ⟨by omega, ih hrest⟩

theorem masses_false (values : List Pattern) :
    masses false 0 values = values.map fun v => (scaled v).toNat := by
  induction values with
  | nil => rfl
  | cons v vs ih =>
    rw [masses_cons, List.map_cons, Nat.sub_zero]
    exact congrArg _ ih

theorem encoded_false (values : List Pattern) :
    Encoded false 0 values ↔ ∀ v ∈ values, 0 ≤ scaled v ∧ scaled v ≤ 2 ^ 149 := by
  induction values with
  | nil => simp [Encoded]
  | cons v vs ih =>
    rw [encoded_cons, List.forall_mem_cons, and_assoc, ← ih]
    simp [cap, base]

theorem cap_lt (cdf : Bool) : cap cdf < 2 ^ 150 := by
  cases cdf <;> decide +kernel

theorem fits {n w : Nat} (h : n < 2 ^ 200) (hw : 200 ≤ w) : n < 2 ^ w :=
  h.trans_le (Nat.pow_le_pow_right Nat.two_pos hw)

theorem support_cons (x : Nat) (p : List Nat) :
    support (x :: p) = if x = 0 then support p else x :: support p := by
  unfold support
  by_cases h : x = 0 <;> simp [h]

/-- **The loop of `Decode` reads the rows that are encoded, and no others.** -/
theorem decodeLoop_ok_iff {cdf : Bool} {values : List Pattern} : ∀ {previous total : Nat}
    {p : List Nat} {r : List Nat × Nat}, (cdf = false → previous = 0) →
    total + values.length * 2 ^ 150 < 2 ^ 200 →
    (decodeLoop cdf values previous p total = .ok r ↔ Encoded cdf previous values ∧
      r = (p ++ support (masses cdf previous values),
        total + (masses cdf previous values).sum)) := by
  induction values with
  | nil =>
    intro previous total p r _ _
    unfold decodeLoop
    rw [Except.ok.injEq]
    simp [Encoded, masses, support, eq_comm]
  | cons v vs ih =>
    intro previous total p r hbase hfits
    rw [List.length_cons] at hfits
    have hlt := cap_lt cdf
    unfold decodeLoop
    cases hu : units cdf v with
    | none =>
      simp only [reduceCtorEq, false_iff, not_and]
      rintro ⟨h0, hcap, -⟩
      have hsome := (@units_eq_some cdf v (scaled v).toNat).2 ⟨by omega, by omega⟩
      rw [hu] at hsome
      cases hsome
    | some value =>
      obtain ⟨hs, hcap⟩ := units_eq_some.1 hu
      dsimp only
      by_cases hfall : cdf = true ∧ value < previous
      · rw [if_pos hfall]
        simp only [reduceCtorEq, false_iff, not_and]
        rintro ⟨h, -⟩
        omega
      · have hle : previous ≤ value := by
          cases cdf with
          | false => exact (hbase rfl) ▸ Nat.zero_le _
          | true => simp at hfall; exact hfall
        have hmass : (if cdf then Word.sub 512 value previous else value) = value - previous := by
          cases cdf with
          | false =>
            rw [hbase rfl]
            rfl
          | true =>
            have hsmall : value < 2 ^ 200 := by omega
            have hword : value < 2 ^ 512 := fits hsmall (by decide)
            rw [if_pos rfl, Word.sub_eq hle hword]
        have hnext : (if cdf then value else previous) = base cdf v := by
          unfold base
          cases cdf with
          | false => exact hbase rfl
          | true => simp; omega
        have hvalue : (scaled v).toNat = value := by omega
        have hencoded : Encoded cdf previous (v :: vs) ↔ Encoded cdf (base cdf v) vs :=
          ⟨fun h => h.2.2, fun h => ⟨by omega, by omega, h⟩⟩
        have hnew : cdf = false → base cdf v = 0 := fun h => by
          unfold base
          rw [h]
          rfl
        rw [if_neg hfall, hmass, hnext, hencoded, masses_cons, hvalue, support_cons, List.sum_cons]
        have hroom : total + (value - previous) + vs.length * 2 ^ 150 < 2 ^ 200 := by omega
        by_cases hz : value - previous = 0
        · rw [hz, Nat.add_zero] at hroom
          rw [if_neg (not_not.2 hz), ih hnew hroom, if_pos hz, hz, Nat.zero_add]
        · have hsmall : total + (value - previous) < 2 ^ 200 := by omega
          have hword : total + (value - previous) < 2 ^ 512 := fits hsmall (by decide)
          have hsum : Word.add 512 total (value - previous) = total + (value - previous) :=
            Word.add_eq (w := 512) hword
          rw [if_pos hz, hsum, ih hnew hroom, if_neg hz]
          simp [Nat.add_assoc]

/-- **What `Decode` reads of a row**: its masses that are not zero, and their sum. -/
theorem decode_ok_iff {cdf : Bool} {values : List Pattern} {r : List Nat × Nat} :
    decode cdf values = .ok r ↔ ValidRow cdf values ∧
      r = (support (masses cdf 0 values), (masses cdf 0 values).sum) := by
  unfold decode
  by_cases hw : values.length = 0 ∨ maxRow < values.length
  · rw [if_pos hw]
    simp only [reduceCtorEq, false_iff, not_and]
    rintro ⟨hwidth, -, -⟩
    omega
  · have hwidth : 1 ≤ values.length ∧ values.length ≤ maxRow := by omega
    have hfits : 0 + values.length * 2 ^ 150 < 2 ^ 200 := by
      have := hwidth.2
      unfold maxRow at this
      omega
    have hloop := fun r => @decodeLoop_ok_iff cdf values 0 0 [] r (fun _ => rfl) hfits
    rw [if_neg hw]
    cases hd : decodeLoop cdf values 0 [] 0 with
    | error why =>
      simp only [reduceCtorEq, false_iff, not_and]
      intro hv
      have hok := (hloop _).2 ⟨hv.encoded, rfl⟩
      rw [hd] at hok
      cases hok
    | ok q =>
      obtain ⟨hencoded, hq⟩ := (hloop q).1 hd
      rw [List.nil_append, Nat.zero_add] at hq
      subst hq
      dsimp only
      by_cases hz : (masses cdf 0 values).sum = 0
      · rw [if_pos hz]
        simp only [reduceCtorEq, false_iff, not_and]
        exact fun hv => absurd hz hv.mass
      · rw [if_neg hz, Except.ok.injEq]
        exact ⟨fun h => ⟨⟨hwidth, hencoded, hz⟩, h.symm⟩, fun h => h.2.symm⟩

/-! ## Sums of squares -/

def squares (l : List Nat) : Nat := (l.map fun x => x * x).sum

theorem squares_cons (x : Nat) (l : List Nat) : squares (x :: l) = x * x + squares l := rfl

theorem squares_append (l m : List Nat) : squares (l ++ m) = squares l + squares m := by
  unfold squares
  rw [List.map_append, List.sum_append]

theorem squares_singleton (x : Nat) : squares [x] = x * x := by simp [squares]

theorem squares_map_mul (c : Nat) (q : List Nat) :
    squares (q.map (c * ·)) = c * c * squares q := by
  unfold squares
  rw [← List.sum_map_mul_left, List.map_map]
  refine congrArg List.sum (List.map_congr_left fun x _ => ?_)
  show c * x * (c * x) = c * c * (x * x)
  ring

theorem squares_filter (l : List Nat) : squares (l.filter fun x => decide (x ≠ 0)) = squares l := by
  induction l with
  | nil => rfl
  | cons x l ih =>
    rw [List.filter_cons, squares_cons, ← ih]
    split
    · exact squares_cons _ _
    · rename_i h
      have hx : x = 0 := by simpa using h
      rw [hx, Nat.zero_mul, Nat.zero_add]

theorem squares_le (l : List Nat) : squares l ≤ l.sum * l.sum := by
  induction l with
  | nil => rfl
  | cons x l ih =>
    rw [squares_cons, List.sum_cons]
    nlinarith [Nat.zero_le (x * l.sum)]

/-- Cauchy–Schwarz. -/
theorem sq_sum_le (l : List Nat) : l.sum * l.sum ≤ l.length * squares l := by
  have hle := sq_sum_le_card_mul_sum_sq (s := Finset.univ) (f := fun i : Fin l.length => l[i.1])
  rw [Fin.sum_univ_getElem, Fin.sum_univ_fun_getElem l fun x => x ^ 2, Finset.card_univ,
    Fintype.card_fin, Nat.cast_id] at hle
  simpa only [squares, sq] using hle

/-! ## The search -/

/-- Four masses or more, a quarter of the row, at nine tenths of the evenness of equal masses. -/
structure Region (total : Nat) (l : List Nat) : Prop where
  long : minRegion ≤ l.length
  heavy : total ≤ 4 * l.sum
  even : 9 * l.length * squares l ≤ 10 * l.sum * l.sum

/-- A flat region among the masses: neighbours, once the largest mass comes first. -/
def Flat (p : List Nat) : Prop :=
  ∃ s : List Nat, s.Perm p ∧ s.Pairwise (fun x y => y ≤ x) ∧
    ∃ l, l <:+: s ∧ Region p.sum l

/-- The words are wide enough for the comparisons. -/
structure Room (w : Nat) (p : List Nat) : Prop where
  long : p.length ≤ maxRow
  wide : 450 * (p.sum * p.sum) < 2 ^ w

theorem Room.sublist {w : Nat} {p q : List Nat} (h : Room w p) (hq : q.Sublist p) : Room w q := by
  have hsum := hq.sum_le_sum fun _ _ => Nat.zero_le _
  exact ⟨hq.length_le.trans h.long,
    lt_of_le_of_lt (Nat.mul_le_mul_left _ (Nat.mul_le_mul hsum hsum)) h.wide⟩

/-- One comparison of the search. -/
theorem Room.test {w total : Nat} {l : List Nat} (h : Room w l) (hw : 3 ≤ w) :
    (minRegion ≤ l.length ∧ total ≤ Word.mul w 4 l.sum ∧
      Word.mul w (9 * l.length) (squares l) ≤ Word.mul w (Word.mul w 10 l.sum) l.sum) ↔
      Region total l := by
  have hpow : 2 ^ 3 ≤ 2 ^ w := Nat.pow_le_pow_right Nat.two_pos hw
  have hwide := h.wide
  have hlong := h.long
  unfold maxRow at hlong
  have hself : l.sum ≤ l.sum * l.sum := Nat.le_mul_self _
  have hleft : 9 * l.length * squares l ≤ 450 * (l.sum * l.sum) :=
    Nat.mul_le_mul (by omega) (squares_le l)
  have hright : 10 * l.sum * l.sum = 10 * (l.sum * l.sum) := Nat.mul_assoc _ _ _
  rw [Word.mul_eq (a := 4) (by omega), Word.mul_eq (a := 9 * l.length) (by omega),
    Word.mul_eq (a := 10) (b := l.sum) (by omega), Word.mul_eq (a := 10 * l.sum) (by omega)]
  exact ⟨fun h => ⟨h.1, h.2.1, h.2.2⟩, fun h => ⟨h.long, h.heavy, h.even⟩⟩

theorem grow_cons (w total x : Nat) (rest : List Nat) (length mass sumSquares : Nat) :
    grow w total (x :: rest) length mass sumSquares =
      if minRegion ≤ length + 1 ∧ total ≤ Word.mul w 4 (Word.add w mass x) ∧
          Word.mul w (9 * (length + 1)) (Word.add w sumSquares (Word.mul w x x)) ≤
            Word.mul w (Word.mul w 10 (Word.add w mass x)) (Word.add w mass x) then true
      else grow w total rest (length + 1) (Word.add w mass x)
        (Word.add w sumSquares (Word.mul w x x)) := rfl

/-- **The inner loop finds the stretches that go on from `l`.** -/
theorem grow_iff {w total : Nat} (hw : 3 ≤ w) {rest : List Nat} : ∀ {l : List Nat},
    Room w (l ++ rest) → (grow w total rest l.length l.sum (squares l) = true ↔
      ∃ m, m ≠ [] ∧ m <+: rest ∧ Region total (l ++ m)) := by
  induction rest with
  | nil =>
    intro l _
    unfold grow
    simp only [Bool.false_eq_true, false_iff, not_exists, not_and]
    intro m hm hsub
    exact absurd (List.prefix_nil.1 hsub) hm
  | cons x rest ih =>
    intro l h
    have hone : Room w (l ++ [x]) := h.sublist (by simp)
    have hsum : (l ++ [x]).sum = l.sum + x := by simp
    have hsquares : squares (l ++ [x]) = squares l + x * x := by
      rw [squares_append, squares_singleton]
    have hlength : (l ++ [x]).length = l.length + 1 := by simp
    have hself : (l ++ [x]).sum ≤ (l ++ [x]).sum * (l ++ [x]).sum := Nat.le_mul_self _
    have hle := squares_le (l ++ [x])
    have hwide := hone.wide
    have hmass : Word.add w l.sum x = (l ++ [x]).sum := by
      rw [hsum] at hself hwide ⊢
      exact Word.add_eq (by omega)
    have hsq : Word.add w (squares l) (Word.mul w x x) = squares (l ++ [x]) := by
      rw [hsquares] at hle ⊢
      rw [Word.mul_eq (by omega), Word.add_eq (by omega)]
    have htest := @Room.test w total _ hone hw
    have hnext : Room w ((l ++ [x]) ++ rest) := by
      rw [List.append_assoc]
      exact h
    rw [grow_cons, hmass, hsq, ← hlength]
    by_cases hregion : Region total (l ++ [x])
    · rw [if_pos (htest.2 hregion)]
      exact ⟨fun _ => ⟨[x], by simp, by simp, hregion⟩, fun _ => rfl⟩
    · rw [if_neg fun hn => hregion (htest.1 hn), ih hnext]
      constructor
      · rintro ⟨m, -, hsub, hm⟩
        refine ⟨x :: m, by simp, by simpa using hsub, ?_⟩
        rwa [List.append_assoc] at hm
      · rintro ⟨m, hne, hsub, hm⟩
        cases m with
        | nil => exact absurd rfl hne
        | cons y m =>
          obtain ⟨rfl, hafter⟩ := List.cons_prefix_cons.1 hsub
          cases m with
          | nil => exact absurd hm hregion
          | cons z m =>
            refine ⟨z :: m, by simp, hafter, ?_⟩
            rwa [List.append_assoc]

/-- The search finds the stretches of the arranged masses. -/
theorem search_iff {w total : Nat} {p : List Nat} (hw : 3 ≤ w) (h : Room w p) :
    search w p total = true ↔
      ∃ l, l <:+: p.mergeSort (fun x y => decide (y ≤ x)) ∧ Region total l := by
  have hperm := List.mergeSort_perm p fun x y => decide (y ≤ x)
  have hroom : Room w (p.mergeSort fun x y => decide (y ≤ x)) :=
    ⟨hperm.length_eq.trans_le h.long, by rw [hperm.sum_eq]; exact h.wide⟩
  unfold search
  dsimp only
  generalize p.mergeSort (fun x y => decide (y ≤ x)) = s at *
  rw [List.any_eq_true]
  constructor
  · rintro ⟨a, -, ha⟩
    have hdrop : Room w ([] ++ s.drop a) := hroom.sublist (List.drop_sublist a s)
    obtain ⟨m, -, hsub, hm⟩ := (grow_iff hw hdrop).1 ha
    exact ⟨m, hsub.isInfix.trans (List.drop_suffix a s).isInfix, hm⟩
  · rintro ⟨l, ⟨before, after, hs⟩, hl⟩
    have hlong := hl.long
    have hne : l ≠ [] := by
      rintro rfl
      simp [minRegion] at hlong
    have hlen := congrArg List.length hs
    simp only [List.length_append] at hlen
    have hdrop : s.drop before.length = l ++ after := by
      rw [← hs, List.append_assoc, List.drop_left]
    have hrest : Room w ([] ++ s.drop before.length) := hroom.sublist (List.drop_sublist _ s)
    refine ⟨before.length, List.mem_range.2 (by omega), (grow_iff hw hrest).2 ?_⟩
    exact ⟨l, hne, by rw [hdrop]; exact List.prefix_append l after, hl⟩

/-- **The search, wherever its sums fit, is for a flat region.** -/
theorem search_eq {w : Nat} {p : List Nat} (hw : 3 ≤ w) (h : Room w p) :
    search w p p.sum = true ↔ Flat p := by
  have hperm := List.mergeSort_perm p fun x y => decide (y ≤ x)
  have hsorted : (p.mergeSort fun x y => decide (y ≤ x)).Pairwise fun x y => y ≤ x := by
    have hpairs := @List.pairwise_mergeSort _ (fun x y : Nat => decide (y ≤ x))
      (by simp; omega) (by simp; omega) p
    exact hpairs.imp fun hxy => of_decide_eq_true hxy
  rw [search_iff hw h]
  constructor
  · rintro ⟨l, hl, hregion⟩
    exact ⟨_, hperm, hsorted, l, hl, hregion⟩
  · rintro ⟨s, hs, hpairs, l, hl, hregion⟩
    have heq : s = p.mergeSort fun x y => decide (y ≤ x) :=
      (hs.trans hperm.symm).eq_of_pairwise (fun x y _ _ hxy hyx => le_antisymm hyx hxy) hpairs
        hsorted
    rw [← heq]
    exact ⟨l, hl, hregion⟩

/-! ## What all masses share -/

theorem sum_map_mul (c : Nat) (q : List Nat) : (q.map (c * ·)).sum = c * q.sum :=
  List.sum_map_mul_left q (fun x => x) c |>.trans (by rw [List.map_id'])

theorem region_mul {c total : Nat} {l : List Nat} (hc : 0 < c) :
    Region (c * total) (l.map (c * ·)) ↔ Region total l := by
  have hheavy : c * total ≤ 4 * (c * l.sum) ↔ total ≤ 4 * l.sum := by
    rw [Nat.mul_left_comm]
    exact Nat.mul_le_mul_left_iff hc
  have heven : 9 * l.length * (c * c * squares l) ≤ 10 * (c * l.sum) * (c * l.sum) ↔
      9 * l.length * squares l ≤ 10 * l.sum * l.sum := by
    rw [show 9 * l.length * (c * c * squares l) = c * c * (9 * l.length * squares l) by ring,
      show 10 * (c * l.sum) * (c * l.sum) = c * c * (10 * l.sum * l.sum) by ring]
    exact Nat.mul_le_mul_left_iff (Nat.mul_pos hc hc)
  constructor
  · rintro ⟨h1, h2, h3⟩
    rw [List.length_map] at h1
    rw [sum_map_mul] at h2
    rw [List.length_map, squares_map_mul, sum_map_mul] at h3
    exact ⟨h1, hheavy.1 h2, heven.1 h3⟩
  · rintro ⟨h1, h2, h3⟩
    constructor
    · rwa [List.length_map]
    · rw [sum_map_mul]
      exact hheavy.2 h2
    · rw [List.length_map, squares_map_mul, sum_map_mul]
      exact heven.2 h3

/-- **What all masses share cancels.** -/
theorem flat_mul {c : Nat} {q : List Nat} (hc : 0 < c) : Flat (q.map (c * ·)) ↔ Flat q := by
  have hback : ∀ m : List Nat, (m.map (c * ·)).map (· / c) = m := fun m => by
    rw [List.map_map]
    exact List.map_id'' (fun x => Nat.mul_div_cancel_left x hc) m
  constructor
  · rintro ⟨s, hs, hpairs, l, hl, hregion⟩
    have hmul : ∀ x ∈ l, c * (x / c) = x := by
      intro x hx
      obtain ⟨y, -, rfl⟩ := List.mem_map.1 (hs.mem_iff.1 (hl.subset hx))
      rw [Nat.mul_div_cancel_left y hc]
    have hl' : l = (l.map (· / c)).map (c * ·) := by
      rw [List.map_map]
      exact ((List.map_congr_left hmul).trans (List.map_id' l)).symm
    refine ⟨s.map (· / c), ?_, ?_, l.map (· / c), hl.map _, ?_⟩
    · have hperm := hs.map (· / c)
      rwa [hback] at hperm
    · exact hpairs.map _ fun x y hxy => Nat.div_le_div_right hxy
    · rw [hl', sum_map_mul] at hregion
      exact (region_mul hc).1 hregion
  · rintro ⟨s, hs, hpairs, l, hl, hregion⟩
    refine ⟨s.map (c * ·), hs.map _, ?_, l.map (c * ·), hl.map _, ?_⟩
    · exact hpairs.map _ fun x y hxy => Nat.mul_le_mul_left c hxy
    · rw [sum_map_mul]
      exact (region_mul hc).2 hregion

theorem shift_le {p : List Nat} : ∀ {k : Nat},
    ∀ x ∈ p, p.foldl (fun shift x => min shift (lsb x)) k ≤ lsb x := by
  have hle : ∀ (q : List Nat) (k : Nat), q.foldl (fun shift x => min shift (lsb x)) k ≤ k := by
    intro q
    induction q with
    | nil => exact fun k => le_rfl
    | cons x q ih => exact fun k => (ih _).trans (min_le_left k _)
  induction p with
  | nil => simp
  | cons y p ih =>
    intro k x hx
    rcases List.mem_cons.1 hx with rfl | hx
    · exact (hle p _).trans (min_le_right k _)
    · exact ih x hx

theorem two_pow_dvd {p : List Nat} {k x : Nat} (hx : x ∈ p) :
    2 ^ p.foldl (fun shift x => min shift (lsb x)) k ∣ x :=
  (pow_dvd_pow 2 (shift_le x hx)).trans pow_padicValNat_dvd

/-- How wide a word the comparisons need. -/
theorem wide_of_lt {n k w : Nat} (h : n < 2 ^ k) (hw : 9 + (k + k) ≤ w) :
    450 * (n * n) < 2 ^ w := by
  calc 450 * (n * n) < 2 ^ 9 * (2 ^ k * 2 ^ k) :=
        Nat.mul_lt_mul'' (by decide) (Nat.mul_lt_mul'' h h)
    _ = 2 ^ (9 + (k + k)) := by rw [← pow_add, ← pow_add]
    _ ≤ 2 ^ w := Nat.pow_le_pow_right Nat.two_pos hw

/-- **Both widths search for a flat region.** -/
theorem qualifies_iff {p : List Nat} (hlen : p.length ≤ maxRow) (hcap : ∀ x ∈ p, x < 2 ^ 150) :
    qualifies p p.sum = true ↔ Flat p := by
  unfold qualifies
  dsimp only
  by_cases hshort : p.length < minRegion
  · rw [if_pos hshort]
    simp only [Bool.false_eq_true, false_iff]
    rintro ⟨s, hs, -, l, hl, hregion⟩
    have h1 := hl.length_le
    have h2 := hs.length_eq
    have h3 := hregion.long
    omega
  · rw [if_neg hshort]
    have hsum : p.sum < 2 ^ 156 := by
      have hle := List.sum_le_card_nsmul p (2 ^ 150) fun x hx => (hcap x hx).le
      rw [smul_eq_mul] at hle
      unfold maxRow at hlen
      omega
    generalize hshift : p.foldl (fun shift x => min shift (lsb x)) 512 = shift
    have hdvd : ∀ x ∈ p, 2 ^ shift ∣ x := fun x hx => hshift ▸ two_pow_dvd hx
    have hc : 0 < 2 ^ shift := Nat.two_pow_pos shift
    by_cases hfast : (p.sum >>> shift).log2 < 59
    · -- what is left of the masses is small, and they are multiples of it
      have hp : (p.map (· / 2 ^ shift)).map (2 ^ shift * ·) = p := by
        rw [List.map_map]
        exact (List.map_congr_left fun x hx => Nat.mul_div_cancel' (hdvd x hx)).trans
          (List.map_id' p)
      have hq : p.sum >>> shift = (p.map (· / 2 ^ shift)).sum := by
        have hmul := sum_map_mul (2 ^ shift) (p.map (· / 2 ^ shift))
        rw [hp] at hmul
        rw [Nat.shiftRight_eq_div_pow, hmul, Nat.mul_div_cancel_left _ hc]
      have hsmall : (p.map (· / 2 ^ shift)).sum < 2 ^ 59 := by
        rw [hq] at hfast
        rcases Nat.eq_zero_or_pos (p.map (· / 2 ^ shift)).sum with h0 | h0
        · rw [h0]
          exact Nat.two_pow_pos 59
        · exact (Nat.log2_lt (by omega)).1 hfast
      have hmasses : (p.map fun x => (x >>> shift) % 2 ^ 64) = p.map (· / 2 ^ shift) := by
        refine List.map_congr_left fun x hx => ?_
        have hle := List.single_le_sum (fun _ _ => Nat.zero_le _) _
          (List.mem_map_of_mem (f := (· / 2 ^ shift)) hx)
        rw [Nat.shiftRight_eq_div_pow]
        exact Nat.mod_eq_of_lt (by omega)
      have hroom : Room 128 (p.map (· / 2 ^ shift)) :=
        ⟨by rwa [List.length_map], wide_of_lt hsmall (by decide)⟩
      rw [if_pos hfast, hq, hmasses, Nat.mod_eq_of_lt (by omega), search_eq (by decide) hroom,
        ← flat_mul hc, hp]
    · rw [if_neg hfast]
      exact search_eq (by decide) ⟨hlen, wide_of_lt hsum (by decide)⟩

/-! ## The masses that are zero -/

theorem sum_support (p : List Nat) : (support p).sum = p.sum := by
  induction p with
  | nil => rfl
  | cons x p ih =>
    rw [support_cons, List.sum_cons, ← ih]
    split
    · omega
    · rfl

/-- Of a region, the masses that are not zero are one. -/
theorem Region.support {total : Nat} {l : List Nat} (h : Region total l) (htotal : 0 < total) :
    Region total (support l) := by
  have hsum := sum_support l
  have hsquares : squares (FlatRegion.support l) = squares l := squares_filter l
  have hlen : (FlatRegion.support l).length ≤ l.length := List.length_filter_le _ l
  have heven := h.even
  have hheavy := h.heavy
  have hlong := h.long
  constructor
  · -- three masses or fewer would not make up for a fourth
    by_contra hshort
    unfold minRegion at hshort hlong
    have hcauchy := sq_sum_le (FlatRegion.support l)
    rw [hsum, hsquares] at hcauchy
    have hthree : (FlatRegion.support l).length * squares l ≤ 3 * squares l :=
      Nat.mul_le_mul_right _ (by omega)
    have hfour : 9 * 4 * squares l ≤ 9 * l.length * squares l :=
      Nat.mul_le_mul_right _ (by omega)
    have hle : 10 * l.sum * l.sum ≤ 10 * (3 * squares l) := by
      rw [Nat.mul_assoc]
      omega
    have hpos : 0 < l.sum * l.sum := Nat.mul_pos (by omega) (by omega)
    omega
  · rwa [hsum]
  · rw [hsum, hsquares]
    exact (Nat.mul_le_mul_right _ (by omega)).trans heven

/-- **Masses that are zero neither make nor break a flat region.** -/
theorem flat_support {p : List Nat} (hp : 0 < p.sum) : Flat (support p) ↔ Flat p := by
  constructor
  · rintro ⟨s, hs, hpairs, l, hl, hregion⟩
    rw [sum_support] at hregion
    refine ⟨s ++ p.filter fun x => !decide (x ≠ 0), ?_, ?_, l,
      hl.trans (List.prefix_append _ _).isInfix, hregion⟩
    · exact (hs.append_right _).trans (List.filter_append_perm _ p)
    · rw [List.pairwise_append]
      refine ⟨hpairs, ?_, ?_⟩
      · refine List.pairwise_of_forall_mem_list fun x _ y hy => ?_
        have := (List.mem_filter.1 hy).2
        simp at this
        omega
      · intro x _ y hy
        have := (List.mem_filter.1 hy).2
        simp at this
        omega
  · rintro ⟨s, hs, hpairs, l, hl, hregion⟩
    refine ⟨support s, hs.filter _, hpairs.filter _, support l, hl.filter _, ?_⟩
    rw [sum_support]
    exact hregion.support hp

theorem Flat.perm {p q : List Nat} (h : p.Perm q) : Flat p ↔ Flat q := by
  have hsum := h.sum_eq
  constructor
  · rintro ⟨s, hs, rest⟩
    rw [hsum] at rest
    exact ⟨s, hs.trans h, rest⟩
  · rintro ⟨s, hs, rest⟩
    rw [← hsum] at rest
    exact ⟨s, hs.trans h.symm, rest⟩

/-! ## Rows -/

/-- A row of the window has a flat region. -/
def FlatRow (cdf : Bool) (values : List Pattern) : Prop := Flat (masses cdf 0 values)

/-- What `Decode` reads, `Qualifies` judges as the exact masses are. -/
theorem ValidRow.qualifies_iff {cdf : Bool} {values : List Pattern} (h : ValidRow cdf values) :
    qualifies (support (masses cdf 0 values)) (masses cdf 0 values).sum = true ↔
      FlatRow cdf values := by
  have hlen : (support (masses cdf 0 values)).length ≤ maxRow := by
    refine (List.length_filter_le _ _).trans ?_
    rw [length_masses]
    exact h.width.2
  have hcap : ∀ x ∈ support (masses cdf 0 values), x < 2 ^ 150 := fun x hx =>
    lt_of_le_of_lt (masses_le h.encoded x (List.mem_filter.1 hx).1) (cap_lt cdf)
  have hiff := FlatRegion.qualifies_iff hlen hcap
  rw [sum_support] at hiff
  rw [hiff, flat_support (Nat.pos_of_ne_zero h.mass)]
  rfl

/-- **A row's flat region is one of its exact masses**, whichever width searches for it. -/
theorem computeRow_ok_iff {cdf flat : Bool} {values : List Pattern} :
    computeRow cdf values = .ok flat ↔
      ValidRow cdf values ∧ (flat = true ↔ FlatRow cdf values) := by
  unfold computeRow
  cases hd : decode cdf values with
  | error why =>
    simp only [reduceCtorEq, false_iff, not_and]
    intro hv
    have hok := decode_ok_iff.2 ⟨hv, rfl⟩
    rw [hd] at hok
    cases hok
  | ok r =>
    obtain ⟨hv, rfl⟩ := decode_ok_iff.1 hd
    have hiff := hv.qualifies_iff
    dsimp only
    rw [Except.ok.injEq, ← hiff]
    generalize qualifies _ _ = b
    constructor
    · rintro rfl
      exact ⟨hv, Iff.rfl⟩
    · rintro ⟨-, hb⟩
      exact Bool.eq_iff_iff.2 hb.symm

/-! ## Windows -/

/-- What `ComputeWindow` accepts. -/
structure ValidWindow (rows : List (List Pattern)) (credits : List Nat) (cdf : Bool) : Prop where
  rowCount : rows.length = kWindow
  creditCount : credits.length = kWindow
  credit : ∀ credit ∈ credits, credit ≤ maxStepCredit
  row : ∀ row ∈ rows, ValidRow cdf row

/-- The credit of the window, no step counting for more than one bit. -/
def capped (credits : List Nat) : Nat := (credits.map fun credit => min credit creditR).sum

open Classical in
/-- The part of it that stands in flat rows. -/
noncomputable def flatCapped (cdf : Bool) (steps : List (List Pattern × Nat)) : Nat :=
  (steps.map fun s => if FlatRow cdf s.1 then min s.2 creditR else 0).sum

open Classical in
/-- The flat rows with credit. -/
noncomputable def flatCredited (cdf : Bool) (steps : List (List Pattern × Nat)) : Nat :=
  steps.countP fun s => decide (s.2 ≠ 0 ∧ FlatRow cdf s.1)

/-- A window of little credit, some at least. -/
def Eligible (credits : List Nat) : Prop := 0 < capped credits ∧ capped credits ≤ maxCappedUnits

theorem cappedSum_eq_some {credits : List Nat} : ∀ {sum total : Nat},
    sum + creditR * credits.length < 2 ^ 64 → (cappedSum credits sum = some total ↔
      (∀ credit ∈ credits, credit ≤ maxStepCredit) ∧ total = sum + capped credits) := by
  induction credits with
  | nil => simp [cappedSum, capped, eq_comm]
  | cons credit rest ih =>
    intro sum total hfits
    rw [List.length_cons, Nat.mul_succ] at hfits
    have hmin : min credit creditR ≤ creditR := min_le_right _ _
    have hadd : Word.add 64 sum (min credit creditR) = sum + min credit creditR :=
      Word.add_eq (by omega)
    have hcapped : capped (credit :: rest) = min credit creditR + capped rest := rfl
    unfold cappedSum
    rw [List.forall_mem_cons, hcapped, hadd]
    by_cases hcap : maxStepCredit < credit
    · rw [if_pos hcap]
      simp only [reduceCtorEq, false_iff, not_and]
      exact fun h => absurd h.1 (by omega)
    · rw [if_neg hcap, ih (by omega), Nat.add_assoc]
      exact ⟨fun h => ⟨⟨by omega, h.1⟩, h.2⟩, fun h => ⟨h.1.2, h.2⟩⟩

/-- **The loop over the rows adds up the credit that stands in flat ones.** -/
theorem flatRows_ok_iff {cdf eligible : Bool} {steps : List (List Pattern × Nat)} :
    ∀ {m m' : Metrics}, m.flatCappedUnits + creditR * steps.length < 2 ^ 64 →
    (flatRows cdf eligible steps m = .ok m' ↔ (∀ s ∈ steps, ValidRow cdf s.1) ∧
      m' = { m with
        flatCappedUnits := m.flatCappedUnits + (if eligible then flatCapped cdf steps else 0)
        flatCreditedRows := m.flatCreditedRows +
          (if eligible then flatCredited cdf steps else 0) }) := by
  classical
  induction steps with
  | nil =>
    intro m m' _
    unfold flatRows
    rw [Except.ok.injEq]
    cases m
    cases eligible <;> simp [flatCapped, flatCredited, eq_comm]
  | cons step rest ih =>
    intro m m' hfits
    obtain ⟨row, credit⟩ := step
    rw [List.length_cons, Nat.mul_succ] at hfits
    have hmin : min credit creditR ≤ creditR := min_le_right _ _
    unfold flatRows
    rw [List.forall_mem_cons]
    cases hd : decode cdf row with
    | error why =>
      simp only [reduceCtorEq, false_iff, not_and]
      intro hv
      have hok := decode_ok_iff.2 ⟨hv.1, rfl⟩
      rw [hd] at hok
      cases hok
    | ok r =>
      obtain ⟨hv, rfl⟩ := decode_ok_iff.1 hd
      have hcappedUnits : flatCapped cdf ((row, credit) :: rest) =
          (if FlatRow cdf row then min credit creditR else 0) + flatCapped cdf rest := by
        unfold flatCapped
        rw [List.map_cons, List.sum_cons]
      have hcreditedRows : flatCredited cdf ((row, credit) :: rest) =
          flatCredited cdf rest + if credit ≠ 0 ∧ FlatRow cdf row then 1 else 0 := by
        unfold flatCredited
        rw [List.countP_cons]
        simp
      dsimp only
      simp only [hv.qualifies_iff, hcappedUnits, hcreditedRows]
      by_cases hcount : eligible = true ∧ credit ≠ 0 ∧ FlatRow cdf row
      · obtain ⟨rfl, hcredit, hflat⟩ := hcount
        have hadd : Word.add 64 m.flatCappedUnits (min credit creditR) =
            m.flatCappedUnits + min credit creditR := Word.add_eq (by omega)
        rw [if_pos ⟨rfl, hcredit, hflat⟩, hadd, ih (by dsimp only; omega)]
        simp only [if_true, if_pos hflat, if_pos (And.intro hcredit hflat)]
        rw [show m.flatCappedUnits + min credit creditR + flatCapped cdf rest =
            m.flatCappedUnits + (min credit creditR + flatCapped cdf rest) by omega,
          show m.flatCreditedRows + 1 + flatCredited cdf rest =
            m.flatCreditedRows + (flatCredited cdf rest + 1) by omega]
        exact ⟨fun h => ⟨⟨hv, h.1⟩, h.2⟩, fun h => ⟨h.1.2, h.2⟩⟩
      · rw [if_neg hcount, ih (by omega)]
        have hunits : (if eligible then
            (if FlatRow cdf row then min credit creditR else 0) + flatCapped cdf rest else 0) =
            if eligible then flatCapped cdf rest else 0 := by
          cases eligible with
          | false => rfl
          | true =>
            by_cases hflat : FlatRow cdf row
            · have hz : credit = 0 := by
                by_contra hne
                exact hcount ⟨rfl, hne, hflat⟩
              rw [hz]
              simp
            · simp [hflat]
        have hrows : (if eligible then
            flatCredited cdf rest + (if credit ≠ 0 ∧ FlatRow cdf row then 1 else 0) else 0) =
            if eligible then flatCredited cdf rest else 0 := by
          cases eligible with
          | false => rfl
          | true =>
            rw [if_neg fun h => hcount ⟨rfl, h⟩, Nat.add_zero]
        rw [hunits, hrows]
        exact ⟨fun h => ⟨⟨hv, h.1⟩, h.2⟩, fun h => ⟨h.1.2, h.2⟩⟩

theorem flatCapped_le {cdf : Bool} (steps : List (List Pattern × Nat)) :
    flatCapped cdf steps ≤ capped (steps.map Prod.snd) := by
  classical
  unfold flatCapped capped
  rw [List.map_map]
  refine List.sum_le_sum fun s _ => ?_
  show (if _ then _ else _) ≤ min s.2 creditR
  split
  · exact le_rfl
  · exact Nat.zero_le _

theorem capped_le (credits : List Nat) : capped credits ≤ creditR * credits.length := by
  have hle := List.sum_le_card_nsmul (credits.map fun credit => min credit creditR) creditR
    fun x hx => by
      obtain ⟨credit, -, rfl⟩ := List.mem_map.1 hx
      exact min_le_right _ _
  rwa [List.length_map, smul_eq_mul, Nat.mul_comm] at hle

instance (credits : List Nat) : Decidable (Eligible credits) := instDecidableAnd

/-- What the metrics of a window are, in exact masses. -/
noncomputable def exactMetrics (rows : List (List Pattern)) (credits : List Nat) (cdf : Bool) :
    Metrics where
  cappedUnits := capped credits
  flatCappedUnits := if Eligible credits then flatCapped cdf (rows.zip credits) else 0
  flatCreditedRows := if Eligible credits then flatCredited cdf (rows.zip credits) else 0
  eligible := decide (Eligible credits)
  reject := decide (Eligible credits ∧ 3 * capped credits ≤ 4 * flatCapped cdf (rows.zip credits))

/-- `Rejects`, on the sums of a window. -/
theorem rejects_eq {credits : List Nat} {flat : Nat} (hcount : credits.length = kWindow)
    (hflat : flat ≤ capped credits) :
    rejects (capped credits) (if Eligible credits then flat else 0) =
      decide (Eligible credits ∧ 3 * capped credits ≤ 4 * flat) := by
  have hle := capped_le credits
  rw [hcount] at hle
  unfold creditR kWindow at hle
  unfold rejects
  by_cases he : Eligible credits
  · rw [if_pos he, Word.mul_eq (a := 3) (by omega), Word.mul_eq (a := 4) (by omega)]
    simp [he, he.1, he.2, hflat]
  · rw [if_neg he]
    have hno : ¬ (0 < capped credits ∧ capped credits ≤ maxCappedUnits) := he
    by_cases hpos : 0 < capped credits
    · have hmax : ¬ capped credits ≤ maxCappedUnits := fun h => hno ⟨hpos, h⟩
      simp [he, hmax]
    · simp [he, hpos]

/-- **The windows `ComputeWindow` accepts, and what it says of them.** -/
theorem computeWindow_ok_iff (rows : List (List Pattern)) (credits : List Nat) (cdf : Bool)
    (m : Metrics) : computeWindow rows credits cdf = .ok m ↔
      ValidWindow rows credits cdf ∧ m = exactMetrics rows credits cdf := by
  unfold computeWindow
  by_cases hlen : rows.length ≠ kWindow ∨ credits.length ≠ kWindow
  · rw [if_pos hlen]
    simp only [reduceCtorEq, false_iff, not_and]
    rintro ⟨hrows, hcredits, -, -⟩
    exact absurd hlen (by omega)
  · have hrows : rows.length = kWindow := by omega
    have hcredits : credits.length = kWindow := by omega
    have hfits : 0 + creditR * credits.length < 2 ^ 64 := by
      rw [hcredits]
      decide
    have hcapped := fun total => @cappedSum_eq_some credits 0 total hfits
    rw [if_neg hlen]
    cases hc : cappedSum credits 0 with
    | none =>
      simp only [reduceCtorEq, false_iff, not_and]
      intro hv
      have hsome := (hcapped _).2 ⟨hv.credit, rfl⟩
      rw [hc] at hsome
      cases hsome
    | some total =>
      obtain ⟨hcap, htotal⟩ := (hcapped total).1 hc
      rw [Nat.zero_add] at htotal
      subst htotal
      have hsteps : (rows.zip credits).map Prod.fst = rows :=
        List.map_fst_zip (by omega)
      have hcredit : (rows.zip credits).map Prod.snd = credits :=
        List.map_snd_zip (by omega)
      have hvalid : (∀ s ∈ rows.zip credits, ValidRow cdf s.1) ↔
          ∀ row ∈ rows, ValidRow cdf row := by
        conv_rhs => rw [← hsteps]
        rw [List.forall_mem_map]
      have hflat := @flatCapped_le cdf (rows.zip credits)
      rw [hcredit] at hflat
      have hbound : 0 + creditR * (rows.zip credits).length < 2 ^ 64 := by
        rw [List.length_zip, hrows, hcredits, min_self]
        decide
      have hloop := fun m' => @flatRows_ok_iff cdf (decide (Eligible credits)) (rows.zip credits)
        { cappedUnits := capped credits, eligible := decide (Eligible credits) } m' hbound
      simp only [Nat.zero_add, decide_eq_true_eq] at hloop
      have hrejects := @rejects_eq credits (flatCapped cdf (rows.zip credits)) hcredits hflat
      dsimp only
      generalize hr : flatRows cdf _ _ _ = r
      cases r with
      | error why =>
        simp only [reduceCtorEq, false_iff, not_and]
        intro hv
        have hok := hr.symm.trans ((hloop _).2 ⟨hvalid.2 hv.row, rfl⟩)
        cases hok
      | ok m' =>
        obtain ⟨hv, rfl⟩ := (hloop m').1 hr
        dsimp only
        rw [hrejects, Except.ok.injEq]
        constructor
        · rintro rfl
          exact ⟨⟨hrows, hcredits, hcap, hvalid.1 hv⟩, rfl⟩
        · rintro ⟨-, rfl⟩
          rfl

/-- **The windows that are rejected**: three quarters of their credit, little as it is, stand in
rows with a flat region. -/
theorem computeWindow_reject_iff (rows : List (List Pattern)) (credits : List Nat) (cdf : Bool) :
    (∃ m, computeWindow rows credits cdf = .ok m ∧ m.reject = true) ↔
      ValidWindow rows credits cdf ∧ Eligible credits ∧
        3 * capped credits ≤ 4 * flatCapped cdf (rows.zip credits) := by
  simp only [computeWindow_ok_iff]
  constructor
  · rintro ⟨m, ⟨hv, rfl⟩, hreject⟩
    exact ⟨hv, of_decide_eq_true hreject⟩
  · rintro ⟨hv, hreject⟩
    exact ⟨_, ⟨hv, rfl⟩, decide_eq_true hreject⟩

/-! ## The order of the tokens -/

theorem ValidRow.perm {row row' : List Pattern} (h : row.Perm row') (hv : ValidRow false row) :
    ValidRow false row' := by
  obtain ⟨hwidth, hencoded, hmass⟩ := hv
  rw [encoded_false] at hencoded
  rw [masses_false] at hmass
  constructor
  · rwa [← h.length_eq]
  · exact (encoded_false row').2 fun v hv => hencoded v (h.mem_iff.2 hv)
  · rwa [masses_false, ← (h.map _).sum_eq]

theorem flatRow_perm {row row' : List Pattern} (h : row.Perm row') :
    FlatRow false row ↔ FlatRow false row' := by
  unfold FlatRow
  rw [masses_false, masses_false]
  exact Flat.perm (h.map _)

theorem exactMetrics_perm {rows rows' : List (List Pattern)} (h : List.Forall₂ List.Perm rows rows')
    (credits : List Nat) : exactMetrics rows credits false = exactMetrics rows' credits false := by
  have hsums : flatCapped false (rows.zip credits) = flatCapped false (rows'.zip credits) ∧
      flatCredited false (rows.zip credits) = flatCredited false (rows'.zip credits) := by
    induction h generalizing credits with
    | nil => exact ⟨rfl, rfl⟩
    | cons hrow _ ih =>
      cases credits with
      | nil => exact ⟨rfl, rfl⟩
      | cons credit credits =>
        obtain ⟨hunits, hrows⟩ := ih credits
        unfold flatCapped flatCredited at *
        rw [List.zip_cons_cons, List.zip_cons_cons, List.map_cons, List.map_cons, List.sum_cons,
          List.sum_cons, List.countP_cons, List.countP_cons, hunits, hrows]
        rw [propext (flatRow_perm hrow)]
        exact ⟨rfl, rfl⟩
  unfold exactMetrics
  rw [hsums.1, hsums.2]

theorem ValidWindow.perm {rows rows' : List (List Pattern)} {credits : List Nat}
    (h : List.Forall₂ List.Perm rows rows') (hv : ValidWindow rows credits false) :
    ValidWindow rows' credits false := by
  obtain ⟨hrows, hcredits, hcap, hvalid⟩ := hv
  refine ⟨h.length_eq ▸ hrows, hcredits, hcap, ?_⟩
  clear hrows
  induction h with
  | nil => simp
  | cons hrow _ ih =>
    rw [List.forall_mem_cons] at hvalid ⊢
    exact ⟨hvalid.1.perm hrow, ih hvalid.2⟩

/-- **The order of the tokens in the rows does not matter.** -/
theorem computeWindow_perm {rows rows' : List (List Pattern)}
    (h : List.Forall₂ List.Perm rows rows') (credits : List Nat) (m : Metrics) :
    computeWindow rows credits false = .ok m ↔ computeWindow rows' credits false = .ok m := by
  have hback : List.Forall₂ List.Perm rows' rows := h.flip.imp fun _ _ hp => hp.symm
  rw [computeWindow_ok_iff, computeWindow_ok_iff, exactMetrics_perm h]
  exact and_congr_left fun _ => ⟨ValidWindow.perm h, ValidWindow.perm hback⟩

/-- Half of the mass in one entry, a quarter in four that are equal. -/
def plateauRow : List Pattern :=
  [0x3f000000#32, 0x3d800000#32, 0x3d800000#32, 0x3d800000#32, 0x3d800000#32, 0x3d000000#32]

/-- Its masses. -/
def plateau : List Nat := [2 ^ 148, 2 ^ 145, 2 ^ 145, 2 ^ 145, 2 ^ 145, 2 ^ 144]

theorem decode_plateauRow : decode false plateauRow = .ok (plateau, plateau.sum) := by
  decide +kernel

theorem plateauRow_valid : ValidRow false plateauRow := (decode_ok_iff.1 decode_plateauRow).1

theorem plateauRow_flat : FlatRow false plateauRow := by
  have hmasses : masses false 0 plateauRow = plateau := by decide +kernel
  unfold FlatRow
  rw [hmasses]
  refine ⟨plateau, List.Perm.refl _, by decide +kernel, [2 ^ 145, 2 ^ 145, 2 ^ 145, 2 ^ 145],
    ⟨[2 ^ 148], [2 ^ 144], rfl⟩, ?_, ?_, ?_⟩ <;> decide +kernel

/-- 25 bits of credit, all of it in flat rows. -/
theorem computeWindow_plateau :
    computeWindow (List.replicate kWindow plateauRow) (List.replicate kWindow 100) false =
      .ok ⟨25600, 25600, 256, true, true⟩ := by
  have hcapped : capped (List.replicate kWindow 100) = 25600 := by decide +kernel
  have helig : Eligible (List.replicate kWindow 100) := by
    unfold Eligible
    rw [hcapped]
    decide
  refine (computeWindow_ok_iff _ _ _ _).2 ⟨⟨List.length_replicate, List.length_replicate, ?_, ?_⟩, ?_⟩
  · intro credit hc
    rw [List.eq_of_mem_replicate hc]
    decide
  · intro row hrow
    rw [List.eq_of_mem_replicate hrow]
    exact plateauRow_valid
  · unfold exactMetrics flatCapped flatCredited
    rw [List.zip_replicate', hcapped]
    simp only [helig, plateauRow_flat, if_true, List.map_replicate, List.sum_replicate,
      List.countP_replicate]
    decide

theorem computeWindow_perm_reversed :
    computeWindow ((List.replicate kWindow plateauRow).map List.reverse)
      (List.replicate kWindow 100) false = .ok ⟨25600, 25600, 256, true, true⟩ :=
  (computeWindow_perm (List.forall₂_map_right_iff.2
    (List.forall₂_same.2 fun row _ => (List.reverse_perm row).symm)) _ _).1 computeWindow_plateau
end FlatRegion

end Precheck
