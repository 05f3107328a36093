import Mathlib.Algebra.Order.Ring.Int
import Mathlib.Data.Nat.Size
import Mathlib.Tactic.Linarith
import Mathlib.Tactic.LinearCombination
import Mathlib.Tactic.Ring

/-!
# The partial extended Euclidean algorithm

`mpz_xgcd_partial` stops at the first remainder that is at most `L`.  It runs on the leading 64
bits of the remainders as long as their quotients are certain to be those of the whole numbers,
and applies the resulting matrix at once.

* `Alternating` — a matrix that consecutive quotients multiply to;
* `Leading` — what holds in the loop over the leading bits;
* `leadingRun_limbs` — that loop ends within its fuel, and none of its numbers leaves a limb;
* `Remainders` — what holds of remainders and cofactors in the outer loop;
* `xgcdPartial_spec` — the loops end within their fuel, and what they end with.
-/

set_option autoImplicit false

namespace Vdf

/-- The four numbers `mpz_xgcd_partial` works in. -/
structure Partial where
  co2 : Int
  co1 : Int
  r2 : Int
  r1 : Int
  deriving DecidableEq, Repr

/-- The variables of the loop over the leading bits. -/
structure Limbs where
  rr2 : Int
  rr1 : Int
  aa2 : Int := 0
  aa1 : Int := 1
  bb2 : Int := 1
  bb1 : Int := 0
  i : Nat := 0
  deriving DecidableEq, Repr

/-- `mpz_sizeinbase(x, 2)`. -/
def sizeInBase2 (x : Int) : Nat := max 1 x.natAbs.size

/-- `(mp_limb_signed_t)mpz_getlimbn(r, 0)` after `mpz_tdiv_q_2exp(r, x, bits)`. -/
def leadingLimb (x : Int) (bits : Nat) : Int :=
  let limb : Nat := x.natAbs / 2 ^ bits % 2 ^ 64
  if limb < 2 ^ 63 then limb else (limb : Int) - 2 ^ 64

def Limbs.next (s : Limbs) : Limbs :=
  let qq := s.rr2.tdiv s.rr1
  { rr2 := s.rr1, rr1 := s.rr2 - qq * s.rr1
    aa2 := s.aa1, aa1 := s.aa2 - qq * s.aa1
    bb2 := s.bb1, bb1 := s.bb2 - qq * s.bb1
    i := s.i + 1 }

/-- The quotient may not be that of the whole numbers any more. -/
def Limbs.uncertain (s : Limbs) : Bool :=
  let t := s.next
  if s.i % 2 = 1 then
    decide (t.rr1 < -t.bb1) || decide (s.rr1 - t.rr1 < t.aa1 - s.aa1)
  else
    decide (t.rr1 < -t.aa1) || decide (s.rr1 - t.rr1 < t.bb1 - s.bb1)

def limbLoop (bb : Int) : Nat → Limbs → Limbs
  | 0, s => s
  | n + 1, s =>
    if s.rr1 ≠ 0 ∧ bb < s.rr1 then
      if s.uncertain then s else limbLoop bb n s.next
    else s

/-- The matrix of a run over the leading bits. -/
def leadingRun (L : Int) (s : Partial) : Limbs :=
  let bits := max (sizeInBase2 s.r2) (sizeInBase2 s.r1) + 1 - 64
  let rr1 := leadingLimb s.r1 bits
  limbLoop (leadingLimb L bits) (rr1.toNat + 1) { rr2 := leadingLimb s.r2 bits, rr1 := rr1 }

def Partial.absR1 (s : Partial) : Partial :=
  if s.r1 < 0 then { s with co1 := -s.co1, r1 := -s.r1 } else s

def Partial.absR2 (s : Partial) : Partial :=
  if s.r2 < 0 then { s with co2 := -s.co2, r2 := -s.r2 } else s

/-- One pass of the outer loop. -/
def partialStep (L : Int) (s : Partial) : Partial :=
  let w := leadingRun L s
  if w.i = 0 then
    let q := s.r2.fdiv s.r1
    ⟨s.co1, s.co2 - s.co1 * q, s.r1, s.r2.fmod s.r1⟩
  else
    Partial.absR2 (Partial.absR1
      ⟨s.co2 * w.bb2 + s.co1 * w.aa2, s.co1 * w.aa1 + s.co2 * w.bb1,
        s.r2 * w.bb2 + s.r1 * w.aa2, s.r1 * w.aa1 + s.r2 * w.bb1⟩)

def partialLoop (L : Int) : Nat → Partial → Partial
  | 0, s => s
  | n + 1, s => if s.r1 ≠ 0 ∧ L < s.r1 then partialLoop L n (partialStep L s) else s

/-- `mpz_xgcd_partial`. -/
def xgcdPartial (r2 r1 L : Int) : Partial :=
  let s := partialLoop L (r1.toNat + 1) ⟨0, -1, r2, r1⟩
  if s.r2 < 0 then { s with co2 := -s.co2, co1 := -s.co1, r2 := -s.r2 } else s

/-! ## Matrices of consecutive quotients -/

/-- The signs alternate with the number of quotients, and so does the determinant. -/
structure Alternating (τ aa2 aa1 bb2 bb1 : Int) : Prop where
  sign : τ = 1 ∨ τ = -1
  sign_aa2 : τ * aa2 ≤ 0
  sign_aa1 : 0 ≤ τ * aa1
  sign_bb2 : 0 ≤ τ * bb2
  sign_bb1 : τ * bb1 ≤ 0
  det : aa1 * bb2 - aa2 * bb1 = τ

namespace Alternating

variable {τ aa2 aa1 bb2 bb1 : Int}

theorem one : Alternating 1 0 1 1 0 := ⟨.inl rfl, by omega, by omega, by omega, by omega, by omega⟩

/-- One more quotient. -/
theorem next (h : Alternating τ aa2 aa1 bb2 bb1) {q : Int} (hq : 0 ≤ q) :
    Alternating (-τ) aa1 (aa2 - q * aa1) bb1 (bb2 - q * bb1) := by
  obtain ⟨hs, h1, h2, h3, h4, hd⟩ := h
  have ha := mul_nonneg hq h2
  have hb := mul_nonneg hq (neg_nonneg.2 h4)
  refine ⟨by omega, by linarith, ?_, by linarith, ?_, ?_⟩
  · have e : -τ * (aa2 - q * aa1) = -(τ * aa2) + q * (τ * aa1) := by ring
    rw [e]
    omega
  · have e : -τ * (bb2 - q * bb1) = -(τ * bb2) - q * -(τ * bb1) := by ring
    rw [e]
    omega
  · rw [← hd]
    ring

theorem sq (h : Alternating τ aa2 aa1 bb2 bb1) : τ * τ = 1 := by
  rcases h.sign with rfl | rfl <;> rfl

/-- Not both entries of a column vanish. -/
theorem col_aa (h : Alternating τ aa2 aa1 bb2 bb1) : 0 < τ * aa1 - τ * aa2 := by
  obtain ⟨hs, h1, h2, -, -, hd⟩ := h
  by_contra hcon
  have ha1 : τ * aa1 = 0 := by omega
  have ha2 : τ * aa2 = 0 := by omega
  have hτ : τ ≠ 0 := by omega
  rw [mul_eq_zero, or_iff_right hτ] at ha1 ha2
  rw [ha1, ha2] at hd
  omega

theorem col_bb (h : Alternating τ aa2 aa1 bb2 bb1) : 0 < τ * bb2 - τ * bb1 := by
  obtain ⟨hs, -, -, h3, h4, hd⟩ := h
  by_contra hcon
  have hb1 : τ * bb1 = 0 := by omega
  have hb2 : τ * bb2 = 0 := by omega
  have hτ : τ ≠ 0 := by omega
  rw [mul_eq_zero, or_iff_right hτ] at hb1 hb2
  rw [hb1, hb2] at hd
  omega

/-- What the matrix was applied to, from what it gives. -/
theorem weights (h : Alternating τ aa2 aa1 bb2 bb1) {rr2 rr1 R2 R1 : Int}
    (h2 : rr2 = aa2 * R1 + bb2 * R2) (h1 : rr1 = aa1 * R1 + bb1 * R2) :
    τ * aa1 * rr2 - τ * aa2 * rr1 = R2 ∧ τ * bb2 * rr1 - τ * bb1 * rr2 = R1 := by
  have hd := h.det
  have hτ := h.sq
  rw [h1, h2]
  constructor
  · linear_combination τ * R2 * hd + R2 * hτ
  · linear_combination τ * R1 * hd + R1 * hτ

/-- The entries are bounded by the numbers the matrix was applied to; if neither of those it gives
vanishes, so are the columns. -/
theorem bounds (h : Alternating τ aa2 aa1 bb2 bb1) {rr2 rr1 R2 R1 : Int}
    (h2 : rr2 = aa2 * R1 + bb2 * R2) (h1 : rr1 = aa1 * R1 + bb1 * R2) (hnn : 0 ≤ rr1)
    (hpos : 0 < rr2) :
    τ * aa1 ≤ R2 ∧ -(τ * bb1) ≤ R1 ∧
      (0 < rr1 → τ * aa1 - τ * aa2 ≤ R2 ∧ τ * bb2 - τ * bb1 ≤ R1) := by
  obtain ⟨hR2, hR1⟩ := h.weights h2 h1
  have k1 : τ * aa1 * 1 ≤ τ * aa1 * rr2 := mul_le_mul_of_nonneg_left hpos h.sign_aa1
  have k2 : 0 ≤ -(τ * aa2) * rr1 := mul_nonneg (neg_nonneg.2 h.sign_aa2) hnn
  have k3 : -(τ * bb1) * 1 ≤ -(τ * bb1) * rr2 :=
    mul_le_mul_of_nonneg_left hpos (neg_nonneg.2 h.sign_bb1)
  have k4 : 0 ≤ τ * bb2 * rr1 := mul_nonneg h.sign_bb2 hnn
  refine ⟨by linarith, by linarith, fun hpos1 => ?_⟩
  have k5 : -(τ * aa2) * 1 ≤ -(τ * aa2) * rr1 :=
    mul_le_mul_of_nonneg_left hpos1 (neg_nonneg.2 h.sign_aa2)
  have k6 : τ * bb2 * 1 ≤ τ * bb2 * rr1 := mul_le_mul_of_nonneg_left hpos1 h.sign_bb2
  exact ⟨by linarith, by linarith⟩

/-- What the matrix was applied to is positive if what it gives is. -/
theorem pos (h : Alternating τ aa2 aa1 bb2 bb1) {rr2 rr1 R2 R1 : Int}
    (h2 : rr2 = aa2 * R1 + bb2 * R2) (h1 : rr1 = aa1 * R1 + bb1 * R2) (hpos : 0 < rr1)
    (hle : rr1 ≤ rr2) : 0 < R2 ∧ 0 < R1 := by
  obtain ⟨hR2, hR1⟩ := h.weights h2 h1
  have k1 : τ * aa1 * rr1 ≤ τ * aa1 * rr2 := mul_le_mul_of_nonneg_left hle h.sign_aa1
  have k2 : -(τ * bb1) * rr1 ≤ -(τ * bb1) * rr2 :=
    mul_le_mul_of_nonneg_left hle (neg_nonneg.2 h.sign_bb1)
  have k3 := mul_pos h.col_aa hpos
  have k4 := mul_pos h.col_bb hpos
  constructor
  · linarith
  · linarith

end Alternating

/-! ## The loop over the leading bits -/

/-- What an accepted quotient leaves, whatever the lower bits `eX`, `eY` are. -/
theorem certain_step {p eX eY x1 x2 y1 y2 t1 rr1 : Int} (hX : 0 ≤ eX ∧ eX < p)
    (hY : 0 ≤ eY ∧ eY < p) (hx1 : x1 ≤ 0) (hx2 : 0 ≤ x2) (hy1 : 0 ≤ y1) (hy2 : y2 ≤ 0)
    (hcol : 0 < y1 - y2) (hstep : -y2 ≤ y1) (ht : 0 ≤ t1) (hlow : -x1 ≤ t1)
    (hgap : y1 - y2 ≤ rr1 - t1) :
    0 ≤ p * t1 + x1 * eX + y1 * eY ∧
      p * t1 + x1 * eX + y1 * eY < p * rr1 + x2 * eX + y2 * eY ∧
      p * rr1 ≤ 2 * (p * rr1 + x2 * eX + y2 * eY) := by
  have hp : 0 < p := by omega
  have h1 : 0 ≤ -x1 * (p - eX) := mul_nonneg (by omega) (by omega)
  have h2 : 0 ≤ y1 * eY := mul_nonneg hy1 hY.1
  have h3 : 0 ≤ p * (t1 + x1) := mul_nonneg hp.le (by omega)
  have h4 : 0 < (y1 - y2) * (p - eY) := mul_pos hcol (by omega)
  have h5 : 0 ≤ (x2 - x1) * eX := mul_nonneg (by omega) hX.1
  have h6 : 0 ≤ p * (rr1 - t1 - (y1 - y2)) := mul_nonneg hp.le (by omega)
  have h7 : 0 ≤ x2 * eX := mul_nonneg hx2 hX.1
  have h8 : 0 ≤ -y2 * (p - eY) := mul_nonneg (by omega) (by omega)
  have h9 : 0 ≤ p * (rr1 + 2 * y2) := mul_nonneg hp.le (by omega)
  refine ⟨?_, ?_, ?_⟩
  · linarith
  · linarith
  · linarith

section Leading

/-- The numbers a run is about: their leading parts in units of `p`, and what is below. -/
structure Scaled (r2 r1 L R2 R1 bb p : Int) : Prop where
  low2 : 0 ≤ r2 - p * R2 ∧ r2 - p * R2 < p
  low1 : 0 ≤ r1 - p * R1 ∧ r1 - p * R1 < p
  bound : L < p * (bb + 1)
  bb_nonneg : 0 ≤ bb
  limb : R2 < 2 ^ 63
  le : R1 ≤ R2

def Limbs.sign (s : Limbs) : Int := if s.i % 2 = 1 then -1 else 1

def Limbs.r2 (s : Limbs) (r2 r1 : Int) : Int := r2 * s.bb2 + r1 * s.aa2

def Limbs.r1 (s : Limbs) (r2 r1 : Int) : Int := r1 * s.aa1 + r2 * s.bb1

/-- The loop has only met quotients of the whole numbers. -/
structure Leading (r2 r1 L R2 R1 : Int) (s : Limbs) : Prop where
  alt : Alternating s.sign s.aa2 s.aa1 s.bb2 s.bb1
  rr2_eq : s.rr2 = s.aa2 * R1 + s.bb2 * R2
  rr1_eq : s.rr1 = s.aa1 * R1 + s.bb1 * R2
  rr1_nonneg : 0 ≤ s.rr1
  rr1_le : s.rr1 ≤ s.rr2
  rr2_le : s.rr2 ≤ R2
  r1_nonneg : 0 ≤ s.r1 r2 r1
  r1_le : s.r1 r2 r1 ≤ r1
  later : s.i ≠ 0 → s.r1 r2 r1 < s.r2 r2 r1 ∧ s.r2 r2 r1 ≤ r1 ∧ L < 2 * s.r2 r2 r1

variable {r2 r1 L R2 R1 bb p : Int} {s : Limbs}

theorem Limbs.sign_next (s : Limbs) : s.next.sign = -s.sign := by
  have hi : s.next.i = s.i + 1 := rfl
  unfold Limbs.sign
  rw [hi]
  rcases Nat.mod_two_eq_zero_or_one s.i with h | h
  · rw [if_pos (by omega), if_neg (by omega)]
  · rw [if_neg (by omega), if_pos h]
    rfl

/-- **An accepted quotient keeps the invariant.** -/
theorem Leading.next (hsc : Scaled r2 r1 L R2 R1 bb p) (h : Leading r2 r1 L R2 R1 s)
    (hrun : s.rr1 ≠ 0 ∧ bb < s.rr1) (hcert : s.uncertain = false) :
    Leading r2 r1 L R2 R1 s.next := by
  obtain ⟨hne, hbb⟩ := hrun
  have hpos : 0 < s.rr1 := by have := hsc.bb_nonneg; omega
  have hq1 : 1 ≤ s.rr2.tdiv s.rr1 := by
    rw [Int.tdiv_eq_ediv_of_nonneg (by have := h.rr1_le; omega)]
    exact (Int.le_ediv_iff_mul_le hpos).2 (by have := h.rr1_le; omega)
  have hrem : 0 ≤ s.rr2 - s.rr2.tdiv s.rr1 * s.rr1 ∧
      s.rr2 - s.rr2.tdiv s.rr1 * s.rr1 < s.rr1 := by
    have hdef := Int.tmod_add_mul_tdiv s.rr2 s.rr1
    have hlt := Int.tmod_lt_of_pos s.rr2 hpos
    have hnn := Int.tmod_nonneg s.rr1 (a := s.rr2) (by have := h.rr1_le; omega)
    have hcomm := mul_comm s.rr1 (s.rr2.tdiv s.rr1)
    omega
  have halt := h.alt.next (by omega : 0 ≤ s.rr2.tdiv s.rr1)
  have hcolA := halt.col_aa
  have hcolB := halt.col_bb
  obtain ⟨hs, h1, h2, h3, h4, -⟩ := h.alt
  obtain ⟨-, -, g2, -, g4, -⟩ := halt
  have hbq : -(s.sign * s.bb1) ≤ -(s.sign * (s.rr2.tdiv s.rr1 * s.bb1)) := by
    rw [mul_left_comm, ← mul_neg (s.rr2.tdiv s.rr1)]
    exact le_mul_of_one_le_left (neg_nonneg.2 h4) hq1
  have haq : s.sign * s.aa1 ≤ s.sign * (s.rr2.tdiv s.rr1 * s.aa1) := by
    rw [mul_left_comm]
    exact le_mul_of_one_le_left h2 hq1
  -- In either parity the smaller remainder is the one just divided by.
  have hfacts : 0 ≤ s.next.r1 r2 r1 ∧ s.next.r1 r2 r1 < s.r1 r2 r1 ∧
      p * s.rr1 ≤ 2 * s.r1 r2 r1 := by
    have hr1 : s.r1 r2 r1 =
        p * s.rr1 + s.aa1 * (r1 - p * R1) + s.bb1 * (r2 - p * R2) := by
      unfold Limbs.r1
      rw [h.rr1_eq]
      ring
    have hnext : s.next.r1 r2 r1 = p * s.next.rr1 + s.next.aa1 * (r1 - p * R1) +
        s.next.bb1 * (r2 - p * R2) := by
      unfold Limbs.r1 Limbs.next
      dsimp only
      rw [h.rr1_eq, h.rr2_eq]
      ring
    rw [hr1, hnext]
    unfold Limbs.uncertain at hcert
    unfold Limbs.sign at hs h1 h2 h3 h4 g2 g4 hbq haq hcolA hcolB
    rcases Nat.mod_two_eq_zero_or_one s.i with hi | hi
    · rw [if_neg (by omega)] at hcert hs h1 h2 h3 h4 g2 g4 hbq haq hcolA hcolB
      simp only [Bool.or_eq_false_iff, decide_eq_false_iff_not, not_lt] at hcert
      unfold Limbs.next at hcert ⊢
      dsimp only at hcert ⊢
      exact certain_step hsc.low1 hsc.low2 (by omega) (by omega) (by omega) (by omega)
        (by omega) (by omega) hrem.1 hcert.1 hcert.2
    · rw [if_pos hi] at hcert hs h1 h2 h3 h4 g2 g4 hbq haq hcolA hcolB
      simp only [Bool.or_eq_false_iff, decide_eq_false_iff_not, not_lt] at hcert
      unfold Limbs.next at hcert ⊢
      dsimp only at hcert ⊢
      have hswap := @certain_step _ _ _ _ s.bb1 _ s.aa1 _ s.rr1 hsc.low2 hsc.low1
        (by omega) (by omega) (by omega) (by omega) (by omega) (by omega) hrem.1 hcert.1 hcert.2
      refine ⟨?_, ?_, ?_⟩ <;> linarith [hswap.1, hswap.2.1, hswap.2.2]
  obtain ⟨hnn, hlt, hbig⟩ := hfacts
  have hr2 : s.next.r2 r2 r1 = s.r1 r2 r1 := by
    unfold Limbs.r2 Limbs.r1 Limbs.next
    dsimp only
    ring
  refine ⟨?_, h.rr1_eq, ?_, hrem.1, hrem.2.le, h.rr1_le.trans h.rr2_le, hnn, by have := h.r1_le; omega, fun _ => ?_⟩
  · rw [Limbs.sign_next]
    exact h.alt.next (by omega)
  · show s.rr2 - s.rr2.tdiv s.rr1 * s.rr1 = _
    unfold Limbs.next
    dsimp only
    rw [h.rr2_eq, h.rr1_eq]
    ring
  · have hscale : p * (bb + 1) ≤ p * s.rr1 :=
      mul_le_mul_of_nonneg_left (by omega) (by have := hsc.low1; omega)
    have := hsc.bound
    have := h.r1_le
    rw [hr2]
    omega

theorem limbLoop_leading (hsc : Scaled r2 r1 L R2 R1 bb p) :
    ∀ n s, Leading r2 r1 L R2 R1 s → Leading r2 r1 L R2 R1 (limbLoop bb n s) := by
  intro n
  induction n with
  | zero => exact fun s h => h
  | succ n ih =>
    intro s h
    rw [limbLoop]
    split
    · rename_i hrun
      split
      · exact h
      · rename_i hcert
        exact ih _ (h.next hsc hrun (by simpa using hcert))
    · exact h

/-- The loop ends for one of the reasons the source gives. -/
theorem limbLoop_ends (hbb : 0 ≤ bb) :
    ∀ (n : Nat) (s : Limbs), s.rr1 < n →
      (limbLoop bb n s).uncertain = true ∨ (limbLoop bb n s).rr1 = 0 ∨
        (limbLoop bb n s).rr1 ≤ bb := by
  intro n
  induction n with
  | zero =>
    intro s hn
    exact .inr (.inr (by show s.rr1 ≤ bb; omega))
  | succ n ih =>
    intro s hn
    rw [limbLoop]
    split
    · rename_i hrun
      split
      · exact .inl ‹_›
      · apply ih
        have hlt := Int.tmod_lt_of_pos s.rr2 (by omega : 0 < s.rr1)
        have hdef := Int.tmod_add_mul_tdiv s.rr2 s.rr1
        have hcomm := mul_comm s.rr1 (s.rr2.tdiv s.rr1)
        show s.rr2 - s.rr2.tdiv s.rr1 * s.rr1 < n
        omega
    · rename_i hrun
      right
      omega

/-! ## The numbers of the loop over the leading bits -/

/-- What a pass computes in limbs; `||` leaves the second comparison out where the first holds. -/
def Limbs.numbers (s : Limbs) : List Int :=
  let qq := s.rr2.tdiv s.rr1
  let t := s.next
  [qq, qq * s.rr1, t.rr1, qq * s.aa1, t.aa1, qq * s.bb1, t.bb1] ++
    if s.i % 2 = 1 then
      -t.bb1 :: if t.rr1 < -t.bb1 then [] else [s.rr1 - t.rr1, t.aa1 - s.aa1]
    else
      -t.aa1 :: if t.rr1 < -t.aa1 then [] else [s.rr1 - t.rr1, t.bb1 - s.bb1]

/-- The states in which the loop makes a pass. -/
def limbPasses (bb : Int) : Nat → Limbs → List Limbs
  | 0, _ => []
  | n + 1, s =>
    if s.rr1 ≠ 0 ∧ bb < s.rr1 then
      s :: if s.uncertain then [] else limbPasses bb n s.next
    else []

/-- **A pass stays within `R2`.** -/
theorem Leading.numbers_le (h : Leading r2 r1 L R2 R1 s) (hle : R1 ≤ R2) (hpos : 0 < s.rr1) :
    ∀ v ∈ s.numbers, |v| ≤ R2 := by
  have hrr := h.rr1_le
  have hq : 0 ≤ s.rr2.tdiv s.rr1 := Int.tdiv_nonneg (by omega) hpos.le
  have hrem : 0 ≤ s.next.rr1 := by
    have hmod := Int.tmod_nonneg s.rr1 (a := s.rr2) (by omega)
    rwa [Int.tmod_def, mul_comm] at hmod
  have hqr : s.rr2.tdiv s.rr1 * s.rr1 = s.rr2 - s.next.rr1 := by
    unfold Limbs.next
    dsimp only
    ring
  have hqle : s.rr2.tdiv s.rr1 * 1 ≤ s.rr2.tdiv s.rr1 * s.rr1 :=
    mul_le_mul_of_nonneg_left hpos hq
  have hrr2 := h.rr2_le
  -- The next matrix has the opposite sign.
  have hnext := h.alt.next hq
  have hrr1 : s.next.rr1 = s.next.aa1 * R1 + s.next.bb1 * R2 := by
    unfold Limbs.next
    dsimp only
    rw [h.rr2_eq, h.rr1_eq]
    ring
  obtain ⟨haa, hbb, hcols⟩ := hnext.bounds h.rr1_eq hrr1 hrem hpos
  obtain ⟨hR2, hR1⟩ := h.alt.pos h.rr2_eq h.rr1_eq hpos hrr
  obtain ⟨hw2, hw1⟩ := hnext.weights h.rr1_eq hrr1
  obtain ⟨-, h1, h2, h3, h4, -⟩ := h.alt
  obtain ⟨-, -, g2, -, g4, -⟩ := hnext
  have hta : s.next.aa1 = s.aa2 - s.rr2.tdiv s.rr1 * s.aa1 := rfl
  have htb : s.next.bb1 = s.bb2 - s.rr2.tdiv s.rr1 * s.bb1 := rfl
  rw [← hta] at haa hcols hw2 g2
  rw [← htb] at hbb hcols hw1 g4
  unfold Limbs.sign at h1 h2 h3 h4 g2 g4 haa hbb hcols hw2 hw1
  unfold Limbs.numbers
  dsimp only
  -- Where the first comparison fails, the new remainder is not zero.
  rcases Nat.mod_two_eq_zero_or_one s.i with hi | hi
  · rw [if_neg (by omega)] at h1 h2 h3 h4 g2 g4 haa hbb hcols hw2 hw1
    rw [if_neg (by omega)]
    have hqa : 0 ≤ s.rr2.tdiv s.rr1 * s.aa1 := mul_nonneg hq (by omega)
    have hqb : s.rr2.tdiv s.rr1 * s.bb1 ≤ 0 := mul_nonpos_of_nonneg_of_nonpos hq (by omega)
    have hgap : ¬ s.next.rr1 < -s.next.aa1 → 0 < s.next.rr1 := by
      intro hno
      by_contra hzero
      have ht : s.next.rr1 = 0 := by omega
      have ha : s.next.aa1 = 0 := by omega
      rw [ht, ha] at hw2
      omega
    refine List.forall_mem_append.2 ⟨?_, ?_⟩
    · simp only [List.forall_mem_cons, List.not_mem_nil, false_implies, implies_true, and_true,
        abs_le]
      omega
    · split
      · simp only [List.forall_mem_singleton, abs_le]
        omega
      · rename_i hno
        have := hcols (hgap hno)
        simp only [List.forall_mem_cons, List.not_mem_nil, false_implies, implies_true, and_true,
          abs_le]
        omega
  · rw [if_pos hi] at h1 h2 h3 h4 g2 g4 haa hbb hcols hw2 hw1
    rw [if_pos hi]
    have hqa : s.rr2.tdiv s.rr1 * s.aa1 ≤ 0 := mul_nonpos_of_nonneg_of_nonpos hq (by omega)
    have hqb : 0 ≤ s.rr2.tdiv s.rr1 * s.bb1 := mul_nonneg hq (by omega)
    have hgap : ¬ s.next.rr1 < -s.next.bb1 → 0 < s.next.rr1 := by
      intro hno
      by_contra hzero
      have ht : s.next.rr1 = 0 := by omega
      have hb : s.next.bb1 = 0 := by omega
      rw [ht, hb] at hw1
      omega
    refine List.forall_mem_append.2 ⟨?_, ?_⟩
    · simp only [List.forall_mem_cons, List.not_mem_nil, false_implies, implies_true, and_true,
        abs_le]
      omega
    · split
      · simp only [List.forall_mem_singleton, abs_le]
        omega
      · rename_i hno
        have := hcols (hgap hno)
        simp only [List.forall_mem_cons, List.not_mem_nil, false_implies, implies_true, and_true,
          abs_le]
        omega

/-- **So does every pass of the loop.** -/
theorem limbPasses_numbers_le (hsc : Scaled r2 r1 L R2 R1 bb p) :
    ∀ n s, Leading r2 r1 L R2 R1 s → ∀ w ∈ limbPasses bb n s, ∀ v ∈ w.numbers, |v| ≤ R2 := by
  intro n
  induction n with
  | zero => exact fun _ _ => nofun
  | succ n ih =>
    intro s h
    rw [limbPasses]
    split
    · rename_i hrun
      have hpos : 0 < s.rr1 := by
        have := hsc.bb_nonneg
        omega
      refine List.forall_mem_cons.2 ⟨h.numbers_le hsc.le hpos, ?_⟩
      split
      · exact nofun
      · rename_i hcert
        exact ih _ (h.next hsc hrun (by simpa using hcert))
    · exact nofun

/-! ## The outer loop -/

/-- Remainders of `a` and `b` with their cofactors. -/
structure Remainders (a b : Int) (s : Partial) : Prop where
  r1_nonneg : 0 ≤ s.r1
  r1_lt : s.r1 < s.r2
  r2_congr : a ∣ s.r2 + s.co2 * b
  r1_congr : a ∣ s.r1 + s.co1 * b
  signs : (0 ≤ s.co2 ∧ s.co1 ≤ 0 ∧ s.co2 * s.r1 - s.co1 * s.r2 = a) ∨
    (s.co2 ≤ 0 ∧ 0 ≤ s.co1 ∧ s.co1 * s.r2 - s.co2 * s.r1 = a)

theorem Remainders.init {a b : Int} (hb : 0 ≤ b) (hlt : b < a) :
    Remainders a b ⟨0, -1, a, b⟩ :=
  ⟨hb, hlt, by simp, by simp, .inl (by simp)⟩

/-- **A matrix of quotients keeps the invariant.** -/
theorem Remainders.apply {a b : Int} {s : Partial} (h : Remainders a b s)
    {τ aa2 aa1 bb2 bb1 : Int} (hm : Alternating τ aa2 aa1 bb2 bb1)
    (hnn : 0 ≤ s.r1 * aa1 + s.r2 * bb1)
    (hlt : s.r1 * aa1 + s.r2 * bb1 < s.r2 * bb2 + s.r1 * aa2) :
    Remainders a b ⟨s.co2 * bb2 + s.co1 * aa2, s.co1 * aa1 + s.co2 * bb1,
      s.r2 * bb2 + s.r1 * aa2, s.r1 * aa1 + s.r2 * bb1⟩ := by
  obtain ⟨hs, g1, g2, g3, g4, hd⟩ := hm
  refine ⟨hnn, hlt, ?_, ?_, ?_⟩
  · have hsum := Int.dvd_add (h.r2_congr.mul_right bb2) (h.r1_congr.mul_right aa2)
    convert hsum using 1
    ring
  · have hsum := Int.dvd_add (h.r1_congr.mul_right aa1) (h.r2_congr.mul_right bb1)
    convert hsum using 1
    ring
  · have hdet : (s.co2 * bb2 + s.co1 * aa2) * (s.r1 * aa1 + s.r2 * bb1) -
        (s.co1 * aa1 + s.co2 * bb1) * (s.r2 * bb2 + s.r1 * aa2) =
          τ * (s.co2 * s.r1 - s.co1 * s.r2) := by
      rw [← hd]
      ring
    dsimp only
    -- The cofactors alternate in sign as the entries of the matrix do.
    rcases hs with rfl | rfl <;> rcases h.signs with ⟨h2, h1, ha⟩ | ⟨h2, h1, ha⟩
    · refine .inl ⟨?_, ?_, by linarith⟩ <;> nlinarith
    · refine .inr ⟨?_, ?_, by linarith⟩ <;> nlinarith
    · refine .inr ⟨?_, ?_, by linarith⟩ <;> nlinarith
    · refine .inl ⟨?_, ?_, by linarith⟩ <;> nlinarith

/-! ## Leading bits -/

theorem leadingLimb_eq {x : Int} (hx : 0 ≤ x) {bits : Nat} (h : x.natAbs < 2 ^ (bits + 63)) :
    leadingLimb x bits = x / 2 ^ bits := by
  have hdiv : x.natAbs / 2 ^ bits < 2 ^ 63 := by
    rw [Nat.div_lt_iff_lt_mul (Nat.two_pow_pos _), ← pow_add, Nat.add_comm 63]
    exact h
  have hmod : x.natAbs / 2 ^ bits % 2 ^ 64 = x.natAbs / 2 ^ bits :=
    Nat.mod_eq_of_lt (hdiv.trans (Nat.pow_lt_pow_right (by decide) (by decide)))
  have habs : (x.natAbs : Int) = x := Int.natAbs_of_nonneg hx
  unfold leadingLimb
  dsimp only
  rw [hmod, if_pos hdiv, Int.natCast_ediv, habs, Nat.cast_pow, Nat.cast_ofNat]

theorem natAbs_lt_of_size {x : Int} {bits : Nat} (h : sizeInBase2 x + 1 - 64 ≤ bits) :
    x.natAbs < 2 ^ (bits + 63) := by
  apply lt_of_lt_of_le (Nat.lt_size_self _)
  apply Nat.pow_le_pow_right (by decide)
  unfold sizeInBase2 at h
  omega

theorem scaled_leading (hL : 0 ≤ L) (hr1 : L < r1) (hlt : r1 < r2) {bits : Nat}
    (hbits : bits = max (sizeInBase2 r2) (sizeInBase2 r1) + 1 - 64) :
    Scaled r2 r1 L (leadingLimb r2 bits) (leadingLimb r1 bits) (leadingLimb L bits) (2 ^ bits) := by
  have hs2 : r2.natAbs < 2 ^ (bits + 63) := natAbs_lt_of_size (by omega)
  have hs1 : r1.natAbs < 2 ^ (bits + 63) := natAbs_lt_of_size (by omega)
  have hsL : L.natAbs < 2 ^ (bits + 63) := by omega
  have hp : (0 : Int) < 2 ^ bits := by positivity
  rw [leadingLimb_eq (by omega) hs2, leadingLimb_eq (by omega) hs1, leadingLimb_eq hL hsL]
  have key (x : Int) : 0 ≤ x - 2 ^ bits * (x / 2 ^ bits) ∧
      x - 2 ^ bits * (x / 2 ^ bits) < 2 ^ bits := by
    have h1 := Int.emod_nonneg x hp.ne'
    have h2 := Int.emod_lt_of_pos x hp
    have h3 := Int.emod_add_mul_ediv x (2 ^ bits)
    constructor <;> linarith
  refine ⟨key r2, key r1, ?_, Int.ediv_nonneg hL hp.le, ?_, Int.ediv_le_ediv hp hlt.le⟩
  · have := (key L).2
    linarith [mul_add (2 ^ bits : Int) (L / 2 ^ bits) 1]
  · rw [Int.ediv_lt_iff_lt_mul hp, ← pow_add, Nat.add_comm]
    have : (r2.natAbs : Int) < 2 ^ (bits + 63) := by exact_mod_cast hs2
    omega

theorem Leading.init (hsc : Scaled r2 r1 L R2 R1 bb p) (hR1 : 0 ≤ R1) (hr1 : 0 ≤ r1) :
    Leading r2 r1 L R2 R1 { rr2 := R2, rr1 := R1 } := by
  refine ⟨.one, by simp, by simp, hR1, hsc.le, le_rfl, ?_, ?_, fun h => absurd rfl h⟩
  · simpa [Limbs.r1] using hr1
  · simp [Limbs.r1]

theorem leadingRun_spec {s : Partial} (hL : 0 ≤ L) (hr1 : L < s.r1) (hlt : s.r1 < s.r2) :
    ∃ R2 R1, Leading s.r2 s.r1 L R2 R1 (leadingRun L s) := by
  have hsc := scaled_leading hL hr1 hlt rfl
  refine ⟨_, _, limbLoop_leading hsc _ _ (Leading.init hsc ?_ (by omega))⟩
  rw [leadingLimb_eq (by omega) (natAbs_lt_of_size (by omega))]
  exact Int.ediv_nonneg (by omega) (by positivity)

/-- **A run over the leading bits ends where the loop of the source does, and none of its numbers
leaves a limb.** -/
theorem leadingRun_limbs {s : Partial} (hL : 0 ≤ L) (hr1 : L < s.r1) (hlt : s.r1 < s.r2) {bits : Nat}
    (hbits : bits = max (sizeInBase2 s.r2) (sizeInBase2 s.r1) + 1 - 64) :
    ((leadingRun L s).uncertain = true ∨ (leadingRun L s).rr1 = 0 ∨
        (leadingRun L s).rr1 ≤ leadingLimb L bits) ∧
      ∀ w ∈ limbPasses (leadingLimb L bits) ((leadingLimb s.r1 bits).toNat + 1)
          { rr2 := leadingLimb s.r2 bits, rr1 := leadingLimb s.r1 bits },
        ∀ v ∈ w.numbers, |v| < 2 ^ 63 := by
  have hsc := scaled_leading hL hr1 hlt hbits
  have hR1 : 0 ≤ leadingLimb s.r1 bits := by
    rw [leadingLimb_eq (by omega) (natAbs_lt_of_size (by omega))]
    exact Int.ediv_nonneg (by omega) (by positivity)
  constructor
  · unfold leadingRun
    rw [← hbits]
    exact limbLoop_ends hsc.bb_nonneg _ _ (by dsimp only; omega)
  · intro w hw v hv
    have hle := limbPasses_numbers_le hsc _ _ (Leading.init hsc hR1 (by omega)) w hw v hv
    have := hsc.limb
    omega

end Leading

/-! ## The whole function -/

section Outer

variable {a b L : Int} {s : Partial}

theorem Partial.abs_of_nonneg (h1 : 0 ≤ s.r1) (h2 : 0 ≤ s.r2) : s.absR1.absR2 = s := by
  unfold Partial.absR1
  rw [if_neg (not_lt.2 h1)]
  unfold Partial.absR2
  rw [if_neg (not_lt.2 h2)]

/-- **One pass of the outer loop.** -/
theorem partialStep_spec (h : Remainders a b s) (hL : 0 ≤ L) (hr1 : L < s.r1) :
    Remainders a b (partialStep L s) ∧ (partialStep L s).r1 < s.r1 ∧
      L < 2 * (partialStep L s).r2 := by
  obtain ⟨R2, R1, hrun⟩ := leadingRun_spec hL hr1 h.r1_lt
  have hpos : 0 < s.r1 := by omega
  unfold partialStep
  dsimp only
  by_cases hi : (leadingRun L s).i = 0
  · rw [if_pos hi]
    have hq : 0 ≤ s.r2.fdiv s.r1 := Int.fdiv_nonneg (by have := h.r1_lt; omega) hpos.le
    have hmod : s.r2.fmod s.r1 =
        s.r1 * (0 - s.r2.fdiv s.r1 * 1) + s.r2 * (1 - s.r2.fdiv s.r1 * 0) := by
      rw [Int.fmod_def]
      ring
    have hnn := Int.fmod_nonneg_of_pos s.r2 hpos
    have hlt := Int.fmod_lt_of_pos s.r2 hpos
    have happ := h.apply (Alternating.one.next hq) (by rw [← hmod]; exact hnn)
      (by rw [← hmod]; simpa using hlt)
    refine ⟨?_, hlt, by dsimp only; omega⟩
    convert happ using 2
    · ring
    · ring
    · ring
  · rw [if_neg hi]
    obtain ⟨hlt, hle, hbig⟩ := hrun.later hi
    have hnn := hrun.r1_nonneg
    unfold Limbs.r2 at hlt hle hbig
    unfold Limbs.r1 at hlt hnn
    rw [Partial.abs_of_nonneg hnn (by dsimp only; omega)]
    exact ⟨h.apply hrun.alt hnn hlt, by dsimp only; omega, hbig⟩

theorem partialLoop_spec (hL : 0 ≤ L) :
    ∀ (n : Nat) (s : Partial), Remainders a b s → L < 2 * s.r2 → s.r1 < n →
      Remainders a b (partialLoop L n s) ∧ L < 2 * (partialLoop L n s).r2 ∧
        (partialLoop L n s).r1 ≤ L := by
  intro n
  induction n with
  | zero =>
    intro s h _ hn
    have := h.r1_nonneg
    omega
  | succ n ih =>
    intro s h hbig hn
    rw [partialLoop]
    split
    · rename_i hrun
      obtain ⟨hstep, hlt, hbig'⟩ := partialStep_spec h hL hrun.2
      exact ih _ hstep hbig' (by omega)
    · rename_i hrun
      exact ⟨h, hbig, by omega⟩

/-- **The partial Euclidean algorithm**: it stops at a remainder that is at most `L`, while the
remainder before it was at least half of that. -/
theorem xgcdPartial_spec (hb : 0 ≤ b) (hlt : b < a) (hL : 0 ≤ L) (hLa : L < 2 * a) :
    Remainders a b (xgcdPartial a b L) ∧ L < 2 * (xgcdPartial a b L).r2 ∧
      (xgcdPartial a b L).r1 ≤ L := by
  have hloop := partialLoop_spec hL (b.toNat + 1) _ (Remainders.init hb hlt) hLa
    (by dsimp only; omega)
  have hr2 := hloop.1.r1_lt
  have hr1 := hloop.1.r1_nonneg
  unfold xgcdPartial
  dsimp only
  rw [if_neg (by omega)]
  exact hloop

/-- **What a caller of `mpz_xgcd_partial` gets**: the first remainder at most `L` that the matrices
lead to and the one before it, with cofactors that together make up `a`. -/
theorem xgcdPartial_bezout (hb : 0 ≤ b) (hlt : b < a) (hL : 0 ≤ L) (hLa : L < a) :
    0 ≤ (xgcdPartial a b L).r1 ∧ (xgcdPartial a b L).r1 ≤ L ∧
      (xgcdPartial a b L).r1 < (xgcdPartial a b L).r2 ∧ L < 2 * (xgcdPartial a b L).r2 ∧
      a ∣ (xgcdPartial a b L).r1 + (xgcdPartial a b L).co1 * b ∧
      a ∣ (xgcdPartial a b L).r2 + (xgcdPartial a b L).co2 * b ∧
      |(xgcdPartial a b L).co1| * (xgcdPartial a b L).r2 +
        |(xgcdPartial a b L).co2| * (xgcdPartial a b L).r1 = a := by
  obtain ⟨h, hbig, hle⟩ := xgcdPartial_spec hb hlt hL (by omega)
  refine ⟨h.r1_nonneg, hle, h.r1_lt, hbig, h.r1_congr, h.r2_congr, ?_⟩
  rcases h.signs with ⟨h2, h1, hdet⟩ | ⟨h2, h1, hdet⟩
  · rw [abs_of_nonpos h1, abs_of_nonneg h2]
    linarith
  · rw [abs_of_nonneg h1, abs_of_nonpos h2]
    linarith

theorem xgcdPartial_bezout_large :
    (0 : Int) ≤ 3 ^ 60 ∧ (xgcdPartial (2 ^ 100 + 1) (3 ^ 60) (2 ^ 50)).r1 ≤ 2 ^ 50 :=
  ⟨by norm_num, (xgcdPartial_bezout (a := 2 ^ 100 + 1) (b := 3 ^ 60) (L := 2 ^ 50) (by norm_num)
    (by norm_num) (by norm_num) (by norm_num)).2.1⟩

end Outer

end Vdf
