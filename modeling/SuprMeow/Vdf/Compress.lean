import Mathlib.Algebra.Squarefree.Basic
import Mathlib.Data.Int.GCD
import Mathlib.Data.Int.ModEq
import Mathlib.Data.Nat.Sqrt
import SuprMeow.Vdf.Forms
import SuprMeow.Vdf.PartialGcd

/-!
# Compressed forms

`bqfc_compr` keeps half of `b`: a cofactor `t` with `t |b|` below the square root of `a` modulo
`a`.  `bqfc_decompr` finds that remainder again as a square root, from `t` and the discriminant.

* `Compressed` — the equations a compressed form satisfies;
* `compr_spec` — what `bqfc_compr` writes satisfies them;
* `decompr_of_compressed` — `bqfc_decompr` inverts whatever satisfies them;
* `decompr_compr` — the two together, for every reduced form.
-/

set_option autoImplicit false

namespace Vdf

/-- `struct qfb_c`. -/
structure Qfb where
  a : Int
  t : Int
  g : Int
  b0 : Int
  bSign : Bool
  deriving DecidableEq, Repr

/-- `mpz_sqrt`. -/
def mpzSqrt (n : Int) : Int := Nat.sqrt n.toNat

/-- `bqfc_compr`. -/
def bqfcCompr (a b : Int) : Qfb :=
  if a = b then ⟨a, 0, 0, 0, false⟩
  else
    let sign := decide (b < 0)
    let t := -(xgcdPartial a (if sign then -b else b) (mpzSqrt a)).co1
    let g : Int := Int.gcd a t
    if g = 1 then ⟨a, t, g, 0, sign⟩
    else
      let a' := a / g
      let b0 := b.tdiv a'
      ⟨a', t / g, g, if sign then -b0 else b0, sign⟩

/-- The coefficient `mpz_gcdext` gives for `t`: the one of least absolute value. -/
def gcdextCoeff (t a : Int) : Int :=
  let s := (Int.gcdA t a) % a
  if a < 2 * s then s - a else s

/-- `bqfc_decompr`; `none` is an error code. -/
def bqfcDecompr (d : Int) (c : Qfb) : Option (Int × Int) :=
  if c.t = 0 then some (c.a, c.a)
  else
    let t := if c.t < 0 then c.t + c.a else c.t
    if c.a = 0 then none
    else if (Int.gcd t c.a : Int) ≠ 1 then none
    else
      let inv := gcdextCoeff t c.a
      let inv := if inv < 0 then inv + c.a else inv
      let tmp := (c.t ^ 2 % c.a * d.fmod c.a).tmod c.a
      if mpzSqrt tmp * mpzSqrt tmp ≠ tmp then none
      else
        let b := (mpzSqrt tmp * inv).tmod c.a
        let a := if 1 < c.g then c.a * c.g else c.a
        let b := if 0 < c.b0 then b + c.a * c.b0 else b
        some (a, if c.bSign then -b else b)

/-! ## What a compressed form satisfies -/

/-- `c` stands for `(a, b)`, with `r` the remainder that is found again. -/
structure Compressed (a b d : Int) (r : Int) (c : Qfb) : Prop where
  a_pos : 0 < c.a
  g_pos : 0 < c.g
  mul : c.a * c.g = a
  coprime : IsCoprime c.t c.a
  t_ne : c.t ≠ 0
  r_nonneg : 0 ≤ r
  r_sq : r * r < c.a
  congr : c.a ∣ c.t * |b| - r
  disc : c.a ∣ b * b - d
  b0 : c.b0 = |b| / c.a
  sign : c.bSign = decide (b < 0)

theorem mpzSqrt_mul_self {r : Int} (h : 0 ≤ r) : mpzSqrt (r * r) = r := by
  unfold mpzSqrt
  have hr : (r * r).toNat = r.toNat * r.toNat := Int.toNat_mul h h
  rw [hr, Nat.sqrt_eq]
  exact Int.toNat_of_nonneg h

section Decompr

variable {a b d r : Int} {c : Qfb}

theorem gcdextCoeff_congr {t m : Int} (h : Int.gcd t m = 1) :
    m ∣ t * gcdextCoeff t m - 1 := by
  have hbez := Int.gcd_eq_gcd_ab t m
  rw [h] at hbez
  have hmod : m ∣ Int.gcdA t m - (Int.gcdA t m) % m := Int.dvd_self_sub_emod
  have hcoeff : m ∣ Int.gcdA t m - gcdextCoeff t m := by
    unfold gcdextCoeff
    dsimp only
    split
    · have := Int.dvd_add hmod (Int.dvd_refl m)
      convert this using 1
      ring
    · exact hmod
  obtain ⟨k, hk⟩ := hcoeff
  refine ⟨-(Int.gcdB t m) - t * k, ?_⟩
  push_cast at hbez
  linear_combination (-1) * hbez - t * hk

/-- The square whose root is taken is the square of the remainder. -/
theorem Compressed.square (h : Compressed a b d r c) :
    (c.t ^ 2 % c.a * d.fmod c.a).tmod c.a = r * r := by
  have ha := h.a_pos
  have hnn : 0 ≤ c.t ^ 2 % c.a * d.fmod c.a :=
    mul_nonneg (Int.emod_nonneg _ ha.ne') (Int.fmod_nonneg_of_pos d ha)
  rw [Int.tmod_eq_emod_of_nonneg hnn, Int.fmod_eq_emod_of_nonneg _ ha.le, ← Int.mul_emod]
  have hmod : c.t ^ 2 * d ≡ r * r [ZMOD c.a] := by
    have hd : d ≡ b * b [ZMOD c.a] := Int.modEq_iff_dvd.2 h.disc
    have hr : r ≡ c.t * |b| [ZMOD c.a] := Int.modEq_iff_dvd.2 h.congr
    calc c.t ^ 2 * d ≡ c.t ^ 2 * (b * b) [ZMOD c.a] := hd.mul_left _
      _ = (c.t * |b|) * (c.t * |b|) := by rw [← abs_mul_abs_self b]; ring
      _ ≡ r * r [ZMOD c.a] := (hr.mul hr).symm
  rw [hmod, Int.emod_eq_of_lt (mul_self_nonneg r) h.r_sq]

/-- **Whatever satisfies the equations is decompressed.** -/
theorem decompr_of_compressed (h : Compressed a b d r c) :
    bqfcDecompr d c = some (a, b) := by
  have ha := h.a_pos
  have hshift : ∃ k, (if c.t < 0 then c.t + c.a else c.t) = c.t + c.a * k := by
    split
    · exact ⟨1, by ring⟩
    · exact ⟨0, by ring⟩
  obtain ⟨k, hk⟩ := hshift
  have hcop : Int.gcd (c.t + c.a * k) c.a = 1 := by
    rw [← Int.isCoprime_iff_gcd_eq_one]
    exact (IsCoprime.add_mul_left_left_iff).2 h.coprime
  have hinv : ∃ v, (let s := gcdextCoeff (c.t + c.a * k) c.a; if s < 0 then s + c.a else s) = v ∧
      0 ≤ v ∧ c.a ∣ c.t * v - 1 := by
    refine ⟨_, rfl, ?_, ?_⟩
    · have hnn := Int.emod_nonneg (Int.gcdA (c.t + c.a * k) c.a) ha.ne'
      unfold gcdextCoeff
      dsimp only
      split <;> split <;> omega
    · obtain ⟨q, hq⟩ := gcdextCoeff_congr hcop
      dsimp only
      split
      · exact ⟨q + c.t - k * gcdextCoeff (c.t + c.a * k) c.a, by linear_combination hq⟩
      · exact ⟨q - k * gcdextCoeff (c.t + c.a * k) c.a, by linear_combination hq⟩
  obtain ⟨v, hv, hv0, hvt⟩ := hinv
  have hb : (r * v).tmod c.a = |b| % c.a := by
    rw [Int.tmod_eq_emod_of_nonneg (mul_nonneg h.r_nonneg hv0)]
    obtain ⟨x, hx⟩ := h.congr
    obtain ⟨y, hy⟩ := hvt
    have hcongr : r * v ≡ |b| [ZMOD c.a] :=
      Int.modEq_iff_dvd.2 ⟨v * x - |b| * y, by linear_combination v * hx - |b| * hy⟩
    exact hcongr
  have hout : (if 1 < c.g then c.a * c.g else c.a) = a := by
    split
    · exact h.mul
    · have hg : c.g = 1 := by have := h.g_pos; omega
      rw [← h.mul, hg, mul_one]
  have hsum : (if 0 < c.b0 then |b| % c.a + c.a * c.b0 else |b| % c.a) = |b| := by
    have hdef := Int.emod_add_mul_ediv |b| c.a
    have hb0 := h.b0
    split
    · rw [hb0]
      exact hdef
    · have hnn : 0 ≤ |b| / c.a := Int.ediv_nonneg (abs_nonneg b) ha.le
      have hz : |b| / c.a = 0 := by omega
      rw [hz] at hdef
      omega
  unfold bqfcDecompr
  dsimp only at hv ⊢
  rw [if_neg h.t_ne, if_neg ha.ne', hk, hcop, h.square, mpzSqrt_mul_self h.r_nonneg, hv, hb,
    hout, hsum, h.sign]
  simp only [Nat.cast_one, ne_eq, not_true_eq_false, if_false, decide_eq_true_eq]
  congr 2
  split
  · rename_i hneg
    rw [abs_of_neg hneg, neg_neg]
  · rename_i hneg
    exact abs_of_nonneg (not_lt.1 hneg)

end Decompr

/-! ## Compression -/

section Compr

variable {a b c d : Int}

theorem mpzSqrt_spec (h : 0 ≤ a) :
    0 ≤ mpzSqrt a ∧ mpzSqrt a * mpzSqrt a ≤ a ∧ a < (mpzSqrt a + 1) * (mpzSqrt a + 1) := by
  unfold mpzSqrt
  have h1 : Nat.sqrt a.toNat * Nat.sqrt a.toNat ≤ a.toNat := Nat.sqrt_le _
  have h2 : a.toNat < (Nat.sqrt a.toNat + 1) * (Nat.sqrt a.toNat + 1) := Nat.lt_succ_sqrt _
  zify at h1 h2
  rw [Int.toNat_of_nonneg h] at h1 h2
  exact ⟨by positivity, h1, h2⟩

/-- The number `bqfc_compr` calls `t`, before the common factor is taken out. -/
def cofactor (a b : Int) : Int := -(xgcdPartial a |b| (mpzSqrt a)).co1

def rest (a b : Int) : Int := (xgcdPartial a |b| (mpzSqrt a)).r1

/-- What the partial Euclidean algorithm gives for `a` and `|b|`. -/
structure HalfGcd (a b t r : Int) : Prop where
  r_nonneg : 0 ≤ r
  r_sq : r * r ≤ a
  congr : a ∣ t * |b| - r
  t_ne : t ≠ 0
  t_sq : t * t < 4 * a

theorem halfGcd (ha : 2 ≤ a) (hb : |b| < a) : HalfGcd a b (cofactor a b) (rest a b) := by
  obtain ⟨hL0, hLsq, hLlt⟩ := mpzSqrt_spec (by omega : 0 ≤ a)
  have hLa : mpzSqrt a < a := by nlinarith
  obtain ⟨h, hbig, hle⟩ := xgcdPartial_spec (abs_nonneg b) hb hL0 (by omega)
  have hr1 := h.r1_nonneg
  have hlt := h.r1_lt
  have hcong := h.r1_congr
  have hsigns := h.signs
  unfold cofactor rest
  generalize xgcdPartial a |b| (mpzSqrt a) = s at *
  have hr2 : a < 4 * (s.r2 * s.r2) := by nlinarith
  have hprod : |s.co1| * s.r2 ≤ a := by
    rcases hsigns with ⟨h2, h1, hdet⟩ | ⟨h2, h1, hdet⟩
    · rw [abs_of_nonpos h1]
      have := mul_nonneg h2 hr1
      linarith
    · rw [abs_of_nonneg h1]
      have := mul_nonneg (neg_nonneg.2 h2) hr1
      linarith
  have hne : s.co1 ≠ 0 := by
    -- Otherwise `a` would divide a remainder below its square root.
    intro hzero
    rw [hzero, zero_mul, add_zero] at hcong
    have hr0 : s.r1 = 0 := Int.eq_zero_of_dvd_of_nonneg_of_lt hr1 (by omega) hcong
    rw [hzero, hr0] at hsigns
    simp only [mul_zero, zero_mul, sub_self] at hsigns
    omega
  have hsq : s.co1 * s.co1 < 4 * a := by
    have h1 : (|s.co1| * s.r2) * (|s.co1| * s.r2) ≤ a * a :=
      mul_self_le_mul_self (mul_nonneg (abs_nonneg _) (by omega)) hprod
    have h2 : |s.co1| * |s.co1| = s.co1 * s.co1 := abs_mul_abs_self _
    have hpos : 0 < s.co1 * s.co1 := mul_self_pos.2 hne
    have h3 : s.co1 * s.co1 * a < s.co1 * s.co1 * (4 * (s.r2 * s.r2)) :=
      mul_lt_mul_of_pos_left hr2 hpos
    nlinarith
  refine ⟨hr1, by nlinarith, ?_, by omega, by linarith⟩
  have hneg : -s.co1 * |b| - s.r1 = -(s.r1 + s.co1 * |b|) := by ring
  rw [hneg]
  exact (Int.dvd_neg).2 hcong

/-- The common factor of `a` and the cofactor. -/
def factor (a b : Int) : Int := Int.gcd a (cofactor a b)

theorem ite_neg_eq_abs (b : Int) : (if decide (b < 0) = true then -b else b) = |b| := by
  by_cases h : b < 0
  · simp [h, abs_of_neg h]
  · simp [h, abs_of_nonneg (not_lt.1 h)]

theorem ite_neg_tdiv (b m : Int) :
    (if decide (b < 0) = true then -b.tdiv m else b.tdiv m) = |b| / m := by
  by_cases h : b < 0
  · simp only [h, decide_true, if_true, abs_of_neg h]
    rw [← Int.neg_tdiv]
    exact Int.tdiv_eq_ediv_of_nonneg (by omega)
  · simp only [h, decide_false, Bool.false_eq_true, if_false, abs_of_nonneg (not_lt.1 h)]
    exact Int.tdiv_eq_ediv_of_nonneg (not_lt.1 h)

theorem compr_eq (hb : |b| < a) (hne : a ≠ b) :
    bqfcCompr a b = ⟨a / factor a b, cofactor a b / factor a b, factor a b,
      |b| / (a / factor a b), decide (b < 0)⟩ := by
  unfold bqfcCompr
  rw [if_neg hne]
  dsimp only
  rw [ite_neg_eq_abs]
  show (if factor a b = 1 then _ else _) = _
  split
  · rename_i hg
    rw [hg, Int.ediv_one, Int.ediv_one, Int.ediv_eq_zero_of_lt (abs_nonneg b) hb]
    congr 1
  · congr 1
    exact ite_neg_tdiv b _

/-- A remainder whose square is `a` would divide the discriminant twice. -/
theorem HalfGcd.sq_ne {t r : Int} (h : HalfGcd a b t r) (ha : 2 ≤ a) (hcop : IsCoprime a t)
    (hdisc : b * b - 4 * a * c = d) (hsq : Squarefree d) : r * r ≠ a := by
  intro hra
  have hrdvd : r ∣ t * |b| := by
    have h1 : r ∣ t * |b| - r := dvd_trans ⟨r, hra.symm⟩ h.congr
    exact (dvd_sub_self_right).1 h1
  have hrt : IsCoprime r t := by
    rw [← hra] at hcop
    exact hcop.of_mul_left_left
  have hrb : r ∣ b := (dvd_abs r b).1 (hrt.dvd_of_dvd_mul_left hrdvd)
  have hrr : r * r ∣ d := by
    rw [← hdisc, hra]
    exact dvd_sub (hra ▸ mul_dvd_mul hrb hrb) ⟨4 * c, by ring⟩
  have hunit := Int.isUnit_iff.1 (hsq r hrr)
  have := h.r_nonneg
  rcases hunit with rfl | rfl <;> omega

/-- **What `bqfc_compr` writes satisfies the equations.** -/
theorem compr_spec (ha : 2 ≤ a) (hb : |b| < a) (hne : a ≠ b) (hdisc : b * b - 4 * a * c = d)
    (hsq : Squarefree d) :
    Compressed a b d (rest a b / factor a b) (bqfcCompr a b) := by
  have h := halfGcd ha hb
  have hg : 0 < factor a b := by
    unfold factor
    have : 0 < Int.gcd a (cofactor a b) := Int.gcd_pos_of_ne_zero_left _ (by omega)
    omega
  have hga : factor a b ∣ a := Int.gcd_dvd_left ..
  have hgt : factor a b ∣ cofactor a b := Int.gcd_dvd_right ..
  have hgr : factor a b ∣ rest a b := by
    have h1 : factor a b ∣ cofactor a b * |b| - rest a b := dvd_trans hga h.congr
    exact (dvd_sub_right (hgt.mul_right _)).1 h1
  have hcop : IsCoprime (a / factor a b) (cofactor a b / factor a b) := by
    rw [Int.isCoprime_iff_gcd_eq_one]
    exact Int.gcd_ediv_gcd_ediv_gcd (by unfold factor at hg; omega)
  rw [compr_eq hb hne]
  obtain ⟨a', ha'⟩ := hga
  obtain ⟨t', ht'⟩ := hgt
  obtain ⟨r', hr'⟩ := hgr
  have hda : a / factor a b = a' := by rw [Int.ediv_eq_of_eq_mul_right hg.ne' ha']
  have hdt : cofactor a b / factor a b = t' := by rw [Int.ediv_eq_of_eq_mul_right hg.ne' ht']
  have hdr : rest a b / factor a b = r' := by rw [Int.ediv_eq_of_eq_mul_right hg.ne' hr']
  have hrsq := h.r_sq
  have hrnn := h.r_nonneg
  have htne := h.t_ne
  have hcongr := h.congr
  have hstrict := h.sq_ne (c := c) (d := d) ha
  rw [hda, hdt] at hcop ⊢
  rw [hdr]
  generalize factor a b = g at *
  generalize cofactor a b = t at *
  generalize rest a b = r at *
  have ha'pos : 0 < a' := by nlinarith
  refine ⟨ha'pos, hg, by rw [ha', mul_comm], hcop.symm, ?_, ?_, ?_, ?_, ?_, rfl, rfl⟩
  · rintro rfl
    exact htne (by rw [ht', mul_zero])
  · exact nonneg_of_mul_nonneg_right (hr' ▸ hrnn) hg
  · by_cases hg1 : g = 1
    · rw [hg1, one_mul] at ha' ht' hr'
      subst ha' ht' hr'
      exact lt_of_le_of_ne hrsq (hstrict hcop hdisc hsq)
    · -- The square of the factor is taken out of `r`, only the factor out of `a`.
      have h1 : g * (g * (r' * r')) ≤ g * a' := by
        rw [hr', ha'] at hrsq
        linarith
      have h2 : g * (r' * r') ≤ a' := le_of_mul_le_mul_left h1 hg
      show r' * r' < a'
      by_contra hcon
      have h3 : 2 * (r' * r') ≤ g * (r' * r') := by
        apply mul_le_mul_of_nonneg_right (by omega)
        exact mul_self_nonneg r'
      omega
  · obtain ⟨x, hx⟩ := hcongr
    refine ⟨x, mul_left_cancel₀ hg.ne' ?_⟩
    rw [ht', hr', ha'] at hx
    linear_combination hx
  · refine ⟨4 * g * c, ?_⟩
    rw [← hdisc, ha']
    ring

section Reduced

variable {f : Form}

theorem Form.PosDef.abs_b_lt (hf : f.PosDef d) (hr : f.isReduced = true) (hne : f.a ≠ f.b) :
    |f.b| < f.a := by
  obtain ⟨-, hn⟩ := (Form.isReduced_iff hf.a_pos).1 hr
  unfold Form.Normal at hn
  rw [abs_lt]
  omega

theorem compr_reduced (hf : f.PosDef d) (hr : f.isReduced = true) (hodd : d % 2 = 1)
    (hsq : Squarefree d) (hne : f.a ≠ f.b) :
    Compressed f.a f.b d (rest f.a f.b / factor f.a f.b) (bqfcCompr f.a f.b) := by
  have hlt := hf.abs_b_lt hr hne
  have hb := hf.b_odd hodd
  have ha : 2 ≤ f.a := by
    have := abs_lt.1 hlt
    omega
  exact compr_spec ha hlt hne hf.disc_eq hsq

/-- **Compression loses nothing**, for every reduced form of a squarefree odd discriminant. -/
theorem decompr_compr (hf : f.PosDef d) (hr : f.isReduced = true) (hodd : d % 2 = 1)
    (hsq : Squarefree d) : bqfcDecompr d (bqfcCompr f.a f.b) = some (f.a, f.b) := by
  by_cases heq : f.a = f.b
  · unfold bqfcCompr bqfcDecompr
    simp [heq]
  · exact decompr_of_compressed (compr_reduced hf hr hodd hsq heq)

end Reduced

end Compr

end Vdf
