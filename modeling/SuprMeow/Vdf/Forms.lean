import Mathlib.Algebra.Order.Ring.Int
import Mathlib.Tactic.Linarith
import Mathlib.Tactic.Ring

/-!
# Binary quadratic forms

`form`, `normalize`, `reduce` and `from_abd` as the VDF library has them.

* `translate`, `flip` — the two moves that every step of a reduction is made of;
* `reduceLoop_spec` — the loop ends within its fuel and keeps what the moves keep;
* `reduce_spec` — the result is reduced, of the same discriminant, and reached by moves;
* `reduce_of_isReduced` — a reduced form is left as it is;
* `fromAbd_generator` — the form every proof starts from exists.
-/

set_option autoImplicit false

namespace Vdf

/-- `form`: `a x² + b x y + c y²`. -/
structure Form where
  a : Int
  b : Int
  c : Int
  deriving DecidableEq, Repr

namespace Form

def disc (f : Form) : Int := f.b * f.b - 4 * f.a * f.c

/-- Substituting `x + r y` for `x`. -/
def translate (f : Form) (r : Int) : Form :=
  ⟨f.a, f.b + 2 * (r * f.a), f.a * r * r + f.b * r + f.c⟩

/-- Substituting `y` for `x` and `-x` for `y`. -/
def flip (f : Form) : Form := ⟨f.c, -f.b, f.a⟩

/-- `integer::operator/` rounds towards minus infinity. -/
def normalize (f : Form) : Form :=
  let r := (f.a - f.b).fdiv (2 * f.a)
  ⟨f.a, f.b + 2 * (r * f.a), f.a * r * r + f.b * r + f.c⟩

def reduceImpl (f : Form) : Form :=
  let s := (f.c + f.b).fdiv (2 * f.c)
  ⟨f.c, 2 * (s * f.c) - f.b, f.c * s * s - f.b * s + f.a⟩

/-- The condition of the loop. -/
def unfinished (f : Form) : Bool := decide (f.c < f.a) || (decide (f.a = f.c) && decide (f.b < 0))

def reduceLoop : Nat → Form → Form
  | 0, f => f
  | n + 1, f => if f.unfinished then reduceLoop n f.reduceImpl else f

/-- Every pass shrinks `a` or makes `b` positive. -/
def reduce (f : Form) : Form := (reduceLoop (2 * f.a.toNat + 1) f.normalize).normalize

def isReduced (f : Form) : Bool :=
  (decide (f.a < f.c) || (decide (f.a = f.c) && decide (0 ≤ f.b))) &&
    (decide (f.b.natAbs < f.a.natAbs) || decide (f.a = f.b))

/-- A positive definite form of discriminant `D`. -/
structure PosDef (D : Int) (f : Form) : Prop where
  a_pos : 0 < f.a
  disc_eq : f.disc = D

/-- Between the two normalisations. -/
def Normal (f : Form) : Prop := -f.a < f.b ∧ f.b ≤ f.a

/-! ## The moves -/

@[simp] theorem disc_translate (f : Form) (r : Int) : (f.translate r).disc = f.disc := by
  unfold disc translate
  ring

@[simp] theorem disc_flip (f : Form) : f.flip.disc = f.disc := by
  unfold disc flip
  ring

theorem reduceImpl_eq (f : Form) :
    f.reduceImpl = f.flip.translate ((f.c + f.b).fdiv (2 * f.c)) := by
  unfold reduceImpl flip translate
  simp only [mk.injEq]
  exact ⟨trivial, by ring, by ring⟩

section

variable {D : Int} {f : Form}

theorem PosDef.c_pos (h : f.PosDef D) (hD : D < 0) : 0 < f.c := by
  have hdisc := h.disc_eq
  unfold disc at hdisc
  have hsq : 0 ≤ f.b * f.b := mul_self_nonneg _
  have hac : 0 < f.a * (4 * f.c) := by nlinarith
  have := (mul_pos_iff_of_pos_left h.a_pos).1 hac
  omega

theorem PosDef.translate (h : f.PosDef D) (r : Int) : (f.translate r).PosDef D :=
  ⟨h.a_pos, by rw [disc_translate]; exact h.disc_eq⟩

theorem PosDef.flip (h : f.PosDef D) (hD : D < 0) : f.flip.PosDef D :=
  ⟨h.c_pos hD, by rw [disc_flip]; exact h.disc_eq⟩

/-- What is left of a number after the nearest multiple of `2 m` is taken away. -/
theorem fdiv_window {m n : Int} (hm : 0 < m) :
    0 ≤ n - 2 * (n.fdiv (2 * m) * m) ∧ n - 2 * (n.fdiv (2 * m) * m) < 2 * m := by
  have hpos : 0 < 2 * m := by omega
  have hmod := Int.fmod_nonneg_of_pos n hpos
  have hlt := Int.fmod_lt_of_pos n hpos
  have hdef := Int.fmod_add_mul_fdiv n (2 * m)
  have hcomm : 2 * (n.fdiv (2 * m) * m) = 2 * m * n.fdiv (2 * m) := by ring
  omega

theorem normal_normalize (ha : 0 < f.a) : f.normalize.Normal := by
  have h := fdiv_window (n := f.a - f.b) ha
  unfold Normal normalize
  dsimp only
  omega

theorem normal_reduceImpl (hc : 0 < f.c) : f.reduceImpl.Normal := by
  have h := fdiv_window (n := f.c + f.b) hc
  unfold Normal reduceImpl
  dsimp only
  omega

end

/-! ## Reduction -/

/-- Reached by moves. -/
inductive Moves : Form → Form → Prop
  | refl (f : Form) : Moves f f
  | translate {f g : Form} (r : Int) : Moves f g → Moves f (g.translate r)
  | flip {f g : Form} : Moves f g → Moves f g.flip

theorem Moves.trans {f g h : Form} (hfg : Moves f g) (hgh : Moves g h) : Moves f h := by
  induction hgh with
  | refl => exact hfg
  | translate r _ ih => exact ih.translate r
  | flip _ ih => exact ih.flip

theorem Moves.normalize {f g : Form} (h : Moves f g) : Moves f g.normalize := h.translate _

theorem Moves.reduceImpl {f g : Form} (h : Moves f g) : Moves f g.reduceImpl := by
  rw [reduceImpl_eq]
  exact h.flip.translate _

theorem Moves.posDef {D : Int} {f g : Form} (hD : D < 0) (h : Moves f g) (hf : f.PosDef D) :
    g.PosDef D := by
  induction h with
  | refl => exact hf
  | translate r _ ih => exact ih.translate r
  | flip _ ih => exact ih.flip hD

/-- Passes that the loop still needs at most. -/
def passes (f : Form) : Nat := 2 * f.a.toNat + (if f.b < 0 then 1 else 0)

/-- A pass of the loop counts down. -/
theorem passes_reduceImpl {D : Int} {f : Form} (hD : D < 0) (hf : f.PosDef D) (hn : f.Normal)
    (h : f.unfinished = true) : f.reduceImpl.passes < f.passes := by
  have hc := hf.c_pos hD
  have ha : f.reduceImpl.a = f.c := rfl
  have hb : f.reduceImpl.b = 2 * ((f.c + f.b).fdiv (2 * f.c) * f.c) - f.b := rfl
  unfold unfinished at h
  unfold passes
  rw [ha, hb]
  simp only [Bool.or_eq_true, Bool.and_eq_true, decide_eq_true_eq] at h
  rcases h with hlt | ⟨heq, hneg⟩
  · split <;> split <;> omega
  · -- `b` only changes sign: the quotient is zero.
    have hzero : (f.c + f.b).fdiv (2 * f.c) = 0 := by
      rw [Int.fdiv_eq_ediv_of_nonneg _ (by omega)]
      exact Int.ediv_eq_zero_of_lt (by unfold Normal at hn; omega) (by omega)
    rw [hzero, if_neg (by omega), if_pos hneg]
    omega

theorem reduceLoop_spec {D : Int} (hD : D < 0) :
    ∀ n f, f.PosDef D → f.Normal → f.passes ≤ n →
      (reduceLoop n f).unfinished = false ∧ (reduceLoop n f).Normal ∧ Moves f (reduceLoop n f) := by
  intro n
  induction n with
  | zero =>
    intro f hf _ hle
    have hpos := hf.a_pos
    unfold passes at hle
    omega
  | succ n ih =>
    intro f hf hn hle
    rw [reduceLoop]
    by_cases hrun : f.unfinished = true
    · rw [if_pos hrun]
      have hmoves : Moves f f.reduceImpl := (Moves.refl f).reduceImpl
      have hlt := passes_reduceImpl hD hf hn hrun
      obtain ⟨hend, hnorm, hrest⟩ := ih f.reduceImpl (hmoves.posDef hD hf)
        (normal_reduceImpl (hf.c_pos hD)) (by omega)
      exact ⟨hend, hnorm, hmoves.trans hrest⟩
    · rw [if_neg hrun]
      exact ⟨by simpa using hrun, hn, Moves.refl f⟩

theorem normalize_of_normal {f : Form} (ha : 0 < f.a) (h : f.Normal) : f.normalize = f := by
  have hzero : (f.a - f.b).fdiv (2 * f.a) = 0 := by
    rw [Int.fdiv_eq_ediv_of_nonneg _ (by omega)]
    exact Int.ediv_eq_zero_of_lt (by unfold Normal at h; omega) (by unfold Normal at h; omega)
  unfold normalize
  simp [hzero]

theorem isReduced_iff {f : Form} (ha : 0 < f.a) :
    f.isReduced = true ↔ f.unfinished = false ∧ f.Normal := by
  unfold isReduced unfinished Normal
  simp only [Bool.and_eq_true, Bool.or_eq_true, decide_eq_true_eq, Bool.or_eq_false_iff,
    Bool.and_eq_false_iff, decide_eq_false_iff_not]
  omega

/-- **Reduction ends in a reduced form of the same class.** -/
theorem reduce_spec {D : Int} (hD : D < 0) {f : Form} (hf : f.PosDef D) :
    f.reduce.isReduced = true ∧ f.reduce.PosDef D ∧ Moves f f.reduce := by
  have hnorm := normal_normalize hf.a_pos
  have hmoves : Moves f f.normalize := (Moves.refl f).normalize
  have hpos := hmoves.posDef hD hf
  have hfuel : f.normalize.passes ≤ 2 * f.a.toNat + 1 := by
    show 2 * f.a.toNat + _ ≤ 2 * f.a.toNat + 1
    split <;> omega
  obtain ⟨hend, hn, hloop⟩ := reduceLoop_spec hD _ _ hpos hnorm hfuel
  have hall := hmoves.trans hloop
  have hposL := hall.posDef hD hf
  unfold reduce
  rw [normalize_of_normal hposL.a_pos hn]
  exact ⟨(isReduced_iff hposL.a_pos).2 ⟨hend, hn⟩, hposL, hall⟩

theorem reduce_of_isReduced {f : Form} (ha : 0 < f.a) (h : f.isReduced = true) : f.reduce = f := by
  obtain ⟨hend, hn⟩ := (isReduced_iff ha).1 h
  unfold reduce
  rw [normalize_of_normal ha hn, reduceLoop, hend]
  exact normalize_of_normal ha hn

/-! ## Sizes -/

section Sizes

variable {D : Int} {f : Form}

/-- `|a| ≤ sqrt(-D / 3)`. -/
theorem PosDef.three_mul_sq_le (h : f.PosDef D) (hr : f.isReduced = true) :
    3 * (f.a * f.a) ≤ -D := by
  obtain ⟨hend, hn⟩ := (isReduced_iff h.a_pos).1 hr
  have hac : f.a ≤ f.c := by
    unfold unfinished at hend
    simp only [Bool.or_eq_false_iff, decide_eq_false_iff_not] at hend
    omega
  have hb : f.b * f.b ≤ f.a * f.a := by
    unfold Normal at hn
    nlinarith
  have hdisc := h.disc_eq
  unfold disc at hdisc
  have := mul_le_mul_of_nonneg_left hac h.a_pos.le
  nlinarith

/-- An odd discriminant has odd middle coefficients. -/
theorem PosDef.b_odd (h : f.PosDef D) (hD : D % 2 = 1) : f.b % 2 = 1 := by
  have hdisc := h.disc_eq
  unfold disc at hdisc
  rcases Int.emod_two_eq_zero_or_one f.b with hb | hb
  · obtain ⟨k, hk⟩ := Int.dvd_of_emod_eq_zero hb
    exfalso
    have hrw : D = 2 * (2 * (k * k) - 2 * (f.a * f.c)) := by
      rw [← hdisc, hk]
      ring
    omega
  · exact hb

end Sizes

/-! ## Forms from two coefficients -/

/-- `form::from_abd`; `integer::operator%` ignores the sign of the divisor. -/
def fromAbd (a b d : Int) : Except String Form :=
  let c := b * b - d
  if a ≤ 0 then .error "Invalid form. Positive a"
  else if c % (4 * a) ≠ 0 then .error "Invalid form. Can't find c."
  else .ok (reduce ⟨a, b, c.fdiv (4 * a)⟩)

/-- `form::identity`. -/
def identity (d : Int) : Except String Form := fromAbd 1 1 d

/-- `form::generator`. -/
def generator (d : Int) : Except String Form := fromAbd 2 1 d

theorem posDef_of_dvd {a b d : Int} (ha : 0 < a) (h : (b * b - d) % (4 * a) = 0) :
    (⟨a, b, (b * b - d).fdiv (4 * a)⟩ : Form).PosDef d := by
  refine ⟨ha, ?_⟩
  have hdiv := Int.mul_ediv_cancel_of_emod_eq_zero h
  unfold disc
  rw [Int.fdiv_eq_ediv_of_nonneg _ (by omega)]
  dsimp only
  have : 4 * a * ((b * b - d) / (4 * a)) = b * b - d := hdiv
  omega

theorem fromAbd_eq_ok {a b d : Int} (ha : 0 < a) (h : (b * b - d) % (4 * a) = 0) :
    fromAbd a b d = .ok (reduce ⟨a, b, (b * b - d).fdiv (4 * a)⟩) := by
  unfold fromAbd
  simp only [if_neg (not_le.2 ha), h, ne_eq, not_true_eq_false, if_false]

/-- What a success of `from_abd` says. -/
theorem fromAbd_ok {a b d : Int} {f : Form} (h : fromAbd a b d = .ok f) :
    0 < a ∧ (b * b - d) % (4 * a) = 0 ∧ f = reduce ⟨a, b, (b * b - d).fdiv (4 * a)⟩ := by
  unfold fromAbd at h
  dsimp only at h
  split at h
  · simp at h
  · rename_i ha
    split at h
    · simp at h
    · rename_i hmod
      cases h
      exact ⟨not_le.1 ha, not_not.1 hmod, rfl⟩

theorem fromAbd_spec {a b d : Int} (hd : d < 0) {f : Form} (h : fromAbd a b d = .ok f) :
    f.isReduced = true ∧ f.PosDef d := by
  obtain ⟨ha, hmod, rfl⟩ := fromAbd_ok h
  obtain ⟨hr, hpos, -⟩ := reduce_spec hd (posDef_of_dvd ha hmod)
  exact ⟨hr, hpos⟩

/-- Reading a reduced form back from its first two coefficients. -/
theorem fromAbd_of_isReduced {D : Int} {f : Form} (h : f.PosDef D) (hr : f.isReduced = true) :
    fromAbd f.a f.b D = .ok f := by
  have hdisc := h.disc_eq
  unfold disc at hdisc
  have ha := h.a_pos
  have hc : f.b * f.b - D = 4 * f.a * f.c := by omega
  have hmod : (f.b * f.b - D) % (4 * f.a) = 0 := by
    rw [hc]
    exact Int.mul_emod_right _ _
  rw [fromAbd_eq_ok ha hmod, hc, Int.mul_fdiv_cancel_left _ (by omega)]
  exact congrArg _ (reduce_of_isReduced ha hr)

/-- **The generator and the identity exist for every discriminant that is 1 modulo 8.** -/
theorem fromAbd_generator {D : Int} (hD : D % 8 = 1) :
    (∃ f, generator D = .ok f) ∧ ∃ f, identity D = .ok f := by
  constructor
  · exact ⟨_, fromAbd_eq_ok (by decide) (by omega)⟩
  · exact ⟨_, fromAbd_eq_ok (by decide) (by omega)⟩

/-- **`from_abd`** succeeds for the pairs that begin a form of the discriminant and fails for all
others; and the form it returns is reduced and reached from that one by moves. -/
theorem fromAbd_ok_iff {a b d : Int} (hd : d < 0) :
    ((∃ f, fromAbd a b d = .ok f) ↔ 0 < a ∧ 4 * a ∣ b * b - d) ∧
      ∀ f, fromAbd a b d = .ok f → f.isReduced = true ∧ f.PosDef d ∧
        Moves ⟨a, b, (b * b - d).fdiv (4 * a)⟩ f := by
  constructor
  · constructor
    · rintro ⟨f, hf⟩
      obtain ⟨ha, hmod, -⟩ := fromAbd_ok hf
      exact ⟨ha, Int.dvd_of_emod_eq_zero hmod⟩
    · rintro ⟨ha, hdvd⟩
      exact ⟨_, fromAbd_eq_ok ha (Int.emod_eq_zero_of_dvd hdvd)⟩
  · intro f hf
    obtain ⟨ha, hmod, rfl⟩ := fromAbd_ok hf
    exact reduce_spec hd (posDef_of_dvd ha hmod)

theorem fromAbd_ok_iff_large : (∃ f, fromAbd 122 13 (-1783) = .ok f ∧ f.isReduced = true) ∧
    ¬ ∃ f, fromAbd 122 12 (-1783) = .ok f := by
  obtain ⟨f, hf⟩ := (fromAbd_ok_iff (a := 122) (b := 13) (d := -1783) (by decide)).1.2
    ⟨by decide, by decide⟩
  have hr := ((fromAbd_ok_iff (by decide)).2 f hf).1
  refine ⟨⟨f, hf, hr⟩, fun h => ?_⟩
  have hdvd := ((fromAbd_ok_iff (by decide)).1.1 h).2
  revert hdvd
  decide

end Form

end Vdf
