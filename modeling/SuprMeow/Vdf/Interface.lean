import Mathlib.Data.ZMod.Basic
import Mathlib.Tactic.NormNum.Prime
import SuprMeow.Vdf.Verifier

/-!
# What the miner calls

`Vdf::prove` and `Vdf::verify`, from the parent hash to bytes and back.

* `proveSlow_spec`, `proveSlow_approx` — what is returned, whatever the block sizes are;
* `verify_prove` — a proof is made and accepted, if the searches for primes end;
* `verify_sound` — a proof that is accepted is of the right power, or a root can be read off it;
* `laws151` — the assumptions about composition hold in a class group of order seven;
* `chain151` — a chain of two segments there.
-/

set_option autoImplicit false

open Stratum (Bytes)
open Poi (Digest beNumber)

namespace Vdf

section Interface

variable {h : PrimeSearch} {A : Arith} {approx : Nat → Int × Int} {d : Int} {G : Type*}
  [CommGroup G] {R : Form → G → Prop}

/-- `k` as `ProveSlow` uses it. -/
def blockBits (approx : Nat → Int × Int) (T : Nat) : Nat :=
  if (approx T).2 ≤ 0 then 1 else (approx T).2.toNat

def blockCount (approx : Nat → Int × Int) (T : Nat) : Nat :=
  if (approx T).1 ≤ 0 then 1 else (approx T).1.toNat

/-- `ApproximateParameters` chooses blocks that the code can index, their product is an `int`, and
the number of squarings leaves room above it in 64 bits. -/
structure BlocksFit (approx : Nat → Int × Int) (T : Nat) : Prop where
  bits : blockBits approx T < 31
  product : blockBits approx T * blockCount approx T < 2 ^ 31
  room : T + blockBits approx T * blockCount approx T ≤ 2 ^ 64

theorem blockBits_pos (approx : Nat → Int × Int) (T : Nat) : 0 < blockBits approx T := by
  unfold blockBits
  split <;> omega

theorem blockCount_pos (approx : Nat → Int × Int) (T : Nat) : 0 < blockCount approx T := by
  unfold blockCount
  split <;> omega

theorem BlocksFit.spacing {T : Nat} (hblocks : BlocksFit approx T) :
    (int32 ((blockBits approx T * blockCount approx T : Nat) : Int) % 2 ^ 64).toNat =
      blockBits approx T * blockCount approx T := by
  have hlt := hblocks.product
  rw [int32_of_lt (by omega) (by omega)]
  omega

theorem getB_cases (x y : Form) : getB h d x y = none ∨ ∃ b, getB h d x y = some (.ok b) := by
  unfold getB
  cases hashPrime h _ B_bits [B_bits - 1] with
  | none => exact .inl rfl
  | some p => exact .inr ⟨p, rfl⟩

/-- **What `ProveSlow` returns**: the power and the proof, each as a form for its element, once the
search for `B` ends. -/
theorem proveSlow_spec (laws : ClassLaws A d R) (hd8 : d % 8 = 1)
    {T : Nat} (hblocks : BlocksFit approx T) {x : Form} {gx : G} (hx : R x gx)
    (hxr : x.isReduced = true) :
    ∃ y, R y (gx ^ 2 ^ T) ∧
      (getB h d x y = none → proveSlow h A approx d x T = none) ∧
      ∀ b, getB h d x y = some (.ok b) → ∃ proof, R proof (gx ^ (2 ^ T / b)) ∧
        proveSlow h A approx d x T =
          some (.ok (serializeForm y (numBits d) ++ serializeForm proof (numBits d))) := by
  obtain ⟨one, hid, hone⟩ := identity_rep laws hd8
  have hk := blockBits_pos approx T
  have hl := blockCount_pos approx T
  obtain ⟨hy, -, hkept⟩ := @squarings_rep A d G _ R laws one x gx hx _ (Nat.mul_pos hk hl) T
  -- The loop counts in an `int`, which holds the product.
  have hrun : proveSlow h A approx d x T = Run.bind (getB h d x
      (squarings A d (blockBits approx T * blockCount approx T) T x).1) fun b =>
        Run.bind (some (Form.identity d)) fun one => some (.ok
          (serializeForm (squarings A d (blockBits approx T * blockCount approx T) T x).1
              (numBits d) ++
            serializeForm (generateWesolowski A d one
              (squarings A d (blockBits approx T * blockCount approx T) T x).2 T
                (blockBits approx T) (blockCount approx T) b) (numBits d))) := by
    rw [← hblocks.spacing]
    unfold proveSlow
    rw [Form.fromAbd_of_isReduced (laws.posDef hx) hxr]
    rfl
  refine ⟨_, hy, ?_, ?_⟩
  · intro hnone
    rw [hrun, hnone]
    rfl
  · intro b hb
    have hge : 2 ^ blockBits approx T ≤ b :=
      le_trans (Nat.pow_le_pow_right (by decide) (by have := hblocks.bits; unfold B_bits; omega))
        (getB_ge hb)
    refine ⟨_, generateWesolowski_rep laws hone hk (by have := hblocks.bits; omega) hl hblocks.room
      hge hkept, ?_⟩
    rw [hrun, hb, Run.bind_ok, hid]
    rfl

/-- The form both sides start from is `(2, 1)`, which is written without overflow. -/
theorem startForm_fits {bits : Nat} (h8 : bits % 8 = 0) (hbits : 0 < bits) (hneg : d < 0)
    (hd8 : d % 8 = 1) (hsize : numBits d = bits) {x : Form} (hx : startForm d = .ok x) :
    CofactorFits (numBits d) x := by
  have hbig : 2 ^ (bits - 1) ≤ d.natAbs := Nat.lt_size.1 (by unfold numBits at hsize; omega)
  have h128 : 2 ^ 7 ≤ 2 ^ (bits - 1) := Nat.pow_le_pow_right (by decide) (by omega)
  have hmod : ((1 : Int) * 1 - d) % (4 * 2) = 0 := by omega
  have hpos := Form.posDef_of_dvd (d := d) (by decide) hmod
  have hc : 16 ≤ ((1 : Int) * 1 - d).fdiv (4 * 2) := by
    rw [Int.fdiv_eq_ediv_of_nonneg _ (by decide)]
    omega
  have hgen : Form.generator d = .ok (Form.reduce ⟨2, 1, ((1 : Int) * 1 - d).fdiv (4 * 2)⟩) :=
    Form.fromAbd_eq_ok (by decide) hmod
  generalize ((1 : Int) * 1 - d).fdiv (4 * 2) = c at hpos hc hgen
  have hred : (⟨2, 1, c⟩ : Form).isReduced = true := by
    have hlt : 2 < c := by omega
    simp [Form.isReduced, hlt]
  have hself := Form.reduce_of_isReduced hpos.a_pos hred
  unfold startForm at hx
  rw [hgen, hself] at hx
  simp only [Except.ok.injEq, hself] at hx
  rw [← hx]
  refine fits_cofactor hpos hred (by omega) (by simp) ?_
  have hwords : 1 ≤ (numBits d + 31) / 32 := by omega
  calc 4 * 2 ≤ 256 ^ (2 * 1) := by decide
    _ ≤ 256 ^ (2 * ((numBits d + 31) / 32)) := Nat.pow_le_pow_right (by decide) (by omega)

/-- The forms the proof of a run is made of are written without overflow. -/
def FormsFit (h : PrimeSearch) (d : Int) (R : Form → G → Prop) (x : Form) (gx : G) (T : Nat) :
    Prop :=
  ∀ y, R y (gx ^ 2 ^ T) → CofactorFits (numBits d) y.reduce ∧
    ∀ b proof, getB h d x y = some (.ok b) → R proof (gx ^ (2 ^ T / b)) →
      CofactorFits (numBits d) proof.reduce

end Interface

/-! ## A class group of order seven -/

/-- The reduced forms of discriminant -151, the powers of the generator in order. -/
def forms151 : List Form :=
  [⟨1, 1, 38⟩, ⟨2, 1, 19⟩, ⟨4, -3, 10⟩, ⟨5, 3, 8⟩, ⟨5, -3, 8⟩, ⟨4, 3, 10⟩, ⟨2, -1, 19⟩]

/-- Composition by the table of logarithms. -/
def compose151 (f g : Form) : Form :=
  forms151.getD ((forms151.idxOf f + forms151.idxOf g) % 7) ⟨1, 1, 38⟩

def arith151 : Arith where
  nudupl _ _ f := compose151 f f
  nucomp _ _ f g := compose151 f g
  pulmark f := f
  multiply f g := compose151 f g

def Stands151 (f : Form) (x : Multiplicative (ZMod 7)) : Prop :=
  f ∈ forms151 ∧ x = Multiplicative.ofAdd (forms151.idxOf f : ZMod 7)

theorem forms151_table : ∀ f ∈ forms151, f.a * 5 ≤ 25 ∧ 0 < f.a ∧ f.disc = -151 ∧
    f.isReduced = true ∧ forms151.getD (forms151.idxOf f) ⟨1, 1, 38⟩ = f ∧ ∀ g ∈ forms151,
      compose151 f g ∈ forms151 ∧
        forms151.idxOf (compose151 f g) = (forms151.idxOf f + forms151.idxOf g) % 7 := by
  decide

theorem mem_forms151 {f : Form} (hf : f.PosDef (-151)) (hr : f.isReduced = true) :
    f ∈ forms151 := by
  have htable : ∀ a ∈ List.range 7, ∀ b ∈ List.range 15,
      (((b : Int) - 7) * ((b : Int) - 7) + 151) % (4 * ((a : Int) + 1)) = 0 →
      (⟨a + 1, b - 7, ((b - 7) * (b - 7) + 151) / (4 * (a + 1))⟩ : Form).isReduced = true →
        (⟨a + 1, b - 7, ((b - 7) * (b - 7) + 151) / (4 * (a + 1))⟩ : Form) ∈ forms151 := by
    decide
  have hpos := hf.a_pos
  have ha : f.a ≤ 7 := by
    have := hf.three_mul_sq_le hr
    nlinarith
  obtain ⟨-, hn⟩ := (Form.isReduced_iff hpos).1 hr
  unfold Form.Normal at hn
  have hdisc := hf.disc_eq
  unfold Form.disc at hdisc
  have hc : f.b * f.b + 151 = 4 * f.a * f.c := by omega
  have hmain := htable (f.a - 1).toNat (List.mem_range.2 (by omega)) (f.b + 7).toNat
    (List.mem_range.2 (by omega))
  have e1 : ((f.a - 1).toNat : Int) + 1 = f.a := by omega
  have e2 : ((f.b + 7).toNat : Int) - 7 = f.b := by omega
  rw [e1, e2, hc, Int.mul_emod_right, Int.mul_ediv_cancel_left _ (by omega)] at hmain
  exact hmain rfl hr

theorem stands151_compose {f g : Form} {x y : Multiplicative (ZMod 7)} (hf : Stands151 f x)
    (hg : Stands151 g y) : Stands151 (compose151 f g) (x * y) := by
  obtain ⟨hf, rfl⟩ := hf
  obtain ⟨hg, rfl⟩ := hg
  obtain ⟨hmem, hidx⟩ := (forms151_table f hf).2.2.2.2.2 g hg
  refine ⟨hmem, ?_⟩
  rw [hidx, ← ofAdd_add, ZMod.natCast_mod, Nat.cast_add]

theorem laws151 : ClassLaws arith151 (-151) Stands151 where
  posDef h := ⟨(forms151_table _ h.1).2.1, (forms151_table _ h.1).2.2.1⟩
  total h hr := ⟨_, mem_forms151 h hr, rfl⟩
  functional h h' := h.2.trans h'.2.symm
  unique {f g x} h h' _ _ := by
    have hidx : (forms151.idxOf f : ZMod 7) = forms151.idxOf g :=
      Multiplicative.ofAdd.injective (h.2.symm.trans h'.2)
    have hlf : forms151.idxOf f < 7 := List.idxOf_lt_length_of_mem h.1
    have hlg : forms151.idxOf g < 7 := List.idxOf_lt_length_of_mem h'.1
    rw [ZMod.natCast_eq_natCast_iff', Nat.mod_eq_of_lt hlf, Nat.mod_eq_of_lt hlg] at hidx
    rw [← (forms151_table f h.1).2.2.2.2.1, hidx, (forms151_table g h'.1).2.2.2.2.1]
  identity {f} h := by
    have hf : Form.identity (-151) = .ok ⟨1, 1, 38⟩ := by decide
    rw [hf] at h
    cases h
    exact ⟨by decide, by decide⟩
  generator {f} h := by
    have hf : Form.generator (-151) = .ok ⟨2, 1, 19⟩ := by decide
    rw [hf] at h
    cases h
    exact ⟨_, by decide, rfl⟩
  reduce {f x} h := by
    rw [Form.reduce_of_isReduced (forms151_table f h.1).2.1 (forms151_table f h.1).2.2.2.1]
    exact h
  pulmark h := h
  dupl h := stands151_compose h h
  comp := stands151_compose
  multiply := stands151_compose

/-- A hash that is always the same, and the two primes that are found with it. -/
def digest151 : Digest := ⟨144 :: (List.replicate 30 0 ++ [94]), by simp⟩

def search151 : PrimeSearch where
  sha _ := digest151
  prime n := n == 151 ||
    n == 16674060850173532140994221841251058730870877791852241221681892097139490668174993
  rounds := 1

theorem candidate151 (length : Nat) (mask : List Nat) (seed : Bytes) :
    candidateNumber search151 length mask seed 0 =
      masked mask (beNumber (((List.range (perCandidate length)).flatMap
        fun _ => digest151.bytes).take (length / 8))) := rfl

theorem createDiscriminant151 (seed : Bytes) :
    createDiscriminant search151 seed 8 = some (-151) := by
  have hp : hashPrime search151 seed 8 [0, 1, 2, 8 - 1] = some 151 :=
    (hashPrime_eq_some_iff (by decide)).2
      ⟨0, by decide, (candidate151 ..).trans (by decide), by decide, fun j hj => by omega⟩
  unfold createDiscriminant
  rw [hp]
  rfl

theorem candidate151_B (seed : Bytes) :
    candidateNumber search151 B_bits [B_bits - 1] seed 0 =
      16674060850173532140994221841251058730870877791852241221681892097139490668174993 :=
  (candidate151 ..).trans (by decide +kernel)

theorem squarefree151 : Squarefree (-151 : Int) := by
  rw [← Int.squarefree_natAbs]
  exact (Nat.prime_iff.1 (by norm_num)).squarefree

theorem fits151 {f : Form} {x : Multiplicative (ZMod 7)} (hf : Stands151 f x) :
    CofactorFits (numBits (-151)) f.reduce := by
  obtain ⟨ha, hpos, hdisc, hred, -⟩ := forms151_table f hf.1
  rw [Form.reduce_of_isReduced hpos hred]
  by_cases hne : f.a = f.b
  · show (bqfcCompr f.a f.b).t.natAbs < _
    have ht : (bqfcCompr f.a f.b).t = 0 := by
      unfold bqfcCompr
      rw [if_pos hne]
    rw [ht]
    exact Nat.pow_pos (by decide)
  · refine fits_cofactor ⟨hpos, hdisc⟩ hred (by decide) hne ?_
    have hbits : numBits (-151) = 8 := by decide
    rw [hbits]
    norm_num
    omega

/-! ## Round trip and soundness -/

section Interface

variable {h : PrimeSearch} {A : Arith} {approx : Nat → Int × Int} {d : Int} {G : Type*}
  [CommGroup G] {R : Form → G → Prop}

/-- **The proof does not depend on how the squarings are cut into blocks.** -/
theorem proveSlow_approx (laws : ClassLaws A d R) (hneg : d < 0) (hd8 : d % 8 = 1) {T : Nat}
    {approx' : Nat → Int × Int} (hblocks : BlocksFit approx T) (hblocks' : BlocksFit approx' T)
    {x : Form} {gx : G} (hx : R x gx) (hxr : x.isReduced = true) :
    proveSlow h A approx d x T = proveSlow h A approx' d x T := by
  obtain ⟨y, hy, hwait, hends⟩ := @proveSlow_spec h A approx d G _ R laws hd8 T hblocks x gx hx hxr
  obtain ⟨y', hy', hwait', hends'⟩ :=
    @proveSlow_spec h A approx' d G _ R laws hd8 T hblocks' x gx hx hxr
  have hB : getB h d x y = getB h d x y' := getB_congr laws hneg hx hx hy hy'
  rcases getB_cases (h := h) (d := d) x y with hb | ⟨b, hb⟩
  · rw [hwait hb, hwait' (hB ▸ hb)]
  · obtain ⟨proof, hp, hres⟩ := hends b hb
    obtain ⟨proof', hp', hres'⟩ := hends' b (hB ▸ hb)
    rw [hres, hres', serializeForm_congr laws hneg hy hy', serializeForm_congr laws hneg hp hp']

theorem proveSlow_approx_151 :
    proveSlow search151 arith151 (fun _ => (1, 1)) (-151) ⟨2, 1, 19⟩ 1000 =
      proveSlow search151 arith151 (fun _ => (2, 3)) (-151) ⟨2, 1, 19⟩ 1000 :=
  proveSlow_approx (R := Stands151) laws151 (by decide) (by decide)
    ⟨by decide, by decide, by decide⟩ ⟨by decide, by decide, by decide⟩ ⟨by decide, rfl⟩
    (by decide)

/-- The bytes of the power and of the proof, in this order, are accepted. -/
theorem verify_bytes {hash : Bytes} {T bits : Nat} (hhash : hash.length = 32) (hT : 0 < T)
    (hd : createDiscriminant h hash bits = some d) (h8 : bits % 8 = 0) (hbits0 : 0 < bits)
    (hbits : bits ≤ BQFC_MAX_D_BITS) (hsq : Squarefree d) (laws : ClassLaws A d R)
    {x y proof : Form} {gx : G} {b : Nat} (hstart : startForm d = .ok x)
    (hxr : x.isReduced = true) (hx : R x gx) (hy : R y (gx ^ 2 ^ T))
    (hb : getB h d x y = some (.ok b)) (hp : R proof (gx ^ (2 ^ T / b)))
    (hfits : FormsFit h d R x gx T) :
    (serializeForm y (numBits d) ++ serializeForm proof (numBits d)).length = 2 * BQFC_FORM_SIZE ∧
      verify h A hash (serializeForm y (numBits d) ++ serializeForm proof (numBits d)) T bits 0 =
        some true := by
  obtain ⟨hneg, hd8, hsize, -⟩ := createDiscriminant_spec h8 hbits0 hd
  have hnum : numBits d ≤ BQFC_MAX_D_BITS := by
    unfold numBits
    omega
  have hxx := Form.reduce_of_isReduced (laws.posDef hx).a_pos hxr
  have hfx : CofactorFits (numBits d) x.reduce := by
    rw [hxx]
    exact startForm_fits h8 hbits0 hneg hd8 hsize hstart
  obtain ⟨hfy, hfits⟩ := hfits y hy
  have hfp := hfits b proof hb hp
  have hly := length_serializeForm laws hneg hd8 hsq hnum hy hfy
  have hlp := length_serializeForm laws hneg hd8 hsq hnum hp hfp
  have hlen : (serializeForm y (numBits d) ++ serializeForm proof (numBits d)).length =
      2 * BQFC_FORM_SIZE := by
    rw [List.length_append, hly, hlp, two_mul]
  refine ⟨hlen, ?_⟩
  have hne : serializeForm y (numBits d) ++ serializeForm proof (numBits d) ≠ [] := by
    intro hnil
    rw [hnil] at hlen
    simp [BQFC_FORM_SIZE] at hlen
  have hsy : slice (serializeForm y (numBits d) ++ serializeForm proof (numBits d)) 0
      BQFC_FORM_SIZE = serializeForm y (numBits d) := by
    unfold slice
    rw [List.drop_zero, ← hly, List.take_left]
  have hsp : slice (serializeForm y (numBits d) ++ serializeForm proof (numBits d))
      BQFC_FORM_SIZE BQFC_FORM_SIZE = serializeForm proof (numBits d) := by
    unfold slice
    conv_lhs => rw [← hly, List.drop_left, hly, ← hlp, List.take_length]
  obtain ⟨hyr, hyR⟩ := reduce_rep laws hneg hy
  obtain ⟨-, hpR⟩ := reduce_rep laws hneg hp
  have hb' : getB h d x.reduce y.reduce = some (.ok b) := by
    rw [hxx, getB_congr laws hneg hx hx hyR hy, hb]
  have hcheck : verifyWesolowskiProof h A d x.reduce y.reduce proof.reduce T = some (.ok true) := by
    rw [verifyWesolowskiProof_iff laws hneg hd8 (hxx.symm ▸ hx) hyR hyr hpR hb', ← pow_mul,
      ← pow_add, Nat.mul_comm, Nat.div_add_mod]
  unfold verify
  rw [if_neg (by rintro (h1 | h1 | h1); exacts [h1 hhash, hne h1, hT.ne' h1]), hd]
  simp only [Option.map_some, Run.bind_ok, hstart]
  rw [hlen]
  unfold checkProof
  rw [if_neg (by omega), if_neg (by decide),
    deserializeForm_serializeForm laws hneg hd8 hsq hnum hx hfx, Run.bind_ok,
    checkSegments_done (by decide), Run.bind_ok]
  dsimp only
  rw [hsy, hsp, deserializeForm_serializeForm laws hneg hd8 hsq hnum hy hfy, Run.bind_ok,
    deserializeForm_serializeForm laws hneg hd8 hsq hnum hp hfp, Run.bind_ok, hcheck]
  rfl

/-- **A proof that `prove` makes is accepted by `verify`**, and it makes one where one of the
numbers tried for the discriminant, and one of those tried for `B`, passes the test for primes. -/
theorem verify_prove {hash : Bytes} {T bits i : Nat} (hhash : hash.length = 32) (hT : 0 < T)
    (h8 : bits % 8 = 0) (hbits0 : 0 < bits) (hbits : bits ≤ BQFC_MAX_D_BITS)
    (hfirst : FirstPrime h bits [0, 1, 2, bits - 1] hash i)
    (hd : d = -(candidateNumber h bits [0, 1, 2, bits - 1] hash i : Int)) (hsq : Squarefree d)
    (laws : ClassLaws A d R) (hblocks : BlocksFit approx T)
    (hB : ∀ x gx y, startForm d = .ok x → R x gx → R y (gx ^ 2 ^ T) →
      ∃ m < h.rounds, h.prime (candidateNumber h B_bits [B_bits - 1]
        (serializeForm x (numBits d) ++ serializeForm y (numBits d)) m) = true)
    (hfit : ∀ x gx, startForm d = .ok x → R x gx → FormsFit h d R x gx T) :
    ∃ proof, prove h A approx hash T bits = some proof ∧ proof.length = 2 * BQFC_FORM_SIZE ∧
      verify h A hash proof T bits 0 = some true := by
  have hd := (createDiscriminant_eq_neg_iff h8).2 ⟨i, hfirst, hd⟩
  obtain ⟨hneg, hd8, -, -⟩ := createDiscriminant_spec h8 hbits0 hd
  obtain ⟨x, hstart, hxr, gx, hx⟩ := startForm_rep laws hneg hd8
  obtain ⟨y, hy, -, hends⟩ := @proveSlow_spec h A approx d G _ R laws hd8 T hblocks x gx hx hxr
  obtain ⟨m, hm, hprime⟩ := hB x gx y hstart hx hy
  obtain ⟨b, hb⟩ := hashPrime_of_passes (by decide) hm hprime
  have hb : getB h d x y = some (.ok b) := by
    unfold getB
    rw [hb, Option.map_some]
  obtain ⟨proof, hp, hres⟩ := hends b hb
  refine ⟨_, ?_, verify_bytes hhash hT hd h8 hbits0 hbits hsq laws hstart hxr hx hy hb hp
    (hfit x gx hstart hx)⟩
  unfold prove
  rw [if_neg (by omega), hd]
  simp only [Option.map_some, Run.bind_ok, hstart, hres]

theorem verify_prove_151 : ∃ proof,
    prove search151 arith151 (fun _ => (1, 1)) (List.replicate 32 0) 1000 8 = some proof ∧
      proof.length = 2 * BQFC_FORM_SIZE ∧
        verify search151 arith151 (List.replicate 32 0) proof 1000 8 0 = some true :=
  verify_prove (by decide) (by decide) (by decide) (by decide) (by decide)
    ⟨by decide, by decide +kernel, fun j hj => absurd hj (Nat.not_lt_zero j)⟩ (by decide +kernel)
    squarefree151 laws151 ⟨by decide, by decide, by decide⟩
    (fun _ _ _ _ _ _ => ⟨0, by decide, by rw [candidate151_B]; decide⟩)
    fun _ _ _ _ _ hy => ⟨fits151 hy, fun _ _ _ hp => fits151 hp⟩

/-- **A proof that `verify` accepts is a chain of segments from the start form to the form it
begins with**, as many squarings long as was asked, and of the right power unless one of its
segments is a root that nobody should know. -/
theorem verify_sound {hash proof : Bytes} {T bits recursion : Nat} (h8 : bits % 8 = 0)
    (hbits0 : 0 < bits) (hsmall : 2 * BQFC_FORM_SIZE + recursion * segmentLen < 2 ^ 31)
    (hd : createDiscriminant h hash bits = some d) (hsq : Squarefree d)
    (laws : ClassLaws A d R) (hv : verify h A hash proof T bits recursion = some true) :
    ∃ x gx y gy segs, startForm d = .ok x ∧ R x gx ∧
      deserializeForm d (slice proof 0 BQFC_FORM_SIZE) BQFC_FORM_SIZE = .ok y ∧ R y gy ∧
        segs.length = recursion + 1 ∧ Accepted h d R proof segs x y gx gy T := by
  obtain ⟨hneg, hd8, hsize, -⟩ := createDiscriminant_spec h8 hbits0 hd
  obtain ⟨x, hstart, hxr, gx, hx⟩ := startForm_rep laws hneg hd8
  unfold verify at hv
  split at hv
  · simp at hv
  · rw [hd] at hv
    simp only [Option.map_some, Run.bind_ok, hstart] at hv
    have hdepth : int32 recursion = recursion := by
      have hseg : 0 < segmentLen := by decide
      have := Nat.le_mul_of_pos_right recursion hseg
      exact int32_of_lt (by omega) (by omega)
    rw [hdepth] at hv
    have hrun : checkProof h A d (serializeForm x (numBits d)) proof (int32 proof.length) T
        recursion = some (.ok true) := by
      obtain ⟨r, hr, heq⟩ := Option.map_eq_some_iff.1 hv
      rcases r with e | ok
      · simp at heq
      · simp only at heq
        rw [hr, heq]
    have hnum : numBits d ≤ BQFC_MAX_D_BITS := by
      by_contra hcon
      unfold checkProof at hrun
      rw [if_pos (not_le.1 hcon)] at hrun
      simp at hrun
    have hxx := Form.reduce_of_isReduced (laws.posDef hx).a_pos hxr
    have hfx : CofactorFits (numBits d) x.reduce := by
      rw [hxx]
      exact startForm_fits h8 hbits0 hneg hd8 hsize hstart
    have hxs := deserializeForm_serializeForm laws hneg hd8 hsq hnum hx hfx
    rw [hxx] at hxs
    obtain ⟨y, gy, segs, hy, hgy, hres⟩ := checkProof_sound laws hneg hd8 hsmall hxs hx hrun
    exact ⟨x, gx, y, gy, segs, hstart, hx, hy, hgy, hres⟩

/-- A chain of 601 and 403 squarings: the power and the proof of the second segment, and behind them
the count, `B` and the proof of the first. -/
def chain151 : Bytes :=
  serializeForm ⟨5, -3, 8⟩ 8 ++ serializeForm ⟨2, -1, 19⟩ 8 ++
    ([0, 0, 0, 0, 0, 0, 2, 89] ++ (digest151.bytes ++ [145]) ++ serializeForm ⟨5, 3, 8⟩ 8)

set_option maxRecDepth 4000 in
theorem verify_sound_151 :
    verify search151 arith151 (List.replicate 32 0) chain151 1004 8 1 = some true ∧
      ∃ x gx y gy segs, startForm (-151) = .ok x ∧ Stands151 x gx ∧
        deserializeForm (-151) (slice chain151 0 BQFC_FORM_SIZE) BQFC_FORM_SIZE = .ok y ∧
          Stands151 y gy ∧ segs.length = 2 ∧
            Accepted search151 (-151) Stands151 chain151 segs x y gx gy 1004 := by
  have hv : verify search151 arith151 (List.replicate 32 0) chain151 1004 8 1 = some true := by
    decide +kernel
  exact ⟨hv, verify_sound (by decide) (by decide) (by decide) (createDiscriminant151 _)
    squarefree151 laws151 hv⟩

end Interface

end Vdf
