import SuprMeow.Vdf.Prover

/-!
# Checking a proof

`ProveSlow`, `CheckProofOfTimeNWesolowski` and what they call: a proof is `y || π`, and behind it
any number of segments, read from the end, each of which moves the start of the chain.

* `verifyWesolowskiProof_iff`, `verifyWesoSegment_ok` — the checks as equations between elements;
* `ForgedRoot` — a segment whose proof is a root of an element that is not the identity, for an
  exponent that depends on the element;
* `root_of_equation` — an equation for a wrong power is one;
* `checkSegments_sound`, `checkProof_sound` — so every accepted chain is right, or contains one.
-/

set_option autoImplicit false

open Stratum (Bytes)
open Poi (beNumber)

namespace Vdf

/-- `none` is a search for a prime that has not ended; an error is an exception. -/
abbrev Run (α : Type) := Option (Except String α)

def Run.bind {α β : Type} (r : Run α) (f : α → Run β) : Run β :=
  match r with
  | none => none
  | some (.error e) => some (.error e)
  | some (.ok a) => f a

def B_bits : Nat := 264

def B_bytes : Nat := (B_bits + 7) / 8

/-- A product or a sum of two `int`, which wraps, and `static_cast<int32_t>`. -/
def int32 (n : Int) : Int := n.bmod (2 ^ 32)

theorem int32_of_lt {n : Int} (h0 : 0 ≤ n) (h : n < 2 ^ 31) : int32 n = n :=
  Int.bmod_eq_of_le (by omega) (by omega)

/-- `integer::num_bits` of a number that is not zero. -/
def numBits (d : Int) : Nat := d.natAbs.size

/-! ## The code -/

/-- `SerializeForm`. -/
def serializeForm (y : Form) (dBits : Nat) : Bytes :=
  bqfcSerialize (List.replicate BQFC_FORM_SIZE 0) y.reduce.a y.reduce.b dBits

/-- `DeserializeForm`. -/
def deserializeForm (d : Int) (bytes : Bytes) (size : Nat) : Except String Form :=
  match bqfcDeserialize (List.replicate BQFC_FORM_SIZE 0) d bytes size (numBits d) with
  | none => .error "Deserializing compressed form failed"
  | some (a, b) =>
    match Form.fromAbd a b d with
    | .error e => .error e
    | .ok f => if f.isReduced then .ok f else .error "Form is not reduced"

section Code

variable (h : PrimeSearch) (A : Arith)

/-- `GetB`. -/
def getB (d : Int) (x y : Form) : Run Nat :=
  (hashPrime h (serializeForm x (numBits d) ++ serializeForm y (numBits d)) B_bits
    [B_bits - 1]).map .ok

/-- `ProveSlow`, without a shutdown file; `approx` is `ApproximateParameters`. -/
def proveSlow (approx : Nat → Int × Int) (d : Int) (x : Form) (iterations : Nat) : Run Bytes :=
  Run.bind (some (Form.fromAbd x.a x.b d)) fun y =>
  let (l, k) := approx iterations
  let k := if k ≤ 0 then 1 else k.toNat
  let l := if l ≤ 0 then 1 else l.toNat
  let kl := int32 ((k * l : Nat) : Int)
  let (y, kept) := squarings A d (kl % 2 ^ 64).toNat iterations y
  Run.bind (getB h d x y) fun b =>
  Run.bind (some (Form.identity d)) fun one =>
  let proof := generateWesolowski A d one kept iterations k l b
  some (.ok (serializeForm y (numBits d) ++ serializeForm proof (numBits d)))

/-- `VerifyWesoSegment`: the end of the segment, and whether `B` is the one it should be. -/
def verifyWesoSegment (d : Int) (x proof : Form) (b iters : Nat) : Run (Form × Bool) :=
  if b = 0 then some (.error "Division by 0")
  else
    Run.bind (some (Form.identity d)) fun one =>
    let r := fastPow 2 iters b
    let f1 := fastPowForm A d one proof b
    let f2 := fastPowForm A d one x r
    let y := A.mul f1 f2
    Run.bind (getB h d x y) fun b' => some (.ok (y, b == b'))

/-- `VerifyWesolowskiProof`. -/
def verifyWesolowskiProof (d : Int) (x y proof : Form) (iters : Nat) : Run Bool :=
  Run.bind (getB h d x y) fun b =>
  if b = 0 then some (.error "Division by 0")
  else
    Run.bind (some (Form.identity d)) fun one =>
    let r := fastPow 2 iters b
    let f1 := fastPowForm A d one proof b
    let f2 := fastPowForm A d one x r
    some (.ok (decide (A.mul f1 f2 = y)))

/-- `8 + B_bytes + form_size`. -/
def segmentLen : Nat := 8 + B_bytes + BQFC_FORM_SIZE

/-- `&blob[offset]`, `n` bytes of it. -/
def slice (blob : Bytes) (offset n : Nat) : Bytes := (blob.drop offset).take n

/-- The loop over the segments, from offset `i` down; `none` inside is `return false`. -/
def checkSegments (d : Int) (blob : Bytes) : Nat → Int → Form → Nat → Run (Option (Form × Nat))
  | 0, _, x, iterations => some (.ok (some (x, iterations)))
  | n + 1, i, x, iterations =>
    if i < (2 * BQFC_FORM_SIZE : Nat) then some (.ok (some (x, iterations)))
    else
      let iters := beNumber (slice blob i.toNat 8)
      Run.bind (some (deserializeForm d (slice blob (i.toNat + 8 + B_bytes) BQFC_FORM_SIZE)
        BQFC_FORM_SIZE)) fun proof =>
      let b := beNumber (slice blob (i.toNat + 8) B_bytes)
      Run.bind (verifyWesoSegment h A d x proof b iters) fun r =>
      if r.2 = false then some (.ok none)
      else if iterations < iters then some (.ok none)
      else checkSegments d blob n (i - segmentLen) r.1 (iterations - iters)

/-- `CheckProofOfTimeNWesolowski`, with the length and the depth as the `int32_t` they are. -/
def checkProof (d : Int) (xs blob : Bytes) (blobLen : Int) (iterations : Nat) (depth : Int) :
    Run Bool :=
  if BQFC_MAX_D_BITS < numBits d then some (.ok false)
  else if depth < 0 ∨
      blobLen ≠ int32 ((2 * BQFC_FORM_SIZE : Nat) + int32 (depth * segmentLen)) then
    some (.ok false)
  else
    Run.bind (some (deserializeForm d xs BQFC_FORM_SIZE)) fun x =>
    Run.bind (checkSegments h A d blob blobLen.toNat (blobLen - segmentLen) x iterations) fun r =>
    match r with
    | none => some (.ok false)
    | some (x, iterations) =>
      Run.bind (some (deserializeForm d (slice blob 0 BQFC_FORM_SIZE) BQFC_FORM_SIZE)) fun y =>
      Run.bind (some (deserializeForm d (slice blob BQFC_FORM_SIZE BQFC_FORM_SIZE)
        BQFC_FORM_SIZE)) fun proof =>
      verifyWesolowskiProof h A d x y proof iterations

/-- The form both sides start from. -/
def startForm (d : Int) : Except String Form :=
  match Form.generator d with
  | .error e => .error e
  | .ok x => .ok x.reduce

/-- `Vdf::prove`; an exception is an empty result. -/
def prove (approx : Nat → Int × Int) (prevBlockHash : Bytes) (iterations bits : Nat) :
    Option Bytes :=
  if prevBlockHash.length ≠ 32 ∨ iterations = 0 then some []
  else
    let r : Run Bytes := Run.bind ((createDiscriminant h prevBlockHash bits).map .ok) fun d =>
      Run.bind (some (startForm d)) fun x => proveSlow h A approx d x iterations
    r.map fun
      | .error _ => []
      | .ok bytes => bytes

/-- `Vdf::verify`; an exception is a rejection. -/
def verify (prevBlockHash proof : Bytes) (iterations bits recursion : Nat) : Option Bool :=
  if prevBlockHash.length ≠ 32 ∨ proof = [] ∨ iterations = 0 then some false
  else
    let r : Run Bool := Run.bind ((createDiscriminant h prevBlockHash bits).map .ok) fun d =>
      Run.bind (some (startForm d)) fun x =>
      checkProof h A d (serializeForm x (numBits d)) proof (int32 proof.length) iterations
        (int32 recursion)
    r.map fun
      | .error _ => false
      | .ok ok => ok

end Code

/-- A blob of 205 bytes has the length that depth 30460761 asks for in 32 bits. -/
example : int32 ((2 * BQFC_FORM_SIZE : Nat) + int32 (30460761 * segmentLen)) = 205 := by decide

theorem natAbs_lt_numBits (d : Int) : d.natAbs < 2 ^ numBits d := Nat.lt_size_self _

/-! ## Runs that return -/

@[simp] theorem Run.bind_ok {α β : Type} (a : α) (f : α → Run β) :
    Run.bind (some (.ok a)) f = f a := rfl

theorem Run.bind_eq_ok {α β : Type} {r : Run α} {f : α → Run β} {b : β}
    (h : Run.bind r f = some (.ok b)) : ∃ a, r = some (.ok a) ∧ f a = some (.ok b) := by
  unfold Run.bind at h
  split at h
  · simp at h
  · simp at h
  · exact ⟨_, rfl, h⟩

section Represented

variable {h : PrimeSearch} {A : Arith} {d : Int} {G : Type*} [CommGroup G] {R : Form → G → Prop}
  (laws : ClassLaws A d R) (hneg : d < 0)

include laws hneg

theorem reduce_rep {f : Form} {x : G} (hf : R f x) : f.reduce.isReduced = true ∧ R f.reduce x :=
  ⟨(Form.reduce_spec hneg (laws.posDef hf)).1, laws.reduce hf⟩

/-- Forms that stand for the same element are written as the same bytes. -/
theorem reduce_congr {f g : Form} {x : G} (hf : R f x) (hg : R g x) : f.reduce = g.reduce := by
  obtain ⟨hfr, hf'⟩ := reduce_rep laws hneg hf
  obtain ⟨hgr, hg'⟩ := reduce_rep laws hneg hg
  exact laws.unique hf' hg' hfr hgr

theorem serializeForm_congr {f g : Form} {x : G} (hf : R f x) (hg : R g x) (n : Nat) :
    serializeForm f n = serializeForm g n := by
  unfold serializeForm
  rw [reduce_congr laws hneg hf hg]

theorem getB_congr {f f' g g' : Form} {x y : G} (hf : R f x) (hf' : R f' x) (hg : R g y)
    (hg' : R g' y) : getB h d f g = getB h d f' g' := by
  unfold getB
  rw [serializeForm_congr laws hneg hf hf', serializeForm_congr laws hneg hg hg']

theorem mul_rep {f g : Form} {x y : G} (hf : R f x) (hg : R g y) :
    (A.mul f g).isReduced = true ∧ R (A.mul f g) (x * y) :=
  reduce_rep laws hneg (laws.multiply hf hg)

omit laws hneg in
/-- `B` has its top bit set. -/
theorem getB_ge {x y : Form} {b : Nat} (hb : getB h d x y = some (.ok b)) :
    2 ^ (B_bits - 1) ≤ b := by
  unfold getB at hb
  obtain ⟨p, hp, heq⟩ := Option.map_eq_some_iff.1 hb
  cases heq
  obtain ⟨-, -, hbits⟩ := hashPrime_spec (by decide) (by decide) (by decide) hp
  exact Nat.ge_two_pow_of_testBit (hbits (B_bits - 1) (by decide))

omit hneg in
theorem identity_rep (hd8 : d % 8 = 1) : ∃ one, Form.identity d = .ok one ∧ R one 1 := by
  obtain ⟨-, one, hone⟩ := Form.fromAbd_generator hd8
  exact ⟨one, hone, laws.identity hone⟩

theorem startForm_rep (hd8 : d % 8 = 1) :
    ∃ x, startForm d = .ok x ∧ x.isReduced = true ∧ ∃ g, R x g := by
  obtain ⟨⟨x, hx⟩, -⟩ := Form.fromAbd_generator hd8
  obtain ⟨g, hg⟩ := laws.generator hx
  obtain ⟨hred, hrep⟩ := reduce_rep laws hneg hg
  refine ⟨x.reduce, ?_, hred, g, hrep⟩
  unfold startForm
  rw [hx]

theorem deserializeForm_spec {bytes : Bytes} {size : Nat} {f : Form}
    (hf : deserializeForm d bytes size = .ok f) : f.isReduced = true ∧ ∃ x, R f x := by
  unfold deserializeForm at hf
  split at hf
  · simp at hf
  · rename_i a b _
    cases hab : Form.fromAbd a b d with
    | error e => simp [hab] at hf
    | ok g =>
      obtain ⟨hred, hpos⟩ := Form.fromAbd_spec hneg hab
      simp only [hab, hred, if_true, Except.ok.injEq] at hf
      rw [← hf]
      exact ⟨hred, laws.total hpos hred⟩

/-! ## Forms as bytes -/

variable (hd8 : d % 8 = 1) (hsq : Squarefree d) (hbits : numBits d ≤ BQFC_MAX_D_BITS)

include hd8 hsq hbits

theorem deserializeForm_serializeForm {f : Form} {x : G} (hf : R f x)
    (hfit : CofactorFits (numBits d) f.reduce) :
    deserializeForm d (serializeForm f (numBits d)) BQFC_FORM_SIZE = .ok f.reduce := by
  obtain ⟨hred, hrep⟩ := reduce_rep laws hneg hf
  have hpos := laws.posDef hrep
  unfold deserializeForm serializeForm
  rw [deserialize_serialize (List.length_replicate ..) (List.length_replicate ..) hpos hred
    (by omega) hsq (natAbs_lt_numBits d) hbits hfit]
  dsimp only
  rw [Form.fromAbd_of_isReduced hpos hred]
  dsimp only
  rw [if_pos hred]

theorem length_serializeForm {f : Form} {x : G} (hf : R f x)
    (hfit : CofactorFits (numBits d) f.reduce) :
    (serializeForm f (numBits d)).length = BQFC_FORM_SIZE := by
  obtain ⟨hred, hrep⟩ := reduce_rep laws hneg hf
  exact length_serialize (List.length_replicate ..) (laws.posDef hrep) hred (by omega) hsq
    (natAbs_lt_numBits d) hbits hfit

end Represented

/-! ## One equation -/

section Check

variable {h : PrimeSearch} {A : Arith} {d : Int} {G : Type*} [CommGroup G] {R : Form → G → Prop}
  (laws : ClassLaws A d R) (hneg : d < 0) (hd8 : d % 8 = 1)

include laws hneg

/-- The form both sides of the equation are compared as. -/
theorem equation_rep {one x proof : Form} {gx gp : G} (hone : R one 1) (hx : R x gx)
    (hp : R proof gp) (b iters : Nat) :
    (A.mul (fastPowForm A d one proof b) (fastPowForm A d one x (fastPow 2 iters b))).isReduced =
        true ∧
      R (A.mul (fastPowForm A d one proof b) (fastPowForm A d one x (fastPow 2 iters b)))
        (gp ^ b * gx ^ (2 ^ iters % b)) :=
  mul_rep laws hneg (fastPowForm_rep laws hone hp b) (fastPowForm_rep laws hone hx _)

include hd8

/-- **The last check is the equation between the elements.** -/
theorem verifyWesolowskiProof_iff {x y proof : Form} {gx gy gp : G} (hx : R x gx) (hy : R y gy)
    (hyr : y.isReduced = true) (hp : R proof gp) {b : Nat} (hb : getB h d x y = some (.ok b))
    (iters : Nat) :
    verifyWesolowskiProof h A d x y proof iters = some (.ok true) ↔
      gp ^ b * gx ^ (2 ^ iters % b) = gy := by
  obtain ⟨one, hid, hone⟩ := identity_rep laws hd8
  have hbpos : b ≠ 0 := by
    have := getB_ge hb
    have := Nat.two_pow_pos (B_bits - 1)
    omega
  obtain ⟨hred, hrep⟩ := equation_rep laws hneg hone hx hp b iters
  unfold verifyWesolowskiProof
  rw [hb, Run.bind_ok, if_neg hbpos, hid, Run.bind_ok]
  simp only [Option.some.injEq, Except.ok.injEq, decide_eq_true_eq]
  constructor
  · intro heq
    rw [heq] at hrep
    exact laws.functional hrep hy
  · rintro rfl
    exact laws.unique hrep hy hred hyr

/-- **A segment leads to the element its equation gives**, and only if `B` is right. -/
theorem verifyWesoSegment_ok {x proof y : Form} {gx gp : G} (hx : R x gx) (hp : R proof gp)
    {b iters : Nat} (hv : verifyWesoSegment h A d x proof b iters = some (.ok (y, true))) :
    R y (gp ^ b * gx ^ (2 ^ iters % b)) ∧ getB h d x y = some (.ok b) := by
  obtain ⟨one, hid, hone⟩ := identity_rep laws hd8
  obtain ⟨-, hrep⟩ := equation_rep laws hneg hone hx hp b iters
  unfold verifyWesoSegment at hv
  split at hv
  · simp at hv
  · rw [hid, Run.bind_ok] at hv
    obtain ⟨b', hb', heq⟩ := Run.bind_eq_ok hv
    simp only [Option.some.injEq, Except.ok.injEq, Prod.mk.injEq, beq_iff_eq] at heq
    obtain ⟨rfl, rfl⟩ := heq
    exact ⟨hrep, hb'⟩

/-! ## What is accepted -/

omit laws hneg hd8 in
/-- The loop ends below the two forms at the front. -/
theorem checkSegments_done {blob : Bytes} {fuel T : Nat} {i : Int} {x : Form}
    (hi : i < (2 * BQFC_FORM_SIZE : Nat)) :
    checkSegments h A d blob fuel i x T = some (.ok (some (x, T))) := by
  cases fuel with
  | zero => rfl
  | succ n => rw [checkSegments, if_pos hi]

omit laws hneg hd8 in
/-- An equation `π ^ B * x ^ r = y` that was checked for `iters` squarings. -/
structure Segment where
  x : Form
  y : Form
  proof : Form
  iters : Nat
  b : Nat

omit laws hneg hd8 in
/-- Each segment starts where the one before it ends. -/
def Linked : Form → List Segment → Form → Prop
  | x, [], y => x = y
  | x, s :: l, y => s.x = x ∧ Linked s.y l y

/-- A segment whose proof stands in the blob, with the `B` that belongs to its ends. -/
structure Segment.Checked (h : PrimeSearch) (d : Int) (blob : Bytes) (s : Segment) : Prop where
  stored : ∃ i, deserializeForm d (slice blob i BQFC_FORM_SIZE) BQFC_FORM_SIZE = .ok s.proof
  hashed : getB h d s.x s.y = some (.ok s.b)

/-- The ends of a segment are not `iters` squarings apart, and its proof gives a `B`-th root of what
they differ by, where `B` was only known once they were chosen. -/
def ForgedRoot (R : Form → G → Prop) (s : Segment) : Prop :=
  ∃ x y gp : G, R s.x x ∧ R s.y y ∧ R s.proof gp ∧ y / x ^ 2 ^ s.iters ≠ 1 ∧
    (gp / x ^ (2 ^ s.iters / s.b)) ^ s.b = y / x ^ 2 ^ s.iters

omit laws hneg hd8 in
/-- An equation for a wrong power gives such a root. -/
theorem root_of_equation {s : Segment} {x y gp : G} (hx : R s.x x) (hy : R s.y y)
    (hp : R s.proof gp) (heq : gp ^ s.b * x ^ (2 ^ s.iters % s.b) = y) :
    y = x ^ 2 ^ s.iters ∨ ForgedRoot R s := by
  by_cases hgood : y / x ^ 2 ^ s.iters = 1
  · exact .inl (div_eq_one.1 hgood)
  · exact .inr ⟨x, y, gp, hx, hy, hp, hgood, BucketPower.div_pow_eq x y gp _ s.b heq⟩

/-- Segments from `x` to `y`, which are `T` squarings apart unless one of them is forged. -/
structure Accepted (h : PrimeSearch) (d : Int) (R : Form → G → Prop) (blob : Bytes)
    (segs : List Segment) (x y : Form) (gx gy : G) (T : Nat) : Prop where
  linked : Linked x segs y
  iters : (segs.map Segment.iters).sum = T
  checked : ∀ s ∈ segs, s.Checked h d blob
  power : gy = gx ^ 2 ^ T ∨ ∃ s ∈ segs, ForgedRoot R s

omit laws hneg hd8 in
/-- One segment before the others. -/
theorem Accepted.cons {blob : Bytes} {segs : List Segment} {s : Segment} {y : Form} {gx gs gy : G}
    {T : Nat} (hx : R s.x gx) (hs : R s.y gs) {gp : G} (hp : R s.proof gp)
    (heq : gp ^ s.b * gx ^ (2 ^ s.iters % s.b) = gs) (hc : s.Checked h d blob)
    (hle : s.iters ≤ T) (hl : Accepted h d R blob segs s.y y gs gy (T - s.iters)) :
    Accepted h d R blob (s :: segs) s.x y gx gy T where
  linked := ⟨rfl, hl.linked⟩
  iters := by
    rw [List.map_cons, List.sum_cons, hl.iters]
    omega
  checked := by
    rintro t (_ | ⟨_, ht⟩)
    · exact hc
    · exact hl.checked t ht
  power := by
    rcases hl.power with rfl | ⟨t, ht, hroot⟩
    · rcases root_of_equation hx hs hp heq with rfl | hroot
      · left
        rw [← pow_mul, ← pow_add, Nat.add_sub_cancel' hle]
      · exact .inr ⟨s, by simp, hroot⟩
    · exact .inr ⟨t, by simp [ht], hroot⟩

/-- **The segments that are accepted lead to the power they claim, or a root is in them**; what
follows them goes on from the form they end in. -/
theorem checkSegments_sound {blob : Bytes} (y : Form) (gy : G) :
    ∀ (n fuel : Nat) (i : Int) (x : Form) (T : Nat) (gx : G), n ≤ fuel →
      i + segmentLen = (2 * BQFC_FORM_SIZE + n * segmentLen : Nat) → R x gx →
        ∀ {x' : Form} {T' : Nat},
      checkSegments h A d blob fuel i x T = some (.ok (some (x', T'))) →
        (∀ gx', R x' gx' → ∃ segs, segs.length = 1 ∧ Accepted h d R blob segs x' y gx' gy T') →
          ∃ segs, segs.length = n + 1 ∧ Accepted h d R blob segs x y gx gy T := by
  intro n
  induction n with
  | zero =>
    intro fuel i x T gx _ hi hx x' T' hrun hlast
    have hout : i < (2 * BQFC_FORM_SIZE : Nat) := by
      unfold segmentLen at hi
      omega
    rw [checkSegments_done hout] at hrun
    simp only [Option.some.injEq, Except.ok.injEq, Prod.mk.injEq] at hrun
    obtain ⟨rfl, rfl⟩ := hrun
    exact hlast gx hx
  | succ n ih =>
    intro fuel i x T gx hfuel hi hx x' T' hrun hlast
    obtain ⟨fuel, rfl⟩ : ∃ m, fuel = m + 1 := ⟨fuel - 1, by omega⟩
    have hin : i = (2 * BQFC_FORM_SIZE + n * segmentLen : Nat) := by
      rw [Nat.add_mul, Nat.one_mul] at hi
      omega
    rw [checkSegments, if_neg (by omega)] at hrun
    obtain ⟨proof, hproof, hrun⟩ := Run.bind_eq_ok hrun
    obtain ⟨⟨z, good⟩, hseg, hrun⟩ := Run.bind_eq_ok hrun
    replace hproof := Option.some.inj hproof
    obtain ⟨-, gp, hp⟩ := deserializeForm_spec laws hneg hproof
    dsimp only at hrun
    cases good with
    | false => simp at hrun
    | true =>
      obtain ⟨hz, hb⟩ := verifyWesoSegment_ok laws hneg hd8 hx hp hseg
      rw [if_neg (by simp)] at hrun
      split at hrun
      · simp at hrun
      · rename_i hle
        obtain ⟨segs, hlen, hacc⟩ := ih fuel _ z _ _ (by omega) (by omega) hz hrun hlast
        refine ⟨⟨x, z, proof, beNumber (slice blob i.toNat 8),
          beNumber (slice blob (i.toNat + 8) B_bytes)⟩ :: segs, by simp [hlen], ?_⟩
        exact hacc.cons hx hz hp rfl ⟨⟨_, hproof⟩, hb⟩ (not_lt.1 hle)

/-- **`CheckProofOfTimeNWesolowski` only accepts the right power, or a root is in the proof.** -/
theorem checkProof_sound {xs blob : Bytes} {blobLen : Int} {T depth : Nat} {x : Form} {gx : G}
    (hsmall : 2 * BQFC_FORM_SIZE + depth * segmentLen < 2 ^ 31)
    (hxs : deserializeForm d xs BQFC_FORM_SIZE = .ok x) (hx : R x gx)
    (hrun : checkProof h A d xs blob blobLen T depth = some (.ok true)) :
    ∃ y gy segs, deserializeForm d (slice blob 0 BQFC_FORM_SIZE) BQFC_FORM_SIZE = .ok y ∧
      R y gy ∧ segs.length = depth + 1 ∧ Accepted h d R blob segs x y gx gy T := by
  unfold checkProof at hrun
  split at hrun
  · simp at hrun
  · split at hrun
    · simp at hrun
    · rename_i hlen
      obtain ⟨-, hlen⟩ := not_or.1 hlen
      have hdepth : int32 ((depth : Int) * segmentLen) = (depth * segmentLen : Nat) := by
        rw [← Nat.cast_mul]
        exact int32_of_lt (by omega) (by omega)
      have hlen : blobLen = (2 * BQFC_FORM_SIZE + depth * segmentLen : Nat) := by
        rw [not_not.1 hlen, hdepth, ← Nat.cast_add]
        exact int32_of_lt (by omega) (by omega)
      rw [hxs, Run.bind_ok] at hrun
      obtain ⟨r, hseg, hrun⟩ := Run.bind_eq_ok hrun
      rcases r with _ | ⟨x', T'⟩
      · simp at hrun
      · obtain ⟨y, hy, hrun⟩ := Run.bind_eq_ok hrun
        obtain ⟨proof, hp, hrun⟩ := Run.bind_eq_ok hrun
        replace hy := Option.some.inj hy
        replace hp := Option.some.inj hp
        obtain ⟨hyr, gy, hgy⟩ := deserializeForm_spec laws hneg hy
        obtain ⟨-, gp, hgp⟩ := deserializeForm_spec laws hneg hp
        obtain ⟨b, hb, -⟩ := Run.bind_eq_ok hrun
        have hlast : ∀ gx', R x' gx' →
            ∃ segs, segs.length = 1 ∧ Accepted h d R blob segs x' y gx' gy T' := by
          intro gx' hx'
          have heq := (verifyWesolowskiProof_iff laws hneg hd8 hx' hgy hyr hgp hb T').1 hrun
          have hnil : Accepted h d R blob [] y y gy gy (T' - T') :=
            ⟨rfl, (Nat.sub_self _).symm, by simp, by simp⟩
          refine ⟨[⟨x', y, proof, T', b⟩], rfl, ?_⟩
          exact hnil.cons hx' hgy hgp heq ⟨⟨_, hp⟩, hb⟩ le_rfl
        have hfuel : depth ≤ blobLen.toNat := by
          have hseg : 0 < segmentLen := by decide
          have := Nat.le_mul_of_pos_right depth hseg
          omega
        obtain ⟨segs, hlen, hacc⟩ := checkSegments_sound laws hneg hd8 y gy depth _ _ x T gx hfuel
          (by omega) hx hseg hlast
        exact ⟨y, gy, segs, hy, hgy, hlen, hacc⟩

end Check

end Vdf
