import Mathlib.Data.List.GetD
import SuprMeow.Library.BucketPower
import SuprMeow.Vdf.Bqfc
import SuprMeow.Vdf.HashPrime

/-!
# Making a proof

`ProveSlow` squares `x` as often as it is told to, keeps every `k l`-th power on the way, and
makes of them the power `x ^ (2 ^ T / B)` that `GenerateWesolowski` returns.

The composition of forms is a parameter; `ClassLaws` says what it computes, through the elements of
a group that forms stand for.

* `fastPowForm_rep` — square and multiply, reduced when the leading coefficient grows;
* `squarings_rep` — the powers that are kept;
* `generateWesolowski_rep` — the proof is the power it should be, whatever `k` and `l` are.
-/

set_option autoImplicit false

open Stratum (Bytes)

namespace Vdf

/-! ## The code -/

/-- `nudupl_form`, `nucomp_form`, `PulmarkReducer::reduce`, and `multiply` up to its last line. -/
structure Arith where
  nudupl : Int → Int → Form → Form
  nucomp : Int → Int → Form → Form → Form
  pulmark : Form → Form
  multiply : Form → Form → Form

/-- `root(-D, 4)`. -/
def root4 (D : Int) : Int := Nat.sqrt (Nat.sqrt (-D).toNat)

/-- `_mp_size` of a number that is not negative. -/
def limbs (n : Int) : Nat := (n.natAbs.size + 63) / 64

/-- `FastPow`; it throws on a zero modulus, which `GetB` never returns. -/
def fastPow (a b c : Nat) : Nat := a ^ b % c

section Code

variable (A : Arith) (D : Int)

/-- `nucomp_form(a, b, c, D, L)`. -/
def Arith.comp (f g : Form) : Form := A.nucomp D (root4 D) f g

def Arith.dupl (f : Form) : Form := A.nudupl D (root4 D) f

/-- `operator*` of two different objects. -/
def Arith.mul (f g : Form) : Form := (A.multiply f g).reduce

/-- One bit of the exponent; `a` above half the size of the discriminant is reduced. -/
def powStep (x : Form) (n : Nat) (res : Form) (i : Nat) : Form :=
  let res := A.dupl D res
  let res := if limbs D / 2 < limbs res.a then A.pulmark res else res
  if n.testBit i then A.comp D res x else res

/-- `FastPowFormNucomp`; `one` is `form::identity(D)`. -/
def fastPowForm (one x : Form) (n : Nat) : Form :=
  if n = 0 then one
  else A.pulmark ((List.range (n.size - 1)).reverse.foldl (powStep A D x n) x)

/-- `GetBlock`: the low limb of the quotient. -/
def getBlock (i k T B : Nat) : Nat := 2 ^ k * fastPow 2 (T - k * (i + 1)) B / B % 2 ^ 64

/-- The loop over the kept powers, for one `j`. -/
def fillBuckets (one : Form) (kept : List Form) (T k l B j : Nat) : List Form :=
  (List.range ((T + k * l - 1) % 2 ^ 64 / (k * l))).foldl
    (fun ys i =>
      if k * (i * l + j + 1) ≤ T then
        let b := getBlock (i * l + j) k T B
        ys.set b (A.comp D (ys.getD b one) (kept.getD i one))
      else ys)
    (List.replicate (2 ^ k) one)

/-- The first aggregation, by the upper part of the bucket number. -/
def aggregateHigh (one : Form) (ys : List Form) (k0 k1 : Nat) (x : Form) : Form :=
  (List.range (2 ^ k1)).foldl
    (fun x b1 =>
      let z := (List.range (2 ^ k0)).foldl
        (fun z b0 => A.comp D z (ys.getD (b1 * 2 ^ k0 + b0) one)) one
      A.comp D x (fastPowForm A D one z (b1 * 2 ^ k0)))
    x

/-- The second one, by the lower part. -/
def aggregateLow (one : Form) (ys : List Form) (k0 k1 : Nat) (x : Form) : Form :=
  (List.range (2 ^ k0)).foldl
    (fun x b0 =>
      let z := (List.range (2 ^ k1)).foldl
        (fun z b1 => A.comp D z (ys.getD (b1 * 2 ^ k0 + b0) one)) one
      A.comp D x (fastPowForm A D one z b0))
    x

/-- `GenerateWesolowski`, with `B` from `GetB`. -/
def generateWesolowski (one : Form) (kept : List Form) (T k l B : Nat) : Form :=
  let k1 := k / 2
  let k0 := k - k1
  A.pulmark ((List.range l).reverse.foldl
    (fun x j =>
      let x := fastPowForm A D one x (2 ^ k)
      let ys := fillBuckets A D one kept T k l B j
      aggregateLow A D one ys k0 k1 (aggregateHigh A D one ys k0 k1 x))
    one)

/-- The loop of `ProveSlow`: the power reached and those that were kept. -/
def squarings (kl T : Nat) (y : Form) : Form × List Form :=
  (List.range T).foldl
    (fun s i =>
      (A.pulmark (A.dupl D s.1), if i % kl = 0 then s.2 ++ [s.1] else s.2))
    (y, [])

end Code

theorem squarings_succ (A : Arith) (D : Int) (kl T : Nat) (y : Form) :
    squarings A D kl (T + 1) y =
      (A.pulmark (A.dupl D (squarings A D kl T y).1),
        if T % kl = 0 then (squarings A D kl T y).2 ++ [(squarings A D kl T y).1]
        else (squarings A D kl T y).2) := by
  unfold squarings
  rw [List.range_succ, List.foldl_append]
  rfl

/-! ## What the forms stand for -/

/-- `R f x`: the form stands for the element. -/
structure ClassLaws (A : Arith) (D : Int) {G : Type*} [CommGroup G] (R : Form → G → Prop) :
    Prop where
  posDef {f : Form} {x : G} : R f x → f.PosDef D
  total {f : Form} : f.PosDef D → f.isReduced = true → ∃ x, R f x
  functional {f : Form} {x y : G} : R f x → R f y → x = y
  unique {f g : Form} {x : G} : R f x → R g x → f.isReduced = true → g.isReduced = true → f = g
  identity {f : Form} : Form.identity D = .ok f → R f 1
  generator {f : Form} : Form.generator D = .ok f → ∃ x, R f x
  reduce {f : Form} {x : G} : R f x → R f.reduce x
  pulmark {f : Form} {x : G} : R f x → R (A.pulmark f) x
  dupl {f : Form} {x : G} : R f x → R (A.dupl D f) (x * x)
  comp {f g : Form} {x y : G} : R f x → R g y → R (A.comp D f g) (x * y)
  multiply {f g : Form} {x y : G} : R f x → R g y → R (A.multiply f g) (x * y)

section Represented

variable {A : Arith} {D : Int} {G : Type*} [CommGroup G] {R : Form → G → Prop}
  (laws : ClassLaws A D R) {one : Form} (hone : R one 1)

include laws

theorem powStep_rep {f res : Form} {x : G} (hx : R f x) {n i : Nat}
    (h : R res (x ^ (n / 2 ^ (i + 1)))) : R (powStep A D f n res i) (x ^ (n / 2 ^ i)) := by
  have hsq := laws.dupl h
  have hred : R (if limbs D / 2 < limbs (A.dupl D res).a then A.pulmark (A.dupl D res)
      else A.dupl D res) (x ^ (n / 2 ^ (i + 1)) * x ^ (n / 2 ^ (i + 1))) := by
    split
    · exact laws.pulmark hsq
    · exact hsq
  rw [BucketPower.pow_div_two_pow_step]
  unfold powStep
  dsimp only
  split
  · exact laws.comp hred hx
  · exact hred

theorem powLoop_rep {f : Form} {x : G} (hx : R f x) (n : Nat) :
    ∀ m res, R res (x ^ (n / 2 ^ m)) →
      R ((List.range m).reverse.foldl (powStep A D f n) res) (x ^ n) := by
  intro m
  induction m with
  | zero =>
    intro res h
    simpa using h
  | succ m ih =>
    intro res h
    rw [List.range_succ, List.reverse_append, List.reverse_singleton, List.singleton_append,
      List.foldl_cons]
    exact ih _ (powStep_rep laws hx h)

include hone

/-- **Square and multiply.** -/
theorem fastPowForm_rep {f : Form} {x : G} (hx : R f x) (n : Nat) :
    R (fastPowForm A D one f n) (x ^ n) := by
  unfold fastPowForm
  split
  · rename_i hn
    rw [hn, pow_zero]
    exact hone
  · rename_i hn
    refine laws.pulmark (powLoop_rep laws hx n _ _ ?_)
    rw [BucketPower.div_top_bit hn, pow_one]
    exact hx

omit hone in
/-- Multiplying up. -/
theorem foldl_comp_rep {n : Nat} {g : Nat → Form} {v : Nat → G}
    (hg : ∀ i < n, R (g i) (v i)) {z : Form} {w : G} (hz : R z w) :
    R ((List.range n).foldl (fun z i => A.comp D z (g i)) z) (w * ∏ i ∈ Finset.range n, v i) := by
  induction n with
  | zero => simpa using hz
  | succ n ih =>
    rw [List.range_succ, List.foldl_append, Finset.prod_range_succ, ← mul_assoc]
    exact laws.comp (ih fun i hi => hg i (by omega)) (hg n (by omega))

/-- **Both aggregations together** raise every bucket to its number. -/
theorem aggregate_rep {ys : List Form} {Y : Nat → G} {k0 k1 : Nat}
    (hys : ∀ b < 2 ^ k1 * 2 ^ k0, R (ys.getD b one) (Y b)) {f : Form} {x : G} (hx : R f x) :
    R (aggregateLow A D one ys k0 k1 (aggregateHigh A D one ys k0 k1 f))
      (x * ∏ b ∈ Finset.range (2 ^ k1 * 2 ^ k0), Y b ^ b) := by
  have hbucket {b1 b0 : Nat} (h1 : b1 < 2 ^ k1) (h0 : b0 < 2 ^ k0) :
      R (ys.getD (b1 * 2 ^ k0 + b0) one) (Y (b1 * 2 ^ k0 + b0)) := by
    refine hys _ ?_
    calc b1 * 2 ^ k0 + b0 < (b1 + 1) * 2 ^ k0 := by rw [Nat.succ_mul]; omega
      _ ≤ 2 ^ k1 * 2 ^ k0 := Nat.mul_le_mul_right _ h1
  have hhigh : R (aggregateHigh A D one ys k0 k1 f) (x * ∏ b1 ∈ Finset.range (2 ^ k1),
      (∏ b0 ∈ Finset.range (2 ^ k0), Y (b1 * 2 ^ k0 + b0)) ^ (b1 * 2 ^ k0)) := by
    refine foldl_comp_rep laws (fun b1 h1 => fastPowForm_rep laws hone ?_ _) hx
    rw [← one_mul (∏ b0 ∈ Finset.range (2 ^ k0), Y (b1 * 2 ^ k0 + b0))]
    exact foldl_comp_rep laws (fun b0 h0 => hbucket h1 h0) hone
  rw [← BucketPower.prod_split_pow, ← mul_assoc]
  refine foldl_comp_rep laws (fun b0 h0 => fastPowForm_rep laws hone ?_ _) hhigh
  rw [← one_mul (∏ b1 ∈ Finset.range (2 ^ k1), Y (b1 * 2 ^ k0 + b0))]
  exact foldl_comp_rep laws (fun b1 h1 => hbucket h1 h0) hone

/-! ## The kept powers -/

omit hone in
/-- **The squarings**: what is reached, how many powers are kept, and which. -/
theorem squarings_rep {y : Form} {x : G} (hy : R y x) {kl : Nat} (hkl : 0 < kl) (T : Nat) :
    R (squarings A D kl T y).1 (x ^ 2 ^ T) ∧
      (squarings A D kl T y).2.length = (T + kl - 1) / kl ∧
        ∀ i < (T + kl - 1) / kl,
          R ((squarings A D kl T y).2.getD i one) (x ^ 2 ^ (kl * i)) := by
  induction T with
  | zero =>
    have hz : (0 + kl - 1) / kl = 0 := Nat.div_eq_of_lt (by omega)
    rw [hz]
    simpa [squarings] using hy
  | succ T ih =>
    obtain ⟨hreach, hlen, hkept⟩ := ih
    rw [squarings_succ]
    refine ⟨?_, ?_⟩
    · rw [pow_succ 2 T, pow_mul, pow_two]
      exact laws.pulmark (laws.dupl hreach)
    · have hstep : (T + 1 + kl - 1) / kl = (T + kl - 1) / kl + if T % kl = 0 then 1 else 0 := by
        rw [show T + 1 + kl - 1 = (T + kl - 1) + 1 by omega, Nat.succ_div]
        congr 1
        have hdvd : kl ∣ T + kl - 1 + 1 ↔ T % kl = 0 := by
          rw [show T + kl - 1 + 1 = T + kl by omega, Nat.dvd_add_self_right,
            Nat.dvd_iff_mod_eq_zero]
        simp only [hdvd]
      rw [hstep]
      dsimp only
      split
      · rename_i hmod
        refine ⟨by rw [List.length_append, hlen]; rfl, fun i hi => ?_⟩
        have hT : (T + kl - 1) / kl = T / kl := by
          obtain ⟨q, rfl⟩ := Nat.dvd_of_mod_eq_zero hmod
          rw [Nat.add_sub_assoc hkl, Nat.mul_add_div hkl, Nat.mul_div_cancel_left _ hkl,
            Nat.div_eq_of_lt (by omega : kl - 1 < kl), Nat.add_zero]
        rcases Nat.lt_or_ge i ((T + kl - 1) / kl) with hlt | hge
        · rw [List.getD_append _ _ _ _ (by omega)]
          exact hkept i hlt
        · have hi' : i = T / kl := by omega
          have hpow : kl * (T / kl) = T := by
            have hdiv := Nat.div_add_mod T kl
            omega
          rw [List.getD_append_right _ _ _ _ (by omega), hlen, hT, hi', Nat.sub_self, hpow]
          exact hreach
      · exact ⟨hlen, fun i hi => hkept i (by rwa [Nat.add_zero] at hi)⟩

/-! ## The buckets -/

omit laws hone in
theorem getBlock_eq {i k T B : Nat} (hB : 0 < B) (hk : k ≤ 64) :
    getBlock i k T B = BucketPower.blockDigit B T k i := by
  have hlt := BucketPower.blockDigit_lt hB T k i
  have hle : 2 ^ k ≤ 2 ^ 64 := Nat.pow_le_pow_right (by decide) hk
  unfold getBlock fastPow
  exact Nat.mod_eq_of_lt (by unfold BucketPower.blockDigit at hlt; omega)

/-- The kept powers that go into bucket `b`, among the first `m`. -/
def bucketed (g : Nat → G) (T k l B j m b : Nat) : G :=
  ∏ i ∈ Finset.range m with
    (i * l + j < T / k ∧ BucketPower.blockDigit B T k (i * l + j) = b), g i

theorem fillBuckets_rep {kept : List Form} {g : Nat → G} {T k l B : Nat} (hB : 0 < B) (hk0 : 0 < k)
    (hk : k ≤ 64) (hfit : T + k * l ≤ 2 ^ 64)
    (hkept : ∀ i < (T + k * l - 1) / (k * l), R (kept.getD i one) (g i)) (j : Nat) :
    ∀ b < 2 ^ k, R ((fillBuckets A D one kept T k l B j).getD b one)
      (bucketed g T k l B j ((T + k * l - 1) / (k * l)) b) := by
  unfold fillBuckets
  rw [Nat.mod_eq_of_lt (by omega)]
  have hloop : ∀ m ≤ (T + k * l - 1) / (k * l), ∀ ys,
      ys = (List.range m).foldl (fun ys i =>
        if k * (i * l + j + 1) ≤ T then
          let b := getBlock (i * l + j) k T B
          ys.set b (A.comp D (ys.getD b one) (kept.getD i one))
        else ys) (List.replicate (2 ^ k) one) →
      ys.length = 2 ^ k ∧ ∀ b < 2 ^ k, R (ys.getD b one) (bucketed g T k l B j m b) := by
    intro m
    induction m with
    | zero =>
      rintro - ys rfl
      refine ⟨by simp, fun b hb => ?_⟩
      simpa [bucketed, hb] using hone
    | succ m ih =>
      rintro hm ys rfl
      rw [List.range_succ, List.foldl_append]
      obtain ⟨hlen, hys⟩ := ih (by omega) _ rfl
      generalize (List.range m).foldl _ (List.replicate (2 ^ k) one) = ys at hlen hys ⊢
      have hcond : k * (m * l + j + 1) ≤ T ↔ m * l + j < T / k := by
        rw [Nat.lt_iff_add_one_le, Nat.le_div_iff_mul_le hk0, Nat.mul_comm]
      rw [List.foldl_cons, List.foldl_nil]
      have hsplit (b : Nat) : bucketed g T k l B j (m + 1) b =
          bucketed g T k l B j m b * if m * l + j < T / k ∧
            BucketPower.blockDigit B T k (m * l + j) = b then g m else 1 := by
        unfold bucketed
        rw [Finset.prod_filter, Finset.prod_filter, Finset.prod_range_succ]
      by_cases hrun : k * (m * l + j + 1) ≤ T
      · rw [if_pos hrun]
        dsimp only
        rw [getBlock_eq hB hk]
        have hdig := BucketPower.blockDigit_lt hB T k (m * l + j)
        refine ⟨by rw [List.length_set, hlen], fun b hb => ?_⟩
        rw [hsplit]
        by_cases hb' : BucketPower.blockDigit B T k (m * l + j) = b
        · subst hb'
          rw [if_pos ⟨hcond.1 hrun, rfl⟩]
          have hget : (ys.set (BucketPower.blockDigit B T k (m * l + j))
              (A.comp D (ys.getD (BucketPower.blockDigit B T k (m * l + j)) one)
                (kept.getD m one))).getD (BucketPower.blockDigit B T k (m * l + j)) one =
              A.comp D (ys.getD (BucketPower.blockDigit B T k (m * l + j)) one)
                (kept.getD m one) := by
            simp [List.getD, hlen, hdig]
          rw [hget]
          exact laws.comp (hys _ hb) (hkept m (by omega))
        · rw [if_neg fun hcon => hb' hcon.2, mul_one]
          have hget : (ys.set (BucketPower.blockDigit B T k (m * l + j))
              (A.comp D (ys.getD (BucketPower.blockDigit B T k (m * l + j)) one)
                (kept.getD m one))).getD b one = ys.getD b one := by
            simp [List.getD, hb']
          rw [hget]
          exact hys b hb
      · rw [if_neg hrun]
        refine ⟨hlen, fun b hb => ?_⟩
        rw [hsplit, if_neg fun hcon => hrun (hcond.2 hcon.1), mul_one]
        exact hys b hb
  exact (hloop _ le_rfl _ rfl).2

omit laws hone in
/-- The buckets of one `j`, each raised to its number. -/
theorem prod_bucketed {g : Nat → G} {T k l B : Nat} (hB : 0 < B) (j m : Nat) :
    ∏ b ∈ Finset.range (2 ^ k), bucketed g T k l B j m b ^ b =
      ∏ i ∈ Finset.range m with i * l + j < T / k,
        g i ^ BucketPower.blockDigit B T k (i * l + j) := by
  rw [← BucketPower.prod_bucket_pow _ (fun i => BucketPower.blockDigit B T k (i * l + j)) g
    (n := 2 ^ k) (fun i _ => BucketPower.blockDigit_lt hB T k _)]
  refine Finset.prod_congr rfl fun b _ => ?_
  unfold bucketed
  rw [Finset.filter_filter]

/-- **`GenerateWesolowski` returns `x ^ (2 ^ T / B)`**, however the exponent is cut into blocks. -/
theorem generateWesolowski_rep {kept : List Form} {x : G} {T k l B : Nat} (hk0 : 0 < k)
    (hk : k ≤ 64) (hl : 0 < l) (hfit : T + k * l ≤ 2 ^ 64) (hB : 2 ^ k ≤ B)
    (hkept : ∀ i < (T + k * l - 1) / (k * l), R (kept.getD i one) (x ^ 2 ^ (k * l * i))) :
    R (generateWesolowski A D one kept T k l B) (x ^ (2 ^ T / B)) := by
  have hBpos : 0 < B := lt_of_lt_of_le (Nat.two_pow_pos k) hB
  have hkl : 0 < k * l := Nat.mul_pos hk0 hl
  -- One `j`: raise to `2 ^ k`, then multiply by the powers of the buckets.
  have hstep (f : Form) (w : G) (hf : R f w) (j : Nat) :
      R (aggregateLow A D one (fillBuckets A D one kept T k l B j) (k - k / 2) (k / 2)
          (aggregateHigh A D one (fillBuckets A D one kept T k l B j) (k - k / 2) (k / 2)
            (fastPowForm A D one f (2 ^ k))))
        (w ^ 2 ^ k * ∏ b ∈ Finset.range (2 ^ k), bucketed (fun i => x ^ 2 ^ (k * l * i)) T k l B j
          ((T + k * l - 1) / (k * l)) b ^ b) := by
    have hpow : 2 ^ (k / 2) * 2 ^ (k - k / 2) = 2 ^ k := by
      rw [← pow_add]
      congr 1
      omega
    rw [← hpow]
    refine aggregate_rep laws hone (fun b hb => ?_) ?_
    · rw [hpow] at hb
      exact fillBuckets_rep laws hone hBpos hk0 hk hfit hkept j b hb
    · rw [hpow]
      exact fastPowForm_rep laws hone hf _
  have hloop : ∀ n f w, R f w →
      R ((List.range n).reverse.foldl (fun x j =>
          aggregateLow A D one (fillBuckets A D one kept T k l B j) (k - k / 2) (k / 2)
            (aggregateHigh A D one (fillBuckets A D one kept T k l B j) (k - k / 2) (k / 2)
              (fastPowForm A D one x (2 ^ k)))) f)
        ((List.range n).reverse.foldl (fun w j => w ^ 2 ^ k *
          ∏ b ∈ Finset.range (2 ^ k), bucketed (fun i => x ^ 2 ^ (k * l * i)) T k l B j
            ((T + k * l - 1) / (k * l)) b ^ b) w) := by
    intro n
    induction n with
    | zero => exact fun f w hf => hf
    | succ n ih =>
      intro f w hf
      rw [List.range_succ, List.reverse_append, List.reverse_singleton, List.singleton_append,
        List.foldl_cons, List.foldl_cons]
      exact ih _ _ (hstep f w hf n)
  have hvalue : (List.range l).reverse.foldl (fun w j => w ^ 2 ^ k *
      ∏ b ∈ Finset.range (2 ^ k), bucketed (fun i => x ^ 2 ^ (k * l * i)) T k l B j
        ((T + k * l - 1) / (k * l)) b ^ b) 1 = x ^ (2 ^ T / B) := by
    rw [BucketPower.horner_pow, one_pow, one_mul]
    have hsmall : 2 ^ (T % k) < B :=
      lt_of_lt_of_le (Nat.pow_lt_pow_right (by decide) (Nat.mod_lt T hk0)) hB
    have hcover : T / k ≤ (T + k * l - 1) / (k * l) * l := by
      have hdiv := Nat.div_add_mod (T + k * l - 1) (k * l)
      have hmod := Nat.mod_lt (T + k * l - 1) hkl
      refine Nat.div_le_of_le_mul ?_
      rw [← mul_assoc, mul_right_comm]
      omega
    calc ∏ j ∈ Finset.range l, (∏ b ∈ Finset.range (2 ^ k),
          bucketed (fun i => x ^ 2 ^ (k * l * i)) T k l B j ((T + k * l - 1) / (k * l)) b ^ b) ^
            (2 ^ k) ^ j
        = ∏ j ∈ Finset.range l, ∏ i ∈ Finset.range ((T + k * l - 1) / (k * l)) with
            i * l + j < T / k,
            x ^ (BucketPower.blockDigit B T k (i * l + j) * 2 ^ (k * (i * l + j))) := by
          refine Finset.prod_congr rfl fun j _ => ?_
          rw [prod_bucketed hBpos, ← Finset.prod_pow]
          refine Finset.prod_congr rfl fun i _ => ?_
          rw [← pow_mul, ← pow_mul, ← pow_mul]
          congr 1
          have hexp : 2 ^ (k * (i * l + j)) = 2 ^ (k * l * i) * 2 ^ (k * j) := by
            rw [← pow_add]
            congr 1
            ring
          rw [hexp]
          ring
      _ = ∏ m ∈ Finset.range (T / k), x ^ (BucketPower.blockDigit B T k m * 2 ^ (k * m)) :=
          BucketPower.prod_interleave l _ _ hcover
            (fun m => x ^ (BucketPower.blockDigit B T k m * 2 ^ (k * m)))
      _ = x ^ (2 ^ T / B) := by
          rw [Finset.prod_pow_eq_pow_sum, BucketPower.sum_blockDigit hBpos hsmall]
  rw [← hvalue]
  exact laws.pulmark (hloop l one 1 hone)

end Represented

end Vdf
