import Mathlib.Data.Nat.Size
import SuprMeow.Poi.HeaderHash

/-!
# Primes from hashes

`HashPrime` counts a sprout up from its seed, stretches it by hashing to a number of the asked
length, and tries again until the number is prime.

* `expand_length`, `beNumber_stretch_lt` — a candidate has the asked length;
* `beNumber_iterate` — the sprouts behind it count up from the seed;
* `hashPrime_eq_some_iff` — the result is the first prime among the candidates, in their order;
* `hashPrime_of_passes` — there is one if one of those tried passes;
* `hashPrime_spec` — its size and its bits;
* `createDiscriminant_spec` — the discriminants proofs are made for.
-/

set_option autoImplicit false

open Stratum (Bytes)
open Poi (Digest beNumber)

namespace Vdf

/-- What the search depends on: `picosha2::hash256`, the primality test, and after how many
candidates it is given up. -/
structure PrimeSearch where
  sha : Bytes → Digest
  prime : Nat → Bool
  rounds : Nat

variable (h : PrimeSearch)

/-- `sprout[i]++` from the last byte on, as long as there is a carry. -/
def incrementRev : Bytes → Bytes
  | [] => []
  | x :: xs => if x + 1 ≠ 0 then (x + 1) :: xs else 0 :: incrementRev xs

def increment (sprout : Bytes) : Bytes := (incrementRev sprout.reverse).reverse

/-- The inner loop: `length` bits of hash expansion. -/
def expand (length : Nat) : Nat → Bytes × Bytes → Bytes × Bytes
  | 0, s => s
  | n + 1, s =>
    if s.2.length * 8 < length then
      let sprout := increment s.1
      let hash := (h.sha sprout).bytes
      expand length n (sprout, s.2 ++ hash.take (min hash.length (length / 8 - s.2.length)))
    else s

/-- Every pass adds a byte at least. -/
def stretch (length : Nat) (sprout : Bytes) : Bytes × Bytes :=
  expand h length (length / 8) (sprout, [])

/-- `p.set_bit(b, true)` for every bit of the mask, and for bit 0. -/
def masked (mask : List Nat) (p : Nat) : Nat := mask.foldl (fun p b => p ||| 2 ^ b) p ||| 1

/-- What is tested for being prime, and the sprout after it. -/
def candidate (length : Nat) (mask : List Nat) (sprout : Bytes) : Bytes × Nat :=
  let s := stretch h length sprout
  (s.1, masked mask (beNumber s.2))

def searchPrime (length : Nat) (mask : List Nat) : Nat → Bytes → Option Nat
  | 0, _ => none
  | n + 1, sprout =>
    let c := candidate h length mask sprout
    if h.prime c.2 then some c.2 else searchPrime length mask n c.1

/-- `HashPrime`; `none` when it has not ended yet. -/
def hashPrime (seed : Bytes) (length : Nat) (mask : List Nat) : Option Nat :=
  searchPrime h length mask h.rounds seed

/-- `CreateDiscriminant`. -/
def createDiscriminant (seed : Bytes) (length : Nat) : Option Int :=
  (hashPrime h seed length [0, 1, 2, length - 1]).map fun p : Nat => (p : Int) * -1

/-! ## The order of the candidates -/

/-- The sprout after `n` candidates. -/
def sproutAt (length : Nat) (mask : List Nat) (seed : Bytes) : Nat → Bytes
  | 0 => seed
  | n + 1 => (candidate h length mask (sproutAt length mask seed n)).1

def candidateAt (length : Nat) (mask : List Nat) (seed : Bytes) (n : Nat) : Nat :=
  (candidate h length mask (sproutAt h length mask seed n)).2

variable {h} {length : Nat} {mask : List Nat} {seed : Bytes}

theorem sproutAt_succ' (n : Nat) :
    sproutAt h length mask seed (n + 1) =
      sproutAt h length mask (candidate h length mask seed).1 n := by
  induction n with
  | zero => rfl
  | succ n ih => rw [sproutAt, ih, sproutAt]

/-- **The search returns the first prime candidate.** -/
theorem searchPrime_eq_some_iff {n p : Nat} :
    searchPrime h length mask n seed = some p ↔
      ∃ i < n, candidateAt h length mask seed i = p ∧ h.prime p = true ∧
        ∀ j < i, h.prime (candidateAt h length mask seed j) = false := by
  induction n generalizing seed with
  | zero => simp [searchPrime]
  | succ n ih =>
    have hshift (i : Nat) : candidateAt h length mask (candidate h length mask seed).1 i =
        candidateAt h length mask seed (i + 1) := by
      unfold candidateAt
      rw [sproutAt_succ']
    have hzero : candidateAt h length mask seed 0 = (candidate h length mask seed).2 := rfl
    rw [searchPrime, ← hzero]
    by_cases hp : h.prime (candidateAt h length mask seed 0) = true
    · rw [if_pos hp, Option.some_inj]
      constructor
      · rintro rfl
        exact ⟨0, n.succ_pos, rfl, hp, fun j hj => absurd hj (by omega)⟩
      · rintro ⟨i, -, rfl, -, hfirst⟩
        rcases Nat.eq_zero_or_pos i with rfl | hi
        · rfl
        · simp [hfirst 0 hi] at hp
    · rw [if_neg hp, ih]
      simp only [hshift]
      constructor
      · rintro ⟨i, hi, heq, hprime, hfirst⟩
        refine ⟨i + 1, by omega, heq, hprime, fun j hj => ?_⟩
        rcases j with _ | j
        · simpa using hp
        · exact hfirst j (by omega)
      · rintro ⟨i, hi, heq, hprime, hfirst⟩
        rcases i with _ | i
        · rw [heq] at hp
          exact absurd hprime hp
        · exact ⟨i, by omega, heq, hprime, fun j hj => hfirst (j + 1) (by omega)⟩

/-! ## The sprouts -/

theorem length_incrementRev (xs : Bytes) : (incrementRev xs).length = xs.length := by
  induction xs with
  | nil => rfl
  | cons x xs ih =>
    rw [incrementRev]
    split
    · rfl
    · simp [ih]

@[simp] theorem length_increment (s : Bytes) : (increment s).length = s.length := by
  simp [increment, length_incrementRev]

/-- The carry runs as in a number. -/
theorem ofDigits_incrementRev (xs : Bytes) :
    Nat.ofDigits 256 ((incrementRev xs).map UInt8.toNat) =
      (Nat.ofDigits 256 (xs.map UInt8.toNat) + 1) % 256 ^ xs.length := by
  induction xs with
  | nil => rfl
  | cons x xs ih =>
    have hx := x.toNat_lt
    have hlt : Nat.ofDigits 256 (xs.map UInt8.toNat) < 256 ^ (xs.map UInt8.toNat).length :=
      Nat.ofDigits_lt_base_pow_length (by decide) (Poi.byte_digits xs)
    rw [List.length_map] at hlt
    have hpow : 256 ^ (x :: xs).length = 256 * 256 ^ xs.length := by
      rw [List.length_cons, pow_succ, Nat.mul_comm]
    rw [incrementRev, hpow]
    split
    · rename_i hcarry
      have hne : x.toNat ≠ 255 := by
        intro h255
        apply hcarry
        rw [← UInt8.toNat_inj, UInt8.toNat_add, h255]
        rfl
      have hsum : (x + 1).toNat = x.toNat + 1 := by
        rw [UInt8.toNat_add]
        show (x.toNat + 1) % 256 = _
        omega
      simp only [List.map_cons, Nat.ofDigits_cons, hsum]
      rw [Nat.mod_eq_of_lt (by omega)]
      omega
    · rename_i hcarry
      have h255 : x.toNat = 255 := by
        have hz : (x + 1).toNat = 0 := by
          rw [not_not.1 hcarry]
          rfl
        rw [UInt8.toNat_add] at hz
        change (x.toNat + 1) % 256 = 0 at hz
        omega
      simp only [List.map_cons, Nat.ofDigits_cons, ih, h255]
      have hexp : 255 + 256 * Nat.ofDigits 256 (xs.map UInt8.toNat) + 1 =
          256 * (Nat.ofDigits 256 (xs.map UInt8.toNat) + 1) := by ring
      rw [hexp, Nat.mul_mod_mul_left]
      simp

theorem beNumber_increment (s : Bytes) :
    beNumber (increment s) = (beNumber s + 1) % 256 ^ s.length := by
  have h := ofDigits_incrementRev s.reverse
  unfold beNumber Positional.value increment
  rwa [List.map_reverse, List.reverse_reverse, ← List.map_reverse, List.length_reverse] at *

theorem length_iterate (s : Bytes) (n : Nat) : (increment^[n] s).length = s.length := by
  induction n with
  | zero => rfl
  | succ n ih => rw [Function.iterate_succ_apply', length_increment, ih]

/-- **Sprouts count up from the seed.** -/
theorem beNumber_iterate (s : Bytes) (n : Nat) :
    beNumber (increment^[n] s) = (beNumber s + n) % 256 ^ s.length := by
  induction n with
  | zero =>
    have hlt := Positional.value_lt (b := 256) (by decide) (Poi.byte_digits s)
    rw [List.length_map] at hlt
    exact (Nat.mod_eq_of_lt hlt).symm
  | succ n ih =>
    rw [Function.iterate_succ_apply', beNumber_increment, ih, length_iterate, Nat.mod_add_mod,
      Nat.add_assoc]

/-- Sprouts that one candidate uses. -/
def perCandidate (length : Nat) : Nat := (length / 8 + 31) / 32

/-- The hashes of `k` sprouts after `s`. -/
def hashes (h : PrimeSearch) (s : Bytes) (k : Nat) : Bytes :=
  (List.range k).flatMap fun j => (h.sha (increment^[j + 1] s)).bytes

theorem hashes_succ (s : Bytes) (k : Nat) :
    hashes h s (k + 1) = (h.sha (increment s)).bytes ++ hashes h (increment s) k := by
  unfold hashes
  rw [List.range_succ_eq_map, List.flatMap_cons, List.flatMap_map]
  rfl

theorem expand_eq (h8 : length % 8 = 0) :
    ∀ n sprout blob, blob.length ≤ length / 8 → length / 8 ≤ n + blob.length →
      expand h length n (sprout, blob) =
        (increment^[(length / 8 - blob.length + 31) / 32] sprout,
          blob ++ (hashes h sprout ((length / 8 - blob.length + 31) / 32)).take
            (length / 8 - blob.length)) := by
  intro n
  induction n with
  | zero =>
    intro sprout blob hle hge
    have hz : length / 8 - blob.length = 0 := by omega
    rw [expand, hz]
    simp [hashes]
  | succ n ih =>
    intro sprout blob hle hge
    rw [expand]
    split
    · rename_i hshort
      have hhash := (h.sha (increment sprout)).length_bytes
      dsimp only at hshort ⊢
      rw [hhash]
      set m := length / 8 - blob.length with hm
      have hlen : (blob ++ (h.sha (increment sprout)).bytes.take (min 32 m)).length =
          blob.length + min 32 m := by
        simp [hhash]
      have hk : (m + 31) / 32 = (m - min 32 m + 31) / 32 + 1 := by omega
      rw [ih _ _ (by omega) (by omega), hlen, ← Nat.sub_sub, ← hm, hk, Function.iterate_succ_apply,
        hashes_succ, List.take_append, hhash, List.append_assoc]
      have hsub : m - min 32 m = m - 32 := by omega
      rw [hsub]
      congr 3
      rcases Nat.le_total 32 m with hle32 | hle32
      · rw [Nat.min_eq_left hle32, List.take_of_length_le (by omega),
          List.take_of_length_le (by omega)]
      · rw [Nat.min_eq_right hle32]
    · rename_i hfull
      dsimp only at hfull
      have hz : length / 8 - blob.length = 0 := by omega
      rw [hz]
      simp [hashes]

/-- **A candidate is the mask over the hashes of the next sprouts.** -/
theorem candidate_eq (h8 : length % 8 = 0) (s : Bytes) :
    candidate h length mask s =
      (increment^[perCandidate length] s,
        masked mask (beNumber ((hashes h s (perCandidate length)).take (length / 8)))) := by
  unfold candidate stretch
  rw [expand_eq h8 _ _ _ (by simp) (by simp)]
  simp [perCandidate]

theorem sproutAt_eq (h8 : length % 8 = 0) (n : Nat) :
    sproutAt h length mask seed n = increment^[n * perCandidate length] seed := by
  induction n with
  | zero => simp [sproutAt]
  | succ n ih =>
    rw [sproutAt, ih, candidate_eq h8, ← Function.iterate_add_apply]
    rw [Nat.add_comm, ← Nat.succ_mul]

/-! ## The size of a candidate -/

theorem expand_length (h8 : length % 8 = 0) :
    ∀ n s, s.2.length ≤ length / 8 → length / 8 ≤ n + s.2.length →
      (expand h length n s).2.length = length / 8 := by
  intro n
  induction n with
  | zero =>
    intro s hle hge
    rw [expand]
    omega
  | succ n ih =>
    intro s hle hge
    rw [expand]
    split
    · rename_i hshort
      dsimp only
      have hhash := (h.sha (increment s.1)).length_bytes
      apply ih <;> simp only [List.length_append, List.length_take, hhash] <;> omega
    · omega

theorem length_stretch (h8 : length % 8 = 0) (sprout : Bytes) :
    (stretch h length sprout).2.length = length / 8 :=
  expand_length h8 _ _ (by simp) (by simp)

theorem beNumber_stretch_lt (h8 : length % 8 = 0) (sprout : Bytes) :
    beNumber (stretch h length sprout).2 < 2 ^ length := by
  have hlt := Positional.value_lt (b := 256) (by decide)
    (Poi.byte_digits (stretch h length sprout).2)
  rw [List.length_map, length_stretch h8] at hlt
  have hpow : 256 ^ (length / 8) = 2 ^ length := by
    rw [show (256 : Nat) = 2 ^ 8 from rfl, ← pow_mul]
    congr 1
    omega
  rw [hpow] at hlt
  exact hlt

theorem foldl_or_lt (hmask : ∀ b ∈ mask, b < length) {p : Nat} (hp : p < 2 ^ length) :
    mask.foldl (fun p b => p ||| 2 ^ b) p < 2 ^ length := by
  induction mask generalizing p with
  | nil => exact hp
  | cons b mask ih =>
    refine ih (fun x hx => hmask x (List.mem_cons_of_mem _ hx)) ?_
    exact Nat.or_lt_two_pow hp
      (Nat.pow_lt_pow_right (by decide) (hmask b List.mem_cons_self))

theorem testBit_foldl_or {p i : Nat} (hi : i ∈ mask ∨ p.testBit i = true) :
    (mask.foldl (fun p b => p ||| 2 ^ b) p).testBit i = true := by
  induction mask generalizing p with
  | nil => simpa using hi
  | cons b mask ih =>
    refine ih ?_
    rw [List.mem_cons] at hi
    rcases hi with (rfl | hi) | hi
    · exact .inr (by simp)
    · exact .inl hi
    · exact .inr (by simp [hi])

theorem testBit_masked {p i : Nat} (hi : i ∈ mask ∨ i = 0) : (masked mask p).testBit i = true := by
  unfold masked
  rw [Nat.testBit_or]
  rcases hi with hi | rfl
  · rw [testBit_foldl_or (.inl hi), Bool.true_or]
  · simp

/-- **What `HashPrime` returns**: it passed the test, it is odd, it has the length asked for and
every bit of the mask. -/
theorem hashPrime_spec (h8 : length % 8 = 0) (hpos : 0 < length) (hmask : ∀ b ∈ mask, b < length)
    {p : Nat} (hp : hashPrime h seed length mask = some p) :
    h.prime p = true ∧ p < 2 ^ length ∧ ∀ i, i ∈ mask ∨ i = 0 → p.testBit i = true := by
  obtain ⟨i, -, rfl, hprime, -⟩ := searchPrime_eq_some_iff.1 hp
  refine ⟨hprime, ?_, fun i hi => testBit_masked hi⟩
  have hlt := foldl_or_lt hmask (beNumber_stretch_lt (h := h) h8 (sproutAt h length mask seed i))
  exact Nat.or_lt_two_pow hlt (Nat.one_lt_two_pow (by omega))

/-- The number that candidate `i` tests, from the seed alone. -/
def candidateNumber (h : PrimeSearch) (length : Nat) (mask : List Nat) (seed : Bytes) (i : Nat) :
    Nat :=
  masked mask (beNumber ((hashes h (increment^[i * perCandidate length] seed)
    (perCandidate length)).take (length / 8)))

/-- **Which prime `HashPrime` returns**: the first one among the numbers that the hashes of a
counter make, `perCandidate length` of them for each number. -/
theorem hashPrime_eq_some_iff (h8 : length % 8 = 0) {p : Nat} :
    hashPrime h seed length mask = some p ↔
      ∃ i < h.rounds, candidateNumber h length mask seed i = p ∧ h.prime p = true ∧
        ∀ j < i, h.prime (candidateNumber h length mask seed j) = false := by
  have hcand (i : Nat) :
      candidateAt h length mask seed i = candidateNumber h length mask seed i := by
    unfold candidateAt
    rw [sproutAt_eq h8, candidate_eq h8]
    rfl
  unfold hashPrime
  rw [searchPrime_eq_some_iff]
  simp only [hcand]

/-- Number `i` is tried, and it is the first that passes the test. -/
structure FirstPrime (h : PrimeSearch) (length : Nat) (mask : List Nat) (seed : Bytes) (i : Nat) :
    Prop where
  tried : i < h.rounds
  prime : h.prime (candidateNumber h length mask seed i) = true
  first : ∀ j < i, h.prime (candidateNumber h length mask seed j) = false

theorem hashPrime_eq_some_iff_first (h8 : length % 8 = 0) {p : Nat} :
    hashPrime h seed length mask = some p ↔
      ∃ i, FirstPrime h length mask seed i ∧ candidateNumber h length mask seed i = p := by
  rw [hashPrime_eq_some_iff h8]
  constructor
  · rintro ⟨i, hi, rfl, hprime, hfirst⟩
    exact ⟨i, ⟨hi, hprime, hfirst⟩, rfl⟩
  · rintro ⟨i, hi, rfl⟩
    exact ⟨i, hi.tried, rfl, hi.prime, hi.first⟩

/-- The search ends if a number that is tried passes the test. -/
theorem hashPrime_of_passes (h8 : length % 8 = 0) {m : Nat} (hm : m < h.rounds)
    (hprime : h.prime (candidateNumber h length mask seed m) = true) :
    ∃ p, hashPrime h seed length mask = some p := by
  have hfound : ∃ i, h.prime (candidateNumber h length mask seed i) = true := ⟨m, hprime⟩
  have hle := Nat.find_min' hfound hprime
  refine ⟨_, (hashPrime_eq_some_iff_first h8).2 ⟨Nat.find hfound, ⟨by omega, ?_, ?_⟩, rfl⟩⟩
  · exact Nat.find_spec hfound
  · intro j hj
    exact Bool.eq_false_iff.2 (Nat.find_min hfound hj)

/-- The discriminant is minus the first prime. -/
theorem createDiscriminant_eq_neg_iff (h8 : length % 8 = 0) {d : Int} :
    createDiscriminant h seed length = some d ↔
      ∃ i, FirstPrime h length [0, 1, 2, length - 1] seed i ∧
        d = -(candidateNumber h length [0, 1, 2, length - 1] seed i : Int) := by
  unfold createDiscriminant
  rw [Option.map_eq_some_iff]
  constructor
  · rintro ⟨p, hp, rfl⟩
    obtain ⟨i, hi, rfl⟩ := (hashPrime_eq_some_iff_first h8).1 hp
    exact ⟨i, hi, by ring⟩
  · rintro ⟨i, hi, rfl⟩
    exact ⟨_, (hashPrime_eq_some_iff_first h8).2 ⟨i, hi, rfl⟩, by ring⟩

/-- **The discriminants proofs are made for**: negative, 1 modulo 8, and of the asked length. -/
theorem createDiscriminant_spec (h8 : length % 8 = 0) (hpos : 0 < length) {d : Int}
    (hd : createDiscriminant h seed length = some d) :
    d < 0 ∧ d % 8 = 1 ∧ d.natAbs.size = length ∧ h.prime d.natAbs = true := by
  unfold createDiscriminant at hd
  obtain ⟨p, hp, rfl⟩ := Option.map_eq_some_iff.1 hd
  have hmask : ∀ b ∈ [0, 1, 2, length - 1], b < length := by
    intro b hb
    simp only [List.mem_cons, List.not_mem_nil, or_false] at hb
    omega
  obtain ⟨hprime, hlt, hbits⟩ := hashPrime_spec h8 hpos hmask hp
  have habs : ((p : Int) * -1).natAbs = p := by simp
  have h0 := hbits 0 (by simp)
  have h1 := hbits 1 (by simp)
  have h2 := hbits 2 (by simp)
  have htop := hbits (length - 1) (by simp)
  simp only [Nat.testBit_eq_decide_div_mod_eq, decide_eq_true_eq] at h0 h1 h2
  have hlow : 2 ^ (length - 1) ≤ p := Nat.ge_two_pow_of_testBit htop
  have hsize : p.size = length := by
    have hle : p.size ≤ length := Nat.size_le.2 hlt
    have hge : length - 1 < p.size := Nat.lt_size.2 hlow
    omega
  rw [habs]
  exact ⟨by omega, by omega, hsize, hprime⟩

/-- **Which discriminant a seed gives**: minus the first prime among the numbers of the counter; and
it is negative, 1 modulo 8 and of exactly the asked length. -/
theorem createDiscriminant_eq_some_iff (h8 : length % 8 = 0) (hpos : 0 < length) {d : Int} :
    (createDiscriminant h seed length = some d ↔
      ∃ i < h.rounds, d = -(candidateNumber h length [0, 1, 2, length - 1] seed i : Int) ∧
        h.prime d.natAbs = true ∧
          ∀ j < i, h.prime (candidateNumber h length [0, 1, 2, length - 1] seed j) = false) ∧
    (createDiscriminant h seed length = some d →
      d < 0 ∧ d % 8 = 1 ∧ d.natAbs.size = length) := by
  constructor
  · constructor
    · intro hd
      obtain ⟨-, -, -, hprime⟩ := createDiscriminant_spec h8 hpos hd
      obtain ⟨i, hi, rfl⟩ := (createDiscriminant_eq_neg_iff h8).1 hd
      exact ⟨i, hi.tried, rfl, hprime, hi.first⟩
    · rintro ⟨i, hi, rfl, hprime, hfirst⟩
      rw [Int.natAbs_neg, Int.natAbs_natCast] at hprime
      exact (createDiscriminant_eq_neg_iff h8).2 ⟨i, ⟨hi, hprime, hfirst⟩, rfl⟩
  · intro hd
    obtain ⟨hneg, h1, hsize, -⟩ := createDiscriminant_spec h8 hpos hd
    exact ⟨hneg, h1, hsize⟩

/-- A hash that shifts the last byte, and trial division. -/
def byteSearch : PrimeSearch where
  sha s := ⟨s.getLastD 0 * 8 :: List.replicate 31 0, by simp⟩
  prime n := decide (2 ≤ n) && (List.range n).all fun m => decide (m < 2) || n % m != 0
  rounds := 10

/-- The counter carries from `[254, 255]` to `[255, 0]`; 135 and 143 fail, and 151 passes. -/
theorem createDiscriminant_byte :
    createDiscriminant byteSearch [254, 255] 8 = some (-151) ∧
      (-151 : Int) < 0 ∧ (-151 : Int) % 8 = 1 ∧ (-151 : Int).natAbs.size = 8 := by
  obtain ⟨hiff, hsize⟩ := @createDiscriminant_eq_some_iff byteSearch 8 [254, 255] (by decide)
    (by decide) (-151)
  have hd := hiff.2 ⟨2, by decide, by decide, by decide, by decide⟩
  exact ⟨hd, hsize hd⟩

end Vdf
