import Mathlib.Data.Nat.Bitwise
import SuprMeow.Poi.Canary
import SuprMeow.Poi.HeaderHash

/-!
# Canary prompts (`canary.cpp`)

A seeded prompt is 32 token ids, each from one hash of the seed, the window's number and the id's
position.  SHA-256 is a parameter; `POW_CANARY_SUPPORT` and `POW_CANARY_OFFSET` narrow the ids.

* `canaryParseSeed_eq_some_iff` — the seeds that are read, and what they spell;
* `hashed_eq` — the buffer, updated in the loop, holds seed, window and position;
* `canary_derivation` — the ids are in range and no two of them come from one hash input.
-/

set_option autoImplicit false

open Stratum (Bytes isHexDigit)

namespace Poi

/-! ## Derivation -/

/-- The two overrides as `std::atoi` reads them; 0 when unset. -/
structure CanaryEnv where
  support : Int := 0
  offset : Int := 0

/-- The ids a prompt is drawn from: `lo … cap - 1`. -/
structure IdRange where
  cap : Int
  lo : Int

def IdRange.mod (r : IdRange) : Int := r.cap - r.lo

def CanaryEnv.idRange (env : CanaryEnv) (nVocab : Int) : IdRange :=
  let cap := if 0 < env.support ∧ env.support < nVocab then env.support else nVocab
  { cap, lo := if 0 < env.offset ∧ env.offset < cap then env.offset else 0 }

/-- The four bytes of a `uint32_t`, the least significant first. -/
def le32 (x : Nat) : Bytes :=
  [UInt8.ofNat x, UInt8.ofNat (x / 2 ^ 8), UInt8.ofNat (x / 2 ^ 16), UInt8.ofNat (x / 2 ^ 24)]

/-- Four assignments to `msg`. -/
def put32 (msg : Bytes) (at' x : Nat) : Bytes :=
  (((msg.set at' (UInt8.ofNat x)).set (at' + 1) (UInt8.ofNat (x / 2 ^ 8))).set (at' + 2)
    (UInt8.ofNat (x / 2 ^ 16))).set (at' + 3) (UInt8.ofNat (x / 2 ^ 24))

/-- `msg` as it is hashed for each position. -/
def hashed (msg : Bytes) : List Nat → List Bytes
  | [] => []
  | i :: is =>
    let msg := put32 msg 36 i
    msg :: hashed msg is

/-- A seed of the 32 bytes `canary_derive_prompt` copies. -/
structure Seed where
  bytes : Bytes
  length_bytes : bytes.length = 32

/-- `msg` before the loop; its last eight bytes are written before they are read. -/
def Seed.msg (seed : Seed) (w : Nat) : Bytes := put32 (seed.bytes ++ List.replicate 8 0) 32 w

/-- `v`, from the last of the first eight bytes down. -/
def digestWord (d : Digest) : Nat :=
  [7, 6, 5, 4, 3, 2, 1, 0].foldl (fun v b => (v <<< 8 ||| (d.bytes.getD b 0).toNat) % 2 ^ 64) 0

/-- `lo + static_cast<int32_t>(v % static_cast<uint64_t>(mod))`. -/
def IdRange.token (r : IdRange) (v : Nat) : Int :=
  r.lo + Int.bmod (v % (r.mod % 2 ^ 64).toNat : Nat) (2 ^ 32)

section Derive

variable (sha : Bytes → Digest)

def canaryDerivePrompt (env : CanaryEnv) (seed : Seed) (w : Nat) (nVocab : Int) : List Int :=
  (hashed (seed.msg w) (List.range 32)).map fun m =>
    (env.idRange nVocab).token (digestWord (sha m))

/-- `canary_prompt_key`: the hash of the ids, in hex. -/
def canaryPromptKey (toks : List Int) : Bytes :=
  toHex (sha (toks.flatMap fun t => le32 (t % 2 ^ 32).toNat)).bytes

end Derive

/-! ## Seeds -/

theorem nib_eq (c : UInt8) : nib c = if isHexDigit c then (digitValue c : Int) else -1 := by
  have hiff := isHexDigit_iff c
  have hle : ∀ n : UInt8, c ≤ n ↔ c.toNat ≤ n.toNat := fun n => UInt8.le_iff_toNat_le
  have hge : ∀ n : UInt8, n ≤ c ↔ n.toNat ≤ c.toNat := fun n => UInt8.le_iff_toNat_le
  have hvalue : digitValue c =
      if c.toNat ≤ 57 then c.toNat - 48 else if c.toNat ≤ 70 then c.toNat - 55
      else c.toNat - 87 := by
    unfold digitValue
    simp only [hle]
    rfl
  have hnib : nib c =
      if 48 ≤ c.toNat ∧ c.toNat ≤ 57 then (c.toNat : Int) - 48
      else if 97 ≤ c.toNat ∧ c.toNat ≤ 102 then (c.toNat : Int) - 97 + 10
      else if 65 ≤ c.toNat ∧ c.toNat ≤ 70 then (c.toNat : Int) - 65 + 10
      else -1 := by
    unfold nib
    simp only [hle, hge]
    rfl
  rw [hnib, hvalue]
  by_cases hhex : isHexDigit c = true
  · rw [if_pos hhex]
    have := hiff.1 hhex
    split_ifs <;> omega
  · rw [if_neg hhex]
    have := mt hiff.2 hhex
    split_ifs <;> omega

theorem nib_neg_iff (c : UInt8) : nib c < 0 ↔ ¬ isHexDigit c := by
  rw [nib_eq]
  split
  · rename_i h
    exact iff_of_false (by omega) (by simpa using h)
  · rename_i h
    exact iff_of_true (by omega) h

/-- **On an even number of characters the loop reads hexadecimal digits only, and what they
spell.** -/
theorem parsePairs_eq_some_iff : ∀ {s : Bytes}, s.length % 2 = 0 → ∀ (b : Bytes),
    parsePairs s = some b ↔ AllHex s ∧ b = hexBytes s
  | [], _, b => by
    refine ⟨?_, ?_⟩
    · rintro ⟨⟩
      exact ⟨List.forall_mem_nil _, rfl⟩
    · rintro ⟨-, rfl⟩
      rfl
  | [_], h, _ => by simp at h
  | hi :: lo :: s, h, b => by
    have ih := parsePairs_eq_some_iff (s := s) (Nat.add_mod_right s.length 2 ▸ h)
    have hall : AllHex (hi :: lo :: s) ↔ isHexDigit hi ∧ isHexDigit lo ∧ AllHex s := by
      simp [AllHex]
    rw [parsePairs, hall]
    split
    · rename_i hneg
      rw [nib_neg_iff, nib_neg_iff] at hneg
      refine iff_of_false (by simp) ?_
      tauto
    · rename_i hpos
      rw [nib_neg_iff, nib_neg_iff] at hpos
      obtain ⟨hhi, hlo⟩ : isHexDigit hi ∧ isHexDigit lo := by tauto
      have hbyte : (nib hi).toNat * 16 + (nib lo).toNat = 16 * digitValue hi + digitValue lo := by
        rw [nib_eq, nib_eq, if_pos hhi, if_pos hlo, Int.toNat_natCast, Int.toNat_natCast]
        ring
      rw [Option.map_eq_some_iff, hbyte]
      constructor
      · rintro ⟨rest, hrest, rfl⟩
        obtain ⟨hs, rfl⟩ := (ih rest).1 hrest
        exact ⟨⟨hhi, hlo, hs⟩, rfl⟩
      · rintro ⟨⟨-, -, hs⟩, rfl⟩
        exact ⟨hexBytes s, (ih _).2 ⟨hs, rfl⟩, rfl⟩

/-- **A seed is 64 hexadecimal digits of either case.** -/
theorem canaryParseSeed_eq_some_iff (hex b : Bytes) :
    canaryParseSeed hex = some b ↔ hex.length = 64 ∧ AllHex hex ∧ b = hexBytes hex := by
  unfold canaryParseSeed
  split
  · rename_i h
    exact iff_of_false (by simp) fun hb => h hb.1
  · rename_i h
    have hlen : hex.length = 64 := by simpa using h
    rw [parsePairs_eq_some_iff (by omega)]
    simp [hlen]

/-! ## Hash inputs -/

@[simp] theorem le32_length (x : Nat) : (le32 x).length = 4 := rfl

/-- Two `uint32_t` with the same bytes are equal. -/
theorem le32_inj {x y : Nat} (hx : x < 2 ^ 32) (hy : y < 2 ^ 32) (h : le32 x = le32 y) : x = y := by
  unfold le32 at h
  simp only [List.cons.injEq, ← UInt8.toNat_inj, UInt8.toNat_ofNat', and_true] at h
  omega

/-- What the hash is taken of. -/
def Seed.hashInput (seed : Seed) (w i : Nat) : Bytes := seed.bytes ++ le32 w ++ le32 i

theorem Seed.length_hashInput (seed : Seed) (w i : Nat) : (seed.hashInput w i).length = 40 := by
  simp [hashInput, seed.length_bytes]

/-- **Different seeds, windows or positions give different inputs.** -/
theorem Seed.hashInput_inj {seed seed' : Seed} {w w' i i' : Nat} (hw : w < 2 ^ 32)
    (hw' : w' < 2 ^ 32) (hi : i < 2 ^ 32) (hi' : i' < 2 ^ 32)
    (h : seed.hashInput w i = seed'.hashInput w' i') : seed = seed' ∧ w = w' ∧ i = i' := by
  obtain ⟨hleft, hlast⟩ := List.append_inj' h rfl
  obtain ⟨hseed, hmid⟩ := List.append_inj' hleft rfl
  refine ⟨?_, le32_inj hw hw' hmid, le32_inj hi hi' hlast⟩
  cases seed
  cases seed'
  cases hseed
  rfl

/-- Setting four bytes in place. -/
theorem put32_append {a b : Bytes} (c : Bytes) {at' : Nat} (ha : a.length = at') (hb : b.length = 4)
    (x : Nat) : put32 (a ++ b ++ c) at' x = a ++ le32 x ++ c := by
  obtain ⟨b₀, b₁, b₂, b₃, rfl⟩ : ∃ b₀ b₁ b₂ b₃, b = [b₀, b₁, b₂, b₃] := by
    match b, hb with
    | [b₀, b₁, b₂, b₃], _ => exact ⟨b₀, b₁, b₂, b₃, rfl⟩
  subst ha
  unfold put32 le32
  rw [List.append_assoc, List.append_assoc]
  simp [List.set_append_right]

theorem Seed.msg_eq (seed : Seed) (w : Nat) :
    seed.msg w = seed.bytes ++ le32 w ++ List.replicate 4 0 := by
  unfold msg
  have : List.replicate 8 (0 : UInt8) = List.replicate 4 0 ++ List.replicate 4 0 := rfl
  rw [this, ← List.append_assoc]
  exact put32_append _ seed.length_bytes rfl w

/-- The loop overwrites the position, whatever it was before. -/
theorem hashed_append {a b : Bytes} (ha : a.length = 36) (hb : b.length = 4) (is : List Nat) :
    hashed (a ++ b) is = is.map fun i => a ++ le32 i := by
  induction is generalizing b with
  | nil => rfl
  | cons i is ih =>
    have hput : put32 (a ++ b) 36 i = a ++ le32 i := by
      have := put32_append [] ha hb i
      rwa [List.append_nil, List.append_nil] at this
    rw [hashed, hput, List.map_cons, ih rfl]

/-- **`msg` is the seed, the window and the position at every hash.** -/
theorem hashed_eq (seed : Seed) (w : Nat) :
    hashed (seed.msg w) (List.range 32) = (List.range 32).map (seed.hashInput w) := by
  rw [seed.msg_eq]
  exact hashed_append (by simp [seed.length_bytes]) rfl _

/-! ## Tokens -/

/-- One step of `v = (v << 8) | d[b]`. -/
theorem shift_or_byte {v n : Nat} (b : UInt8) (hv : v < 2 ^ n) (hn : n ≤ 56) :
    (v <<< 8 ||| b.toNat) % 2 ^ 64 = v * 256 + b.toNat ∧ v * 256 + b.toNat < 2 ^ (n + 8) := by
  have hb : b.toNat < 2 ^ 8 := b.toNat_lt
  have hlt : v * 256 + b.toNat < 2 ^ (n + 8) := by
    rw [Nat.pow_add]
    omega
  have hle : 2 ^ (n + 8) ≤ 2 ^ 64 := Nat.pow_le_pow_right (by omega) (by omega)
  refine ⟨?_, hlt⟩
  rw [← Nat.shiftLeft_add_eq_or_of_lt hb, Nat.shiftLeft_eq]
  exact Nat.mod_eq_of_lt (lt_of_lt_of_le hlt hle)

/-- The loop, byte by byte. -/
theorem foldl_shift_or {n : Nat} (bs : Bytes) (v : Nat) (hv : v < 2 ^ n)
    (hn : n + 8 * bs.length ≤ 64) :
    bs.foldl (fun v b => (v <<< 8 ||| b.toNat) % 2 ^ 64) v =
      v * 256 ^ bs.length + beNumber bs := by
  induction bs generalizing v n with
  | nil => simp [beNumber]
  | cons b bs ih =>
    rw [List.length_cons] at hn
    obtain ⟨hstep, hlt⟩ := shift_or_byte b hv (by omega)
    rw [List.foldl_cons, hstep, ih _ hlt (by omega)]
    unfold beNumber
    rw [List.map_cons, Positional.value_cons, List.length_map, List.length_cons, Nat.pow_succ]
    ring

/-- **`v` is the number of the first eight bytes, the least significant first.** -/
theorem digestWord_eq (d : Digest) : digestWord d = leNumber (d.bytes.take 8) := by
  obtain ⟨bytes, hlen⟩ := d
  have htake : (bytes.take 8).reverse = [7, 6, 5, 4, 3, 2, 1, 0].map fun b => bytes.getD b 0 := by
    match bytes, hlen with
    | b₀ :: b₁ :: b₂ :: b₃ :: b₄ :: b₅ :: b₆ :: b₇ :: rest, _ => rfl
  have hfold := foldl_shift_or (n := 0) ([7, 6, 5, 4, 3, 2, 1, 0].map fun b => bytes.getD b 0) 0
    (by omega) (by simp)
  rw [List.foldl_map, Nat.zero_mul, Nat.zero_add] at hfold
  unfold digestWord leNumber
  rw [htake]
  exact hfold

/-- The ids there are to draw from. -/
theorem CanaryEnv.idRange_bounds (env : CanaryEnv) {nVocab : Int} (hn : 1 ≤ nVocab) :
    0 ≤ (env.idRange nVocab).lo ∧ 1 ≤ (env.idRange nVocab).mod ∧
      (env.idRange nVocab).cap ≤ nVocab := by
  unfold idRange IdRange.mod
  dsimp only
  split_ifs <;> omega

/-- Below `2 ^ 31` the conversions change nothing. -/
theorem IdRange.token_eq {r : IdRange} (hpos : 1 ≤ r.mod) (hlt : r.mod < 2 ^ 31) (v : Nat) :
    r.token v = r.lo + (v : Int) % r.mod := by
  have hmod : r.mod % 2 ^ 64 = r.mod := Int.emod_eq_of_lt (by omega) (by omega)
  have hv : ((v % r.mod.toNat : Nat) : Int) = (v : Int) % r.mod := by
    rw [Int.natCast_mod, Int.toNat_of_nonneg (by omega)]
  have hv0 := Int.emod_nonneg v (show r.mod ≠ 0 by omega)
  have hv1 := Int.emod_lt_of_pos v (show 0 < r.mod by omega)
  unfold token
  rw [hmod, hv, Int.bmod_eq_of_le (by omega) (by omega)]

/-! ## Results -/

/-- **For every seed, window, vocabulary and overrides, the prompt is 32 ids of the vocabulary, each
the hash of an input of its own.** -/
theorem canary_derivation (sha : Bytes → Digest) (env : CanaryEnv) (nVocab : Int)
    (hn : 1 ≤ nVocab) (hmax : nVocab < 2 ^ 31) :
    1 ≤ (env.idRange nVocab).cap - (env.idRange nVocab).lo ∧
    (∀ (seed : Seed) (w : Nat), w < 2 ^ 32 →
      (canaryDerivePrompt sha env seed w nVocab).length = 32 ∧
      (∀ t ∈ canaryDerivePrompt sha env seed w nVocab, 0 ≤ t ∧ t < nVocab) ∧
      hashed (seed.msg w) (List.range 32) = (List.range 32).map (seed.hashInput w) ∧
      ∀ i < 32, (canaryDerivePrompt sha env seed w nVocab)[i]? =
        some ((env.idRange nVocab).lo + (leNumber ((sha (seed.hashInput w i)).bytes.take 8) : Int) %
          ((env.idRange nVocab).cap - (env.idRange nVocab).lo))) ∧
    (∀ (seed seed' : Seed) (w w' i i' : Nat), w < 2 ^ 32 → w' < 2 ^ 32 → i < 32 → i' < 32 →
      (seed.hashInput w i).length = 40 ∧
      (seed.hashInput w i = seed'.hashInput w' i' → seed = seed' ∧ w = w' ∧ i = i')) ∧
    ∀ hex b : Bytes, canaryParseSeed hex = some b ↔
      hex.length = 64 ∧ (∀ c ∈ hex, isHexDigit c) ∧ b = hexBytes hex := by
  obtain ⟨hlo, hmod, hcap⟩ := env.idRange_bounds hn
  have htoken : ∀ v : Nat, (env.idRange nVocab).token v =
      (env.idRange nVocab).lo + (v : Int) % (env.idRange nVocab).mod := by
    intro v
    exact IdRange.token_eq hmod (by unfold IdRange.mod at hmod ⊢; omega) v
  have hprompt : ∀ (seed : Seed) (w : Nat), canaryDerivePrompt sha env seed w nVocab =
      (List.range 32).map fun i => (env.idRange nVocab).lo +
        (leNumber ((sha (seed.hashInput w i)).bytes.take 8) : Int) % (env.idRange nVocab).mod := by
    intro seed w
    unfold canaryDerivePrompt
    rw [hashed_eq, List.map_map]
    refine List.map_congr_left fun i _ => ?_
    rw [Function.comp_apply, htoken, digestWord_eq]
  refine ⟨hmod, ?_, ?_, canaryParseSeed_eq_some_iff⟩
  · intro seed w _
    rw [hprompt]
    refine ⟨by simp, ?_, hashed_eq seed w, ?_⟩
    · intro t ht
      obtain ⟨i, -, rfl⟩ := List.mem_map.1 ht
      have h0 := Int.emod_nonneg (leNumber ((sha (seed.hashInput w i)).bytes.take 8) : Int)
        (show (env.idRange nVocab).mod ≠ 0 by omega)
      have h1 := Int.emod_lt_of_pos (leNumber ((sha (seed.hashInput w i)).bytes.take 8) : Int)
        (show 0 < (env.idRange nVocab).mod by omega)
      have hsub : (env.idRange nVocab).mod =
        (env.idRange nVocab).cap - (env.idRange nVocab).lo := rfl
      omega
    · intro i hi
      rw [List.getElem?_map, List.getElem?_range hi]
      rfl
  · intro seed seed' w w' i i' hw hw' hi hi'
    exact ⟨seed.length_hashInput w i, Seed.hashInput_inj hw hw' (by omega) (by omega)⟩

/-- Ids 256 to 8191 of a vocabulary of 151936. -/
def narrowed : CanaryEnv := { support := 8192, offset := 256 }

def zeroSeed : Seed := ⟨List.replicate 32 0, rfl⟩

/-- The last bytes first. -/
def echo (m : Bytes) : Digest := ⟨(m.reverse ++ List.replicate 32 0).take 32, by simp⟩

theorem canary_derivation_narrowed :
    (canaryDerivePrompt echo narrowed zeroSeed 0 151936).length = 32 ∧
      (canaryDerivePrompt echo narrowed zeroSeed 0 151936)[3]? =
        some (256 + 3 * 2 ^ 24 % 7936) := by
  have h := (canary_derivation echo narrowed 151936 (by decide) (by decide)).2.1 zeroSeed 0
    (by decide)
  refine ⟨h.1, ?_⟩
  rw [h.2.2.2 3 (by decide)]
  decide +kernel

end Poi
