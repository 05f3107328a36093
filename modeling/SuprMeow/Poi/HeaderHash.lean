import SuprMeow.Library.Positional
import SuprMeow.Poi.Admission

/-!
# The hash that is claimed

Consensus compares the double hash of the header with a target: the sampler reads the digest from
its last byte down, the miner reverses it and writes it as text.  SHA-256 is a parameter.

* `meetsTarget_iff` — the loop of the sampler compares numbers;
* `hexNumber_toHex`, `hexNumber_digits` — numbers written in hex;
* `achieved_le_iff` — the claimed text compares with a target the way the sampler compares the
  digest.
-/

set_option autoImplicit false

open Stratum (Bytes isHexDigit)

namespace Poi

/-- A digest of SHA-256. -/
structure Digest where
  bytes : Bytes
  length_bytes : bytes.length = 32
  deriving DecidableEq

/-! ## The sampler -/

/-- One byte of the comparison: whether it is decided, and how. -/
def compareByte (s : Bool × Bool) (d t : UInt8) : Bool × Bool :=
  if s.1 then s
  else if d < t then (true, true)
  else if t < d then (true, false)
  else s

/-- One digest of `check_hash_against_target`. -/
def meetsTarget (digest target : Bytes) : Bool :=
  let tLe := target.reverse
  -- Compare from most significant byte
  let s := (List.range 32).reverse.foldl
    (fun s i => compareByte s (digest.getD i 0) (tLe.getD i 0)) (false, false)
  if s.1 then s.2 else true

def checkHashAgainstTarget (digests : List Bytes) (target : Bytes) : List Bool :=
  digests.map fun digest => meetsTarget digest target

section Check

variable (sha : Bytes → Digest)

/-- The double hash of the 80-byte header: the nonce is the first four bytes of the digest. -/
def headerHash (headerPrefix digest : Bytes) : Digest :=
  sha (sha (headerPrefix ++ digest.take 4)).bytes

/-- The digests whose header hash meets a target. -/
def PowHasher.checkAgainst (h : PowHasher) (target : Bytes) (digests : List Bytes) : List Bool :=
  digests.map fun digest =>
    (checkHashAgainstTarget [(headerHash sha h.headerPrefix digest).bytes] target).headD false

/-- `check_solution`. -/
def PowHasher.checkSolution (h : PowHasher) (digests : List Bytes) : List Bool :=
  h.checkAgainst sha h.target digests

/-- `check_share_solution`: without a share target nothing is a share. -/
def PowHasher.checkShareSolution (h : PowHasher) (digests : List Bytes) : List Bool :=
  if h.shareTarget = [] then List.replicate digests.length false
  else h.checkAgainst sha h.shareTarget digests

/-! ## The miner -/

/-- `achieved_hex` of a message with these header prefix and hash; empty when one of them is missing
or of another size. -/
def achievedHex (headerPrefix hash : Option Bytes) : Bytes :=
  match headerPrefix, hash with
  | some headerPrefix, some hash =>
    if hash.length = 32 ∧ headerPrefix.length = 76 then
      -- DISPLAY order (reversed)
      toHex (headerHash sha headerPrefix hash).bytes.reverse
    else []
  | _, _ => []

end Check

/-! ## Numbers -/

/-- The number of bytes, the most significant first. -/
def beNumber (b : Bytes) : Nat := Positional.value 256 (b.map UInt8.toNat)

/-- The number of bytes, the least significant first. -/
def leNumber (b : Bytes) : Nat := beNumber b.reverse

/-- The number a string of hexadecimal digits writes. -/
def hexNumber (s : Bytes) : Nat := Positional.value 16 (s.map digitValue)

theorem byte_digits (b : Bytes) : ∀ d ∈ b.map UInt8.toNat, d < 256 := by
  intro d hd
  obtain ⟨x, -, rfl⟩ := List.mem_map.1 hd
  exact x.toNat_lt

/-! ### The comparison -/

/-- Once decided the comparison stays so. -/
theorem foldl_compare_decided (r : Bool) (l : List (UInt8 × UInt8)) :
    l.foldl (fun s p => compareByte s p.1 p.2) (true, r) = (true, r) := by
  induction l with
  | nil => rfl
  | cons p l ih => exact ih

/-- **The first byte that differs decides, and it decides about the numbers.** -/
theorem compare_iff : ∀ {xs ys : Bytes}, xs.length = ys.length →
    ((let s := (xs.zip ys).foldl (fun s p => compareByte s p.1 p.2) (false, false)
      if s.1 then s.2 else true) = true ↔ beNumber xs ≤ beNumber ys)
  | [], [], _ => iff_of_true rfl (Nat.le_refl 0)
  | x :: xs, y :: ys, hlen => by
    have hlen' : xs.length = ys.length := Nat.succ.inj hlen
    have ih := compare_iff hlen'
    have hvalue : beNumber (x :: xs) ≤ beNumber (y :: ys) ↔
        x.toNat < y.toNat ∨ x.toNat = y.toNat ∧ beNumber xs ≤ beNumber ys :=
      Positional.value_cons_le_iff (by decide) (by simpa using hlen') (byte_digits xs)
        (byte_digits ys)
    rw [hvalue]
    dsimp only at ih ⊢
    rw [List.zip_cons_cons, List.foldl_cons]
    by_cases hlt : x < y
    · have hfirst : compareByte (false, false) x y = (true, true) := if_pos hlt
      rw [hfirst, foldl_compare_decided]
      exact iff_of_true rfl (.inl (UInt8.lt_iff_toNat_lt.1 hlt))
    · by_cases hgt : y < x
      · have hfirst : compareByte (false, false) x y = (true, false) :=
          (if_neg hlt).trans (if_pos hgt)
        have hnat := UInt8.lt_iff_toNat_lt.1 hgt
        rw [hfirst, foldl_compare_decided]
        exact iff_of_false nofun (by omega)
      · have hfirst : compareByte (false, false) x y = (false, false) :=
          (if_neg hlt).trans (if_neg hgt)
        have hnat : x.toNat = y.toNat := by
          have h1 := mt UInt8.lt_iff_toNat_lt.2 hlt
          have h2 := mt UInt8.lt_iff_toNat_lt.2 hgt
          omega
        rw [hfirst, ih]
        constructor
        · intro h
          exact .inr ⟨hnat, h⟩
        · rintro (h | ⟨-, h⟩)
          · omega
          · exact h

/-- The indices 31 to 0 are the bytes from the last to the first. -/
theorem zip_reverse {n : Nat} {xs ys : Bytes} (hx : xs.length = n) (hy : ys.length = n) :
    (List.range n).reverse.map (fun i => (xs.getD i 0, ys.getD i 0)) =
      xs.reverse.zip ys.reverse := by
  have hforward : (List.range n).map (fun i => (xs.getD i 0, ys.getD i 0)) = xs.zip ys := by
    apply List.ext_getElem
    · simp [hx, hy]
    · intro i h1 h2
      have hi : i < n := by simpa using h1
      simp [hi, hx, hy]
  rw [List.map_reverse, hforward, List.zip_eq_zipWith, List.zip_eq_zipWith,
    List.reverse_zipWith (hx.trans hy.symm)]

/-- **`check_hash_against_target` compares the digest, least significant byte first, with the
target, most significant byte first.** -/
theorem meetsTarget_iff {digest target : Bytes} (hd : digest.length = 32)
    (ht : target.length = 32) :
    meetsTarget digest target = true ↔ leNumber digest ≤ beNumber target := by
  have hrev : target.reverse.length = 32 := by rw [List.length_reverse, ht]
  have hloop := @compare_iff digest.reverse target.reverse.reverse (by simp [hd, ht])
  rw [← zip_reverse hd hrev, List.foldl_map, List.reverse_reverse] at hloop
  exact hloop

/-! ### Hex -/

theorem hexDigit_value {n : Nat} (h : n < 16) : digitValue (Stratum.hexDigit n) = n := by
  interval_cases n <;> rfl

/-- A byte is its two digits. -/
theorem hexNumber_toHex (v : Bytes) : hexNumber (toHex v) = beNumber v := by
  have hpairs : ∀ v : Bytes, Pairs.map (fun hi lo => hi * 16 + lo) ((toHex v).map digitValue) =
      v.map UInt8.toNat := by
    intro v
    induction v with
    | nil => rfl
    | cons b v ih =>
      have hb := b.toNat_lt
      have hhi := hexDigit_value (n := b.toNat / 16) (by omega)
      have hlo := hexDigit_value (n := b.toNat % 16) (by omega)
      have hcons : (toHex (b :: v)).map digitValue =
          b.toNat / 16 :: b.toNat % 16 :: (toHex v).map digitValue := by
        unfold toHex
        rw [List.flatMap_cons, List.map_append]
        simp [hhi, hlo]
      have hsplit : b.toNat / 16 * 16 + b.toNat % 16 = b.toNat := Nat.div_add_mod' b.toNat 16
      rw [hcons, Pairs.map, ih, List.map_cons, hsplit]
  have hlen : ((toHex v).map digitValue).length % 2 = 0 := by
    rw [List.length_map]
    unfold toHex
    induction v with
    | nil => rfl
    | cons b v ih =>
      rw [List.flatMap_cons, List.length_append, List.length_cons, List.length_singleton]
      omega
  unfold hexNumber beNumber
  rw [Positional.value_pairs hlen, hpairs]
  rfl

/-- A byte of two digits is a digit of base 256. -/
theorem map_hexBytes : ∀ {s : Bytes}, AllHex s → (hexBytes s).map UInt8.toNat =
    Pairs.map (fun hi lo => hi * 16 + lo) (s.map digitValue)
  | [], _ => rfl
  | [_], _ => rfl
  | a :: b :: s, h => by
    have ha := digitValue_lt (h a (by simp))
    have hb := digitValue_lt (h b (by simp))
    have htail := map_hexBytes (s := s) fun c hc => h c (by simp [hc])
    have hbyte : (UInt8.ofNat (16 * digitValue a + digitValue b)).toNat =
        digitValue a * 16 + digitValue b := by
      rw [UInt8.toNat_ofNat', Nat.mod_eq_of_lt (by omega)]
      omega
    unfold hexBytes at htail ⊢
    rw [Pairs.map, List.map_cons, List.map_cons, List.map_cons, Pairs.map, hbyte, htail]

/-- **The bytes read from hexadecimal digits have the number the digits write.** -/
theorem hexNumber_digits {s : Bytes} (h : AllHex s) (hlen : s.length % 2 = 0) :
    beNumber (hexBytes s) = hexNumber s := by
  have heven : (s.map digitValue).length % 2 = 0 := by rwa [List.length_map]
  unfold hexNumber beNumber
  rw [map_hexBytes h, Positional.value_pairs heven]
  rfl

/-! ## What the hasher holds -/

/-- The bytes of a target that are compared. -/
def readTarget (s : Bytes) : Option Bytes := PowUtils.hexToBytes (padTarget s)

/-- The hasher has the targets of the map. -/
structure PowHasher.HoldsTargets (h : PowHasher) (p : PowParams) : Prop where
  target : readTarget p.target = some h.target
  shareTarget : (if p.shareTarget = [] then some [] else readTarget p.shareTarget) =
    some h.shareTarget

theorem length_padTarget (s : Bytes) : (padTarget s).length = 64 := by
  unfold padTarget
  split
  · rw [List.length_append, List.length_replicate]
    omega
  · split
    · rw [List.length_drop]
      omega
    · omega

theorem length_readTarget {s target : Bytes} (h : readTarget s = some target) :
    target.length = 32 := by
  have hlen := length_padTarget s
  have hread : 2 * target.length = (padTarget s).length :=
    Pairs.length_traverse (by rw [hlen]) h
  omega

/-- A target of 64 hexadecimal digits is read as its number. -/
theorem readTarget_digits {s : Bytes} (h : AllHex s) (hlen : s.length = 64) :
    readTarget s = some (hexBytes s) := by
  have hpad : padTarget s = s := by
    unfold padTarget
    rw [if_neg (by omega), if_neg (by omega)]
  unfold readTarget
  rw [hpad]
  exact PowUtils.hexToBytes_of_digits h (by rw [hlen])

theorem PowHasher.HoldsTargets.share_empty {h : PowHasher} {p : PowParams} (hh : h.HoldsTargets p)
    (hp : p.shareTarget = []) : h.shareTarget = [] := by
  have hread := hh.shareTarget
  rw [if_pos hp] at hread
  exact (Option.some.inj hread).symm

theorem PowHasher.HoldsTargets.share_read {h : PowHasher} {p : PowParams} (hh : h.HoldsTargets p)
    (hp : p.shareTarget ≠ []) :
    readTarget p.shareTarget = some h.shareTarget ∧ h.shareTarget.length = 32 := by
  have hread := hh.shareTarget
  rw [if_neg hp] at hread
  exact ⟨hread, length_readTarget hread⟩

/-! ## The claim and the check -/

section Claim

variable (sha : Bytes → Digest)

/-- What a message with a header prefix and a hash claims. -/
theorem hexNumber_achieved {headerPrefix hash : Bytes} (hp : headerPrefix.length = 76)
    (hh : hash.length = 32) :
    hexNumber (achievedHex sha (some headerPrefix) (some hash)) =
      leNumber (headerHash sha headerPrefix hash).bytes := by
  unfold achievedHex
  dsimp only
  rw [if_pos ⟨hh, hp⟩, hexNumber_toHex]
  rfl

theorem checkAgainst_iff {h : PowHasher} {target digest : Bytes} (ht : target.length = 32) :
    (h.checkAgainst sha target [digest]).headD false = true ↔
      leNumber (headerHash sha h.headerPrefix digest).bytes ≤ beNumber target :=
  meetsTarget_iff (headerHash sha h.headerPrefix digest).length_bytes ht

/-- **The claimed text and the check agree** on every target of 64 hexadecimal digits. -/
theorem achieved_le_iff {h : PowHasher} {digest target : Bytes} (hp : h.headerPrefix.length = 76)
    (hd : digest.length = 32) (ht : AllHex target) (hlen : target.length = 64) :
    hexNumber (achievedHex sha (some h.headerPrefix) (some digest)) ≤ hexNumber target ↔
      (h.checkAgainst sha (hexBytes target) [digest]).headD false = true := by
  have hbytes : (hexBytes target).length = 32 := by
    have hmap : 2 * (hexBytes target).length = target.length := Pairs.length_map (by rw [hlen])
    omega
  rw [hexNumber_achieved sha hp hd, ← hexNumber_digits ht (by rw [hlen]),
    checkAgainst_iff sha hbytes]

end Claim

end Poi
