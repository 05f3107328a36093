import Mathlib.Data.Nat.Bitwise
import SuprMeow.Library.Compact
import SuprMeow.Poi.HeaderHash

/-!
# `adjusted_bits`

A proof carries the threshold it is to be judged by in compact form, three significant bytes; the
sampler judges by the full share target.

* `getCompact_eq` — the bit operations of `get_compact` are the compact form;
* `adjusted_bits_admit_iff` — the shares the threshold of the proof admits;
* `share_above_adjusted_bits` — one it does not.
-/

set_option autoImplicit false

open Stratum (Bytes text)

namespace Poi

/-! ## `get_compact` -/

/-- The bytes behind the leading zeros; `size` is their number. -/
def significant (target : Bytes) : Bytes := target.dropWhile (· == 0)

/-- The mantissa before the sign bit is looked at. -/
def leadingBytes (sig : Bytes) : Nat :=
  if sig.length ≤ 3 then
    (sig.foldl (fun mantissa b => mantissa <<< 8 ||| b.toNat) 0) <<< (8 * (3 - sig.length))
  else
    (sig.getD 0 0).toNat <<< 16 ||| (sig.getD 1 0).toNat <<< 8 ||| (sig.getD 2 0).toNat

/-- Mantissa and size: a set sign bit shifts the mantissa down and bumps the exponent. -/
def withoutSignBit (mantissa size : Nat) : Nat × Nat :=
  if mantissa &&& 0x00800000 ≠ 0 then (mantissa >>> 8, size + 1) else (mantissa, size)

def getCompact (target : Bytes) (negative : Bool) : Nat :=
  if target.length ≠ 32 then 0
  else
    let size := (significant target).length
    if size = 0 then 0
    else
      let r := withoutSignBit (leadingBytes (significant target)) size
      let compact := r.2 <<< 24 ||| (r.1 &&& 0x007fffff)
      if negative ∧ r.1 ≠ 0 then compact ||| 0x00800000 else compact

/-- The significant bytes as digits. -/
def digits (target : Bytes) : List Nat := (significant target).map UInt8.toNat

theorem digits_lt (target : Bytes) : ∀ d ∈ digits target, d < 256 := byte_digits _

theorem value_digits (target : Bytes) : Positional.value 256 (digits target) = beNumber target := by
  have hmap : digits target = (target.map UInt8.toNat).dropWhile (· == 0) := by
    unfold digits significant
    rw [List.dropWhile_map]
    congr 1
    apply congrArg (List.dropWhile · target)
    funext b
    simp [← UInt8.toNat_inj]
  unfold beNumber
  rw [hmap, Positional.value_dropWhile_zero]

theorem shiftLeft_or {m b i : Nat} (h : b < 2 ^ i) : m <<< i ||| b = m * 2 ^ i + b := by
  rw [← Nat.shiftLeft_add_eq_or_of_lt h, Nat.shiftLeft_eq]

/-- **The bytes the loop collects are the leading ones.** -/
theorem leadingBytes_eq (sig : Bytes) :
    leadingBytes sig = Compact.mantissa (sig.map UInt8.toNat) := by
  unfold leadingBytes Compact.mantissa
  rw [List.length_map]
  split
  · rename_i hlen
    have hfold : ∀ (l : Bytes) (m : Nat), l.foldl (fun m b => m <<< 8 ||| b.toNat) m =
        (l.map UInt8.toNat).foldl (fun m d => m * 256 + d) m := by
      intro l
      induction l with
      | nil => exact fun _ => rfl
      | cons b l ih =>
        intro m
        have hstep : m <<< 8 ||| b.toNat = m * 256 + b.toNat := shiftLeft_or b.toNat_lt
        rw [List.foldl_cons, List.map_cons, List.foldl_cons, ih, hstep]
    have hpow : 2 ^ (8 * (3 - sig.length)) = 256 ^ (3 - sig.length) := Nat.pow_mul 2 8 _
    have htake : (sig.map UInt8.toNat).take 3 = sig.map UInt8.toNat :=
      List.take_of_length_le (by rwa [List.length_map])
    rw [hfold, Positional.foldl_value, htake, Nat.zero_mul, Nat.zero_add, Nat.shiftLeft_eq, hpow]
  · rename_i hlen
    obtain ⟨a, b, c, rest, rfl⟩ : ∃ a b c rest, sig = a :: b :: c :: rest := by
      rcases sig with - | ⟨a, - | ⟨b, - | ⟨c, rest⟩⟩⟩
      · simp at hlen
      · simp at hlen
      · simp at hlen
      · exact ⟨a, b, c, rest, rfl⟩
    have hsub : 3 - (a :: b :: c :: rest).length = 0 := by omega
    have hvalue : Positional.value 256 [a.toNat, b.toNat, c.toNat] =
        (a.toNat * 256 + b.toNat) * 256 + c.toNat := by
      simp only [Positional.value_cons, Positional.value_nil, List.length_cons, List.length_nil]
      ring
    have hb := b.toNat_lt
    have hc := c.toNat_lt
    have hlow : b.toNat <<< 8 ||| c.toNat = b.toNat * 256 + c.toNat := shiftLeft_or hc
    have hall : a.toNat <<< 16 ||| (b.toNat * 256 + c.toNat) =
        a.toNat * 2 ^ 16 + (b.toNat * 256 + c.toNat) := shiftLeft_or (by omega)
    rw [hsub, Nat.pow_zero, Nat.mul_one]
    simp only [List.getD_cons_zero, List.getD_cons_succ, List.map_cons, List.take_succ_cons,
      List.take_zero]
    rw [hvalue, Nat.or_assoc, hlow, hall]
    ring

theorem signBit_iff {m : Nat} (h : m < 2 ^ 24) : m &&& 0x00800000 ≠ 0 ↔ ¬ m < 2 ^ 23 := by
  have hand : m &&& 0x00800000 = (m.testBit 23).toNat * 2 ^ 23 := Nat.and_two_pow m 23
  have hbit : (m.testBit 23).toNat * 2 ^ 23 ≠ 0 ↔ m / 2 ^ 23 % 2 = 1 := by
    rw [Nat.testBit_eq_decide_div_mod_eq]
    simp
  rw [hand, hbit]
  omega

/-- **`get_compact` is the compact form of the number.** -/
theorem getCompact_eq {target : Bytes} (hlen : target.length = 32) :
    getCompact target false = Compact.encode (digits target) := by
  have hmask : ∀ m : Nat, m &&& 0x007fffff = m % 2 ^ 23 :=
    fun m => Nat.and_two_pow_sub_one_eq_mod m 23
  have hsize : (digits target).length = (significant target).length := List.length_map _
  have hlt := Compact.mantissa_lt (digits_lt target)
  unfold getCompact
  rw [if_neg (not_not_intro hlen)]
  dsimp only
  split
  · rename_i hzero
    have hnil : digits target = [] := List.eq_nil_of_length_eq_zero (hsize.trans hzero)
    rw [hnil]
    rfl
  · rw [if_neg fun h => Bool.false_ne_true h.1, leadingBytes_eq]
    change (withoutSignBit (Compact.mantissa (digits target)) _).2 <<< 24 |||
      ((withoutSignBit (Compact.mantissa (digits target)) _).1 &&& _) = _
    unfold withoutSignBit Compact.encode
    rw [hsize]
    by_cases hm : Compact.mantissa (digits target) < 2 ^ 23
    · rw [if_neg (fun hc => (signBit_iff hlt).1 hc hm), if_pos hm, hmask,
        Nat.mod_eq_of_lt hm, shiftLeft_or (by omega)]
    · have hshift : Compact.mantissa (digits target) >>> 8 =
          Compact.mantissa (digits target) / 256 := Nat.shiftRight_eq_div_pow _ 8
      rw [if_pos ((signBit_iff hlt).2 hm), if_neg hm, hmask, hshift, Nat.mod_eq_of_lt (by omega),
        shiftLeft_or (by omega)]

/-! ## Shares -/

/-- `adjusted_bits` as the patched writer sets it: the share target, and the target for a solution
or when there is no share target. -/
def adjustedBits (isSolution : Bool) (p : PowParams) : Option Nat :=
  let thr := if isSolution ∨ p.shareTarget = [] then p.target else p.shareTarget
  (PowUtils.hexToBytes thr).map fun bytes => getCompact bytes false

/-- The window is emitted as a share, not as a solution. -/
def PowHasher.EmitsShare (sha : Bytes → Digest) (h : PowHasher) (digest : Digest) : Prop :=
  (h.checkSolution sha [digest.bytes]).headD false = false ∧
    (h.checkShareSolution sha [digest.bytes]).headD false = true

/-- The hash of the window meets the threshold of its proof. -/
def Admits (sha : Bytes → Digest) (h : PowHasher) (p : PowParams) (digest : Digest) :
    Prop :=
  ∃ bits, adjustedBits false p = some bits ∧
    leNumber (headerHash sha h.headerPrefix digest.bytes).bytes ≤ Compact.decode bits

/-- The targets have 256 bits; the share target may be missing. -/
structure PowParams.Targets256 (p : PowParams) : Prop where
  target : AllHex p.target ∧ p.target.length = 64
  shareTarget : p.shareTarget ≠ [] → AllHex p.shareTarget ∧ p.shareTarget.length = 64

/-- The weight of the last byte of a target that the compact form keeps. -/
def compactUnit (s : Bytes) : Nat := Compact.unit (digits (hexBytes s))

section Shares

variable {p : PowParams}

theorem length_hexBytes {s : Bytes} (hlen : s.length = 64) : (hexBytes s).length = 32 := by
  have hmap : 2 * (hexBytes s).length = s.length := Pairs.length_map (by rw [hlen])
  omega

/-- The threshold of the proof is the share target rounded down. -/
theorem adjustedBits_share (hp : p.Targets256) (hshare : p.shareTarget ≠ []) :
    ∃ bits, adjustedBits false p = some bits ∧ Compact.decode bits =
      hexNumber p.shareTarget / compactUnit p.shareTarget * compactUnit p.shareTarget := by
  obtain ⟨hhex, hlen⟩ := hp.shareTarget hshare
  refine ⟨getCompact (hexBytes p.shareTarget) false, ?_, ?_⟩
  · unfold adjustedBits
    dsimp only
    rw [if_neg (fun hc => hc.elim Bool.false_ne_true hshare),
      PowUtils.hexToBytes_of_digits hhex (by rw [hlen])]
    rfl
  · rw [getCompact_eq (length_hexBytes hlen), Compact.decode_encode_eq (digits_lt _), value_digits,
      hexNumber_digits hhex (by rw [hlen])]
    rfl

/-- **When a window is emitted as a share.** -/
theorem emitsShare_iff {sha : Bytes → Digest} {h : PowHasher} {digest : Digest} (hp : p.Targets256)
    (hshare : p.shareTarget ≠ []) (hh : h.HoldsTargets p) :
    h.EmitsShare sha digest ↔
      hexNumber p.target < leNumber (headerHash sha h.headerPrefix digest.bytes).bytes ∧
        leNumber (headerHash sha h.headerPrefix digest.bytes).bytes ≤ hexNumber p.shareTarget := by
  obtain ⟨hhex, hlen⟩ := hp.shareTarget hshare
  obtain ⟨hhex', hlen'⟩ := hp.target
  obtain ⟨hread, hlen32⟩ := hh.share_read hshare
  have htarget : h.target = hexBytes p.target :=
    Option.some.inj (hh.target.symm.trans (readTarget_digits hhex' hlen'))
  have hst : h.shareTarget = hexBytes p.shareTarget :=
    Option.some.inj (hread.symm.trans (readTarget_digits hhex hlen))
  have hsolution := @checkAgainst_iff sha h _ digest.bytes (length_hexBytes hlen')
  have hcheck := @checkAgainst_iff sha h _ digest.bytes (length_hexBytes hlen)
  rw [hexNumber_digits hhex' (by rw [hlen'])] at hsolution
  rw [hexNumber_digits hhex (by rw [hlen])] at hcheck
  have hne : h.shareTarget ≠ [] := by
    intro hnil
    rw [hnil] at hlen32
    cases hlen32
  unfold PowHasher.EmitsShare PowHasher.checkSolution PowHasher.checkShareSolution
  rw [if_neg hne, htarget, hst, hcheck, ← Bool.not_eq_true, hsolution, Nat.not_le]

theorem admits_iff {sha : Bytes → Digest} {h : PowHasher} {digest : Digest} (hp : p.Targets256)
    (hshare : p.shareTarget ≠ []) :
    Admits sha h p digest ↔ leNumber (headerHash sha h.headerPrefix digest.bytes).bytes ≤
      hexNumber p.shareTarget / compactUnit p.shareTarget * compactUnit p.shareTarget := by
  obtain ⟨bits, hbits, hdecode⟩ := adjustedBits_share hp hshare
  unfold Admits
  rw [← hdecode, hbits]
  constructor
  · rintro ⟨_, ⟨⟩, hle⟩
    exact hle
  · intro hle
    exact ⟨bits, rfl, hle⟩

/-- Without a share target nothing is emitted as a share. -/
theorem not_emitsShare {sha : Bytes → Digest} {h : PowHasher} {digest : Digest}
    (hshare : p.shareTarget = []) (hh : h.HoldsTargets p) : ¬ h.EmitsShare sha digest := by
  rintro ⟨-, hcheck⟩
  unfold PowHasher.checkShareSolution at hcheck
  rw [if_pos (hh.share_empty hshare)] at hcheck
  cases hcheck

/-- A hasher with the targets of the map. -/
theorem exists_holdsTargets (hp : p.Targets256) : ∃ h : PowHasher, h.HoldsTargets p := by
  refine ⟨{ target := hexBytes p.target,
            shareTarget := if p.shareTarget = [] then [] else hexBytes p.shareTarget }, ?_, ?_⟩
  · exact readTarget_digits hp.target.1 hp.target.2
  · by_cases hshare : p.shareTarget = []
    · rw [if_pos hshare, if_pos hshare]
    · rw [if_neg hshare, if_neg hshare]
      exact readTarget_digits (hp.shareTarget hshare).1 (hp.shareTarget hshare).2

/-- **The threshold in the proof admits a share exactly when its hash is no more than the share
target with the bytes that the compact form drops set to zero**; it admits all shares of a job
exactly when these bytes are zero, or the share target leaves no share that is not a solution. -/
theorem adjusted_bits_admit_iff (hp : p.Targets256) :
    (∀ sha h digest, h.HoldsTargets p → h.EmitsShare sha digest →
      (Admits sha h p digest ↔ leNumber (headerHash sha h.headerPrefix digest.bytes).bytes ≤
        hexNumber p.shareTarget / compactUnit p.shareTarget * compactUnit p.shareTarget)) ∧
    ((∀ sha h digest, h.HoldsTargets p → h.EmitsShare sha digest → Admits sha h p digest) ↔
      p.shareTarget = [] ∨ compactUnit p.shareTarget ∣ hexNumber p.shareTarget ∨
        hexNumber p.shareTarget ≤ hexNumber p.target) := by
  constructor
  · intro sha h digest hh hemits
    have hshare : p.shareTarget ≠ [] := fun hnil => not_emitsShare hnil hh hemits
    exact admits_iff hp hshare
  · by_cases hshare : p.shareTarget = []
    · refine iff_of_true ?_ (.inl hshare)
      intro sha h digest hh hemits
      exact absurd hemits (not_emitsShare hshare hh)
    · constructor
      · intro hall
        by_contra hnot
        obtain ⟨-, hnot⟩ := not_or.1 hnot
        obtain ⟨hdvd, hle⟩ := not_or.1 hnot
        obtain ⟨hhex, hlen⟩ := hp.shareTarget hshare
        -- a hash equal to the share target
        let top : Digest := ⟨(hexBytes p.shareTarget).reverse, by
          rw [List.length_reverse, length_hexBytes hlen]⟩
        have htop : leNumber top.bytes = hexNumber p.shareTarget := by
          change beNumber (hexBytes p.shareTarget).reverse.reverse = _
          rw [List.reverse_reverse, hexNumber_digits hhex (by rw [hlen])]
        obtain ⟨h, hh⟩ := exists_holdsTargets hp
        have hemits : h.EmitsShare (fun _ => top) top := by
          rw [emitsShare_iff hp hshare hh]
          change hexNumber p.target < leNumber top.bytes ∧ leNumber top.bytes ≤ _
          omega
        have hadmits := (admits_iff hp hshare).1 (hall (fun _ => top) h top hh hemits)
        change leNumber top.bytes ≤ _ at hadmits
        rw [htop] at hadmits
        have hback := Nat.div_mul_le_self (hexNumber p.shareTarget) (compactUnit p.shareTarget)
        exact hdvd ((Nat.dvd_iff_div_mul_eq _ _).2 (Nat.le_antisymm hback hadmits))
      · intro hor sha h digest hh hemits
        have hwindow := (emitsShare_iff hp hshare hh).1 hemits
        rw [admits_iff hp hshare]
        rcases hor with hnil | hdvd | hle
        · exact absurd hnil hshare
        · rw [Nat.div_mul_cancel hdvd]
          exact hwindow.2
        · omega

end Shares

/-- A share target of two significant bytes. -/
def roundJob : PowParams :=
  { target := List.replicate 64 48
    shareTarget := List.replicate 6 48 ++ List.replicate 4 102 ++ List.replicate 54 48 }

def roundHasher : PowHasher :=
  { target := List.replicate 32 0
    shareTarget := List.replicate 3 0 ++ [255, 255] ++ List.replicate 27 0 }

/-- The number of the share target. -/
def roundHash : Digest := ⟨List.replicate 27 0 ++ [255, 255] ++ List.replicate 3 0, rfl⟩

theorem adjusted_bits_admit_round : Admits (fun _ => roundHash) roundHasher roundJob roundHash := by
  have hp : roundJob.Targets256 := ⟨by decide +kernel, fun _ => by decide +kernel⟩
  have hexact : compactUnit roundJob.shareTarget ∣ hexNumber roundJob.shareTarget := by
    decide +kernel
  apply (adjusted_bits_admit_iff hp).2.2 (.inr (.inl hexact))
  · exact ⟨by decide +kernel, by decide +kernel⟩
  · exact ⟨by decide +kernel, by decide +kernel⟩

/-- A share target of 28 bytes, all set. -/
def oddJob : PowParams :=
  { target := List.replicate 64 48
    shareTarget := List.replicate 8 48 ++ List.replicate 56 102 }

def oddHasher : PowHasher :=
  { target := List.replicate 32 0, shareTarget := List.replicate 4 0 ++ List.replicate 28 255 }

/-- The number of the share target. -/
def oddHash : Digest := ⟨List.replicate 28 255 ++ List.replicate 4 0, rfl⟩

/-- **The hash meets the share target and not the threshold of the proof.** -/
theorem share_above_adjusted_bits :
    oddHasher.HoldsTargets oddJob ∧ oddHasher.EmitsShare (fun _ => oddHash) oddHash ∧
      ¬ Admits (fun _ => oddHash) oddHasher oddJob oddHash := by
  refine ⟨⟨by decide +kernel, by decide +kernel⟩, ⟨by decide +kernel, by decide +kernel⟩, ?_⟩
  rintro ⟨bits, hbits, hle⟩
  have hvalue : adjustedBits false oddJob = some 0x1d00ffff := by decide +kernel
  obtain rfl := Option.some.inj (hvalue.symm.trans hbits)
  revert hle
  decide +kernel

end Poi
