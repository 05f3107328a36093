import Mathlib.Data.Nat.Digits.Lemmas
import Mathlib.Data.Nat.Squarefree
import Mathlib.Tactic.NormNum.Prime
import SuprMeow.Stratum.Client
import SuprMeow.Vdf.Compress

/-!
# The bytes of a form

`bqfc_serialize` and `bqfc_deserialize`: a hundred bytes for every form, whatever the discriminant.

* `Fits` — every number is as wide as its field at most;
* `serializeOnly_eq` — the exports one after another leave the fields side by side;
* `deserializeOnly_layout` — and are read back;
* `deserialize_serialize` — the round trip, for every reduced form whose cofactor fits;
* `fits_cofactor` — when it is sure to.
-/

set_option autoImplicit false

open Stratum (Bytes)

namespace Vdf

/-- `BQFC_FORM_SIZE`, for discriminants of up to `BQFC_MAX_D_BITS` bits. -/
def BQFC_MAX_D_BITS : Nat := 1024

def BQFC_FORM_SIZE : Nat := (BQFC_MAX_D_BITS + 31) / 32 * 3 + 4

def BQFC_B_SIGN : UInt8 := 1

def BQFC_T_SIGN : UInt8 := 2

def BQFC_IS_1 : UInt8 := 4

def BQFC_IS_GEN : UInt8 := 8

/-! ## Writing -/

/-- `mpz_export`, the least significant byte first. -/
def mpzExport (n : Int) : Bytes := (Nat.digits 256 n.natAbs).map UInt8.ofNat

/-- `mpz_import`, the least significant byte first. -/
def mpzImport (bs : Bytes) : Int := (Nat.ofDigits 256 (bs.map UInt8.toNat) : Nat)

/-- Copying `bs` to `buf + offset`. -/
def writeAt (buf : Bytes) (offset : Nat) (bs : Bytes) : Bytes :=
  buf.take offset ++ bs ++ buf.drop (offset + bs.length)

/-- The bytes `bqfc_export` writes; more than `size` when the number does not fit. -/
def exported (size : Nat) (n : Int) : Bytes :=
  mpzExport n ++ List.replicate (size - (mpzExport n).length) 0

/-- `bqfc_export`. -/
def bqfcExport (n : Int) (size : Nat) (s : Bytes × Nat) : Bytes × Nat :=
  (writeAt s.1 s.2 (exported size n), s.2 + size)

/-- `(d_bits + 31) & ~31`. -/
def roundedBits (dBits : Nat) : Nat := (dBits + 31) / 32 * 32

/-- `g_size`. -/
def Qfb.gSize (c : Qfb) : Nat := (sizeInBase2 c.g + 7) / 8 - 1

def Qfb.flags (c : Qfb) : UInt8 :=
  (if c.bSign then BQFC_B_SIGN else 0) ||| (if c.t < 0 then BQFC_T_SIGN else 0)

/-- `bqfc_serialize_only`. -/
def bqfcSerializeOnly (out : Bytes) (c : Qfb) (dBits : Nat) : Bytes :=
  let d := roundedBits dBits
  let g := c.gSize
  let s := ((out.set 0 c.flags).set 1 (UInt8.ofNat g), 2)
  let s := bqfcExport c.a (d / 16 - g) s
  let s := bqfcExport c.t (d / 32 - g) s
  let s := bqfcExport c.g (g + 1) s
  let s := bqfcExport c.b0 (g + 1) s
  s.1

/-- `bqfc_get_compr_size`. -/
def bqfcGetComprSize (dBits : Nat) : Nat := (dBits + 31) / 32 * 3 + 4

/-- `bqfc_serialize` into a buffer of `BQFC_FORM_SIZE` bytes. -/
def bqfcSerialize (out : Bytes) (a b : Int) (dBits : Nat) : Bytes :=
  let validSize := bqfcGetComprSize dBits
  if b = 1 ∧ a ≤ 2 then
    writeAt (out.set 0 (if a = 2 then BQFC_IS_GEN else BQFC_IS_1)) 1
      (List.replicate (BQFC_FORM_SIZE - 1) 0)
  else
    let out := bqfcSerializeOnly out (bqfcCompr a b) dBits
    if validSize ≠ BQFC_FORM_SIZE then
      writeAt out validSize (List.replicate (BQFC_FORM_SIZE - validSize) 0)
    else out

/-! ## Reading -/

/-- `bytes` bytes at an offset. -/
def field (str : Bytes) (offset bytes : Nat) : Int := mpzImport ((str.drop offset).take bytes)

/-- `bqfc_deserialize_only`; `none` is an error code. -/
def bqfcDeserializeOnly (str : Bytes) (dBits : Nat) : Option Qfb :=
  let d := roundedBits dBits
  let g := (str.getD 1 0).toNat
  if d / 32 ≤ g then none
  else
    let offset := 2
    let a := field str offset (d / 16 - g)
    let offset := offset + (d / 16 - g)
    let t := field str offset (d / 32 - g)
    let offset := offset + (d / 32 - g)
    let gcd := field str offset (g + 1)
    let offset := offset + (g + 1)
    let b0 := field str offset (g + 1)
    some { a := a, t := if str.getD 0 0 &&& BQFC_T_SIGN ≠ 0 then -t else t, g := gcd, b0 := b0
           bSign := decide (str.getD 0 0 &&& BQFC_B_SIGN ≠ 0) }

/-- `bqfc_deserialize`; `out` is the buffer `bqfc_verify_canon` serialises into. -/
def bqfcDeserialize (out : Bytes) (d : Int) (str : Bytes) (size dBits : Nat) :
    Option (Int × Int) :=
  if size ≠ BQFC_FORM_SIZE then none
  else if str.getD 0 0 &&& (BQFC_IS_1 ||| BQFC_IS_GEN) ≠ 0 then
    some (if str.getD 0 0 &&& BQFC_IS_GEN ≠ 0 then 2 else 1, 1)
  else
    match bqfcDeserializeOnly str dBits with
    | none => none
    | some c =>
      match bqfcDecompr d c with
      | none => none
      | some (a, b) => if bqfcSerialize out a b dBits = str then some (a, b) else none

/-! ## One field -/

theorem length_mpzExport_le {n : Int} {size : Nat} (h : n.natAbs < 256 ^ size) :
    (mpzExport n).length ≤ size := by
  unfold mpzExport
  rw [List.length_map]
  exact (Nat.digits_length_le_iff (by decide) _).2 h

theorem length_exported {n : Int} {size : Nat} (h : n.natAbs < 256 ^ size) :
    (exported size n).length = size := by
  have := length_mpzExport_le h
  unfold exported
  simp
  omega

theorem mpzImport_exported (size : Nat) (n : Int) :
    mpzImport (exported size n) = n.natAbs := by
  have hdigits : ((Nat.digits 256 n.natAbs).map UInt8.ofNat).map UInt8.toNat =
      Nat.digits 256 n.natAbs := by
    rw [List.map_map]
    conv_rhs => rw [← List.map_id (Nat.digits 256 n.natAbs)]
    refine List.map_congr_left fun d hd => ?_
    have hlt : d < 256 := Nat.digits_lt_base (by decide) hd
    simp only [Function.comp_apply, id_eq, UInt8.toNat_ofNat']
    omega
  unfold mpzImport exported mpzExport
  rw [List.map_append, hdigits, List.map_replicate, Nat.ofDigits_append, Nat.ofDigits_digits]
  have hzero : Nat.ofDigits 256 (List.replicate
      (size - ((Nat.digits 256 n.natAbs).map UInt8.ofNat).length) (UInt8.toNat 0)) = 0 := by
    exact Nat.ofDigits_replicate_zero
  rw [hzero, Nat.mul_zero, Nat.add_zero]

theorem writeAt_append (w rest bs : Bytes) :
    writeAt (w ++ rest) w.length bs = w ++ bs ++ rest.drop bs.length := by
  unfold writeAt
  simp [List.drop_append]

/-- **An export appends its field to what is written already.** -/
theorem bqfcExport_append {n : Int} {size : Nat} (h : n.natAbs < 256 ^ size) (w rest : Bytes) :
    bqfcExport n size (w ++ rest, w.length) =
      (w ++ exported size n ++ rest.drop size, (w ++ exported size n).length) := by
  have hlen := length_exported h
  unfold bqfcExport
  dsimp only
  rw [writeAt_append, List.length_append, hlen]

theorem field_append {n : Int} {size : Nat} (h : n.natAbs < 256 ^ size) (w rest : Bytes) :
    field (w ++ exported size n ++ rest) w.length size = n.natAbs := by
  have hlen := length_exported h
  unfold field
  rw [List.append_assoc, List.drop_left, List.take_append_of_le_length (by omega),
    List.take_of_length_le (by omega)]
  exact mpzImport_exported size n

/-! ## All fields -/

/-- Every number is as wide as its field at most; `d` counts the words of the discriminant. -/
structure Fits (d : Nat) (c : Qfb) : Prop where
  gSize_lt : c.gSize < d
  a_nonneg : 0 ≤ c.a
  g_nonneg : 0 ≤ c.g
  b0_nonneg : 0 ≤ c.b0
  a : c.a.natAbs < 256 ^ (2 * d - c.gSize)
  t : c.t.natAbs < 256 ^ (d - c.gSize)
  g : c.g.natAbs < 256 ^ (c.gSize + 1)
  b0 : c.b0.natAbs < 256 ^ (c.gSize + 1)

/-- The bytes of a compressed form. -/
def layout (d : Nat) (c : Qfb) : Bytes :=
  [c.flags, UInt8.ofNat c.gSize] ++ exported (2 * d - c.gSize) c.a ++
    exported (d - c.gSize) c.t ++ exported (c.gSize + 1) c.g ++ exported (c.gSize + 1) c.b0

section

variable {dBits : Nat} {c : Qfb}

theorem rounded_div16 (dBits : Nat) : roundedBits dBits / 16 = 2 * ((dBits + 31) / 32) := by
  unfold roundedBits
  omega

theorem rounded_div32 (dBits : Nat) : roundedBits dBits / 32 = (dBits + 31) / 32 := by
  unfold roundedBits
  omega

theorem Fits.length_layout {d : Nat} (h : Fits d c) : (layout d c).length = d * 3 + 4 := by
  have := h.gSize_lt
  unfold layout
  simp only [List.length_append, length_exported h.a, length_exported h.t, length_exported h.g,
    length_exported h.b0, List.length_cons, List.length_nil]
  omega

/-- **The exports one after another leave the fields side by side.** -/
theorem serializeOnly_eq (h : Fits ((dBits + 31) / 32) c) {out : Bytes} (hlen : 2 ≤ out.length) :
    bqfcSerializeOnly out c dBits =
      layout ((dBits + 31) / 32) c ++ out.drop ((dBits + 31) / 32 * 3 + 4) := by
  obtain ⟨x, y, rest, rfl⟩ : ∃ x y rest, out = x :: y :: rest := by
    match out, hlen with
    | x :: y :: rest, _ => exact ⟨x, y, rest, rfl⟩
  have hstart : (((x :: y :: rest).set 0 c.flags).set 1 (UInt8.ofNat c.gSize), 2) =
      ([c.flags, UInt8.ofNat c.gSize] ++ rest, [c.flags, UInt8.ofNat c.gSize].length) := rfl
  unfold bqfcSerializeOnly
  dsimp only
  rw [rounded_div16, rounded_div32, hstart, bqfcExport_append h.a, bqfcExport_append h.t,
    bqfcExport_append h.g, bqfcExport_append h.b0]
  have := h.gSize_lt
  generalize (dBits + 31) / 32 = d at *
  have hsum : d * 3 + 4 = 2 * d - c.gSize + (d - c.gSize) + (c.gSize + 1) + (c.gSize + 1) + 2 := by
    omega
  rw [hsum, List.drop_succ_cons, List.drop_succ_cons]
  simp only [List.drop_drop, layout]

theorem flags_sign (c : Qfb) :
    decide (c.flags &&& BQFC_B_SIGN ≠ 0) = c.bSign ∧
      (c.flags &&& BQFC_T_SIGN ≠ 0 ↔ c.t < 0) ∧
        c.flags &&& (BQFC_IS_1 ||| BQFC_IS_GEN) = 0 := by
  unfold Qfb.flags
  by_cases ht : c.t < 0
  · cases c.bSign <;> simp only [ht] <;> decide
  · cases c.bSign <;> simp only [ht] <;> decide

/-- **What was written is read back.** -/
theorem deserializeOnly_layout (h : Fits ((dBits + 31) / 32) c) (hd : dBits ≤ BQFC_MAX_D_BITS)
    (rest : Bytes) :
    bqfcDeserializeOnly (layout ((dBits + 31) / 32) c ++ rest) dBits = some c := by
  have hg := h.gSize_lt
  have hd32 : (dBits + 31) / 32 ≤ 32 := by
    unfold BQFC_MAX_D_BITS at hd
    omega
  unfold bqfcDeserializeOnly
  dsimp only
  rw [rounded_div16, rounded_div32]
  generalize (dBits + 31) / 32 = d at *
  have hbyte0 : (layout d c ++ rest).getD 0 0 = c.flags := rfl
  have hbyte1 : ((layout d c ++ rest).getD 1 0).toNat = c.gSize := by
    show (UInt8.ofNat c.gSize).toNat = c.gSize
    simp only [UInt8.toNat_ofNat']
    omega
  obtain ⟨hb, ht, -⟩ := flags_sign c
  -- The fields, with what stands before each of them.
  have e : layout d c = [c.flags, UInt8.ofNat c.gSize] ++ exported (2 * d - c.gSize) c.a ++
    exported (d - c.gSize) c.t ++ exported (c.gSize + 1) c.g ++ exported (c.gSize + 1) c.b0 := rfl
  generalize hw0 : [c.flags, UInt8.ofNat c.gSize] = w0 at e
  have hl0 : w0.length = 2 := by rw [← hw0]; rfl
  have hl1 := length_exported h.a
  have hl2 := length_exported h.t
  have hl3 := length_exported h.g
  have fa := field_append h.a w0 (exported (d - c.gSize) c.t ++ (exported (c.gSize + 1) c.g ++
    (exported (c.gSize + 1) c.b0 ++ rest)))
  have ft := field_append h.t (w0 ++ exported (2 * d - c.gSize) c.a)
    (exported (c.gSize + 1) c.g ++ (exported (c.gSize + 1) c.b0 ++ rest))
  have fg := field_append h.g (w0 ++ exported (2 * d - c.gSize) c.a ++ exported (d - c.gSize) c.t)
    (exported (c.gSize + 1) c.b0 ++ rest)
  have fb := field_append h.b0 (w0 ++ exported (2 * d - c.gSize) c.a ++ exported (d - c.gSize) c.t
    ++ exported (c.gSize + 1) c.g) rest
  rw [hl0] at fa
  rw [List.length_append, hl0, hl1] at ft
  rw [List.length_append, List.length_append, hl0, hl1, hl2] at fg
  rw [List.length_append, List.length_append, List.length_append, hl0, hl1, hl2, hl3] at fb
  simp only [List.append_assoc] at fa ft fg fb
  rw [hbyte0, hbyte1, if_neg (by omega), hb]
  simp only [e, List.append_assoc, fa, ft, fg, fb]
  have hsign : (if c.flags &&& BQFC_T_SIGN ≠ 0 then -(c.t.natAbs : Int) else c.t.natAbs) = c.t := by
    split
    · have := ht.1 ‹_›
      omega
    · have := mt ht.2 ‹_›
      omega
  rw [hsign, Int.natAbs_of_nonneg h.a_nonneg, Int.natAbs_of_nonneg h.g_nonneg,
    Int.natAbs_of_nonneg h.b0_nonneg]

end

/-! ## The fields of a reduced form -/

section Widths

variable {d : Int} {f : Form} {words : Nat}

theorem gSize_bounds {c : Qfb} (h : 0 < c.g) :
    256 ^ c.gSize ≤ c.g.natAbs ∧ c.g.natAbs < 256 ^ (c.gSize + 1) := by
  have hpos : 0 < c.g.natAbs.size := Nat.size_pos.2 (by omega)
  have hsize : sizeInBase2 c.g = c.g.natAbs.size := by
    unfold sizeInBase2
    omega
  have hlow : 8 * c.gSize < c.g.natAbs.size := by
    unfold Qfb.gSize
    omega
  have hhigh : c.g.natAbs.size ≤ 8 * (c.gSize + 1) := by
    unfold Qfb.gSize
    omega
  have h256 (n : Nat) : 256 ^ n = 2 ^ (8 * n) := by rw [pow_mul]; rfl
  rw [h256, h256]
  exact ⟨Nat.lt_size.1 hlow, Nat.size_le.1 hhigh⟩

/-- The leading coefficient has half as many bits as the discriminant. -/
theorem natAbs_a_lt (hf : f.PosDef d) (hr : f.isReduced = true)
    (hd : d.natAbs < 2 ^ (32 * words)) : f.a.natAbs < 256 ^ (2 * words) := by
  have hthree := hf.three_mul_sq_le hr
  have ha := hf.a_pos
  have hsq : f.a.natAbs * f.a.natAbs < 256 ^ (2 * words) * 256 ^ (2 * words) := by
    have hpow : 256 ^ (2 * words) * 256 ^ (2 * words) = 2 ^ (32 * words) := by
      rw [← pow_add, show (256 : Nat) = 2 ^ 8 from rfl, ← pow_mul]
      congr 1
      omega
    rw [hpow]
    refine lt_of_le_of_lt ?_ hd
    zify
    rw [abs_mul_abs_self]
    have hdneg : -d ≤ |d| := neg_le_abs d
    nlinarith [mul_self_nonneg f.a]
  exact lt_of_mul_self_lt_mul_self₀ (Nat.zero_le _) hsq

/-- **Only the cofactor can be wider than its field.** -/
theorem fits_compr (hf : f.PosDef d) (hr : f.isReduced = true) (hodd : d % 2 = 1)
    (hsq : Squarefree d) (hd : d.natAbs < 2 ^ (32 * words)) (hwords : 0 < words)
    (ht : (bqfcCompr f.a f.b).t.natAbs < 256 ^ (words - (bqfcCompr f.a f.b).gSize)) :
    Fits words (bqfcCompr f.a f.b) := by
  have ha := natAbs_a_lt hf hr hd
  by_cases heq : f.a = f.b
  · have hc : bqfcCompr f.a f.b = ⟨f.a, 0, 0, 0, false⟩ := by
      unfold bqfcCompr
      rw [if_pos heq]
    rw [hc] at ht ⊢
    have hg : (⟨f.a, 0, 0, 0, false⟩ : Qfb).gSize = 0 := by simp [Qfb.gSize, sizeInBase2]
    refine ⟨by rw [hg]; exact hwords, hf.a_pos.le, le_rfl, le_rfl, ?_, ht, ?_, ?_⟩
    · rw [hg]
      exact ha
    · exact Nat.pow_pos (by decide)
    · exact Nat.pow_pos (by decide)
  · have hc := compr_reduced hf hr hodd hsq heq
    generalize bqfcCompr f.a f.b = c at *
    obtain ⟨hlow, hhigh⟩ := gSize_bounds hc.g_pos
    have hgs : c.gSize < words := by
      by_contra hcon
      rw [Nat.sub_eq_zero_of_le (by omega), pow_zero] at ht
      exact hc.t_ne (by omega)
    have hmul : c.a.natAbs * c.g.natAbs = f.a.natAbs := by
      rw [← Int.natAbs_mul, hc.mul]
    have hb0 : 0 ≤ c.b0 ∧ c.b0 < c.g := by
      rw [hc.b0]
      refine ⟨Int.ediv_nonneg (abs_nonneg _) hc.a_pos.le, ?_⟩
      rw [Int.ediv_lt_iff_lt_mul hc.a_pos, mul_comm, hc.mul]
      exact hf.abs_b_lt hr heq
    refine ⟨hgs, hc.a_pos.le, hc.g_pos.le, hb0.1, ?_, ht, hhigh, by omega⟩
    have hpow : 256 ^ (2 * words) = 256 ^ (2 * words - c.gSize) * 256 ^ c.gSize := by
      rw [← pow_add]
      congr 1
      omega
    rw [← hmul, hpow] at ha
    exact lt_of_mul_lt_mul_right (lt_of_le_of_lt (Nat.mul_le_mul_left _ hlow) ha) (Nat.zero_le _)

/-- The cofactor of a form whose leading coefficient leaves two bits fits. -/
theorem fits_cofactor (hf : f.PosDef d) (hr : f.isReduced = true) (hodd : d % 2 = 1)
    (hne : f.a ≠ f.b) (hlow : 4 * f.a.natAbs ≤ 256 ^ (2 * words)) :
    (bqfcCompr f.a f.b).t.natAbs < 256 ^ (words - (bqfcCompr f.a f.b).gSize) := by
  have hlt := hf.abs_b_lt hr hne
  have ha : 2 ≤ f.a := by
    have := hf.b_odd hodd
    have := abs_lt.1 hlt
    omega
  have h := halfGcd ha hlt
  have hgpos : 0 < factor f.a f.b := by
    unfold factor
    have := Int.gcd_pos_of_ne_zero_left (cofactor f.a f.b) (by omega : f.a ≠ 0)
    omega
  have hdvd : factor f.a f.b ∣ cofactor f.a f.b := Int.gcd_dvd_right ..
  have htlt : (cofactor f.a f.b).natAbs < 256 ^ words := by
    have hsq : (cofactor f.a f.b).natAbs * (cofactor f.a f.b).natAbs <
        256 ^ words * 256 ^ words := by
      rw [← pow_add, ← two_mul]
      refine lt_of_lt_of_le ?_ hlow
      have := h.t_sq
      zify
      rw [abs_mul_abs_self, abs_of_nonneg (by omega)]
      exact this
    exact lt_of_mul_self_lt_mul_self₀ (Nat.zero_le _) hsq
  have ht : (bqfcCompr f.a f.b).t = cofactor f.a f.b / factor f.a f.b := by rw [compr_eq hlt hne]
  have hg : (bqfcCompr f.a f.b).g = factor f.a f.b := by rw [compr_eq hlt hne]
  obtain ⟨hglow, -⟩ := gSize_bounds (c := bqfcCompr f.a f.b) (by rw [hg]; exact hgpos)
  rw [hg] at hglow
  rw [ht, Int.natAbs_ediv_of_dvd hdvd]
  generalize (bqfcCompr f.a f.b).gSize = s at *
  have hne0 : (cofactor f.a f.b).natAbs ≠ 0 := Int.natAbs_ne_zero.2 h.t_ne
  have hle : (factor f.a f.b).natAbs ≤ (cofactor f.a f.b).natAbs :=
    Nat.le_of_dvd (by omega) (Int.natAbs_dvd_natAbs.2 hdvd)
  have hs : s ≤ words := by
    by_contra hcon
    have : 256 ^ words ≤ 256 ^ s := Nat.pow_le_pow_right (by decide) (by omega)
    omega
  rw [Nat.div_lt_iff_lt_mul (by omega)]
  calc (cofactor f.a f.b).natAbs < 256 ^ words := htlt
    _ = 256 ^ (words - s) * 256 ^ s := by rw [← pow_add, Nat.sub_add_cancel hs]
    _ ≤ 256 ^ (words - s) * (factor f.a f.b).natAbs := Nat.mul_le_mul_left _ hglow

end Widths

/-! ## The round trip -/

section Roundtrip

variable {d : Int} {f : Form} {dBits : Nat} {out : Bytes}

theorem serialize_special (hlen : out.length = BQFC_FORM_SIZE) {a : Int} (ha : a ≤ 2) :
    bqfcSerialize out a 1 dBits =
      (if a = 2 then BQFC_IS_GEN else BQFC_IS_1) :: List.replicate (BQFC_FORM_SIZE - 1) 0 := by
  obtain ⟨x, rest, rfl⟩ : ∃ x rest, out = x :: rest := by
    match out, hlen with
    | x :: rest, _ => exact ⟨x, rest, rfl⟩
  have hrest : rest.length = BQFC_FORM_SIZE - 1 := by
    rw [← hlen]
    rfl
  unfold bqfcSerialize
  dsimp only
  rw [if_pos ⟨rfl, ha⟩]
  generalize (if a = 2 then BQFC_IS_GEN else BQFC_IS_1) = y
  have h := writeAt_append [y] rest (List.replicate (BQFC_FORM_SIZE - 1) 0)
  rw [List.length_replicate, List.drop_of_length_le (by omega), List.append_nil] at h
  exact h

/-- The bytes of a form that is neither the identity nor the generator. -/
theorem serialize_general (hlen : out.length = BQFC_FORM_SIZE) {a b : Int}
    (hab : ¬(b = 1 ∧ a ≤ 2)) (hd : dBits ≤ BQFC_MAX_D_BITS)
    (h : Fits ((dBits + 31) / 32) (bqfcCompr a b)) :
    bqfcSerialize out a b dBits = layout ((dBits + 31) / 32) (bqfcCompr a b) ++
      List.replicate (BQFC_FORM_SIZE - bqfcGetComprSize dBits) 0 := by
  have hsize : bqfcGetComprSize dBits ≤ BQFC_FORM_SIZE := by
    unfold bqfcGetComprSize BQFC_FORM_SIZE
    omega
  have hrest : (out.drop (bqfcGetComprSize dBits)).length =
      BQFC_FORM_SIZE - bqfcGetComprSize dBits := by
    rw [List.length_drop, hlen]
  unfold bqfcSerialize
  dsimp only
  have htwo : 2 ≤ out.length := by
    rw [hlen]
    decide
  rw [if_neg hab, serializeOnly_eq h htwo]
  show (if bqfcGetComprSize dBits ≠ _ then writeAt (_ ++ out.drop (bqfcGetComprSize dBits)) _ _
    else _ ++ out.drop (bqfcGetComprSize dBits)) = _
  split
  · have hw := writeAt_append (layout ((dBits + 31) / 32) (bqfcCompr a b))
      (out.drop (bqfcGetComprSize dBits))
      (List.replicate (BQFC_FORM_SIZE - bqfcGetComprSize dBits) 0)
    rw [h.length_layout, List.length_replicate, ← hrest, List.drop_length, List.append_nil,
      hrest] at hw
    exact hw
  · rename_i heq
    have hz : BQFC_FORM_SIZE - bqfcGetComprSize dBits = 0 := by omega
    rw [hz] at hrest ⊢
    rw [List.eq_nil_of_length_eq_zero hrest]
    rfl

/-- The cofactor of a form that is written in general is as wide as its field at most. -/
def CofactorFits (dBits : Nat) (f : Form) : Prop :=
  (bqfcCompr f.a f.b).t.natAbs < 256 ^ ((dBits + 31) / 32 - (bqfcCompr f.a f.b).gSize)

/-- The two ways a reduced form is written. -/
theorem serialize_cases (hf : f.PosDef d) (hr : f.isReduced = true) (hodd : d % 2 = 1)
    (hsq : Squarefree d) (hbits : d.natAbs < 2 ^ dBits) (hd : dBits ≤ BQFC_MAX_D_BITS)
    (hfit : CofactorFits dBits f) :
    (f.b = 1 ∧ f.a ≤ 2 ∧ ∀ o : Bytes, o.length = BQFC_FORM_SIZE →
      bqfcSerialize o f.a f.b dBits =
        (if f.a = 2 then BQFC_IS_GEN else BQFC_IS_1) :: List.replicate (BQFC_FORM_SIZE - 1) 0) ∨
    (Fits ((dBits + 31) / 32) (bqfcCompr f.a f.b) ∧ ∀ o : Bytes, o.length = BQFC_FORM_SIZE →
      bqfcSerialize o f.a f.b dBits = layout ((dBits + 31) / 32) (bqfcCompr f.a f.b) ++
        List.replicate (BQFC_FORM_SIZE - bqfcGetComprSize dBits) 0) := by
  by_cases hab : f.b = 1 ∧ f.a ≤ 2
  · refine .inl ⟨hab.1, hab.2, fun o ho => ?_⟩
    rw [hab.1]
    exact serialize_special ho hab.2
  · have hpos : 0 < dBits := by
      by_contra hcon
      have hz : dBits = 0 := by omega
      rw [hz, pow_zero] at hbits
      omega
    have hwide : d.natAbs < 2 ^ (32 * ((dBits + 31) / 32)) :=
      lt_of_lt_of_le hbits (Nat.pow_le_pow_right (by decide) (by omega))
    have hfits := fits_compr hf hr hodd hsq hwide (by omega) hfit
    exact .inr ⟨hfits, fun o ho => serialize_general ho hab hd hfits⟩

/-- **What `bqfc_serialize` writes, `bqfc_deserialize` reads.** -/
theorem deserialize_serialize {out' : Bytes} (hlen : out.length = BQFC_FORM_SIZE)
    (hlen' : out'.length = BQFC_FORM_SIZE) (hf : f.PosDef d) (hr : f.isReduced = true)
    (hodd : d % 2 = 1) (hsq : Squarefree d) (hbits : d.natAbs < 2 ^ dBits)
    (hd : dBits ≤ BQFC_MAX_D_BITS) (hfit : CofactorFits dBits f) :
    bqfcDeserialize out' d (bqfcSerialize out f.a f.b dBits) BQFC_FORM_SIZE dBits =
      some (f.a, f.b) := by
  have hpos := hf.a_pos
  rcases serialize_cases hf hr hodd hsq hbits hd hfit with ⟨hb, ha, hser⟩ | ⟨hfits, hser⟩
  · rw [hser out hlen, hb]
    obtain h1 | h2 : f.a = 1 ∨ f.a = 2 := by omega
    · rw [h1]
      rfl
    · rw [h2]
      rfl
  · obtain ⟨-, -, hflags⟩ := flags_sign (bqfcCompr f.a f.b)
    unfold bqfcDeserialize
    rw [hser out hlen, if_neg (by simp), if_neg ?_, deserializeOnly_layout hfits hd]
    · dsimp only
      rw [decompr_compr hf hr hodd hsq]
      dsimp only
      rw [hser out' hlen', if_pos rfl]
    · intro hne
      exact hne hflags

theorem length_serialize (hlen : out.length = BQFC_FORM_SIZE) (hf : f.PosDef d)
    (hr : f.isReduced = true) (hodd : d % 2 = 1) (hsq : Squarefree d)
    (hbits : d.natAbs < 2 ^ dBits) (hd : dBits ≤ BQFC_MAX_D_BITS) (hfit : CofactorFits dBits f) :
    (bqfcSerialize out f.a f.b dBits).length = BQFC_FORM_SIZE := by
  rcases serialize_cases hf hr hodd hsq hbits hd hfit with ⟨-, -, hser⟩ | ⟨hfits, hser⟩
  · rw [hser out hlen]
    rfl
  · rw [hser out hlen, List.length_append, hfits.length_layout, List.length_replicate]
    unfold bqfcGetComprSize BQFC_FORM_SIZE
    unfold BQFC_MAX_D_BITS at hd ⊢
    omega

/-- **The bytes of a form**: a hundred of them, which are read back, whenever the cofactor is as
wide as its field at most; and it is when the leading coefficient leaves two bits. -/
theorem bqfc_roundtrip {out' : Bytes} (hlen : out.length = BQFC_FORM_SIZE)
    (hlen' : out'.length = BQFC_FORM_SIZE) (hf : f.PosDef d) (hr : f.isReduced = true)
    (hodd : d % 2 = 1) (hsq : Squarefree d) (hbits : d.natAbs < 2 ^ dBits)
    (hd : dBits ≤ BQFC_MAX_D_BITS) :
    (CofactorFits dBits f → (bqfcSerialize out f.a f.b dBits).length = BQFC_FORM_SIZE ∧
      bqfcDeserialize out' d (bqfcSerialize out f.a f.b dBits) BQFC_FORM_SIZE dBits =
        some (f.a, f.b)) ∧
    (4 * f.a.natAbs ≤ 256 ^ (2 * ((dBits + 31) / 32)) → CofactorFits dBits f) := by
  refine ⟨fun hfit => ⟨length_serialize hlen hf hr hodd hsq hbits hd hfit,
    deserialize_serialize hlen hlen' hf hr hodd hsq hbits hd hfit⟩, fun hlow => ?_⟩
  by_cases hne : f.a = f.b
  · have ht : (bqfcCompr f.a f.b).t = 0 := by
      unfold bqfcCompr
      rw [if_pos hne]
    unfold CofactorFits
    rw [ht]
    exact Nat.pow_pos (by decide)
  · exact fits_cofactor hf hr hodd hne hlow

theorem bqfc_roundtrip_five :
    (bqfcSerialize (List.replicate BQFC_FORM_SIZE 0) 5 3 8).length = BQFC_FORM_SIZE ∧
      bqfcDeserialize (List.replicate BQFC_FORM_SIZE 0) (-151)
        (bqfcSerialize (List.replicate BQFC_FORM_SIZE 0) 5 3 8) BQFC_FORM_SIZE 8 = some (5, 3) := by
  have hsq : Squarefree (-151 : Int) := by
    rw [← Int.squarefree_natAbs]
    exact (Nat.prime_iff.1 (by norm_num)).squarefree
  obtain ⟨hround, hfits⟩ := @bqfc_roundtrip (-151) ⟨5, 3, 8⟩ 8 (List.replicate BQFC_FORM_SIZE 0)
    (List.replicate BQFC_FORM_SIZE 0) (by decide) (by decide) ⟨by decide, by decide⟩ (by decide)
    (by decide) hsq (by decide) (by decide)
  exact hround (hfits (by decide))

end Roundtrip

end Vdf
