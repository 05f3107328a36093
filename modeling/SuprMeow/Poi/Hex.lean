import SuprMeow.Library.Decimal
import SuprMeow.Library.Pairs
import SuprMeow.Stratum.Messages

/-!
# Hexadecimal strings

Both decoders hand every two characters to `std::stoul` in base 16, which reads as many digits as
it finds behind white space, a sign and a prefix, and throws only when it finds none.  `poi.cpp`
stops before an odd last character, `pow_utils.cpp` reads it by itself.

* `stoul_pair_isSome_iff` — the pairs `stoul` reads;
* `PowUtils.hexToBytes_isSome_iff` — the strings the decoders read;
* `PowUtils.hexToBytes_of_digits` — what they make of hexadecimal digits;
* `hexToBytes_eq` — on strings of even length the two are one.
-/

set_option autoImplicit false

open Decimal (isSpace isSpace_iff sign)
open Stratum (Bytes isHexDigit)

namespace Poi

/-! ## `std::stoul` -/

/-- The value of a digit. -/
def digitValue (b : UInt8) : Nat :=
  if b ≤ 57 then b.toNat - 48 else if b ≤ 70 then b.toNat - 55 else b.toNat - 87

/-- `0x` is a prefix only when a digit follows. -/
def dropPrefix : Bytes → Bytes
  | z :: x :: d :: s =>
    if z = 48 ∧ (x = 120 ∨ x = 88) ∧ isHexDigit d then d :: s else z :: x :: d :: s
  | s => s

/-- The number of a run of digits. -/
def numeral (ds : Bytes) : Nat := ds.foldl (fun n d => 16 * n + digitValue d) 0

/-- `std::stoul(s, nullptr, 16)`; `none` when it throws.  A negative number wraps around. -/
def stoul (s : Bytes) : Option Nat :=
  let r := sign (s.dropWhile isSpace)
  let ds := (dropPrefix r.2).takeWhile isHexDigit
  let n := numeral ds
  if ds = [] ∨ 2 ^ 64 ≤ n then none
  else some (if r.1 then (2 ^ 64 - n) % 2 ^ 64 else n)

/-- Two characters `stoul` finds a digit in: one that starts with a digit, or a digit behind white
space or a sign. -/
def ReadablePair (a b : UInt8) : Prop :=
  isHexDigit a ∨ (isSpace a ∨ a = 45 ∨ a = 43) ∧ isHexDigit b

instance (a b : UInt8) : Decidable (ReadablePair a b) := inferInstanceAs (Decidable (_ ∨ _))

/-- Every two characters of a string are readable, an odd last one is a digit. -/
def Readable (s : Bytes) : Prop := Pairs.All ReadablePair (fun a => isHexDigit a) s

instance (s : Bytes) : Decidable (Readable s) := Pairs.decidableAll s

theorem isHexDigit_iff (b : UInt8) : isHexDigit b ↔
    48 ≤ b.toNat ∧ b.toNat ≤ 57 ∨ 97 ≤ b.toNat ∧ b.toNat ≤ 102 ∨ 65 ≤ b.toNat ∧ b.toNat ≤ 70 := by
  simp [isHexDigit, UInt8.le_iff_toNat_le, or_assoc]

theorem digitValue_lt {b : UInt8} (h : isHexDigit b) : digitValue b < 16 := by
  have hb := (isHexDigit_iff b).1 h
  simp only [digitValue, UInt8.le_iff_toNat_le]
  change (if b.toNat ≤ 57 then _ else if b.toNat ≤ 70 then _ else _) < 16
  split
  · omega
  · split <;> omega

theorem ne_of_isHexDigit {b c : UInt8} (h : isHexDigit b) (hc : isHexDigit c = false) : b ≠ c := by
  rintro rfl
  exact Bool.false_ne_true (hc.symm.trans h)

theorem isSpace_of_isHexDigit {b : UInt8} (h : isHexDigit b) : isSpace b = false := by
  have hb := (isHexDigit_iff b).1 h
  apply eq_false_of_ne_true
  intro hs
  have hs := (isSpace_iff b).1 hs
  omega

theorem sign_of_isHexDigit {b : UInt8} (h : isHexDigit b) (s : Bytes) :
    sign (b :: s) = (false, b :: s) :=
  (if_neg (ne_of_isHexDigit h rfl)).trans (if_neg (ne_of_isHexDigit h rfl))

theorem foldl_digits_lt {ds : Bytes} (h : ∀ d ∈ ds, isHexDigit d) (n : Nat) :
    ds.foldl (fun n d => 16 * n + digitValue d) n < (n + 1) * 16 ^ ds.length := by
  induction ds generalizing n with
  | nil => simp
  | cons d ds ih =>
    have hd := digitValue_lt (h d (by simp))
    have hle : 16 * n + digitValue d + 1 ≤ (n + 1) * 16 := by omega
    refine lt_of_lt_of_le (ih (fun e he => h e (by simp [he])) _) ?_
    rw [List.length_cons, Nat.pow_succ', ← Nat.mul_assoc]
    exact Nat.mul_le_mul_right _ hle

/-- On two characters no prefix counts and no number is too large. -/
theorem stoul_eq {s t : Bytes} {neg : Bool} (hs : sign (s.dropWhile isSpace) = (neg, t))
    (ht : t.length ≤ 2) :
    stoul s =
      if t.takeWhile isHexDigit = [] then none
      else
        let n := numeral (t.takeWhile isHexDigit)
        some (if neg then (2 ^ 64 - n) % 2 ^ 64 else n) := by
  have hdrop : dropPrefix t = t := by
    rcases t with _ | ⟨a, _ | ⟨b, _ | ⟨c, t⟩⟩⟩
    · rfl
    · rfl
    · rfl
    · simp at ht
  have hlt : numeral (t.takeWhile isHexDigit) < 2 ^ 64 := by
    have hlen := (List.takeWhile_prefix isHexDigit (l := t)).length_le
    have hpow : 16 ^ (t.takeWhile isHexDigit).length ≤ 16 ^ 2 :=
      Nat.pow_le_pow_right (by decide) (hlen.trans ht)
    have hn := foldl_digits_lt (List.all_eq_true.1 (List.all_takeWhile (l := t))) 0
    unfold numeral
    omega
  unfold stoul
  dsimp only
  rw [hs, hdrop]
  simp only [Nat.not_le.2 hlt, or_false]

/-- Behind white space and a sign `stoul` needs a digit. -/
theorem stoul_isSome_iff {s t : Bytes} {neg : Bool}
    (hs : sign (s.dropWhile isSpace) = (neg, t)) (ht : t.length ≤ 2) :
    (stoul s).isSome ↔ ∃ b, t.head? = some b ∧ isHexDigit b := by
  rw [stoul_eq hs ht]
  cases t with
  | nil => simp
  | cons b t =>
    cases hb : isHexDigit b with
    | true => simp [hb]
    | false => simp [hb]

theorem stoul_space {a : UInt8} (h : isSpace a) (s : Bytes) : stoul (a :: s) = stoul s := by
  unfold stoul
  rw [List.dropWhile_cons_of_pos h]

theorem stoul_sign_isSome_iff {a : UInt8} (h : a = 45 ∨ a = 43) {s : Bytes} (hs : s.length ≤ 2) :
    (stoul (a :: s)).isSome ↔ ∃ b, s.head? = some b ∧ isHexDigit b := by
  rcases h with rfl | rfl
  · exact @stoul_isSome_iff _ _ true rfl hs
  · exact @stoul_isSome_iff _ _ false rfl hs

/-- Anything else that comes first must be a digit. -/
theorem stoul_other_isSome_iff {a : UInt8} (hsp : ¬ isSpace a) (hsign : ¬ (a = 45 ∨ a = 43))
    {s : Bytes} (hs : s.length ≤ 1) : (stoul (a :: s)).isSome ↔ isHexDigit a := by
  have htake : sign ((a :: s).dropWhile isSpace) = (false, a :: s) := by
    rw [List.dropWhile_cons_of_neg hsp]
    exact (if_neg fun h => hsign (.inl h)).trans (if_neg fun h => hsign (.inr h))
  rw [stoul_isSome_iff htake (by simpa using hs)]
  simp

theorem stoul_single_isSome_iff (a : UInt8) : (stoul [a]).isSome ↔ isHexDigit a := by
  by_cases hsp : isSpace a
  · have hd : ¬ isHexDigit a := fun hd => by simp [isSpace_of_isHexDigit hd] at hsp
    rw [stoul_space hsp]
    exact iff_of_false (by decide) hd
  · by_cases hsign : a = 45 ∨ a = 43
    · have hd : ¬ isHexDigit a := by rcases hsign with rfl | rfl <;> decide
      rw [stoul_sign_isSome_iff hsign (by simp)]
      exact iff_of_false (by simp) hd
    · exact stoul_other_isSome_iff hsp hsign (by simp)

/-- **The pairs `stoul` reads.** -/
theorem stoul_pair_isSome_iff (a b : UInt8) : (stoul [a, b]).isSome ↔ ReadablePair a b := by
  unfold ReadablePair
  by_cases hsp : isSpace a
  · have hd : ¬ isHexDigit a := fun hd => by simp [isSpace_of_isHexDigit hd] at hsp
    rw [stoul_space hsp, stoul_single_isSome_iff]
    simp [hd, hsp]
  · by_cases hsign : a = 45 ∨ a = 43
    · have hd : ¬ isHexDigit a := by rcases hsign with rfl | rfl <;> decide
      rw [stoul_sign_isSome_iff hsign (by simp)]
      simp [hd, hsign]
    · rw [stoul_other_isSome_iff hsp hsign (by simp)]
      simp [hsp, hsign]

/-- On two digits `stoul` is the number they write. -/
theorem stoul_digits {a b : UInt8} (ha : isHexDigit a) (hb : isHexDigit b) :
    stoul [a, b] = some (16 * digitValue a + digitValue b) := by
  have hs : sign ([a, b].dropWhile isSpace) = (false, [a, b]) := by
    rw [List.dropWhile_cons_of_neg (by simp [isSpace_of_isHexDigit ha])]
    exact sign_of_isHexDigit ha [b]
  rw [stoul_eq hs (by simp)]
  simp [ha, hb, numeral]

/-! ## The two decoders -/

/-- `hex_to_bytes` of `poi.cpp`; `none` when it throws. -/
def hexToBytes (h : Bytes) : Option Bytes :=
  Pairs.traverse (fun a b => (stoul [a, b]).map UInt8.ofNat) (fun _ => some []) h

/-- `hex_to_bytes` of `pow_utils.cpp`. -/
def PowUtils.hexToBytes (h : Bytes) : Option Bytes :=
  Pairs.traverse (fun a b => (stoul [a, b]).map UInt8.ofNat)
    (fun a => (stoul [a]).map fun v => [UInt8.ofNat v]) h

/-- The bytes a string of hexadecimal digits writes. -/
def hexBytes (h : Bytes) : Bytes :=
  Pairs.map (fun a b => UInt8.ofNat (16 * digitValue a + digitValue b)) h

/-- A string of hexadecimal digits. -/
def AllHex (s : Bytes) : Prop := ∀ b ∈ s, isHexDigit b

instance (s : Bytes) : Decidable (AllHex s) := inferInstanceAs (Decidable (∀ b ∈ s, _))

/-- **What `pow_utils.cpp` reads.** -/
theorem PowUtils.hexToBytes_isSome_iff (s : Bytes) :
    (PowUtils.hexToBytes s).isSome ↔ Readable s := by
  unfold PowUtils.hexToBytes Readable
  rw [Pairs.traverse_isSome_iff]
  apply Pairs.All.congr
  · intro a b
    rw [Option.isSome_map, stoul_pair_isSome_iff]
  · intro a
    rw [Option.isSome_map, stoul_single_isSome_iff]

/-- Without an odd last character the two decoders are one. -/
theorem hexToBytes_eq {s : Bytes} (h : s.length % 2 = 0) :
    hexToBytes s = PowUtils.hexToBytes s :=
  Pairs.traverse_even _ h

theorem Readable.of_digits {s : Bytes} (h : AllHex s) : Readable s :=
  Pairs.all_of_mem (fun _ _ ha _ => .inl ha) (fun _ ha => ha) s h

/-- **On hexadecimal digits the decoders are right.** -/
theorem PowUtils.hexToBytes_of_digits {s : Bytes} (h : AllHex s) (hlen : s.length % 2 = 0) :
    PowUtils.hexToBytes s = some (hexBytes s) := by
  apply Pairs.traverse_eq_map hlen
  refine Pairs.all_of_mem (fun a b ha hb => ?_) (fun _ _ => trivial) s h
  rw [stoul_digits ha hb]
  rfl

end Poi
