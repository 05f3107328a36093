import Mathlib.Data.List.TakeWhile
import SuprMeow.Library.Positional

/-!
# Decimal numerals

As the C library reads them: white space, a sign, digits; what comes behind the digits is left.
And as they are printed: a number ends at the first character that is no digit, so that text made
of numbers and separators is read back piece by piece.

* `read_numeral` — a string of digits is its number;
* `stoi_numeral` — `std::stoi` throws on the numerals that are too large;
* `toString_append_inj` — a printed number, and the text behind it, from the whole.
-/

set_option autoImplicit false

namespace Decimal

/-- `std::isspace` in the C locale. -/
def isSpace (b : UInt8) : Bool := b == 32 || (9 ≤ b && b ≤ 13)

def isDigit (b : UInt8) : Bool := 48 ≤ b && b ≤ 57

def digit (b : UInt8) : Nat := b.toNat - 48

/-- The number a string of digits writes. -/
def number (s : List UInt8) : Nat := Positional.value 10 (s.map digit)

/-- At least one digit and nothing else. -/
def IsNumeral (s : List UInt8) : Prop := s ≠ [] ∧ ∀ b ∈ s, isDigit b = true

instance (s : List UInt8) : Decidable (IsNumeral s) := inferInstanceAs (Decidable (_ ∧ _))

/-- Whether a minus sign comes first, and what is behind the sign. -/
def sign : List UInt8 → Bool × List UInt8
  | [] => (false, [])
  | b :: s => if b = 45 then (true, s) else if b = 43 then (false, s) else (false, b :: s)

/-- The number and what is left; `none` when there is no digit. -/
def read (s : List UInt8) : Option (Int × List UInt8) :=
  let r := sign (s.dropWhile isSpace)
  let ds := r.2.takeWhile isDigit
  if ds = [] then none
  else some (if r.1 then -(number ds : Int) else number ds, r.2.dropWhile isDigit)

/-- `std::stoi`; `none` when it throws. -/
def stoi (s : List UInt8) : Option Int :=
  match read s with
  | none => none
  | some (n, _) => if -2 ^ 31 ≤ n ∧ n < 2 ^ 31 then some n else none

/-! ## Digits -/

theorem isDigit_iff (b : UInt8) : isDigit b = true ↔ 48 ≤ b.toNat ∧ b.toNat ≤ 57 := by
  simp [isDigit, UInt8.le_iff_toNat_le]

theorem isSpace_iff (b : UInt8) : isSpace b ↔ b.toNat = 32 ∨ 9 ≤ b.toNat ∧ b.toNat ≤ 13 := by
  simp [isSpace, UInt8.le_iff_toNat_le, ← UInt8.toNat_inj]

theorem isSpace_of_isDigit {b : UInt8} (h : isDigit b = true) : isSpace b = false := by
  have hb := (isDigit_iff b).1 h
  apply eq_false_of_ne_true
  intro hs
  have := (isSpace_iff b).1 hs
  omega

theorem isDigit_ne {b c : UInt8} (h : isDigit b = true) (hc : isDigit c = false) : b ≠ c := by
  rintro rfl
  rw [h] at hc
  cases hc

theorem all_isDigit_eq_false {s : List UInt8} :
    s.all isDigit = false ↔ ¬∀ b ∈ s, isDigit b = true := by
  rw [← Bool.not_eq_true, List.all_eq_true]

/-! ## Numerals -/

/-- **A numeral reads as its number, with nothing left.** -/
theorem read_numeral {s : List UInt8} (h : IsNumeral s) :
    read s = some ((number s : Int), []) := by
  obtain ⟨hne, hall⟩ := h
  cases s with
  | nil => exact absurd rfl hne
  | cons b s =>
    have hb := hall b List.mem_cons_self
    have hdrop : (b :: s).dropWhile isSpace = b :: s :=
      List.dropWhile_cons_of_neg (by simp [isSpace_of_isDigit hb])
    have hsign : sign (b :: s) = (false, b :: s) :=
      (if_neg (isDigit_ne hb rfl)).trans (if_neg (isDigit_ne hb rfl))
    have htake : (b :: s).takeWhile isDigit = b :: s := List.takeWhile_eq_self_iff.2 hall
    have hrest : (b :: s).dropWhile isDigit = [] := List.dropWhile_eq_nil_iff.2 hall
    unfold read
    rw [hdrop, hsign]
    dsimp only
    rw [htake, hrest, if_neg (List.cons_ne_nil b s)]
    rfl

theorem stoi_numeral {s : List UInt8} (h : IsNumeral s) :
    stoi s = if number s < 2 ^ 31 then some (number s : Int) else none := by
  unfold stoi
  rw [read_numeral h]
  dsimp only
  split_ifs <;> first | rfl | omega

/-! ## Printed numbers -/

/-- The part before the first element that fails `p` is determined by the whole. -/
theorem append_cons_inj {α : Type} {p : α → Bool} {xs ys as bs : List α} {a b : α}
    (hxs : ∀ x ∈ xs, p x = true) (hys : ∀ y ∈ ys, p y = true) (ha : p a = false)
    (hb : p b = false) (h : xs ++ a :: as = ys ++ b :: bs) : xs = ys ∧ a = b ∧ as = bs := by
  have htake := congrArg (List.takeWhile p) h
  rw [List.takeWhile_append_of_pos hxs, List.takeWhile_append_of_pos hys,
    List.takeWhile_cons_of_neg (by rw [ha]; decide),
    List.takeWhile_cons_of_neg (by rw [hb]; decide), List.append_nil, List.append_nil] at htake
  subst htake
  have hrest := List.append_cancel_left h
  exact ⟨rfl, List.head_eq_of_cons_eq hrest, List.tail_eq_of_cons_eq hrest⟩

theorem toList_toString (n : Nat) : (toString n).toList = Nat.toDigits 10 n := by
  rw [Nat.toString_eq_repr, Nat.toList_repr]

theorem toList_toString_inj {m n : Nat} (h : (toString m).toList = (toString n).toList) :
    m = n := by
  rw [toList_toString, toList_toString] at h
  have hvalue := congrArg (fun ds => Nat.ofDigitChars 10 ds 0) h
  simpa only [Nat.ofDigitChars_ten_toDigits] using hvalue

theorem isDigit_toString {n : Nat} {c : Char} (h : c ∈ (toString n).toList) :
    c.isDigit = true := by
  rw [toList_toString] at h
  exact Nat.isDigit_of_mem_toDigits (by decide) (by decide) h

/-- **What is printed before a separator is read back.** -/
theorem toString_append_inj {m n : Nat} {c d : Char} {as bs : List Char}
    (hc : c.isDigit = false) (hd : d.isDigit = false)
    (h : (toString m).toList ++ c :: as = (toString n).toList ++ d :: bs) :
    m = n ∧ c = d ∧ as = bs := by
  obtain ⟨hnum, hsep, hrest⟩ :=
    append_cons_inj (fun _ => isDigit_toString) (fun _ => isDigit_toString) hc hd h
  exact ⟨toList_toString_inj hnum, hsep, hrest⟩

end Decimal
