import SuprMeow.Sampler.TopK

/-!
# The tail over the survivors

What the tail relies on is in `Arith.Ieee`: adding zero changes nothing, `exp(-inf)` is zero, and
the little of IEEE arithmetic that keeps a positive softmax sum at one or more.

* `survLogZ_eq`, `survSoftmax_eq`, `survCumulate_eq` — the loops over the survivors compute what
  the loops over the vocabulary do, when everything else is masked;
* `topPBlock_masked`, `nucleusProbs_zero` — the nucleus cut masks more and never less.
-/

set_option autoImplicit false

open Binary32
open MaskedFold (store store_store store_of_lt store_of_le store_congr foldl_filter_neutral)

namespace Sampler

section Laws

variable {D : Type}

/-- A double that does not compare with itself. -/
def Arith.nan (A : Arith D) (x : D) : Prop := A.ge x x = false

/-- What a sum that starts at zero can reach; `-0` is not among it. -/
inductive PartialSum {α : Type} (add : α → α → α) (zero : α) : α → Prop where
  | zero : PartialSum add zero zero
  | add {x : α} (h : PartialSum add zero x) (y : α) : PartialSum add zero (add x y)

/-- **What the tail relies on.** -/
structure Arith.Ieee (A : Arith D) : Prop where
  addF_zero : ∀ x, PartialSum A.addF 0#32 x → A.addF x 0#32 = x
  add_zero : ∀ x, PartialSum A.add A.zero x → A.add x A.zero = x
  exp_ninf : A.exp (A.toDouble ninf) = A.zero
  expF_ninf : A.expF ninf = 0#32
  toDouble_zero : A.toDouble 0#32 = A.zero
  ninf_sub : ∀ x, isNaN x = false → x ≠ ninf → A.subF ninf x = ninf
  sub_self : ∀ x, isFinite x = true → A.subF x x = 0#32
  sub_self_nan : ∀ x, isFinite x = false → isNaN (A.subF x x) = true
  nan_sub : ∀ x y, isNaN x = true → isNaN (A.subF x y) = true
  expF_zero : A.toDouble (A.expF 0#32) = A.one
  expF_nan : ∀ x, isNaN x = true → A.nan (A.toDouble (A.expF x))
  expF_nonneg : ∀ x, A.nan (A.toDouble (A.expF x)) ∨ A.ge (A.toDouble (A.expF x)) A.zero = true
  add_nan : ∀ x y, A.nan x ∨ A.nan y → A.nan (A.add x y)
  add_ge : ∀ x y, A.ge x A.zero = true → A.ge y A.zero = true →
    A.ge (A.add x y) x = true ∧ A.ge (A.add x y) y = true
  ge_trans : ∀ x y z, A.ge x y = true → A.ge y z = true → A.ge x z = true
  zero_ge : A.ge A.zero A.zero = true
  gt_nan : ∀ x, A.nan x → A.gt x A.zero = false
  gt_zero : A.gt A.zero A.zero = false
  mul_zero : ∀ x, A.ge x A.one = true → A.mulF 0#32 (A.toFloat (A.div A.one x)) = 0#32

end Laws

/-! ## Comparisons with minus infinity -/

theorem scaled_ninf : scaled ninf = -magnitude 0x7f800000 := by decide +kernel

theorem magnitude_le_of_not_nan {x : Pattern} (h : isNaN x = false) :
    magnitude (x.toNat % 2 ^ 31) ≤ magnitude 0x7f800000 := by
  rw [isNaN_eq, decide_eq_false_iff_not, Nat.not_lt] at h
  exact magnitude_strictMono.monotone h

/-- Nothing is below minus infinity. -/
theorem gt_ninf_left (x : Pattern) : gt ninf x = false := by
  cases h : isNaN x with
  | true => simp [gt, h]
  | false =>
    have hm := magnitude_le_of_not_nan h
    have hx := x.isLt
    have hge : scaled ninf ≤ scaled x := by
      rw [scaled_ninf]
      unfold scaled
      split
      · omega
      · rw [show x.toNat % 2 ^ 31 = x.toNat - 2 ^ 31 by omega] at hm
        omega
    rw [gt, decide_eq_false (not_lt.2 hge), Bool.and_false]

/-- Only minus infinity equals it. -/
theorem eq_ninf_iff {x : Pattern} : eq x ninf = true ↔ x = ninf := by
  constructor
  · intro h
    rw [eq, Bool.and_eq_true, Bool.and_eq_true, decide_eq_true_eq, scaled_ninf] at h
    have hx := x.isLt
    have hpos : 0 < magnitude 0x7f800000 := by
      rw [← magnitude_zero]
      exact magnitude_strictMono (by decide)
    have hmag := h.2
    unfold scaled at hmag
    split at hmag
    · omega
    · have hinj : x.toNat - 2 ^ 31 = 0x7f800000 := magnitude_strictMono.injective (by omega)
      refine BitVec.eq_of_toNat_eq ?_
      rw [show ninf.toNat = 0xff800000 from rfl]
      omega
  · rintro rfl
    decide +kernel

theorem not_eq_ninf {x : Pattern} (h : x ≠ ninf) : eq x ninf = false :=
  eq_false_of_ne_true fun he => h (eq_ninf_iff.1 he)

theorem fmax_ninf (m : Pattern) : fmax m ninf = m := by
  rw [fmax, gt_ninf_left, if_neg (by decide)]

section Max

variable {logits : Nat → Pattern}

/-- What the maximum is over the ids of a list. -/
structure IsMax (logits : Nat → Pattern) (ids : List Nat) (m : Pattern) : Prop where
  notNan : isNaN m = false
  attained : m = ninf ∨ ∃ i ∈ ids, logits i = m
  ninf : m = ninf → ∀ i ∈ ids, logits i = ninf ∨ isNaN (logits i) = true

theorem gt_not_nan {a b : Pattern} (h : gt a b = true) : isNaN a = false := by
  rw [gt, Bool.and_eq_true, Bool.and_eq_true, Bool.not_eq_true'] at h
  exact h.1.1

/-- Whatever compares is above minus infinity. -/
theorem gt_ninf {x : Pattern} (hnan : isNaN x = false) (hne : x ≠ ninf) : gt x ninf = true := by
  have hle : scaled ninf ≤ scaled x := by
    have h := gt_ninf_left x
    rw [gt, hnan, show isNaN ninf = false by decide, Bool.not_false, Bool.true_and, Bool.true_and,
      decide_eq_false_iff_not] at h
    exact not_lt.1 h
  have hne' : scaled x ≠ scaled ninf := fun he =>
    hne (eq_ninf_iff.1 (by rw [eq, hnan, show isNaN ninf = false by decide, he]; simp))
  rw [gt, hnan, show isNaN ninf = false by decide, Bool.not_false, Bool.true_and, Bool.true_and,
    decide_eq_true_eq]
  omega

theorem survMax_isMax (ids : List Nat) : IsMax logits ids (survMax ids logits) := by
  have hstep : ∀ (l : List Nat) (m : Pattern), isNaN m = false →
      isNaN (l.foldl (fun m i => fmax m (logits i)) m) = false ∧
      (l.foldl (fun m i => fmax m (logits i)) m = m ∨
        ∃ i ∈ l, logits i = l.foldl (fun m i => fmax m (logits i)) m) ∧
      (l.foldl (fun m i => fmax m (logits i)) m = ninf →
        m = ninf ∧ ∀ i ∈ l, logits i = ninf ∨ isNaN (logits i) = true) := by
    intro l
    induction l with
    | nil => exact fun m hm => ⟨hm, .inl rfl, fun h => ⟨h, fun _ hi => nomatch hi⟩⟩
    | cons a l ih =>
      intro m hm
      rw [List.foldl_cons]
      by_cases hgt : gt (logits a) m = true
      · -- the head takes over, so the fold is never minus infinity
        have hmax : fmax m (logits a) = logits a := if_pos hgt
        obtain ⟨h1, h2, h3⟩ := ih (logits a) (gt_not_nan hgt)
        rw [hmax]
        refine ⟨h1, .inr ?_, fun h => ?_⟩
        · rcases h2 with h2 | ⟨i, hi, h2⟩
          · exact ⟨a, List.mem_cons_self, h2.symm⟩
          · exact ⟨i, List.mem_cons_of_mem _ hi, h2⟩
        · rw [(h3 h).1, gt_ninf_left] at hgt
          cases hgt
      · have hmax : fmax m (logits a) = m := if_neg hgt
        obtain ⟨h1, h2, h3⟩ := ih m hm
        rw [hmax]
        refine ⟨h1, h2.imp_right fun ⟨i, hi, h⟩ => ⟨i, List.mem_cons_of_mem _ hi, h⟩, fun h => ?_⟩
        obtain ⟨rfl, hl⟩ := h3 h
        refine ⟨rfl, fun i hi => ?_⟩
        rcases List.mem_cons.1 hi with rfl | hi
        · by_cases hne : logits i = ninf
          · exact .inl hne
          · exact .inr (eq_true_of_ne_false fun hn => hgt (gt_ninf hn hne))
        · exact hl i hi
  obtain ⟨h1, h2, h3⟩ := hstep ids ninf (by decide)
  exact ⟨h1, h2, fun h => (h3 h).2⟩

end Max

/-! ## Sums and maxima over the survivors -/

section Tail

variable {D : Type} {A : Arith D} (hA : A.Ieee) {n : Nat} {p : Nat → Bool}
  {logits : Nat → Pattern} (hmask : ∀ i < n, p i = false → logits i = ninf)
include hmask

/-- The maximum over the survivors is the maximum over the vocabulary. -/
theorem survMax_eq : survMax ((List.range n).filter p) logits = maxKept n logits := by
  rw [survMax, @foldl_filter_neutral _ _ (fun _ => True) _ p (List.range n)
    (fun _ _ _ _ => trivial) (fun m i hi _ hp => by
      rw [hmask i (List.mem_range.1 hi) hp, fmax_ninf]) ninf trivial, maxKept]
  refine MaskedFold.foldl_congr_mem (fun m i _ => ?_) _
  by_cases h : logits i = ninf
  · rw [h, fmax_ninf, ite_self]
  · rw [not_eq_ninf h, Bool.not_false, if_pos rfl]

include hA

/-- Terms that masked ids leave at zero add up the same over the survivors and, with the masked
ids skipped, over the vocabulary. -/
theorem sum_survivors {t : Nat → D} (ht : ∀ i, logits i = ninf → t i = A.zero) :
    ((List.range n).filter p).foldl (fun s i => A.add s (t i)) A.zero =
      (List.range n).foldl (fun s i => if eq (logits i) ninf then s else A.add s (t i)) A.zero := by
  have hkeep : ∀ s, PartialSum A.add A.zero s →
      ∀ i, logits i = ninf → A.add s (t i) = s := fun s hs i hi => by
    rw [ht i hi, hA.add_zero s hs]
  rw [foldl_filter_neutral (fun s i _ hs => PartialSum.add hs (t i))
    (fun s i hi hs hp => hkeep s hs i (hmask i (List.mem_range.1 hi) hp)) _ .zero]
  -- over the whole range, a masked term may be added or skipped
  have hrange : ∀ (l : List Nat) (s : D), PartialSum A.add A.zero s →
      l.foldl (fun s i => A.add s (t i)) s =
        l.foldl (fun s i => if eq (logits i) ninf then s else A.add s (t i)) s := by
    intro l
    induction l with
    | nil => intro s _; rfl
    | cons i l ih =>
      intro s hs
      rw [List.foldl_cons, List.foldl_cons]
      by_cases hi : logits i = ninf
      · rw [hkeep s hs i hi, eq_ninf_iff.2 hi, if_pos rfl]
        exact ih s hs
      · rw [not_eq_ninf hi, if_neg (by decide)]
        exact ih _ (hs.add _)
  exact hrange _ _ .zero

/-- **`log_Z` over the survivors is `log_Z` over the vocabulary.** -/
theorem survLogZ_eq : survLogZ A ((List.range n).filter p) logits = logZ A n logits := by
  have hmax := @survMax_isMax logits ((List.range n).filter p)
  rw [survLogZ, logZ, survMax_eq hmask] at *
  dsimp only
  by_cases hm : maxKept n logits = ninf
  · rw [eq_ninf_iff.2 hm, Bool.not_true, if_neg (by decide), if_neg (by decide)]
  · have hterm : ∀ i, logits i = ninf →
        A.exp (A.toDouble (A.subF (logits i) (maxKept n logits))) = A.zero := fun i hi => by
      rw [hi, hA.ninf_sub _ hmax.notNan hm, hA.exp_ninf]
    rw [not_eq_ninf hm, Bool.not_false, if_pos rfl, if_pos rfl, sum_survivors hA hmask hterm]
    congr 4
    funext s i
    cases eq (logits i) ninf <;> rfl

end Tail

/-! ## Sums of exponentials -/

section Exponentials

variable {D : Type} {A : Arith D} (hA : A.Ieee)
include hA

theorem sum_nan_of_nan {t : Nat → D} (l : List Nat) {s : D} (hs : A.nan s) :
    A.nan (l.foldl (fun s i => A.add s (t i)) s) :=
  MaskedFold.foldl_keeps (P := A.nan) (fun s i _ h => hA.add_nan s (t i) (.inl h)) s hs

/-- **A sum of exponentials that is a number is at least each of its terms.** -/
theorem sum_ge {t : Nat → D} (l : List Nat)
    (ht : ∀ i, A.nan (t i) ∨ A.ge (t i) A.zero = true) :
    ∀ s, A.ge s A.zero = true → A.nan (l.foldl (fun s i => A.add s (t i)) s) ∨
      (∀ y, A.ge s y = true → A.ge (l.foldl (fun s i => A.add s (t i)) s) y = true) ∧
        ∀ i ∈ l, A.ge (l.foldl (fun s i => A.add s (t i)) s) (t i) = true := by
  induction l with
  | nil => exact fun s _ => .inr ⟨fun _ h => h, fun _ hi => nomatch hi⟩
  | cons a l ih =>
    intro s hs
    rw [List.foldl_cons]
    rcases ht a with hnan | hpos
    · exact .inl (sum_nan_of_nan hA l (hA.add_nan _ _ (.inr hnan)))
    · obtain ⟨h1, h2⟩ := hA.add_ge s (t a) hs hpos
      rcases ih _ (hA.ge_trans _ _ _ h1 hs) with hnan | ⟨hge, hmem⟩
      · exact .inl hnan
      · refine .inr ⟨fun y hy => hge y (hA.ge_trans _ _ _ h1 hy), fun i hi => ?_⟩
        rcases List.mem_cons.1 hi with rfl | hi
        · exact hge _ h2
        · exact hmem i hi

theorem sum_nan_of_mem {t : Nat → D} {l : List Nat} {i : Nat} (hi : i ∈ l) (ht : A.nan (t i)) :
    ∀ s, A.nan (l.foldl (fun s i => A.add s (t i)) s) := by
  induction l with
  | nil => cases hi
  | cons a l ih =>
    intro s
    rw [List.foldl_cons]
    rcases List.mem_cons.1 hi with rfl | hi
    · exact sum_nan_of_nan hA l (hA.add_nan _ _ (.inr ht))
    · exact ih hi _

/-- When every term is not a number the sum is not positive. -/
theorem sum_not_pos {t : Nat → D} {f : D → Nat → D} {l : List Nat}
    (hf : ∀ s, ∀ i ∈ l, f s i = s ∨ f s i = A.add s (t i) ∧ A.nan (t i)) :
    A.gt (l.foldl f A.zero) A.zero = false := by
  have hkeep : l.foldl f A.zero = A.zero ∨ A.nan (l.foldl f A.zero) :=
    MaskedFold.foldl_keeps (P := fun s => s = A.zero ∨ A.nan s) (fun s i hi hs => by
      rcases hf s i hi with h | ⟨h, hnan⟩
      · rwa [h]
      · rw [h]
        exact .inr (hA.add_nan _ _ (.inr hnan))) _ (.inl rfl)
  rcases hkeep with h | h
  · rw [h, hA.gt_zero]
  · exact hA.gt_nan _ h

/-- A positive sum holds the term of the maximum, so it is at least one. -/
theorem one_le_sum {logits : Nat → Pattern} {ids : List Nat} {m : Pattern}
    (hmax : IsMax logits ids m) (hm : m ≠ ninf)
    (hpos : A.gt (ids.foldl (fun s i =>
      A.add s (A.toDouble (A.expF (A.subF (logits i) m)))) A.zero) A.zero = true) :
    A.ge (ids.foldl (fun s i =>
      A.add s (A.toDouble (A.expF (A.subF (logits i) m)))) A.zero) A.one = true := by
  obtain ⟨i, hi, hat⟩ := hmax.attained.resolve_left hm
  have hnot : ¬ A.nan (ids.foldl (fun s i =>
      A.add s (A.toDouble (A.expF (A.subF (logits i) m)))) A.zero) := fun h => by
    rw [hA.gt_nan _ h] at hpos
    cases hpos
  by_cases hfin : isFinite m = true
  · have hge := ((sum_ge hA ids (fun i => hA.expF_nonneg _) A.zero hA.zero_ge).resolve_left
      hnot).2 i hi
    rwa [hat, hA.sub_self m hfin, hA.expF_zero] at hge
  · refine absurd (sum_nan_of_mem hA hi ?_ A.zero) hnot
    rw [hat]
    exact hA.expF_nan _ (hA.sub_self_nan m (eq_false_of_ne_true hfin))

end Exponentials

/-! ## Probabilities -/

section Softmax

variable {D : Type} {A : Arith D}

/-- What the survivor softmax leaves: zero off the list. -/
theorem survSoftmax_apply {n : Nat} {ids : List Nat} (hnd : ids.Nodup) (hids : ∀ i ∈ ids, i < n)
    (logits probs : Nat → Pattern) :
    let e := fun i => A.expF (A.subF (logits i) (survMax ids logits))
    let Z := ids.foldl (fun Z i => A.add Z (A.toDouble (e i))) A.zero
    survSoftmax A n ids logits probs = store n (fun i =>
      if A.gt Z A.zero = true ∧ i ∈ ids then A.mulF (e i) (A.toFloat (A.div A.one Z))
      else 0#32) probs := by
  intro e Z
  have hset := @MaskedFold.foldl_update_eq Pattern e ids (store n (fun _ => 0#32) probs)
  have hscale := @MaskedFold.foldl_modify_eq Pattern
    (fun x => A.mulF x (A.toFloat (A.div A.one Z))) ids hnd
    (fun i => if i ∈ ids then e i else store n (fun _ => 0#32) probs i)
  unfold survSoftmax
  dsimp only
  rw [hset]
  by_cases hZ : A.gt Z A.zero = true
  · rw [if_pos hZ, hscale]
    funext i
    by_cases hi : i ∈ ids
    · rw [if_pos hi, if_pos hi, store_of_lt _ _ (hids i hi), if_pos ⟨hZ, hi⟩]
    · rw [if_neg hi, if_neg hi]
      by_cases hin : i < n
      · rw [store_of_lt _ _ hin, store_of_lt _ _ hin, if_neg fun h => hi h.2]
      · rw [store_of_le _ _ (Nat.not_lt.1 hin), store_of_le _ _ (Nat.not_lt.1 hin)]
  · rw [if_neg hZ]
    funext i
    by_cases hin : i < n
    · rw [store_of_lt _ _ hin, store_of_lt _ _ hin, if_neg fun h => hZ h.1]
    · rw [store_of_le _ _ (Nat.not_lt.1 hin), store_of_le _ _ (Nat.not_lt.1 hin),
        if_neg fun h => hin (hids i h), store_of_le _ _ (Nat.not_lt.1 hin)]

variable (hA : A.Ieee) {n : Nat} {p : Nat → Bool} {logits : Nat → Pattern}
  (hmask : ∀ i < n, p i = false → logits i = ninf)
include hA hmask

/-- **The softmax over the survivors is the softmax over the vocabulary.** -/
theorem survSoftmax_eq (probs : Nat → Pattern) :
    survSoftmax A n ((List.range n).filter p) logits probs = softmax A n logits probs := by
  have hmax := @survMax_isMax logits ((List.range n).filter p)
  have hids : ∀ i ∈ (List.range n).filter p, i < n := fun i hi =>
    List.mem_range.1 (List.mem_filter.1 hi).1
  rw [survSoftmax_apply (List.nodup_range.filter _) hids, softmax]
  rw [survMax_eq hmask] at hmax ⊢
  dsimp only
  by_cases hm : maxKept n logits = ninf
  · -- nothing compares: no sum is positive
    have hnan : ∀ i ∈ (List.range n).filter p,
        A.nan (A.toDouble (A.expF (A.subF (logits i) (maxKept n logits)))) := fun i hi => by
      refine hA.expF_nan _ ?_
      rcases hmax.ninf hm i hi with h | h
      · rw [h, hm]
        exact hA.sub_self_nan ninf (by decide)
      · exact hA.nan_sub _ _ h
    rw [sum_not_pos hA (l := (List.range n).filter p) fun s i hi => .inr ⟨rfl, hnan i hi⟩,
      sum_not_pos hA (l := List.range n)
        (t := fun i => A.toDouble (A.expF (A.subF (logits i) (maxKept n logits))))]
    · rw [if_neg (by decide), store_store]
      exact store_congr (fun i _ => if_neg fun h => by cases h.1) probs
    · intro s i hi
      by_cases h : logits i = ninf
      · exact .inl (if_pos (eq_ninf_iff.2 h))
      · refine .inr ⟨if_neg (by rw [not_eq_ninf h]; decide), hnan i (List.mem_filter.2 ⟨hi, ?_⟩)⟩
        exact eq_true_of_ne_false fun hp => h (hmask i (List.mem_range.1 hi) hp)
  · have hzero : ∀ i, logits i = ninf → A.expF (A.subF (logits i) (maxKept n logits)) = 0#32 :=
      fun i hi => by rw [hi, hA.ninf_sub _ hmax.notNan hm, hA.expF_ninf]
    have hone := one_le_sum hA hmax hm
    rw [sum_survivors hA hmask (t := fun i => A.toDouble (A.expF (A.subF (logits i)
      (maxKept n logits)))) fun i hi => by rw [hzero i hi, hA.toDouble_zero]] at hone ⊢
    split
    · rename_i hpos
      rw [store_store]
      refine store_congr (fun i hi => ?_) probs
      rw [store_of_lt _ _ hi]
      by_cases hinf : logits i = ninf
      · rw [eq_ninf_iff.2 hinf, if_pos rfl, hA.mul_zero _ (hone hpos), hzero i hinf,
          ite_eq_right_iff]
        exact fun _ => hA.mul_zero _ (hone hpos)
      · have hp : p i = true := eq_true_of_ne_false fun hp => hinf (hmask i hi hp)
        rw [if_pos ⟨hpos, List.mem_filter.2 ⟨List.mem_range.2 hi, hp⟩⟩, not_eq_ninf hinf,
          if_neg Bool.false_ne_true]
    · rename_i hpos
      rw [store_store]
      exact store_congr (fun i _ => if_neg fun h => hpos h.1) probs

/-- Off the survivors the softmax is zero. -/
theorem softmax_zero (probs : Nat → Pattern) {i : Nat} (hi : i < n) (hp : p i = false) :
    softmax A n logits probs i = 0#32 := by
  rw [← survSoftmax_eq hA hmask, survSoftmax_apply (List.nodup_range.filter _)
    (fun i hi => List.mem_range.1 (List.mem_filter.1 hi).1), store_of_lt _ _ hi]
  refine if_neg fun h => ?_
  rw [(List.mem_filter.1 h.2).2] at hp
  cases hp

end Softmax

/-! ## The nucleus cut -/

section Nucleus

variable {D : Type} (A : Arith D) (n : Nat)

/-- The cut only masks. -/
theorem topPBlock_masked (c : Pattern) (keep : Nat → Bool) (logits candExp : Nat → Pattern)
    {i : Nat} (hi : logits i = ninf) : (topPBlock A n c keep logits candExp).logits i = ninf :=
  MaskedFold.foldl_keeps (P := fun v : Nat → Pattern => v i = ninf) (fun v j _ hv => by
    by_cases hj : i = j
    · rw [hj, Function.update_self]
    · rw [Function.update_of_ne hj, hv]) _ hi

theorem topPBlock_dropped (c : Pattern) (keep : Nat → Bool) (logits candExp : Nat → Pattern)
    {i : Nat} (hi : keep i = false) : (topPBlock A n c keep logits candExp).keep i = false :=
  MaskedFold.foldl_keeps (P := fun v : Nat → Bool => v i = false) (fun v j _ hv => by
    by_cases hj : i = j
    · rw [hj, Function.update_self]
    · rw [Function.update_of_ne hj, hv]) _ hi

/-- Dropped ids have probability zero. -/
theorem nucleusProbs_zero {t : Nucleus (D := D)} (probs : Nat → Pattern) {i : Nat} (hi : i < n)
    (hkeep : t.keep i = false) : nucleusProbs A n t probs i = 0#32 := by
  unfold nucleusProbs
  split
  · refine MaskedFold.foldl_keeps (P := fun v : Nat → Pattern => v i = 0#32) (fun v x _ hv => ?_) _
      (store_of_lt _ _ hi)
    split
    · rename_i hx
      by_cases hix : i = x.1
      · rw [← hix, hkeep] at hx
        cases hx
      · rw [Function.update_of_ne hix, hv]
    · exact hv
  · rw [store_of_lt _ _ hi, hkeep, if_neg (by decide)]

/-- What the vector held below `n` does not matter. -/
theorem nucleusProbs_store (t : Nucleus (D := D)) (f probs : Nat → Pattern) :
    nucleusProbs A n t (store n f probs) = nucleusProbs A n t probs := by
  simp only [nucleusProbs, store_store]

theorem softmax_store (logits f probs : Nat → Pattern) :
    softmax A n logits (store n f probs) = softmax A n logits probs := by
  simp only [softmax, store_store]

end Nucleus

/-! ## The CDF -/

section Cdf

variable {D : Type} {A : Arith D}

theorem cumulate_eq (n : Nat) (probs cdf : Nat → Pattern) :
    cumulate A n probs cdf =
      store n (MaskedFold.prefixFold (fun c i => A.addF c (probs i)) 0#32) cdf := by
  rw [cumulate, MaskedFold.scan_eq (fun c i => A.addF c (probs i))]

theorem cumulate_store (n : Nat) (probs f cdf : Nat → Pattern) :
    cumulate A n probs (store n f cdf) = cumulate A n probs cdf := by
  rw [cumulate_eq, cumulate_eq, store_store]

/-- **The constant runs are the running sum when everything off the survivors is zero.** -/
theorem survCumulate_eq (hA : A.Ieee) {n : Nat} {p : Nat → Bool} {probs : Nat → Pattern}
    (hzero : ∀ i < n, p i = false → probs i = 0#32) (cdf : Nat → Pattern) :
    survCumulate A n ((List.range n).filter p) probs cdf = cumulate A n probs cdf := by
  have hruns := MaskedFold.runs_eq (P := PartialSum A.addF 0#32)
    (f := fun c i => A.addF c (probs i)) (p := p) (n := n) .zero
    (fun c i _ hc => hc.add (probs i))
    (fun c i hi hc hp => by rw [hzero i hi hp, hA.addF_zero c hc]) cdf
    ((List.range n).filter p) 0 (Nat.zero_le n)
    (List.pairwise_lt_range.sublist List.filter_sublist)
    (fun i => by rw [List.mem_filter, List.mem_range]; simp)
  rw [cumulate_eq]
  exact hruns.2

end Cdf

end Sampler
