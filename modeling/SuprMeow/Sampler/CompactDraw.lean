import SuprMeow.Sampler.CompactCdf

/-!
# The compact draw

The dense CDF is constant between survivors, so its search stops at survivors only, at the rank
where the compact search stops.  What the argument needs of rounding arithmetic beyond `Arith.Ieee`
is in `Arith.Rounding`: finite terms stay numbers that are not negative, a sum does not decrease,
and no operation recovers from a NaN.

* `draw_eq` — when the running sums agree the draws do;
* `runs_of_finite` — with a finite first rank they agree;
* `draw_ne` — otherwise the compact sums end in NaN and the dense ones stay zero;
* `compact_cdf_exact_iff` — so the draws and normalizers agree exactly when the first rank is
  finite;
* `compact_cdf_infinite` — an infinite logit.
-/

set_option autoImplicit false

open Binary32
open MaskedFold (store store_of_lt)
open LowerBound (lowerBound runOf)

namespace Sampler

/-! ## Draws -/

/-- A hash value: `0 <= u <= 1`. -/
def InUnit (u : Pattern) : Prop :=
  isNaN u = false ∧ gt 0#32 u = false ∧ gt u 0x3f800000#32 = false

/-- A number, not below zero. -/
def Nonneg (x : Pattern) : Prop := isNaN x = false ∧ gt 0#32 x = false

/-- Finite and not below zero. -/
def Small (x : Pattern) : Prop := isFinite x = true ∧ gt 0#32 x = false

theorem scaled_zero : scaled 0#32 = 0 := by decide +kernel

theorem nonneg_iff {x : Pattern} : Nonneg x ↔ isNaN x = false ∧ 0 ≤ scaled x := by
  unfold Nonneg
  refine and_congr_right fun hx => ?_
  rw [← not_lt, ← Bool.not_eq_true, not_iff_not, gt_iff, scaled_zero]
  exact ⟨fun h => h.2.2, fun h => ⟨by decide, hx, h⟩⟩

/-- What is not above: a comparison of numbers. -/
theorem scaled_le_of_not_gt {x y : Pattern} (hx : isNaN x = false) (hy : isNaN y = false)
    (h : gt x y = false) : scaled x ≤ scaled y := by
  by_contra hlt
  rw [gt_iff.2 ⟨hx, hy, not_le.1 hlt⟩] at h
  cases h

/-- **Running sums that agree run by run draw the same**: `sums t` is the sum over the first `t`
survivors. -/
theorem draw_eq {ids : List Nat} {n : Nat} (hsorted : ids.Pairwise (· < ·))
    (hids : ∀ i ∈ ids, i < n) (hsome : ids ≠ []) {sums : Nat → Pattern}
    (hnonneg : ∀ t, Nonneg (sums t)) (hmono : ∀ s t, s ≤ t → scaled (sums s) ≤ scaled (sums t))
    (hzero : sums 0 = 0#32) {d : CompactCdf} (hd : d.ids = ids) (hlen : d.cdf.length = ids.length)
    (hcompact : ∀ r < ids.length, d.cdf.getD r 0#32 = sums (r + 1)) {cdf : Nat → Pattern}
    (hdense : ∀ i < n, cdf i = sums (runOf ids i)) {u : Pattern} (hu : InUnit u) :
    d.draw n u = denseDraw cdf n u := by
  obtain ⟨hnan, hpos, -⟩ := hu
  obtain ⟨a, l, rfl⟩ := List.exists_cons_of_ne_nil hsome
  have hn : 0 < n := by
    have ha := hids a List.mem_cons_self
    omega
  have hbelow : ∀ s t, s ≤ t → gt u (sums t) = true → gt u (sums s) = true := by
    intro s t hst h
    obtain ⟨-, -, hlt⟩ := gt_iff.1 h
    exact gt_iff.2 ⟨hnan, (hnonneg s).1, lt_of_le_of_lt (hmono s t hst) hlt⟩
  have hsearch : lowerBound (fun i => gt u (cdf i)) n =
      lowerBound (fun i => gt u (sums (runOf (a :: l) i))) n :=
    LowerBound.lowerBound_congr fun i hi => by rw [hdense i hi]
  unfold CompactCdf.draw denseDraw CompactCdf.mapRank
  dsimp only
  rw [hlen, hsearch, hd]
  by_cases hu0 : eq u 0#32 = true
  · -- `u = 0`: nothing is below it
    obtain ⟨-, -, hval⟩ := eq_iff.1 hu0
    rw [scaled_zero] at hval
    have hnever : ∀ t, gt u (sums t) = false := by
      intro t
      rw [← Bool.not_eq_true]
      intro h
      obtain ⟨-, -, hlt⟩ := gt_iff.1 h
      have hge := (nonneg_iff.1 (hnonneg t)).2
      omega
    have hfirst : lowerBound (fun i => gt u (sums (runOf (a :: l) i))) n = 0 := by
      refine LowerBound.lowerBound_eq ?_ (Nat.zero_le n) (fun i hi => absurd hi (Nat.not_lt_zero i))
        (fun _ => hnever _)
      intro i j hij h
      rw [hnever] at h
      cases h
    rw [if_pos hu0, hfirst, if_pos hn, hdense 0 hn]
    have hheads : ∀ h ∈ l, a < h := (List.pairwise_cons.1 hsorted).1
    have hnone : ∀ h ∈ l, ¬ decide (h ≤ 0) = true := by
      intro h hh
      have hlt := hheads h hh
      simp
      omega
    unfold runOf
    rw [List.headD_cons, List.countP_cons, List.countP_eq_zero.2 hnone]
    by_cases ha : a = 0
    · rw [if_pos ha, if_pos (decide_eq_true (Nat.le_of_eq ha))]
      have hhead := hcompact 0 (Nat.succ_pos _)
      cases hcdf : d.cdf with
      | nil =>
        rw [hcdf] at hlen
        cases hlen
      | cons c cs =>
        rw [hcdf] at hhead
        exact congrArg (Prod.mk 0) hhead
    · rw [if_neg ha, if_neg (by simpa using ha), hzero]
  · -- otherwise the runs below `u` end where the ranks below it do
    have hu' : gt u 0#32 = true := by
      have hge := scaled_le_of_not_gt (by decide) hnan hpos
      rw [scaled_zero] at hge
      refine gt_iff.2 ⟨hnan, by decide, ?_⟩
      rw [scaled_zero]
      refine lt_of_le_of_ne hge fun heq => hu0 (eq_iff.2 ⟨hnan, by decide, ?_⟩)
      rw [scaled_zero, heq]
    have hranks : lowerBound (fun r => gt u (d.cdf.getD r 0#32)) (a :: l).length =
        lowerBound (fun r => gt u (sums (r + 1))) (a :: l).length :=
      LowerBound.lowerBound_congr fun r hr => by rw [hcompact r hr]
    have hruns := LowerBound.lowerBound_runs hsorted hids (q := fun t => gt u (sums t)) hbelow
      (by rw [hzero]; exact hu')
    rw [if_neg hu0, hranks, hruns]
    have hle := @LowerBound.lowerBound_le (fun r => gt u (sums (r + 1))) (a :: l).length
    obtain ⟨r, hr⟩ : ∃ r, lowerBound (fun r => gt u (sums (r + 1))) (a :: l).length = r :=
      ⟨_, rfl⟩
    rw [hr] at hle ⊢
    by_cases hlast : r = (a :: l).length
    · have hout : (a :: l).getD r n = n := by simp [hlast]
      rw [if_pos hlast, hout, if_neg (lt_irrefl n)]
    · have hlt : r < (a :: l).length := lt_of_le_of_ne hle hlast
      have hget : ∀ x, (a :: l).getD r x = (a :: l)[r] := by
        intro x
        rw [List.getD_eq_getElem?_getD, List.getElem?_eq_getElem hlt, Option.getD_some]
      have htoken : (a :: l)[r] < n := hids _ (List.getElem_mem hlt)
      rw [if_neg hlast, hget, hget, if_pos htoken, hdense _ htoken,
        LowerBound.runOf_head hsorted hlt, hcompact r hlt]

/-! ## Rounding -/

section Laws

variable {D : Type}

/-- **What the draws rely on besides.** -/
structure Arith.Rounding (A : Arith D) : Prop where
  sub_finite : ∀ x y, isFinite x = true → isFinite y = true → Binary32.gt x y = false →
    isNaN (A.subF x y) = false ∧ Binary32.gt (A.subF x y) 0#32 = false
  expF_small : ∀ x, isNaN x = false → Binary32.gt x 0#32 = false → Small (A.expF x)
  expF_isNaN : ∀ x, isNaN x = true → isNaN (A.expF x) = true
  toDouble_finite : ∀ x, isFinite x = true → ¬ A.nan (A.toDouble x)
  ge_number : ∀ x y, A.ge x y = true → ¬ A.nan x
  ge_one : ∀ x, A.ge x A.one = true →
    A.gt x A.zero = true ∧ Small (A.toFloat (A.div A.one x))
  mulF_small : ∀ x y, Small x → Small y → Nonneg (A.mulF x y)
  mulF_nan : ∀ x y, isNaN x = true → isNaN (A.mulF x y) = true
  addF_nonneg : ∀ x y, Nonneg x → Nonneg y →
    Nonneg (A.addF x y) ∧ Binary32.gt x (A.addF x y) = false
  addF_nan : ∀ x y, isNaN x = true ∨ isNaN y = true → isNaN (A.addF x y) = true

end Laws

theorem scaled_ninf_le {x : Pattern} (h : isNaN x = false) : scaled ninf ≤ scaled x :=
  scaled_le_of_not_gt (by decide) h (gt_ninf_left x)

/-- The finite numbers lie between the infinities. -/
theorem isFinite_iff {x : Pattern} : isFinite x = true ↔
    isNaN x = false ∧ scaled ninf < scaled x ∧ scaled x < -scaled ninf := by
  have hx := x.isLt
  have hfin : isFinite x = true ↔ x.toNat % 2 ^ 31 < 0x7f800000 := by
    have hnan := isNaN_eq x
    rw [isNaN, decide_eq_decide] at hnan
    rw [isFinite, decide_eq_true_eq]
    unfold exponent fraction at *
    omega
  have hnum : isNaN x = false ↔ x.toNat % 2 ^ 31 ≤ 0x7f800000 := by
    rw [isNaN_eq, decide_eq_false_iff_not, Nat.not_lt]
  have hmag : magnitude (x.toNat % 2 ^ 31) < magnitude 0x7f800000 ↔
      x.toNat % 2 ^ 31 < 0x7f800000 := magnitude_lt_iff
  rw [hfin, hnum, scaled_ninf]
  unfold scaled
  split
  · rw [Nat.mod_eq_of_lt (by omega)] at hmag ⊢
    omega
  · have hlow : x.toNat % 2 ^ 31 = x.toNat - 2 ^ 31 := by omega
    rw [hlow] at hmag ⊢
    omega

/-! ## Maxima -/

section Maxima

variable {v : Nat → Pattern}

/-- A running maximum from `m` on. -/
def maxFrom (v : Nat → Pattern) (m : Pattern) (ids : List Nat) : Pattern :=
  ids.foldl (fun m i => fmax m (v i)) m

theorem maxFrom_spec (ids : List Nat) : ∀ m,
    (maxFrom v m ids = m ∨ ∃ i ∈ ids, v i = maxFrom v m ids) ∧
      (∀ y, gt y m = false → gt y (maxFrom v m ids) = false) ∧
      ∀ i ∈ ids, gt (v i) (maxFrom v m ids) = false := by
  induction ids with
  | nil => exact fun m => ⟨.inl rfl, fun _ h => h, nofun⟩
  | cons a l ih =>
    intro m
    obtain ⟨hat, hkeep, hmax⟩ := ih (fmax m (v a))
    have hstep : (fmax m (v a) = m ∧ gt (v a) m = false) ∨
        (fmax m (v a) = v a ∧ gt (v a) m = true) := by
      unfold fmax
      cases h : gt (v a) m with
      | true => exact .inr ⟨if_pos rfl, rfl⟩
      | false => exact .inl ⟨if_neg Bool.false_ne_true, rfl⟩
    have hhead : gt (v a) (fmax m (v a)) = false := by
      rcases hstep with ⟨h, hgt⟩ | ⟨h, -⟩
      · rw [h]
        exact hgt
      · rw [h]
        exact gt_irrefl _
    refine ⟨?_, ?_, ?_⟩
    · rcases hat with hat | ⟨i, hi, hat⟩
      · rcases hstep with ⟨h, -⟩ | ⟨h, -⟩
        · exact .inl (hat.trans h)
        · exact .inr ⟨a, List.mem_cons_self, (hat.trans h).symm⟩
      · exact .inr ⟨i, List.mem_cons_of_mem _ hi, hat⟩
    · intro y hy
      apply hkeep
      rcases hstep with ⟨h, -⟩ | ⟨h, hgt⟩
      · rw [h]
        exact hy
      · -- the head is above `m`, and `y` is not
        rw [h, ← Bool.not_eq_true]
        intro hya
        obtain ⟨hyn, -, hlt⟩ := gt_iff.1 hya
        obtain ⟨-, hm, hlt'⟩ := gt_iff.1 hgt
        have hle := scaled_le_of_not_gt hyn hm hy
        omega
    · intro i hi
      rcases List.mem_cons.1 hi with rfl | hi
      · exact hkeep _ hhead
      · exact hmax i hi

/-- The maximum of a list that is not empty. -/
structure IsTop (v : Nat → Pattern) (ids : List Nat) (m : Pattern) : Prop where
  attained : ∃ i ∈ ids, v i = m
  maximal : ∀ i ∈ ids, gt (v i) m = false

/-- From the first element on. -/
theorem maxFrom_isTop (a : Nat) (l : List Nat) : IsTop v (a :: l) (maxFrom v (v a) (a :: l)) := by
  obtain ⟨hat, -, hmax⟩ := @maxFrom_spec v (a :: l) (v a)
  refine ⟨?_, hmax⟩
  rcases hat with hat | hat
  · exact ⟨a, List.mem_cons_self, hat.symm⟩
  · exact hat

/-- From minus infinity on, unless nothing compares. -/
theorem survMax_isTop {ids : List Nat} (h : survMax ids v ≠ ninf) :
    IsTop v ids (survMax ids v) := by
  refine ⟨?_, (@maxFrom_spec v ids ninf).2.2⟩
  exact (survMax_isMax ids).attained.resolve_left h

theorem maxFrom_eq_survMax {a : Nat} {l : List Nat} (hnan : isNaN (v a) = false)
    (hne : v a ≠ ninf) : maxFrom v (v a) (a :: l) = survMax (a :: l) v := by
  have h₁ : fmax (v a) (v a) = v a := if_neg (by rw [gt_irrefl]; decide)
  have h₂ : fmax ninf (v a) = v a := if_pos (gt_ninf hnan hne)
  unfold maxFrom survMax
  rw [List.foldl_cons, List.foldl_cons, h₁, h₂]

end Maxima

/-! ## Sums -/

section Sums

variable {D : Type} {A : Arith D}

/-- Numbers that are not negative add up to one. -/
theorem addF_sums (hR : A.Rounding) {p : Nat → Pattern} : ∀ (l : List Nat) (c : Pattern),
    Nonneg c → (∀ i ∈ l, Nonneg (p i)) → Nonneg (l.foldl (fun c i => A.addF c (p i)) c) ∧
      scaled c ≤ scaled (l.foldl (fun c i => A.addF c (p i)) c) := by
  intro l
  induction l with
  | nil => exact fun c hc _ => ⟨hc, le_refl _⟩
  | cons a l ih =>
    intro c hc hp
    obtain ⟨hnext, hge⟩ := hR.addF_nonneg c (p a) hc (hp a List.mem_cons_self)
    obtain ⟨hsum, hle⟩ := ih _ hnext fun i hi => hp i (List.mem_cons_of_mem _ hi)
    have hstep := scaled_le_of_not_gt hc.1 hnext.1 hge
    exact ⟨hsum, le_trans hstep hle⟩

/-- The first sums, then the rest. -/
theorem sums_mono (hR : A.Rounding) {p : Nat → Pattern} {l : List Nat}
    (hp : ∀ i ∈ l, Nonneg (p i)) {s t : Nat} (hst : s ≤ t) :
    scaled ((l.take s).foldl (fun c i => A.addF c (p i)) 0#32) ≤
      scaled ((l.take t).foldl (fun c i => A.addF c (p i)) 0#32) := by
  have hsplit : l.take t = l.take s ++ (l.drop s).take (t - s) := by
    rw [← List.take_add, Nat.add_sub_cancel' hst]
  have hzero : Nonneg 0#32 := ⟨by decide, by decide⟩
  obtain ⟨hfirst, -⟩ := addF_sums hR (l.take s) 0#32 hzero
    fun i hi => hp i (List.mem_of_mem_take hi)
  rw [hsplit, List.foldl_append]
  exact (addF_sums hR _ _ hfirst fun i hi =>
    hp i (List.mem_of_mem_drop (List.mem_of_mem_take hi))).2

theorem runningCdf_length (inv : Pattern) (vs : List Pattern) :
    ∀ c, (runningCdf A inv c vs).length = vs.length := by
  induction vs with
  | nil => intro c; rfl
  | cons v vs ih =>
    intro c
    unfold runningCdf
    dsimp only
    rw [List.length_cons, ih, List.length_cons]

/-- The running CDF, entry by entry. -/
theorem runningCdf_getD (inv : Pattern) {e : Nat → Pattern} : ∀ (l : List Nat) (c : Pattern)
    (r : Nat), r < l.length → (runningCdf A inv c (l.map e)).getD r 0#32 =
      (l.take (r + 1)).foldl (fun c i => A.addF c (A.mulF (e i) inv)) c := by
  intro l
  induction l with
  | nil => intro c r hr; cases hr
  | cons a l ih =>
    intro c r hr
    rw [List.map_cons]
    unfold runningCdf
    cases r with
    | zero => rfl
    | succ r =>
      have hr' : r < l.length := by simpa using hr
      exact ih _ r hr'

/-- `CompactCdf` over ids and their values. -/
theorem ofSurvivors_eq (v : Nat → Pattern) (a : Nat) (l : List Nat) :
    let m := maxFrom v (v a) (a :: l)
    let e := fun i => A.expF (A.subF (v i) m)
    let z := (a :: l).foldl (fun z i => A.add z (A.toDouble (e i))) A.zero
    let inv := if A.gt z A.zero then A.toFloat (A.div A.one z) else 0#32
    CompactCdf.ofSurvivors A ((a :: l).map fun i => (i, v i)) =
      { ids := a :: l
        cdf := runningCdf A inv 0#32 ((a :: l).map e)
        logNormalizer := A.addF m (A.toFloat (A.log ((a :: l).foldl
          (fun s i => A.add s (A.exp (A.toDouble (A.subF (v i) m)))) A.zero))) } := by
  intro m e z inv
  have hhead : (((a :: l).map fun i => (i, v i)).headD (0, 0#32)).2 = v a := rfl
  have hids : ((a :: l).map fun i => (i, v i)).map Prod.fst = a :: l := by
    rw [List.map_map]
    exact List.map_id _
  unfold CompactCdf.ofSurvivors
  dsimp only
  rw [hhead, hids]
  simp only [List.foldl_map, List.map_map]
  rfl

end Sums

/-! ## The survivors of a ranking -/

/-- The survivors in id order. -/
def survivorIds (w : Nat → Pattern) (n : Nat) (kth best : Pattern × Nat) : List Nat :=
  (List.range n).filter (survives w n kth.1 best.2)

section Ranking

variable {w : Nat → Pattern} {n k : Nat} {ranked : List (Pattern × Nat)} {kth best : Pattern × Nat}
  (hr : RankedBy w n ranked) (hk : ranked[k - 1]? = some kth) (hb : ranked[0]? = some best)
include hr

omit hr in
theorem survivorIds_lt {i : Nat} (hi : i ∈ survivorIds w n kth best) : i < n :=
  List.mem_range.1 (List.mem_filter.1 hi).1

omit hr in
theorem survivorIds_sorted : (survivorIds w n kth best).Pairwise (· < ·) :=
  List.pairwise_lt_range.sublist List.filter_sublist

include hb

/-- The first rank is at least every other. -/
theorem best_atLeast {e : Pattern × Nat} (he : e ∈ ranked) : e = best ∨ AtLeast best.1 e.1 := by
  obtain ⟨hpos, hget⟩ := List.getElem?_eq_some_iff.1 hb
  obtain ⟨b, rest, rfl⟩ := List.exists_cons_of_ne_nil (List.ne_nil_of_length_pos hpos)
  obtain rfl : b = best := hget
  rcases List.mem_cons.1 he with rfl | he
  · exact .inl rfl
  · exact .inr ((List.pairwise_cons.1 hr.descending).1 e he)

theorem best_value : w best.2 = best.1 := (hr.ids best (List.mem_of_getElem? hb)).2

include hk

/-- A survivor is ranked. -/
theorem survivor_ranked {i : Nat} (hi : i ∈ survivorIds w n kth best) : (w i, i) ∈ ranked := by
  obtain ⟨hrange, hsurv⟩ := List.mem_filter.1 hi
  unfold survives at hsurv
  split at hsurv
  · obtain rfl := beq_iff_eq.1 hsurv
    rw [best_value hr hb]
    exact List.mem_of_getElem? hb
  · have hlisted : i ∈ ranked.map Prod.snd := by
      by_contra hout
      rw [hr.rest i (List.mem_range.1 hrange) hout kth (List.mem_of_getElem? hk)] at hsurv
      cases hsurv
    obtain ⟨e, he, rfl⟩ := List.mem_map.1 hlisted
    rw [(hr.ids e he).2]
    exact he

theorem survivor_le_best {i : Nat} (hi : i ∈ survivorIds w n kth best) :
    gt (w i) best.1 = false := by
  rcases best_atLeast hr hb (survivor_ranked hr hk hb hi) with heq | hge
  · rw [← heq]
    exact gt_irrefl _
  · rw [← Bool.not_eq_true]
    intro h
    obtain ⟨-, -, hle⟩ := atLeast_iff.1 hge
    obtain ⟨-, -, hlt⟩ := gt_iff.1 h
    exact absurd hlt (not_lt.2 hle)

theorem best_survives : best.2 ∈ survivorIds w n kth best := by
  obtain ⟨hlt, hval⟩ := hr.ids best (List.mem_of_getElem? hb)
  refine List.mem_filter.2 ⟨List.mem_range.2 hlt, ?_⟩
  unfold survives
  split
  · exact beq_self_eq_true _
  · rename_i hsome
    -- what is above the threshold is not above the first rank
    obtain ⟨i, hi⟩ := List.exists_mem_of_ne_nil _ hsome
    obtain ⟨hin, hgt⟩ := mem_above.1 hi
    have hisurv : i ∈ survivorIds w n kth best := by
      refine List.mem_filter.2 ⟨List.mem_range.2 hin, ?_⟩
      unfold survives
      rw [if_neg hsome]
      exact hgt
    rw [hval]
    rcases best_atLeast hr hb (survivor_ranked hr hk hb hisurv) with heq | hge
    · rw [← heq]
      exact hgt
    · obtain ⟨hbest, -, hle⟩ := atLeast_iff.1 hge
      obtain ⟨-, hkth, hlt⟩ := gt_iff.1 hgt
      exact gt_iff.2 ⟨hbest, hkth, lt_of_lt_of_le hlt hle⟩

/-- With a finite first rank all survivors are. -/
theorem survivor_finite (hfin : isFinite best.1 = true) {i : Nat}
    (hi : i ∈ survivorIds w n kth best) : isFinite (w i) = true := by
  obtain ⟨hnum, -, hhigh⟩ := isFinite_iff.1 hfin
  have hle := survivor_le_best hr hk hb hi
  have hsurv := (List.mem_filter.1 hi).2
  unfold survives at hsurv
  split at hsurv
  · obtain rfl := beq_iff_eq.1 hsurv
    rw [best_value hr hb]
    exact hfin
  · obtain ⟨hi', hkth, hlt⟩ := gt_iff.1 hsurv
    have htop := scaled_le_of_not_gt hi' hnum hle
    have hlow := scaled_ninf_le hkth
    exact isFinite_iff.2 ⟨hi', by omega, by omega⟩

/-- A finite maximum of the survivors makes the first rank finite. -/
theorem best_finite_of_top {m : Pattern} (htop : IsTop w (survivorIds w n kth best) m)
    (hfin : isFinite m = true) : isFinite best.1 = true := by
  obtain ⟨hnum, hlow, hhigh⟩ := isFinite_iff.1 hfin
  obtain ⟨j, hj, rfl⟩ := htop.attained
  have hbest : isNaN best.1 = false := by
    rcases best_atLeast hr hb (survivor_ranked hr hk hb hj) with heq | hge
    · rw [← heq]
      exact hnum
    · exact (atLeast_iff.1 hge).1
  have hmax := htop.maximal best.2 (best_survives hr hk hb)
  rw [best_value hr hb] at hmax
  have h₁ := scaled_le_of_not_gt hbest hnum hmax
  have h₂ := scaled_le_of_not_gt hnum hbest (survivor_le_best hr hk hb hj)
  exact isFinite_iff.2 ⟨hbest, by omega, by omega⟩

/-! ### A finite first rank -/

variable {D : Type} {A : Arith D} (hA : A.Ieee) (hR : A.Rounding)

/-- What the two distributions share: running sums over the survivors, and the normalizer. -/
structure SameRuns (A : Arith D) (n : Nat) (ids : List Nat) (logits : Nat → Pattern) (m : Members)
    (d : CompactCdf) (sums : Nat → Pattern) : Prop where
  nonneg : ∀ t, Nonneg (sums t)
  mono : ∀ s t, s ≤ t → scaled (sums s) ≤ scaled (sums t)
  zero : sums 0 = 0#32
  ids_eq : d.ids = ids
  length : d.cdf.length = ids.length
  compact : ∀ r < ids.length, d.cdf.getD r 0#32 = sums (r + 1)
  dense : ∀ i < n, denseCdf A n logits m i = sums (runOf ids i)
  normalizer : d.logNormalizer = logZ A n logits

include hA hR

omit hr hk hb in
/-- The exponentials below a finite maximum add up to one or more. -/
theorem one_le_expSum {v : Nat → Pattern} {ids : List Nat} {m : Pattern} (htop : IsTop v ids m)
    (hfin : ∀ i ∈ ids, isFinite (v i) = true) (hm : isFinite m = true) :
    (∀ i ∈ ids, Small (A.expF (A.subF (v i) m))) ∧
      A.ge (ids.foldl (fun z i => A.add z (A.toDouble (A.expF (A.subF (v i) m)))) A.zero)
        A.one = true := by
  have hsmall : ∀ i ∈ ids, Small (A.expF (A.subF (v i) m)) := by
    intro i hi
    obtain ⟨hnum, hle⟩ := hR.sub_finite (v i) m (hfin i hi) hm (htop.maximal i hi)
    exact hR.expF_small _ hnum hle
  refine ⟨hsmall, ?_⟩
  have hkeep : A.ge (ids.foldl (fun z i => A.add z (A.toDouble (A.expF (A.subF (v i) m))))
      A.zero) A.zero = true := by
    refine MaskedFold.foldl_keeps (P := fun z => A.ge z A.zero = true) ?_ _ hA.zero_ge
    intro z i hi hz
    have hterm := (hA.expF_nonneg (A.subF (v i) m)).resolve_left
      (hR.toDouble_finite _ (hsmall i hi).1)
    exact hA.ge_trans _ _ _ (hA.add_ge z _ hz hterm).1 hz
  obtain ⟨j, hj, hat⟩ := htop.attained
  have hge := ((sum_ge hA (t := fun i => A.toDouble (A.expF (A.subF (v i) m))) ids
    (fun i => hA.expF_nonneg _) A.zero hA.zero_ge).resolve_left (hR.ge_number _ _ hkeep)).2 j hj
  rwa [hat, hA.sub_self m hm, hA.expF_zero] at hge

/-- **With a finite first rank the running sums agree.** -/
theorem runs_of_finite (hfin : isFinite best.1 = true) (stale : Nat → Pattern) (m : Members) :
    ∃ sums, SameRuns A n (survivorIds w n kth best)
      (strictMask w n kth.1 best.2 (store n w stale)).logits m
      (CompactCdf.ofSurvivors A ((survivorIds w n kth best).map fun i => (i, w i))) sums := by
  have hsome := List.ne_nil_of_mem (best_survives hr hk hb)
  have hlt : ∀ i ∈ survivorIds w n kth best, i < n := fun i hi => survivorIds_lt hi
  have hsorted := @survivorIds_sorted w n kth best
  have hfinite : ∀ i ∈ survivorIds w n kth best, isFinite (w i) = true :=
    fun i hi => survivor_finite hr hk hb hfin hi
  have hfilter : survivorIds w n kth best = (List.range n).filter (survives w n kth.1 best.2) := rfl
  have hlogits := @strictMask_logits w n kth.1 best.2 stale
  obtain ⟨logits, hl⟩ : ∃ logits, (strictMask w n kth.1 best.2 (store n w stale)).logits = logits :=
    ⟨_, rfl⟩
  rw [hl] at hlogits ⊢
  have hmask : ∀ i < n, survives w n kth.1 best.2 i = false → logits i = ninf := by
    intro i hi hout
    rw [hlogits hi, hout, if_neg Bool.false_ne_true]
  have hon : ∀ i ∈ survivorIds w n kth best, logits i = w i := by
    intro i hi
    rw [hlogits (hlt i hi), if_pos (List.mem_filter.1 hi).2]
  obtain ⟨ids, hids⟩ : ∃ ids, survivorIds w n kth best = ids := ⟨_, rfl⟩
  rw [hids] at hsome hlt hsorted hfinite hfilter hon ⊢
  obtain ⟨a, l, hal⟩ := List.exists_cons_of_ne_nil hsome
  -- one maximum for both
  have hhead : isFinite (w a) = true := hfinite a (by rw [hal]; exact List.mem_cons_self)
  have hmaxC : maxFrom w (w a) ids = survMax ids w := by
    rw [hal]
    refine maxFrom_eq_survMax (isNaN_of_isFinite hhead) ?_
    intro hninf
    rw [hninf] at hhead
    cases hhead
  have hmaxD : survMax ids logits = survMax ids w :=
    MaskedFold.foldl_congr_mem (fun x i hi => by rw [hon i hi]) _
  have htop : IsTop w ids (survMax ids w) := by
    rw [← hmaxC, hal]
    exact maxFrom_isTop a l
  obtain ⟨top, hx⟩ : ∃ top, survMax ids w = top := ⟨_, rfl⟩
  rw [hx] at hmaxC hmaxD htop
  have htopFin : isFinite top = true := by
    obtain ⟨j, hj, hat⟩ := htop.attained
    rw [← hat]
    exact hfinite j hj
  obtain ⟨hsmall, hone⟩ := one_le_expSum hA hR htop hfinite htopFin
  obtain ⟨hpos, hinv⟩ := hR.ge_one _ hone
  -- the probabilities
  have hterm : ∀ i ∈ ids, A.expF (A.subF (logits i) top) = A.expF (A.subF (w i) top) :=
    fun i hi => by rw [hon i hi]
  have hZ : ids.foldl (fun z i => A.add z (A.toDouble (A.expF (A.subF (logits i) top)))) A.zero =
      ids.foldl (fun z i => A.add z (A.toDouble (A.expF (A.subF (w i) top)))) A.zero :=
    MaskedFold.foldl_congr_mem (fun z i hi => by rw [hterm i hi]) _
  obtain ⟨inv, hinvEq⟩ : ∃ inv, A.toFloat (A.div A.one
      (ids.foldl (fun z i => A.add z (A.toDouble (A.expF (A.subF (w i) top)))) A.zero)) = inv :=
    ⟨_, rfl⟩
  rw [hinvEq] at hinv
  have hprobs : ∀ i < n, softmax A n logits m.probs i =
      if i ∈ ids then A.mulF (A.expF (A.subF (w i) top)) inv else 0#32 := by
    intro i hi
    have happly := @survSoftmax_apply D A n ids (hsorted.imp Nat.ne_of_lt) hlt logits m.probs
    dsimp only at happly
    rw [hmaxD, hZ, hinvEq] at happly
    rw [← survSoftmax_eq hA hmask, ← hfilter, happly, store_of_lt _ _ hi]
    by_cases hmem : i ∈ ids
    · rw [if_pos ⟨hpos, hmem⟩, if_pos hmem, hterm i hmem]
    · rw [if_neg fun h => hmem h.2, if_neg hmem]
  have hnonneg : ∀ i ∈ ids, Nonneg (A.mulF (A.expF (A.subF (w i) top)) inv) :=
    fun i hi => hR.mulF_small _ _ (hsmall i hi) hinv
  have hzero : Nonneg 0#32 := ⟨by decide, by decide⟩
  have hd := @ofSurvivors_eq D A w a l
  dsimp only at hd
  rw [← hal, hmaxC, if_pos hpos, hinvEq] at hd
  refine ⟨fun t => (ids.take t).foldl
    (fun c i => A.addF c (A.mulF (A.expF (A.subF (w i) top)) inv)) 0#32, ?_, ?_, rfl, ?_, ?_, ?_,
    ?_, ?_⟩
  · intro t
    exact (addF_sums hR _ _ hzero fun i hi => hnonneg i (List.mem_of_mem_take hi)).1
  · intro s t hst
    exact sums_mono hR hnonneg hst
  · rw [hd]
  · rw [hd]
    exact (runningCdf_length inv _ _).trans (List.length_map _)
  · intro r hr
    rw [hd]
    exact runningCdf_getD inv ids 0#32 r hr
  · intro i hi
    have hskip : ∀ c, PartialSum A.addF 0#32 c → ∀ j < n, survives w n kth.1 best.2 j = false →
        A.addF c (softmax A n logits m.probs j) = c := by
      intro c hc j hj hout
      have hnot : j ∉ ids := by
        rw [hfilter]
        intro hmem
        rw [(List.mem_filter.1 hmem).2] at hout
        cases hout
      rw [hprobs j hj, if_neg hnot, hA.addF_zero c hc]
    have hheads : ids.take (runOf ids i) =
        (List.range (i + 1)).filter (survives w n kth.1 best.2) := by
      rw [← LowerBound.filter_le_eq_take hsorted, hfilter, List.filter_comm,
        LowerBound.range_filter_le hi]
    unfold denseCdf
    rw [cumulate_eq, store_of_lt _ _ hi, hheads]
    unfold MaskedFold.prefixFold
    rw [← MaskedFold.foldl_filter_neutral (P := PartialSum A.addF 0#32)
      (p := survives w n kth.1 best.2) (fun c j _ hc => hc.add _) ?_ _ .zero]
    · refine MaskedFold.foldl_congr_mem (fun c j hj => ?_) _
      obtain ⟨hjr, hjs⟩ := List.mem_filter.1 hj
      have hjn : j < n := by
        have h := List.mem_range.1 hjr
        omega
      have hmem : j ∈ ids := by
        rw [hfilter]
        exact List.mem_filter.2 ⟨List.mem_range.2 hjn, hjs⟩
      rw [hprobs j hjn, if_pos hmem]
    · intro c j hj hc hout
      have hjn : j < n := by
        have h := List.mem_range.1 hj
        omega
      exact hskip c hc j hjn hout
  · rw [hd, ← survLogZ_eq hA hmask, ← hfilter]
    have hne : top ≠ ninf := by
      rintro rfl
      cases htopFin
    unfold survLogZ
    dsimp only
    rw [hmaxD, not_eq_ninf hne, Bool.not_false, if_pos rfl]
    congr 3
    exact (MaskedFold.foldl_congr_mem (fun s i hi => by rw [hon i hi]) _).symm

/-! ### Any other first rank -/

omit hR in
/-- Without a finite first rank no sum of exponentials is positive, and the dense probabilities
are all zero. -/
theorem softmax_degenerate (hinf : isFinite best.1 = false) (stale probs : Nat → Pattern) {i : Nat}
    (hi : i < n) :
    softmax A n (strictMask w n kth.1 best.2 (store n w stale)).logits probs i = 0#32 := by
  have hlt : ∀ i ∈ survivorIds w n kth best, i < n := fun i hi => survivorIds_lt hi
  have hsorted := @survivorIds_sorted w n kth best
  have hlogits := @strictMask_logits w n kth.1 best.2 stale
  obtain ⟨logits, hl⟩ : ∃ logits, (strictMask w n kth.1 best.2 (store n w stale)).logits = logits :=
    ⟨_, rfl⟩
  rw [hl] at hlogits ⊢
  have hmask : ∀ i < n, survives w n kth.1 best.2 i = false → logits i = ninf := by
    intro i hi hout
    rw [hlogits hi, hout, if_neg Bool.false_ne_true]
  have hon : ∀ i ∈ survivorIds w n kth best, logits i = w i := by
    intro i hi
    rw [hlogits (hlt i hi), if_pos (List.mem_filter.1 hi).2]
  have happly := @survSoftmax_apply D A n _ (hsorted.imp Nat.ne_of_lt) hlt logits probs
  have hfilter : (List.range n).filter (survives w n kth.1 best.2) = survivorIds w n kth best := rfl
  rw [← survSoftmax_eq hA hmask, hfilter, happly, store_of_lt _ _ hi]
  refine if_neg fun h => ?_
  obtain ⟨hpos, -⟩ := h
  by_cases hmax : survMax (survivorIds w n kth best) logits = ninf
  · -- nothing compares
    have hnan : ∀ i ∈ survivorIds w n kth best, A.nan (A.toDouble (A.expF (A.subF (logits i)
        (survMax (survivorIds w n kth best) logits)))) := by
      intro i hi
      apply hA.expF_nan
      rcases (survMax_isMax _).ninf hmax i hi with h | h
      · rw [h, hmax]
        exact hA.sub_self_nan ninf (by decide)
      · exact hA.nan_sub _ _ h
    rw [sum_not_pos hA fun z i hi => .inr ⟨rfl, hnan i hi⟩] at hpos
    cases hpos
  · obtain ⟨⟨j, hj, hat⟩, hle⟩ := survMax_isTop hmax
    obtain ⟨top, hx⟩ : ∃ top, survMax (survivorIds w n kth best) logits = top := ⟨_, rfl⟩
    rw [hx] at hat hle hpos
    cases hfin : isFinite top with
    | true =>
      have htop : IsTop w (survivorIds w n kth best) top := by
        refine ⟨⟨j, hj, (hon j hj).symm.trans hat⟩, fun i hi => ?_⟩
        rw [← hon i hi]
        exact hle i hi
      rw [best_finite_of_top hr hk hb htop hfin] at hinf
      cases hinf
    | false =>
      -- the maximum less itself is not a number
      have hterm : A.nan (A.toDouble (A.expF (A.subF (logits j) top))) := by
        rw [hat]
        exact hA.expF_nan _ (hA.sub_self_nan top hfin)
      have hsum := sum_nan_of_mem hA (t := fun i => A.toDouble (A.expF (A.subF (logits i) top)))
        hj hterm A.zero
      rw [hA.gt_nan _ hsum] at hpos
      cases hpos

omit hr hk hb hA in
theorem addF_fold_nan {p : Nat → Pattern} {l : List Nat} {j : Nat} (hj : j ∈ l)
    (hp : isNaN (p j) = true) : ∀ c, isNaN (l.foldl (fun c i => A.addF c (p i)) c) = true := by
  induction l with
  | nil => cases hj
  | cons a l ih =>
    intro c
    rw [List.foldl_cons]
    rcases List.mem_cons.1 hj with rfl | hj
    · exact MaskedFold.foldl_keeps (P := fun c => isNaN c = true)
        (fun c i _ hc => hR.addF_nan _ _ (.inl hc)) _ (hR.addF_nan _ _ (.inr hp))
    · exact ih hj _

/-- **Without a finite first rank a hash value above zero draws differently**: the dense search
finds nothing, the compact one a survivor. -/
theorem draw_ne (hinf : isFinite best.1 = false) (stale : Nat → Pattern) (m : Members) {u : Pattern}
    (hu : gt u 0#32 = true) :
    (CompactCdf.ofSurvivors A ((survivorIds w n kth best).map fun i => (i, w i))).draw n u ≠
      denseDraw (denseCdf A n (strictMask w n kth.1 best.2 (store n w stale)).logits m) n u := by
  have hzero : ∀ i < n,
      denseCdf A n (strictMask w n kth.1 best.2 (store n w stale)).logits m i = 0#32 := by
    intro i hi
    unfold denseCdf
    rw [cumulate_eq, store_of_lt _ _ hi]
    unfold MaskedFold.prefixFold
    refine MaskedFold.foldl_keeps (P := fun c => c = 0#32) ?_ _ rfl
    intro c j hj hc
    have hjn : j < n := by
      have h := List.mem_range.1 hj
      omega
    rw [hc, softmax_degenerate hr hk hb hA hinf stale m.probs hjn]
    exact hA.addF_zero _ .zero
  have hdense : (denseDraw (denseCdf A n
      (strictMask w n kth.1 best.2 (store n w stale)).logits m) n u).1 = n := by
    unfold denseDraw
    dsimp only
    by_contra hne
    have hlt := lt_of_le_of_ne LowerBound.lowerBound_le hne
    have hfound := LowerBound.lowerBound_found hlt
    rw [hzero _ hlt, hu] at hfound
    cases hfound
  have hsome := List.ne_nil_of_mem (best_survives hr hk hb)
  have hlt : ∀ i ∈ survivorIds w n kth best, i < n := fun i hi => survivorIds_lt hi
  have htopOf : ∀ top, IsTop w (survivorIds w n kth best) top → isFinite top = false := by
    intro top htop
    rw [← Bool.not_eq_true]
    intro hfin
    rw [best_finite_of_top hr hk hb htop hfin] at hinf
    cases hinf
  obtain ⟨ids, hids⟩ : ∃ ids, survivorIds w n kth best = ids := ⟨_, rfl⟩
  rw [hids] at hsome hlt htopOf ⊢
  obtain ⟨a, l, hal⟩ := List.exists_cons_of_ne_nil hsome
  have htop := @maxFrom_isTop w a l
  have hd := @ofSurvivors_eq D A w a l
  dsimp only at hd
  rw [← hal] at htop hd
  obtain ⟨j, hj, hat⟩ := htop.attained
  have hinfTop := htopOf _ htop
  obtain ⟨top, hx⟩ : ∃ top, maxFrom w (w a) ids = top := ⟨_, rfl⟩
  rw [hx] at hd hat hinfTop
  have hpos : 0 < ids.length := List.length_pos_of_mem hj
  -- the last compact entry is not a number
  have hlen : (CompactCdf.ofSurvivors A (ids.map fun i => (i, w i))).cdf.length = ids.length := by
    rw [hd]
    exact (runningCdf_length _ _ _).trans (List.length_map _)
  have hlast : isNaN ((CompactCdf.ofSurvivors A (ids.map fun i => (i, w i))).cdf.getD
      (ids.length - 1) 0#32) = true := by
    rw [hd]
    dsimp only
    rw [runningCdf_getD _ ids 0#32 (ids.length - 1) (by omega), Nat.sub_add_cancel hpos,
      List.take_length]
    refine addF_fold_nan hR hj (hR.mulF_nan _ _ (hR.expF_isNaN _ ?_)) _
    rw [hat]
    exact hA.sub_self_nan top hinfTop
  have hrank := @LowerBound.lowerBound_lt_of_last (fun r => gt u
    ((CompactCdf.ofSurvivors A (ids.map fun i => (i, w i))).cdf.getD r 0#32)) ids.length hpos (by
      unfold Binary32.gt
      rw [hlast, Bool.not_true, Bool.and_false, Bool.false_and])
  have hidsEq : (CompactCdf.ofSurvivors A (ids.map fun i => (i, w i))).ids = ids := by rw [hd]
  have hu0 : ¬ eq u 0#32 = true := by
    intro h
    obtain ⟨-, -, heq⟩ := eq_iff.1 h
    obtain ⟨-, -, hlt⟩ := gt_iff.1 hu
    omega
  intro heq
  have htoken : ((CompactCdf.ofSurvivors A (ids.map fun i => (i, w i))).draw n u).1 = n := by
    rw [heq, hdense]
  unfold CompactCdf.draw CompactCdf.mapRank at htoken
  rw [hlen, hidsEq, if_neg hu0, if_neg (Nat.ne_of_lt hrank)] at htoken
  rw [List.getD_eq_getElem?_getD, List.getElem?_eq_getElem hrank, Option.getD_some] at htoken
  have hmem := hlt _ (List.getElem_mem hrank)
  omega

end Ranking

/-! ## Small numbers -/

instance (a b : Pattern) : Decidable (AtLeast a b) := inferInstanceAs (Decidable (_ ∨ _))

instance (x : Pattern) : Decidable (Small x) := inferInstanceAs (Decidable (_ ∧ _))

instance (u : Pattern) : Decidable (InUnit u) := inferInstanceAs (Decidable (_ ∧ _))

/-- Arithmetic that is right on zeros, ones, a half, the infinities and NaN, and rounds everything
else coarsely in the right direction. -/
def coarseArith : Arith Exact :=
  { smallArith with
    addF := fun x y => if y = 0#32 then x else if x = 0#32 then y
      else if x = 0x3f000000#32 ∧ y = 0x3f000000#32 then 0x3f800000#32
      else if isNaN x ∨ isNaN y then 0x7fc00000#32 else fmax x y
    subF := fun x y => if isNaN x ∨ isNaN y then 0x7fc00000#32
      else if x = ninf ∧ y ≠ ninf then ninf
      else if ¬ (isFinite x ∧ isFinite y) then 0x7fc00000#32
      else if gt x y then 0x3f800000#32 else if eq x y then 0#32 else ninf
    mulF := fun x y => if x = 0#32 ∧ isFinite y then 0#32 else if y = 0x3f800000#32 then x
      else if x = 0x3f800000#32 then y else if Small x ∧ Small y then 0#32 else 0x7fc00000#32
    expF := fun x => if x = ninf then 0#32 else if isNaN x then 0x7fc00000#32
      else if gt x 0#32 then 0x7f800000#32 else if eq x 0#32 then 0x3f800000#32 else 0#32 }

theorem coarse_toDouble : Exact.toDouble 0#32 = .fin 0 ∧ Exact.toDouble 0x3f800000#32 = .fin 1 ∧
    Exact.toDouble 0x7fc00000#32 = .nan ∧ Exact.toDouble 0x7f800000#32 = .nan := by
  refine ⟨?_, ?_, ?_, ?_⟩
  · rw [Exact.toDouble, if_neg (by decide), if_pos (by decide)]
    exact congrArg Exact.fin (by decide +kernel)
  · rw [Exact.toDouble, if_neg (by decide), if_pos (by decide)]
    exact congrArg Exact.fin (by decide +kernel)
  · rw [Exact.toDouble, if_neg (by decide), if_neg (by decide)]
  · rw [Exact.toDouble, if_neg (by decide), if_neg (by decide)]

theorem coarse_expF_zero : coarseArith.expF 0#32 = 0x3f800000#32 := by decide +kernel

theorem coarse_expF_nan {x : Pattern} (hx : isNaN x = true) :
    coarseArith.expF x = 0x7fc00000#32 := by
  have hne : x ≠ ninf := by
    rintro rfl
    cases hx
  show (if x = ninf then _ else if isNaN x then 0x7fc00000#32 else _) = _
  rw [if_neg hne, if_pos hx]

theorem coarse_expF_small {x : Pattern} (hx : isNaN x = false) (hle : gt x 0#32 = false) :
    Small (coarseArith.expF x) := by
  show Small (if x = ninf then 0#32 else if isNaN x then _ else if gt x 0#32 then _ else
    if eq x 0#32 then 0x3f800000#32 else 0#32)
  rw [hx, hle, if_neg Bool.false_ne_true, if_neg Bool.false_ne_true]
  have hone : Small 0x3f800000#32 := by decide +kernel
  have hzero : Small 0#32 := by decide +kernel
  split
  · exact hzero
  · split
    · exact hone
    · exact hzero

theorem coarse_subF_self {x : Pattern} (hx : isFinite x = true) : coarseArith.subF x x = 0#32 := by
  have hnan := isNaN_of_isFinite hx
  have heq : eq x x = true := eq_iff.2 ⟨hnan, hnan, rfl⟩
  show (if isNaN x ∨ isNaN x then _ else if x = ninf ∧ x ≠ ninf then _ else
    if ¬ (isFinite x ∧ isFinite x) then _ else if gt x x then _ else if eq x x then 0#32 else _) = _
  rw [hnan, hx, gt_irrefl, heq, if_neg (by decide), if_neg fun h => h.2 h.1, if_neg (by decide),
    if_neg (by decide), if_pos rfl]

/-- A finite number is not a NaN as a double either. -/
theorem coarse_toDouble_finite {x : Pattern} (hx : isFinite x = true) :
    ¬ coarseArith.nan (coarseArith.toDouble x) := by
  have hne : x ≠ ninf := by
    rintro rfl
    cases hx
  intro h
  have h' : Exact.toDouble x = .nan := smallArith_nan.1 h
  rw [Exact.toDouble, if_neg hne, if_pos hx] at h'
  cases h'

/-- What scales the exponentials: `1`, a half or `0`. -/
theorem coarse_inverse {x : Exact} (hx : coarseArith.ge x coarseArith.one = true) :
    coarseArith.gt x coarseArith.zero = true ∧
      Small (coarseArith.toFloat (coarseArith.div coarseArith.one x)) := by
  cases x with
  | fin q =>
    have hq : 1 ≤ q := of_decide_eq_true hx
    constructor
    · show (decide ((0 : Rat) ≤ q) && !decide (q ≤ (0 : Rat))) = true
      have hle : (0 : Rat) ≤ q := le_trans zero_le_one hq
      have hlt : ¬ q ≤ (0 : Rat) := not_le.2 (lt_of_lt_of_le zero_lt_one hq)
      simp [hle, hlt]
    · show Small (if (1 / q : Rat) = 1 then 0x3f800000#32 else
        if 1 / q = 1 / 2 then 0x3f000000#32 else 0#32)
      have hone : Small 0x3f800000#32 := by decide +kernel
      have hhalf : Small 0x3f000000#32 := by decide +kernel
      have hzero : Small 0#32 := by decide +kernel
      split
      · exact hone
      · split
        · exact hhalf
        · exact hzero
  | _ => cases hx

theorem coarseArith_ieee : coarseArith.Ieee where
  addF_zero x _ := by
    dsimp only [coarseArith]
    rw [if_pos rfl]
  add_zero := smallArith_ieee.add_zero
  exp_ninf := smallArith_ieee.exp_ninf
  expF_ninf := rfl
  toDouble_zero := smallArith_ieee.toDouble_zero
  ninf_sub x hx hne := by
    show (if isNaN ninf ∨ isNaN x then _ else if ninf = ninf ∧ x ≠ ninf then ninf else _) = ninf
    rw [hx, if_neg (by decide), if_pos ⟨rfl, hne⟩]
  sub_self _ hx := coarse_subF_self hx
  sub_self_nan x hx := by
    show isNaN (if isNaN x ∨ isNaN x then _ else if x = ninf ∧ x ≠ ninf then _ else
      if ¬ (isFinite x ∧ isFinite x) then _ else _) = true
    rw [hx]
    split
    · decide
    · rw [if_neg fun h => h.2 h.1, if_pos (by decide)]
      decide
  nan_sub x y hx := by
    show isNaN (if isNaN x ∨ isNaN y then _ else _) = true
    rw [if_pos (.inl hx)]
    decide
  expF_zero := by
    rw [coarse_expF_zero]
    exact coarse_toDouble.2.1
  expF_nan x hx := by
    rw [coarse_expF_nan hx]
    exact smallArith_nan.2 coarse_toDouble.2.2.1
  expF_nonneg x := by
    by_cases hnan : isNaN x = true
    · rw [coarse_expF_nan hnan]
      exact .inl (smallArith_nan.2 coarse_toDouble.2.2.1)
    · show coarseArith.nan (Exact.toDouble (if x = ninf then 0#32 else if isNaN x then _ else
          if gt x 0#32 then _ else if eq x 0#32 then _ else 0#32)) ∨
        Exact.ge (Exact.toDouble (if x = ninf then 0#32 else if isNaN x then _ else
          if gt x 0#32 then _ else if eq x 0#32 then _ else 0#32)) (.fin 0) = true
      obtain ⟨hzero, hone, -, hinf⟩ := coarse_toDouble
      rw [if_neg hnan]
      have hge₀ : Exact.ge (Exact.toDouble 0#32) (.fin 0) = true := by
        rw [hzero]
        decide +kernel
      have hge₁ : Exact.ge (Exact.toDouble 0x3f800000#32) (.fin 0) = true := by
        rw [hone]
        decide +kernel
      split
      · exact .inr hge₀
      · split
        · exact .inl (smallArith_nan.2 hinf)
        · split
          · exact .inr hge₁
          · exact .inr hge₀
  add_nan := smallArith_ieee.add_nan
  add_ge := smallArith_ieee.add_ge
  ge_trans := smallArith_ieee.ge_trans
  zero_ge := smallArith_ieee.zero_ge
  gt_nan := smallArith_ieee.gt_nan
  gt_zero := smallArith_ieee.gt_zero
  mul_zero x hx := if_pos ⟨rfl, (coarse_inverse hx).2.1⟩

theorem coarseArith_rounding : coarseArith.Rounding where
  sub_finite x y hx hy hle := by
    have hnx := isNaN_of_isFinite hx
    have hny := isNaN_of_isFinite hy
    have hne : x ≠ ninf := by
      rintro rfl
      cases hx
    show isNaN (if isNaN x ∨ isNaN y then _ else if x = ninf ∧ y ≠ ninf then _ else
        if ¬ (isFinite x ∧ isFinite y) then _ else if gt x y then _ else
          if eq x y then 0#32 else ninf) = false ∧
      gt (if isNaN x ∨ isNaN y then _ else if x = ninf ∧ y ≠ ninf then _ else
        if ¬ (isFinite x ∧ isFinite y) then _ else if gt x y then _ else
          if eq x y then 0#32 else ninf) 0#32 = false
    rw [hnx, hny, hx, hy, hle, if_neg (by decide), if_neg fun h => hne h.1, if_neg (by decide),
      if_neg (by decide)]
    split <;> decide +kernel
  expF_small _ hx hle := coarse_expF_small hx hle
  expF_isNaN x hx := by
    rw [coarse_expF_nan hx]
    decide
  toDouble_finite _ hx := coarse_toDouble_finite hx
  ge_number x y h hnan := by
    obtain rfl : x = .nan := smallArith_nan.1 hnan
    cases h
  ge_one _ hx := coarse_inverse hx
  mulF_small x y hx hy := by
    show Nonneg (if x = 0#32 ∧ isFinite y then 0#32 else if y = 0x3f800000#32 then x else
      if x = 0x3f800000#32 then y else if Small x ∧ Small y then 0#32 else _)
    have hzero : Nonneg 0#32 := ⟨by decide, by decide⟩
    split
    · exact hzero
    · split
      · exact ⟨isNaN_of_isFinite hx.1, hx.2⟩
      · split
        · exact ⟨isNaN_of_isFinite hy.1, hy.2⟩
        · rw [if_pos ⟨hx, hy⟩]
          exact hzero
  mulF_nan x y hx := by
    have hzero : x ≠ 0#32 := by
      rintro rfl
      cases hx
    have hone : x ≠ 0x3f800000#32 := by
      rintro rfl
      cases hx
    show isNaN (if x = 0#32 ∧ isFinite y then 0#32 else if y = 0x3f800000#32 then x else
      if x = 0x3f800000#32 then y else if Small x ∧ Small y then 0#32 else 0x7fc00000#32) = true
    rw [if_neg fun h => hzero h.1, if_neg hone]
    split
    · exact hx
    · rw [if_neg]
      · decide
      · rintro ⟨⟨hfin, -⟩, -⟩
        rw [isNaN_of_isFinite hfin] at hx
        cases hx
  addF_nonneg x y hx hy := by
    show Nonneg (if y = 0#32 then x else if x = 0#32 then y else
        if x = 0x3f000000#32 ∧ y = 0x3f000000#32 then 0x3f800000#32 else
          if isNaN x ∨ isNaN y then _ else fmax x y) ∧
      gt x (if y = 0#32 then x else if x = 0#32 then y else
        if x = 0x3f000000#32 ∧ y = 0x3f000000#32 then 0x3f800000#32 else
          if isNaN x ∨ isNaN y then _ else fmax x y) = false
    rw [hx.1, hy.1]
    split
    · exact ⟨hx, gt_irrefl _⟩
    · split
      · rename_i h
        rw [h]
        exact ⟨hy, hy.2⟩
      · split
        · rename_i h
          rw [h.1]
          exact ⟨⟨by decide, by decide +kernel⟩, by decide +kernel⟩
        · rw [if_neg (by decide)]
          unfold fmax
          split
          · -- `y` is above `x`
            rename_i h
            obtain ⟨-, -, hlt⟩ := gt_iff.1 h
            refine ⟨hy, ?_⟩
            rw [← Bool.not_eq_true]
            intro h'
            obtain ⟨-, -, hlt'⟩ := gt_iff.1 h'
            omega
          · exact ⟨hx, gt_irrefl _⟩
  addF_nan x y h := by
    show isNaN (if y = 0#32 then x else if x = 0#32 then y else
      if x = 0x3f000000#32 ∧ y = 0x3f000000#32 then 0x3f800000#32 else
        if isNaN x ∨ isNaN y then 0x7fc00000#32 else _) = true
    rw [if_pos h]
    split
    · rename_i hy
      rw [hy] at h
      exact h.resolve_right (by decide)
    · split
      · rename_i hx
        rw [hx] at h
        exact h.resolve_left (by decide)
      · rw [if_neg]
        · decide
        · rintro ⟨rfl, rfl⟩
          rcases h with h | h <;> cases h

/-! ## The equivalence -/

/-- The compact draw stands for the dense one: normalizer, token and CDF value of every hash
value. -/
structure CompactCdf.Exact {D : Type} (A : Arith D) (n : Nat) (logits : Nat → Pattern)
    (m : Members) (d : CompactCdf) : Prop where
  normalizer : d.logNormalizer = logZ A n logits
  draws : ∀ u, InUnit u → d.draw n u = denseDraw (denseCdf A n logits m) n u

/-- **The compact distribution draws as the dense one does exactly when the first rank is
finite.** -/
theorem compact_cdf_exact_iff {D : Type} {A : Arith D} (hA : A.Ieee) (hR : A.Rounding)
    {w : Nat → Pattern} {n k : Nat} {ranked : List (Pattern × Nat)} (hr : RankedBy w n ranked)
    (hk : 1 ≤ k) (hlen : k ≤ ranked.length) (stale : Nat → Pattern) (m : Members) :
    ∃ kth best d, ranked[k - 1]? = some kth ∧ ranked[0]? = some best ∧
      CompactCdf.make A ranked k = .ok d ∧
      (d.Exact A n (strictMask w n kth.1 best.2 (store n w stale)).logits m ↔
        isFinite best.1 = true) := by
  obtain ⟨kth, hkth⟩ : ∃ kth, ranked[k - 1]? = some kth :=
    ⟨_, List.getElem?_eq_getElem (by omega)⟩
  obtain ⟨best, hbest⟩ : ∃ best, ranked[0]? = some best :=
    ⟨_, List.getElem?_eq_getElem (by omega)⟩
  refine ⟨kth, best, CompactCdf.ofSurvivors A (compactSurvivors ranked k kth best), hkth, hbest,
    ?_, ?_⟩
  · unfold CompactCdf.make
    rw [hkth, hbest]
  · rw [compactSurvivors_eq hr hkth (List.mem_of_getElem? hbest)]
    constructor
    · intro hexact
      rw [← Bool.not_eq_false]
      intro hinf
      have hone : InUnit 0x3f800000#32 := ⟨by decide, by decide +kernel, gt_irrefl _⟩
      exact draw_ne hr hkth hbest hA hR hinf stale m (by decide +kernel)
        (hexact.draws _ hone)
    · intro hfin
      obtain ⟨sums, hsame⟩ := runs_of_finite hr hkth hbest hA hR hfin stale m
      refine ⟨hsame.normalizer, fun u hu => ?_⟩
      exact draw_eq survivorIds_sorted (fun i hi => survivorIds_lt hi)
        (List.ne_nil_of_mem (best_survives hr hkth hbest)) hsame.nonneg hsame.mono hsame.zero
        hsame.ids_eq hsame.length hsame.compact hsame.dense hu

/-- Tokens 0 and 2 tie ahead of token 1. -/
def tiedLogits (i : Nat) : Pattern := if i = 1 then 0x3f000000#32 else 0x3f800000#32

def tiedRanks : List (Pattern × Nat) := [(0x3f800000#32, 0), (0x3f800000#32, 2), (0x3f000000#32, 1)]

theorem tied_ranked : RankedBy tiedLogits 3 tiedRanks :=
  ⟨by decide, by decide, by decide +kernel, by decide⟩

theorem compact_cdf_exact_tie : ∃ d, CompactCdf.make coarseArith tiedRanks 3 = .ok d ∧
    d.Exact coarseArith 3 (strictMask tiedLogits 3 0x3f000000#32 0
      (store 3 tiedLogits fun _ => 0#32)).logits (Members.fresh fun _ => 0#32) := by
  obtain ⟨kth, best, d, hkth, hbest, hd, hiff⟩ := @compact_cdf_exact_iff _ _ coarseArith_ieee
    coarseArith_rounding _ _ 3 _ tied_ranked (by decide) (by decide) (fun _ => 0#32)
    (Members.fresh fun _ => 0#32)
  obtain rfl : (0x3f000000#32, 1) = kth := Option.some.inj hkth
  obtain rfl : (0x3f800000#32, 0) = best := Option.some.inj hbest
  exact ⟨d, hd, hiff.2 (by decide)⟩

/-- Token 1 at infinity. -/
def infiniteLogits (i : Nat) : Pattern := if i = 1 then 0x7f800000#32 else 0#32

/-- **An infinite logit**: the compact draw is token 1 with a NaN, the dense one no token. -/
theorem compact_cdf_infinite : RankedBy infiniteLogits 2 [(0x7f800000#32, 1), (0#32, 0)] ∧
    InUnit 0x3f800000#32 ∧
    ∃ d, CompactCdf.make coarseArith [(0x7f800000#32, 1), (0#32, 0)] 1 = .ok d ∧
      d.draw 2 0x3f800000#32 = (1, 0x7fc00000#32) ∧
      denseDraw (denseCdf coarseArith 2 (strictMask infiniteLogits 2 0x7f800000#32 1
        (store 2 infiniteLogits fun _ => 0#32)).logits (Members.fresh fun _ => 0#32)) 2
          0x3f800000#32 = (2, 0#32) := by
  refine ⟨⟨by decide, by decide, by decide +kernel, by decide⟩, by decide +kernel, ?_⟩
  have hsort : compactSurvivors [(0x7f800000#32, 1), (0#32, 0)] 1 (0x7f800000#32, 1)
      (0x7f800000#32, 1) = [(1, 0x7f800000#32)] := List.mergeSort_singleton _
  refine ⟨_, rfl, ?_, ?_⟩
  · rw [hsort]
    decide +kernel
  · decide +kernel

end Sampler
