import SuprMeow.Sampler.Staged

/-!
# Survivors from the sorted prefix

* `takeWhile_gt_eq` — the leading ranks above the threshold are all the ids above it;
* `survIv_eq` — sorted by id they are the survivors of the dense scan, with their values;
* `argmaxScan_eq` — the dense argmax is rank 0;
* `stagedTopK_eq` — with the threshold inside the prefix, step 5 leaves the reference's mask.
-/

set_option autoImplicit false

open Binary32 PowGpu
open MaskedFold (store store_store store_of_lt store_of_le store_congr)

namespace Sampler

/-! ## Ranks -/

theorem gt_eq {a b : Pattern} (ha : isNaN a = false) (hb : isNaN b = false) :
    gt a b = decide (descending a < descending b) := by
  rw [gt, ha, hb, Bool.not_false, Bool.true_and, Bool.true_and, decide_eq_decide]
  exact (descending_lt_iff a b).symm

theorem gt_irrefl (a : Pattern) : gt a a = false := by simp [gt]

/-- If what comes first passes whenever what comes later does, the prefix that passes is all. -/
theorem takeWhile_eq_filter {α : Type} {p : α → Bool} {l : List α}
    (h : l.Pairwise fun a b => p b = true → p a = true) : l.takeWhile p = l.filter p := by
  induction l with
  | nil => rfl
  | cons a l ih =>
    rw [List.pairwise_cons] at h
    cases ha : p a with
    | true =>
      rw [List.takeWhile_cons_of_pos ha, List.filter_cons_of_pos ha, ih h.2]
    | false =>
      rw [List.takeWhile_cons_of_neg (by rw [ha]; decide),
        List.filter_cons_of_neg (by rw [ha]; decide), eq_comm, List.filter_eq_nil_iff]
      intro b hb hpb
      rw [h.1 b hb hpb] at ha
      cases ha

section Ranks

variable {w : Nat → Pattern} {n : Nat} (hnan : ∀ i < n, isNaN (w i) = false)
include hnan

theorem ranked_descending :
    (rankedIds w n).Pairwise fun i j => descending (w i) ≤ descending (w j) :=
  (rankedIds_pairwise hnan).imp fun {i j} h => by
    rcases lt_or_eq_of_le h with hlt | heq
    · rcases rankKey_lt_iff.1 hlt with h | h
      · exact h.le
      · exact h.1.le
    · rw [rankKey_injective w heq]

theorem ranked_lt {i : Nat} (h : i ∈ rankedIds w n) : isNaN (w i) = false :=
  hnan i (mem_rankedIds.1 h)

/-- **The leading ranks above rank `k` are all the ids above it.** -/
theorem takeWhile_gt_eq {k id : Nat} (hid : (rankedIds w n)[k]? = some id) :
    ((rankedIds w n).take k).takeWhile (fun i => gt (w i) (w id)) =
      (rankedIds w n).filter fun i => gt (w i) (w id) := by
  have hsorted := ranked_descending hnan
  have hidn := ranked_lt hnan (List.mem_of_getElem? hid)
  rw [takeWhile_eq_filter]
  · obtain ⟨hk, hget⟩ := List.getElem?_eq_some_iff.1 hid
    have hrest : ((rankedIds w n).drop k).filter (fun i => gt (w i) (w id)) = [] := by
      rw [List.filter_eq_nil_iff]
      intro i hi
      have hle : descending (w id) ≤ descending (w i) := by
        rw [List.drop_eq_getElem_cons hk, hget] at hi
        have hs := hsorted.sublist (List.drop_sublist k _)
        rw [List.drop_eq_getElem_cons hk, hget, List.pairwise_cons] at hs
        rcases List.mem_cons.1 hi with rfl | hi
        · exact le_rfl
        · exact hs.1 i hi
      rw [gt_eq (ranked_lt hnan (List.mem_of_mem_drop hi)) hidn, decide_eq_true_eq]
      exact Nat.not_lt.2 hle
    conv_rhs => rw [← List.take_append_drop k (rankedIds w n), List.filter_append, hrest,
      List.append_nil]
  · refine (hsorted.sublist (List.take_sublist k _)).imp_of_mem fun {i j} hi hj hle => ?_
    rw [gt_eq (ranked_lt hnan (List.mem_of_mem_take hi)) hidn,
      gt_eq (ranked_lt hnan (List.mem_of_mem_take hj)) hidn, decide_eq_true_eq, decide_eq_true_eq]
    omega

/-- The ids above a threshold, in id order. -/
def above (w : Nat → Pattern) (n : Nat) (kth : Pattern) : List Nat :=
  (List.range n).filter fun i => gt (w i) kth

omit hnan in
theorem mem_above {kth : Pattern} {i : Nat} : i ∈ above w n kth ↔ i < n ∧ gt (w i) kth = true := by
  rw [above, List.mem_filter, List.mem_range]

omit hnan in
theorem ivLe_eq {i j : Nat} : ivLe (i, w i) (j, w j) = decide (i ≤ j) := by
  unfold ivLe
  rcases Nat.lt_trichotomy i j with h | rfl | h
  · simp [h, h.le]
  · simp [gt_irrefl]
  · simp [Nat.not_lt.2 h.le, h.ne', Nat.not_le.2 h]

/-- **Sorted by id, the ranks above the threshold are the survivors of the dense scan.** -/
theorem survIv_eq {k id : Nat} (hid : (rankedIds w n)[k]? = some id) :
    survIv (fullSort w n) k (w id) = (above w n (w id)).map fun i => (i, w i) := by
  have hlead : (((fullSort w n).take k).takeWhile fun p => gt p.1 (w id)).map
      (fun p => (p.2, p.1)) =
      ((rankedIds w n).filter fun i => gt (w i) (w id)).map fun i => (i, w i) := by
    rw [← takeWhile_gt_eq hnan hid, fullSort, ← List.map_take, List.takeWhile_map, List.map_map]
    rfl
  have hperm : ((above w n (w id)).map fun i => (i, w i)).Perm
      (((rankedIds w n).filter fun i => gt (w i) (w id)).map fun i => (i, w i)) :=
    (((rankedIds_perm w n).filter _).symm).map _
  have hsep : Ranking.Separates Prod.fst
      (((rankedIds w n).filter fun i => gt (w i) (w id)).map fun i => (i, w i)) := by
    intro a ha b hb hab
    obtain ⟨i, -, rfl⟩ := List.mem_map.1 ha
    obtain ⟨j, -, rfl⟩ := List.mem_map.1 hb
    dsimp only at hab
    rw [hab]
  rw [survIv, hlead, Ranking.mergeSort_eq_ranking hsep]
  · refine (Ranking.eq_ranking hsep hperm ?_).symm
    rw [List.pairwise_map]
    exact (List.pairwise_lt_range.sublist List.filter_sublist).imp fun h => h.le
  · intro a ha b hb
    obtain ⟨i, -, rfl⟩ := List.mem_map.1 ha
    obtain ⟨j, -, rfl⟩ := List.mem_map.1 hb
    exact ivLe_eq

/-- What the argmax scan has after the ids below `m`. -/
theorem argmaxScan_fold {m : Nat} (hm : m < n) :
    ∃ a ≤ m, (List.range' 1 m).foldl (fun st i =>
        if gt (w i) st.1 || (eq (w i) st.1 && decide (i < st.2)) then (w i, i) else st) (w 0, 0) =
          (w a, a) ∧ ∀ i ≤ m, rankKey w a ≤ rankKey w i := by
  induction m with
  | zero => exact ⟨0, le_rfl, rfl, fun i hi => by rw [Nat.le_zero.1 hi]⟩
  | succ m ih =>
    obtain ⟨a, ham, hfold, hmin⟩ := ih (by omega)
    rw [List.range'_concat, List.foldl_append, hfold, List.foldl_cons, List.foldl_nil]
    have htie : (eq (w (1 + 1 * m)) (w a) && decide (1 + 1 * m < a)) = false := by
      rw [decide_eq_false (by omega), Bool.and_false]
    dsimp only
    rw [htie, Bool.or_false, gt_eq (hnan _ (by omega)) (hnan _ (by omega)), Nat.one_mul,
      Nat.add_comm 1 m]
    by_cases hgt : descending (w (m + 1)) < descending (w a)
    · rw [if_pos (decide_eq_true hgt)]
      refine ⟨m + 1, le_rfl, rfl, fun i hi => ?_⟩
      rcases Nat.lt_or_ge m i with h | h
      · rw [show i = m + 1 by omega]
      · exact ((rankKey_lt_iff.2 (.inl hgt)).trans_le (hmin i h)).le
    · rw [if_neg (by rwa [decide_eq_true_eq])]
      refine ⟨a, by omega, rfl, fun i hi => ?_⟩
      rcases Nat.lt_or_ge m i with h | h
      · rw [show i = m + 1 by omega]
        refine le_of_lt (rankKey_lt_iff.2 ?_)
        omega
      · exact hmin i h

/-- **The dense argmax is rank 0.** -/
theorem argmaxScan_eq (hn : 0 < n) :
    ∃ a < n, argmaxScan w n = (w a, a) ∧ (fullSort w n)[0]? = some (w a, a) := by
  obtain ⟨a, han, hfold, hmin⟩ := @argmaxScan_fold w n hnan (n - 1) (by omega)
  refine ⟨a, by omega, hfold, ?_⟩
  have hrank : (rankedIds w n)[0]? = some a := by
    rw [rankedIds_eq_ranking hnan, Ranking.getElem?_ranking_iff
      (fun _ _ _ _ h => rankKey_injective w h) List.nodup_range]
    refine ⟨List.mem_range.2 (by omega), List.countP_eq_zero.2 fun b hb => ?_⟩
    rw [List.mem_range] at hb
    rw [decide_eq_true_eq]
    exact not_lt.2 (hmin b (by omega))
  rw [fullSort, List.getElem?_map, hrank]
  rfl

end Ranks

/-! ## The mask of step 5 -/

/-- The entries of `pretemp_desc_`. -/
def Call.sorted (c : Call) : Nat :=
  match c.presorted with
  | some p => p.kcopy c.nVocab
  | none => c.nVocab

/-- A call on host logits without NaNs; the slot, when it is filled, holds their first ranks. -/
structure Call.HostMode {D : Type} (A : Arith D) (c : Call) : Prop where
  nan : ∀ i < c.nVocab, isNaN (c.working A i) = false
  probes : ∀ p, c.presorted = some p → p.probes = none
  ranks : ∀ p, c.presorted = some p →
    ∀ r < p.kcopy c.nVocab, (fullSort (c.working A) c.nVocab)[r]? = some (p.val r, p.idx r)

/-- The survivor list goes with the mask. -/
structure StagedMask.Lists (mask : StagedMask) (n : Nat) : Prop where
  valid : mask.survValid = true
  ids : mask.survIds = (List.range n).filter mask.keep
  masked : ∀ i < n, mask.keep i = false → mask.logits i = ninf
  one : 0 < mask.survivors

theorem Call.kpos_lt {c : Call} (h : c.doTopK) : c.kpos < c.nVocab := by
  have h1 : 0 < c.topK := h.1
  have h2 : c.topK < c.nVocab := h.2
  unfold Call.kpos
  omega

section Mask

variable {D : Type} {A : Arith D} {c : Call}

theorem Call.HostMode.deviceProbes (h : c.HostMode A) : c.deviceProbes = none := by
  unfold Call.deviceProbes
  cases hp : c.presorted with
  | none => rfl
  | some p => exact h.probes p hp

theorem Call.HostMode.stagedScale (h : c.HostMode A) (logits : Nat → Pattern) :
    c.stagedScale A logits = store c.nVocab (fun i => c.scale A (c.working A i)) logits := by
  rw [Call.stagedScale, h.deviceProbes]

/-- **In host mode `pretemp_desc_` is a prefix of the full ranking.** -/
theorem Call.HostMode.pretempDesc (h : c.HostMode A) :
    c.pretempDesc A = (fullSort (c.working A) c.nVocab).take c.sorted := by
  unfold Call.pretempDesc Call.sorted
  cases hp : c.presorted with
  | none => rw [List.take_of_length_le (by simp [fullSort])]
  | some p =>
    refine List.ext_getElem? fun r => ?_
    rw [List.getElem?_map, List.getElem?_take]
    by_cases hr : r < p.kcopy c.nVocab
    · rw [if_pos hr, List.getElem?_range hr, h.ranks p hp r hr]
      rfl
    · rw [if_neg hr, List.getElem?_eq_none (by rw [List.length_range]; omega)]
      rfl

theorem survIv_length (pre : List (Pattern × Nat)) (kpos : Nat) (kth : Pattern) :
    (survIv pre kpos kth).length ≤ kpos := by
  rw [survIv, List.length_mergeSort, List.length_map]
  exact (List.takeWhile_sublist _).length_le.trans (List.length_take_le kpos pre)

/-- The fast path of step 5 leaves the mask of the dense scan. -/
theorem survivorScan_eq (h : c.HostMode A) (hpos : c.kpos < c.sorted) {id : Nat}
    (hid : (rankedIds (c.working A) c.nVocab)[c.kpos]? = some id) (base : Nat → Pattern) :
    c.survivorScan A (c.pretempDesc A) (c.working A id) (fun _ => false)
        (store c.nVocab (fun i => c.scale A (c.working A i)) base) =
      { scanThreshold (c.working A) c.nVocab (c.working A id) (fun _ => false)
          (store c.nVocab (fun i => c.scale A (c.working A i)) base) with
        survValid := true
        survIds := above (c.working A) c.nVocab (c.working A id) } := by
  have hiv : survIv (c.pretempDesc A) c.kpos (c.working A id) =
      (above (c.working A) c.nVocab (c.working A id)).map fun i => (i, c.working A i) := by
    rw [← survIv_eq h.nan hid, survIv, survIv, h.pretempDesc, List.take_take,
      Nat.min_eq_left hpos.le]
  have hlen := survIv_length (c.pretempDesc A) c.kpos (c.working A id)
  generalize hids : above (c.working A) c.nVocab (c.working A id) = ids at hiv ⊢
  have hmem : ∀ i, i ∈ ids ↔ i < c.nVocab ∧ gt (c.working A i) (c.working A id) = true :=
    fun i => hids ▸ mem_above
  have hkeep := @MaskedFold.foldl_update_eq Bool (fun _ => true) ids
    (store c.nVocab (fun _ => false) fun _ => false)
  have hlogits := @MaskedFold.foldl_update_eq Pattern (fun i => c.scale A (c.working A i)) ids
    (store c.nVocab (fun _ => ninf) base)
  unfold Call.survivorScan scanThreshold
  dsimp only
  rw [if_pos hlen, hiv, List.foldl_map, List.foldl_map, List.length_map, List.map_map, store_store,
    hkeep, hlogits, ← hids, List.countP_eq_length_filter, hids]
  congr 1
  · congr 1
    · funext i
      by_cases hi : i < c.nVocab
      · rw [store_of_lt _ _ hi, store_of_lt _ _ hi]
        exact if_congr (by simp [hmem, hi]) rfl rfl
      · rw [store_of_le _ _ (Nat.not_lt.1 hi), store_of_le _ _ (Nat.not_lt.1 hi),
          if_neg fun h => hi ((hmem i).1 h).1]
    · funext i
      by_cases hi : i < c.nVocab
      · rw [store_of_lt _ _ hi, store_of_lt _ _ hi, store_of_lt _ _ hi]
        exact if_congr (by simp [hmem, hi]) rfl rfl
      · rw [store_of_le _ _ (Nat.not_lt.1 hi), store_of_le _ _ (Nat.not_lt.1 hi),
          store_of_le _ _ (Nat.not_lt.1 hi), if_neg fun h => hi ((hmem i).1 h).1]
    · rw [← hids, above]
  · exact List.map_id _

/-- **With the threshold inside the prefix, step 5 leaves the reference's mask and its list.** -/
theorem stagedTopK_eq (h : c.HostMode A) (hk : c.doTopK) (hpos : c.kpos < c.sorted) (s : Staged)
    (base : Nat → Pattern) :
    ∃ mask : StagedMask,
      c.stagedTopK A s (fun _ => false)
        (store c.nVocab (fun i => c.scale A (c.working A i)) base) = .ok mask ∧
      c.topKBlock A (fun _ => false)
        (store c.nVocab (fun i => c.scale A (c.working A i)) base) = .ok mask.toMask ∧
      mask.Lists c.nVocab := by
  have hkn := Call.kpos_lt hk
  obtain ⟨id, hid⟩ : ∃ id, (rankedIds (c.working A) c.nVocab)[c.kpos]? = some id :=
    ⟨_, List.getElem?_eq_getElem (by rwa [length_rankedIds])⟩
  have hkth : (fullSort (c.working A) c.nVocab)[c.kpos]? = some (c.working A id, id) := by
    rw [fullSort, List.getElem?_map, hid]
    rfl
  have hpre : (c.pretempDesc A)[c.kpos]? = some (c.working A id, id) := by
    rw [h.pretempDesc, List.getElem?_take, if_pos hpos, hkth]
  unfold Call.stagedTopK Call.topKBlock
  rw [if_pos hk, if_pos hk]
  dsimp only
  rw [hpre, hkth]
  dsimp only
  rw [survivorScan_eq h hpos hid]
  by_cases hzero : (scanThreshold (c.working A) c.nVocab (c.working A id) (fun _ => false)
      (store c.nVocab (fun i => c.scale A (c.working A i)) base)).survivors = 0
  · -- a total tie: rank 0 is the only survivor
    obtain ⟨a, han, hargmax, hfirst⟩ := argmaxScan_eq h.nan (Nat.zero_lt_of_lt hkn)
    have hpre0 : (c.pretempDesc A)[0]? = some (c.working A a, a) := by
      rw [h.pretempDesc, List.getElem?_take, if_pos (Nat.zero_lt_of_lt hpos), hfirst]
    rw [if_pos hzero, if_pos hzero, hpre0, hargmax]
    refine ⟨_, rfl, rfl, rfl, ?_, fun i hi hkeep => ?_, Nat.one_pos⟩
    · have honly : [a] = (List.range c.nVocab).filter (· == a) := by
        rw [List.filter_beq, List.count_eq_one_of_mem List.nodup_range (List.mem_range.2 han),
          List.replicate_one]
      refine honly.trans (List.filter_congr fun i hi => ?_)
      dsimp only [onlySurvivor]
      by_cases hia : i = a
      · rw [hia, Function.update_self, beq_self_eq_true]
      · rw [Function.update_of_ne hia, store_of_lt _ _ (List.mem_range.1 hi), beq_false_of_ne hia]
    · dsimp only [onlySurvivor] at hkeep ⊢
      have hia : i ≠ a := by
        rintro rfl
        rw [Function.update_self] at hkeep
        cases hkeep
      rw [Function.update_of_ne hia, store_of_lt _ _ hi]
  · rw [if_neg hzero, if_neg hzero]
    refine ⟨_, rfl, rfl, rfl, ?_, fun i hi hkeep => ?_, Nat.pos_of_ne_zero hzero⟩
    · refine List.filter_congr fun i hi => ?_
      dsimp only [scanThreshold]
      rw [store_of_lt _ _ (List.mem_range.1 hi)]
      cases gt (c.working A i) (c.working A id) <;> rfl
    · dsimp only [scanThreshold] at hkeep ⊢
      rw [store_of_lt _ _ hi] at hkeep ⊢
      refine if_neg fun hgt => ?_
      rw [if_pos hgt] at hkeep
      cases hkeep

end Mask

end Sampler
