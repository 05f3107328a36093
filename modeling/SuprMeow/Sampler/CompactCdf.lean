import SuprMeow.Library.LowerBound
import SuprMeow.Sampler.Refinement

/-!
# The compact CDF

`CompactCdf` holds the distribution over the survivors of top-k alone, at temperature one and
without top-p, and `map_rank` gives the rank that the hasher's search finds back its token.

* `CompactCdf.make`, `CompactCdf.draw` — the constructor, and search and `map_rank`;
* `strictMask`, `denseCdf`, `denseDraw` — the dense steps 5 to 9 over the same ranking;
* `referenceCore_dense` — they are what `sample_token_complete` does when the compact branch may
  replace it;
* `compactSurvivors_eq` — the survivors of both are the same, in the same order.
-/

set_option autoImplicit false

open Binary32
open MaskedFold (store store_of_lt)
open LowerBound (lowerBound)

namespace Sampler

/-! ## `CompactCdf` -/

structure CompactCdf where
  ids : List Nat
  cdf : List Pattern
  logNormalizer : Pattern
  deriving DecidableEq

/-- The survivors in id order: the leading ranks above rank `k - 1`, or the first alone. -/
def compactSurvivors (ranked : List (Pattern × Nat)) (k : Nat) (kth best : Pattern × Nat) :
    List (Nat × Pattern) :=
  let leading := ((ranked.take (k - 1)).takeWhile fun e => gt e.1 kth.1).map fun e => (e.2, e.1)
  (if leading = [] then [(best.2, best.1)] else leading).mergeSort ivLe

section Compact

variable {D : Type} (A : Arith D)

/-- The last loop: scaled in place and accumulated. -/
def runningCdf (inv : Pattern) : Pattern → List Pattern → List Pattern
  | _, [] => []
  | cumulative, v :: vs =>
    let cumulative := A.addF cumulative (A.mulF v inv)
    cumulative :: runningCdf inv cumulative vs

def CompactCdf.ofSurvivors (survivors : List (Nat × Pattern)) : CompactCdf :=
  let maximum := survivors.foldl (fun m x => fmax m x.2) (survivors.headD (0, 0#32)).2
  let e := survivors.map fun x => A.expF (A.subF x.2 maximum)
  let z := e.foldl (fun z v => A.add z (A.toDouble v)) A.zero
  let normalizerSum := survivors.foldl
    (fun s x => A.add s (A.exp (A.toDouble (A.subF x.2 maximum)))) A.zero
  let inv := if A.gt z A.zero then A.toFloat (A.div A.one z) else 0#32
  { ids := survivors.map Prod.fst
    cdf := runningCdf A inv 0#32 e
    logNormalizer := A.addF maximum (A.toFloat (A.log normalizerSum)) }

/-- The constructor. -/
def CompactCdf.make (ranked : List (Pattern × Nat)) (k : Nat) : Except Stop CompactCdf :=
  match ranked[k - 1]?, ranked[0]? with
  | some kth, some best => .ok (ofSurvivors A (compactSurvivors ranked k kth best))
  | _, _ => .error .outOfBounds

end Compact

/-- `map_rank`: at `u = 0` the dense search stops at token zero, even if its mass is zero. -/
def CompactCdf.mapRank (d : CompactCdf) (rank : Nat) (u : Pattern) (vocab : Nat) : Nat × Pattern :=
  if eq u 0#32 then (0, if d.ids.headD 0 = 0 then d.cdf.headD 0#32 else 0#32)
  else if rank = d.ids.length then (vocab, 0#32)
  else (d.ids.getD rank 0, d.cdf.getD rank 0#32)

/-- Token and probability for the hash value `u`. -/
def CompactCdf.draw (d : CompactCdf) (vocab : Nat) (u : Pattern) : Nat × Pattern :=
  d.mapRank (lowerBound (fun r => gt u (d.cdf.getD r 0#32)) d.cdf.length) u vocab

/-! ## The dense steps -/

/-- Step 5 with the threshold and the fallback of a ranking. -/
def strictMask (w : Nat → Pattern) (n : Nat) (kth : Pattern) (best : Nat)
    (logits : Nat → Pattern) : Mask :=
  let scan := scanThreshold w n kth (fun _ => false) logits
  if scan.survivors = 0 then onlySurvivor n best (w best) scan.keep scan.logits else scan

/-- Steps 7 and 8, into the storage `m`. -/
def denseCdf {D : Type} (A : Arith D) (n : Nat) (logits : Nat → Pattern) (m : Members) :
    Nat → Pattern :=
  cumulate A n (softmax A n logits m.probs) m.cdf

/-- Step 9: token and probability for the hash value `u`. -/
def denseDraw (cdf : Nat → Pattern) (n : Nat) (u : Pattern) : Nat × Pattern :=
  let token := lowerBound (fun i => gt u (cdf i)) n
  (token, if token < n then cdf token else 0#32)

/-- **At temperature one, without top-p and with `top_k` below the vocabulary, the vendored sampler
is the dense steps over its own ranking.** -/
theorem referenceCore_dense {D : Type} {A : Arith D} {c : Call} {m : Members}
    (hscale : c.scales = false) (htopP : c.doTopP A = false) (htopK : c.doTopK)
    (hnan : ∀ i < c.nVocab, isNaN (c.working A i) = false) :
    ∃ m' o kth best, referenceCore A c m = .ok (m', o) ∧
      (fullSort (c.working A) c.nVocab)[c.topK.toNat - 1]? = some kth ∧
      (fullSort (c.working A) c.nVocab)[0]? = some best ∧
      let logits := (strictMask (c.working A) c.nVocab kth.1 best.2
        (store c.nVocab (c.working A) (m.ensureCapacity c.nVocab).logits)).logits
      o.softmaxLogZ = logZ A c.nVocab logits ∧
        o.cdf = denseCdf A c.nVocab logits (m.ensureCapacity c.nVocab) := by
  obtain ⟨hpos, hlt⟩ := htopK
  have hn : 0 < c.nVocab := by omega
  obtain ⟨best, hbest, hargmax, hfirst⟩ := argmaxScan_eq hnan hn
  have hkpos : c.kpos = c.topK.toNat - 1 := by
    unfold Call.kpos
    omega
  have hlen : (fullSort (c.working A) c.nVocab).length = c.nVocab := by
    rw [fullSort, List.length_map, (PowGpu.rankedIds_perm _ _).length_eq, List.length_range]
  have hkth : c.kpos < (fullSort (c.working A) c.nVocab).length := by
    rw [hlen, hkpos]
    omega
  obtain ⟨kth, hk⟩ : ∃ kth, (fullSort (c.working A) c.nVocab)[c.kpos]? = some kth :=
    ⟨_, List.getElem?_eq_getElem hkth⟩
  have hscaled : (fun i => c.scale A (c.working A i)) = c.working A := by
    funext i
    unfold Call.scale
    rw [hscale]
    rfl
  obtain ⟨mask, hmask⟩ : ∃ mask, strictMask (c.working A) c.nVocab kth.1 best
      (store c.nVocab (c.working A) (m.ensureCapacity c.nVocab).logits) = mask := ⟨_, rfl⟩
  have hblock : c.topKBlock A (fun _ => false)
      (store c.nVocab (c.working A) (m.ensureCapacity c.nVocab).logits) = .ok mask := by
    rw [← hmask]
    unfold Call.topKBlock strictMask
    dsimp only
    rw [if_pos ⟨hpos, hlt⟩, hk]
    dsimp only
    rw [hargmax]
    unfold Call.scaleBest
    rw [hscale]
    split <;> rfl
  have hnoTopP : ¬ (c.doTopP A = true ∧ 0 < mask.survivors) := by
    rintro ⟨h, -⟩
    rw [htopP] at h
    cases h
  have hcore : referenceCore A c m = .ok
      (⟨(m.ensureCapacity c.nVocab).size, mask.logits,
          softmax A c.nVocab mask.logits (m.ensureCapacity c.nVocab).probs,
          denseCdf A c.nVocab mask.logits (m.ensureCapacity c.nVocab),
          (m.ensureCapacity c.nVocab).candExp⟩,
        ⟨mask.keep, mask.keep, mask.logits, logZ A c.nVocab mask.logits,
          softmax A c.nVocab mask.logits (m.ensureCapacity c.nVocab).probs,
          denseCdf A c.nVocab mask.logits (m.ensureCapacity c.nVocab),
          raceSupport c.nVocab mask.logits⟩) := by
    unfold referenceCore
    rw [if_neg (by omega)]
    dsimp only
    rw [hscaled, hblock]
    dsimp only [bind, Except.bind]
    rw [if_neg hnoTopP]
    rfl
  refine ⟨_, _, kth, _, hcore, by rw [← hkpos, hk], hfirst, ?_⟩
  dsimp only
  rw [hmask]
  exact ⟨rfl, rfl⟩

/-! ## Survivors -/

theorem gt_iff {a b : Pattern} :
    gt a b = true ↔ isNaN a = false ∧ isNaN b = false ∧ scaled b < scaled a := by
  unfold gt
  simp [and_assoc]

theorem eq_iff {a b : Pattern} :
    eq a b = true ↔ isNaN a = false ∧ isNaN b = false ∧ scaled a = scaled b := by
  unfold eq
  simp [and_assoc]

/-- IEEE `a >= b`. -/
def AtLeast (a b : Pattern) : Prop := gt a b = true ∨ eq a b = true

theorem atLeast_iff {a b : Pattern} :
    AtLeast a b ↔ isNaN a = false ∧ isNaN b = false ∧ scaled b ≤ scaled a := by
  unfold AtLeast
  rw [gt_iff, eq_iff]
  constructor
  · rintro (⟨ha, hb, h⟩ | ⟨ha, hb, h⟩)
    · exact ⟨ha, hb, le_of_lt h⟩
    · exact ⟨ha, hb, ge_of_eq h⟩
  · rintro ⟨ha, hb, h⟩
    rcases lt_or_eq_of_le h with h | h
    · exact .inl ⟨ha, hb, h⟩
    · exact .inr ⟨ha, hb, h.symm⟩

/-- `ranked` begins a ranking of the logits `w`: distinct ids with their values, descending, and
nothing left out is above what is listed. -/
structure RankedBy (w : Nat → Pattern) (n : Nat) (ranked : List (Pattern × Nat)) : Prop where
  ids : ∀ e ∈ ranked, e.2 < n ∧ w e.2 = e.1
  distinct : (ranked.map Prod.snd).Nodup
  descending : ranked.Pairwise fun a b => AtLeast a.1 b.1
  rest : ∀ i < n, i ∉ ranked.map Prod.snd → ∀ e ∈ ranked, gt (w i) e.1 = false

/-- What the strict exclusion leaves. -/
def survives (w : Nat → Pattern) (n : Nat) (kth : Pattern) (best i : Nat) : Bool :=
  if above w n kth = [] then i == best else gt (w i) kth

section Survivors

variable {w : Nat → Pattern} {n k : Nat} {ranked : List (Pattern × Nat)} {kth best : Pattern × Nat}
  (hr : RankedBy w n ranked) (hk : ranked[k - 1]? = some kth)
include hr hk

/-- **The leading ranks above the threshold are the ids above it.** -/
theorem leading_perm : (((ranked.take (k - 1)).takeWhile fun e => gt e.1 kth.1).map
    fun e => (e.2, e.1)).Perm ((above w n kth.1).map fun i => (i, w i)) := by
  have hdesc := hr.descending
  have hpass : (ranked.take (k - 1)).Pairwise fun a b =>
      gt b.1 kth.1 = true → gt a.1 kth.1 = true := by
    refine (hdesc.sublist (List.take_sublist _ _)).imp fun {a b} hab hb => ?_
    obtain ⟨ha, -, hle⟩ := atLeast_iff.1 hab
    obtain ⟨-, hkth, hlt⟩ := gt_iff.1 hb
    exact gt_iff.2 ⟨ha, hkth, lt_of_lt_of_le hlt hle⟩
  rw [takeWhile_eq_filter hpass]
  have hnodup : ((ranked.take (k - 1)).filter fun e => gt e.1 kth.1).Nodup := by
    have hnd : ranked.Nodup := List.Nodup.of_map _ hr.distinct
    exact (hnd.sublist (List.take_sublist _ _)).filter _
  refine (List.perm_ext_iff_of_nodup ?_ ?_).2 ?_
  · apply hnodup.map
    rintro ⟨x, i⟩ ⟨y, j⟩ h
    cases h
    rfl
  · apply (List.nodup_range.filter _).map
    intro i j h
    exact congrArg Prod.fst h
  · rintro ⟨i, x⟩
    simp only [List.mem_map, List.mem_filter, mem_above]
    constructor
    · rintro ⟨e, ⟨he, hgt⟩, heq⟩
      obtain ⟨hlt, hval⟩ := hr.ids e (List.mem_of_mem_take he)
      refine ⟨e.2, ⟨hlt, by rw [hval]; exact hgt⟩, ?_⟩
      rw [hval]
      exact heq
    · rintro ⟨j, ⟨hj, hgt⟩, heq⟩
      obtain ⟨hkpos, hkget⟩ := List.getElem?_eq_some_iff.1 hk
      have hkmem : kth ∈ ranked := List.mem_of_getElem? hk
      have hlisted : j ∈ ranked.map Prod.snd := by
        by_contra hout
        rw [hr.rest j hj hout kth hkmem] at hgt
        cases hgt
      obtain ⟨e, he, rfl⟩ := List.mem_map.1 hlisted
      obtain ⟨-, hval⟩ := hr.ids e he
      rw [hval] at hgt heq
      refine ⟨e, ⟨?_, hgt⟩, heq⟩
      -- above rank `k - 1`, so before it
      rw [← List.take_append_drop (k - 1) ranked] at he
      rcases List.mem_append.1 he with he | he
      · exact he
      · rw [List.drop_eq_getElem_cons hkpos, hkget] at he
        have hsuffix := hdesc.sublist (List.drop_sublist (k - 1) _)
        rw [List.drop_eq_getElem_cons hkpos, hkget, List.pairwise_cons] at hsuffix
        obtain ⟨-, -, hlt⟩ := gt_iff.1 hgt
        rcases List.mem_cons.1 he with rfl | he
        · exact absurd hlt (lt_irrefl _)
        · obtain ⟨-, -, hle⟩ := atLeast_iff.1 (hsuffix.1 e he)
          exact absurd hlt (not_lt.2 hle)

/-- **The compact survivors are the dense ones, in id order and with their values.** -/
theorem compactSurvivors_eq (hbest : best ∈ ranked) :
    compactSurvivors ranked k kth best =
      ((List.range n).filter (survives w n kth.1 best.2)).map fun i => (i, w i) := by
  have hperm := leading_perm hr hk
  unfold compactSurvivors
  dsimp only
  by_cases hnone : above w n kth.1 = []
  · rw [hnone, List.map_nil] at hperm
    obtain ⟨hlt, hval⟩ := hr.ids best hbest
    have honly : (List.range n).filter (survives w n kth.1 best.2) = [best.2] := by
      have hpred : survives w n kth.1 best.2 = fun i => i == best.2 := by
        funext i
        unfold survives
        rw [if_pos hnone]
      rw [hpred, List.filter_beq,
        List.count_eq_one_of_mem List.nodup_range (List.mem_range.2 hlt)]
      rfl
    rw [if_pos hperm.eq_nil, honly, List.map_singleton, hval]
    exact List.mergeSort_singleton _
  · have hsome : ¬ (((ranked.take (k - 1)).takeWhile fun e => gt e.1 kth.1).map
        fun e => (e.2, e.1)) = [] := by
      intro hnil
      rw [hnil] at hperm
      exact hnone (List.map_eq_nil_iff.1 hperm.symm.eq_nil)
    have hall : (List.range n).filter (survives w n kth.1 best.2) = above w n kth.1 := by
      apply List.filter_congr
      intro i _
      unfold survives
      rw [if_neg hnone]
    have hsep : Ranking.Separates Prod.fst (((ranked.take (k - 1)).takeWhile
        fun e => gt e.1 kth.1).map fun e => (e.2, e.1)) := by
      intro a ha b hb hab
      obtain ⟨i, -, rfl⟩ := List.mem_map.1 (hperm.mem_iff.1 ha)
      obtain ⟨j, -, rfl⟩ := List.mem_map.1 (hperm.mem_iff.1 hb)
      dsimp only at hab
      rw [hab]
    rw [if_neg hsome, hall, Ranking.mergeSort_eq_ranking hsep]
    · refine (Ranking.eq_ranking hsep hperm.symm ?_).symm
      rw [List.pairwise_map]
      exact (List.pairwise_lt_range.sublist List.filter_sublist).imp fun h => h.le
    · intro a ha b hb
      obtain ⟨i, -, rfl⟩ := List.mem_map.1 (hperm.mem_iff.1 ha)
      obtain ⟨j, -, rfl⟩ := List.mem_map.1 (hperm.mem_iff.1 hb)
      exact ivLe_eq

end Survivors

/-- The mask leaves the survivors' logits and masks the others. -/
theorem strictMask_logits (w : Nat → Pattern) (n : Nat) (kth : Pattern) {best : Nat}
    (stale : Nat → Pattern) {i : Nat} (hi : i < n) :
    (strictMask w n kth best (store n w stale)).logits i =
      if survives w n kth best i = true then w i else ninf := by
  have hcount : (scanThreshold w n kth (fun _ => false) (store n w stale)).survivors = 0 ↔
      above w n kth = [] := by
    unfold scanThreshold above
    dsimp only
    rw [List.countP_eq_length_filter, List.length_eq_zero_iff]
  unfold strictMask survives
  dsimp only
  by_cases hnone : above w n kth = []
  · rw [if_pos (hcount.2 hnone), if_pos hnone]
    unfold onlySurvivor
    dsimp only
    by_cases hbest : i = best
    · rw [hbest, Function.update_self, if_pos (beq_self_eq_true _)]
    · rw [Function.update_of_ne hbest, store_of_lt _ _ hi, if_neg (by simpa using hbest)]
  · rw [if_neg (fun h => hnone (hcount.1 h)), if_neg hnone]
    unfold scanThreshold
    dsimp only
    rw [store_of_lt _ _ hi, store_of_lt _ _ hi]

end Sampler
