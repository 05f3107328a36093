import Mathlib.Algebra.Order.Ring.Rat
import SuprMeow.Library.Runs
import SuprMeow.Sampler.Tail

/-!
# The staged sampler against the vendored one, call after call

* `Call.Covered` — what a call needs from the state it meets;
* `stagedCore_eq` — then it computes what the vendored sampler computes, and leaves its members;
* `staged_refines` — so do all calls of a run whose calls are covered;
* `stale_survivors` — a run in which a call with a cut is followed by one without.
-/

set_option autoImplicit false

open Binary32 Runs
open MaskedFold (store store_store)

namespace Sampler

section Step

variable {D : Type} {A : Arith D} {c : Call}

/-- A call that cuts finds its threshold in the sorted prefix, and a call that does not cut finds
no survivor list of an earlier call. -/
def Call.Covered (c : Call) (s : Staged) : Prop :=
  0 < c.nVocab → (c.doTopK → c.topK ≤ c.sorted) ∧ (s.survValid = true → c.doTopK)

/-- The removed zero-fills are the only difference between the two `ensure_capacity_`. -/
theorem ensureCapacity_eq (s : Staged) (n : Nat) :
    s.toMembers.ensureCapacity n =
      { (s.ensureCapacity n).toMembers with
        logits := store n (fun _ => 0#32) (s.ensureCapacity n).logits
        probs := store n (fun _ => 0#32) (s.ensureCapacity n).probs
        cdf := store n (fun _ => 0#32) (s.ensureCapacity n).cdf } := by
  have hself : store n (fun _ => 0#32) (fun _ => 0#32) = fun _ => (0#32 : Pattern) :=
    funext fun i => ite_self _
  unfold Members.ensureCapacity Staged.ensureCapacity
  split
  · dsimp only
    rw [hself]
  · rfl

theorem ensureCapacity_survValid (s : Staged) (n : Nat) :
    (s.ensureCapacity n).survValid = s.survValid := by
  unfold Staged.ensureCapacity
  split <;> rfl

/-- Step 5 leaves one mask, and the survivor list goes with it or is not used. -/
theorem topK_agree (h : c.HostMode A) {s : Staged} (hn : 0 < c.nVocab) (hcov : c.Covered s)
    (base : Nat → Pattern) :
    ∃ mask : StagedMask,
      c.stagedTopK A (s.ensureCapacity c.nVocab) (fun _ => false)
        (store c.nVocab (fun i => c.scale A (c.working A i)) base) = .ok mask ∧
      c.topKBlock A (fun _ => false)
        (store c.nVocab (fun i => c.scale A (c.working A i)) base) = .ok mask.toMask ∧
      (mask.survValid = true → mask.Lists c.nVocab) := by
  obtain ⟨hpre, hstale⟩ := hcov hn
  by_cases hk : c.doTopK
  · have hpos : c.kpos < c.sorted := by
      have hle := hpre hk
      have h1 : 0 < c.topK := hk.1
      unfold Call.kpos
      omega
    obtain ⟨mask, h1, h2, h3⟩ := stagedTopK_eq h hk hpos (s.ensureCapacity c.nVocab) base
    exact ⟨mask, h1, h2, fun _ => h3⟩
  · unfold Call.stagedTopK Call.topKBlock
    rw [if_neg hk, if_neg hk]
    refine ⟨_, rfl, rfl, fun hv => ?_⟩
    dsimp only at hv
    rw [ensureCapacity_survValid] at hv
    exact absurd (hstale hv) hk

section Mask

variable (hA : A.Ieee) {n : Nat} {mask : StagedMask}
  (hlists : mask.survValid = true → mask.Lists n) {logits : Nat → Pattern}
include hA hlists

theorem stagedLogZ_eq (hmask : ∀ i, mask.logits i = ninf → logits i = ninf) :
    stagedLogZ A n mask logits = logZ A n logits := by
  unfold stagedLogZ
  split
  · rename_i hv
    have hl := hlists hv
    rw [hl.ids]
    exact survLogZ_eq hA fun i hi hk => hmask i (hl.masked i hi hk)
  · rfl

theorem stagedSoftmax_eq (probs : Nat → Pattern) :
    stagedSoftmax A n mask mask.logits probs = softmax A n mask.logits probs := by
  unfold stagedSoftmax
  split
  · rename_i hv
    have hl := hlists hv
    rw [hl.ids]
    exact survSoftmax_eq hA hl.masked probs
  · rfl

theorem stagedCumulate_eq {probs : Nat → Pattern}
    (hzero : mask.survValid = true → ∀ i < n, mask.keep i = false → probs i = 0#32)
    (cdf : Nat → Pattern) : stagedCumulate A n mask probs cdf = cumulate A n probs cdf := by
  unfold stagedCumulate
  split
  · rename_i hv
    rw [(hlists hv).ids]
    exact survCumulate_eq hA (hzero hv) cdf
  · rfl

end Mask

/-- **A covered call computes what the vendored sampler computes and leaves its members.** -/
theorem stagedCore_eq (hA : A.Ieee) {c : Call} (h : c.HostMode A) {s : Staged}
    (hcov : c.Covered s) :
    (stagedCore A c s).map (fun x => (x.1.toMembers, x.2)) = referenceCore A c s.toMembers := by
  unfold stagedCore referenceCore
  by_cases hn : c.nVocab = 0
  · rw [if_pos hn, if_pos hn]
    rfl
  · rw [if_neg hn, if_neg hn]
    dsimp only
    rw [ensureCapacity_eq]
    dsimp only
    rw [store_store, h.stagedScale]
    obtain ⟨mask, hstaged, href, hlists⟩ := topK_agree h (Nat.pos_of_ne_zero hn) hcov
      (s.ensureCapacity c.nVocab).logits
    rw [hstaged, href]
    show Except.map _ (if c.doTopP A = true ∧ 0 < mask.survivors then _ else _) =
      if c.doTopP A = true ∧ 0 < mask.survivors then _ else _
    by_cases hp : c.doTopP A = true ∧ 0 < mask.survivors
    · rw [if_pos hp, if_pos hp, nucleusProbs_store, cumulate_store,
        stagedLogZ_eq hA hlists fun i hi => topPBlock_masked A c.nVocab c.topP _ _ _ hi,
        stagedCumulate_eq hA hlists fun _ i hi hk => nucleusProbs_zero A c.nVocab _ hi
          (topPBlock_dropped A c.nVocab c.topP _ _ _ hk)]
      rfl
    · rw [if_neg hp, if_neg hp, softmax_store, cumulate_store,
        stagedLogZ_eq hA hlists fun i hi => hi, stagedSoftmax_eq hA hlists,
        stagedCumulate_eq hA hlists fun hv i hi hk => softmax_zero hA (hlists hv).masked _ hi hk]
      rfl

end Step

/-! ## Runs -/

section Run

variable {D : Type} (A : Arith D)

/-- A coordinator before its first call; `storage` is what the heap holds behind `cand_exp_`. -/
def Members.fresh (storage : Nat → Pattern) : Members :=
  ⟨0, fun _ => 0#32, fun _ => 0#32, fun _ => 0#32, storage⟩

/-- The two samplers side by side.  An exception leaves both as they were; a read out of bounds
ends the run. -/
def samplers (storage : Nat → Pattern) : Machine (Members × Staged) Call where
  init := (Members.fresh storage, ⟨Members.fresh storage, false, []⟩)
  step st c :=
    match referenceCore A c st.1, stagedCore A c st.2 with
    | .ok r, .ok r' => some (r.1, r'.1)
    | .error _, .error .noVocab => some st
    | _, _ => none

/-- Both samplers answer the call alike: mask, logits, `log_Z`, probabilities, CDF and race
support. -/
def SameOutcome (st : Members × Staged) (c : Call) : Prop :=
  (stagedCore A c st.2).map Prod.snd = (referenceCore A c st.1).map Prod.snd

variable {A}

theorem sameOutcome_of_covered (hA : A.Ieee) {c : Call} (h : c.HostMode A) {s : Staged}
    (hcov : c.Covered s) : SameOutcome A (s.toMembers, s) c := by
  unfold SameOutcome
  rw [← stagedCore_eq hA h hcov]
  cases stagedCore A c s <;> rfl

theorem samplers_step (hA : A.Ieee) {storage : Nat → Pattern} {c : Call} (h : c.HostMode A)
    {s : Staged} (hcov : c.Covered s) {t : Members × Staged}
    (ht : (samplers A storage).step (s.toMembers, s) c = some t) : t.1 = t.2.toMembers := by
  unfold samplers at ht
  dsimp only at ht
  rw [← stagedCore_eq hA h hcov] at ht
  cases hs : stagedCore A c s with
  | ok r =>
    rw [hs] at ht
    cases ht
    rfl
  | error e =>
    rw [hs] at ht
    cases e with
    | noVocab => cases ht; rfl
    | outOfBounds => cases ht

/-- **In a run whose calls are all covered, the staged sampler answers every call as the vendored
one does.** -/
theorem staged_refines (hA : A.Ieee) (storage : Nat → Pattern) {calls : List Call}
    (hcalls : ∀ c ∈ calls, c.HostMode A)
    (hcov : (samplers A storage).Guarded (fun st c => c.Covered st.2) (samplers A storage).init
      calls) :
    (samplers A storage).Guarded (SameOutcome A) (samplers A storage).init calls := by
  have hrun : ∀ (calls : List Call), (∀ c ∈ calls, c.HostMode A) → ∀ s : Staged,
      (samplers A storage).Guarded (fun st c => c.Covered st.2) (s.toMembers, s) calls →
      (samplers A storage).Guarded (SameOutcome A) (s.toMembers, s) calls := by
    intro calls
    induction calls with
    | nil => exact fun _ _ _ => trivial
    | cons c calls ih =>
      intro hcalls s hg
      have hc := hcalls c List.mem_cons_self
      refine ⟨sameOutcome_of_covered hA hc hg.1, fun t ht => ?_⟩
      obtain ⟨m, s'⟩ := t
      obtain rfl : m = s'.toMembers := samplers_step hA hc hg.1 ht
      exact ih (fun c hc => hcalls c (List.mem_cons_of_mem _ hc)) s' (hg.2 _ ht)
  exact hrun calls hcalls ⟨Members.fresh storage, false, []⟩ hcov

end Run

/-! ## A run on small numbers -/

/-- Doubles with exact rationals. -/
inductive Exact where
  | nan
  | ninf
  | fin (q : Rat)

namespace Exact

def add : Exact → Exact → Exact
  | .fin a, .fin b => .fin (a + b)
  | .nan, _ => .nan
  | _, .nan => .nan
  | _, _ => .ninf

def ge : Exact → Exact → Bool
  | .fin a, .fin b => decide (b ≤ a)
  | .fin _, .ninf => true
  | .ninf, .ninf => true
  | _, _ => false

def toDouble (x : Pattern) : Exact :=
  if x = Sampler.ninf then .ninf else if isFinite x then .fin (toRat x) else .nan

/-- `0.5f` and `1.0f`; nothing else is reached. -/
def toFloat : Exact → Pattern
  | .fin q => if q = 1 then 0x3f800000#32 else if q = 1 / 2 then 0x3f000000#32 else 0#32
  | _ => 0x7fc00000#32

end Exact

/-- Arithmetic that is right on zeros, ones, a half and the infinities. -/
def smallArith : Arith Exact where
  addF x y := if y = 0#32 then x else if x = 0#32 then y
    else if x = 0x3f000000#32 ∧ y = 0x3f000000#32 then 0x3f800000#32 else 0x7fc00000#32
  subF x y := if isNaN x ∨ isNaN y then 0x7fc00000#32 else if x = ninf ∧ y ≠ ninf then ninf
    else if x = y ∧ isFinite x then 0#32 else 0x7fc00000#32
  mulF x y := if x = 0#32 ∧ isFinite y then 0#32 else if y = 0x3f800000#32 then x
    else if x = 0x3f800000#32 then y else 0x7fc00000#32
  divF x y := if y = 0x3f800000#32 then x else 0x7fc00000#32
  expF x := if x = ninf then 0#32 else if x = 0#32 then 0x3f800000#32 else 0x7fc00000#32
  ofNat k := if k = 1 then 0x3f800000#32 else 0x7fc00000#32
  fp16 x := x
  int8 x := x
  toDouble := Exact.toDouble
  toFloat := Exact.toFloat
  zero := .fin 0
  one := .fin 1
  add := Exact.add
  div x y := match x, y with
    | .fin a, .fin b => .fin (a / b)
    | _, _ => .nan
  exp x := match x with
    | .ninf => .fin 0
    | .fin q => if q = 0 then .fin 1 else .nan
    | .nan => .nan
  log x := match x with
    | .fin q => if q = 1 then .fin 0 else .nan
    | _ => .nan
  gt x y := Exact.ge x y && !Exact.ge y x
  ge := Exact.ge

theorem smallArith_nan {x : Exact} : smallArith.nan x ↔ x = .nan := by
  cases x <;> simp [Arith.nan, smallArith, Exact.ge]

theorem smallArith_expF (x : Pattern) : smallArith.toDouble (smallArith.expF x) =
    if x = ninf then .fin 0 else if x = 0#32 then .fin 1 else .nan := by
  have h0 : Exact.toDouble 0#32 = .fin 0 := by
    rw [Exact.toDouble, if_neg (by decide), if_pos (by decide)]
    exact congrArg Exact.fin (by decide +kernel)
  have h1 : Exact.toDouble 0x3f800000#32 = .fin 1 := by
    rw [Exact.toDouble, if_neg (by decide), if_pos (by decide)]
    exact congrArg Exact.fin (by decide +kernel)
  have hn : Exact.toDouble 0x7fc00000#32 = .nan := by
    rw [Exact.toDouble, if_neg (by decide), if_neg (by decide)]
  show Exact.toDouble (if x = ninf then _ else if x = 0#32 then _ else _) = _
  split
  · exact h0
  · split
    · exact h1
    · exact hn

theorem smallArith_ieee : smallArith.Ieee where
  addF_zero x _ := by
    dsimp only [smallArith]
    rw [if_pos rfl]
  add_zero x _ := by
    cases x with
    | fin q => exact congrArg Exact.fin (add_zero q)
    | _ => rfl
  exp_ninf := rfl
  expF_ninf := rfl
  toDouble_zero := smallArith_expF ninf
  ninf_sub x hx hne := by
    show (if isNaN ninf ∨ isNaN x then _ else if ninf = ninf ∧ x ≠ ninf then ninf else _) = ninf
    rw [hx, if_neg (by decide), if_pos ⟨rfl, hne⟩]
  sub_self x hx := by
    have hnan := isNaN_of_isFinite hx
    have hne : x ≠ ninf := by rintro rfl; cases hx
    show (if isNaN x ∨ isNaN x then _ else if x = ninf ∧ x ≠ ninf then _ else
      if x = x ∧ isFinite x then 0#32 else _) = 0#32
    rw [hnan, if_neg (by decide), if_neg fun h => hne h.1, if_pos ⟨rfl, hx⟩]
  sub_self_nan x hx := by
    show isNaN (if isNaN x ∨ isNaN x then _ else if x = ninf ∧ x ≠ ninf then _ else
      if x = x ∧ isFinite x then 0#32 else _) = true
    rw [hx]
    split
    · decide
    · rw [if_neg fun h => h.2 h.1, if_neg fun h => by cases h.2]
      decide
  nan_sub x y hx := by
    show isNaN (if isNaN x ∨ isNaN y then _ else _) = true
    rw [if_pos (.inl hx)]
    decide
  expF_zero := by rw [smallArith_expF]; rfl
  expF_nan x hx := by
    rw [smallArith_expF, if_neg (by rintro rfl; cases hx), if_neg (by rintro rfl; cases hx),
      smallArith_nan]
  expF_nonneg x := by
    rw [smallArith_expF]
    split
    · exact .inr (by decide +kernel)
    · split
      · exact .inr (by decide +kernel)
      · exact .inl rfl
  add_nan x y h := by
    rw [smallArith_nan, smallArith_nan] at h
    rw [smallArith_nan]
    rcases h with rfl | rfl
    · rfl
    · cases x <;> rfl
  add_ge x y hx hy := by
    cases x with
    | fin a =>
      cases y with
      | fin b =>
        have ha : 0 ≤ a := of_decide_eq_true hx
        have hb : 0 ≤ b := of_decide_eq_true hy
        exact ⟨decide_eq_true (le_add_of_nonneg_right hb),
          decide_eq_true (le_add_of_nonneg_left ha)⟩
      | _ => cases hy
    | _ => cases hx
  ge_trans x y z hxy hyz := by
    cases z with
    | nan => cases y <;> cases hyz
    | ninf =>
      cases x with
      | nan => cases y <;> cases hxy
      | _ => rfl
    | fin c =>
      cases y with
      | fin b =>
        cases x with
        | fin a => exact decide_eq_true (le_trans (of_decide_eq_true hyz) (of_decide_eq_true hxy))
        | _ => cases hxy
      | _ => cases hyz
  zero_ge := by decide +kernel
  gt_nan x h := by
    rw [smallArith_nan] at h
    rw [h]
    rfl
  gt_zero := by decide +kernel
  mul_zero x hx := by
    have hfin : isFinite (smallArith.toFloat (smallArith.div smallArith.one x)) = true := by
      cases x with
      | fin q =>
        show isFinite (if (1 / q : Rat) = 1 then _ else if 1 / q = 1 / 2 then _ else 0#32) = true
        split
        · decide
        · split <;> decide
      | _ => cases hx
    exact if_pos ⟨rfl, hfin⟩

/-- Two equal logits, at temperature one. -/
def tiedCall (topK : Int) (presorted : Option Presorted) : Call where
  nVocab := 2
  rawLogits _ := 0x3f800000#32
  temperature := 0x3f800000#32
  topK := topK
  topP := 0x3f800000#32
  computePrecision := "fp32"
  presorted := presorted
  v4 := false
  sampleToken _ := 0
  race _ := 0

theorem tiedCall_working (topK : Int) (presorted : Option Presorted) :
    (tiedCall topK presorted).working smallArith = fun _ => 0x3f800000#32 := by
  rw [Call.working, if_neg fun h => h.1 rfl]
  rfl

theorem tiedCall_nan (topK : Int) (presorted : Option Presorted) (i : Nat) :
    isNaN ((tiedCall topK presorted).working smallArith i) = false := by
  rw [tiedCall_working]
  show isNaN 0x3f800000#32 = false
  decide

theorem tiedCall_sort (topK : Int) (presorted : Option Presorted) :
    fullSort ((tiedCall topK presorted).working smallArith) 2 =
      [(0x3f800000#32, 0), (0x3f800000#32, 1)] := by
  have hranks : [0, 1] = Ranking.ranking (PowGpu.rankKey fun _ => 0x3f800000#32) (List.range 2) :=
    Ranking.eq_ranking (fun _ _ _ _ h => PowGpu.rankKey_injective _ h) (List.Perm.refl _)
      (by decide)
  rw [tiedCall_working, fullSort, PowGpu.rankedIds_eq_ranking (fun _ _ => by decide), ← hranks]
  rfl

theorem tiedCall_hostMode (topK : Int) : (tiedCall topK none).HostMode smallArith where
  nan i _ := tiedCall_nan topK none i
  probes := nofun
  ranks := nofun

/-- One logit above two others, with the two injected ranks that top-k of two needs. -/
def peakCall : Call :=
  { tiedCall 2 (some
      ⟨fun r => if r = 0 then 1 else 0, fun r => if r = 0 then 0x3f800000#32 else 0#32, 2, none⟩) with
    nVocab := 3
    rawLogits := fun i => if i = 1 then 0x3f800000#32 else 0#32 }

theorem peakCall_working :
    peakCall.working smallArith = fun i => if i = 1 then 0x3f800000#32 else 0#32 := by
  rw [Call.working, if_neg fun h => h.1 rfl]
  rfl

theorem peakCall_nan (i : Nat) : isNaN (peakCall.working smallArith i) = false := by
  rw [peakCall_working]
  dsimp only
  split <;> decide

theorem peakCall_sort : fullSort (peakCall.working smallArith) 3 =
    [(0x3f800000#32, 1), (0#32, 0), (0#32, 2)] := by
  have hranks : [1, 0, 2] = Ranking.ranking
      (PowGpu.rankKey fun i => if i = 1 then 0x3f800000#32 else 0#32) (List.range 3) :=
    Ranking.eq_ranking (fun _ _ _ _ h => PowGpu.rankKey_injective _ h) (by decide) (by decide)
  have hnan := peakCall_nan
  rw [peakCall_working] at hnan ⊢
  rw [fullSort, PowGpu.rankedIds_eq_ranking (fun i _ => hnan i), ← hranks]
  rfl

theorem peakCall_hostMode : peakCall.HostMode smallArith where
  nan i _ := peakCall_nan i
  probes p hp := by cases hp; rfl
  ranks p hp r hr := by
    cases hp
    have hrank := congrArg (fun l => l[r]?) peakCall_sort
    have hlt : r < 2 := hr
    interval_cases r <;> exact hrank

/-- The rank above the threshold is the survivor list. -/
theorem peakCall_survivors :
    survIv (peakCall.pretempDesc smallArith) peakCall.kpos 0#32 = [(1, 0x3f800000#32)] := by
  have hfront : (((peakCall.pretempDesc smallArith).take peakCall.kpos).takeWhile
      fun p => gt p.1 0#32) = [(0x3f800000#32, 1)] := by decide +kernel
  rw [survIv, hfront]
  exact List.mergeSort_singleton _

/-- Three calls that cut: the first ranks on the host, the second has one injected rank, and both
fall back to the best id; the third keeps the survivor of its injected prefix. -/
theorem staged_refines_cuts :
    survIv (peakCall.pretempDesc smallArith) peakCall.kpos 0#32 = [(1, 0x3f800000#32)] ∧
      (samplers smallArith fun _ => 0#32).Guarded (SameOutcome smallArith)
        (samplers smallArith fun _ => 0#32).init
        [tiedCall 1 none, tiedCall 1 (some ⟨fun _ => 0, fun _ => 0x3f800000#32, 1, none⟩),
          peakCall] := by
  refine ⟨peakCall_survivors, staged_refines smallArith_ieee _ ?_
    ⟨?_, fun t _ => ⟨?_, fun t _ => ⟨?_, fun _ _ => trivial⟩⟩⟩⟩
  · intro c hc
    rcases List.mem_cons.1 hc with rfl | hc
    · exact tiedCall_hostMode 1
    · rcases List.mem_cons.1 hc with rfl | hc
      · refine ⟨fun i _ => tiedCall_nan 1 _ i, fun p hp => by cases hp; rfl,
          fun p hp r hr => ?_⟩
        cases hp
        obtain rfl : r = 0 := Nat.lt_one_iff.1 hr
        exact congrArg (fun l => l[0]?) (tiedCall_sort 1 _)
      · obtain rfl := List.mem_singleton.1 hc
        exact peakCall_hostMode
  · exact fun _ => ⟨fun _ => by decide, fun _ => by decide⟩
  · exact fun _ => ⟨fun _ => by decide, fun _ => by decide⟩
  · exact fun _ => ⟨fun _ => by decide, fun _ => by decide⟩

/-- What the staged sampler gives id 1 in a call without a cut that follows the one with. -/
theorem tied_staged : ∃ r, stagedCore smallArith (tiedCall 1 none)
      ⟨Members.fresh fun _ => 0#32, false, []⟩ = .ok r ∧
    (stagedCore smallArith (tiedCall 0 none) r.1).map (fun r => r.2.probs 1) = .ok 0#32 := by
  have htop : ∀ s logits, (tiedCall 1 none).stagedTopK smallArith s (fun _ => false) logits =
      .ok { onlySurvivor 2 0 0x3f800000#32 (store 2 (fun _ => false) fun _ => false)
              (store 2 (fun _ => ninf) logits) with
            survValid := true
            survIds := [0] } := by
    intro s logits
    have hpre : (tiedCall 1 none).pretempDesc smallArith =
        [(0x3f800000#32, 0), (0x3f800000#32, 1)] := tiedCall_sort 1 none
    have hiv : ∀ pre kth, survIv pre (tiedCall 1 none).kpos kth = [] := fun pre kth =>
      List.eq_nil_of_length_eq_zero (Nat.le_zero.1 (survIv_length pre 0 kth))
    unfold Call.stagedTopK Call.survivorScan
    rw [if_pos (by decide), hpre]
    simp only [hiv]
    rfl
  apply Exists.intro
  constructor
  · unfold stagedCore
    rw [if_neg (by decide)]
    dsimp only
    rw [htop]
    rfl
  · decide +kernel

/-- What the vendored sampler gives it. -/
theorem tied_reference : ∃ r, referenceCore smallArith (tiedCall 1 none)
      (Members.fresh fun _ => 0#32) = .ok r ∧
    (referenceCore smallArith (tiedCall 0 none) r.1).map (fun r => r.2.probs 1) =
      .ok 0x3f000000#32 := by
  have htop : ∀ logits, (tiedCall 1 none).topKBlock smallArith (fun _ => false) logits =
      let scan := scanThreshold (fun _ => 0x3f800000#32) 2 0x3f800000#32 (fun _ => false) logits
      .ok (onlySurvivor 2 0 0x3f800000#32 scan.keep scan.logits) := by
    intro logits
    have hsort : fullSort ((tiedCall 1 none).working smallArith) (tiedCall 1 none).nVocab =
        [(0x3f800000#32, 0), (0x3f800000#32, 1)] := tiedCall_sort 1 none
    unfold Call.topKBlock
    rw [if_pos (by decide), hsort, tiedCall_working]
    rfl
  apply Exists.intro
  constructor
  · unfold referenceCore
    rw [if_neg (by decide)]
    dsimp only
    rw [htop]
    rfl
  · decide +kernel

/-- **A call without a cut after one with a cut runs over the survivor of the first**, and gives
the other id probability zero where the vendored sampler gives it one half. -/
theorem stale_survivors :
    smallArith.Ieee ∧ (tiedCall 1 none).HostMode smallArith ∧
      (tiedCall 0 none).HostMode smallArith ∧
      ¬ (samplers smallArith fun _ => 0#32).Guarded (SameOutcome smallArith)
        (samplers smallArith fun _ => 0#32).init [tiedCall 1 none, tiedCall 0 none] := by
  refine ⟨smallArith_ieee, tiedCall_hostMode 1, tiedCall_hostMode 0, fun h => ?_⟩
  obtain ⟨r, hr, hprobs⟩ := tied_staged
  obtain ⟨r', hr', hprobs'⟩ := tied_reference
  have hstep : (samplers smallArith fun _ => 0#32).step (samplers smallArith fun _ => 0#32).init
      (tiedCall 1 none) = some (r'.1, r.1) := by
    show (match referenceCore smallArith (tiedCall 1 none) (Members.fresh fun _ => 0#32),
        stagedCore smallArith (tiedCall 1 none) ⟨Members.fresh fun _ => 0#32, false, []⟩ with
      | .ok r, .ok r' => some (r.1, r'.1)
      | .error _, .error .noVocab => some _
      | _, _ => none) = _
    rw [hr, hr']
  have hsame := congrArg (Except.map fun o => o.probs 1) (h.2 _ hstep).1
  dsimp only at hsame
  have hmap : ∀ {α : Type} (x : Except Stop (α × Outcome)),
      (x.map Prod.snd).map (fun o => o.probs 1) = x.map fun r => r.2.probs 1 := fun x => by
    cases x <;> rfl
  rw [hmap, hmap, hprobs, hprobs'] at hsame
  cases hsame

end Sampler
