import SuprMeow.Library.Decimal
import SuprMeow.Sampler.Refinement

/-!
# How long the presorted prefix must be

`sample_step` injects the first `K = min(MEOW_SORT_K, n_vocab)` ranks; the sampler cuts at top-k
50 and copies the top 50 into the telemetry.

* `kEnv` — the value of the variable, 64 by default;
* `sampleTokenComplete_prefix` — a prefix of 50 ranks, or of all, samples as the whole ranking;
* `prefix_length_iff` — a shorter one is read past its end.
-/

set_option autoImplicit false

open Binary32 PowGpu

namespace Sampler

/-! ## The environment variable -/

/-- `std::atoi`, for values that fit; 0 where there is no number. -/
def atoi (s : List UInt8) : Int := ((Decimal.read s).map (·.1)).getD 0

/-- `k_env`, from the value of `MEOW_SORT_K`. -/
def kEnv (env : Option (List UInt8)) : Nat :=
  let v := (env.map atoi).getD 64
  if 0 < v then v.toNat else 64

theorem kEnv_pos (env : Option (List UInt8)) : 0 < kEnv env := by
  unfold kEnv
  dsimp only
  split
  · rename_i h; exact Int.lt_toNat.2 h
  · decide

/-- What `sample_step` puts into the slot: the first `K` ranks of the values `v`. -/
structure Presorted.FirstRanks (p : Presorted) (v : Nat → Pattern) (n K : Nat) : Prop where
  count : p.count = K
  ranks : ∀ r < K, (fullSort v n)[r]? = some (p.val r, p.idx r)

/-- The call with this in the slot. -/
def Call.inject (c : Call) (slot : Option Presorted) : Call := { c with presorted := slot }

section Prefix

variable {D : Type} (A : Arith D) {c : Call} {v : Nat → Pattern} {p : Presorted}
  {full : Option Presorted} {K : Nat}

theorem pretempDesc_inject (hp : p.FirstRanks v c.nVocab K) (hK : 0 < K ∧ K ≤ c.nVocab) :
    (c.inject (some p)).pretempDesc A = (fullSort v c.nVocab).take K := by
  have hcopy : p.kcopy c.nVocab = K := by
    have := hp.count
    unfold Presorted.kcopy
    split <;> omega
  show (List.range (p.kcopy c.nVocab)).map (fun r => (p.val r, p.idx r)) = _
  rw [hcopy]
  refine List.ext_getElem? fun r => ?_
  rw [List.getElem?_map, List.getElem?_take]
  by_cases hr : r < K
  · rw [if_pos hr, List.getElem?_range hr, hp.ranks r hr]
    rfl
  · rw [if_neg hr, List.getElem?_eq_none (by rw [List.length_range]; omega)]
    rfl

/-- Two slots that agree on the ranks the sampler reads give one result. -/
theorem sampleTokenComplete_congr {slot slot' : Option Presorted}
    (hprobes : (c.inject slot).deviceProbes = (c.inject slot').deviceProbes)
    (hkth : c.doTopK → ((c.inject slot).pretempDesc A)[c.kpos]? =
      ((c.inject slot').pretempDesc A)[c.kpos]?)
    (hscan : c.doTopK → ((c.inject slot).pretempDesc A).take c.kpos =
      ((c.inject slot').pretempDesc A).take c.kpos)
    (hbest : c.doTopK → ((c.inject slot).pretempDesc A)[0]? =
      ((c.inject slot').pretempDesc A)[0]?)
    (htelemetry : (c.inject slot).telemetry A = (c.inject slot').telemetry A) (s : Staged) :
    sampleTokenComplete A (c.inject slot) s = sampleTokenComplete A (c.inject slot') s := by
  have hworking : (c.inject slot).stagedWorking A = (c.inject slot').stagedWorking A := by
    unfold Call.stagedWorking
    rw [hprobes]
    rfl
  have hscale : (c.inject slot).stagedScale A = (c.inject slot').stagedScale A := by
    funext logits
    unfold Call.stagedScale
    rw [hprobes]
    rfl
  have hsurv : c.doTopK → (c.inject slot).survivorScan A ((c.inject slot).pretempDesc A) =
      (c.inject slot').survivorScan A ((c.inject slot').pretempDesc A) := fun hk => by
    funext kth keep logits
    have hiv : survIv ((c.inject slot).pretempDesc A) (c.inject slot).kpos kth =
        survIv ((c.inject slot').pretempDesc A) (c.inject slot').kpos kth :=
      congrArg (fun l => ((l.takeWhile fun p => gt p.1 kth).map fun p => (p.2, p.1)).mergeSort ivLe)
        (hscan hk)
    unfold Call.survivorScan
    rw [hiv, hworking]
    rfl
  have htop : (c.inject slot).stagedTopK A = (c.inject slot').stagedTopK A := by
    funext s keep logits
    unfold Call.stagedTopK
    by_cases hk : c.doTopK
    · have hread : ((c.inject slot).pretempDesc A)[(c.inject slot).kpos]? =
          ((c.inject slot').pretempDesc A)[(c.inject slot').kpos]? := hkth hk
      rw [if_pos (show (c.inject slot).doTopK from hk),
        if_pos (show (c.inject slot').doTopK from hk)]
      dsimp only
      rw [hread, hsurv hk, hbest hk]
      rfl
    · rw [if_neg (show ¬ (c.inject slot).doTopK from hk),
        if_neg (show ¬ (c.inject slot').doTopK from hk)]
      rfl
  have hcore : stagedCore A (c.inject slot) s = stagedCore A (c.inject slot') s := by
    unfold stagedCore
    rw [hscale, htop]
    rfl
  unfold sampleTokenComplete
  rw [hcore, htelemetry]
  rfl

/-- Only the missing vocabulary raises. -/
theorem stagedCore_noVocab {s : Staged} (h : stagedCore A c s = .error .noVocab) :
    c.nVocab = 0 := by
  by_contra hn
  unfold stagedCore at h
  rw [if_neg hn] at h
  dsimp only at h
  cases htop : c.stagedTopK A (s.ensureCapacity c.nVocab) (fun _ => false)
      (c.stagedScale A (s.ensureCapacity c.nVocab).logits) with
  | ok mask =>
    rw [htop] at h
    change (if c.doTopP A = true ∧ 0 < mask.survivors then _ else _) = _ at h
    split at h <;> cases h
  | error e =>
    rw [htop] at h
    obtain rfl : e = .noVocab := by cases h; rfl
    unfold Call.stagedTopK at htop
    dsimp only at htop
    split at htop
    · split at htop
      · cases htop
      · split at htop
        · split at htop <;> cases htop
        · cases htop
    · cases htop

/-- The telemetry is read past the prefix when it is shorter than the top 50 and the vocabulary. -/
theorem sampleTokenComplete_short (hn : c.nVocab ≠ 0)
    (hlen : (c.pretempDesc A).length < min 50 c.nVocab) (s : Staged) :
    sampleTokenComplete A c s = .error .outOfBounds := by
  have htelemetry : c.telemetry A = .error .outOfBounds := if_neg (Nat.not_le.2 hlen)
  unfold sampleTokenComplete
  rw [htelemetry]
  cases hs : stagedCore A c s with
  | ok r => rfl
  | error e =>
    cases e with
    | noVocab => exact absurd (stagedCore_noVocab A hs) hn
    | outOfBounds => rfl

/-- With the threshold and the telemetry inside the prefix nothing is read past it. -/
theorem sampleTokenComplete_in_bounds (hkth : c.doTopK → c.kpos < (c.pretempDesc A).length)
    (htop : min 50 c.nVocab ≤ (c.pretempDesc A).length) (s : Staged) :
    sampleTokenComplete A c s ≠ .error .outOfBounds := by
  have hmask : ∀ s keep logits, ∃ mask, c.stagedTopK A s keep logits = .ok mask := by
    intro s keep logits
    unfold Call.stagedTopK
    split
    · rename_i hk
      have hlt := hkth hk
      dsimp only
      rw [List.getElem?_eq_getElem hlt, List.getElem?_eq_getElem (Nat.zero_lt_of_lt hlt)]
      dsimp only
      split
      · exact ⟨_, rfl⟩
      · exact ⟨_, rfl⟩
    · exact ⟨_, rfl⟩
  have hcore : stagedCore A c s ≠ .error .outOfBounds := by
    unfold stagedCore
    split
    · nofun
    · dsimp only
      obtain ⟨mask, hm⟩ := hmask (s.ensureCapacity c.nVocab) (fun _ => false)
        (c.stagedScale A (s.ensureCapacity c.nVocab).logits)
      rw [hm]
      change (if c.doTopP A = true ∧ 0 < mask.survivors then _ else _) ≠ _
      split <;> nofun
  have htelemetry : ∃ l, c.telemetry A = .ok l := ⟨_, if_pos htop⟩
  obtain ⟨l, hl⟩ := htelemetry
  unfold sampleTokenComplete
  rw [hl]
  cases hs : stagedCore A c s with
  | ok r => nofun
  | error e =>
    rintro ⟨⟩
    exact hcore hs

/-- **A prefix of 50 ranks, or of all of them, samples as the whole ranking.** -/
theorem sampleTokenComplete_prefix (htop : c.topK = 50) (hn : 0 < c.nVocab)
    (hp : p.FirstRanks v c.nVocab K) (hK : min 50 c.nVocab ≤ K ∧ K ≤ c.nVocab)
    (hprobes : (c.inject (some p)).deviceProbes = (c.inject full).deviceProbes)
    (hfull : (c.inject full).pretempDesc A = fullSort v c.nVocab) (s : Staged) :
    sampleTokenComplete A (c.inject (some p)) s = sampleTokenComplete A (c.inject full) s := by
  have hpre := pretempDesc_inject A hp ⟨by omega, hK.2⟩
  have hlen : (fullSort v c.nVocab).length = c.nVocab := by
    rw [fullSort, List.length_map, length_rankedIds]
  have hkpos : c.doTopK → c.kpos < K := fun hk => by
    have h : c.topK < c.nVocab := hk.2
    unfold Call.kpos
    omega
  refine sampleTokenComplete_congr A hprobes (fun hk => ?_) (fun hk => ?_) (fun hk => ?_) ?_ s
  · rw [hpre, hfull, List.getElem?_take, if_pos (hkpos hk)]
  · rw [hpre, hfull, List.take_take, Nat.min_eq_left (hkpos hk).le]
  · rw [hpre, hfull, List.getElem?_take, if_pos (Nat.zero_lt_of_lt (hkpos hk))]
  · have hprobe : (c.inject (some p)).probe A = (c.inject full).probe A := by
      funext i
      unfold Call.probe Call.stagedWorking
      rw [hprobes]
      rfl
    unfold Call.telemetry
    rw [hpre, hfull, hprobe]
    dsimp only [Call.inject]
    rw [List.length_take, hlen, List.take_take, Nat.min_eq_left hK.1, if_pos (by omega),
      if_pos (Nat.min_le_right _ _)]

/-- **The injected prefix is read in bounds, and samples as the whole ranking, exactly when it is
not cut below 50 ranks.** -/
theorem prefix_length_iff (env : Option (List UInt8)) (htop : c.topK = 50)
    (hp : p.FirstRanks v c.nVocab (min (kEnv env) c.nVocab))
    (hprobes : (c.inject (some p)).deviceProbes = (c.inject full).deviceProbes)
    (hfull : (c.inject full).pretempDesc A = fullSort v c.nVocab) (s : Staged) :
    (sampleTokenComplete A (c.inject (some p)) s ≠ .error .outOfBounds ∧
      sampleTokenComplete A (c.inject (some p)) s = sampleTokenComplete A (c.inject full) s) ↔
    50 ≤ kEnv env ∨ c.nVocab ≤ kEnv env := by
  have henv := kEnv_pos env
  rcases Nat.eq_zero_or_pos c.nVocab with hn | hn
  · have hnone : ∀ slot, sampleTokenComplete A (c.inject slot) s = .error .noVocab := fun slot => by
      unfold sampleTokenComplete stagedCore
      rw [if_pos (show (c.inject slot).nVocab = 0 from hn)]
      rfl
    rw [hnone, hnone]
    exact ⟨fun _ => .inr (by omega), fun _ => ⟨nofun, rfl⟩⟩
  · have hpre := pretempDesc_inject A hp ⟨by omega, Nat.min_le_right _ _⟩
    have hlen : ((c.inject (some p)).pretempDesc A).length = min (kEnv env) c.nVocab := by
      rw [hpre, List.length_take, fullSort, List.length_map, length_rankedIds]
      omega
    constructor
    · rintro ⟨hbounds, -⟩
      by_contra hshort
      have hless : ((c.inject (some p)).pretempDesc A).length <
          min 50 (c.inject (some p)).nVocab := by
        rw [hlen]
        show _ < min 50 c.nVocab
        omega
      exact hbounds (@sampleTokenComplete_short _ A (c.inject (some p)) hn.ne' hless s)
    · intro hlong
      refine ⟨sampleTokenComplete_in_bounds A (fun hk => ?_) ?_ s,
        sampleTokenComplete_prefix A htop hn hp ⟨by omega, Nat.min_le_right _ _⟩ hprobes hfull s⟩
      · have h : c.topK < c.nVocab := hk.2
        rw [hlen]
        show c.kpos < _
        unfold Call.kpos
        omega
      · rw [hlen]
        show min 50 c.nVocab ≤ _
        omega

end Prefix

/-- The default of 64 ranks on a vocabulary of two, all of it injected. -/
theorem prefix_length_default :
    (sampleTokenComplete smallArith ((tiedCall 50 none).inject
        (some ⟨id, fun _ => 0x3f800000#32, 2, none⟩)) ⟨Members.fresh fun _ => 0#32, false, []⟩ ≠
          .error .outOfBounds ∧
      sampleTokenComplete smallArith ((tiedCall 50 none).inject
        (some ⟨id, fun _ => 0x3f800000#32, 2, none⟩)) ⟨Members.fresh fun _ => 0#32, false, []⟩ =
      sampleTokenComplete smallArith ((tiedCall 50 none).inject none)
        ⟨Members.fresh fun _ => 0#32, false, []⟩) ↔
    50 ≤ kEnv none ∨ 2 ≤ kEnv none := by
  refine @prefix_length_iff _ smallArith (tiedCall 50 none)
    ((tiedCall 50 none).working smallArith) ⟨id, fun _ => 0x3f800000#32, 2, none⟩ none none rfl
    ⟨rfl, fun r hr => ?_⟩ rfl rfl _
  show (fullSort _ 2)[r]? = _
  rw [tiedCall_sort]
  obtain rfl | rfl : r = 0 ∨ r = 1 := by
    have h : r < 2 := hr
    omega
  · rfl
  · rfl

/-- **`MEOW_SORT_K=1` on a vocabulary of two**: the telemetry reads rank 1 of one. -/
theorem short_prefix_read :
    kEnv (some [49]) = 1 ∧
    sampleTokenComplete smallArith ((tiedCall 50 none).inject
        (some ⟨id, fun _ => 0x3f800000#32, (min (kEnv (some [49])) 2 : Nat), none⟩))
      ⟨Members.fresh fun _ => 0#32, false, []⟩ = .error .outOfBounds := by
  have hk : kEnv (some [49]) = 1 := by decide
  rw [hk]
  exact ⟨rfl, sampleTokenComplete_short smallArith (by decide) (by decide) _⟩

end Sampler
