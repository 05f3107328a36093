import Mathlib.Data.List.Range
import SuprMeow.Gpu.Scratch
import SuprMeow.Poi.Barrier

/-!
# The split of the streams over the groups

`main` raises the group count until a group has at most 64 streams, the most a device sort takes;
`SamplerPool::init` gives every group an even part of the streams that are left.

* `split_balanced` — no group has one stream more or less than its even part;
* `streams_partition` — what the ranges are, for every slot count and requested group count.
-/

set_option autoImplicit false

namespace Poi

/-! ## The group count of `main` -/

def nStreams (slots : Int) : Nat := (max 1 slots).toNat

/-- `n_groups`, as `main` passes it to every pool. -/
def nGroups (slots groups : Int) : Nat :=
  let n := nStreams slots
  let g := max 1 (min groups n)
  let minGroups := (n + 63) / 64
  if g < minGroups then minGroups else g.toNat

/-! ## The ranges of `SamplerPool::init` -/

/-- The loop from the group on that has `left` groups from itself to the last; `lo` streams are
taken. -/
def SamplerPool.rangesFrom (nStreams : Nat) : Nat → Nat → List (Nat × Nat)
  | 0, _ => []
  | left + 1, lo =>
    let cnt := (nStreams - lo) / (left + 1)
    (lo, lo + cnt) :: rangesFrom nStreams left (lo + cnt)

/-- `range`, when the miner of every group initialises. -/
def SamplerPool.ranges (nStreams groups : Nat) : List (Nat × Nat) :=
  rangesFrom nStreams (max 1 (min groups nStreams)) 0

/-! ## Specification -/

/-- Consecutive ranges over `0 … n - 1`. -/
structure Consecutive (n : Nat) (rs : List (Nat × Nat)) : Prop where
  first : rs.head?.map (·.1) = some 0
  next : rs.IsChain fun r r' => r'.1 = r.2
  last : rs.getLast?.map (·.2) = some n
  nonempty : ∀ r ∈ rs, r.1 < r.2
  disjoint : rs.Pairwise fun r r' => ∀ x, ¬ ((r.1 ≤ x ∧ x < r.2) ∧ r'.1 ≤ x ∧ x < r'.2)
  cover : ∀ x, x < n ↔ ∃ r ∈ rs, r.1 ≤ x ∧ x < r.2

/-! ## Sizes -/

/-- **Every group's part is even up to one stream.** -/
theorem SamplerPool.split_balanced {n left c : Nat} (h : c ∈ split left n) :
    c * n < left + n ∧ left < (c + 1) * n := by
  induction n generalizing left with
  | zero => cases h
  | succ n ih =>
    have hdiv := Nat.div_add_mod left (n + 1)
    have hmod := Nat.mod_lt left (Nat.succ_pos n)
    rw [split] at h
    generalize left / (n + 1) = q at h hdiv
    generalize left % (n + 1) = r at hdiv hmod
    have hleft : left = q * n + q + r := by rw [← hdiv]; ring
    rcases List.mem_cons.1 h with rfl | h
    · constructor
      · rw [Nat.mul_succ]; omega
      · rw [Nat.succ_mul, Nat.mul_succ]; omega
    · obtain ⟨hlt, hgt⟩ := ih h
      -- What is left is `q * n + r` for `n` groups, so each gets `q` or, with a remainder, `q + 1`.
      have hrest : left - q = q * n + r := by omega
      rw [hrest] at hlt hgt
      have hlow : q ≤ c := by
        by_contra hc
        have := Nat.mul_le_mul_right n (show c + 1 ≤ q by omega)
        omega
      have hhigh : c ≤ q + 1 := by
        by_contra hc
        have := Nat.mul_le_mul_right n (show q + 1 + 1 ≤ c by omega)
        rw [Nat.succ_mul, Nat.succ_mul] at this
        omega
      obtain rfl | rfl : c = q ∨ c = q + 1 := by omega
      · constructor
        · rw [Nat.mul_succ]; omega
        · rw [Nat.succ_mul, Nat.mul_succ]; omega
      · rw [Nat.succ_mul] at hlt
        constructor
        · rw [Nat.mul_succ, Nat.succ_mul]; omega
        · rw [Nat.succ_mul, Nat.mul_succ, Nat.succ_mul]; omega

/-! ## Ranges -/

namespace SamplerPool

theorem rangesFrom_length (nStreams left lo : Nat) :
    (rangesFrom nStreams left lo).length = left := by
  induction left generalizing lo with
  | zero => rfl
  | succ left ih => rw [rangesFrom, List.length_cons, ih]

/-- The sizes are those of the balanced split. -/
theorem rangesFrom_sizes (nStreams left lo : Nat) :
    (rangesFrom nStreams left lo).map (fun r => r.2 - r.1) = split (nStreams - lo) left := by
  induction left generalizing lo with
  | zero => rfl
  | succ left ih =>
    rw [rangesFrom, split, List.map_cons, ih, Nat.sub_sub]
    simp

/-- Every range starts where those before it end. -/
theorem rangesFrom_getElem? (nStreams left lo g : Nat) (hg : g < left) :
    (rangesFrom nStreams left lo)[g]? =
      some (lo + ((split (nStreams - lo) left).take g).sum,
        lo + ((split (nStreams - lo) left).take g).sum +
          (split (nStreams - lo) left).getD g 0) := by
  induction left generalizing lo g with
  | zero => omega
  | succ left ih =>
    rw [rangesFrom, split]
    cases g with
    | zero => simp
    | succ g =>
      rw [List.getElem?_cons_succ, ih _ _ (by omega), List.take_succ_cons, List.sum_cons,
        List.getD_cons_succ, Nat.sub_sub]
      simp only [Nat.add_assoc]

end SamplerPool

/-- The pool's ranges are the slices its threads sample. -/
theorem BarrierConfig.ranges_eq {ι : Type} (cfg : BarrierConfig ι) :
    SamplerPool.ranges cfg.nStreams cfg.groups =
      (List.range cfg.count).map fun g => (cfg.lo g, cfg.hi g) := by
  apply List.ext_getElem?
  intro g
  change (SamplerPool.rangesFrom cfg.nStreams cfg.count 0)[g]? = _
  by_cases hg : g < cfg.count
  · rw [SamplerPool.rangesFrom_getElem? _ _ _ _ hg, List.getElem?_map, List.getElem?_range hg]
    simp only [Nat.sub_zero, Nat.zero_add, Option.map_some]
    rfl
  · rw [List.getElem?_eq_none, List.getElem?_eq_none]
    · rw [List.length_map, List.length_range]
      omega
    · rw [SamplerPool.rangesFrom_length]
      exact Nat.le_of_not_lt hg

/-- **With a stream, the ranges are consecutive.** -/
theorem BarrierConfig.consecutive {ι : Type} (cfg : BarrierConfig ι) (hpos : 0 < cfg.nStreams) :
    Consecutive cfg.nStreams (SamplerPool.ranges cfg.nStreams cfg.groups) := by
  have hcount : cfg.count ≠ 0 := by unfold count; omega
  obtain ⟨k, hk⟩ := Nat.exists_eq_succ_of_ne_zero hcount
  rw [cfg.ranges_eq]
  refine ⟨?_, ?_, ?_, ?_, ?_, ?_⟩
  · rw [hk, List.range_succ_eq_map, List.map_cons, List.head?_cons]
    simp [lo]
  · rw [List.isChain_map, List.isChain_range]
    intro g _
    exact cfg.lo_succ g
  · rw [hk, List.range_succ, List.map_append, List.map_singleton, List.getLast?_concat]
    simp only [Option.map_some]
    rw [← cfg.lo_succ, ← Nat.succ_eq_add_one, ← hk, cfg.lo_count]
  · intro r hr
    obtain ⟨g, hg, rfl⟩ := List.mem_map.1 hr
    exact cfg.lo_lt_hi hpos (List.mem_range.1 hg)
  · rw [List.pairwise_map]
    refine List.pairwise_lt_range.imp ?_
    intro g g' hlt x hx
    exact Nat.ne_of_lt hlt (cfg.inSlice_unique hx.1 hx.2)
  · intro x
    constructor
    · intro hx
      obtain ⟨g, hg, hs⟩ := cfg.inSlice_exists hx
      exact ⟨_, List.mem_map_of_mem (List.mem_range.2 hg), hs⟩
    · rintro ⟨r, hr, hs⟩
      obtain ⟨g, hg, rfl⟩ := List.mem_map.1 hr
      exact cfg.inSlice_lt (List.mem_range.1 hg) hs

/-! ## Results -/

theorem nStreams_pos (slots : Int) : 1 ≤ nStreams slots := by
  unfold nStreams
  omega

/-- The count `main` passes needs no clamp, and is enough for 64 streams a group. -/
theorem nGroups_bounds (slots groups : Int) :
    1 ≤ nGroups slots groups ∧ nGroups slots groups ≤ nStreams slots ∧
      nStreams slots ≤ 64 * nGroups slots groups := by
  have hpos := nStreams_pos slots
  unfold nGroups
  dsimp only
  split <;> omega

/-- **Whatever the options, the pool's ranges are consecutive, at most one apart in size and
accepted by the sort's limit.** -/
theorem streams_partition (slots groups : Int) :
    let n := nStreams slots
    let rs := SamplerPool.ranges n (nGroups slots groups)
    rs.length = nGroups slots groups ∧ Consecutive n rs ∧
      (∀ r ∈ rs, ∀ r' ∈ rs, r.2 - r.1 ≤ r'.2 - r'.1 + 1) ∧
      (∀ r ∈ rs, r.2 - r.1 ≤ 64) ∧
      ∀ r ∈ rs, ∀ (F : Type) [Semiring F] (D : PowGpu.Device F) (c : PowGpu.Call),
        c.entry = .deviceK → c.S = r.2 - r.1 → 1 ≤ c.n → c.n ≤ 2 ^ 18 →
        ¬ (D.histogram = true ∧ PowGpu.clampTopk c.topk c.n ≤ 64) → c.early D = none := by
  intro n rs
  obtain ⟨hG, hGn, h64⟩ := nGroups_bounds slots groups
  have hcount : max 1 (min (nGroups slots groups) n) = nGroups slots groups := by omega
  have hsize : ∀ r ∈ rs, r.2 - r.1 ∈ SamplerPool.split n (nGroups slots groups) := by
    intro r hr
    have := SamplerPool.rangesFrom_sizes n (nGroups slots groups) 0
    rw [Nat.sub_zero] at this
    rw [← this, ← hcount]
    exact List.mem_map_of_mem hr
  have hcons : Consecutive n rs :=
    BarrierConfig.consecutive ⟨n, nGroups slots groups, fun _ : Unit => false⟩ (nStreams_pos slots)
  have hle : ∀ r ∈ rs, r.2 - r.1 ≤ 64 := by
    intro r hr
    have hlt := (SamplerPool.split_balanced (hsize r hr)).1
    by_contra hc
    have := Nat.mul_le_mul_right (nGroups slots groups) (show 65 ≤ r.2 - r.1 by omega)
    omega
  refine ⟨?_, hcons, ?_, hle, ?_⟩
  · change (SamplerPool.rangesFrom n (max 1 (min (nGroups slots groups) n)) 0).length = _
    rw [SamplerPool.rangesFrom_length, hcount]
  · intro r hr r' hr'
    have hlt := (SamplerPool.split_balanced (hsize r hr)).1
    have hgt := (SamplerPool.split_balanced (hsize r' hr')).2
    by_contra hc
    have := Nat.mul_le_mul_right (nGroups slots groups)
      (show r'.2 - r'.1 + 1 + 1 ≤ r.2 - r.1 by omega)
    rw [Nat.succ_mul] at this
    omega
  · intro r hr F _ D c hentry hS hn hn' hhist
    have hpos := hcons.nonempty r hr
    have hS64 := hle r hr
    unfold PowGpu.Call.early
    rw [hentry, if_neg (by omega)]
    dsimp only
    rw [if_neg hhist, if_neg (by omega)]

/-- Eleven streams over the four groups asked for. -/
example : SamplerPool.ranges (nStreams 11) (nGroups 11 4) = [(0, 2), (2, 5), (5, 8), (8, 11)] := by
  decide

end Poi
