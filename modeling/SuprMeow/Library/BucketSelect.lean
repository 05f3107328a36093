import Mathlib.Algebra.BigOperators.Intervals
import SuprMeow.Library.RankInsertion
import SuprMeow.Library.Ranking

/-!
# Selecting the first ranks from bucket counts

Ids `0 … n-1` fall into buckets `key i`.  Counting how many ids lie in smaller buckets gives the
ranks a bucket owns; cut at `k`, these are the cell ranges of `RankInsertion`.  Concurrent
insertion of all ids then leaves the first `k` ids of the order (bucket, id) in the cells.

* `below`, `below_succ` — the start rank of a bucket, from the counts;
* `lt_below_iff`, `sum_below` — the ranks of a bucket, and sums over all ranks bucket by bucket;
* `bucketInv` — the insertion invariant of every bucket, in every schedule;
* `finished_prefix` — the cells of a finished insertion.
-/

set_option autoImplicit false

namespace BucketSelect

open RankInsertion

variable (key : ℕ → ℕ) (n k top : ℕ)

/-- The ids of bucket `b`. -/
def bucket (b : ℕ) : Finset ℕ := (Finset.range n).filter fun i => key i = b

/-- How many ids lie in buckets before `b`. -/
def below (b : ℕ) : ℕ := ((Finset.range n).filter fun i => key i < b).card

variable {key n k top}

theorem mem_bucket {b i : ℕ} : i ∈ bucket key n b ↔ i < n ∧ key i = b := by
  simp [bucket]

@[simp] theorem below_zero : below key n 0 = 0 := by simp [below]

theorem below_succ (b : ℕ) : below key n (b + 1) = below key n b + (bucket key n b).card := by
  have hsplit : ((Finset.range n).filter fun i => key i < b + 1) =
      ((Finset.range n).filter fun i => key i < b) ∪ bucket key n b := by
    ext i
    simp only [Finset.mem_filter, Finset.mem_union, mem_bucket, Finset.mem_range]
    omega
  rw [below, below, hsplit, Finset.card_union_of_disjoint]
  rw [Finset.disjoint_left]
  intro i hi hb
  have := (Finset.mem_filter.1 hi).2
  have := (mem_bucket.1 hb).2
  omega

theorem sum_card_bucket : ∀ m, ∑ b ∈ Finset.range m, (bucket key n b).card = below key n m := by
  intro m
  induction m with
  | zero => rw [below_zero]; rfl
  | succ m ih => rw [Finset.sum_range_succ, ih, below_succ]

theorem below_mono {b c : ℕ} (h : b ≤ c) : below key n b ≤ below key n c := by
  induction c, h using Nat.le_induction with
  | base => exact le_rfl
  | succ c _ ih => rw [below_succ]; omega

/-- Past the last bucket every id has been counted. -/
theorem below_all {m : ℕ} (h : ∀ i < n, key i < m) : below key n m = n := by
  rw [below, Finset.filter_true_of_mem fun i hi => h i (Finset.mem_range.1 hi), Finset.card_range]

theorem below_le (b : ℕ) : below key n b ≤ n := by
  have h := Finset.card_filter_le (Finset.range n) fun i => key i < b
  rwa [Finset.card_range] at h

/-- Every rank below `n` belongs to a bucket. -/
theorem exists_bucket {m r : ℕ} (h : ∀ i < n, key i < m) (hr : r < n) :
    ∃ b, below key n b ≤ r ∧ r < below key n (b + 1) := by
  have hex : ∃ c, r < below key n c := ⟨m, by rwa [below_all h]⟩
  classical
  have hpos : Nat.find hex ≠ 0 := fun h0 => by
    have := Nat.find_spec hex
    rw [h0, below_zero] at this
    omega
  obtain ⟨b, hb⟩ := Nat.exists_eq_succ_of_ne_zero hpos
  refine ⟨b, Nat.not_lt.1 (Nat.find_min hex (by omega)), ?_⟩
  rw [← Nat.succ_eq_add_one, ← hb]
  exact Nat.find_spec hex

/-! ## Ranks by bucket -/

/-- When bucket `g r` is that of rank `r`, a bucket's ranks are those its start ranks bracket. -/
theorem lt_below_iff {g : ℕ → ℕ} (hmono : ∀ r r', r ≤ r' → r' < n → g r ≤ g r') {b r : ℕ}
    (hcard : ((Finset.range n).filter fun r => g r < b).card = below key n b) (hr : r < n) :
    g r < b ↔ r < below key n b := by
  rw [← hcard]
  constructor
  · intro h
    have hsub : Finset.range (r + 1) ⊆ (Finset.range n).filter fun r => g r < b := by
      intro r' hr'
      rw [Finset.mem_range] at hr'
      rw [Finset.mem_filter, Finset.mem_range]
      exact ⟨by omega, lt_of_le_of_lt (hmono r' r (by omega) hr) h⟩
    have hle := Finset.card_le_card hsub
    rw [Finset.card_range] at hle
    exact hle
  · intro h
    by_contra hge
    have hsub : ((Finset.range n).filter fun r => g r < b) ⊆ Finset.range r := by
      intro r' hr'
      rw [Finset.mem_filter, Finset.mem_range] at hr'
      rw [Finset.mem_range]
      by_contra hle
      have := hmono r r' (by omega) hr'.1
      omega
    have hle := Finset.card_le_card hsub
    rw [Finset.card_range] at hle
    omega

/-- The start ranks cut the ranks into consecutive ranges. -/
theorem sum_below {G : Type} [AddCommMonoid G] (f : ℕ → G) :
    ∀ m, ∑ b ∈ Finset.range m, ∑ r ∈ Finset.Ico (below key n b) (below key n (b + 1)), f r =
      ∑ r ∈ Finset.range (below key n m), f r := by
  intro m
  induction m with
  | zero => rw [below_zero]; rfl
  | succ m ih =>
    rw [Finset.sum_range_succ, ih, Finset.sum_range_add_sum_Ico f (below_mono m.le_succ)]

/-! ## The cell ranges -/

variable (key n k)

/-- First cell of an id; ids past `n` own no cell. -/
def first (i : ℕ) : ℕ := if i < n then min (below key n (key i)) k else 0

/-- One past the last cell of an id. -/
def last (i : ℕ) : ℕ := if i < n then min (below key n (key i + 1)) k else 0

variable {key n k}

theorem first_of_mem {b x : ℕ} (h : x ∈ bucket key n b) :
    first key n k x = min (below key n b) k := by
  obtain ⟨hn, rfl⟩ := mem_bucket.1 h
  exact if_pos hn

theorem last_of_mem {b x : ℕ} (h : x ∈ bucket key n b) :
    last key n k x = min (below key n (b + 1)) k := by
  obtain ⟨hn, rfl⟩ := mem_bucket.1 h
  exact if_pos hn

/-- Ranges of different buckets are disjoint. -/
theorem range_disjoint {b x : ℕ} (h : x ∉ bucket key n b) :
    last key n k x ≤ min (below key n b) k ∨ min (below key n (b + 1)) k ≤ first key n k x := by
  unfold first last
  split
  case isFalse => exact .inl (Nat.zero_le _)
  rename_i hx
  have hne : key x ≠ b := fun hb => h (mem_bucket.2 ⟨hx, hb⟩)
  rcases Nat.lt_or_gt_of_ne hne with hlt | hgt
  · exact .inl (min_le_min_right k (below_mono hlt))
  · exact .inr (min_le_min_right k (below_mono hgt))

/-- **Every schedule keeps the invariant of every bucket.** -/
theorem bucketInv (sched : List ℕ) (b : ℕ) :
    BucketInv top (first key n k) (min (below key n b) k) (min (below key n (b + 1)) k)
      (bucket key n b)
      (run top (last key n k) (State.init top (first key n k)) sched) :=
  run_inv (fun _ => first_of_mem) (fun _ => last_of_mem) (fun _ => range_disjoint) sched
    (init_inv top (fun _ => first_of_mem) (min_le_min_right k (below_mono b.le_succ)))

/-! ## The selected prefix -/

/-- The order (bucket, id). -/
def lexKey (key : ℕ → ℕ) (i : ℕ) : Lex (ℕ × ℕ) := toLex (key i, i)

theorem lexKey_injective : Function.Injective (lexKey key) :=
  fun _ _ h => congrArg (fun p => (ofLex p).2) h

theorem lexKey_lt_iff {i j : ℕ} :
    lexKey key i < lexKey key j ↔ key i < key j ∨ key i = key j ∧ i < j :=
  Prod.Lex.toLex_lt_toLex

section Finished

variable {s : State ℕ} (hkn : k ≤ n) {m : ℕ} (hm : ∀ i < n, key i < m) (hn : n ≤ top)
  (hinv : ∀ b, BucketInv top (first key n k) (min (below key n b) k)
    (min (below key n (b + 1)) k) (bucket key n b) s)
  (hdone : ∀ i < n, ¬ Active top (last key n k) s i)
include hn hinv hdone

theorem bucket_cells (b : ℕ) :
    (∀ r, min (below key n b) k ≤ r → r < min (below key n (b + 1)) k →
      s.cell r ∈ bucket key n b) ∧
    (∀ r r', min (below key n b) k ≤ r → r < r' → r' < min (below key n (b + 1)) k →
      s.cell r < s.cell r') ∧
    (∀ x ∈ bucket key n b,
      (∃ r, min (below key n b) k ≤ r ∧ r < min (below key n (b + 1)) k ∧ s.cell r = x) ∨
      ∀ r, min (below key n b) k ≤ r → r < min (below key n (b + 1)) k → s.cell r < x) :=
  finished_cells (hinv b) (fun _ => last_of_mem)
    (fun _ hx => lt_of_lt_of_le (mem_bucket.1 hx).1 hn) (by rw [below_succ]; omega)
    fun x hx => hdone x (mem_bucket.1 hx).1

/-- A bucket that ends before rank `k` has all its ids in cells. -/
theorem full_bucket {b x : ℕ} (hb : below key n (b + 1) ≤ k) (hx : x ∈ bucket key n b) :
    ∃ r, below key n b ≤ r ∧ r < below key n (b + 1) ∧ s.cell r = x := by
  obtain ⟨hmem, hasc, hrest⟩ := bucket_cells hn hinv hdone b
  have hb' := @below_mono key n _ _ b.le_succ
  rw [min_eq_left hb, min_eq_left (hb'.trans hb)] at hmem hasc hrest
  refine (hrest x hx).resolve_right fun hall => ?_
  -- the cells would be as many ids as the bucket has, none of them `x`
  have hinj : Set.InjOn s.cell (Finset.Ico (below key n b) (below key n (b + 1))) := by
    intro r hr r' hr' heq
    simp only [Finset.coe_Ico, Set.mem_Ico] at hr hr'
    rcases Nat.lt_trichotomy r r' with h | h | h
    · exact absurd heq (hasc r r' hr.1 h hr'.2).ne
    · exact h
    · exact absurd heq.symm (hasc r' r hr'.1 h hr.2).ne
  have hsub : (Finset.Ico (below key n b) (below key n (b + 1))).image s.cell ⊆
      (bucket key n b).erase x := by
    intro y hy
    obtain ⟨r, hr, rfl⟩ := Finset.mem_image.1 hy
    rw [Finset.mem_Ico] at hr
    exact Finset.mem_erase.2 ⟨(hall r hr.1 hr.2).ne, hmem r hr.1 hr.2⟩
  have hcard := Finset.card_le_card hsub
  rw [Finset.card_image_of_injOn hinj, Nat.card_Ico, Finset.card_erase_of_mem hx,
    below_succ] at hcard
  have := Finset.card_pos.2 ⟨x, hx⟩
  omega

include hkn hm

theorem cell_bucket {r : ℕ} (hr : r < k) :
    ∃ b, min (below key n b) k ≤ r ∧ r < min (below key n (b + 1)) k ∧
      s.cell r ∈ bucket key n b := by
  obtain ⟨b, hb, hb'⟩ := exists_bucket hm (lt_of_lt_of_le hr hkn)
  have h1 : min (below key n b) k ≤ r := (min_le_left _ _).trans hb
  have h2 : r < min (below key n (b + 1)) k := lt_min hb' hr
  exact ⟨b, h1, h2, (bucket_cells hn hinv hdone b).1 r h1 h2⟩

/-- **The cells of a finished insertion are the first `k` ids of the order (bucket, id).** -/
theorem finished_prefix :
    (List.range k).map s.cell = (Ranking.ranking (lexKey key) (List.range n)).take k := by
  have hcell := fun r (hr : r < k) => cell_bucket hkn hm hn hinv hdone hr
  have hlen : ((List.range k).map s.cell).length = k := by simp
  have h := @Ranking.take_ranking _ _ _ (lexKey key) (List.range n) ((List.range k).map s.cell)
    (fun _ _ _ _ h => lexKey_injective h) List.nodup_range
    ?_ ?_ ?_
  · rwa [hlen] at h
  · intro i hi
    obtain ⟨r, hr, rfl⟩ := List.mem_map.1 hi
    obtain ⟨b, _, _, hmem⟩ := hcell r (List.mem_range.1 hr)
    exact List.mem_range.2 (mem_bucket.1 hmem).1
  · rw [List.pairwise_map]
    refine List.pairwise_lt_range.imp_of_mem fun {r r'} hr hr' hlt => ?_
    obtain ⟨b, h1, h2, hmem⟩ := hcell r (List.mem_range.1 hr)
    obtain ⟨b', h1', h2', hmem'⟩ := hcell r' (List.mem_range.1 hr')
    rw [lexKey_lt_iff, (mem_bucket.1 hmem).2, (mem_bucket.1 hmem').2]
    rcases Nat.lt_trichotomy b b' with hb | hb | hb
    · exact .inl hb
    · subst hb
      exact .inr ⟨rfl, (bucket_cells hn hinv hdone b).2.1 r r' h1 hlt h2'⟩
    · have := min_le_min_right k (@below_mono key n _ _ (show b' + 1 ≤ b from hb))
      omega
  · intro x hx hout y hy
    obtain ⟨r, hr, rfl⟩ := List.mem_map.1 hy
    obtain ⟨b, h1, h2, hmem⟩ := hcell r (List.mem_range.1 hr)
    have hxb : x ∈ bucket key n (key x) := mem_bucket.2 ⟨List.mem_range.1 hx, rfl⟩
    have hnot : ∀ c, c < k → s.cell c ≠ x := fun c hc he =>
      hout (List.mem_map.2 ⟨c, List.mem_range.2 hc, he⟩)
    rw [lexKey_lt_iff, (mem_bucket.1 hmem).2]
    rcases Nat.lt_trichotomy b (key x) with hb | hb | hb
    · exact .inl hb
    · -- the tie bucket: `x` did not fit below rank `k`
      subst hb
      rcases (bucket_cells hn hinv hdone (key x)).2.2 x hxb with ⟨c, _, hc, he⟩ | hall
      · exact absurd he (hnot c (lt_of_lt_of_le hc (min_le_right _ _)))
      · exact .inr ⟨rfl, hall r h1 h2⟩
    · -- an earlier bucket lies wholly below rank `k`
      have hle := @below_mono key n _ _ (show key x + 1 ≤ b from hb)
      have hbk : below key n (key x + 1) ≤ k := by omega
      obtain ⟨c, _, hc, he⟩ := full_bucket hn hinv hdone hbk hxb
      exact absurd he (hnot c (lt_of_lt_of_le hc hbk))

end Finished

end BucketSelect
