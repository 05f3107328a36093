import Mathlib.Data.Finset.Card
import Mathlib.Data.Finset.Interval
import Mathlib.Data.Multiset.Bind
import Mathlib.Order.Interval.Finset.Nat
import Mathlib.Tactic.Common

/-!
# Lock-free insertion into rank cells by atomic minimum

Items of a linear order are inserted concurrently into an array of cells that all start at a
sentinel above every item.  Item `x` owns the cells `[lo x, hi x)`.  One atomic step of `x`
replaces the current cell by the minimum of its content and the carried candidate, keeps the
maximum as the new candidate and moves one cell on; `x` stops when it has left its range or
carries the sentinel.  Items with the same range form a bucket; ranges of different buckets
are disjoint.

* `BucketInv` — what any interleaving keeps for one bucket: the cells ascend, a candidate is
  above every cell it has passed, and cells and candidates together are the items plus the
  initial sentinels;
* `step_inv`, `run_inv` — one step, and every schedule;
* `finished_cells` — once every item of a bucket with at least as many items as cells has
  stopped, the cells are its smallest items in ascending order, whatever the schedule was.
-/

set_option autoImplicit false

namespace RankInsertion

variable {α : Type*} [LinearOrder α]

/-- Cells, and for each item its next cell and its candidate. -/
structure State (α : Type*) where
  cell : ℕ → α
  pos : α → ℕ
  cand : α → α

/-- All cells at the sentinel; every item at the start of its range, carrying itself. -/
def State.init (top : α) (lo : α → ℕ) : State α := ⟨fun _ => top, lo, id⟩

/-- The atomic minimum of item `x` at its next cell. -/
def State.advance (s : State α) (x : α) : State α where
  cell := Function.update s.cell (s.pos x) (min (s.cell (s.pos x)) (s.cand x))
  pos := Function.update s.pos x (s.pos x + 1)
  cand := Function.update s.cand x (max (s.cell (s.pos x)) (s.cand x))

/-- The loop condition of item `x`. -/
def Active (top : α) (hi : α → ℕ) (s : State α) (x : α) : Prop :=
  s.pos x < hi x ∧ s.cand x ≠ top

instance (top : α) (hi : α → ℕ) (s : State α) (x : α) : Decidable (Active top hi s x) :=
  inferInstanceAs (Decidable (_ ∧ _))

/-- One step of item `x`; nothing if `x` has stopped. -/
def step (top : α) (hi : α → ℕ) (s : State α) (x : α) : State α :=
  if Active top hi s x then s.advance x else s

/-- A schedule is any list of items. -/
def run (top : α) (hi : α → ℕ) (s : State α) (sched : List α) : State α :=
  sched.foldl (step top hi) s

section Advance

variable (s : State α) (x : α)

theorem advance_cell_self : (s.advance x).cell (s.pos x) = min (s.cell (s.pos x)) (s.cand x) :=
  Function.update_self ..

theorem advance_cell_of_ne {r : ℕ} (h : r ≠ s.pos x) : (s.advance x).cell r = s.cell r :=
  Function.update_of_ne h ..

theorem advance_cell_le (r : ℕ) : (s.advance x).cell r ≤ s.cell r := by
  by_cases h : r = s.pos x
  · subst h; rw [advance_cell_self]; exact min_le_left _ _
  · rw [advance_cell_of_ne s x h]

theorem advance_pos_self : (s.advance x).pos x = s.pos x + 1 := Function.update_self ..

theorem advance_pos_of_ne {y : α} (h : y ≠ x) : (s.advance x).pos y = s.pos y :=
  Function.update_of_ne h ..

theorem le_advance_pos (y : α) : s.pos y ≤ (s.advance x).pos y := by
  by_cases h : y = x
  · subst h; rw [advance_pos_self]; omega
  · rw [advance_pos_of_ne s x h]

theorem advance_cand_self : (s.advance x).cand x = max (s.cell (s.pos x)) (s.cand x) :=
  Function.update_self ..

theorem advance_cand_of_ne {y : α} (h : y ≠ x) : (s.advance x).cand y = s.cand y :=
  Function.update_of_ne h ..

end Advance

/-- Changing a function at one member of a duplicate-free multiset changes one value. -/
theorem map_update_add {ι β : Type*} [DecidableEq ι] {m : Multiset ι} (hm : m.Nodup) {i : ι}
    (hi : i ∈ m) (f : ι → β) (v : β) :
    m.map (Function.update f i v) + {f i} = m.map f + {v} := by
  obtain ⟨t, rfl⟩ := Multiset.exists_cons_of_mem hi
  have hrest : t.map (Function.update f i v) = t.map f :=
    Multiset.map_congr rfl fun j hj =>
      Function.update_of_ne (ne_of_mem_of_not_mem hj (Multiset.nodup_cons.1 hm).1) v f
  rw [Multiset.map_cons, Multiset.map_cons, Function.update_self, hrest,
    ← Multiset.singleton_add, ← Multiset.singleton_add]
  simp only [add_comm, add_left_comm, add_assoc]

section Bucket

variable {top : α} {lo hi : α → ℕ} {a b : ℕ} {B : Finset α}

/-- Invariant of the bucket `B` that owns the cells `[a, b)`. -/
structure BucketInv (top : α) (lo : α → ℕ) (a b : ℕ) (B : Finset α) (s : State α) : Prop where
  lo_le : ∀ x, lo x ≤ s.pos x
  pos_le : ∀ x ∈ B, s.pos x ≤ b
  below : ∀ x ∈ B, ∀ r, a ≤ r → r < s.pos x → s.cell r ≤ s.cand x
  ascending : ∀ r r', a ≤ r → r < r' → r' < b → s.cell r ≤ s.cell r'
  conserve : (Finset.Ico a b).val.map s.cell + B.val.map s.cand =
    B.val + Multiset.replicate (b - a) top

theorem init_inv (top : α) (hlo : ∀ x ∈ B, lo x = a) (hab : a ≤ b) :
    BucketInv top lo a b B (State.init top lo) where
  lo_le _ := le_rfl
  pos_le x hx := (hlo x hx).trans_le hab
  below x hx r har hr := absurd hr (by simp [State.init, hlo x hx, har])
  ascending _ _ _ _ _ := le_rfl
  conserve := by simp [State.init, Multiset.map_const', add_comm]

/-- A step of an item of the bucket. -/
theorem advance_inv_of_mem (hlo : ∀ x ∈ B, lo x = a) {s : State α}
    (h : BucketInv top lo a b B s) {x : α} (hx : x ∈ B) (hpb : s.pos x < b) :
    BucketInv top lo a b B (s.advance x) := by
  have hap : a ≤ s.pos x := hlo x hx ▸ h.lo_le x
  refine ⟨fun y => (h.lo_le y).trans (le_advance_pos s x y), ?_, ?_, ?_, ?_⟩
  · intro y hy
    by_cases hyx : y = x
    · subst hyx; rw [advance_pos_self]; omega
    · rw [advance_pos_of_ne s x hyx]; exact h.pos_le y hy
  · intro y hy r har hr
    by_cases hyx : y = x
    · subst hyx
      rw [advance_pos_self] at hr
      rw [advance_cand_self]
      by_cases hrp : r = s.pos y
      · subst hrp
        rw [advance_cell_self]; exact (min_le_left _ _).trans (le_max_left _ _)
      · rw [advance_cell_of_ne s y hrp]
        exact (h.below y hy r har (by omega)).trans (le_max_right _ _)
    · rw [advance_pos_of_ne s x hyx] at hr
      rw [advance_cand_of_ne s x hyx]
      exact (advance_cell_le s x r).trans (h.below y hy r har hr)
  · intro r r' har hrr hrb
    by_cases hr' : r' = s.pos x
    · -- the written cell stays above the cells before it
      subst hr'
      rw [advance_cell_self, advance_cell_of_ne s x (by omega)]
      exact le_min (h.ascending r _ har hrr hrb) (h.below x hx r har hrr)
    · rw [advance_cell_of_ne s x hr']
      exact (advance_cell_le s x r).trans (h.ascending r r' har hrr hrb)
  · -- the minimum and the maximum are the two values the step read
    have hcells := map_update_add (Finset.Ico a b).nodup
      (Finset.mem_Ico.2 ⟨hap, hpb⟩) s.cell (min (s.cell (s.pos x)) (s.cand x))
    have hcands := map_update_add B.nodup hx s.cand (max (s.cell (s.pos x)) (s.cand x))
    have hpair : ({min (s.cell (s.pos x)) (s.cand x)} : Multiset α) +
        {max (s.cell (s.pos x)) (s.cand x)} = {s.cell (s.pos x)} + {s.cand x} := by
      rcases le_total (s.cell (s.pos x)) (s.cand x) with hle | hle
      · rw [min_eq_left hle, max_eq_right hle]
      · rw [min_eq_right hle, max_eq_left hle, add_comm]
    rw [← h.conserve]
    apply add_right_cancel (b := ({s.cell (s.pos x)} : Multiset α) + {s.cand x})
    rw [add_add_add_comm]
    calc
      _ = ((Finset.Ico a b).val.map s.cell + {min (s.cell (s.pos x)) (s.cand x)}) +
          (B.val.map s.cand + {max (s.cell (s.pos x)) (s.cand x)}) := by
        rw [← hcells, ← hcands]
        rfl
      _ = _ := by rw [add_add_add_comm, hpair]

/-- A step of an item of another bucket, which writes outside `[a, b)`. -/
theorem advance_inv_of_notMem {s : State α} (h : BucketInv top lo a b B s) {x : α} (hx : x ∉ B)
    (hout : ∀ r, a ≤ r → r < b → r ≠ s.pos x) : BucketInv top lo a b B (s.advance x) := by
  have hne : ∀ y ∈ B, y ≠ x := fun y hy => ne_of_mem_of_not_mem hy hx
  refine ⟨fun y => (h.lo_le y).trans (le_advance_pos s x y), ?_, ?_, ?_, ?_⟩
  · intro y hy
    rw [advance_pos_of_ne s x (hne y hy)]; exact h.pos_le y hy
  · intro y hy r har hr
    rw [advance_pos_of_ne s x (hne y hy)] at hr
    rw [advance_cand_of_ne s x (hne y hy)]
    exact (advance_cell_le s x r).trans (h.below y hy r har hr)
  · intro r r' har hrr hrb
    rw [advance_cell_of_ne s x (hout r' (by omega) hrb)]
    exact (advance_cell_le s x r).trans (h.ascending r r' har hrr hrb)
  · rw [← h.conserve]
    congr 1
    · refine Multiset.map_congr rfl fun r hr => ?_
      have hr' := Finset.mem_Ico.1 (Finset.mem_def.2 hr)
      exact advance_cell_of_ne s x (hout r hr'.1 hr'.2)
    · exact Multiset.map_congr rfl fun y hy => advance_cand_of_ne s x (hne y hy)

/-- **A step of any item keeps the invariant of every bucket.** -/
theorem step_inv (hlo : ∀ x ∈ B, lo x = a) (hhi : ∀ x ∈ B, hi x = b)
    (hout : ∀ x, x ∉ B → hi x ≤ a ∨ b ≤ lo x) {s : State α} (h : BucketInv top lo a b B s) (x : α) :
    BucketInv top lo a b B (step top hi s x) := by
  unfold step
  split
  case isFalse => exact h
  rename_i hact
  by_cases hx : x ∈ B
  · exact advance_inv_of_mem hlo h hx (hhi x hx ▸ hact.1)
  · refine advance_inv_of_notMem h hx fun r har hrb => ?_
    have := h.lo_le x
    have := hact.1
    rcases hout x hx with ho | ho <;> omega

/-- **Every schedule keeps the invariant.** -/
theorem run_inv (hlo : ∀ x ∈ B, lo x = a) (hhi : ∀ x ∈ B, hi x = b)
    (hout : ∀ x, x ∉ B → hi x ≤ a ∨ b ≤ lo x) :
    ∀ (sched : List α) {s : State α}, BucketInv top lo a b B s →
      BucketInv top lo a b B (run top hi s sched)
  | [], _, h => h
  | x :: xs, _, h => run_inv hlo hhi hout xs (step_inv hlo hhi hout h x)

/-! ## The finished bucket -/

variable {s : State α}

/-- With enough items no cell of a finished bucket still holds the sentinel. -/
theorem finished_ne_top (h : BucketInv top lo a b B s) (hhi : ∀ x ∈ B, hi x = b)
    (htop : ∀ x ∈ B, x < top) (hcard : b - a ≤ B.card) (hdone : ∀ x ∈ B, ¬ Active top hi s x)
    {r : ℕ} (har : a ≤ r) (hrb : r < b) : s.cell r ≠ top := by
  intro hr
  have hle : ∀ x ∈ B, s.cand x ≤ top := fun x hx => by
    have hmem : s.cand x ∈ B.val + Multiset.replicate (b - a) top := by
      rw [← h.conserve]
      exact Multiset.mem_add.2 (Or.inr (Multiset.mem_map_of_mem _ hx))
    rcases Multiset.mem_add.1 hmem with hm | hm
    · exact (htop _ hm).le
    · exact (Multiset.eq_of_mem_replicate hm).le
  -- every candidate has passed the sentinel cell, so it is the sentinel itself
  have hall : ∀ x ∈ B, s.cand x = top := fun x hx => by
    by_contra hne
    have hpos : ¬ s.pos x < hi x := fun hp => hdone x hx ⟨hp, hne⟩
    have hpx : r < s.pos x := by rw [hhi x hx] at hpos; omega
    exact hne (le_antisymm (hle x hx) (hr ▸ h.below x hx r har hpx))
  have hcount := congrArg (Multiset.count top) h.conserve
  rw [Multiset.map_congr rfl hall, Multiset.map_const', Multiset.count_add, Multiset.count_add,
    Multiset.count_replicate_self, Multiset.count_replicate_self,
    Multiset.count_eq_zero_of_notMem (s := B.val) (fun hm => lt_irrefl top (htop top hm))] at hcount
  have hpos : 0 < Multiset.count top ((Finset.Ico a b).val.map s.cell) :=
    Multiset.count_pos.2 (Multiset.mem_map.2
      ⟨r, Finset.mem_Ico.2 ⟨har, hrb⟩, hr⟩)
  rw [Finset.card_val] at hcount
  omega

/-- **The cells of a finished bucket are its smallest items in ascending order.** -/
theorem finished_cells (h : BucketInv top lo a b B s) (hhi : ∀ x ∈ B, hi x = b)
    (htop : ∀ x ∈ B, x < top) (hcard : b - a ≤ B.card) (hdone : ∀ x ∈ B, ¬ Active top hi s x) :
    (∀ r, a ≤ r → r < b → s.cell r ∈ B) ∧
    (∀ r r', a ≤ r → r < r' → r' < b → s.cell r < s.cell r') ∧
    (∀ x ∈ B, (∃ r, a ≤ r ∧ r < b ∧ s.cell r = x) ∨ ∀ r, a ≤ r → r < b → s.cell r < x) := by
  have hne := fun r har hrb => finished_ne_top h hhi htop hcard hdone (r := r) har hrb
  have hmemv : ∀ r, a ≤ r → r < b → s.cell r ∈ (Finset.Ico a b).val.map s.cell :=
    fun r har hrb => Multiset.mem_map_of_mem _ (Finset.mem_Ico.2 ⟨har, hrb⟩)
  have hmem : ∀ r, a ≤ r → r < b → s.cell r ∈ B := fun r har hrb => by
    have : s.cell r ∈ B.val + Multiset.replicate (b - a) top :=
      h.conserve ▸ Multiset.mem_add.2 (Or.inl (hmemv r har hrb))
    rcases Multiset.mem_add.1 this with hm | hm
    · exact hm
    · exact absurd (Multiset.eq_of_mem_replicate hm) (hne r har hrb)
  -- an item occurs once among cells and candidates
  have hcount : ∀ x ∈ B, Multiset.count x ((Finset.Ico a b).val.map s.cell) +
      Multiset.count x (B.val.map s.cand) = 1 := fun x hx => by
    rw [← Multiset.count_add, h.conserve, Multiset.count_add,
      Multiset.count_eq_one_of_mem B.nodup hx, Multiset.count_eq_zero_of_notMem]
    exact fun hm => (htop x hx).ne (Multiset.eq_of_mem_replicate hm)
  have hnodup : ((Finset.Ico a b).val.map s.cell).Nodup := by
    refine Multiset.nodup_iff_count_le_one.2 fun x => ?_
    by_cases hx : x ∈ (Finset.Ico a b).val.map s.cell
    · obtain ⟨r, hr, rfl⟩ := Multiset.mem_map.1 hx
      have hr' := Finset.mem_Ico.1 (Finset.mem_def.2 hr)
      have := hcount _ (hmem r hr'.1 hr'.2)
      omega
    · rw [Multiset.count_eq_zero_of_notMem hx]; omega
  refine ⟨hmem, ?_, ?_⟩
  · intro r r' har hrr hrb
    refine lt_of_le_of_ne (h.ascending r r' har hrr hrb) fun heq => ?_
    have := Multiset.inj_on_of_nodup_map hnodup r
      (Finset.mem_Ico.2 ⟨har, by omega⟩) r'
      (Finset.mem_Ico.2 ⟨by omega, hrb⟩) heq
    omega
  · intro x hx
    by_cases hin : x ∈ (Finset.Ico a b).val.map s.cell
    · obtain ⟨r, hr, rfl⟩ := Multiset.mem_map.1 hin
      have hr' := Finset.mem_Ico.1 (Finset.mem_def.2 hr)
      exact Or.inl ⟨r, hr'.1, hr'.2, rfl⟩
    · -- `x` is the candidate some item carried past the last cell
      right
      intro r har hrb
      have hc := hcount x hx
      rw [Multiset.count_eq_zero_of_notMem hin, Nat.zero_add] at hc
      obtain ⟨y, hy, rfl⟩ := Multiset.mem_map.1 (Multiset.count_pos.1 (hc ▸ Nat.one_pos))
      have hpos : ¬ s.pos y < hi y := fun hp => hdone y hy ⟨hp, (htop _ hx).ne⟩
      rw [hhi y hy] at hpos
      exact lt_of_le_of_ne (h.below y hy r har (by omega)) fun he => hin (he ▸ hmemv r har hrb)

end Bucket

end RankInsertion
