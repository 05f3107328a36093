import Mathlib.Data.List.Basic
import Mathlib.Data.List.Sort
import Mathlib.Tactic.Common

/-!
# Lower bounds by bisection

The search halves an interval at a time, and looks only at what `p`, "is below", says of the
middle.

* `bisect_spec` — what two neighbours show of the result, whatever `p` is;
* `lowerBound_eq` — when `p` once false stays false the result is the first index where it is;
* `lowerBound_runs` — a search over constant runs is the search over the run heads, and finds the
  head.
-/

set_option autoImplicit false

namespace LowerBound

/-- The loop of `std::lower_bound`: `len` indices from `first` on are open. -/
def bisect (p : ℕ → Bool) : ℕ → ℕ → ℕ → ℕ
  | 0, first, _ => first
  | fuel + 1, first, len =>
    if len = 0 then first
    else if p (first + len / 2) = true then
      bisect p fuel (first + len / 2 + 1) (len - len / 2 - 1)
    else bisect p fuel first (len / 2)

/-- The first of the indices below `n` that is not below the key, or `n`. -/
def lowerBound (p : ℕ → Bool) (n : ℕ) : ℕ := bisect p n 0 n

variable {p : ℕ → Bool}

/-- **The result is in range, what precedes it is below and it is not.** -/
theorem bisect_spec : ∀ (fuel first len : ℕ), len ≤ fuel →
    first ≤ bisect p fuel first len ∧ bisect p fuel first len ≤ first + len ∧
      (bisect p fuel first len < first + len → p (bisect p fuel first len) = false) ∧
      (first < bisect p fuel first len → p (bisect p fuel first len - 1) = true) := by
  intro fuel
  induction fuel with
  | zero =>
    intro first len hlen
    obtain rfl : len = 0 := by omega
    unfold bisect
    exact ⟨le_refl _, le_refl _, fun h => absurd h (lt_irrefl _), fun h => absurd h (lt_irrefl _)⟩
  | succ fuel ih =>
    intro first len hlen
    unfold bisect
    split
    · exact ⟨le_refl _, by omega, fun h => by omega, fun h => absurd h (lt_irrefl _)⟩
    · rename_i hne
      split
      · rename_i hbelow
        obtain ⟨hle, hge, hlast, hprev⟩ :=
          ih (first + len / 2 + 1) (len - len / 2 - 1) (by omega)
        refine ⟨by omega, by omega, fun h => hlast (by omega), fun _ => ?_⟩
        -- the middle itself, or something found beyond it
        rcases Nat.eq_or_lt_of_le hle with heq | hlt
        · rw [← heq]
          exact hbelow
        · exact hprev hlt
      · rename_i habove
        obtain ⟨hle, hge, hlast, hprev⟩ := ih first (len / 2) (by omega)
        refine ⟨hle, by omega, fun h => ?_, hprev⟩
        rcases Nat.eq_or_lt_of_le hge with heq | hlt
        · rw [heq]
          exact eq_false_of_ne_true habove
        · exact hlast hlt

variable {n : ℕ}

theorem lowerBound_le : lowerBound p n ≤ n := by
  have h := (@bisect_spec p n 0 n (le_refl n)).2.1
  rwa [Nat.zero_add] at h

/-- Whatever `p` is, what is found is not below. -/
theorem lowerBound_found (h : lowerBound p n < n) : p (lowerBound p n) = false := by
  apply (@bisect_spec p n 0 n (le_refl n)).2.2.1
  rwa [Nat.zero_add]

theorem lowerBound_prev (h : 0 < lowerBound p n) : p (lowerBound p n - 1) = true :=
  (@bisect_spec p n 0 n (le_refl n)).2.2.2 h

/-- A last index that is not below is enough for something to be found. -/
theorem lowerBound_lt_of_last (hn : 0 < n) (h : p (n - 1) = false) : lowerBound p n < n := by
  apply Nat.lt_of_le_of_ne lowerBound_le
  intro heq
  have hprev := @lowerBound_prev p n (by omega)
  rw [heq, h] at hprev
  cases hprev

/-- **Where `p` once false stays false, the first index where it is.** -/
theorem lowerBound_eq (hp : ∀ i j, i ≤ j → p j = true → p i = true) {t : ℕ} (ht : t ≤ n)
    (hbelow : ∀ i < t, p i = true) (hat : t < n → p t = false) : lowerBound p n = t := by
  rcases Nat.lt_trichotomy (lowerBound p n) t with hlt | heq | hgt
  · have hfound := @lowerBound_found p n (by omega)
    rw [hbelow _ hlt] at hfound
    cases hfound
  · exact heq
  · have hle := @lowerBound_le p n
    have hprev := hp t _ (by omega) (@lowerBound_prev p n (by omega))
    rw [hat (by omega)] at hprev
    cases hprev

/-- What precedes the result is below. -/
theorem below_of_lt (hp : ∀ i j, i ≤ j → p j = true → p i = true) {i : ℕ}
    (h : i < lowerBound p n) : p i = true :=
  hp i (lowerBound p n - 1) (by omega) (lowerBound_prev (by omega))

theorem bisect_congr {q : ℕ → Bool} (h : ∀ i < n, p i = q i) : ∀ (fuel first len : ℕ),
    first + len ≤ n → bisect p fuel first len = bisect q fuel first len := by
  intro fuel
  induction fuel with
  | zero => intros; rfl
  | succ fuel ih =>
    intro first len hlen
    unfold bisect
    split
    · rfl
    · rw [h (first + len / 2) (by omega), ih (first + len / 2 + 1) _ (by omega),
        ih first _ (by omega)]

/-- Only the indices below `n` matter. -/
theorem lowerBound_congr {q : ℕ → Bool} (h : ∀ i < n, p i = q i) :
    lowerBound p n = lowerBound q n := bisect_congr h n 0 n (by omega)

/-! ## Constant runs -/

/-- The run of `i`: how many heads are up to `i`. -/
def runOf (heads : List ℕ) (i : ℕ) : ℕ := heads.countP fun h => decide (h ≤ i)

variable {heads : List ℕ}

theorem runOf_mono {i j : ℕ} (h : i ≤ j) : runOf heads i ≤ runOf heads j := by
  apply List.countP_mono_left
  intro a _ ha
  exact decide_eq_true (le_trans (of_decide_eq_true ha) h)

theorem runOf_le (i : ℕ) : runOf heads i ≤ heads.length := List.countP_le_length

/-- Head `r` begins run `r + 1`. -/
theorem runOf_head (hsorted : heads.Pairwise (· < ·)) {r : ℕ} (hr : r < heads.length) :
    runOf heads heads[r] = r + 1 := by
  induction heads generalizing r with
  | nil => cases hr
  | cons a heads ih =>
    obtain ⟨hfirst, hrest⟩ := List.pairwise_cons.1 hsorted
    unfold runOf
    cases r with
    | zero =>
      have hnone : heads.countP (fun h => decide (h ≤ a)) = 0 := by
        rw [List.countP_eq_zero]
        intro b hb
        have hlt := hfirst b hb
        simpa using hlt
      simp only [List.getElem_cons_zero]
      rw [List.countP_cons_of_pos (by simp), hnone]
    | succ r =>
      have hr' : r < heads.length := by simpa using hr
      have hle : a ≤ heads[r] := le_of_lt (hfirst _ (List.getElem_mem hr'))
      have hih := ih hrest hr'
      unfold runOf at hih
      simp only [List.getElem_cons_succ]
      rw [List.countP_cons, hih, if_pos (decide_eq_true hle)]

/-- Before head `r` the runs are those up to `r`. -/
theorem runOf_before (hsorted : heads.Pairwise (· < ·)) {r i : ℕ} (hr : r < heads.length)
    (hi : i < heads[r]) : runOf heads i ≤ r := by
  induction heads generalizing r with
  | nil => cases hr
  | cons a heads ih =>
    obtain ⟨hfirst, hrest⟩ := List.pairwise_cons.1 hsorted
    unfold runOf
    cases r with
    | zero =>
      simp only [List.getElem_cons_zero] at hi
      have hnone : (a :: heads).countP (fun h => decide (h ≤ i)) = 0 := by
        rw [List.countP_eq_zero]
        intro b hb
        rcases List.mem_cons.1 hb with rfl | hb
        · simpa using hi
        · have hlt := lt_trans hi (hfirst b hb)
          simpa using hlt
      omega
    | succ r =>
      have hr' : r < heads.length := by simpa using hr
      simp only [List.getElem_cons_succ] at hi
      have hih := ih hrest hr' hi
      unfold runOf at hih
      have hone := List.countP_cons (p := fun h => decide (h ≤ i)) (a := a) (l := heads)
      split at hone <;> omega

/-- The heads up to `i` are the first `runOf heads i` of them. -/
theorem filter_le_eq_take (hsorted : heads.Pairwise (· < ·)) (i : ℕ) :
    heads.filter (fun h => decide (h ≤ i)) = heads.take (runOf heads i) := by
  induction heads with
  | nil => rfl
  | cons a heads ih =>
    obtain ⟨hfirst, hrest⟩ := List.pairwise_cons.1 hsorted
    have hih := ih hrest
    unfold runOf at hih ⊢
    rw [List.countP_cons]
    by_cases ha : a ≤ i
    · rw [List.filter_cons, if_pos (decide_eq_true ha), hih, if_pos (decide_eq_true ha)]
      rfl
    · have hnone : heads.filter (fun h => decide (h ≤ i)) = [] := by
        rw [List.filter_eq_nil_iff]
        intro b hb
        have hlt := hfirst b hb
        simp
        omega
      have hcount : heads.countP (fun h => decide (h ≤ i)) = 0 := by
        rw [List.countP_eq_length_filter, hnone]
        rfl
      have hneg : ¬ decide (a ≤ i) = true := by simpa using ha
      rw [List.filter_cons, if_neg hneg, hnone, hcount, if_neg hneg]
      rfl

theorem range_filter_le {i : ℕ} (h : i < n) :
    (List.range n).filter (fun j => decide (j ≤ i)) = List.range (i + 1) := by
  induction n with
  | zero => cases h
  | succ n ih =>
    rw [List.range_succ, List.filter_append]
    rcases Nat.lt_or_ge i n with hlt | hge
    · have hout : [n].filter (fun j => decide (j ≤ i)) = [] := by simp [hlt]
      rw [ih hlt, hout, List.append_nil]
    · obtain rfl : i = n := by omega
      have hall : (List.range i).filter (fun j => decide (j ≤ i)) = List.range i := by
        rw [List.filter_eq_self]
        intro j hj
        exact decide_eq_true (le_of_lt (List.mem_range.1 hj))
      have hlast : [i].filter (fun j => decide (j ≤ i)) = [i] := by simp
      rw [hall, hlast, List.range_succ]

/-- **A search over constant runs finds the head that the search over the heads finds**; run 0,
before all heads, is below. -/
theorem lowerBound_runs (hsorted : heads.Pairwise (· < ·)) (hheads : ∀ h ∈ heads, h < n)
    {q : ℕ → Bool} (hq : ∀ s t, s ≤ t → q t = true → q s = true) (hzero : q 0 = true) :
    lowerBound (fun i => q (runOf heads i)) n =
      heads.getD (lowerBound (fun r => q (r + 1)) heads.length) n := by
  obtain ⟨r, hr⟩ : ∃ r, lowerBound (fun r => q (r + 1)) heads.length = r := ⟨_, rfl⟩
  have hmono : ∀ i j, i ≤ j → q (runOf heads j) = true → q (runOf heads i) = true :=
    fun i j h => hq _ _ (runOf_mono h)
  have hbelow : ∀ s ≤ r, q s = true := by
    intro s hs
    cases s with
    | zero => exact hzero
    | succ s =>
      exact @below_of_lt (fun r => q (r + 1)) heads.length
        (fun i j h => hq _ _ (Nat.succ_le_succ h)) s (by omega)
  rw [hr]
  by_cases hlt : r < heads.length
  · have hget : heads.getD r n = heads[r] := by simp [hlt]
    have hfound : q (r + 1) = false := by
      have h := @lowerBound_found (fun r => q (r + 1)) heads.length (by omega)
      rwa [hr] at h
    rw [hget]
    refine lowerBound_eq hmono (le_of_lt (hheads _ (List.getElem_mem hlt))) ?_ ?_
    · intro i hi
      exact hbelow _ (runOf_before hsorted hlt hi)
    · intro _
      rw [runOf_head hsorted hlt]
      exact hfound
  · have hend : r = heads.length := by
      have hle := @lowerBound_le (fun r => q (r + 1)) heads.length
      omega
    have hget : heads.getD r n = n := by simp [hend]
    rw [hget]
    refine lowerBound_eq hmono (le_refl n) ?_ (fun h => absurd h (lt_irrefl n))
    intro i _
    apply hbelow
    rw [hend]
    exact runOf_le i

end LowerBound
