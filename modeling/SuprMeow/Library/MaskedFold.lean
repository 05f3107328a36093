import Mathlib.Data.List.Basic
import Mathlib.Data.List.Sort
import Mathlib.Logic.Function.Basic
import Mathlib.Tactic.Common

/-!
# Folds over the part of a range that matters

A loop over `0 … n-1` whose body leaves the accumulator alone off a set of indices can run over
that set alone; and when it records the accumulator at every index, the record is constant
between two members of the set.

* `foldl_filter_neutral` — a fold skips what its body leaves alone;
* `store` — a loop that writes one cell per index;
* `foldl_update_eq` — writes at distinct indices, read back;
* `scan_eq`, `runs_eq` — the running fold, cell by cell and run by run.
-/

set_option autoImplicit false

namespace MaskedFold

variable {α β γ : Type*}

/-- **A fold skips what its body leaves alone.** -/
theorem foldl_filter_neutral {P : β → Prop} {f : β → α → β} {p : α → Bool} {l : List α}
    (hP : ∀ b, ∀ a ∈ l, P b → P (f b a)) (hskip : ∀ b, ∀ a ∈ l, P b → p a = false → f b a = b) :
    ∀ b, P b → (l.filter p).foldl f b = l.foldl f b := by
  induction l with
  | nil => intro b _; rfl
  | cons a l ih =>
    intro b hb
    have ih := ih (fun b a ha => hP b a (List.mem_cons_of_mem _ ha))
      (fun b a ha => hskip b a (List.mem_cons_of_mem _ ha))
    cases ha : p a with
    | true =>
      rw [List.filter_cons_of_pos ha, List.foldl_cons, List.foldl_cons]
      exact ih _ (hP b a List.mem_cons_self hb)
    | false =>
      rw [List.filter_cons_of_neg (by rw [ha]; decide), List.foldl_cons,
        hskip b a List.mem_cons_self hb ha]
      exact ih b hb

/-- What a fold keeps. -/
theorem foldl_keeps {P : β → Prop} {f : β → α → β} {l : List α}
    (hP : ∀ b, ∀ a ∈ l, P b → P (f b a)) : ∀ b, P b → P (l.foldl f b) := by
  induction l with
  | nil => intro b hb; exact hb
  | cons a l ih =>
    intro b hb
    exact ih (fun b a ha => hP b a (List.mem_cons_of_mem _ ha)) _ (hP b a List.mem_cons_self hb)

theorem foldl_congr_mem {f g : β → α → β} {l : List α} (h : ∀ b, ∀ a ∈ l, f b a = g b a) :
    ∀ b, l.foldl f b = l.foldl g b := by
  induction l with
  | nil => intro b; rfl
  | cons a l ih =>
    intro b
    rw [List.foldl_cons, List.foldl_cons, h b a List.mem_cons_self]
    exact ih (fun b a ha => h b a (List.mem_cons_of_mem _ ha)) _

/-! ## Vectors -/

/-- A loop that writes `f i` at every `i < n`. -/
def store (n : ℕ) (f : ℕ → γ) (v : ℕ → γ) : ℕ → γ := fun i => if i < n then f i else v i

theorem store_of_lt {n i : ℕ} (f v : ℕ → γ) (h : i < n) : store n f v i = f i := if_pos h

theorem store_of_le {n i : ℕ} (f v : ℕ → γ) (h : n ≤ i) : store n f v i = v i :=
  if_neg (Nat.not_lt.2 h)

@[simp] theorem store_store (n : ℕ) (f g v : ℕ → γ) : store n f (store n g v) = store n f v := by
  funext i
  unfold store
  split <;> rfl

theorem store_congr {n : ℕ} {f g : ℕ → γ} (h : ∀ i < n, f i = g i) (v : ℕ → γ) :
    store n f v = store n g v := by
  funext i
  unfold store
  split
  · rename_i hi; exact h i hi
  · rfl

/-- **Writes at distinct indices, read back.** -/
theorem foldl_update_eq {g : ℕ → γ} {l : List ℕ} :
    ∀ v : ℕ → γ, l.foldl (fun v i => Function.update v i (g i)) v =
      fun i => if i ∈ l then g i else v i := by
  induction l with
  | nil => intro v; simp
  | cons a l ih =>
    intro v
    rw [List.foldl_cons, ih]
    funext i
    by_cases hi : i ∈ l
    · simp [hi]
    · by_cases ha : i = a
      · subst ha; simp [hi]
      · simp [hi, ha]

/-- The same when each write reads its own cell. -/
theorem foldl_modify_eq {g : γ → γ} {l : List ℕ} (hl : l.Nodup) :
    ∀ v : ℕ → γ, l.foldl (fun v i => Function.update v i (g (v i))) v =
      fun i => if i ∈ l then g (v i) else v i := by
  induction l with
  | nil => intro v; simp
  | cons a l ih =>
    intro v
    rw [List.nodup_cons] at hl
    rw [List.foldl_cons, ih hl.2]
    funext i
    by_cases ha : i = a
    · subst ha; simp [hl.1]
    · simp [ha]

/-! ## Running folds -/

/-- The fold over `0 … i`. -/
def prefixFold (f : β → ℕ → β) (b : β) (i : ℕ) : β := (List.range (i + 1)).foldl f b

/-- **The running fold, recorded at every index.** -/
theorem scan_eq (f : β → ℕ → β) (b : β) (v : ℕ → β) : ∀ n,
    (List.range n).foldl (fun (st : β × (ℕ → β)) i =>
        (f st.1 i, Function.update st.2 i (f st.1 i))) (b, v) =
      ((List.range n).foldl f b, store n (prefixFold f b) v) := by
  intro n
  induction n with
  | zero => rfl
  | succ n ih =>
    rw [List.range_succ, List.foldl_append, ih, List.foldl_append]
    refine Prod.ext rfl (funext fun i => ?_)
    show Function.update (store n (prefixFold f b) v) n (f ((List.range n).foldl f b) n) i =
      store (n + 1) (prefixFold f b) v i
    by_cases hi : i = n
    · subst hi
      rw [Function.update_self, store_of_lt _ _ (Nat.lt_succ_self i), prefixFold, List.range_succ,
        List.foldl_append]
      rfl
    · rw [Function.update_of_ne hi]
      exact if_congr (by omega) rfl rfl

/-- Constant runs between the indices of `l`, from `pos` on: state after the indices of `l`. -/
def runs (f : β → ℕ → β) (l : List ℕ) (st : β × (ℕ → β) × ℕ) : β × (ℕ → β) × ℕ :=
  l.foldl (fun st i =>
    let c := f st.1 i
    (c, Function.update (fun j => if st.2.2 ≤ j ∧ j < i then st.1 else st.2.1 j) i c, i + 1)) st

/-- Off `p` the body keeps an accumulator that meets `P`. -/
theorem foldl_range_eq_of_neutral {P : β → Prop} {f : β → ℕ → β} {p : ℕ → Bool} {b : β} {n : ℕ}
    (hb : P b) (hP : ∀ b, ∀ i < n, P b → P (f b i))
    (hskip : ∀ b, ∀ i < n, P b → p i = false → f b i = b) {k m : ℕ} (hk : k ≤ m) (hm : m ≤ n)
    (hoff : ∀ i, k ≤ i → i < m → p i = false) :
    (List.range m).foldl f b = (List.range k).foldl f b := by
  induction m, hk using Nat.le_induction with
  | base => rfl
  | succ m hk ih =>
    rw [List.range_succ, List.foldl_append, ih (by omega) fun i h1 h2 => hoff i h1 (by omega)]
    have hPk : P ((List.range k).foldl f b) :=
      foldl_keeps (fun b i hi => hP b i (by rw [List.mem_range] at hi; omega)) _ hb
    exact hskip _ m (by omega) hPk (hoff m hk (by omega))

/-- **Runs between the members of `p` record the running fold.** -/
theorem runs_eq {P : β → Prop} {f : β → ℕ → β} {p : ℕ → Bool} {b : β} {n : ℕ} (hb : P b)
    (hP : ∀ b, ∀ i < n, P b → P (f b i))
    (hskip : ∀ b, ∀ i < n, P b → p i = false → f b i = b) (v : ℕ → β) :
    ∀ (l : List ℕ) (pos : ℕ), pos ≤ n → l.Pairwise (· < ·) →
      (∀ i, i ∈ l ↔ pos ≤ i ∧ i < n ∧ p i = true) →
      let st := runs f l ((List.range pos).foldl f b, store pos (prefixFold f b) v, pos)
      st.2.2 ≤ n ∧
        (fun j => if st.2.2 ≤ j ∧ j < n then st.1 else st.2.1 j) = store n (prefixFold f b) v := by
  have hrun : ∀ {k j : ℕ}, k ≤ j → j < n → (∀ i, k ≤ i → i ≤ j → p i = false) →
      (List.range k).foldl f b = prefixFold f b j := fun hk hj hoff =>
    (foldl_range_eq_of_neutral hb hP hskip (by omega) (by omega)
      fun i h1 h2 => hoff i h1 (by omega)).symm
  intro l
  induction l with
  | nil =>
    intro pos hpos _ hmem
    refine ⟨hpos, funext fun j => ?_⟩
    have hoff : ∀ i, pos ≤ i → i < n → p i = false := fun i h1 h2 =>
      eq_false_of_ne_true fun hi => List.not_mem_nil ((hmem i).2 ⟨h1, h2, hi⟩)
    show (if pos ≤ j ∧ j < n then _ else store pos (prefixFold f b) v j) = _
    by_cases hj : pos ≤ j ∧ j < n
    · rw [if_pos hj, store_of_lt _ _ hj.2]
      exact hrun hj.1 hj.2 fun i h1 h2 => hoff i h1 (by omega)
    · rw [if_neg hj]
      exact if_congr (by omega) rfl rfl
  | cons a l ih =>
    intro pos hpos hsort hmem
    rw [List.pairwise_cons] at hsort
    obtain ⟨hposa, han, hpa⟩ := (hmem a).1 List.mem_cons_self
    -- nothing is marked between `pos` and `a`
    have hoff : ∀ i, pos ≤ i → i < a → p i = false := fun i h1 h2 =>
      eq_false_of_ne_true fun hi => by
        rcases List.mem_cons.1 ((hmem i).2 ⟨h1, by omega, hi⟩) with rfl | hl
        · omega
        · have := hsort.1 i hl; omega
    have hmem' : ∀ i, i ∈ l ↔ a + 1 ≤ i ∧ i < n ∧ p i = true := fun i => by
      constructor
      · intro hi
        exact ⟨hsort.1 i hi, ((hmem i).1 (List.mem_cons_of_mem _ hi)).2⟩
      · rintro ⟨h1, h2, h3⟩
        rcases List.mem_cons.1 ((hmem i).2 ⟨by omega, h2, h3⟩) with rfl | hl
        · omega
        · exact hl
    have hsum : f ((List.range pos).foldl f b) a = (List.range (a + 1)).foldl f b := by
      rw [List.range_succ, List.foldl_append,
        foldl_range_eq_of_neutral hb hP hskip hposa (by omega) hoff]
      rfl
    have hvec : Function.update (fun j => if pos ≤ j ∧ j < a then (List.range pos).foldl f b else
        store pos (prefixFold f b) v j) a (f ((List.range pos).foldl f b) a) =
        store (a + 1) (prefixFold f b) v := by
      funext j
      by_cases hj : j = a
      · subst hj
        rw [Function.update_self, hsum, store_of_lt _ _ (Nat.lt_succ_self j)]
        rfl
      · rw [Function.update_of_ne hj]
        by_cases hja : pos ≤ j ∧ j < a
        · rw [if_pos hja, store_of_lt _ _ (by omega)]
          exact hrun hja.1 (by omega) fun i h1 h2 => hoff i h1 (by omega)
        · rw [if_neg hja]
          exact if_congr (by omega) rfl rfl
    have hstep := ih (a + 1) (by omega) hsort.2 hmem'
    rw [← hvec, ← hsum] at hstep
    exact hstep

end MaskedFold
