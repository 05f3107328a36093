import SuprMeow.Library.Ranking

/-!
# Partial sorts

A partial sort puts the `k` least elements in front, in order, and the others behind them in any
order; elements the comparison ties may come in any order.

* `PartialSort.take_eq_ranking` — under a comparison by keys that tells the elements apart, what
  stands in front is determined;
* `PartialSort.ofFullSort` — sorting everything is a partial sort.
-/

set_option autoImplicit false

open Ranking

/-- The comparison of a sort on the elements of `xs`. -/
structure StrictWeak {α : Type} (lt : α → α → Bool) (xs : List α) : Prop where
  asymm : ∀ a ∈ xs, ∀ b ∈ xs, lt a b = true → lt b a = false
  trans : ∀ a ∈ xs, ∀ b ∈ xs, ∀ c ∈ xs, lt b a = false → lt c b = false → lt c a = false

/-- `std::partial_sort`. -/
structure PartialSort (α : Type) where
  run : (α → α → Bool) → Nat → List α → List α
  perm : ∀ {lt k xs}, StrictWeak lt xs → k ≤ xs.length → (run lt k xs).Perm xs
  sorted : ∀ {lt k xs}, StrictWeak lt xs → k ≤ xs.length →
    ((run lt k xs).take k).Pairwise fun a b => lt b a = false
  least : ∀ {lt k xs}, StrictWeak lt xs → k ≤ xs.length →
    ∀ a ∈ (run lt k xs).take k, ∀ b ∈ (run lt k xs).drop k, lt b a = false

namespace PartialSort

variable {α : Type} {κ : Type*} [LinearOrder κ] {key : α → κ} {lt : α → α → Bool} {xs : List α}

theorem strictWeak_of_key (hlt : ∀ a ∈ xs, ∀ b ∈ xs, lt a b = decide (key a < key b)) :
    StrictWeak lt xs where
  asymm a ha b hb h := by
    rw [hlt a ha b hb, decide_eq_true_eq] at h
    rw [hlt b hb a ha, decide_eq_false_iff_not, not_lt]
    exact h.le
  trans a ha b hb c hc hab hbc := by
    rw [hlt b hb a ha, decide_eq_false_iff_not, not_lt] at hab
    rw [hlt c hc b hb, decide_eq_false_iff_not, not_lt] at hbc
    rw [hlt c hc a ha, decide_eq_false_iff_not, not_lt]
    exact hab.trans hbc

/-- **The first `k` elements are the first `k` ranks.** -/
theorem take_eq_ranking (P : PartialSort α) (hsep : Separates key xs) (hnd : xs.Nodup)
    (hlt : ∀ a ∈ xs, ∀ b ∈ xs, lt a b = decide (key a < key b)) {k : Nat} (hk : k ≤ xs.length) :
    (P.run lt k xs).take k = (ranking key xs).take k := by
  have hweak := strictWeak_of_key hlt
  have hperm := P.perm hweak hk
  have hlen : ((P.run lt k xs).take k).length = k := by
    rw [List.length_take, hperm.length_eq, Nat.min_eq_left hk]
  have hmem : ∀ a ∈ (P.run lt k xs).take k, a ∈ xs :=
    fun a ha => hperm.mem_iff.1 (List.mem_of_mem_take ha)
  have hnd' : ((P.run lt k xs).take k ++ (P.run lt k xs).drop k).Nodup := by
    rw [List.take_append_drop]
    exact hperm.nodup_iff.2 hnd
  -- Elements that are not the same differ in the key, so that not greater is less.
  have hless : ∀ a ∈ xs, ∀ b ∈ xs, a ≠ b → lt b a = false → key a < key b := by
    intro a ha b hb hne h
    rw [hlt b hb a ha, decide_eq_false_iff_not, not_lt] at h
    exact lt_of_le_of_ne h fun heq => hne (hsep a ha b hb heq)
  have htake := take_ranking hsep hnd hmem
    (((P.sorted hweak hk).and (List.nodup_append.1 hnd').1).imp_of_mem
      fun ha hb h => hless _ (hmem _ ha) _ (hmem _ hb) h.2 h.1)
    (by
      intro x hx hnot y hy
      have hx' := hperm.mem_iff.2 hx
      rw [← List.take_append_drop k (P.run lt k xs), List.mem_append] at hx'
      refine hless y (hmem y hy) x hx (fun h => hnot (h ▸ hy)) ?_
      exact P.least hweak hk y hy x (hx'.resolve_left hnot))
  rwa [hlen] at htake

/-- All of the list by `lt`; the elements carry their membership, since `lt` may be no order on
others. -/
def fullSort (lt : α → α → Bool) (xs : List α) : List α :=
  (xs.attach.mergeSort fun a b => !lt b a).map Subtype.val

theorem fullSort_perm (lt : α → α → Bool) (xs : List α) : (fullSort lt xs).Perm xs := by
  have h := (List.mergeSort_perm xs.attach fun a b => !lt b a).map Subtype.val
  rwa [List.attach_map_subtype_val] at h

theorem fullSort_pairwise (h : StrictWeak lt xs) :
    (fullSort lt xs).Pairwise fun a b => lt b a = false := by
  refine List.pairwise_map.2 ((List.pairwise_mergeSort ?_ ?_ xs.attach).imp ?_)
  · rintro ⟨a, ha⟩ ⟨b, hb⟩ ⟨c, hc⟩ hab hbc
    rw [Bool.not_eq_true'] at hab hbc ⊢
    exact h.trans a ha b hb c hc hab hbc
  · rintro ⟨a, ha⟩ ⟨b, hb⟩
    cases hba : lt b a with
    | false => simp
    | true => simp [h.asymm b hb a ha hba]
  · intro a b hab
    rwa [Bool.not_eq_true'] at hab

/-- Sorting everything is a partial sort. -/
def ofFullSort (α : Type) : PartialSort α where
  run lt _ xs := fullSort lt xs
  perm _ _ := fullSort_perm _ _
  sorted h _ := (fullSort_pairwise h).sublist (List.take_sublist _ _)
  least h _ a ha b hb := by
    have hall := fullSort_pairwise h
    rw [← List.take_append_drop _ (fullSort _ _), List.pairwise_append] at hall
    exact hall.2.2 a ha b hb

end PartialSort
