import Mathlib.Data.List.Nodup

/-!
# Dictionaries in insertion order

A dictionary as the list of its entries, oldest first: assigning to a key that is there keeps its
place, a new key goes to the end.

* `lookup_assign`, `length_assign` — reading after an assignment;
* `lookup_drop` — evicting the oldest entries leaves the others alone;
* `nodup_assign`, `find_filter` — no key stands twice, so keeping some entries keeps their values.
-/

set_option autoImplicit false

namespace InsertionDict

variable {κ ν : Type} [DecidableEq κ]

/-- `d[k] = v`. -/
def assign : List (κ × ν) → κ → ν → List (κ × ν)
  | [], k, v => [(k, v)]
  | e :: d, k, v => if e.1 = k then (k, v) :: d else e :: assign d k v

theorem lookup_assign (d : List (κ × ν)) (k k' : κ) (v : ν) :
    (assign d k v).lookup k' = if k' = k then some v else d.lookup k' := by
  induction d with
  | nil =>
    unfold assign
    by_cases hk : k' = k
    · subst hk
      rw [List.lookup_cons_self, if_pos rfl]
    · have hne : (k' == k) = false := beq_false_of_ne hk
      rw [List.lookup_cons, hne, if_neg hk]
  | cons e d ih =>
    obtain ⟨a, b⟩ := e
    unfold assign
    dsimp only
    split
    · rename_i ha
      subst ha
      by_cases hk : k' = a
      · simp [hk]
      · have hne : (k' == a) = false := beq_false_of_ne hk
        rw [List.lookup_cons, List.lookup_cons, hne, if_neg hk]
    · rename_i ha
      rw [List.lookup_cons, List.lookup_cons, ih]
      by_cases hk : k' = a
      · have hne : k' ≠ k := fun h => ha (hk.symm.trans h)
        rw [if_neg hne, if_neg hne]
      · have hne : (k' == a) = false := beq_false_of_ne hk
        rw [hne]

theorem length_assign (d : List (κ × ν)) (k : κ) (v : ν) :
    (assign d k v).length = if k ∈ d.map (·.1) then d.length else d.length + 1 := by
  induction d with
  | nil => rfl
  | cons e d ih =>
    unfold assign
    split
    · rename_i he
      rw [if_pos (by simp [he])]
      rfl
    · rename_i he
      have hmem : k ∈ (e :: d).map (·.1) ↔ k ∈ d.map (·.1) := by
        rw [List.map_cons, List.mem_cons]
        exact or_iff_right fun h => he h.symm
      rw [List.length_cons, ih]
      by_cases hk : k ∈ d.map (·.1)
      · rw [if_pos hk, if_pos (hmem.2 hk)]
        rfl
      · rw [if_neg hk, if_neg fun h => hk (hmem.1 h)]
        rfl

/-- A new key goes behind the ones that are there. -/
theorem assign_of_new {d : List (κ × ν)} {k : κ} (h : k ∉ d.map (·.1)) (v : ν) :
    assign d k v = d ++ [(k, v)] := by
  induction d with
  | nil => rfl
  | cons e d ih =>
    rw [List.map_cons, List.mem_cons, not_or] at h
    unfold assign
    rw [if_neg fun he => h.1 he.symm, ih h.2]
    rfl

theorem lookup_drop {d : List (κ × ν)} {n : Nat} {k : κ} (h : k ∉ (d.take n).map (·.1)) :
    (d.drop n).lookup k = d.lookup k := by
  have hnone : (d.take n).lookup k = none := by
    rw [List.lookup_eq_none_iff]
    intro e he
    simpa using fun hk : k = e.1 => h (hk ▸ List.mem_map_of_mem he)
  conv => rhs; rw [← List.take_append_drop n d]
  rw [List.lookup_append, hnone, Option.none_or]

/-! ## Distinct keys -/

theorem keys_assign (d : List (κ × ν)) (k : κ) (v : ν) :
    (assign d k v).map (·.1) =
      if k ∈ d.map (·.1) then d.map (·.1) else d.map (·.1) ++ [k] := by
  by_cases h : k ∈ d.map (·.1)
  · rw [if_pos h]
    induction d with
    | nil => cases h
    | cons e d ih =>
      unfold assign
      split
      · rename_i he
        rw [List.map_cons, List.map_cons, he]
      · rename_i he
        rw [List.map_cons, List.mem_cons] at h
        rw [List.map_cons, ih (h.resolve_left fun hk => he hk.symm), List.map_cons]
  · rw [if_neg h, assign_of_new h, List.map_append, List.map_singleton]

theorem nodup_assign {d : List (κ × ν)} (h : (d.map (·.1)).Nodup) (k : κ) (v : ν) :
    ((assign d k v).map (·.1)).Nodup := by
  rw [keys_assign]
  split
  · exact h
  · rename_i hk
    refine List.nodup_append.2 ⟨h, List.nodup_singleton k, ?_⟩
    rintro a ha b hb rfl
    exact hk (List.mem_singleton.1 hb ▸ ha)

omit [DecidableEq κ] in
theorem nodup_filter {d : List (κ × ν)} (h : (d.map (·.1)).Nodup) (p : κ × ν → Bool) :
    ((d.filter p).map (·.1)).Nodup := h.sublist (List.filter_sublist.map _)

/-- `d.find(k)`. -/
def find (d : List (κ × ν)) (k : κ) : Option ν := d.lookup k

theorem find_assign (d : List (κ × ν)) (k k' : κ) (v : ν) :
    find (assign d k v) k' = if k' = k then some v else find d k' := lookup_assign d k k' v

theorem mem_of_find {d : List (κ × ν)} {k : κ} {v : ν} (h : find d k = some v) : (k, v) ∈ d := by
  obtain ⟨d₁, d₂, rfl, -⟩ := List.lookup_eq_some_iff.1 h
  simp

theorem find_of_mem {d : List (κ × ν)} (h : (d.map (·.1)).Nodup) {e : κ × ν} (he : e ∈ d) :
    find d e.1 = some e.2 := by
  obtain ⟨d₁, d₂, rfl⟩ := List.append_of_mem he
  rw [List.map_append, List.map_cons, List.nodup_append] at h
  refine List.lookup_eq_some_iff.2 ⟨d₁, d₂, rfl, fun p hp => ?_⟩
  have hne := h.2.2 p.1 (List.mem_map_of_mem hp) e.1 List.mem_cons_self
  simpa using Ne.symm hne

/-- What is kept is read as before. -/
theorem find_filter {d : List (κ × ν)} (h : (d.map (·.1)).Nodup) (p : κ × ν → Bool) (k : κ) :
    find (d.filter p) k = (find d k).filter fun v => p (k, v) := by
  unfold find
  induction d with
  | nil => rfl
  | cons e d ih =>
    obtain ⟨a, b⟩ := e
    rw [List.map_cons, List.nodup_cons] at h
    by_cases hk : k = a
    · subst hk
      rw [List.lookup_cons_self, List.filter_cons]
      cases hp : p (k, b) with
      | true =>
        rw [if_pos rfl, List.lookup_cons_self, Option.filter_some, if_pos hp]
      | false =>
        have hnone : d.lookup k = none := by
          rw [List.lookup_eq_none_iff]
          intro e he
          have hmem : e.1 ∈ d.map (·.1) := List.mem_map_of_mem he
          simpa using fun hke : k = e.1 => h.1 (hke ▸ hmem)
        rw [if_neg Bool.false_ne_true, ih h.2, hnone, Option.filter_some, hp]
        rfl
    · have hne : (k == a) = false := beq_false_of_ne hk
      rw [List.lookup_cons, hne, List.filter_cons]
      split
      · rw [List.lookup_cons, hne, ih h.2]
      · exact ih h.2

end InsertionDict
