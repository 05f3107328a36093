import Mathlib.Data.List.Nodup
import Mathlib.Data.List.Perm.Basic

/-!
# Lists whose entries carry a key

Association lists with distinct keys, as a `std::vector` of pairs or a map in insertion order
is modelled: looking up, erasing one entry by its key or its place, and what that leaves.
-/

set_option autoImplicit false

namespace KeyedList

section Keys

variable {α κ : Type} [DecidableEq κ] {f : α → κ}

theorem eraseP_eq_filter {l : List α} (h : (l.map f).Nodup) (x : κ) :
    l.eraseP (f · == x) = l.filter (f · != x) := by
  induction l with
  | nil => rfl
  | cons a l ih =>
    rw [List.map_cons, List.nodup_cons] at h
    cases hx : f a == x with
    | true =>
      have hax : f a = x := by simpa using hx
      rw [List.eraseP_cons_of_pos (by simpa using hx), List.filter_cons_of_neg (by simp [hax]),
        List.filter_eq_self.2]
      intro b hb
      have : f b ≠ x := fun hbx => h.1 (hax ▸ hbx ▸ List.mem_map_of_mem hb)
      simpa using this
    | false =>
      rw [List.eraseP_cons_of_neg (by simpa using hx), List.filter_cons_of_pos (by simpa using hx),
        ih h.2]

theorem eraseIdx_eq_filter {l : List α} (h : (l.map f).Nodup) {k : Nat} {a : α}
    (hk : l[k]? = some a) : l.eraseIdx k = l.filter (f · != f a) := by
  induction l generalizing k with
  | nil => simp at hk
  | cons b l ih =>
    rw [List.map_cons, List.nodup_cons] at h
    cases k with
    | zero =>
      obtain rfl : b = a := by simpa using hk
      rw [List.eraseIdx_zero, List.tail_cons, List.filter_cons_of_neg (by simp),
        List.filter_eq_self.2]
      intro c hc
      have : f c ≠ f b := fun hcb => h.1 (hcb ▸ List.mem_map_of_mem hc)
      simpa using this
    | succ k =>
      have hk' : l[k]? = some a := by simpa using hk
      have hne : f b ≠ f a := fun hba => h.1 (hba ▸ List.mem_map_of_mem (List.mem_of_getElem? hk'))
      rw [List.eraseIdx_cons_succ, List.filter_cons_of_pos (by simpa using hne), ih h.2 hk']

theorem find?_key {l : List α} (h : (l.map f).Nodup) {a : α} (ha : a ∈ l) :
    l.find? (f · == f a) = some a := by
  induction l with
  | nil => cases ha
  | cons b l ih =>
    rw [List.map_cons, List.nodup_cons] at h
    rcases List.mem_cons.1 ha with rfl | ha
    · simp
    · have hne : f b ≠ f a := fun hba => h.1 (hba ▸ List.mem_map_of_mem ha)
      rw [List.find?_cons_of_neg (by simpa using hne), ih h.2 ha]

end Keys

theorem perm_cons_eraseIdx {α : Type} {l : List α} {k : Nat} {a : α} (hk : l[k]? = some a) :
    l.Perm (a :: l.eraseIdx k) := by
  obtain ⟨hlt, rfl⟩ := List.getElem?_eq_some_iff.1 hk
  have h := List.set_perm_cons_eraseIdx hlt l[k]
  rwa [List.set_getElem_self] at h

/-- In a sublist, what follows an element follows it in the whole list. -/
theorem sublist_after {α : Type} {x : α} {c d A B : List α}
    (h : (c ++ x :: d).Sublist (A ++ x :: B)) (hx : x ∉ A) : d.Sublist B := by
  have h' : (x :: d).Sublist (A ++ x :: B) := (List.sublist_append_right c _).trans h
  obtain ⟨l₁, l₂, he, h₁, h₂⟩ := List.sublist_append_iff.1 h'
  cases l₁ with
  | nil =>
    rw [List.nil_append] at he
    subst he
    exact List.cons_sublist_cons.1 h₂
  | cons y l₁ =>
    obtain ⟨rfl, -⟩ := List.cons.inj he
    exact absurd (h₁.subset List.mem_cons_self) hx

/-! ## Erasing the first match -/

section Erase

variable {α κ : Type} [DecidableEq κ] {f : α → κ}

theorem perm_cons_eraseP {l : List α} {p : α → Bool} {a : α} (h : l.find? p = some a) :
    l.Perm (a :: l.eraseP p) := by
  induction l with
  | nil => cases h
  | cons b l ih =>
    cases hb : p b with
    | true =>
      rw [List.find?_cons_of_pos hb] at h
      obtain rfl := Option.some.inj h
      rw [List.eraseP_cons_of_pos hb]
    | false =>
      rw [List.find?_cons_of_neg (by simp [hb])] at h
      rw [List.eraseP_cons_of_neg (by simp [hb])]
      exact ((ih h).cons b).trans (List.Perm.swap a b _)

/-- Erasing one key leaves the other lookups alone. -/
theorem find?_eraseP_ne {l : List α} {x y : κ} (h : y ≠ x) :
    (l.eraseP (f · == x)).find? (f · == y) = l.find? (f · == y) := by
  induction l with
  | nil => rfl
  | cons b l ih =>
    cases hb : f b == x with
    | true =>
      have hne : (f b == y) = false := by
        have : f b = x := by simpa using hb
        simpa [this] using fun hxy => h hxy.symm
      rw [List.eraseP_cons_of_pos (by simpa using hb)]
      simp only [List.find?_cons, hne]
    | false =>
      rw [List.eraseP_cons_of_neg (by simp [hb])]
      simp only [List.find?_cons, ih]

end Erase

end KeyedList
