import Mathlib.Data.List.Basic

/-!
# Arrays read with a bounds check

A computation over named arrays that stops at the first access out of range, so that one that does
not stop made none.

* `slice_ok`, `get_ok`, `room_ok` — accesses in range;
* `bind_ok`, `foldlM_ok`, `findSome_ok` — sequences and loops of them.
-/

set_option autoImplicit false

namespace Checked

variable {ι α β : Type}

/-- An access out of range: the array and its length, the first element and how many. -/
structure Fault (ι : Type) where
  array : ι
  length : Nat
  start : Nat
  count : Nat

abbrev Access (ι α : Type) := Except (Fault ι) α

def slice (name : ι) (xs : List α) (start count : Nat) : Access ι (List α) :=
  if start + count ≤ xs.length then .ok ((xs.drop start).take count)
  else .error ⟨name, xs.length, start, count⟩

/-- An array of `length` elements that is written in place. -/
def room (name : ι) (length start count : Nat) : Access ι Unit :=
  if start + count ≤ length then .ok () else .error ⟨name, length, start, count⟩

def get (name : ι) (xs : List α) (i : Nat) : Access ι α :=
  match xs[i]? with
  | some a => .ok a
  | none => .error ⟨name, xs.length, i, 1⟩

/-- The first index with a result. -/
def findSome (f : Nat → Access ι (Option β)) : List Nat → Access ι (Option β)
  | [] => .ok none
  | i :: is => do
    match ← f i with
    | some b => return some b
    | none => findSome f is

/-! ## In range -/

theorem bind_ok {x : Access ι α} {a : α} (h : x = .ok a) (k : α → Access ι β) :
    (x >>= k) = k a := by
  rw [h]
  rfl

theorem slice_ok (name : ι) {xs : List α} {start count : Nat} (h : start + count ≤ xs.length) :
    slice name xs start count = .ok ((xs.drop start).take count) := if_pos h

/-- The whole array. -/
theorem slice_all (name : ι) (xs : List α) : slice name xs 0 xs.length = .ok xs := by
  rw [slice_ok name (by omega), List.drop_zero, List.take_length]

theorem get_ok (name : ι) {xs : List α} {i : Nat} (h : i < xs.length) :
    get name xs i = .ok xs[i] := by
  rw [get, List.getElem?_eq_getElem h]

theorem room_ok (name : ι) {length start count : Nat} (h : start + count ≤ length) :
    room name length start count = .ok () := if_pos h

theorem foldlM_ok {f : β → α → Access ι β} {g : β → α → β} {xs : List α}
    (h : ∀ x ∈ xs, ∀ b, f b x = .ok (g b x)) (b : β) : xs.foldlM f b = .ok (xs.foldl g b) := by
  induction xs generalizing b with
  | nil => rfl
  | cons x xs ih =>
    rw [List.foldlM_cons, bind_ok (h x List.mem_cons_self b), List.foldl_cons]
    exact ih (fun y hy => h y (List.mem_cons_of_mem x hy)) (g b x)

theorem findSome_ok {f : Nat → Access ι (Option β)} {g : Nat → Option β} {is : List Nat}
    (h : ∀ i ∈ is, f i = .ok (g i)) : findSome f is = .ok (is.findSome? g) := by
  induction is with
  | nil => rfl
  | cons i is ih =>
    rw [findSome, h i List.mem_cons_self, List.findSome?_cons]
    change (match g i with | some b => Except.ok (some b) | none => findSome f is) = _
    cases g i with
    | some b => rfl
    | none => exact ih fun j hj => h j (List.mem_cons_of_mem i hj)

end Checked
