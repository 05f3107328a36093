import Mathlib.Logic.Function.Basic
import SuprMeow.Library.BucketSelect

/-!
# Device memory, atomics and the CUB sorts

Device buffers are functions of the element index.  A kernel with one thread per element is one
`launch`; atomic additions to a row of counters are a fold over the order in which they happen.

* `foldl_atomicAdd_eq` — whatever the order, a counter ends at the number of its increments;
* `CubRadixSort` — what the CUB radix sorts are relied on for;
* `CubRadixSort.stableSort` — a sort that meets it.
-/

set_option autoImplicit false

namespace PowGpu

/-! ## Buffers -/

/-- A device array. -/
abbrev Buffer (α : Type) := Nat → α

section Buffer

variable {α : Type}

/-- The elements `[beg, fin)`. -/
def Buffer.slice (b : Buffer α) (beg fin : Nat) : List α := (List.range' beg (fin - beg)).map b

/-- Overwrite from `beg` on. -/
def Buffer.write (b : Buffer α) (beg : Nat) (l : List α) : Buffer α :=
  fun i => if beg ≤ i then (l[i - beg]?).getD (b i) else b i

/-- A kernel with one thread per element: thread `i` stores `f i`. -/
def Buffer.launch (b : Buffer α) (total : Nat) (f : Nat → α) : Buffer α :=
  fun i => if i < total then f i else b i

/-- Row `s` of an array of rows of length `n`. -/
def Buffer.row (b : Buffer α) (n s : Nat) : Buffer α := fun i => b (s * n + i)

theorem Buffer.launch_of_lt (b : Buffer α) {total i : Nat} (f : Nat → α) (h : i < total) :
    b.launch total f i = f i := if_pos h

theorem Buffer.write_of_some {b : Buffer α} {beg i : Nat} {l : List α} {x : α}
    (h : l[i]? = some x) : b.write beg l (beg + i) = x := by
  simp [Buffer.write, h]

end Buffer

/-! ## Atomic counters -/

/-- `uint32_t` addition. -/
def add32 (a b : Nat) : Nat := (a + b) % 2 ^ 32

/-- `atomicAdd(counts + b, 1)`. -/
def atomicAdd (counts : Buffer Nat) (b : Nat) : Buffer Nat :=
  Function.update counts b (add32 (counts b) 1)

theorem foldl_atomicAdd (f : Nat → Nat) (order : List Nat) (counts : Buffer Nat) (b : Nat)
    (h : counts b < 2 ^ 32) :
    order.foldl (fun counts i => atomicAdd counts (f i)) counts b =
      (counts b + order.countP fun i => f i = b) % 2 ^ 32 := by
  induction order generalizing counts with
  | nil => exact (Nat.mod_eq_of_lt h).symm
  | cons i order ih =>
    rw [List.foldl_cons]
    by_cases hb : f i = b
    · have hself : atomicAdd counts (f i) b = add32 (counts b) 1 := by
        rw [atomicAdd, hb, Function.update_self]
      rw [ih _ (by rw [hself, add32]; omega), hself,
        List.countP_cons_of_pos (p := fun i => f i = b) (decide_eq_true hb), add32]
      omega
    · have hother : atomicAdd counts (f i) b = counts b := Function.update_of_ne (Ne.symm hb) ..
      rw [ih _ (by rw [hother]; exact h), hother,
        List.countP_cons_of_neg (p := fun i => f i = b) (by simpa using hb)]

/-- **Whatever the order of the increments, a counter is the size of its bucket.** -/
theorem foldl_atomicAdd_eq (f : Nat → Nat) {n : Nat} (hn : n < 2 ^ 32) {order : List Nat}
    (horder : order.Perm (List.range n)) (b : Nat) :
    order.foldl (fun counts i => atomicAdd counts (f i)) (fun _ => 0) b =
      (BucketSelect.bucket f n b).card := by
  have hcard : (BucketSelect.bucket f n b).card = (List.range n).countP fun i => f i = b := by
    rw [BucketSelect.bucket, Finset.card_def, Finset.filter_val, Finset.range_val,
      Multiset.range, Multiset.filter_coe, Multiset.coe_card, List.countP_eq_length_filter]
  have hle : (List.range n).countP (fun i => f i = b) ≤ n := by
    simpa using List.countP_le_length (l := List.range n) (p := fun i => f i = b)
  rw [foldl_atomicAdd _ _ _ _ (by decide), horder.countP_eq, hcard, Nat.zero_add,
    Nat.mod_eq_of_lt (by omega)]

/-! ## The CUB sorts -/

/-- Bits `[b, e)` of a key. -/
def digits {w : Nat} (b e : Nat) (k : BitVec w) : Nat := k.toNat / 2 ^ b % 2 ^ (e - b)

/-- The CUB radix sorts of `w`-bit keys: ascending in the selected bits, and stable. -/
structure CubRadixSort (w : Nat) where
  sortKeys : Nat → Nat → List (BitVec w) → List (BitVec w)
  perm : ∀ b e l, (sortKeys b e l).Perm l
  sorted : ∀ b e l, (sortKeys b e l).Pairwise fun x y => digits b e x ≤ digits b e y
  stable : ∀ b e l d, (sortKeys b e l).filter (fun x => digits b e x = d) =
    l.filter (fun x => digits b e x = d)

/-- `cub::DeviceRadixSort::SortKeys`. -/
def deviceSortKeys {w : Nat} (C : CubRadixSort w) (keysIn keysOut : Buffer (BitVec w))
    (total b e : Nat) : Buffer (BitVec w) :=
  keysOut.write 0 (C.sortKeys b e (keysIn.slice 0 total))

/-- `cub::DeviceSegmentedRadixSort::SortKeys`. -/
def deviceSegmentedSortKeys {w : Nat} (C : CubRadixSort w) (keysIn keysOut : Buffer (BitVec w))
    (S : Nat) (beg fin : Buffer Nat) (b e : Nat) : Buffer (BitVec w) :=
  (List.range S).foldl
    (fun out s => out.write (beg s) (C.sortKeys b e (keysIn.slice (beg s) (fin s)))) keysOut

/-- The selected bits determine the sort where they tell the keys apart. -/
theorem CubRadixSort.eq_ranking {w : Nat} (C : CubRadixSort w) {b e : Nat} {l : List (BitVec w)}
    (h : Ranking.Separates (digits b e) l) : C.sortKeys b e l = Ranking.ranking (digits b e) l :=
  Ranking.eq_ranking h (C.perm b e l) (C.sorted b e l)

/-- A stable comparison sort on the selected bits behaves as CUB does. -/
def CubRadixSort.stableSort (w : Nat) : CubRadixSort w where
  sortKeys b e l := l.mergeSort fun x y => decide (digits b e x ≤ digits b e y)
  perm _ _ _ := List.mergeSort_perm _ _
  sorted b e l := Ranking.ranking_pairwise (digits b e) l
  stable b e l d := Ranking.filter_mergeSort (digits b e) l d

end PowGpu
