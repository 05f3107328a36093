import Mathlib.Algebra.GroupWithZero.Nat
import Mathlib.Data.List.Basic
import Mathlib.Tactic.Common

/-!
# Byte memory and kernels that write it block by block

Memory is a byte at every address.  A kernel is launched over `n` blocks; each block computes its
words from the memory it finds and writes them to its own part of one buffer.  The order of the
blocks is the scheduler's.

* `load_write_words` — a word of a buffer just written;
* `launch_eq_write` — blocks that do not read what other blocks write leave, in every order, what
  one write of the whole buffer leaves.
-/

set_option autoImplicit false

namespace ByteMemory

abbrev Mem := Nat → UInt8

/-- `k` consecutive bytes. -/
abbrev Word (k : Nat) := Fin k → UInt8

/-- The bytes from `start` on. -/
structure Region where
  start : Nat
  size : Nat
  deriving DecidableEq

instance : Membership Nat Region := ⟨fun R b => R.start ≤ b ∧ b < R.start + R.size⟩

theorem mem_region {R : Region} {b : Nat} : b ∈ R ↔ R.start ≤ b ∧ b < R.start + R.size := Iff.rfl

instance (R : Region) (b : Nat) : Decidable (b ∈ R) :=
  inferInstanceAs (Decidable (R.start ≤ b ∧ b < R.start + R.size))

/-- The regions share a byte. -/
def Region.Overlaps (R S : Region) : Prop :=
  max R.start S.start < min (R.start + R.size) (S.start + S.size)

instance (R S : Region) : Decidable (R.Overlaps S) := inferInstanceAs (Decidable (_ < _))

theorem Region.overlaps_of_mem {R S : Region} {b : Nat} (hR : b ∈ R) (hS : b ∈ S) :
    R.Overlaps S := by
  obtain ⟨h₁, h₂⟩ := hR
  obtain ⟨h₃, h₄⟩ := hS
  unfold Region.Overlaps
  omega

theorem Region.Overlaps.symm {R S : Region} (h : R.Overlaps S) : S.Overlaps R := by
  unfold Region.Overlaps at *
  omega

/-- Every byte of the first lies in the second. -/
def Region.Within (R S : Region) : Prop :=
  S.start ≤ R.start ∧ R.start + R.size ≤ S.start + S.size

instance (R S : Region) : Decidable (R.Within S) := inferInstanceAs (Decidable (_ ∧ _))

theorem Region.Within.mem {R S : Region} {b : Nat} (h : R.Within S) (hb : b ∈ R) : b ∈ S :=
  ⟨Nat.le_trans h.1 hb.1, Nat.lt_of_lt_of_le hb.2 h.2⟩

theorem Region.Within.refl (R : Region) : R.Within R := ⟨Nat.le_refl _, Nat.le_refl _⟩

theorem Region.Overlaps.within {R R' S S' : Region} (h : R.Overlaps S) (hR : R.Within R')
    (hS : S.Within S') : R'.Overlaps S' := by
  obtain ⟨h₁, h₂⟩ := hR
  obtain ⟨h₃, h₄⟩ := hS
  unfold Region.Overlaps at *
  omega

theorem Region.not_overlaps_of_le {R S : Region}
    (h : R.start + R.size ≤ S.start ∨ S.start + S.size ≤ R.start) : ¬ R.Overlaps S := by
  unfold Region.Overlaps
  omega

/-- The same bytes throughout the region. -/
def AgreeOn (R : Region) (M N : Mem) : Prop := ∀ b ∈ R, M b = N b

theorem AgreeOn.refl (R : Region) (M : Mem) : AgreeOn R M M := fun _ _ => rfl

theorem AgreeOn.symm {R : Region} {M N : Mem} (h : AgreeOn R M N) : AgreeOn R N M :=
  fun b hb => (h b hb).symm

theorem AgreeOn.trans {R : Region} {M N P : Mem} (h : AgreeOn R M N) (h' : AgreeOn R N P) :
    AgreeOn R M P := fun b hb => (h b hb).trans (h' b hb)

theorem AgreeOn.within {R S : Region} {M N : Mem} (h : AgreeOn S M N) (hRS : R.Within S) :
    AgreeOn R M N := fun b hb => h b (hRS.mem hb)

/-! ## Loads and writes -/

def load (k : Nat) (M : Mem) (a : Nat) : Word k := fun j => M (a + j)

/-- Overwrite a region; byte `j` of it becomes `bytes j`. -/
def write (R : Region) (bytes : Nat → UInt8) (M : Mem) : Mem :=
  fun b => if b ∈ R then bytes (b - R.start) else M b

/-- The bytes of a sequence of words. -/
def words (k : Nat) (v : Nat → Word k) : Nat → UInt8 :=
  fun j => if h : j % k < k then v (j / k) ⟨j % k, h⟩ else 0

theorem load_congr {k a : Nat} {M N : Mem} (h : AgreeOn ⟨a, k⟩ M N) : load k M a = load k N a := by
  funext j
  exact h (a + j) ⟨Nat.le_add_right .., Nat.add_lt_add_left j.isLt a⟩

theorem write_of_mem {R : Region} {bytes : Nat → UInt8} {M : Mem} {b : Nat} (h : b ∈ R) :
    write R bytes M b = bytes (b - R.start) := if_pos h

theorem write_of_not_mem {R : Region} {bytes : Nat → UInt8} {M : Mem} {b : Nat} (h : b ∉ R) :
    write R bytes M b = M b := if_neg h

theorem write_agree {R S : Region} (h : ¬ R.Overlaps S) (bytes : Nat → UInt8) (M : Mem) :
    AgreeOn S (write R bytes M) M :=
  fun _ hb => write_of_not_mem fun hR => h (Region.overlaps_of_mem hR hb)

theorem write_congr {R : Region} {f g : Nat → UInt8} (h : ∀ j < R.size, f j = g j) (M : Mem) :
    write R f M = write R g M := by
  funext b
  unfold write
  split
  · rename_i hb
    exact h _ (by have := hb.1; have := hb.2; omega)
  · rfl

theorem write_empty {R : Region} (h : R.size = 0) (bytes : Nat → UInt8) (M : Mem) :
    write R bytes M = M := by
  funext b
  refine write_of_not_mem fun hb => ?_
  have := hb.1
  have := hb.2
  omega

theorem word_lt {q n u e : Nat} (hu : u < n) (he : e < q) : q * u + e < q * n :=
  calc q * u + e < q * u + q := Nat.add_lt_add_left he _
    _ = q * (u + 1) := by rw [Nat.mul_add, Nat.mul_one]
    _ ≤ q * n := Nat.mul_le_mul_left q hu

section Words

variable {k : Nat}

theorem words_add [NeZero k] (v : Nat → Word k) (e : Nat) (j : Fin k) :
    words k v (k * e + j) = v e j := by
  have hdiv : (k * e + j) / k = e := by
    rw [Nat.mul_add_div (Nat.pos_of_neZero k), Nat.div_eq_of_lt j.isLt, Nat.add_zero]
  have hmod : (k * e + j) % k = j := by
    rw [Nat.mul_add_mod, Nat.mod_eq_of_lt j.isLt]
  simp only [words, hdiv, hmod, j.isLt, dite_true]

theorem words_congr {v w : Nat → Word k} {n j : Nat} (h : ∀ e < n, v e = w e) (hj : j < k * n) :
    words k v j = words k w j := by
  unfold words
  rw [h _ (Nat.div_lt_of_lt_mul hj)]

/-- **A word of a buffer just written.** -/
theorem load_write_words [NeZero k] {a n e : Nat} (he : e < n) (v : Nat → Word k) (M : Mem) :
    load k (write ⟨a, k * n⟩ (words k v) M) (a + k * e) = v e := by
  funext j
  have hlt : k * e + j < k * n := word_lt he j.isLt
  have hmem : a + k * e + j ∈ (⟨a, k * n⟩ : Region) :=
    mem_region.2 ⟨by simp only []; omega, by simp only []; omega⟩
  unfold load
  rw [write_of_mem hmem, show a + k * e + j - a = k * e + j by omega, words_add]

/-- Buffers that hold the same words hold the same bytes. -/
theorem agreeOn_of_load [NeZero k] {a n : Nat} {M N : Mem}
    (h : ∀ e < n, load k M (a + k * e) = load k N (a + k * e)) : AgreeOn ⟨a, k * n⟩ M N := by
  rintro b ⟨hle, hlt⟩
  simp only at hle hlt
  have hj : b - a < k * n := by omega
  have hmod : (b - a) % k < k := Nat.mod_lt _ (Nat.pos_of_neZero k)
  have hb : a + k * ((b - a) / k) + (b - a) % k = b := by
    rw [Nat.add_assoc, Nat.div_add_mod]
    omega
  have := congrFun (h _ (Nat.div_lt_of_lt_mul hj)) ⟨(b - a) % k, hmod⟩
  simpa only [load, hb] using this

/-! ## Kernels -/

/-- The order in which a launch over any number of blocks runs them. -/
abbrev Order := (n : Nat) → {l : List Nat // l.Perm (List.range n)}

theorem order_nodup (ord : Order) (n : Nat) : (ord n).1.Nodup :=
  (ord n).2.nodup_iff.2 List.nodup_range

theorem mem_order (ord : Order) {n : Nat} (u : Nat) : u ∈ (ord n).1 ↔ u < n := by
  rw [(ord n).2.mem_iff, List.mem_range]

/-- Where block `u` of `q` words writes. -/
def blockRegion (k q d u : Nat) : Region := ⟨d + k * (q * u), k * q⟩

/-- One block: its words from the memory it finds, then its write. -/
def block (q d : Nat) (val : Mem → Nat → Word k) (M : Mem) (u : Nat) : Mem :=
  write (blockRegion k q d u) (words k fun e => val M (q * u + e)) M

def launch (ord : Order) (n q d : Nat) (val : Mem → Nat → Word k) (M : Mem) : Mem :=
  (ord n).1.foldl (block q d val) M

/-- No block reads what another writes. -/
def Independent (n q d : Nat) (val : Mem → Nat → Word k) : Prop :=
  ∀ u < n, ∀ v < n, u ≠ v → ∀ bytes M, ∀ e < q,
    val (write (blockRegion k q d v) bytes M) (q * u + e) = val M (q * u + e)

theorem word_within {a n e : Nat} (he : e < n) :
    (⟨a + k * e, k⟩ : Region).Within ⟨a, k * n⟩ := by
  have h : k * (e + 1) ≤ k * n := Nat.mul_le_mul_left k he
  rw [Nat.mul_add, Nat.mul_one] at h
  constructor
  · exact Nat.le_add_right ..
  · simp only []
    omega

theorem blockRegion_within {q d u n : Nat} (hu : u < n) :
    (blockRegion k q d u).Within ⟨d, k * (q * n)⟩ := by
  have h : k * (q * (u + 1)) ≤ k * (q * n) := Nat.mul_le_mul_left k (Nat.mul_le_mul_left q hu)
  rw [Nat.mul_add, Nat.mul_one, Nat.mul_add] at h
  constructor
  · exact Nat.le_add_right ..
  · simp only [blockRegion]
    omega

/-- Different blocks write different bytes. -/
theorem blockRegion_disjoint {q d u v : Nat} (h : u ≠ v) :
    ¬ (blockRegion k q d u).Overlaps (blockRegion k q d v) := by
  have hend : ∀ {a b : Nat}, a < b → k * (q * a) + k * q ≤ k * (q * b) := fun {a b} hab =>
    calc k * (q * a) + k * q = k * (q * (a + 1)) := by simp only [Nat.mul_add, Nat.mul_one]
      _ ≤ k * (q * b) := Nat.mul_le_mul_left k (Nat.mul_le_mul_left q hab)
  refine Region.not_overlaps_of_le ?_
  simp only [blockRegion]
  rcases Nat.lt_or_gt_of_ne h with hlt | hlt
  · have := hend hlt
    omega
  · have := hend hlt
    omega

/-- A word of a buffer that is the written one, or apart from it, is read by its own block only. -/
theorem load_blockRegion {q n a d u v e : Nat} (hu : u < n) (hv : v < n) (huv : u ≠ v) (he : e < q)
    (h : a = d ∨ a + k * (q * n) ≤ d ∨ d + k * (q * n) ≤ a) (bytes : Nat → UInt8) (M : Mem) :
    load k (write (blockRegion k q d v) bytes M) (a + k * (q * u + e)) =
      load k M (a + k * (q * u + e)) := by
  refine load_congr (write_agree (fun hov => ?_) bytes M)
  rcases h with rfl | h
  · have hin : (⟨a + k * (q * u + e), k⟩ : Region).Within (blockRegion k q a u) := by
      have := word_within (k := k) (a := a + k * (q * u)) he
      rwa [Nat.add_assoc, ← Nat.mul_add] at this
    exact blockRegion_disjoint (Ne.symm huv) (hov.within (Region.Within.refl _) hin)
  · exact Region.not_overlaps_of_le (R := ⟨d, k * (q * n)⟩) (S := ⟨a, k * (q * n)⟩)
      (by simp only []; omega)
      (hov.within (blockRegion_within hv) (word_within (word_lt hu he)))

theorem mem_blockRegion [NeZero k] {q d u b : Nat} (hq : 0 < q) :
    b ∈ blockRegion k q d u ↔ d ≤ b ∧ (b - d) / (k * q) = u := by
  have hpos : 0 < k * q := Nat.mul_pos (Nat.pos_of_neZero k) hq
  rw [mem_region, blockRegion, Nat.div_eq_iff hpos, ← Nat.mul_assoc, Nat.mul_comm (k * q) u]
  simp only []
  omega

/-- The blocks run so far have written their own words; everything else is as it was. -/
theorem foldl_block [NeZero k] {n q d : Nat} {val : Mem → Nat → Word k} (hq : 0 < q)
    (hval : Independent n q d val) {order : List Nat} (hnd : order.Nodup)
    (hlt : ∀ u ∈ order, u < n) (M : Mem) (b : Nat) :
    order.foldl (block q d val) M b =
      if d ≤ b ∧ (b - d) / (k * q) ∈ order then words k (val M) (b - d) else M b := by
  -- on the order, the first block taken off
  induction order generalizing M with
  | nil => simp
  | cons u rest ih =>
    obtain ⟨hu, hnd⟩ := List.nodup_cons.1 hnd
    rw [List.foldl_cons, ih hnd fun v hv => hlt v (List.mem_cons_of_mem _ hv)]
    by_cases hd : d ≤ b
    swap
    · rw [if_neg (by tauto), if_neg (by tauto)]
      exact write_of_not_mem fun hb => hd ((mem_blockRegion hq).1 hb).1
    have hoff : ∀ w, (b - d) / (k * q) = w →
        b - d = k * (q * w) + (b - d) % (k * q) ∧ (b - d) % (k * q) < k * q := by
      rintro w rfl
      exact ⟨by rw [← Nat.mul_assoc, Nat.div_add_mod],
        Nat.mod_lt _ (Nat.mul_pos (Nat.pos_of_neZero k) hq)⟩
    by_cases hrest : (b - d) / (k * q) ∈ rest
    · -- a later block writes the byte, from memory only block `u` has changed
      rw [if_pos ⟨hd, hrest⟩, if_pos ⟨hd, List.mem_cons_of_mem _ hrest⟩]
      obtain ⟨w, hw⟩ : ∃ w, (b - d) / (k * q) = w := ⟨_, rfl⟩
      have hne : w ≠ u := fun h => hu (by rw [← h, ← hw]; exact hrest)
      obtain ⟨hbd, hr⟩ := hoff w hw
      have hdiv : (b - d) / k = q * w + (b - d) % (k * q) / k := by
        rw [hbd, Nat.mul_add_div (Nat.pos_of_neZero k), ← hbd]
      have hkey : val (block q d val M u) ((b - d) / k) = val M ((b - d) / k) := by
        rw [hdiv]
        exact hval w (hw ▸ hlt _ (List.mem_cons_of_mem _ hrest)) u (hlt u List.mem_cons_self) hne
          _ M _ (Nat.div_lt_of_lt_mul hr)
      simp only [words, hkey]
    · rw [if_neg (by tauto)]
      by_cases hbu : (b - d) / (k * q) = u
      · rw [if_pos ⟨hd, by rw [hbu]; exact List.mem_cons_self⟩, block,
          write_of_mem ((mem_blockRegion hq).2 ⟨hd, hbu⟩)]
        obtain ⟨hbd, hr⟩ := hoff u hbu
        have hstart : b - (blockRegion k q d u).start = (b - d) % (k * q) := by
          rw [blockRegion]
          simp only []
          omega
        have hdiv : (b - d) / k = q * u + (b - d) % (k * q) / k := by
          rw [hbd, Nat.mul_add_div (Nat.pos_of_neZero k), ← hbd]
        simp only [words, hstart, hdiv, Nat.mod_mul_right_mod]
      · rw [if_neg (by simp [hbu, hrest]), block]
        exact write_of_not_mem fun hb => hbu ((mem_blockRegion hq).1 hb).2

/-- Independent blocks, each run once, write the whole buffer. -/
theorem foldl_block_eq_write [NeZero k] {n q d : Nat} {val : Mem → Nat → Word k} (hq : 0 < q)
    (hval : Independent n q d val) {order : List Nat} (hnd : order.Nodup)
    (hmem : ∀ u, u ∈ order ↔ u < n) (M : Mem) :
    order.foldl (block q d val) M = write ⟨d, k * (q * n)⟩ (words k (val M)) M := by
  funext b
  rw [foldl_block hq hval hnd fun u hu => (hmem u).1 hu]
  have hpos : 0 < k * q := Nat.mul_pos (Nat.pos_of_neZero k) hq
  have hiff : (d ≤ b ∧ (b - d) / (k * q) ∈ order) ↔ b ∈ (⟨d, k * (q * n)⟩ : Region) := by
    rw [hmem, mem_region, Nat.div_lt_iff_lt_mul hpos, Nat.mul_comm n, Nat.mul_assoc]
    simp only []
    omega
  unfold write
  simp only [hiff]

/-- **Independent blocks leave, in every order, what one write of the whole buffer leaves.** -/
theorem launch_eq_write [NeZero k] {n q d : Nat} {val : Mem → Nat → Word k} (hq : 0 < q)
    (hval : Independent n q d val) (ord : Order) (M : Mem) :
    launch ord n q d val M = write ⟨d, k * (q * n)⟩ (words k (val M)) M :=
  foldl_block_eq_write hq hval (order_nodup ord n) (mem_order ord) M

end Words

end ByteMemory
