import Mathlib.Data.List.Induction
import Mathlib.Data.List.Nodup
import SuprMeow.Library.ByteMemory

/-!
# Kernels that reduce each row before they store it

The rows of an array are reduced, each to one result, and the words of a row are stored from its
result and from the memory found at that time.  The threads of all rows run at once: the order is
any in which no row is stored before it is reduced.

* `launchRows_eq_write` — where no word stored is read again for another, every such order leaves
  what one write of the whole buffer leaves;
* `rowsInTurn` — the orders that finish a row before the next.
-/

set_option autoImplicit false

namespace ByteMemory

/-- What is done at a time: the reduction of a row, or the store of one word. -/
inductive Phase where
  | reduce (u : Nat)
  | store (e : Nat)
  deriving DecidableEq

/-- The word a phase stores. -/
def Phase.stored : Phase → Option Nat
  | .reduce _ => none
  | .store e => some e

/-- An order of the phases of `n` rows of `q` words; no row is reduced behind a store of its own. -/
structure RowSchedule (n q : Nat) where
  phases : List Phase
  nodup : phases.Nodup
  mem_reduce : ∀ u, .reduce u ∈ phases ↔ u < n
  mem_store : ∀ e, .store e ∈ phases ↔ e < q * n
  barrier : phases.Pairwise fun a b => ∀ e, a = .store e → b ≠ .reduce (e / q)

/-- The order in which a launch over rows of any number and length runs its phases. -/
abbrev RowOrder := (n q : Nat) → RowSchedule n q

variable {k : Nat} {S : Type}

/-- One phase, on the memory and the results of the rows reduced so far. -/
def rowPhase (q d : Nat) (red : Mem → Nat → S) (val : S → Mem → Nat → Word k)
    (s : Mem × (Nat → Option S)) : Phase → Mem × (Nat → Option S)
  | .reduce u => (s.1, fun v => if v = u then some (red s.1 u) else s.2 v)
  | .store e =>
    match s.2 (e / q) with
    | some r => (write ⟨d + k * e, k⟩ (words k fun _ => val r s.1 e) s.1, s.2)
    | none => s

def launchRows (ord : RowOrder) (n q d : Nat) (red : Mem → Nat → S)
    (val : S → Mem → Nat → Word k) (M : Mem) : Mem :=
  ((ord n q).phases.foldl (rowPhase q d red val) (M, fun _ => none)).1

/-- No reduction reads a word stored for another row, and no store a word stored for another. -/
structure RowsIndependent (n q d : Nat) (red : Mem → Nat → S) (val : S → Mem → Nat → Word k) :
    Prop where
  reduce : ∀ u < n, ∀ e < q * n, e / q ≠ u → ∀ bytes M,
    red (write ⟨d + k * e, k⟩ bytes M) u = red M u
  store : ∀ e < q * n, ∀ v < q * n, e ≠ v → ∀ r bytes M,
    val r (write ⟨d + k * v, k⟩ bytes M) e = val r M e

namespace RowSchedule

variable {n q : Nat} (sched : RowSchedule n q) {pre post : List Phase}

/-- A row is reduced before it is stored. -/
theorem reduced {e : Nat} (h : sched.phases = pre ++ .store e :: post) :
    .reduce (e / q) ∈ pre := by
  have he : e < q * n := (sched.mem_store e).1 (by simp [h])
  have hmem : .reduce (e / q) ∈ sched.phases := (sched.mem_reduce _).2 (Nat.div_lt_of_lt_mul he)
  have hbarrier := sched.barrier
  rw [h] at hmem hbarrier
  rcases List.mem_append.1 hmem with hpre | hpost
  · exact hpre
  · have htail := (List.pairwise_cons.1 (List.pairwise_append.1 hbarrier).2.1).1
    rcases List.mem_cons.1 hpost with heq | hpost
    · cases heq
    · exact absurd rfl (htail _ hpost e rfl)

/-- What is stored before a row is reduced belongs to other rows. -/
theorem stored_before {u e : Nat} (h : sched.phases = pre ++ .reduce u :: post)
    (he : e ∈ pre.filterMap Phase.stored) : e < q * n ∧ e / q ≠ u := by
  obtain ⟨p, hp, hstored⟩ := List.mem_filterMap.1 he
  obtain rfl : p = .store e := by
    cases p with
    | reduce v => cases hstored
    | store v =>
      cases hstored
      rfl
  have hbarrier := sched.barrier
  rw [h] at hbarrier
  refine ⟨(sched.mem_store e).1 (by simp [h, hp]), fun heq => ?_⟩
  exact (List.pairwise_append.1 hbarrier).2.2 _ hp _ List.mem_cons_self e rfl (by rw [heq])

theorem stored_nodup : (sched.phases.filterMap Phase.stored).Nodup := by
  refine List.Nodup.filterMap (fun a b e ha hb => ?_) sched.nodup
  cases a with
  | reduce u => cases ha
  | store u =>
    cases b with
    | reduce v => cases hb
    | store v =>
      cases ha
      cases hb
      rfl

theorem mem_stored (e : Nat) : e ∈ sched.phases.filterMap Phase.stored ↔ e < q * n := by
  rw [← sched.mem_store, List.mem_filterMap]
  constructor
  · rintro ⟨p, hp, hstored⟩
    cases p with
    | reduce u => cases hstored
    | store u =>
      cases hstored
      exact hp
  · exact fun h => ⟨_, h, rfl⟩

end RowSchedule

/-- A block of one word. -/
theorem block_one (d : Nat) (val : Mem → Nat → Word k) (M : Mem) (e : Nat) :
    block 1 d val M e = write ⟨d + k * e, k⟩ (words k fun _ => val M e) M := by
  have hregion : blockRegion k 1 d e = ⟨d + k * e, k⟩ := by
    rw [blockRegion, Nat.one_mul, Nat.mul_one]
  rw [block, hregion]
  refine write_congr (fun j hj => words_congr (n := 1) (fun v hv => ?_) (by simpa using hj)) M
  rw [Nat.one_mul, Nat.lt_one_iff.1 hv, Nat.add_zero]

section Launch

variable {n q d : Nat} {red : Mem → Nat → S} {val : S → Mem → Nat → Word k}

/-- The stores of other rows do not change what a row reduces to. -/
theorem RowsIndependent.reduce_foldl (h : RowsIndependent n q d red val) {u : Nat} (hu : u < n)
    (f : Mem → Nat → Word k) {order : List Nat} (horder : ∀ e ∈ order, e < q * n ∧ e / q ≠ u)
    (M : Mem) : red (order.foldl (block 1 d f) M) u = red M u := by
  induction order generalizing M with
  | nil => rfl
  | cons e rest ih =>
    obtain ⟨he, hne⟩ := horder e List.mem_cons_self
    rw [List.foldl_cons, ih (fun v hv => horder v (List.mem_cons_of_mem _ hv)), block_one,
      h.reduce u hu e he hne]

/-- The rows reduced so far have the results of the first memory, and the words stored so far come
from those. -/
theorem foldl_rowPhase (h : RowsIndependent n q d red val) (sched : RowSchedule n q) (M : Mem)
    (pre : List Phase) : ∀ post, sched.phases = pre ++ post →
      pre.foldl (rowPhase q d red val) (M, fun _ => none) =
        ((pre.filterMap Phase.stored).foldl (block 1 d fun N e => val (red M (e / q)) N e) M,
          fun u => if .reduce u ∈ pre then some (red M u) else none) := by
  -- on the phases done, the last one taken off
  induction pre using List.reverseRecOn with
  | nil => intro post _; simp
  | append_singleton pre p ih =>
    intro post hphases
    rw [List.append_assoc, List.singleton_append] at hphases
    rw [List.foldl_concat, ih _ hphases]
    cases p with
    | reduce u =>
      have hu : u < n := (sched.mem_reduce u).1 (by simp [hphases])
      have hred := h.reduce_foldl hu (fun N e => val (red M (e / q)) N e)
        (fun e he => sched.stored_before hphases he) M
      simp only [rowPhase, hred, List.filterMap_append, List.foldl_append]
      refine Prod.ext rfl (funext fun v => ?_)
      by_cases hv : v = u
      · simp [hv]
      · simp [hv]
    | store e =>
      have hpre := sched.reduced hphases
      simp [rowPhase, hpre, Phase.stored, block_one]

/-- **Where no word stored is read for another, every order leaves one write of the buffer.** -/
theorem launchRows_eq_write [NeZero k] (h : RowsIndependent n q d red val) (ord : RowOrder)
    (M : Mem) : launchRows ord n q d red val M =
      write ⟨d, k * (q * n)⟩ (words k fun e => val (red M (e / q)) M e) M := by
  have hind : Independent (q * n) 1 d fun N e => val (red M (e / q)) N e := by
    intro u hu v hv huv bytes N e he
    obtain rfl : e = 0 := Nat.lt_one_iff.1 he
    have hregion : blockRegion k 1 d v = ⟨d + k * v, k⟩ := by
      rw [blockRegion, Nat.one_mul, Nat.mul_one]
    rw [Nat.one_mul, Nat.add_zero, hregion]
    exact h.store u hu v hv huv _ bytes N
  unfold launchRows
  rw [foldl_rowPhase h (ord n q) M _ [] (List.append_nil _).symm,
    foldl_block_eq_write Nat.one_pos hind (ord n q).stored_nodup (ord n q).mem_stored, Nat.one_mul]

end Launch

/-! ## One row after another -/

/-- A row from its reduction to its last word. -/
def phasesOfRow (q u : Nat) : List Phase :=
  .reduce u :: (List.range q).map fun c => .store (q * u + c)

def Phase.row (q : Nat) : Phase → Nat
  | .reduce u => u
  | .store e => e / q

theorem mem_phasesOfRow {q u : Nat} {p : Phase} :
    p ∈ phasesOfRow q u ↔ p = .reduce u ∨ ∃ c < q, p = .store (q * u + c) := by
  simp [phasesOfRow, eq_comm]

theorem row_of_mem {q u : Nat} {p : Phase} (h : p ∈ phasesOfRow q u) : p.row q = u := by
  rcases mem_phasesOfRow.1 h with rfl | ⟨c, hc, rfl⟩
  · rfl
  · rw [Phase.row, Nat.mul_add_div (Nat.zero_lt_of_lt hc), Nat.div_eq_of_lt hc, Nat.add_zero]

theorem phasesOfRow_nodup (q u : Nat) : (phasesOfRow q u).Nodup := by
  refine List.nodup_cons.2 ⟨by simp, List.Nodup.map (fun a b h => ?_) List.nodup_range⟩
  simpa using h

theorem phasesOfRow_barrier (q u : Nat) :
    (phasesOfRow q u).Pairwise fun a b => ∀ e, a = .store e → b ≠ .reduce (e / q) := by
  refine List.pairwise_cons.2 ⟨fun b _ e h => (nomatch h), List.pairwise_map.2 ?_⟩
  exact List.Pairwise.imp (fun _ e _ h => (nomatch h)) List.nodup_range

section Turns

variable {order : List Nat} {n q : Nat}

theorem turns_nodup (h : order.Nodup) : (order.flatMap (phasesOfRow q)).Nodup :=
  List.pairwise_flatMap.2 ⟨fun u _ => phasesOfRow_nodup q u, h.imp fun huv a ha b hb hab =>
    huv (by rw [← row_of_mem ha, hab, row_of_mem hb])⟩

theorem turns_barrier (h : order.Nodup) : (order.flatMap (phasesOfRow q)).Pairwise
    fun a b => ∀ e, a = .store e → b ≠ .reduce (e / q) := by
  refine List.pairwise_flatMap.2 ⟨fun u _ => phasesOfRow_barrier q u, h.imp ?_⟩
  intro u v huv a ha b hb e hae hbe
  refine huv ?_
  rw [← row_of_mem ha, ← row_of_mem hb, hae, hbe]
  rfl

theorem reduce_mem_turns {v : Nat} : .reduce v ∈ order.flatMap (phasesOfRow q) ↔ v ∈ order := by
  rw [List.mem_flatMap]
  constructor
  · rintro ⟨u, hu, hv⟩
    rwa [← row_of_mem hv] at hu
  · exact fun hv => ⟨v, hv, mem_phasesOfRow.2 (.inl rfl)⟩

theorem store_mem_turns (hmem : ∀ u, u ∈ order ↔ u < n) {e : Nat} :
    .store e ∈ order.flatMap (phasesOfRow q) ↔ e < q * n := by
  rw [List.mem_flatMap]
  constructor
  · rintro ⟨u, hu, he⟩
    rcases mem_phasesOfRow.1 he with h | ⟨c, hc, h⟩
    · cases h
    · cases h
      exact word_lt ((hmem u).1 hu) hc
  · intro he
    have hq : 0 < q := Nat.pos_of_mul_pos_right (Nat.zero_lt_of_lt he)
    refine ⟨e / q, (hmem _).2 (Nat.div_lt_of_lt_mul he), mem_phasesOfRow.2 (.inr ?_)⟩
    exact ⟨e % q, Nat.mod_lt _ hq, by rw [Nat.div_add_mod]⟩

end Turns

/-- The rows in the given order, each finished before the next. -/
def rowsInTurn (ord : Order) (n q : Nat) : RowSchedule n q where
  phases := (ord n).1.flatMap (phasesOfRow q)
  nodup := turns_nodup (order_nodup ord n)
  mem_reduce _ := reduce_mem_turns.trans (mem_order ord _)
  mem_store _ := store_mem_turns (mem_order ord)
  barrier := turns_barrier (order_nodup ord n)

end ByteMemory
