import Mathlib.Data.List.Basic
import SuprMeow.Library.Runs

/-!
# The injection slot (`pow_gpu.cu`, `poi.cpp`)

A worker thread sorts the logits of its slice at once and hands each stream's result to the
sampler through one thread-local slot: it injects before `on_logits`, the sampler takes.  Only
the take clears the slot.  No caller prepares a batch, so `on_logits` itself injects nothing.

* `injectPresorted2`, `takePresorted2`, `peekPresortedProbes` — the slot;
* `Exit` — where a call of `on_logits` ends; `workerSlice` — one slice of a worker;
* `Sound` — every result taken was injected for the call that takes it, and no result of a call
  that failed before its take is ever taken;
* `injections_match_iff` — a run is sound exactly when no host-mode slice without a sort of its
  own reaches the take with the slot full.
-/

set_option autoImplicit false

namespace Poi

/-! ## The slot -/

/-- The step and the stream a sorted result was computed for. -/
structure Origin where
  step : Nat
  stream : Nat
  deriving DecidableEq

/-- `Injected`; each part by where it comes from, a null pointer as `none`. -/
structure Injected where
  idx : Option Origin := none
  val : Option Origin := none
  stats : Option Origin := none
  head : Option Origin := none
  count : Nat := 0
  probes : Option Origin := none
  probeN : Nat := 0
  deriving DecidableEq

/-- `pow_gpu_inject_presorted2`, with probes in device mode. -/
def injectPresorted2 (o : Origin) (count : Nat) (dev : Bool) : Injected where
  idx := some o
  val := some o
  stats := some o
  head := some o
  count := count
  probes := if dev then some o else none
  probeN := if dev then 20 else 0

/-- `pow_gpu_take_presorted2`: what it hands out, and the slot after it. -/
def takePresorted2 (inj : Injected) : Option Injected × Injected :=
  if inj.idx = none then (none, inj)
  else (some inj, { inj with idx := none, val := none, stats := none, probes := none, probeN := 0 })

/-- `pow_gpu_peek_presorted_probes`. -/
def peekPresortedProbes (inj : Injected) : Bool := inj.idx.isSome && inj.probes.isSome

/-! ## A worker thread -/

/-- How a call of `on_logits` ends, unless a missing injection ends it: not ready; an exception
at a window start; no parameters, no row, no admission nonce or no memory in the sampler; an
exception or a refusal after the take; a token. -/
inductive Exit where
  | notReady
  | windowStart
  | noParams
  | noRow
  | admission
  | capacity
  | tail
  | token
  deriving DecidableEq

/-- The call reaches the sampler's take. -/
def Exit.reachesTake : Exit → Bool
  | .tail => true
  | .token => true
  | _ => false

/-- One worker thread: its slot and, as a record, the step it is at, what each call took, and the
results whose calls failed before the take. -/
structure WorkerThread where
  slot : Injected := {}
  step : Nat := 0
  taken : List (Origin × Injected) := []
  lost : List Origin := []

/-- One slice of a worker: `dev` is device mode, `gsort` whether the slice was sorted. -/
structure Slice where
  lo : Nat
  hi : Nat
  dev : Bool
  gsort : Bool
  count : Nat
  exit : Nat → Exit

/-- `on_logits` on the thread's slot for the call `c`; the flag is a token.  `gpuSort` is the
process-wide switch of the GPU sort. -/
def onLogitsSlot (gpuSort : Bool) (c : Origin) (exit : Exit) (w : WorkerThread) :
    WorkerThread × Bool :=
  if exit.reachesTake then
    let devLogitsMode := peekPresortedProbes w.slot
    let r := if gpuSort then takePresorted2 w.slot else (none, w.slot)
    let w := { w with slot := r.2, taken := w.taken ++ (r.1.map (c, ·)).toList }
    -- in device mode a missing injection aborts the window
    if r.1 = none ∧ devLogitsMode = true then (w, false) else (w, exit = .token)
  else ({ w with lost := w.lost ++ (if w.slot.idx = some c then [c] else []) }, false)

/-- The streams `s`, `s + 1`, … of a slice, `k` of them, up to the first without a token. -/
def sampleStreams (gpuSort : Bool) (e : Slice) : Nat → Nat → WorkerThread → WorkerThread
  | 0, _, w => w
  | k + 1, s, w =>
    let c : Origin := ⟨w.step, s⟩
    let w := if e.gsort then { w with slot := injectPresorted2 c e.count e.dev } else w
    let r := onLogitsSlot gpuSort c (e.exit s) w
    if r.2 then sampleStreams gpuSort e k (s + 1) r.1 else r.1

/-- One slice; device mode has no host logits to fall back on when the sort fails. -/
def workerSlice (gpuSort : Bool) (e : Slice) (w : WorkerThread) : WorkerThread :=
  let w := { w with step := w.step + 1 }
  if e.dev ∧ ¬ e.gsort then w else sampleStreams gpuSort e (e.hi - e.lo) e.lo w

/-- The slices of one thread. -/
def workerMachine (gpuSort : Bool) : Runs.Machine WorkerThread Slice where
  init := {}
  step w e := some (workerSlice gpuSort e w)

/-- Every part of what the call `c` took was injected for `c`. -/
def Matches (c : Origin) (inj : Injected) : Prop :=
  inj.idx = some c ∧ inj.val = some c ∧ inj.stats = some c ∧ inj.head = some c ∧
    ∀ o, inj.probes = some o → o = c

/-- **No result reaches a wrong stream**, and none outlives a call that failed before taking it. -/
structure Sound (w : WorkerThread) : Prop where
  matched : ∀ p ∈ w.taken, Matches p.1 p.2
  lost : ∀ o ∈ w.lost, ∀ p ∈ w.taken, p.2.idx ≠ some o

/-- A slice that samples without a sort of its own does not reach the take with the slot full. -/
def Drained (gpuSort : Bool) (w : WorkerThread) (e : Slice) : Prop :=
  gpuSort = true → e.dev = false → e.gsort = false → e.lo < e.hi →
    (e.exit e.lo).reachesTake = true → w.slot.idx = none

/-! ## One call -/

variable {gpuSort : Bool} {e : Slice} {w w' : WorkerThread}

/-- The origin `o` was the call's before stream `s` of the step `n`. -/
def Origin.Before (o : Origin) (n s : Nat) : Prop := o.step < n ∨ o.step = n ∧ o.stream < s

/-- What holds before the call of stream `s`: the slot is of one piece, every call that took or
lost a result came earlier, and no call did both. -/
structure WorkerThread.Inv (w : WorkerThread) (s : Nat) : Prop where
  parts : ∀ o, w.slot.idx = some o → Matches o w.slot
  slot : ∀ o, w.slot.idx = some o → o.Before w.step s
  taken : ∀ p ∈ w.taken, p.1.Before w.step s
  lost : ∀ o ∈ w.lost, o.Before w.step s
  apart : ∀ o ∈ w.lost, ∀ p ∈ w.taken, p.1 ≠ o

theorem Origin.Before.ne {o : Origin} {n s : Nat} (h : o.Before n s) : o ≠ ⟨n, s⟩ := by
  rintro rfl
  rcases h with h | h
  · exact Nat.lt_irrefl _ h
  · exact Nat.lt_irrefl _ h.2

theorem Origin.Before.next {o : Origin} {n s : Nat} (h : o.Before n s) : o.Before n (s + 1) :=
  h.imp id fun h => ⟨h.1, Nat.lt_succ_of_lt h.2⟩

theorem Origin.before_next (n s : Nat) : Origin.Before ⟨n, s⟩ n (s + 1) :=
  .inr ⟨rfl, Nat.lt_succ_self s⟩

theorem takePresorted2_none {inj : Injected} (h : inj.idx = none) :
    takePresorted2 inj = (none, inj) := if_pos h

theorem takePresorted2_some {inj : Injected} (h : inj.idx ≠ none) :
    (takePresorted2 inj).1 = some inj ∧ (takePresorted2 inj).2.idx = none := by
  unfold takePresorted2
  rw [if_neg h]
  exact ⟨rfl, rfl⟩

/-- What a call can do to the slot: nothing; lose the result injected for it; or take what the
slot holds and leave it empty. -/
theorem onLogitsSlot_cases (gpuSort : Bool) (c : Origin) (exit : Exit) (w : WorkerThread) :
    ((onLogitsSlot gpuSort c exit w).1 = w ∧
      ((onLogitsSlot gpuSort c exit w).2 = true → exit.reachesTake = true) ∧
      (exit.reachesTake = true → gpuSort = true → w.slot.idx = none)) ∨
    ((onLogitsSlot gpuSort c exit w) = ({ w with lost := w.lost ++ [c] }, false) ∧
      exit.reachesTake = false ∧ w.slot.idx = some c) ∨
    (gpuSort = true ∧ exit.reachesTake = true ∧ w.slot.idx ≠ none ∧
      ∃ slot, slot.idx = none ∧ (onLogitsSlot gpuSort c exit w).1 =
        { w with slot := slot, taken := w.taken ++ [(c, w.slot)] }) := by
  unfold onLogitsSlot
  by_cases hreach : exit.reachesTake = true
  · rw [if_pos hreach]
    by_cases htake : gpuSort = true ∧ w.slot.idx ≠ none
    · obtain ⟨hg, hslot⟩ := htake
      obtain ⟨h1, h2⟩ := takePresorted2_some hslot
      refine .inr (.inr ⟨hg, hreach, hslot, (takePresorted2 w.slot).2, h2, ?_⟩)
      dsimp only
      rw [if_pos hg, if_neg (by rw [h1]; simp), h1]
      rfl
    · have hnone : (if gpuSort = true then takePresorted2 w.slot else (none, w.slot)) =
          (none, w.slot) := by
        split
        · rename_i hg
          exact takePresorted2_none (by_contra fun h => htake ⟨hg, h⟩)
        · rfl
      refine .inl ⟨?_, fun _ => hreach, fun _ hg => by_contra fun h => htake ⟨hg, h⟩⟩
      dsimp only
      rw [hnone]
      dsimp only
      split <;> simp
  · rw [if_neg hreach]
    by_cases hslot : w.slot.idx = some c
    · rw [if_pos hslot]
      exact .inr (.inl ⟨rfl, eq_false_of_ne_true hreach, hslot⟩)
    · rw [if_neg hslot, List.append_nil]
      exact .inl ⟨rfl, nofun, fun h => absurd h hreach⟩

theorem matches_inject (o : Origin) (count : Nat) (dev : Bool) :
    Matches o (injectPresorted2 o count dev) := by
  refine ⟨rfl, rfl, rfl, rfl, fun o' h => ?_⟩
  cases dev <;> cases h
  rfl

/-- The thread as the call of stream `s` finds it. -/
def WorkerThread.inject (w : WorkerThread) (e : Slice) (s : Nat) : WorkerThread :=
  if e.gsort then { w with slot := injectPresorted2 ⟨w.step, s⟩ e.count e.dev } else w

theorem inject_of_gsort (h : e.gsort = true) (s : Nat) :
    w.inject e s = { w with slot := injectPresorted2 ⟨w.step, s⟩ e.count e.dev } := if_pos h

theorem inject_of_not_gsort (h : e.gsort = false) (s : Nat) : w.inject e s = w := by
  rw [WorkerThread.inject, h]
  rfl

theorem inject_fields (w : WorkerThread) (e : Slice) (s : Nat) :
    (w.inject e s).step = w.step ∧ (w.inject e s).taken = w.taken ∧
      (w.inject e s).lost = w.lost := by
  unfold WorkerThread.inject
  split <;> exact ⟨rfl, rfl, rfl⟩

/-- One call keeps the invariant. -/
theorem WorkerThread.Inv.call {s : Nat} (h : w.Inv s) :
    (onLogitsSlot gpuSort ⟨w.step, s⟩ (e.exit s) (w.inject e s)).1.Inv (s + 1) ∧
      (onLogitsSlot gpuSort ⟨w.step, s⟩ (e.exit s) (w.inject e s)).1.step = w.step := by
  obtain ⟨hstep, htaken, hlost⟩ := inject_fields w e s
  have hmid : (∀ o, (w.inject e s).slot.idx = some o → Matches o (w.inject e s).slot) ∧
      ∀ o, (w.inject e s).slot.idx = some o → o.Before w.step (s + 1) := by
    by_cases hg : e.gsort = true
    · rw [inject_of_gsort hg]
      refine ⟨fun o ho => ?_, fun o ho => ?_⟩
      · cases ho
        exact matches_inject _ _ _
      · cases ho
        exact Origin.before_next _ _
    · rw [inject_of_not_gsort (eq_false_of_ne_true hg)]
      exact ⟨h.parts, fun o ho => (h.slot o ho).next⟩
  obtain ⟨hparts, hslot⟩ := hmid
  rcases onLogitsSlot_cases gpuSort ⟨w.step, s⟩ (e.exit s) (w.inject e s) with
    ⟨heq, -⟩ | ⟨heq, -, hidx⟩ | ⟨-, -, -, slot, hnone, heq⟩
  · rw [heq]
    refine ⟨⟨hparts, ?_, ?_, ?_, ?_⟩, hstep⟩
    · rwa [hstep]
    · rw [htaken, hstep]
      exact fun p hp => (h.taken p hp).next
    · rw [hlost, hstep]
      exact fun o ho => (h.lost o ho).next
    · rw [hlost, htaken]
      exact h.apart
  · rw [heq]
    refine ⟨⟨hparts, ?_, ?_, ?_, ?_⟩, hstep⟩
    · rwa [hstep]
    · rw [htaken, hstep]
      exact fun p hp => (h.taken p hp).next
    · rw [hlost, hstep]
      intro o ho
      rcases List.mem_append.1 ho with ho | ho
      · exact (h.lost o ho).next
      · rw [List.mem_singleton.1 ho]
        exact Origin.before_next _ _
    · rw [hlost, htaken]
      intro o ho p hp
      rcases List.mem_append.1 ho with ho | ho
      · exact h.apart o ho p hp
      · rw [List.mem_singleton.1 ho]
        exact (h.taken p hp).ne
  · rw [heq]
    refine ⟨⟨fun o ho => ?_, fun o ho => ?_, ?_, ?_, ?_⟩, hstep⟩
    · rw [hnone] at ho
      cases ho
    · rw [hnone] at ho
      cases ho
    · rw [htaken, hstep]
      intro p hp
      rcases List.mem_append.1 hp with hp | hp
      · exact (h.taken p hp).next
      · rw [List.mem_singleton.1 hp]
        exact Origin.before_next _ _
    · rw [hlost, hstep]
      exact fun o ho => (h.lost o ho).next
    · rw [hlost, htaken]
      intro o ho p hp
      rcases List.mem_append.1 hp with hp | hp
      · exact h.apart o ho p hp
      · rw [List.mem_singleton.1 hp]
        exact fun heq => (h.lost o ho).ne heq.symm

/-! ## One slice -/

theorem sampleStreams_succ (gpuSort : Bool) (e : Slice) (k s : Nat) (w : WorkerThread) :
    sampleStreams gpuSort e (k + 1) s w =
      if (onLogitsSlot gpuSort ⟨w.step, s⟩ (e.exit s) (w.inject e s)).2 then
        sampleStreams gpuSort e k (s + 1)
          (onLogitsSlot gpuSort ⟨w.step, s⟩ (e.exit s) (w.inject e s)).1
      else (onLogitsSlot gpuSort ⟨w.step, s⟩ (e.exit s) (w.inject e s)).1 := rfl

theorem WorkerThread.Inv.streams (gpuSort : Bool) (e : Slice) :
    ∀ k s {w : WorkerThread}, w.Inv s →
      (∃ s', (sampleStreams gpuSort e k s w).Inv s') ∧
        (sampleStreams gpuSort e k s w).step = w.step := by
  intro k
  induction k with
  | zero => exact fun s _ h => ⟨⟨s, h⟩, rfl⟩
  | succ k ih =>
    intro s w h
    obtain ⟨h₁, hstep⟩ := @WorkerThread.Inv.call gpuSort e w s h
    rw [sampleStreams_succ]
    split
    · obtain ⟨hs', hstep'⟩ := ih (s + 1) h₁
      exact ⟨hs', hstep'.trans hstep⟩
    · exact ⟨⟨s + 1, h₁⟩, hstep⟩

/-- **A sorted slice takes only what it injects.** -/
theorem sampleStreams_sorted (gpuSort : Bool) (hg : e.gsort = true) :
    ∀ k s (w : WorkerThread), ∃ new, (sampleStreams gpuSort e k s w).taken = w.taken ++ new ∧
      ∀ p ∈ new, Matches p.1 p.2 := by
  intro k
  induction k with
  | zero => exact fun s w => ⟨[], (List.append_nil _).symm, nofun⟩
  | succ k ih =>
    intro s w
    have hcall : ∃ new, (onLogitsSlot gpuSort ⟨w.step, s⟩ (e.exit s) (w.inject e s)).1.taken =
        w.taken ++ new ∧ ∀ p ∈ new, Matches p.1 p.2 := by
      rcases onLogitsSlot_cases gpuSort ⟨w.step, s⟩ (e.exit s) (w.inject e s) with
        ⟨heq, -⟩ | ⟨heq, -, -⟩ | ⟨-, -, -, slot, -, heq⟩
      · rw [heq, (inject_fields w e s).2.1]
        exact ⟨[], (List.append_nil _).symm, nofun⟩
      · rw [heq]
        exact ⟨[], by rw [List.append_nil, ← (inject_fields w e s).2.1], nofun⟩
      · rw [heq, inject_of_gsort hg]
        refine ⟨_, rfl, fun p hp => ?_⟩
        rw [List.mem_singleton.1 hp]
        exact matches_inject _ _ _
    obtain ⟨new, hnew, hmatch⟩ := hcall
    rw [sampleStreams_succ]
    split
    · obtain ⟨new', hnew', hmatch'⟩ := ih (s + 1)
        (onLogitsSlot gpuSort ⟨w.step, s⟩ (e.exit s) (w.inject e s)).1
      refine ⟨new ++ new', by rw [hnew', hnew, List.append_assoc], fun p hp => ?_⟩
      rcases List.mem_append.1 hp with hp | hp
      · exact hmatch p hp
      · exact hmatch' p hp
    · exact ⟨new, hnew, hmatch⟩

/-- A slice without a sort takes nothing from an empty slot. -/
theorem sampleStreams_empty (hg : e.gsort = false) :
    ∀ k s (w : WorkerThread), (gpuSort = true → w.slot.idx = none) →
      (sampleStreams gpuSort e k s w).taken = w.taken := by
  intro k
  induction k with
  | zero => exact fun _ _ _ => rfl
  | succ k ih =>
    intro s w hempty
    rw [sampleStreams_succ, inject_of_not_gsort hg]
    rcases onLogitsSlot_cases gpuSort ⟨w.step, s⟩ (e.exit s) w with
      ⟨heq, -⟩ | ⟨heq, -, -⟩ | ⟨hgpu, -, hslot, -⟩
    · rw [heq]
      split
      · exact ih (s + 1) w hempty
      · rfl
    · rw [heq]
      rfl
    · exact absurd (hempty hgpu) hslot

/-- **A slice without a sort is sound exactly when it does not reach the take with the slot
full.** -/
theorem sampleStreams_unsorted (hg : e.gsort = false) {s : Nat} (h : w.Inv s) (k : Nat) :
    ∃ new, (sampleStreams gpuSort e k s w).taken = w.taken ++ new ∧
      ((∀ p ∈ new, Matches p.1 p.2) ↔
        (gpuSort = true → 0 < k → (e.exit s).reachesTake = true → w.slot.idx = none)) := by
  cases k with
  | zero =>
    refine ⟨[], (List.append_nil _).symm, fun _ _ h => ?_, fun _ => nofun⟩
    exact absurd h (Nat.lt_irrefl 0)
  | succ k =>
    rw [sampleStreams_succ, inject_of_not_gsort hg]
    rcases onLogitsSlot_cases gpuSort ⟨w.step, s⟩ (e.exit s) w with
      ⟨heq, hgo, hempty⟩ | ⟨heq, hreach, -⟩ | ⟨hgpu, hreach, hslot, slot, hnone, heq⟩
    · refine ⟨[], ?_, fun _ hgpu _ hreach => hempty hreach hgpu, fun _ => nofun⟩
      rw [heq, List.append_nil]
      split
      · rename_i hok
        exact sampleStreams_empty hg _ _ _ (hempty (hgo hok))
      · rfl
    · rw [heq]
      exact ⟨[], (List.append_nil _).symm, fun _ _ _ h => absurd h (by rw [hreach]; decide),
        fun _ => nofun⟩
    · -- the slot holds a result of an earlier call
      refine ⟨[(⟨w.step, s⟩, w.slot)], ?_, fun hall => ?_, fun hall => ?_⟩
      · rw [heq]
        split
        · exact sampleStreams_empty hg _ _ _ fun _ => hnone
        · rfl
      · have hidx := (hall _ (List.mem_singleton.2 rfl)).1
        exact absurd rfl (h.slot _ hidx).ne
      · exact absurd (hall hgpu (Nat.succ_pos k) hreach) hslot

/-- A new step. -/
theorem WorkerThread.Inv.advance {s : Nat} (h : w.Inv s) (lo : Nat) :
    ({ w with step := w.step + 1 } : WorkerThread).Inv lo := by
  have hold : ∀ {o : Origin}, o.Before w.step s → o.Before (w.step + 1) lo := fun ho =>
    .inl (ho.elim (fun h => by omega) fun h => by omega)
  exact ⟨h.parts, fun o ho => hold (h.slot o ho), fun p hp => hold (h.taken p hp),
    fun o ho => hold (h.lost o ho), h.apart⟩

theorem WorkerThread.Inv.slice {s : Nat} (h : w.Inv s) (gpuSort : Bool) (e : Slice) :
    ∃ s', (workerSlice gpuSort e w).Inv s' := by
  unfold workerSlice
  dsimp only
  split
  · exact ⟨e.lo, h.advance e.lo⟩
  · exact (WorkerThread.Inv.streams gpuSort e _ _ (h.advance e.lo)).1

/-- **What a slice takes is right exactly when the slice is drained.** -/
theorem workerSlice_taken {s : Nat} (h : w.Inv s) (gpuSort : Bool) (e : Slice) :
    ∃ new, (workerSlice gpuSort e w).taken = w.taken ++ new ∧
      ((∀ p ∈ new, Matches p.1 p.2) ↔ Drained gpuSort w e) := by
  unfold workerSlice Drained
  dsimp only
  split
  · rename_i hskip
    refine ⟨[], (List.append_nil _).symm, fun _ _ hdev => ?_, fun _ => nofun⟩
    rw [hskip.1] at hdev
    cases hdev
  · rename_i hrun
    by_cases hg : e.gsort = true
    · obtain ⟨new, hnew, hmatch⟩ := sampleStreams_sorted gpuSort hg (e.hi - e.lo) e.lo
        { w with step := w.step + 1 }
      refine ⟨new, hnew, fun _ _ _ hg' => ?_, fun _ => hmatch⟩
      rw [hg] at hg'
      cases hg'
    · have hg : e.gsort = false := eq_false_of_ne_true hg
      have hdev : e.dev = false := eq_false_of_ne_true fun hd => hrun ⟨hd, by rw [hg]; decide⟩
      obtain ⟨new, hnew, hiff⟩ := @sampleStreams_unsorted gpuSort e _ hg _ (h.advance e.lo)
        (e.hi - e.lo)
      refine ⟨new, hnew, hiff.trans ⟨fun hd hgpu _ _ hlt => ?_, fun hd hgpu hlt => ?_⟩⟩
      · exact hd hgpu (by omega)
      · exact hd hgpu hdev hg (by omega)

/-! ## Runs -/

/-- The results a run takes are right exactly when its slices are drained. -/
theorem run_taken (gpuSort : Bool) :
    ∀ (es : List Slice) {w v : WorkerThread} {s : Nat}, w.Inv s →
      (workerMachine gpuSort).exec w es = some v →
      (∃ s', v.Inv s') ∧ ∃ new, v.taken = w.taken ++ new ∧
        ((∀ p ∈ new, Matches p.1 p.2) ↔
          (workerMachine gpuSort).Guarded (Drained gpuSort) w es) := by
  intro es
  induction es with
  | nil =>
    intro w v s h hrun
    cases hrun
    exact ⟨⟨s, h⟩, [], (List.append_nil _).symm, fun _ => trivial, fun _ => nofun⟩
  | cons e es ih =>
    intro w v s h hrun
    obtain ⟨u, hu, hrest⟩ := (workerMachine gpuSort).exec_cons.1 hrun
    cases hu
    obtain ⟨s', h'⟩ := h.slice gpuSort e
    obtain ⟨new₁, hnew₁, hiff₁⟩ := workerSlice_taken h gpuSort e
    obtain ⟨hv, new₂, hnew₂, hiff₂⟩ := ih h' hrest
    refine ⟨hv, new₁ ++ new₂, by rw [hnew₂, hnew₁, List.append_assoc], ?_⟩
    rw [List.forall_mem_append, hiff₁, hiff₂]
    refine and_congr Iff.rfl ⟨fun hg t ht => ?_, fun hg => hg _ rfl⟩
    cases ht
    exact hg

/-- A call that failed before its take has taken nothing, so results that match are not lost. -/
theorem WorkerThread.Inv.sound_iff {s : Nat} (h : w.Inv s) :
    Sound w ↔ ∀ p ∈ w.taken, Matches p.1 p.2 := by
  refine ⟨Sound.matched, fun hall => ⟨hall, fun o ho p hp hidx => ?_⟩⟩
  have heq := (hall p hp).1.symm.trans hidx
  exact h.apart o ho p hp (Option.some.inj heq)

/-- **When the slot never feeds a wrong stream.**  A run of slices on one thread is sound exactly
when no slice that samples without a sort of its own reaches the take with the slot full. -/
theorem injections_match_iff (gpuSort : Bool) (es : List Slice) :
    (∀ w, (workerMachine gpuSort).exec (workerMachine gpuSort).init es = some w → Sound w) ↔
      (workerMachine gpuSort).Guarded (Drained gpuSort) (workerMachine gpuSort).init es := by
  have hinit : (workerMachine gpuSort).init.Inv 0 := ⟨nofun, nofun, nofun, nofun, nofun⟩
  have hiff : ∀ {w}, (workerMachine gpuSort).exec (workerMachine gpuSort).init es = some w →
      (Sound w ↔
        (workerMachine gpuSort).Guarded (Drained gpuSort) (workerMachine gpuSort).init es) := by
    intro w hrun
    obtain ⟨⟨s, hw⟩, new, hnew, hiff⟩ := run_taken gpuSort es hinit hrun
    rw [hw.sound_iff, hnew]
    exact hiff
  -- no slice is refused, so the run ends somewhere
  have hend : ∀ es w, ∃ v, (workerMachine gpuSort).exec w es = some v := by
    intro es
    induction es with
    | nil => exact fun w => ⟨w, rfl⟩
    | cons e es ih => exact fun w => ih (workerSlice gpuSort e w)
  obtain ⟨v, hv⟩ := hend es (workerMachine gpuSort).init
  exact ⟨fun h => (hiff hv).1 (h v hv), fun hg w hrun => (hiff hrun).2 hg⟩

/-- **A result reaches a later step**: its call finds no row, and the next slice, on host logits,
is not sorted. -/
theorem injection_leaks :
    ¬ ∀ w, (workerMachine true).exec (workerMachine true).init
      [⟨0, 1, false, true, 64, fun _ => .noRow⟩, ⟨0, 1, false, false, 64, fun _ => .token⟩] =
        some w → Sound w := by
  intro h
  have hsound := (h _ rfl).lost ⟨1, 0⟩ (by decide) (⟨2, 0⟩, injectPresorted2 ⟨1, 0⟩ 64 false)
    (by decide)
  exact hsound rfl

end Poi
