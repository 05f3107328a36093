import Mathlib.Algebra.Order.Ring.Int
import Mathlib.Logic.Function.Basic
import SuprMeow.Library.KeyedList

/-!
# The sampling coordinator

`PowSamplingCoordinator` as far as a window of sampled tokens needs it: the rows the
`RowManager` hands out, the ring buffer of chosen tokens, the parameters registered for each
sequence, the prompt recorded with it and the archive of prompt and generated tokens.  The
sampler's arithmetic is not here; which token it draws is the caller's argument.

* `RowInv` — every row is either free or held by exactly one sequence;
* `RowInv.ensureSequence` — with fewer sequences than rows `ensure_sequences` never evicts.
-/

set_option autoImplicit false

namespace Poi

/-- `window_size` and `max_concurrency`. -/
def windowSize : Nat := 256

def maxConcurrency : Nat := 1024

/-- One row of `RingBuffers`: tokens written since it was cleared, and where they stand. -/
structure Row where
  steps : Nat := 0
  chosen : List Int := List.replicate windowSize 0

/-- `RingBuffers::get_window`: the ring from the next position to be written. -/
def Row.window (r : Row) : List Int :=
  (List.range windowSize).map fun i => r.chosen.getD ((i + r.steps % windowSize) % windowSize) 0

/-- One recorded step. -/
def Row.record (r : Row) (token : Int) : Row :=
  { chosen := r.chosen.set (r.steps % windowSize) token, steps := r.steps + 1 }

/-- `held` is `seqid_to_row`, oldest allocation first; `P` are the registered parameters. -/
structure Coordinator (P : Type) where
  freeRows : List Nat := List.range maxConcurrency
  held : List (Nat × Nat) := []
  row : Nat → Row := fun _ => {}
  params : Nat → Option P := fun _ => none
  active : Option Nat := none
  /-- The parameters the hasher holds. -/
  current : Option P := none
  promptTokens : Nat → Option (List Int) := fun _ => none
  archive : Nat → Option (List Int) := fun _ => none

namespace Coordinator

open KeyedList

variable {P : Type}

/-- `RowManager::get_row`. -/
def getRow (c : Coordinator P) (seq : Nat) : Option Nat := (c.held.find? (·.1 == seq)).map (·.2)

/-- `RowManager::allocate_row`. -/
def allocateRow (c : Coordinator P) (seq : Nat) : Option (Coordinator P × Nat) :=
  match c.getRow seq with
  | some row => some (c, row)
  | none =>
    match c.freeRows with
    | [] => none
    | row :: rest => some ({ c with freeRows := rest, held := c.held ++ [(seq, row)] }, row)

/-- `RowManager::free_row`. -/
def freeRow (c : Coordinator P) (seq : Nat) : Coordinator P :=
  match c.getRow seq with
  | some row =>
    { c with freeRows := c.freeRows ++ [row], held := c.held.eraseP (·.1 == seq) }
  | none => c

/-- `RowManager::get_oldest_sequence`: the most steps, the earliest allocation among equals. -/
def oldestSequence (c : Coordinator P) : Option Nat :=
  (c.held.foldl (fun best e =>
    match best with
    | none => some e
    | some b => if (c.row b.2).steps < (c.row e.2).steps then some e else some b) none).map (·.1)

/-- `RingBuffers::clear_row`. -/
def clearRow (c : Coordinator P) (row : Nat) : Coordinator P :=
  { c with row := Function.update c.row row {} }

/-- `cleanup_sequence`. -/
def cleanupSequence (c : Coordinator P) (seq : Nat) : Coordinator P :=
  let c₁ :=
    { c with
      params := Function.update c.params seq none
      active := if c.active = some seq then none else c.active
      archive := Function.update c.archive seq none }
  match c.getRow seq with
  | some row =>
    { (c₁.freeRow seq).clearRow row with
      promptTokens := Function.update c.promptTokens seq none }
  | none => c₁

/-- `ensure_sequences` on one sequence. -/
def ensureSequence (c : Coordinator P) (seq : Nat) : Coordinator P :=
  match c.getRow seq with
  | some _ => c
  | none =>
    match c.allocateRow seq with
    | some (c', row) => c'.clearRow row
    | none =>
      -- No free row: evict the oldest sequence and try again.
      match c.oldestSequence with
      | none => c
      | some old =>
        match (c.cleanupSequence old).allocateRow seq with
        | some (c', row) => c'.clearRow row
        | none => c.cleanupSequence old

/-- `apply_pow_params`. -/
def applyPowParams (c : Coordinator P) (p : P) : Coordinator P := { c with current := some p }

/-- `update_pow_params`. -/
def updatePowParams (c : Coordinator P) (p : P) : Coordinator P :=
  { c.applyPowParams p with active := none }

/-- `update_pow_params_for_sequence`. -/
def updatePowParamsForSequence [DecidableEq P] (c : Coordinator P) (seq : Nat) (p : P) :
    Coordinator P :=
  if c.params seq = some p then c
  else
    let c₁ := { c with params := Function.update c.params seq (some p) }
    if c.active = some seq then c₁.applyPowParams p else c₁

/-- `set_prompt_tokens`: the proof's prompt and the archive. -/
def setPromptTokens (c : Coordinator P) (seq : Nat) (tokens : List Int) : Coordinator P :=
  { c with
    promptTokens := Function.update c.promptTokens seq (some tokens)
    archive := Function.update c.archive seq (some tokens) }

/-- `activate_sequence_params`; `none` when the sequence has no parameters. -/
def activateSequenceParams (c : Coordinator P) (seq : Nat) : Option (Coordinator P) :=
  if c.active = some seq then some c
  else (c.params seq).map fun p => { c.applyPowParams p with active := some seq }

/-- `sample_token_complete` up to the draw: the step it samples at, or `none` for an exception. -/
def beginSample (c : Coordinator P) (seq : Nat) : Coordinator P × Option Nat :=
  match c.activateSequenceParams seq with
  | none => (c, none)
  | some c₁ =>
    match c₁.getRow seq with
    | none => (c₁, none)
    | some row =>
      let step := (c₁.row row).steps % windowSize
      -- At step 0 `prepare_window_admission_` makes the archive the proof's prompt.
      if step = 0 then
        ({ c₁ with
          promptTokens := Function.update c₁.promptTokens seq
            (some ((c₁.archive seq).getD [])) }, some step)
      else (c₁, some step)

/-- `record_complete_step`. -/
def recordCompleteStep (c : Coordinator P) (seq : Nat) (token : Int) : Coordinator P :=
  match c.getRow seq with
  | none => c
  | some row =>
    { c with
      row := Function.update c.row row ((c.row row).record token)
      archive := match c.archive seq with
        | some a => Function.update c.archive seq (some (a ++ [token]))
        | none => c.archive }

/-- `check_solutions` on one sequence: the window it examines, if any.  `cooling` is
`cooldown_duration_ms_ > 0 && is_cooldown_active()`. -/
def checkSolutions (c : Coordinator P) (seq : Nat) (cooling : Bool) :
    Coordinator P × Option (List Int) :=
  if cooling then (c, none)
  else
    match c.activateSequenceParams seq with
    | none => (c, none)
    | some c₁ =>
      match c₁.params seq, c₁.getRow seq with
      | some _, some row =>
        let r := c₁.row row
        if r.steps = 0 ∨ r.steps % windowSize ≠ 0 then (c₁, none) else (c₁, some r.window)
      | _, _ => (c₁, none)

/-! ## Small lemmas -/

@[simp] theorem params_clearRow (c : Coordinator P) (row : Nat) :
    (c.clearRow row).params = c.params := rfl

section

variable [DecidableEq P]

@[simp] theorem updateForSequence_held (c : Coordinator P) (seq : Nat) (p : P) :
    (c.updatePowParamsForSequence seq p).held = c.held := by
  unfold updatePowParamsForSequence
  split <;> [rfl; (dsimp only; split <;> rfl)]

@[simp] theorem updateForSequence_freeRows (c : Coordinator P) (seq : Nat) (p : P) :
    (c.updatePowParamsForSequence seq p).freeRows = c.freeRows := by
  unfold updatePowParamsForSequence
  split <;> [rfl; (dsimp only; split <;> rfl)]

@[simp] theorem updateForSequence_row (c : Coordinator P) (seq : Nat) (p : P) :
    (c.updatePowParamsForSequence seq p).row = c.row := by
  unfold updatePowParamsForSequence
  split <;> [rfl; (dsimp only; split <;> rfl)]

@[simp] theorem updateForSequence_archive (c : Coordinator P) (seq : Nat) (p : P) :
    (c.updatePowParamsForSequence seq p).archive = c.archive := by
  unfold updatePowParamsForSequence
  split <;> [rfl; (dsimp only; split <;> rfl)]

@[simp] theorem updateForSequence_promptTokens (c : Coordinator P) (seq : Nat) (p : P) :
    (c.updatePowParamsForSequence seq p).promptTokens = c.promptTokens := by
  unfold updatePowParamsForSequence
  split <;> [rfl; (dsimp only; split <;> rfl)]

@[simp] theorem updateForSequence_active (c : Coordinator P) (seq : Nat) (p : P) :
    (c.updatePowParamsForSequence seq p).active = c.active := by
  unfold updatePowParamsForSequence
  split <;> [rfl; (dsimp only; split <;> rfl)]

/-- Whether or not the early return is taken, the sequence has the parameters afterwards. -/
theorem updateForSequence_params (c : Coordinator P) (seq : Nat) (p : P) :
    (c.updatePowParamsForSequence seq p).params = Function.update c.params seq (some p) := by
  unfold updatePowParamsForSequence
  split
  · rename_i h
    rw [← h, Function.update_eq_self]
  · dsimp only
    split <;> rfl

@[simp] theorem getRow_updateForSequence (c : Coordinator P) (seq : Nat) (p : P) (t : Nat) :
    (c.updatePowParamsForSequence seq p).getRow t = c.getRow t := by
  unfold getRow
  rw [updateForSequence_held]

end

/-- Activation changes the hasher's parameters and nothing else. -/
theorem activate_cases {c c' : Coordinator P} {seq : Nat}
    (h : c.activateSequenceParams seq = some c') :
    c' = { c with active := some seq, current := c'.current } := by
  unfold activateSequenceParams at h
  split at h
  · rename_i ha
    cases h
    rw [← ha]
  · obtain ⟨p, -, rfl⟩ := Option.map_eq_some_iff.1 h
    rfl

/-! ## Rows -/

/-- Every row is free or held, once; a sequence holds at most one. -/
structure RowInv (c : Coordinator P) : Prop where
  rows : (c.freeRows ++ c.held.map (·.2)).Perm (List.range maxConcurrency)
  seqs : (c.held.map (·.1)).Nodup

theorem rowInv_init : RowInv ({} : Coordinator P) :=
  ⟨by simp, .nil⟩

theorem RowInv.congr {c c' : Coordinator P} (h : RowInv c) (hf : c'.freeRows = c.freeRows)
    (hh : c'.held = c.held) : RowInv c' :=
  ⟨by rw [hf, hh]; exact h.rows, by rw [hh]; exact h.seqs⟩

theorem getRow_mem {c : Coordinator P} {seq row : Nat} (h : c.getRow seq = some row) :
    (seq, row) ∈ c.held := by
  unfold getRow at h
  obtain ⟨e, he, rfl⟩ := Option.map_eq_some_iff.1 h
  have hs : e.1 = seq := by simpa using List.find?_some he
  exact hs ▸ List.mem_of_find?_eq_some he

theorem getRow_none {c : Coordinator P} {seq : Nat} (h : c.getRow seq = none) :
    seq ∉ c.held.map (·.1) := by
  unfold getRow at h
  rw [Option.map_eq_none_iff, List.find?_eq_none] at h
  intro hm
  obtain ⟨e, he, rfl⟩ := List.mem_map.1 hm
  exact h e he (by simp)

/-- Two sequences never share a row. -/
theorem RowInv.row_inj {c : Coordinator P} (h : RowInv c) {s t row : Nat}
    (hs : c.getRow s = some row) (ht : c.getRow t = some row) : s = t := by
  have hnd : (c.held.map (·.2)).Nodup :=
    (List.nodup_append.1 (h.rows.nodup_iff.2 List.nodup_range)).2.1
  exact (Prod.mk.inj (List.inj_on_of_nodup_map hnd (getRow_mem hs) (getRow_mem ht) rfl)).1

/-- Sequences below `n ≤ maxConcurrency` leave a row for one more of them. -/
theorem RowInv.free_ne_nil {c : Coordinator P} (h : RowInv c) {n seq : Nat}
    (hn : n ≤ maxConcurrency) (hseq : seq < n) (hheld : ∀ e ∈ c.held, e.1 < n)
    (hr : c.getRow seq = none) : c.freeRows ≠ [] := by
  intro hf
  have hlen := h.rows.length_eq
  rw [hf, List.nil_append, List.length_map, List.length_range] at hlen
  have hnd : (seq :: c.held.map (·.1)).Nodup := List.nodup_cons.2 ⟨getRow_none hr, h.seqs⟩
  have hsub : (seq :: c.held.map (·.1)) ⊆ List.range n := by
    intro x hx
    rw [List.mem_range]
    rcases List.mem_cons.1 hx with rfl | hx
    · exact hseq
    · obtain ⟨e, he, rfl⟩ := List.mem_map.1 hx
      exact hheld e he
  have hle := (List.subperm_of_subset hnd hsub).length_le
  rw [List.length_cons, List.length_map, List.length_range] at hle
  omega

/-! ## Allocating and freeing -/

/-- A new sequence takes the first free row, cleared. -/
theorem ensureSequence_new {c : Coordinator P} {seq row : Nat} {rest : List Nat}
    (hr : c.getRow seq = none) (hf : c.freeRows = row :: rest) :
    c.ensureSequence seq =
      { c with
        freeRows := rest
        held := c.held ++ [(seq, row)]
        row := Function.update c.row row {} } := by
  unfold ensureSequence allocateRow
  rw [hr, hf]
  rfl

theorem ensureSequence_held {c : Coordinator P} {seq row : Nat} (hr : c.getRow seq = some row) :
    c.ensureSequence seq = c := by
  unfold ensureSequence
  rw [hr]

theorem getRow_append {c c' : Coordinator P} {seq row : Nat} (hr : c.getRow seq = none)
    (hh : c'.held = c.held ++ [(seq, row)]) (t : Nat) :
    c'.getRow t = if t = seq then some row else c.getRow t := by
  unfold getRow at hr ⊢
  rw [hh, List.find?_append]
  split
  · rename_i ht
    subst ht
    rw [Option.map_eq_none_iff] at hr
    simp [hr]
  · rename_i ht
    have hne : (seq == t) = false := by simpa using fun h => ht h.symm
    cases c.held.find? (·.1 == t) <;> simp [hne]

theorem RowInv.ensureSequence {c : Coordinator P} (h : RowInv c) {n seq : Nat}
    (hn : n ≤ maxConcurrency) (hseq : seq < n) (hheld : ∀ e ∈ c.held, e.1 < n) :
    RowInv (c.ensureSequence seq) ∧ ∀ e ∈ (c.ensureSequence seq).held, e.1 < n := by
  cases hr : c.getRow seq with
  | some row =>
    rw [ensureSequence_held hr]
    exact ⟨h, hheld⟩
  | none =>
    obtain ⟨row, rest, hf⟩ := List.exists_cons_of_ne_nil (h.free_ne_nil hn hseq hheld hr)
    rw [ensureSequence_new hr hf]
    refine ⟨⟨?_, ?_⟩, fun e he => ?_⟩
    · have := h.rows
      rw [hf] at this
      refine List.Perm.trans ?_ this
      simp only [List.map_append, List.map_cons, List.map_nil, ← List.append_assoc]
      exact List.perm_append_singleton row _
    · simp only [List.map_append, List.map_cons, List.map_nil, List.nodup_append]
      refine ⟨h.seqs, by simp, fun a ha b hb hab => getRow_none hr ?_⟩
      obtain rfl : b = seq := by simpa using hb
      exact hab ▸ ha
    · rcases List.mem_append.1 he with he | he
      · exact hheld e he
      · obtain rfl := List.mem_singleton.1 he
        exact hseq

/-- What `cleanup_sequence` leaves of the rows. -/
theorem cleanupSequence_rows (c : Coordinator P) (seq : Nat) :
    (c.cleanupSequence seq).held = c.held.eraseP (·.1 == seq) ∧
    (c.cleanupSequence seq).freeRows =
      c.freeRows ++ ((c.getRow seq).map fun row => [row]).getD [] := by
  unfold cleanupSequence
  cases hr : c.getRow seq with
  | some row =>
    have hr' : ∀ p a ar, Coordinator.getRow { c with params := p, active := a, archive := ar } seq =
        some row := fun _ _ _ => hr
    simp only [freeRow, hr', clearRow, Option.map_some, Option.getD_some, and_self]
  | none =>
    have hnone := hr
    unfold getRow at hnone
    rw [Option.map_eq_none_iff, List.find?_eq_none] at hnone
    refine ⟨(List.eraseP_of_forall_not ?_).symm, by simp⟩
    simpa using hnone

theorem getRow_cleanup_ne {c : Coordinator P} {seq t : Nat} (ht : t ≠ seq) :
    (c.cleanupSequence seq).getRow t = c.getRow t := by
  unfold getRow
  rw [(cleanupSequence_rows c seq).1, find?_eraseP_ne ht]

theorem RowInv.cleanupSequence {c : Coordinator P} (h : RowInv c) (seq : Nat) :
    RowInv (c.cleanupSequence seq) := by
  obtain ⟨hh, hf⟩ := cleanupSequence_rows c seq
  refine ⟨?_, ?_⟩
  · rw [hh, hf]
    refine List.Perm.trans ?_ h.rows
    rw [List.append_assoc]
    refine List.Perm.append_left _ ?_
    cases hr : c.getRow seq with
    | none =>
      have hnone := hr
      unfold getRow at hnone
      rw [Option.map_eq_none_iff, List.find?_eq_none] at hnone
      rw [List.eraseP_of_forall_not (by simpa using hnone)]
      exact List.Perm.refl _
    | some row =>
      obtain ⟨e, he, hrow⟩ := Option.map_eq_some_iff.1 hr
      subst hrow
      exact ((perm_cons_eraseP he).map (·.2)).symm
  · rw [hh]
    exact (List.eraseP_sublist.map _).nodup h.seqs

end Coordinator

end Poi
