import SuprMeow.Poi.Coordinator

/-!
# Each sequence on its own

The coordinator keeps its sequences in shared tables: rows change hands, one sequence is active
at a time.  Seen from one sequence there is a row or none, parameters, a prompt and an archive,
and every operation of the coordinator is an operation on that view; the other sequences see
nothing of it.

* `Coordinator.Sound` — the invariant this rests on;
* `view_ensure`, `view_begin`, `view_record` — the operations on the view;
* `view_ensure_ne`, `view_begin_ne`, `view_record_ne`, `view_cleanup_ne` — the other views.
-/

set_option autoImplicit false

namespace Poi

/-- What the coordinator holds of one sequence. -/
structure View (P : Type) where
  row : Option Row := none
  params : Option P := none
  promptTokens : Option (List Int) := none
  archive : Option (List Int) := none

namespace View

variable {P : Type}

def ensure (v : View P) : View P := { v with row := some (v.row.getD {}) }

def register (v : View P) (p : P) : View P := { v with params := some p }

def setPrompt (v : View P) (tokens : List Int) : View P :=
  { v with promptTokens := some tokens, archive := some tokens }

/-- The step the next sample is taken at. -/
def step (v : View P) : Nat := (v.row.getD {}).steps % windowSize

def beginSample (v : View P) : View P :=
  if v.step = 0 then { v with promptTokens := some (v.archive.getD []) } else v

def record (v : View P) (token : Int) : View P :=
  { v with row := v.row.map (·.record token), archive := v.archive.map (· ++ [token]) }

end View

namespace Coordinator

open KeyedList

variable {P : Type}

/-- The coordinator as sequence `seq` sees it. -/
def view (c : Coordinator P) (seq : Nat) : View P :=
  { row := (c.getRow seq).map c.row
    params := c.params seq
    promptTokens := c.promptTokens seq
    archive := c.archive seq }

/-- The invariant of a coordinator of `n` sequences. -/
structure Sound (n : Nat) (c : Coordinator P) : Prop where
  rows : RowInv c
  held : ∀ e ∈ c.held, e.1 < n
  fits : n ≤ maxConcurrency
  ring : ∀ r, (c.row r).chosen.length = windowSize
  active : ∀ seq, c.active = some seq → (c.params seq).isSome

theorem sound_init {n : Nat} (h : n ≤ maxConcurrency) : Sound n ({} : Coordinator P) :=
  ⟨rowInv_init, nofun, h, fun _ => List.length_replicate, nofun⟩

/-! ## `ensure_sequences` -/

theorem Sound.ensure {c : Coordinator P} {n seq : Nat} (h : Sound n c) (hseq : seq < n) :
    Sound n (c.ensureSequence seq) := by
  obtain ⟨hrows, hheld⟩ := h.rows.ensureSequence h.fits hseq h.held
  cases hr : c.getRow seq with
  | some row => rw [ensureSequence_held hr]; exact h
  | none =>
    obtain ⟨row, rest, hf⟩ :=
      List.exists_cons_of_ne_nil (h.rows.free_ne_nil h.fits hseq h.held hr)
    refine ⟨hrows, hheld, h.fits, fun r => ?_, ?_⟩
    · rw [ensureSequence_new hr hf]
      dsimp only
      rw [Function.update_apply]
      split
      · exact List.length_replicate
      · exact h.ring r
    · rw [ensureSequence_new hr hf]; exact h.active

theorem Sound.view_ensure {c : Coordinator P} {n seq : Nat} (h : Sound n c) (hseq : seq < n) :
    (c.ensureSequence seq).view seq = (c.view seq).ensure := by
  cases hr : c.getRow seq with
  | some row => rw [ensureSequence_held hr]; simp [view, View.ensure, hr]
  | none =>
    obtain ⟨row, rest, hf⟩ :=
      List.exists_cons_of_ne_nil (h.rows.free_ne_nil h.fits hseq h.held hr)
    rw [ensureSequence_new hr hf]
    unfold view
    rw [getRow_append hr rfl]
    simp [View.ensure, hr]

theorem Sound.view_ensure_ne {c : Coordinator P} {n seq t : Nat} (h : Sound n c) (hseq : seq < n)
    (ht : t ≠ seq) : (c.ensureSequence seq).view t = c.view t := by
  cases hr : c.getRow seq with
  | some row => rw [ensureSequence_held hr]
  | none =>
    obtain ⟨row, rest, hf⟩ :=
      List.exists_cons_of_ne_nil (h.rows.free_ne_nil h.fits hseq h.held hr)
    rw [ensureSequence_new hr hf]
    unfold view
    rw [getRow_append hr rfl, if_neg ht]
    congr 1
    cases hrt : c.getRow t with
    | none => rfl
    | some row' =>
      -- The new row was free, so it is not the one `t` holds.
      have hne : row' ≠ row := by
        rintro rfl
        have hnd := h.rows.rows.nodup_iff.2 List.nodup_range
        rw [hf, List.cons_append, List.nodup_cons] at hnd
        exact hnd.1 (List.mem_append_right _ (List.mem_map_of_mem (getRow_mem hrt)))
      simp [Function.update_of_ne hne]

/-! ## Parameters and prompts -/

section

variable [DecidableEq P]

theorem Sound.register {c : Coordinator P} {n : Nat} (h : Sound n c) (seq : Nat) (p : P) :
    Sound n (c.updatePowParamsForSequence seq p) := by
  refine ⟨h.rows.congr (by simp) (by simp), by simpa using h.held, h.fits, by simpa using h.ring,
    fun t ht => ?_⟩
  rw [updateForSequence_active] at ht
  rw [updateForSequence_params, Function.update_apply]
  split
  · rfl
  · exact h.active t ht

theorem view_register (c : Coordinator P) (seq : Nat) (p : P) :
    (c.updatePowParamsForSequence seq p).view seq = (c.view seq).register p := by
  simp [view, View.register, updateForSequence_params]

theorem view_register_ne (c : Coordinator P) {seq t : Nat} (p : P) (ht : t ≠ seq) :
    (c.updatePowParamsForSequence seq p).view t = c.view t := by
  simp [view, updateForSequence_params, Function.update_of_ne ht]

end

theorem Sound.setPrompt {c : Coordinator P} {n : Nat} (h : Sound n c) (seq : Nat)
    (l : List Int) : Sound n (c.setPromptTokens seq l) :=
  ⟨h.rows.congr rfl rfl, h.held, h.fits, h.ring, h.active⟩

theorem view_setPrompt (c : Coordinator P) (seq : Nat) (l : List Int) :
    (c.setPromptTokens seq l).view seq = (c.view seq).setPrompt l := by
  simp [view, View.setPrompt, setPromptTokens, getRow]

theorem view_setPrompt_ne (c : Coordinator P) {seq t : Nat} (l : List Int) (ht : t ≠ seq) :
    (c.setPromptTokens seq l).view t = c.view t := by
  simp [view, setPromptTokens, getRow, Function.update_of_ne ht]

/-! ## Sampling -/

theorem Sound.activate {c c' : Coordinator P} {n seq : Nat} (h : Sound n c)
    (ha : c.activateSequenceParams seq = some c') :
    Sound n c' ∧ (∀ t, c'.view t = c.view t) ∧ (c.params seq).isSome := by
  have hp : (c.params seq).isSome := by
    unfold activateSequenceParams at ha
    split at ha
    · rename_i hact; exact h.active seq hact
    · obtain ⟨p, hp, -⟩ := Option.map_eq_some_iff.1 ha
      rw [hp]; rfl
  have hc := activate_cases ha
  rw [hc]
  refine ⟨⟨h.rows.congr rfl rfl, h.held, h.fits, h.ring, fun t ht => ?_⟩, fun t => rfl, hp⟩
  obtain rfl : seq = t := by simpa using ht
  exact hp

theorem Sound.activate_isSome {c : Coordinator P} {seq : Nat} {p : P}
    (hp : c.params seq = some p) : ∃ c', c.activateSequenceParams seq = some c' := by
  unfold activateSequenceParams
  rw [hp]
  split
  · exact ⟨_, rfl⟩
  · exact ⟨_, rfl⟩

theorem Sound.begin {c : Coordinator P} {n : Nat} (h : Sound n c) (seq : Nat) :
    Sound n (c.beginSample seq).1 := by
  unfold beginSample
  cases ha : c.activateSequenceParams seq with
  | none => exact h
  | some c₁ =>
    obtain ⟨h₁, -, -⟩ := h.activate ha
    dsimp only
    split
    · exact h₁
    · split
      · exact ⟨h₁.rows.congr rfl rfl, h₁.held, h₁.fits, h₁.ring, h₁.active⟩
      · exact h₁

theorem Sound.view_begin_ne {c : Coordinator P} {n seq t : Nat} (h : Sound n c) (ht : t ≠ seq) :
    (c.beginSample seq).1.view t = c.view t := by
  unfold beginSample
  cases ha : c.activateSequenceParams seq with
  | none => rfl
  | some c₁ =>
    obtain ⟨-, hv, -⟩ := h.activate ha
    rw [← hv t]
    dsimp only
    split
    · rfl
    · split
      · simp [view, getRow, Function.update_of_ne ht]
      · rfl

/-- A sequence with a row and parameters samples at its own step. -/
theorem Sound.view_begin {c : Coordinator P} {n seq : Nat} (h : Sound n c)
    (hrow : (c.view seq).row.isSome) (hp : (c.view seq).params.isSome) :
    (c.beginSample seq).2 = some (c.view seq).step ∧
      (c.beginSample seq).1.view seq = (c.view seq).beginSample := by
  obtain ⟨p, hp⟩ := Option.isSome_iff_exists.1 hp
  obtain ⟨c₁, ha⟩ := Sound.activate_isSome hp
  obtain ⟨-, hv, -⟩ := h.activate ha
  rw [← hv seq] at hrow ⊢
  obtain ⟨row, hr⟩ : ∃ row, c₁.getRow seq = some row := by
    cases hr : c₁.getRow seq with
    | none => simp [view, hr] at hrow
    | some row => exact ⟨row, rfl⟩
  have hstep : (c₁.view seq).step = (c₁.row row).steps % windowSize := by
    simp [view, View.step, hr]
  unfold beginSample
  rw [ha]
  dsimp only
  rw [hr]
  dsimp only
  unfold View.beginSample
  rw [hstep]
  split
  · refine ⟨rfl, ?_⟩
    simp [view, getRow]
  · exact ⟨rfl, rfl⟩

theorem Sound.record {c : Coordinator P} {n : Nat} (h : Sound n c) (seq : Nat) (token : Int) :
    Sound n (c.recordCompleteStep seq token) := by
  unfold recordCompleteStep
  split
  · exact h
  · rename_i row hr
    refine ⟨h.rows.congr rfl rfl, h.held, h.fits, fun r => ?_, h.active⟩
    dsimp only
    rw [Function.update_apply]
    split
    · simp only [Row.record, List.length_set]; exact h.ring row
    · exact h.ring r

theorem Sound.view_record {c : Coordinator P} {n : Nat} (_ : Sound n c) {seq : Nat} {token : Int}
    (hrow : (c.view seq).row.isSome) :
    (c.recordCompleteStep seq token).view seq = (c.view seq).record token := by
  cases hr : c.getRow seq with
  | none => simp [view, hr] at hrow
  | some row =>
    have hr' : ∀ (f : Nat → Row) a, Coordinator.getRow { c with row := f, archive := a } seq =
        some row := fun _ _ => hr
    unfold recordCompleteStep
    rw [hr]
    cases ha : c.archive seq with
    | none => simp [view, View.record, hr, hr', ha]
    | some a => simp [view, View.record, hr, hr', ha]

theorem Sound.view_record_ne {c : Coordinator P} {n : Nat} (h : Sound n c) {seq t : Nat}
    {token : Int} (ht : t ≠ seq) :
    (c.recordCompleteStep seq token).view t = c.view t := by
  unfold recordCompleteStep
  split
  · rfl
  · rename_i row hr
    have hr' : ∀ (f : Nat → Row) a, Coordinator.getRow { c with row := f, archive := a } t =
        c.getRow t := fun _ _ => rfl
    unfold view
    rw [hr']
    congr 1
    · cases hrt : c.getRow t with
      | none => rfl
      | some row' =>
        have hne : row' ≠ row := fun he => ht (h.rows.row_inj (he ▸ hrt) hr)
        simp [Function.update_of_ne hne]
    · cases c.archive seq with
      | none => rfl
      | some a => exact Function.update_of_ne ht _ _

/-! ## Retiring -/

theorem cleanup_row (c : Coordinator P) (seq : Nat) :
    (c.cleanupSequence seq).row =
      ((c.getRow seq).map fun row => Function.update c.row row {}).getD c.row := by
  unfold cleanupSequence
  cases hr : c.getRow seq with
  | none => rfl
  | some row =>
    have hr' : ∀ p a ar, Coordinator.getRow { c with params := p, active := a, archive := ar } seq =
        some row := fun _ _ _ => hr
    simp only [freeRow, hr', clearRow, Option.map_some, Option.getD_some]

theorem cleanup_maps (c : Coordinator P) (seq : Nat) :
    (c.cleanupSequence seq).params = Function.update c.params seq none ∧
    (c.cleanupSequence seq).archive = Function.update c.archive seq none ∧
    (c.cleanupSequence seq).active = (if c.active = some seq then none else c.active) ∧
    (c.cleanupSequence seq).promptTokens =
      if (c.getRow seq).isSome then Function.update c.promptTokens seq none
      else c.promptTokens := by
  unfold cleanupSequence
  cases hr : c.getRow seq with
  | none => simp
  | some row =>
    have hr' : ∀ p a ar, Coordinator.getRow { c with params := p, active := a, archive := ar } seq =
        some row := fun _ _ _ => hr
    simp only [freeRow, hr', clearRow, Option.isSome_some, if_true, and_self]

theorem Sound.cleanup {c : Coordinator P} {n : Nat} (h : Sound n c) (seq : Nat) :
    Sound n (c.cleanupSequence seq) := by
  obtain ⟨hp, -, ha, -⟩ := cleanup_maps c seq
  refine ⟨h.rows.cleanupSequence seq, fun e he => ?_, h.fits, fun r => ?_, fun t ht => ?_⟩
  · rw [(cleanupSequence_rows c seq).1] at he
    exact h.held e (List.mem_of_mem_eraseP he)
  · rw [cleanup_row]
    cases c.getRow seq with
    | none => exact h.ring r
    | some row =>
      simp only [Option.map_some, Option.getD_some, Function.update_apply]
      split
      · exact List.length_replicate
      · exact h.ring r
  · rw [ha] at ht
    split at ht
    · cases ht
    · rename_i hne
      rw [hp, Function.update_of_ne (by rintro rfl; exact hne ht)]
      exact h.active t ht

theorem Sound.view_cleanup_ne {c : Coordinator P} {n : Nat} (h : Sound n c) {seq t : Nat}
    (ht : t ≠ seq) : (c.cleanupSequence seq).view t = c.view t := by
  obtain ⟨hp, har, -, hpt⟩ := cleanup_maps c seq
  unfold view
  rw [getRow_cleanup_ne ht, hp, har, hpt, Function.update_of_ne ht, Function.update_of_ne ht,
    cleanup_row]
  congr 1
  · cases hrt : c.getRow t with
    | none => rfl
    | some row' =>
      cases hr : c.getRow seq with
      | none => rfl
      | some row =>
        have hne : row' ≠ row := fun he => ht (h.rows.row_inj (he ▸ hrt) hr)
        simp [Function.update_of_ne hne]
  · split
    · rw [Function.update_of_ne ht]
    · rfl

/-! ## Checking -/

theorem Sound.check {c : Coordinator P} {n : Nat} (h : Sound n c) (seq : Nat) (cooling : Bool) :
    Sound n (c.checkSolutions seq cooling).1 ∧
      ∀ t, (c.checkSolutions seq cooling).1.view t = c.view t := by
  unfold checkSolutions
  split
  · exact ⟨h, fun _ => rfl⟩
  · split
    · exact ⟨h, fun _ => rfl⟩
    · rename_i c₁ ha
      obtain ⟨h₁, hv, -⟩ := h.activate ha
      split
      · dsimp only
        split <;> exact ⟨h₁, hv⟩
      · exact ⟨h₁, hv⟩

/-- At a window boundary, and outside a cooldown, the ring is examined. -/
theorem Sound.check_boundary {c : Coordinator P} {n seq : Nat} (h : Sound n c) {r : Row}
    (hrow : (c.view seq).row = some r) (hp : (c.view seq).params.isSome)
    (hpos : r.steps ≠ 0) (hmod : r.steps % windowSize = 0) :
    (c.checkSolutions seq false).2 = some r.window := by
  obtain ⟨p, hp⟩ := Option.isSome_iff_exists.1 hp
  obtain ⟨c₁, ha⟩ := Sound.activate_isSome hp
  obtain ⟨-, hv, -⟩ := h.activate ha
  rw [← hv seq] at hrow hp
  obtain ⟨row, hr, hrr⟩ := Option.map_eq_some_iff.1 hrow
  have hp' : c₁.params seq = some p := hp
  unfold checkSolutions
  simp only [Bool.false_eq_true, if_false, ha, hp', hr, hrr, hpos, hmod, ne_eq, not_true_eq_false,
    or_self]

end Coordinator

end Poi
