import SuprMeow.Engine.Double
import SuprMeow.Library.Runs

/-!
# The host copy of the logits

In device mode llama skips the host copy of the logits.  The prompt pass of the next call reads
that copy, so every way out of a call has to switch it on again.  One does not: the sampler that
returns true with a negative token.

* `EngineCall.Strands` — a call that leaves there in device mode;
* `host_copies_iff` — over any calls on an instance, the copy is on after each of them exactly
  when none of them strands it;
* `host_copy_stranded` — one that does.
-/

set_option autoImplicit false

namespace Engine

open Runs

variable {V σ τ : Type} {S : Nat}

/-! ## Calls on one instance -/

/-- What an instance keeps between two calls. -/
structure Instance (V : Type) where
  ctx : LlamaContext V
  ctxB : LlamaContext V
  hasCtxB : Bool := false
  usedStepwise : Bool := false
  dbufRows : Nat := 0

/-- Either entry point, with what llama, CUDA and the samplers do during the call. -/
inductive EngineCall (V : Type) : Type 1
  | stepwise {S : Nat} {σ : Type} (ans : Answers) (step : Sampler V σ S) (st : σ)
      (toks : Fin S → List Int)
  | double {S : Nat} {σ τ : Type} (ansA ansB : Answers) (stepA : Sampler V σ S)
      (stepB : Sampler V τ S) (stA : σ) (stB : τ) (toksA toksB : Fin S → List Int)

/-- The state a call leaves, however it ends. -/
def leftBy {W : Type} : Except (Failure W) (Nat × W) → W
  | .ok (_, w) => w
  | .error e => e.left

section Call

variable [Inhabited V] [DecidableEq V] [LogitRow V] (cfg : EngineConfig) (model : History → V)

/-- The lane of a context when a call begins. -/
def Instance.lane (inst : Instance V) (ctx : LlamaContext V) (S : Nat) (st : σ) : Lane V σ S :=
  { ctx, sampler := st, dbuf := fun _ => default, usedStepwise := inst.usedStepwise }

def Instance.duo (inst : Instance V) (S : Nat) (stA : σ) (stB : τ) : Duo V σ τ S :=
  { a := inst.lane inst.ctx S stA
    b := inst.lane inst.ctxB S stB
    hasCtxB := inst.hasCtxB
    dbufRows := inst.dbufRows }

/-- The instance after a call. -/
def Instance.call (inst : Instance V) : EngineCall V → Instance V
  | .stepwise ans step st toks =>
    let l := leftBy (generateWindowsStepwiseTok cfg model ans step toks (inst.lane inst.ctx _ st))
    { inst with ctx := l.ctx, usedStepwise := l.usedStepwise }
  | .double ansA ansB stepA stepB stA stB toksA toksB =>
    let d := leftBy (generateWindowsDoubleTok cfg model ansA ansB stepA stepB toksA toksB
      (inst.duo _ stA stB))
    { inst with ctx := d.a.ctx, ctxB := d.b.ctx, dbufRows := d.dbufRows }

/-- An instance and the calls made on it. -/
def calls (inst : Instance V) : Machine (Instance V) (EngineCall V) where
  init := inst
  step inst c := some (inst.call cfg model c)

/-! ## Specification -/

omit [Inhabited V] [DecidableEq V] [LogitRow V] in
/-- Both contexts copy their logits to the host. -/
def Instance.CopiesHost (inst : Instance V) : Prop :=
  inst.ctx.skipLogitsCopy = false ∧ inst.ctxB.skipLogitsCopy = false

/-- **The host copy is on whenever a call has returned.** -/
def HostCopiesRestored (inst : Instance V) (cs : List (EngineCall V)) : Prop :=
  ∀ pre t, pre <+: cs → (calls cfg model inst).exec inst pre = some t → t.CopiesHost

omit [Inhabited V] [LogitRow V] in
/-- At this step the sampler is called in device mode, with no comparison to keep the host copy,
and returns true with a negative token. -/
def Stepwise.Strands (ans : Answers) (sampler : Sampler V σ S) (promptLogits : Option (Nat → V))
    (i : Nat) (s : Stepwise V σ S) : Prop :=
  ∃ rows u, readLogits cfg ans promptLogits i s = .ok (rows, u) ∧
    u.devMode = true ∧ cfg.compareDevice = false ∧
    ∃ out st, sampler u.lane.sampler ⟨u.ctxv, rows⟩ = (some out, st) ∧ ∃ t, out t < 0

/-- A single-batch call one of whose steps strands the copy. -/
def EngineCall.Strands (inst : Instance V) : EngineCall V → Prop
  | .stepwise ans step st toks =>
    ∃ h : Admitted cfg toks, ∃ promptLogits s₀,
      enterStepwise cfg model ans toks h.count.1 (inst.lane inst.ctx _ st).start
        = .ok (promptLogits, s₀) ∧
      ∃ i < cfg.windowTokens, ∃ s,
        Fallible.loop (Stepwise.step cfg model ans step toks promptLogits) i s₀ = .ok s ∧
          Stepwise.Strands cfg ans step promptLogits i s
  | .double .. => False

end Call

/-! ## Up to the loop -/

/-- The context of a lane copies its logits to the host. -/
def Lane.CopiesHost (l : Lane V σ S) : Prop := l.ctx.skipLogitsCopy = false

/-- A computation on lanes that keeps the host copy on, whether or not it succeeds. -/
abbrev KeepsCopy {α : Type} (x : Except (Failure (Lane V σ S)) α) (lane : α → Lane V σ S) : Prop :=
  Fallible.Ends x (fun a => (lane a).CopiesHost) fun e => e.left.CopiesHost

section Prompt

variable {cfg : EngineConfig} {model : History → V} {ans : Answers} {toks : Fin S → List Int}
  {l : Lane V σ S}

theorem decode_copies (error : String) (batch : List BatchRow) (h : l.CopiesHost) :
    KeepsCopy (l.decode model ans error batch) id := by
  unfold Lane.decode
  split
  · exact h
  · exact h

theorem feedShared_copies (cap : Nat) (rows pb : List BatchRow) (h : l.CopiesHost) :
    KeepsCopy (feedShared model ans cap rows pb l) id := by
  induction rows generalizing pb l with
  | nil => exact h
  | cons r rest ih =>
    unfold feedShared
    split
    · apply Fallible.Ends.seq (decode_copies _ _ h)
      intro l' hl'
      exact ih [] hl'
    · exact ih (pb ++ [r]) h

theorem flush_copies {p : Prefill V σ S} (h : p.lane.CopiesHost) :
    KeepsCopy (flush model ans p) Prefill.lane := by
  unfold flush
  split
  · exact h
  · apply Fallible.Ends.seq (decode_copies _ _ h)
    intro l' hl'
    split
    · exact hl'
    · exact hl'

theorem addRow_copies (cap : Nat) {p : Prefill V σ S} (r : BatchRow) (h : p.lane.CopiesHost) :
    KeepsCopy (addRow model ans cap p r) Prefill.lane := by
  unfold addRow
  dsimp only
  split
  · exact flush_copies h
  · exact h

variable [Inhabited V]

theorem prefixPass_copies (hS : 0 < S) (h : l.CopiesHost) :
    KeepsCopy (prefixPass model ans toks hS l) Prod.snd := by
  apply Fallible.Ends.seq (feedShared_copies _ _ _ h)
  intro l₁ h₁
  have hcopied : (if commonPrefix toks hS = 0 then l₁
      else { l₁ with ctx := copyShared S l₁.ctx }).CopiesHost := by
    split
    · exact h₁
    · exact (copyShared_skip S l₁.ctx).trans h₁
  apply Fallible.Ends.seq (Fallible.Ends.foldlM (I := fun _ p => p.lane.CopiesHost) hcopied
    fun _ r _ p hp => addRow_copies _ r hp)
  intro p hp
  apply Fallible.Ends.seq (flush_copies hp)
  intro p' hp'
  exact hp'

theorem promptPass_copies (hS : 0 < S) (h : l.CopiesHost) :
    KeepsCopy (promptPass cfg model ans toks hS l) (·.2.2) := by
  unfold promptPass
  split
  · apply Fallible.Ends.seq (prefixPass_copies hS h)
    rintro ⟨saved, l'⟩ h'
    exact h'
  · apply Fallible.Ends.seq (decode_copies _ _ h)
    intro l' h'
    exact h'

omit [Inhabited V] in
theorem refreshContext_copies (h : l.CopiesHost) : KeepsCopy (refreshContext cfg ans l) id := by
  unfold refreshContext
  split
  · split
    · exact rfl
    · exact h
  · exact h

theorem enterStepwise_copies (hS : 0 < S) (h : l.CopiesHost) :
    Fallible.Ends (enterStepwise cfg model ans toks hS l)
      (fun r => r.2.lane.CopiesHost ∧ r.2.devMode = false) fun e => e.left.CopiesHost := by
  apply Fallible.Ends.seq (refreshContext_copies h)
  intro l₁ h₁
  have hclear : l₁.clear.CopiesHost := h₁
  apply Fallible.Ends.seq (promptPass_copies hS hclear)
  rintro ⟨promptLogits, lastRow, l₂⟩ h₂
  exact ⟨h₂, rfl⟩

end Prompt

/-! ## The single-batch loop -/

section Loop

variable {cfg : EngineConfig} (model : History → V) (ans : Answers) (sampler : Sampler V σ S)
  (toks : Fin S → List Int) (promptLogits : Option (Nat → V)) (i : Nat) {s : Stepwise V σ S}

/-- In the loop the copy is skipped in device mode, unless the rows are compared. -/
def Stepwise.Flag (cfg : EngineConfig) (s : Stepwise V σ S) : Prop :=
  s.lane.ctx.skipLogitsCopy = (s.devMode && !cfg.compareDevice)

theorem Stepwise.Flag.restore {e : Failure (Lane V σ S)} (h : s.Flag cfg)
    (he : e.left.ctx.skipLogitsCopy = s.lane.ctx.skipLogitsCopy) :
    (s.restore e).left.CopiesHost := by
  unfold Stepwise.restore Lane.CopiesHost
  dsimp only
  split
  · exact rfl
  · rename_i hm
    rw [he, h, Bool.eq_false_iff.2 hm, Bool.false_and]

/-- In device mode what the sampler drew is decoded. -/
theorem Stepwise.override_of_devMode [LogitRow V] {rows : Fin S → V} (hm : s.devMode = true)
    (chosen : Fin S → Int) : s.override cfg rows chosen = chosen := by
  simp [override, hm]

variable [DecidableEq V] [LogitRow V]

omit [LogitRow V] in
theorem Stepwise.readLogits_flag (h : s.Flag cfg) :
    Fallible.Ends (readLogits cfg ans promptLogits i s) (fun r => r.2.Flag cfg)
      fun e => e.left.CopiesHost := by
  unfold readLogits
  split
  · rename_i rows _
    have hmode : (if s.devMode then s.lane.tick
        else s.lane.tick.setSkip !cfg.compareDevice).ctx.skipLogitsCopy = !cfg.compareDevice := by
      split
      · rename_i hm
        have hflag : s.lane.ctx.skipLogitsCopy = _ := h
        rwa [hm, Bool.true_and] at hflag
      · rfl
    dsimp only
    generalize (if s.devMode then s.lane.tick
      else s.lane.tick.setSkip !cfg.compareDevice) = l at hmode
    have hcompare : Fallible.Ends (compareRows cfg ans i rows s.lastRow l)
        (fun l' => l'.ctx.skipLogitsCopy = !cfg.compareDevice) fun e => e.left.CopiesHost := by
      unfold compareRows
      split
      · -- The rows are compared, so the copy was not skipped.
        rename_i hc
        have hon : l.CopiesHost := by
          rw [hc] at hmode
          exact hmode
        split
        · split
          · exact hmode
          · exact hon
        · exact hon
      · exact hmode
    apply Fallible.Ends.seq hcompare
    intro l' hl'
    change l'.ctx.skipLogitsCopy = (true && !cfg.compareDevice)
    rw [hl', Bool.true_and]
  · split
    · exact rfl
    · rename_i hm
      have hhost : s.lane.tick.CopiesHost := by
        change s.lane.ctx.skipLogitsCopy = false
        rw [h, Bool.eq_false_iff.2 hm, Bool.false_and]
      have hread : Fallible.Ends (hostLogits ans promptLogits i { s with lane := s.lane.tick })
          (fun r => r.2.ctx.skipLogitsCopy = s.lane.ctx.skipLogitsCopy)
          fun e => e.left.CopiesHost := by
        unfold hostLogits
        split
        · exact rfl
        · unfold Lane.hostRows
          split
          · exact rfl
          · exact hhost
      apply Fallible.Ends.seq hread
      rintro ⟨rows, l⟩ hl
      exact hl.trans h

/-- **What a step leaves**: the flag of the mode when it succeeds, and when it fails the copy is
stranded exactly where the sampler returned true with a negative token. -/
theorem Stepwise.step_flag (h : s.Flag cfg) :
    Fallible.Ends (step cfg model ans sampler toks promptLogits i s)
      (fun s' => s'.Flag cfg ∧ ¬ s.Strands cfg ans sampler promptLogits i)
      fun e => ¬ e.left.CopiesHost ↔ s.Strands cfg ans sampler promptLogits i := by
  have hread := readLogits_flag ans promptLogits i h
  unfold step
  cases hr : readLogits cfg ans promptLogits i s with
  | error e =>
    have hcopy := hread.of_error hr
    constructor
    · exact fun hno => absurd hcopy hno
    · rintro ⟨rows, u, hu, -⟩
      cases hr.symm.trans hu
  | ok r =>
    obtain ⟨rows, u⟩ := r
    have hu : u.Flag cfg := hread.of_ok hr
    have hstrands : s.Strands cfg ans sampler promptLogits i ↔ u.devMode = true ∧
        cfg.compareDevice = false ∧
        ∃ out st, sampler u.lane.sampler ⟨u.ctxv, rows⟩ = (some out, st) ∧ ∃ t, out t < 0 := by
      constructor
      · rintro ⟨rows', u', hu', hrest⟩
        cases hr.symm.trans hu'
        exact hrest
      · exact fun hrest => ⟨rows, u, hr, hrest⟩
    rw [hstrands]
    change Fallible.Ends (drawAndDecode cfg model ans sampler toks i rows u) _ _
    unfold drawAndDecode Lane.sample
    dsimp only
    split
    · rename_i out st hout
      -- The sampler returned true: `push` looks at the tokens, in device mode those drawn.
      have hdrawn : u.devMode = true → u.override cfg rows out = out :=
        fun hm => override_of_devMode hm out
      change Fallible.Ends (do
        let ctxv ← Lane.push u.ctxv (u.override cfg rows out) _
        let l ← (Lane.decode model ans "decode failed mid-window"
          (stepBatch toks (u.override cfg rows out) i) _).mapError u.restore
        return { u with lane := l, ctxv, lastRow := some }) _ _
      generalize u.override cfg rows out = chosen at hdrawn ⊢
      unfold Lane.push
      split
      · rename_i hpos
        have hnone : ¬ (u.devMode = true ∧ cfg.compareDevice = false ∧
            ∃ out' st', sampler u.lane.sampler ⟨u.ctxv, rows⟩ = (some out', st') ∧
              ∃ t, out' t < 0) := by
          rintro ⟨hm, -, out', st', hout', t, ht⟩
          cases hout.symm.trans hout'
          rw [hdrawn hm] at hpos
          exact absurd (hpos t) (Int.not_le.2 ht)
        unfold Lane.decode
        split
        · exact ⟨hu, hnone⟩
        · constructor
          · exact fun hno => absurd (hu.restore rfl) hno
          · exact fun hs => absurd hs hnone
      · rename_i hneg
        obtain ⟨t, ht⟩ := not_forall.1 hneg
        have hflag : u.lane.ctx.skipLogitsCopy = _ := hu
        change ¬ u.lane.ctx.skipLogitsCopy = false ↔ _
        rw [hflag, Bool.not_eq_false, Bool.and_eq_true, Bool.not_eq_true']
        constructor
        · rintro ⟨hm, hc⟩
          rw [hdrawn hm] at ht
          exact ⟨hm, hc, out, st, hout, t, Int.not_le.1 ht⟩
        · exact fun hs => ⟨hs.1, hs.2.1⟩
    · rename_i st hout
      constructor
      · exact fun hno => absurd (hu.restore rfl) hno
      · rintro ⟨-, -, out', st', hout', -⟩
        cases hout.symm.trans hout'

/-- The loop strands the copy in the step that does. -/
theorem Stepwise.loop_flag (n : Nat) (h : s.Flag cfg) :
    Fallible.Ends (Fallible.loop (step cfg model ans sampler toks promptLogits) n s)
      (fun s' => s'.Flag cfg ∧ ¬ ∃ i < n, ∃ u,
        Fallible.loop (step cfg model ans sampler toks promptLogits) i s = .ok u ∧
          u.Strands cfg ans sampler promptLogits i)
      fun e => ¬ e.left.CopiesHost ↔ ∃ i < n, ∃ u,
        Fallible.loop (step cfg model ans sampler toks promptLogits) i s = .ok u ∧
          u.Strands cfg ans sampler promptLogits i := by
  have hflag (m : Nat) : Fallible.Ends
      (Fallible.loop (step cfg model ans sampler toks promptLogits) m s)
      (fun s' => s'.Flag cfg) fun _ => True :=
    Fallible.Ends.loop (I := fun _ s' => s'.Flag cfg) h fun i _ u hu =>
      (step_flag model ans sampler toks promptLogits i hu).mono (fun _ hs => hs.1)
        fun _ _ => trivial
  -- A step that strands the copy fails, and the loop with it.
  have hfail : ∀ i < n, ∀ u,
      Fallible.loop (step cfg model ans sampler toks promptLogits) i s = .ok u →
      u.Strands cfg ans sampler promptLogits i →
      ∃ e, Fallible.loop (step cfg model ans sampler toks promptLogits) n s = .error e ∧
        ¬ e.left.CopiesHost := by
    intro i hi u hu hs
    have hstep := step_flag model ans sampler toks promptLogits i ((hflag i).of_ok hu)
    cases hres : step cfg model ans sampler toks promptLogits i u with
    | ok u' => exact absurd hs (hstep.of_ok hres).2
    | error e =>
      exact ⟨e, Fallible.loop_error_iff.2 ⟨i, hi, u, hu, hres⟩, (hstep.of_error hres).2 hs⟩
  cases hloop : Fallible.loop (step cfg model ans sampler toks promptLogits) n s with
  | ok s' =>
    refine ⟨(hflag n).of_ok hloop, ?_⟩
    rintro ⟨i, hi, u, hu, hs⟩
    obtain ⟨e, he, -⟩ := hfail i hi u hu hs
    cases hloop.symm.trans he
  | error e =>
    constructor
    · intro hno
      obtain ⟨i, hi, u, hu, hres⟩ := Fallible.loop_error_iff.1 hloop
      have hstep := step_flag model ans sampler toks promptLogits i ((hflag i).of_ok hu)
      exact ⟨i, hi, u, hu, (hstep.of_error hres).1 hno⟩
    · rintro ⟨i, hi, u, hu, hs⟩
      obtain ⟨e', he', hno⟩ := hfail i hi u hu hs
      cases hloop.symm.trans he'
      exact hno

end Loop

/-! ## The calls -/

section Calls

variable [Inhabited V] [DecidableEq V] [LogitRow V] {cfg : EngineConfig} {model : History → V}

theorem stepwise_copies_iff {ans : Answers} {step : Sampler V σ S} {toks : Fin S → List Int}
    {l : Lane V σ S} (hl : l.CopiesHost) :
    (leftBy (generateWindowsStepwiseTok cfg model ans step toks l)).CopiesHost ↔
      ¬ ∃ h : Admitted cfg toks, ∃ promptLogits s₀,
        enterStepwise cfg model ans toks h.count.1 l.start = .ok (promptLogits, s₀) ∧
        ∃ i < cfg.windowTokens, ∃ s,
          Fallible.loop (Stepwise.step cfg model ans step toks promptLogits) i s₀ = .ok s ∧
            s.Strands cfg ans step promptLogits i := by
  by_cases h : Admitted cfg toks
  · have henter : Fallible.Ends (enterStepwise cfg model ans toks h.count.1 l.start) _ _ :=
      enterStepwise_copies h.count.1 hl
    rw [stepwise_admitted h]
    cases he : enterStepwise cfg model ans toks h.count.1 l.start with
    | error e =>
      refine iff_of_true (henter.of_error he) ?_
      rintro ⟨_, promptLogits, s₀, hs₀, -⟩
      cases he.symm.trans hs₀
    | ok r =>
      obtain ⟨promptLogits, s₀⟩ := r
      obtain ⟨hcopy, hmode⟩ := henter.of_ok he
      have hflag : s₀.Flag cfg := by
        change s₀.lane.ctx.skipLogitsCopy = _
        rw [hcopy, hmode, Bool.false_and]
      have hhit : (∃ h : Admitted cfg toks, ∃ promptLogits' s₀',
          enterStepwise cfg model ans toks h.count.1 l.start = .ok (promptLogits', s₀') ∧
          ∃ i < cfg.windowTokens, ∃ s,
            Fallible.loop (Stepwise.step cfg model ans step toks promptLogits') i s₀' = .ok s ∧
              s.Strands cfg ans step promptLogits' i) ↔
          ∃ i < cfg.windowTokens, ∃ s,
            Fallible.loop (Stepwise.step cfg model ans step toks promptLogits) i s₀ = .ok s ∧
              s.Strands cfg ans step promptLogits i := by
        constructor
        · rintro ⟨_, _, _, hs₀, hrest⟩
          cases he.symm.trans hs₀
          exact hrest
        · exact fun hrest => ⟨h, promptLogits, s₀, he, hrest⟩
      rw [hhit]
      have hloop := Stepwise.loop_flag model ans step toks promptLogits cfg.windowTokens hflag
      change (leftBy (do
        let s ← Fallible.loop (Stepwise.step cfg model ans step toks promptLogits)
          cfg.windowTokens s₀
        return (S, if s.devMode then s.lane.setSkip false else s.lane))).CopiesHost ↔ _
      cases hl : Fallible.loop (Stepwise.step cfg model ans step toks promptLogits)
          cfg.windowTokens s₀ with
      | ok s =>
        obtain ⟨hs, hno⟩ := hloop.of_ok hl
        refine iff_of_true ?_ hno
        change (if s.devMode then s.lane.setSkip false else s.lane).CopiesHost
        split
        · exact rfl
        · rename_i hm
          change s.lane.ctx.skipLogitsCopy = false
          rw [hs, Bool.eq_false_iff.2 hm, Bool.false_and]
      | error e => exact (not_iff_comm.1 (hloop.of_error hl)).symm
  · obtain ⟨error, he⟩ : ∃ error, generateWindowsStepwiseTok cfg model ans step toks l
        = .error { error, left := l.start } := stepwise_refused h
    rw [he]
    exact iff_of_true hl fun ⟨ha, _⟩ => h ha

/-! ### The double-buffered call -/

/-- Both contexts of an instance copy their logits to the host. -/
def Duo.CopiesHost (d : Duo V σ τ S) : Prop := d.a.CopiesHost ∧ d.b.CopiesHost

omit [Inhabited V] [DecidableEq V] [LogitRow V] in
theorem promptAndStep0_copies {ans : Answers} {step : Sampler V σ S} {toks : Fin S → List Int}
    {l : Lane V σ S} (h : l.CopiesHost) :
    KeepsCopy (promptAndStep0 model ans step toks l) (·.2.2) := by
  apply Fallible.Ends.seq (decode_copies _ _ h)
  intro l₁ h₁
  have hrows : KeepsCopy (l₁.hostRows ans (lastRow (promptBatch toks))) Prod.snd := by
    unfold Lane.hostRows
    split
    · exact h₁
    · exact h₁
  apply Fallible.Ends.seq hrows
  rintro ⟨rows, l₂⟩ h₂
  have hsample : KeepsCopy (l₂.sample step toks rows) Prod.snd := by
    unfold Lane.sample
    dsimp only
    split
    · exact h₂
    · exact h₂
  apply Fallible.Ends.seq hsample
  rintro ⟨first, l₃⟩ h₃
  have hpush : Fallible.Ends (Lane.push toks first l₃) (fun _ => True)
      fun e => e.left.CopiesHost := by
    unfold Lane.push
    split
    · trivial
    · exact h₃
  apply Fallible.Ends.seq hpush
  intro ctxv _
  exact h₃

omit [Inhabited V] [DecidableEq V] [LogitRow V] in
/-- **Every way out of the double-buffered call switches the copies on.** -/
theorem double_copies {ansA ansB : Answers} {stepA : Sampler V σ S} {stepB : Sampler V τ S}
    {toksA toksB : Fin S → List Int} {d : Duo V σ τ S} (h : d.CopiesHost) :
    Fallible.Ends (generateWindowsDoubleTok cfg model ansA ansB stepA stepB toksA toksB d)
      (fun r => r.2.CopiesHost) fun e => e.left.CopiesHost := by
  unfold generateWindowsDoubleTok
  dsimp only
  split
  · exact h
  split
  · exact h
  split
  · exact h
  split
  · exact h
  have hgrow : Fallible.Ends (d.start.growBuffers ansA ansB) (fun _ => True)
      fun e => e.left.CopiesHost := by
    unfold Duo.growBuffers
    split
    · split
      · trivial
      · exact h
    · trivial
  apply Fallible.Ends.seq hgrow
  intro d₁ _
  have hA : (d₁.memoryClear.setSkip false).a.CopiesHost := rfl
  have hB : (d₁.memoryClear.setSkip false).b.CopiesHost := rfl
  apply Fallible.Ends.seq ((promptAndStep0_copies hA).mapError fun e he => ⟨he, hB⟩)
  rintro ⟨ctxA, tokA, a⟩ ha
  apply Fallible.Ends.seq ((promptAndStep0_copies hB).mapError fun e he => ⟨ha, he⟩)
  rintro ⟨ctxB, tokB, b⟩ hb
  -- Whatever the rounds leave, both flags are set last.
  have hrun : Fallible.Ends ((Rounds.run cfg model ansA ansB stepA stepB toksA toksB
      { duo := Duo.setSkip { d₁.memoryClear.setSkip false with a, b } true
        ctxA, ctxB, tokA, tokB }).mapError Rounds.leave)
      (fun _ => True) fun e => e.left.CopiesHost := by
    cases Rounds.run cfg model ansA ansB stepA stepB toksA toksB _ with
    | ok r => trivial
    | error e => exact ⟨rfl, rfl⟩
  apply Fallible.Ends.seq hrun
  intro r _
  exact ⟨rfl, rfl⟩

/-! ## Results -/

/-- **One call** leaves the copies on unless it strands one. -/
theorem call_copies_iff {inst : Instance V} (h : inst.CopiesHost) (c : EngineCall V) :
    (inst.call cfg model c).CopiesHost ↔ ¬ c.Strands cfg model inst := by
  obtain ⟨hctx, hctxB⟩ := h
  cases c with
  | @stepwise S σ ans step st toks =>
    have hl : (inst.lane inst.ctx S st).CopiesHost := hctx
    exact (and_iff_left hctxB).trans (stepwise_copies_iff hl)
  | @double S σ τ ansA ansB stepA stepB stA stB toksA toksB =>
    have hd : (inst.duo S stA stB).CopiesHost := ⟨hctx, hctxB⟩
    have hleft : (leftBy (generateWindowsDoubleTok cfg model ansA ansB stepA stepB toksA toksB
        (inst.duo S stA stB))).CopiesHost := by
      have hend : Fallible.Ends (generateWindowsDoubleTok cfg model ansA ansB stepA stepB
        toksA toksB (inst.duo S stA stB)) _ _ := double_copies hd
      cases hr : generateWindowsDoubleTok cfg model ansA ansB stepA stepB toksA toksB
          (inst.duo S stA stB) with
      | ok r => exact hend.of_ok hr
      | error e => exact hend.of_error hr
    exact iff_of_true hleft id

/-- **After every call of a run the host copies are on exactly when no call of the run strands
one**: when the sampler of a single-batch call never returns true with a negative token in device
mode, unless the rows are compared. -/
theorem host_copies_iff {inst : Instance V} (h : inst.CopiesHost) (cs : List (EngineCall V)) :
    HostCopiesRestored cfg model inst cs ↔
      (calls cfg model inst).Guarded (fun t c => ¬ c.Strands cfg model t) inst cs := by
  have hstep : ∀ t c, t.CopiesHost →
      ((∀ u, (calls cfg model inst).step t c = some u → u.CopiesHost) ↔
        ¬ c.Strands cfg model t) := by
    intro t c ht
    rw [← call_copies_iff ht c]
    constructor
    · exact fun hall => hall _ rfl
    · rintro hcall u hu
      cases hu
      exact hcall
  unfold HostCopiesRestored
  rw [Machine.throughout_iff _ h]
  apply Machine.guarded_congr_of_kept (I := Instance.CopiesHost)
  · intro t c u _ hok hu
    exact hok u hu
  · exact hstep
  · exact h

end Calls

/-- An instance as `load` leaves it. -/
def freshInstance : Instance Nat := { ctx := { nBatch := 2048 }, ctxB := { nBatch := 2048 } }

theorem host_copies_iff_double :
    HostCopiesRestored doubleEngine List.length freshInstance
      [.double allWell allWell countingSampler countingSampler 0 0 (fun _ => [5])
        fun _ => [6]] := by
  apply (host_copies_iff ⟨rfl, rfl⟩ _).2
  exact ⟨id, fun _ _ => trivial⟩

/-- A sampler that draws one token and then gives the stream up. -/
def quittingSampler : Sampler Nat Nat 1 := fun n _ => (some fun _ => if n = 0 then 5 else -1, n + 1)

/-- **The second step of the call is in device mode, and the copy stays off.** -/
theorem host_copy_stranded :
    ¬ HostCopiesRestored doubleEngine List.length freshInstance
      [.stepwise allWell quittingSampler 0 fun _ => [5]] := by
  intro h
  have hoff : (freshInstance.call doubleEngine List.length
      (.stepwise allWell quittingSampler 0 fun _ => [5])).ctx.skipLogitsCopy = true := by
    decide +kernel
  have hon := (h _ _ List.prefix_rfl rfl).1
  rw [hoff] at hon
  cases hon

end Engine
