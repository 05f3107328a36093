import SuprMeow.Engine.Stepwise

/-!
# The double-buffered loop

`generate_windows_double_tok`: two batches, each on its own context.  While the sampler draws for
one of them from a private copy of its logits, the other one decodes; batch B follows half a
round behind batch A.

* `Rounds.Inv` — before round `i` batch A has caught up with `i + 1` calls and batch B is ahead
  of its context by the last of as many;
* `double_spec` — what both batches have done when the call returns;
* `double_returns` — it returns if nothing fails and the samplers go on to the end;
* `double_refines_stepwise` — without `MEOW_FORCE_GREEDY`, each sampler has seen what the
  single-batch loop would show it;
* `greedy_not_refined` — with it the single-batch loop decodes other tokens than were drawn.
-/

set_option autoImplicit false

namespace Engine

variable {V σ τ : Type} {S : Nat}

/-- An instance with both contexts; `dbufRows` rows of logits fit each private buffer. -/
structure Duo (V σ τ : Type) (S : Nat) where
  a : Lane V σ S
  b : Lane V τ S
  hasCtxB : Bool
  dbufRows : Nat

namespace Duo

def start (d : Duo V σ τ S) : Duo V σ τ S := { d with a := d.a.start, b := d.b.start }

def setSkip (d : Duo V σ τ S) (skip : Bool) : Duo V σ τ S :=
  { d with a := d.a.setSkip skip, b := d.b.setSkip skip }

def memoryClear (d : Duo V σ τ S) : Duo V σ τ S :=
  { d with
    a := { d.a with ctx := d.a.ctx.memoryClear }
    b := { d.b with ctx := d.b.ctx.memoryClear } }

/-- The private buffers are made to hold `S` rows. -/
def growBuffers (ansA ansB : Answers) (d : Duo V σ τ S) :
    Except (Failure (Duo V σ τ S)) (Duo V σ τ S) :=
  if d.dbufRows < S then
    if ansA.alloc d.a.clock ∧ ansB.alloc d.b.clock then .ok { d with dbufRows := S }
    else .error
      { code := -2
        error := "cannot allocate double-buffer logits copies"
        left := { d with dbufRows := 0 } }
  else .ok d

def failA (d : Duo V σ τ S) (e : Failure (Lane V σ S)) : Failure (Duo V σ τ S) :=
  { code := e.code, error := e.error, left := { d with a := e.left } }

def failB (d : Duo V σ τ S) (e : Failure (Lane V τ S)) : Failure (Duo V σ τ S) :=
  { code := e.code, error := e.error, left := { d with b := e.left } }

theorem growBuffers_ok {ansA ansB : Answers} {d d' : Duo V σ τ S}
    (h : d.growBuffers ansA ansB = .ok d') : d'.a = d.a ∧ d'.b = d.b := by
  unfold growBuffers at h
  split at h
  · split at h
    · cases h; exact ⟨rfl, rfl⟩
    · cases h
  · cases h; exact ⟨rfl, rfl⟩

end Duo

/-- The prompt pass of one batch on its own context, with step 0 drawn from its host logits. -/
def promptAndStep0 (model : History → V) (ans : Answers) (step : Sampler V σ S)
    (toks : Fin S → List Int) (l : Lane V σ S) :
    Except (Failure (Lane V σ S)) ((Fin S → List Int) × (Fin S → Int) × Lane V σ S) := do
  let l ← l.decode model ans "prompt decode failed" (promptBatch toks)
  let (rows, l) ← l.hostRows ans (lastRow (promptBatch toks))
  let (first, l) ← l.sample step toks rows
  let ctxv ← l.push toks first
  return (ctxv, first, l)

/-- The locals of the loop. -/
structure Rounds (V σ τ : Type) (S : Nat) where
  duo : Duo V σ τ S
  ctxA : Fin S → List Int
  ctxB : Fin S → List Int
  tokA : Fin S → Int
  tokB : Fin S → Int
  first : Bool := true

/-- The loop with `step_i = i + 1`.  Without device logits in the first round nothing was drawn
from them, and the caller is told to fall back. -/
def Rounds.round (model : History → V) (ansA ansB : Answers) (stepA : Sampler V σ S)
    (stepB : Sampler V τ S) (toksA toksB : Fin S → List Int) (i : Nat) (r : Rounds V σ τ S) :
    Except (Failure (Duo V σ τ S)) (Rounds V σ τ S) :=
  match r.duo.a.syncAndCopy ansA with
  | none =>
    .error (if r.first then { code := -2, error := "", left := r.duo }
      else { error := "double-buffered window failed", left := r.duo })
  | some a => do
    let d := { r.duo with a := a }
    let b ← (d.b.decode model ansB "double-buffered window failed"
      (stepBatch toksB r.tokB i)).mapError d.failB
    let d := { d with b := b }
    let (nextA, a) ← (a.sample stepA r.ctxA a.dbuf).mapError d.failA
    let ctxA ← (a.push r.ctxA nextA).mapError d.failA
    match b.syncAndCopy ansB with
    | none => .error { error := "double-buffered window failed", left := { d with a := a } }
    | some b =>
      let d := { d with b := b }
      let a ← (a.decode model ansA "double-buffered window failed"
        (stepBatch toksA nextA (i + 1))).mapError d.failA
      let d := { d with a := a }
      let (nextB, b) ← (b.sample stepB r.ctxB b.dbuf).mapError d.failB
      let ctxB ← (b.push r.ctxB nextB).mapError d.failB
      return { duo := { d with b := b }, ctxA, ctxB, tokA := nextA, tokB := nextB, first := false }

/-- The generation: the first decode of batch A, then the rounds. -/
def Rounds.run (cfg : EngineConfig) (model : History → V) (ansA ansB : Answers)
    (stepA : Sampler V σ S) (stepB : Sampler V τ S) (toksA toksB : Fin S → List Int)
    (r : Rounds V σ τ S) : Except (Failure (Duo V σ τ S)) (Rounds V σ τ S) := do
  let a ← (r.duo.a.decode model ansA "double-buffered window failed"
    (stepBatch toksA r.tokA 0)).mapError r.duo.failA
  Fallible.loop (Rounds.round model ansA ansB stepA stepB toksA toksB) (cfg.windowTokens - 1)
    { r with duo := { r.duo with a := a } }

/-- Every way out of the loop switches the host copies on again. -/
def Rounds.leave (e : Failure (Duo V σ τ S)) : Failure (Duo V σ τ S) :=
  { code := e.code
    error := if e.code = -2 then "" else "double-buffered window failed"
    left := e.left.setSkip false }

/-- `InferenceEngine::generate_windows_double_tok`, with the number of windows it returns. -/
def generateWindowsDoubleTok (cfg : EngineConfig) (model : History → V) (ansA ansB : Answers)
    (stepA : Sampler V σ S) (stepB : Sampler V τ S) (toksA toksB : Fin S → List Int)
    (d : Duo V σ τ S) : Except (Failure (Duo V σ τ S)) (Nat × Duo V σ τ S) :=
  let d := d.start
  if cfg.doubleBuffer = false then
    .error { error := "engine not loaded with double_buffer", left := d }
  else if d.hasCtxB = false then
    .error { code := -2, error := "no double-buffer context", left := d }
  else if S = 0 ∨ cfg.slotsPerDevice < S then .error { error := "bad stream count", left := d }
  else if ∃ s, toksA s = [] ∨ toksB s = [] then .error { error := "empty prompt", left := d }
  else do
    let d ← d.growBuffers ansA ansB
    let d := d.memoryClear.setSkip false
    let (ctxA, tokA, a) ← (promptAndStep0 model ansA stepA toksA d.a).mapError d.failA
    let d := { d with a := a }
    let (ctxB, tokB, b) ← (promptAndStep0 model ansB stepB toksB d.b).mapError d.failB
    let d := { d with b := b }
    let r ← (Rounds.run cfg model ansA ansB stepA stepB toksA toksB
      { duo := d.setSkip true, ctxA, ctxB, tokA, tokB }).mapError Rounds.leave
    return (2 * S, r.duo.setSkip false)

/-! ## One batch -/

namespace Lane

variable {model : History → V} {step : Sampler V σ S} {toks : Fin S → List Int} {st : σ}
  {pre : List (List BatchRow)} {ans : Answers} {l l' : Lane V σ S} {k : Nat}
  {ctxv : Fin S → List Int} {tok : Fin S → Int}

/-- The private copy holds the logits of the streams. -/
theorem CaughtUp.copy (h : CaughtUp model step toks st pre k ctxv l) (hf : l.Fresh model)
    (hc : l.syncAndCopy ans = some l') :
    CaughtUp model step toks st pre k ctxv l' ∧ l'.dbuf = fun s => model (ctxv s).zipIdx := by
  obtain ⟨-, rows, hrows, -, rfl⟩ := syncAndCopy_eq_some.1 hc
  refine ⟨h.congr rfl rfl rfl rfl rfl, ?_⟩
  rw [hf.device] at hrows
  cases hrows
  exact funext fun s => congrArg model (h.cells s)

/-- The flag of the host copy is no part of what was done. -/
theorem CaughtUp.setSkip (h : CaughtUp model step toks st pre k ctxv l) (skip : Bool) :
    CaughtUp model step toks st pre k ctxv (l.setSkip skip) :=
  h.congr rfl rfl rfl rfl rfl

theorem Ahead.setSkip (h : Ahead model step toks st pre k ctxv tok l) (skip : Bool) :
    Ahead model step toks st pre k ctxv tok (l.setSkip skip) :=
  ⟨h.window, h.behind⟩

end Lane

/-- **The prompt pass draws step 0** from the logits of the prompts. -/
theorem promptAndStep0_spec {model : History → V} {ans : Answers} {step : Sampler V σ S}
    {toks ctxv : Fin S → List Int} {first : Fin S → Int} {l l' : Lane V σ S}
    (hcells : l.ctx.cells = fun _ => []) (hskip : l.ctx.skipLogitsCopy = false)
    (hrecords : l.calls = [] ∧ l.chosen = [] ∧ l.decoded = []) (hne : ∀ s, toks s ≠ [])
    (h : promptAndStep0 model ans step toks l = .ok (ctxv, first, l')) :
    l'.Ahead model step toks l.sampler [promptBatch toks] 0 ctxv first := by
  obtain ⟨l₁, hd, h⟩ := Fallible.seq_ok.1 h
  obtain ⟨⟨rows, l₂⟩, hr, h⟩ := Fallible.seq_ok.1 h
  obtain ⟨⟨out, l₃⟩, hs, h⟩ := Fallible.seq_ok.1 h
  obtain ⟨ctxv', hp, h⟩ := Fallible.seq_ok.1 h
  cases h
  obtain ⟨⟨hkept, hcells⟩, hread⟩ := promptBatch_spec hcells hskip hne hd
  obtain ⟨-, hrows, rfl⟩ := Lane.hostRows_eq_ok.1 hr
  obtain ⟨hcalls, hchosen, hdecoded⟩ := hrecords
  have hup : l₁.tick.CaughtUp model step toks l.sampler [promptBatch toks] 0 toks := by
    refine ⟨?_, hcells, ?_⟩
    · change some _ = some (Window.mk toks l₁.sampler l₁.calls l₁.chosen)
      rw [hkept.sampler, hkept.calls, hkept.chosen, hcalls, hchosen]
    · obtain ⟨-, rfl⟩ := Lane.decode_eq_ok.1 hd
      change l.decoded ++ [promptBatch toks] = _ ++ stepBatches toks l.chosen
      rw [hdecoded, hchosen]
      rfl
  refine (hup.sample (funext fun s => Option.some.inj ?_) hs hp).1
  rw [← hrows s, hread s]

/-! ## The rounds -/

namespace Rounds

variable {cfg : EngineConfig} {model : History → V} {ansA ansB : Answers} {stepA : Sampler V σ S}
  {stepB : Sampler V τ S} {toksA toksB : Fin S → List Int} {sa : σ} {sb : τ}
  {r r' : Rounds V σ τ S} {i : Nat}

/-- The invariant before round `i`. -/
structure Inv (model : History → V) (stepA : Sampler V σ S) (stepB : Sampler V τ S)
    (toksA toksB : Fin S → List Int) (sa : σ) (sb : τ) (i : Nat) (r : Rounds V σ τ S) :
    Prop where
  a : r.duo.a.CaughtUp model stepA toksA sa [promptBatch toksA] (i + 1) r.ctxA
  fresh : r.duo.a.Fresh model
  b : r.duo.b.Ahead model stepB toksB sb [promptBatch toksB] i r.ctxB r.tokB

/-- **One round takes both batches one call further.** -/
theorem Inv.round (h : Inv model stepA stepB toksA toksB sa sb i r)
    (hr : round model ansA ansB stepA stepB toksA toksB i r = .ok r') :
    Inv model stepA stepB toksA toksB sa sb (i + 1) r' := by
  unfold Rounds.round at hr
  split at hr
  · cases hr
  · rename_i a hcopyA
    obtain ⟨hupA, hdbufA⟩ := h.a.copy h.fresh hcopyA
    obtain ⟨b, hdecB, hr⟩ := Fallible.seq_ok.1 hr
    obtain ⟨⟨nextA, a₁⟩, hsampleA, hr⟩ := Fallible.seq_ok.1 hr
    obtain ⟨ctxA, hpushA, hr⟩ := Fallible.seq_ok.1 hr
    obtain ⟨hupB, hfreshB⟩ := h.b.decode (mapError_ok.1 hdecB)
    obtain ⟨haheadA, -⟩ := hupA.sample hdbufA (mapError_ok.1 hsampleA) (mapError_ok.1 hpushA)
    dsimp only at hr
    split at hr
    · cases hr
    · rename_i b₁ hcopyB
      obtain ⟨hupB, hdbufB⟩ := hupB.copy hfreshB hcopyB
      obtain ⟨a₂, hdecA, hr⟩ := Fallible.seq_ok.1 hr
      obtain ⟨⟨nextB, b₂⟩, hsampleB, hr⟩ := Fallible.seq_ok.1 hr
      obtain ⟨ctxB, hpushB, hr⟩ := Fallible.seq_ok.1 hr
      cases hr
      obtain ⟨hupA, hfreshA⟩ := haheadA.decode (mapError_ok.1 hdecA)
      obtain ⟨haheadB, -⟩ := hupB.sample hdbufB (mapError_ok.1 hsampleB) (mapError_ok.1 hpushB)
      exact ⟨hupA, hfreshA, haheadB⟩

/-- **The run**: batch A has caught up with its last call, batch B is ahead by it. -/
theorem run_spec (hA : r.duo.a.Ahead model stepA toksA sa [promptBatch toksA] 0 r.ctxA r.tokA)
    (hB : r.duo.b.Ahead model stepB toksB sb [promptBatch toksB] 0 r.ctxB r.tokB)
    (h : run cfg model ansA ansB stepA stepB toksA toksB r = .ok r') :
    Inv model stepA stepB toksA toksB sa sb (cfg.windowTokens - 1) r' := by
  obtain ⟨a, hdec, hloop⟩ := Fallible.seq_ok.1 h
  obtain ⟨hupA, hfreshA⟩ := hA.decode (mapError_ok.1 hdec)
  have h0 : Inv model stepA stepB toksA toksB sa sb 0 { r with duo := { r.duo with a := a } } :=
    ⟨hupA, hfreshA, hB⟩
  generalize cfg.windowTokens - 1 = n at hloop ⊢
  exact Fallible.loop_ok h0 (fun i _ r r' hr hround => hr.round hround) hloop

end Rounds

/-! ## The whole call -/

/-- Where a lane has decoded the tokens drawn: the token with index `j` in the batch behind that
of the prompts and the first `j`, and no position of a sequence twice. -/
structure DecodedInPlace (toks : Fin S → List Int) (l : Lane V σ S) : Prop where
  batches : ∃ n ≤ l.chosen.length,
    l.decoded = promptBatch toks :: stepBatches toks (l.chosen.take n)
  once : (l.decoded.flatten.map fun r => (r.seq, r.pos)).Nodup

/-- What the single-batch loop shows its sampler: the calls of every call of the engine that
returns, on a context whose host copy is not skipped; and where llama does not fail, it
returns. -/
def CallsOfStepwise [Inhabited V] [DecidableEq V] [LogitRow V] (cfg : EngineConfig)
    (model : History → V) (step : Sampler V σ S) (toks : Fin S → List Int) (st : σ)
    (calls : List (Call V S)) : Prop :=
  ∀ (ans : Answers) (l : Lane V σ S), l.sampler = st → l.ctx.skipLogitsCopy = false →
    (∀ n l', generateWindowsStepwiseTok cfg model ans step toks l = .ok (n, l') →
      l'.calls = calls) ∧
    (ans.Healthy → ∃ l', generateWindowsStepwiseTok cfg model ans step toks l = .ok (S, l'))

variable {cfg : EngineConfig} {model : History → V} {ansA ansB : Answers}
  {stepA : Sampler V σ S} {stepB : Sampler V τ S} {toksA toksB : Fin S → List Int}
  {d d' : Duo V σ τ S} {n : Nat}

/-- **What both batches have done when the call returns.** -/
theorem double_spec
    (h : generateWindowsDoubleTok cfg model ansA ansB stepA stepB toksA toksB d = .ok (n, d')) :
    n = 2 * S ∧ (0 < S ∧ S ≤ cfg.slotsPerDevice ∧ ∀ s, toksA s ≠ [] ∧ toksB s ≠ []) ∧
      (∃ ctxv, d'.a.CaughtUp model stepA toksA d.a.sampler [promptBatch toksA]
        (cfg.windowTokens - 1 + 1) ctxv) ∧
      ∃ ctxv tok, d'.b.Ahead model stepB toksB d.b.sampler [promptBatch toksB]
        (cfg.windowTokens - 1) ctxv tok := by
  unfold generateWindowsDoubleTok at h
  dsimp only at h
  split at h
  · cases h
  split at h
  · cases h
  split at h
  · cases h
  rename_i hcount
  split at h
  · cases h
  rename_i hempty
  have hne (s : Fin S) : toksA s ≠ [] ∧ toksB s ≠ [] :=
    ⟨fun hs => hempty ⟨s, .inl hs⟩, fun hs => hempty ⟨s, .inr hs⟩⟩
  obtain ⟨d₁, hgrow, h⟩ := Fallible.seq_ok.1 h
  obtain ⟨ha, hb⟩ := Duo.growBuffers_ok hgrow
  obtain ⟨⟨ctxA, tokA, a⟩, hA, h⟩ := Fallible.seq_ok.1 h
  obtain ⟨⟨ctxB, tokB, b⟩, hB, h⟩ := Fallible.seq_ok.1 h
  obtain ⟨r, hrun, h⟩ := Fallible.seq_ok.1 h
  cases h
  have haheadA := promptAndStep0_spec (h := mapError_ok.1 hA) rfl rfl
    (by rw [Duo.memoryClear, ha]; exact ⟨rfl, rfl, rfl⟩) fun s => (hne s).1
  have haheadB := promptAndStep0_spec (h := mapError_ok.1 hB) rfl rfl
    (by rw [Duo.memoryClear, hb]; exact ⟨rfl, rfl, rfl⟩) fun s => (hne s).2
  have hend := Rounds.run_spec (h := mapError_ok.1 hrun) (haheadA.setSkip true)
    (haheadB.setSkip true)
  have hsa : (d₁.memoryClear.setSkip false).a.sampler = d.a.sampler := by
    change d₁.a.sampler = _
    rw [ha]
    rfl
  have hsb : (d₁.memoryClear.setSkip false).b.sampler = d.b.sampler := by
    change d₁.b.sampler = _
    rw [hb]
    rfl
  refine ⟨rfl, ⟨by omega, by omega, hne⟩, ⟨r.ctxA, ?_⟩, r.ctxB, r.tokB, ?_⟩
  · have hupA := hend.a.setSkip false
    rwa [hsa] at hupA
  · have haheadB := hend.b.setSkip false
    rwa [← hsb]

/-! ## A call that returns -/

section Returns

variable {cfg : EngineConfig} {model : History → V} {ans ansA ansB : Answers}
  {step stepA : Sampler V σ S} {stepB : Sampler V τ S} {toks toksA toksB : Fin S → List Int}
  {sa : σ} {sb : τ} {l : Lane V σ S} {r : Rounds V σ τ S} {i : Nat}

/-- Nothing fails, and there is always a device pointer. -/
structure Answers.Steady (ans : Answers) : Prop extends ans.Healthy where
  always : ∀ n, ans.device n = true
  alloc : ∀ n, ans.alloc n = true

theorem promptAndStep0_succeeds (hcells : l.ctx.cells = fun _ => [])
    (hskip : l.ctx.skipLogitsCopy = false) (hrecords : l.calls = [] ∧ l.chosen = [])
    (hne : ∀ s, toks s ≠ []) (ha : ans.Healthy) {w : Window V σ S}
    (hw : Window.after model step toks l.sampler 1 = some w) :
    ∃ p, promptAndStep0 model ans step toks l = .ok p := by
  obtain ⟨l₁, hd⟩ : ∃ l₁, l.decode model ans "prompt decode failed" (promptBatch toks) = .ok l₁ :=
    ⟨_, Lane.decode_eq_ok.2 ⟨ha.decode _, rfl⟩⟩
  obtain ⟨⟨hkept, hprompts⟩, hread⟩ := promptBatch_spec hcells hskip hne hd
  have hup : l₁.tick.CaughtUp model step toks l.sampler l₁.decoded 0 toks := by
    refine ⟨?_, hprompts, ?_⟩
    · change some _ = some (Window.mk toks l₁.sampler l₁.calls l₁.chosen)
      rw [hkept.sampler, hkept.calls, hkept.chosen, hrecords.1, hrecords.2]
    · change l₁.decoded = l₁.decoded ++ stepBatches toks l₁.chosen
      rw [hkept.chosen, hrecords.2]
      exact (List.append_nil _).symm
  obtain ⟨out, l₂, ctxv, hs, hp⟩ := hup.can_sample hw
  exact ⟨_, Fallible.seq_ok.2 ⟨l₁, hd, Fallible.seq_ok.2 ⟨_, Lane.hostRows_eq_ok.2
    ⟨ha.hostRow _, hread, rfl⟩, Fallible.seq_ok.2 ⟨_, hs, Fallible.seq_ok.2 ⟨_, hp, rfl⟩⟩⟩⟩⟩

theorem Lane.Fresh.can_copy (hf : l.Fresh model) (ha : ans.Steady) :
    ∃ l', l.syncAndCopy ans = some l' :=
  ⟨_, Lane.syncAndCopy_eq_some.2 ⟨ha.always _, _, hf.device, ha.copy _, rfl⟩⟩

theorem Lane.decode_succeeds (ha : ans.Healthy) (model : History → V) (error : String)
    (batch : List BatchRow) (l : Lane V σ S) : ∃ l', l.decode model ans error batch = .ok l' :=
  ⟨_, Lane.decode_eq_ok.2 ⟨ha.decode _, rfl⟩⟩

/-- **A round both windows have is one the loop makes.** -/
theorem Rounds.Inv.can_round (h : Inv model stepA stepB toksA toksB sa sb i r) (hA : ansA.Steady)
    (hB : ansB.Steady) {wA : Window V σ S} {wB : Window V τ S}
    (hwA : Window.after model stepA toksA sa (i + 2) = some wA)
    (hwB : Window.after model stepB toksB sb (i + 2) = some wB) :
    ∃ r', Rounds.round model ansA ansB stepA stepB toksA toksB i r = .ok r' := by
  obtain ⟨a, hcopyA⟩ := h.fresh.can_copy hA
  obtain ⟨hupA, hdbufA⟩ := h.a.copy h.fresh hcopyA
  obtain ⟨b, hdecB⟩ := Lane.decode_succeeds hB.toHealthy model "double-buffered window failed"
    (stepBatch toksB r.tokB i) r.duo.b
  obtain ⟨hupB, hfreshB⟩ := h.b.decode hdecB
  obtain ⟨nextA, a₁, ctxA, hsampleA, hpushA⟩ := hupA.can_sample hwA
  rw [← hdbufA] at hsampleA
  obtain ⟨b₁, hcopyB⟩ := hfreshB.can_copy hB
  obtain ⟨hupB, hdbufB⟩ := hupB.copy hfreshB hcopyB
  obtain ⟨a₂, hdecA⟩ := Lane.decode_succeeds hA.toHealthy model "double-buffered window failed"
    (stepBatch toksA nextA (i + 1)) a₁
  obtain ⟨nextB, b₂, ctxB, hsampleB, hpushB⟩ := hupB.can_sample hwB
  rw [← hdbufB] at hsampleB
  refine ⟨⟨{ a := a₂, b := b₂, hasCtxB := r.duo.hasCtxB, dbufRows := r.duo.dbufRows },
    ctxA, ctxB, nextA, nextB, false⟩, ?_⟩
  unfold Rounds.round
  rw [hcopyA]
  refine Fallible.seq_ok.2 ⟨b, mapError_ok.2 hdecB, Fallible.seq_ok.2 ⟨(nextA, a₁),
    mapError_ok.2 hsampleA, Fallible.seq_ok.2 ⟨ctxA, mapError_ok.2 hpushA, ?_⟩⟩⟩
  dsimp only
  rw [hcopyB]
  exact Fallible.seq_ok.2 ⟨a₂, mapError_ok.2 hdecA, Fallible.seq_ok.2 ⟨(nextB, b₂),
    mapError_ok.2 hsampleB, Fallible.seq_ok.2 ⟨ctxB, mapError_ok.2 hpushB, rfl⟩⟩⟩

/-- **It returns** if nothing fails and both windows go on to the end. -/
theorem double_returns {d : Duo V σ τ S} {wA : Window V σ S} {wB : Window V τ S}
    (hbuf : cfg.doubleBuffer = true) (hctx : d.hasCtxB = true)
    (hcount : 0 < S ∧ S ≤ cfg.slotsPerDevice) (hne : ∀ s, toksA s ≠ [] ∧ toksB s ≠ [])
    (hA : ansA.Steady) (hB : ansB.Steady)
    (hwA : Window.after model stepA toksA d.a.sampler (cfg.windowTokens - 1 + 1) = some wA)
    (hwB : Window.after model stepB toksB d.b.sampler (cfg.windowTokens - 1 + 1) = some wB) :
    ∃ d', generateWindowsDoubleTok cfg model ansA ansB stepA stepB toksA toksB d
      = .ok (2 * S, d') := by
  obtain ⟨d₁, hgrow⟩ : ∃ d₁, d.start.growBuffers ansA ansB = .ok d₁ := by
    unfold Duo.growBuffers
    split
    · rw [if_pos ⟨hA.alloc _, hB.alloc _⟩]
      exact ⟨_, rfl⟩
    · exact ⟨_, rfl⟩
  obtain ⟨ha, hb⟩ := Duo.growBuffers_ok hgrow
  have hsa : (d₁.memoryClear.setSkip false).a.sampler = d.a.sampler := by
    change d₁.a.sampler = _
    rw [ha]
    rfl
  have hsb : (d₁.memoryClear.setSkip false).b.sampler = d.b.sampler := by
    change d₁.b.sampler = _
    rw [hb]
    rfl
  have hrecA : (d₁.memoryClear.setSkip false).a.calls = [] ∧
      (d₁.memoryClear.setSkip false).a.chosen = [] ∧
      (d₁.memoryClear.setSkip false).a.decoded = [] :=
    by rw [Duo.memoryClear, ha]; exact ⟨rfl, rfl, rfl⟩
  have hrecB : (d₁.memoryClear.setSkip false).b.calls = [] ∧
      (d₁.memoryClear.setSkip false).b.chosen = [] ∧
      (d₁.memoryClear.setSkip false).b.decoded = [] :=
    by rw [Duo.memoryClear, hb]; exact ⟨rfl, rfl, rfl⟩
  rw [← hsa] at hwA
  rw [← hsb] at hwB
  generalize hd : d₁.memoryClear.setSkip false = d₂ at *
  have hcellsA : d₂.a.ctx.cells = fun _ => [] := by rw [← hd]; rfl
  have hcellsB : d₂.b.ctx.cells = fun _ => [] := by rw [← hd]; rfl
  have hskipA : d₂.a.ctx.skipLogitsCopy = false := by rw [← hd]; rfl
  have hskipB : d₂.b.ctx.skipLogitsCopy = false := by rw [← hd]; rfl
  obtain ⟨uA, huA⟩ := Window.after_of_le (m := 1) hwA (by omega)
  obtain ⟨uB, huB⟩ := Window.after_of_le (m := 1) hwB (by omega)
  obtain ⟨⟨ctxA, tokA, a⟩, hpA⟩ := promptAndStep0_succeeds hcellsA hskipA ⟨hrecA.1, hrecA.2.1⟩
    (fun s => (hne s).1) hA.toHealthy huA
  obtain ⟨⟨ctxB, tokB, b⟩, hpB⟩ := promptAndStep0_succeeds hcellsB hskipB ⟨hrecB.1, hrecB.2.1⟩
    (fun s => (hne s).2) hB.toHealthy huB
  have haheadA := promptAndStep0_spec hcellsA hskipA hrecA (fun s => (hne s).1) hpA
  have haheadB := promptAndStep0_spec hcellsB hskipB hrecB (fun s => (hne s).2) hpB
  obtain ⟨a₁, hdec⟩ := Lane.decode_succeeds hA.toHealthy model "double-buffered window failed"
    (stepBatch toksA tokA 0) (a.setSkip true)
  obtain ⟨hupA, hfreshA⟩ := (haheadA.setSkip true).decode hdec
  have h0 : Rounds.Inv model stepA stepB toksA toksB d₂.a.sampler d₂.b.sampler 0
      { duo := { Duo.setSkip { d₂ with a, b } true with a := a₁ }, ctxA, ctxB, tokA, tokB } :=
    ⟨hupA, hfreshA, haheadB.setSkip true⟩
  obtain ⟨r, hrun, -⟩ := Fallible.loop_succeeds (n := cfg.windowTokens - 1)
    h0 fun i hi r hr => by
      obtain ⟨vA, hvA⟩ := Window.after_of_le (m := i + 2) hwA (by omega)
      obtain ⟨vB, hvB⟩ := Window.after_of_le (m := i + 2) hwB (by omega)
      obtain ⟨r', hr'⟩ := hr.can_round hA hB hvA hvB
      exact ⟨r', hr', hr.round hr'⟩
  refine ⟨r.duo.setSkip false, ?_⟩
  unfold generateWindowsDoubleTok
  dsimp only
  rw [if_neg (by rw [hbuf]; exact nofun),
    if_neg (by change ¬ d.hasCtxB = false; rw [hctx]; exact nofun), if_neg (by omega),
    if_neg (by rintro ⟨s, hs | hs⟩; exacts [(hne s).1 hs, (hne s).2 hs])]
  refine Fallible.seq_ok.2 ⟨d₁, hgrow, ?_⟩
  rw [hd]
  exact Fallible.seq_ok.2 ⟨_, mapError_ok.2 hpA, Fallible.seq_ok.2 ⟨_, mapError_ok.2 hpB,
    Fallible.seq_ok.2 ⟨r, mapError_ok.2 (Fallible.seq_ok.2 ⟨a₁, mapError_ok.2 hdec, hrun⟩), rfl⟩⟩⟩

end Returns

/-! ## Where the tokens are decoded -/

theorem mem_stepBatches {toks : Fin S → List Int} {chosen : List (Fin S → Int)} {r : BatchRow}
    (h : r ∈ (stepBatches toks chosen).flatten) :
    ∃ s : Fin S, r.seq = s ∧ (toks s).length ≤ r.pos ∧ r.pos < (toks s).length + chosen.length := by
  obtain ⟨batch, hb, hr⟩ := List.mem_flatten.1 h
  obtain ⟨⟨tok, i⟩, he, rfl⟩ := List.mem_map.1 hb
  obtain ⟨s, -, rfl⟩ := List.mem_map.1 hr
  have := List.snd_lt_of_mem_zipIdx he
  exact ⟨s, rfl, by simp, by simpa using this⟩

/-- The step batches hold every stream's positions once. -/
theorem stepBatches_nodup (toks : Fin S → List Int) (chosen : List (Fin S → Int)) :
    ((stepBatches toks chosen).flatten.map fun r => (r.seq, r.pos)).Nodup := by
  induction chosen using List.reverseRecOn with
  | nil => exact List.nodup_nil
  | append_singleton chosen tok ih =>
    rw [Lane.stepBatches_append, List.flatten_append, List.map_append, List.nodup_append]
    refine ⟨ih, ?_, ?_⟩
    · rw [List.flatten_singleton, stepBatch, List.map_map]
      refine (List.nodup_map_iff_inj_on (List.nodup_finRange S)).2 fun s _ t _ he => ?_
      exact Fin.ext (Prod.mk.inj he).1
    · rintro _ h _ h' rfl
      obtain ⟨r, hr, hr'⟩ := List.mem_map.1 h
      obtain ⟨r₂, hr₂, hr₂'⟩ := List.mem_map.1 h'
      rw [List.flatten_singleton] at hr₂
      obtain ⟨s, -, rfl⟩ := List.mem_map.1 hr₂
      obtain ⟨t, ht, -, hlt⟩ := mem_stepBatches hr
      rw [← hr₂'] at hr'
      obtain ⟨hseq, hpos⟩ := Prod.mk.inj hr'
      have hst : t = s := Fin.ext (ht.symm.trans hseq)
      subst hst
      simp only at hpos
      omega

/-- So do the batch of the prompts and the step batches behind it. -/
theorem decoded_nodup (toks : Fin S → List Int) (chosen : List (Fin S → Int)) :
    ((promptBatch toks :: stepBatches toks chosen).flatten.map fun r => (r.seq, r.pos)).Nodup := by
  rw [List.flatten_cons, List.map_append, List.nodup_append]
  refine ⟨?_, stepBatches_nodup toks chosen, ?_⟩
  · unfold promptBatch
    rw [List.map_flatMap, List.nodup_flatMap]
    constructor
    · intro s _
      unfold promptRows
      rw [List.map_map, List.drop_zero]
      refine List.pairwise_map.2 ((zipIdx_pairwise (toks s) 0).imp fun hlt he => ?_)
      exact absurd (Prod.mk.inj he).2 (Nat.ne_of_lt hlt)
    · refine (List.nodup_finRange S).imp fun hne e he he' => ?_
      obtain ⟨r, hr, rfl⟩ := List.mem_map.1 he
      obtain ⟨r', hr', heq⟩ := List.mem_map.1 he'
      refine hne (Fin.ext ?_)
      rw [← (promptRows_seq hr).1, ← (promptRows_seq hr').1, (Prod.mk.inj heq).1]
  · rintro _ h _ h' rfl
    obtain ⟨r, hr, rfl⟩ := List.mem_map.1 h
    obtain ⟨r₂, hr₂, he⟩ := List.mem_map.1 h'
    obtain ⟨s, -, hrow⟩ := List.mem_flatMap.1 hr
    obtain ⟨hs, hlt⟩ := promptRows_seq hrow
    obtain ⟨t, ht, hle, -⟩ := mem_stepBatches hr₂
    obtain ⟨hseq, hpos⟩ := Prod.mk.inj he
    have hst : t = s := Fin.ext (by rw [← ht, ← hs, hseq])
    subst hst
    omega

theorem Lane.CaughtUp.decodedInPlace {step : Sampler V σ S} {toks : Fin S → List Int} {st : σ}
    {l : Lane V σ S} {ctxv : Fin S → List Int} {k : Nat}
    (h : l.CaughtUp model step toks st [promptBatch toks] k ctxv) : DecodedInPlace toks l := by
  refine ⟨⟨l.chosen.length, Nat.le_refl _, ?_⟩, ?_⟩
  · rw [List.take_length, h.decoded]
    rfl
  · rw [h.decoded]
    exact decoded_nodup toks l.chosen

theorem Lane.Ahead.decodedInPlace {step : Sampler V σ S} {toks : Fin S → List Int} {st : σ}
    {l : Lane V σ S} {ctxv : Fin S → List Int} {tok : Fin S → Int} {k : Nat}
    (h : l.Ahead model step toks st [promptBatch toks] k ctxv tok) : DecodedInPlace toks l := by
  obtain ⟨ctx, chosen, -, hchosen, -, hdecoded⟩ := h.behind
  have hlen := (Window.after_lengths h.window).2.1
  rw [hchosen, List.length_append, List.length_singleton] at hlen
  refine ⟨⟨k, ?_, ?_⟩, ?_⟩
  · rw [hchosen, List.length_append, List.length_singleton]
    omega
  · rw [hdecoded, hchosen, List.take_left' (by omega)]
    rfl
  · rw [hdecoded]
    exact decoded_nodup toks chosen

/-! ## The refinement -/

/-- The single-batch loop makes the calls of the window. -/
theorem callsOfStepwise [Inhabited V] [DecidableEq V] [LogitRow V] {step : Sampler V σ S}
    {toks : Fin S → List Int} {st : σ} {w : Window V σ S} (hgreedy : cfg.forceGreedy = false)
    (hw : Window.after model step toks st cfg.windowTokens = some w) (hS : 0 < S)
    (hslots : S ≤ cfg.slotsPerDevice) (hne : ∀ s, toks s ≠ [])
    (hfit : ∀ s, (toks s).length + cfg.windowTokens ≤ cfg.ctxPerSlot) :
    CallsOfStepwise cfg model step toks st w.calls := by
  rintro ans l rfl hskip
  refine ⟨fun n l' h => ?_, fun ha => stepwise_returns hgreedy hS hslots hne hfit hskip ha hw⟩
  obtain ⟨-, w', hw', hcalls, -⟩ := stepwise_calls hgreedy hskip h
  rw [hw] at hw'
  cases hw'
  exact hcalls

/-- **Double buffering refines the single-batch loop**, unless that decodes greedily: each sampler
is shown exactly what it would be shown by its batch alone, and what is decoded is decoded in
place. -/
theorem double_refines_stepwise [Inhabited V] [DecidableEq V] [LogitRow V]
    (hgreedy : cfg.forceGreedy = false) (hwindow : cfg.windowTokens = 256)
    (hfitA : ∀ s, (toksA s).length + 256 ≤ cfg.ctxPerSlot)
    (hfitB : ∀ s, (toksB s).length + 256 ≤ cfg.ctxPerSlot)
    (h : generateWindowsDoubleTok cfg model ansA ansB stepA stepB toksA toksB d = .ok (n, d')) :
    n = 2 * S ∧
      CallsOfStepwise cfg model stepA toksA d.a.sampler d'.a.calls ∧
      CallsOfStepwise cfg model stepB toksB d.b.sampler d'.b.calls ∧
      d'.a.calls.length = 256 ∧ d'.b.calls.length = 256 ∧
      DecodedInPlace toksA d'.a ∧ DecodedInPlace toksB d'.b := by
  obtain ⟨hn, ⟨hS, hslots, hne⟩, ⟨ctxA, hA⟩, ctxB, tok, hB⟩ := double_spec h
  have hwA := hA.window
  have hwB := hB.window
  rw [hwindow] at hwA hwB
  have hcalls {υ : Type} {step : Sampler V υ S} {toks : Fin S → List Int} {st : υ}
      {w : Window V υ S} (hw : Window.after model step toks st 256 = some w)
      (hne : ∀ s, toks s ≠ []) (hfit : ∀ s, (toks s).length + 256 ≤ cfg.ctxPerSlot) :
      CallsOfStepwise cfg model step toks st w.calls :=
    callsOfStepwise hgreedy (by rw [hwindow]; exact hw) hS hslots hne
      (by rw [hwindow]; exact hfit)
  exact ⟨hn, hcalls hwA (fun s => (hne s).1) hfitA, hcalls hwB (fun s => (hne s).2) hfitB,
    (Window.after_lengths hwA).1, (Window.after_lengths hwB).1,
    hA.decodedInPlace, hB.decodedInPlace⟩

/-- Everything answers. -/
def allWell : Answers :=
  ⟨fun _ => true, fun _ => true, fun _ => true, fun _ => true, fun _ => true, fun _ => true,
    fun _ => true⟩

/-- A vocabulary of one token. -/
instance : LogitRow Nat := ⟨fun _ => 0⟩

/-- A sampler that adds a counter of its own to the logits. -/
def countingSampler : Sampler Nat Nat 1 :=
  fun n call => (some fun s => call.logits s + n, n + 1)

def doubleEngine : EngineConfig := { slotsPerDevice := 1, ctxPerSlot := 300, doubleBuffer := true }

def idleLane : Lane Nat Nat 1 := { ctx := { nBatch := 2048 }, sampler := 0, dbuf := fun _ => 0 }

theorem double_refines_stepwise_counting : ∃ d',
    generateWindowsDoubleTok doubleEngine List.length allWell allWell countingSampler
      countingSampler (fun _ => [5]) (fun _ => [6, 8]) ⟨idleLane, idleLane, true, 0⟩
        = .ok (2, d') ∧
      CallsOfStepwise doubleEngine List.length countingSampler (fun _ => [5]) 0 d'.a.calls ∧
      CallsOfStepwise doubleEngine List.length countingSampler (fun _ => [6, 8]) 0 d'.b.calls ∧
      d'.b.calls.length = 256 := by
  have hrun : (generateWindowsDoubleTok doubleEngine List.length allWell allWell countingSampler
      countingSampler (fun _ => [5]) (fun _ => [6, 8])
      ⟨idleLane, idleLane, true, 0⟩).toOption.isSome = true := by decide +kernel
  obtain ⟨⟨n, d'⟩, hd⟩ := Option.isSome_iff_exists.1 hrun
  have hok := Fallible.toOption_eq_some.1 hd
  obtain ⟨rfl, hA, hB, -, hlen, -⟩ :=
    double_refines_stepwise rfl rfl (by decide) (by decide) hok
  exact ⟨d', hok, hA, hB, hlen⟩

/-! ### With `MEOW_FORCE_GREEDY` -/

/-- The first largest logit of a row. -/
def firstLargest (row : List Int) : Int :=
  (row.zipIdx.foldl (fun best e => if best.1 < e.1 then e else best) (row.headD 0, 0)).2

instance : LogitRow (List Int) := ⟨firstLargest⟩

/-- A sampler that draws the first of the two tokens there are, where the second is likelier. -/
def unlikelySampler : Sampler (List Int) Unit 1 := fun _ _ => (some fun _ => 0, ())

def unlikelyLane : Lane (List Int) Unit 1 :=
  { ctx := { nBatch := 2048 }, sampler := (), dbuf := fun _ => [] }

def greedyEngine : EngineConfig := { doubleEngine with forceGreedy := true }

/-- **The single-batch loop decodes the likelier token**, and its second call is shown that; the
double-buffered loop shows the token that was drawn. -/
theorem greedy_not_refined : ∃ d',
    generateWindowsDoubleTok greedyEngine (fun _ => [0, 1]) allWell allWell unlikelySampler
      unlikelySampler (fun _ => [5]) (fun _ => [6, 8]) ⟨unlikelyLane, unlikelyLane, true, 0⟩
        = .ok (2, d') ∧
      ¬ CallsOfStepwise greedyEngine (fun _ => [0, 1]) unlikelySampler (fun _ => [5]) ()
        d'.a.calls := by
  have hdouble : (generateWindowsDoubleTok greedyEngine (fun _ => [0, 1]) allWell allWell
      unlikelySampler unlikelySampler (fun _ => [5]) (fun _ => [6, 8])
      ⟨unlikelyLane, unlikelyLane, true, 0⟩).toOption.map
        (fun r => (r.1, r.2.a.calls[1]?.map fun c => c.ctx 0)) = some (2, some [5, 0]) := by
    decide +kernel
  have hsingle : (generateWindowsStepwiseTok greedyEngine (fun _ => [0, 1]) allWell
      unlikelySampler (fun _ => [5]) unlikelyLane).toOption.map
        (fun r => r.2.calls[1]?.map fun c => c.ctx 0) = some (some [5, 1]) := by
    decide +kernel
  obtain ⟨⟨n, d'⟩, hd, hshown⟩ := Option.map_eq_some_iff.1 hdouble
  obtain ⟨rfl, hshown⟩ := Prod.mk.inj hshown
  refine ⟨d', Fallible.toOption_eq_some.1 hd, ?_⟩
  intro h
  obtain ⟨⟨k, l'⟩, hl, hother⟩ := Option.map_eq_some_iff.1 hsingle
  have hcalls := (h allWell unlikelyLane rfl rfl).1 k l' (Fallible.toOption_eq_some.1 hl)
  rw [← hcalls] at hshown
  rw [hother] at hshown
  simp at hshown

end Engine
