import SuprMeow.Engine.Prompts

/-!
# The single-batch loop

`generate_windows_stepwise_tok`: the prompts are decoded, and then for every step the logits are
read (on the device where that works, else from the host copy), the sampler draws a token for
every stream, and the tokens are decoded.

* `Stepwise.Inv` — before step `i` the lane has caught up with `i` calls and its logits can be
  read;
* `stepwise_calls` — without `MEOW_FORCE_GREEDY`, a call that returns has made the calls of the
  window;
* `stepwise_returns` — it returns if the calls of llama succeed and the sampler does.
-/

set_option autoImplicit false

namespace Engine

variable {V σ : Type} {S : Nat}

structure EngineConfig where
  slotsPerDevice : Nat
  windowTokens : Nat := 256
  ctxPerSlot : Nat
  prefixPrefill : Bool := false
  splitModel : Bool := false
  refreshSplitContext : Bool := false
  doubleBuffer : Bool := false
  /-- `POW_GPU_DEVICE_LOGITS` is not set to 0. -/
  gpuDeviceLogits : Bool := true
  /-- `MEOW_SPLIT_DEVICE_LOGITS` is set to 1. -/
  splitDeviceLogits : Bool := false
  /-- `MEOW_COMPARE_DEVICE_LOGITS` is set to 1. -/
  compareDevice : Bool := false
  /-- `MEOW_FORCE_GREEDY` begins with 1; only the single-batch loop reads it. -/
  forceGreedy : Bool := false

/-- Rows of logits: the id the loop of `MEOW_FORCE_GREEDY` picks of one, the first of the largest
logits. -/
class LogitRow (V : Type) where
  argmax : V → Int

def EngineConfig.wantDevLogits (cfg : EngineConfig) : Bool :=
  if cfg.splitModel then cfg.splitDeviceLogits else cfg.gpuDeviceLogits

/-- The locals of the loop. -/
structure Stepwise (V σ : Type) (S : Nat) where
  lane : Lane V σ S
  ctxv : Fin S → List Int
  lastRow : Nat → Option Nat
  devMode : Bool := false

namespace Stepwise

/-- The device rows, where they can be read. -/
def deviceLogits (cfg : EngineConfig) (ans : Answers) (i : Nat) (s : Stepwise V σ S) :
    Option (Fin S → V) :=
  if cfg.wantDevLogits ∧ 0 < i ∧ ans.device s.lane.clock ∧
      (s.devMode ∨ ans.isDevicePtr s.lane.clock) then s.lane.ctx.deviceRows S
  else none

/-- The host rows: those of the prompt pass at step 0, if it saved them. -/
def hostLogits (ans : Answers) (promptLogits : Option (Nat → V)) (i : Nat)
    (s : Stepwise V σ S) : Except (Failure (Lane V σ S)) ((Fin S → V) × Lane V σ S) :=
  match i, promptLogits with
  | 0, some saved => .ok (fun t => saved t, s.lane)
  | _, _ => s.lane.hostRows ans s.lastRow

/-- With `MEOW_COMPARE_DEVICE_LOGITS` every device row is compared with its host row. -/
def compareRows [DecidableEq V] (cfg : EngineConfig) (ans : Answers) (i : Nat)
    (rows : Fin S → V) (lastRow : Nat → Option Nat) (l : Lane V σ S) :
    Except (Failure (Lane V σ S)) (Lane V σ S) :=
  if cfg.compareDevice then
    if ans.copy l.clock then
      match (List.finRange S).find? fun t : Fin S => ! ans.hostRow l.clock ||
          (lastRow t).bind l.ctx.getLogitsIth ≠ some (rows t) with
      | none => .ok l.tick
      | some t => .error
        { error := "raw device logits differ from mapped host row at step " ++ toString i ++
            " row " ++ toString t.val
          left := l.tick }
    else .error { error := "device/host comparison copy failed", left := l.tick }
  else .ok l

/-- The logits of step `i`. -/
def readLogits [DecidableEq V] (cfg : EngineConfig) (ans : Answers)
    (promptLogits : Option (Nat → V)) (i : Nat) (s : Stepwise V σ S) :
    Except (Failure (Lane V σ S)) ((Fin S → V) × Stepwise V σ S) :=
  match s.deviceLogits cfg ans i with
  | some rows => do
    let l := if s.devMode then s.lane.tick else s.lane.tick.setSkip !cfg.compareDevice
    let l ← compareRows cfg ans i rows s.lastRow l
    return (rows, { s with lane := l, devMode := true })
  | none =>
    if s.devMode then
      .error { error := "device logits vanished mid-window", left := s.lane.tick.setSkip false }
    else do
      let (rows, l) ← hostLogits ans promptLogits i { s with lane := s.lane.tick }
      return (rows, { s with lane := l })

/-- The host copy is switched on again on most ways out. -/
def restore (s : Stepwise V σ S) (e : Failure (Lane V σ S)) : Failure (Lane V σ S) :=
  { e with left := if s.devMode then e.left.setSkip false else e.left }

/-- The tokens that are decoded: with `MEOW_FORCE_GREEDY` those of the largest logits, where the
rows are on the host, whatever the sampler drew. -/
def override [LogitRow V] (cfg : EngineConfig) (s : Stepwise V σ S) (rows : Fin S → V)
    (chosen : Fin S → Int) : Fin S → Int :=
  if cfg.forceGreedy && !s.devMode then fun t => LogitRow.argmax (rows t) else chosen

/-- The sampler draws, and what it drew is decoded.  A stream the sampler aborts ends the call
without `restore`. -/
def drawAndDecode [LogitRow V] (cfg : EngineConfig) (model : History → V) (ans : Answers)
    (step : Sampler V σ S) (toks : Fin S → List Int) (i : Nat) (rows : Fin S → V)
    (s : Stepwise V σ S) : Except (Failure (Lane V σ S)) (Stepwise V σ S) := do
  let (drawn, l) ← (s.lane.sample step s.ctxv rows).mapError s.restore
  let chosen := s.override cfg rows drawn
  let ctxv ← l.push s.ctxv chosen
  let l ← (l.decode model ans "decode failed mid-window" (stepBatch toks chosen i)).mapError
    s.restore
  return { s with lane := l, ctxv, lastRow := some }

/-- Step `i` of the loop. -/
def step [DecidableEq V] [LogitRow V] (cfg : EngineConfig) (model : History → V) (ans : Answers)
    (sampler : Sampler V σ S) (toks : Fin S → List Int) (promptLogits : Option (Nat → V))
    (i : Nat) (s : Stepwise V σ S) : Except (Failure (Lane V σ S)) (Stepwise V σ S) := do
  let (rows, s) ← readLogits cfg ans promptLogits i s
  drawAndDecode cfg model ans sampler toks i rows s

end Stepwise

/-- `used_stepwise` is set and the memory cleared. -/
def Lane.clear (l : Lane V σ S) : Lane V σ S :=
  { l with usedStepwise := true, ctx := l.ctx.memoryClear }

/-- A split model gets a new context for every call but the first. -/
def refreshContext (cfg : EngineConfig) (ans : Answers) (l : Lane V σ S) :
    Except (Failure (Lane V σ S)) (Lane V σ S) :=
  if cfg.splitModel ∧ cfg.refreshSplitContext ∧ l.usedStepwise then
    if ans.init l.clock then .ok { l.tick with ctx := { nBatch := l.ctx.nBatch } }
    else .error { error := "failed to recreate split context", left := l.tick }
  else .ok l

/-- The prompt pass: `prompt_logits`, `last_row` and the lane. -/
def promptPass [Inhabited V] (cfg : EngineConfig) (model : History → V) (ans : Answers)
    (toks : Fin S → List Int) (h : 0 < S) (l : Lane V σ S) :
    Except (Failure (Lane V σ S)) (Option (Nat → V) × (Nat → Option Nat) × Lane V σ S) :=
  if cfg.prefixPrefill then do
    let (saved, l) ← prefixPass model ans toks h l
    return (some saved, fun _ => none, l)
  else do
    let l ← l.decode model ans "prompt decode failed" (promptBatch toks)
    return (none, lastRow (promptBatch toks), l)

/-- `InferenceEngine::generate_windows_stepwise_tok`, with the number of windows it returns. -/
def generateWindowsStepwiseTok [Inhabited V] [DecidableEq V] [LogitRow V] (cfg : EngineConfig)
    (model : History → V) (ans : Answers) (step : Sampler V σ S) (toks : Fin S → List Int)
    (l : Lane V σ S) : Except (Failure (Lane V σ S)) (Nat × Lane V σ S) :=
  let l := l.start
  if h : 0 < S ∧ S ≤ cfg.slotsPerDevice then
    if ∃ s, toks s = [] then .error { error := "empty prompt", left := l }
    else if ∃ s, cfg.ctxPerSlot < (toks s).length + cfg.windowTokens then
      .error
        { error := "prompt plus mining window exceeds per-sequence context capacity", left := l }
    else do
      let l ← refreshContext cfg ans l
      let (promptLogits, lastRow, l) ← promptPass cfg model ans toks h.1 l.clear
      let s ← Fallible.loop (Stepwise.step cfg model ans step toks promptLogits) cfg.windowTokens
        { lane := l, ctxv := toks, lastRow }
      return (S, if s.devMode then s.lane.setSkip false else s.lane)
  else .error { error := "bad stream count", left := l }

/-! ## One step -/

theorem mapError_ok {ε ε' α : Type} {f : ε → ε'} {x : Except ε α} {a : α} :
    x.mapError f = .ok a ↔ x = .ok a := by
  cases x with
  | error e => exact ⟨nofun, nofun⟩
  | ok b => exact Iff.of_eq (by simp [Except.mapError])

namespace Stepwise

variable [DecidableEq V] {cfg : EngineConfig} {model : History → V} {ans : Answers}
  {sampler : Sampler V σ S} {toks : Fin S → List Int} {st : σ} {pre : List (List BatchRow)}
  {promptLogits : Option (Nat → V)} {i : Nat} {s s' : Stepwise V σ S} {rows : Fin S → V}

/-- Where step 0 finds the logits of a prompt. -/
def promptRow (promptLogits : Option (Nat → V)) (lastRow : Nat → Option Nat)
    (c : LlamaContext V) (t : Nat) : Option V :=
  match promptLogits with
  | some saved => some (saved t)
  | none => (lastRow t).bind c.getLogitsIth

section Spec

variable (cfg model ans sampler toks st pre promptLogits)

/-- The invariant before step `i`. -/
structure Inv (i : Nat) (s : Stepwise V σ S) : Prop where
  caughtUp : s.lane.CaughtUp model sampler toks st pre i s.ctxv
  skip : s.lane.ctx.skipLogitsCopy = (s.devMode && !cfg.compareDevice)
  /-- Before the first step the logits are those the prompt pass saved, or its last rows. -/
  first : i = 0 → s.devMode = false ∧ ∀ t : Fin S,
    promptRow promptLogits s.lastRow s.lane.ctx t = some (model (toks t).zipIdx)
  later : 0 < i → s.lane.Fresh model ∧ s.lastRow = some
  /-- Device mode was entered on a pointer that was there. -/
  seen : s.devMode = true → cfg.wantDevLogits = true ∧ ∃ n ≤ s.lane.clock, ans.device n = true

/-- The state of step `i` with its logits read. -/
structure Read (i : Nat) (rows : Fin S → V) (s : Stepwise V σ S) : Prop where
  rows : rows = fun t => model (s.ctxv t).zipIdx
  caughtUp : s.lane.CaughtUp model sampler toks st pre i s.ctxv
  skip : s.lane.ctx.skipLogitsCopy = (s.devMode && !cfg.compareDevice)
  seen : s.devMode = true → cfg.wantDevLogits = true ∧ ∃ n ≤ s.lane.clock, ans.device n = true

end Spec

omit [DecidableEq V] in
/-- The streams are the prompts before the first step. -/
theorem Inv.prompts (h : Inv cfg model ans sampler toks st pre promptLogits 0 s) :
    s.ctxv = toks := by
  have hw := h.caughtUp.window
  unfold Window.after at hw
  exact (Window.mk.inj (Option.some.inj hw)).1.symm

omit [DecidableEq V] in
/-- The device rows are the logits of the streams. -/
theorem Inv.device (h : Inv cfg model ans sampler toks st pre promptLogits i s)
    (hd : s.deviceLogits cfg ans i = some rows) :
    rows = (fun t => model (s.ctxv t).zipIdx) ∧ 0 < i ∧ cfg.wantDevLogits = true ∧
      ans.device s.lane.clock = true := by
  unfold deviceLogits at hd
  split at hd
  · rename_i hc
    obtain ⟨hwant, hi, hdev, -⟩ := hc
    rw [(h.later hi).1.device] at hd
    cases hd
    exact ⟨funext fun t => by rw [h.caughtUp.cells t], hi, hwant, hdev⟩
  · cases hd

omit [DecidableEq V] in
/-- While the host rows are copied, they can be read and are the logits of the streams. -/
theorem Inv.readable (h : Inv cfg model ans sampler toks st pre promptLogits i s)
    (hskip : s.lane.ctx.skipLogitsCopy = false) (hi : 0 < i) (t : Fin S) :
    (s.lastRow t).bind s.lane.ctx.getLogitsIth = some (model (s.ctxv t).zipIdx) := by
  obtain ⟨hfresh, hrow⟩ := h.later hi
  rw [hrow, ← h.caughtUp.cells t]
  exact hfresh.host hskip t

omit [DecidableEq V] in
/-- So can those of the prompts, unless the prompt pass saved them. -/
theorem Inv.readable_all (h : Inv cfg model ans sampler toks st pre promptLogits i s)
    (hskip : s.lane.ctx.skipLogitsCopy = false)
    (hsaved : ∀ saved, i = 0 → promptLogits = some saved → False) (t : Fin S) :
    (s.lastRow t).bind s.lane.ctx.getLogitsIth = some (model (s.ctxv t).zipIdx) := by
  rcases Nat.eq_zero_or_pos i with rfl | hi
  · cases promptLogits with
    | some saved => exact (hsaved saved rfl rfl).elim
    | none => rw [h.prompts]; exact (h.first rfl).2 t
  · exact h.readable hskip hi t

omit [DecidableEq V] in
theorem Inv.host {l : Lane V σ S} (h : Inv cfg model ans sampler toks st pre promptLogits i s)
    (hm : s.devMode = false)
    (hh : hostLogits ans promptLogits i { s with lane := s.lane.tick } = .ok (rows, l)) :
    rows = (fun t => model (s.ctxv t).zipIdx) ∧
      (l = s.lane.tick ∨ l = s.lane.tick.tick) := by
  have hskip : s.lane.ctx.skipLogitsCopy = false := by rw [h.skip, hm]; rfl
  unfold hostLogits at hh
  split at hh
  · cases hh
    refine ⟨funext fun t => ?_, .inl rfl⟩
    rw [h.prompts]
    exact Option.some.inj ((h.first rfl).2 t)
  · rename_i hsaved
    obtain ⟨-, hrows, rfl⟩ := Lane.hostRows_eq_ok.1 hh
    refine ⟨funext fun t => Option.some.inj ?_, .inr rfl⟩
    rw [← hrows t]
    exact h.readable_all hskip hsaved t

omit [DecidableEq V] in
/-- Entering device mode changes a flag. -/
theorem Inv.enter (h : Inv cfg model ans sampler toks st pre promptLogits i s) {l : Lane V σ S}
    (hl : l = if s.devMode then s.lane.tick else s.lane.tick.setSkip !cfg.compareDevice) :
    l.CaughtUp model sampler toks st pre i s.ctxv ∧
      l.ctx.skipLogitsCopy = (!cfg.compareDevice) ∧ l.clock = s.lane.clock + 1 ∧
      ∀ row, l.ctx.getLogitsIth row = s.lane.ctx.getLogitsIth row := by
  subst hl
  split
  · rename_i hm
    refine ⟨h.caughtUp.congr rfl rfl rfl rfl rfl, ?_, rfl, fun _ => rfl⟩
    have := h.skip
    rwa [hm, Bool.true_and] at this
  · exact ⟨h.caughtUp.congr rfl rfl rfl rfl rfl, rfl, rfl, fun _ => rfl⟩

theorem compareRows_ok {lastRow : Nat → Option Nat} {l l' : Lane V σ S}
    (h : compareRows cfg ans i rows lastRow l = .ok l') : l' = l ∨ l' = l.tick := by
  unfold compareRows at h
  split at h
  · split at h
    · split at h
      · cases h; exact .inr rfl
      · cases h
    · cases h
  · cases h; exact .inl rfl

/-- The host rows do not differ, so nothing is found. -/
theorem compareRows_succeeds (i : Nat) (lastRow : Nat → Option Nat) (l : Lane V σ S)
    (hcopy : ∀ n, ans.copy n = true) (hhost : ∀ n, ans.hostRow n = true)
    (h : cfg.compareDevice = true →
      ∀ t : Fin S, (lastRow t).bind l.ctx.getLogitsIth = some (rows t)) :
    ∃ l', compareRows cfg ans i rows lastRow l = .ok l' := by
  unfold compareRows
  split
  · rename_i hc
    rw [if_pos (hcopy _), List.find?_eq_none.2 fun t _ => by simp [hhost, h hc t]]
    exact ⟨_, rfl⟩
  · exact ⟨_, rfl⟩

/-- **What is read at a step**: the logits of the streams. -/
theorem Inv.readLogits (h : Inv cfg model ans sampler toks st pre promptLogits i s)
    (hr : readLogits cfg ans promptLogits i s = .ok (rows, s')) :
    Read cfg model ans sampler toks st pre i rows s' := by
  unfold Stepwise.readLogits at hr
  split at hr
  · rename_i rows' hd
    obtain ⟨hrows, -, hwant, hdev⟩ := h.device hd
    obtain ⟨l, hc, hr⟩ := Fallible.seq_ok.1 hr
    cases hr
    obtain ⟨hup, hskip, hclock, -⟩ := h.enter rfl
    refine ⟨hrows, ?_, ?_, fun _ => ⟨hwant, s.lane.clock, ?_, hdev⟩⟩
    · rcases compareRows_ok hc with rfl | rfl
      · exact hup
      · exact hup.congr rfl rfl rfl rfl rfl
    · rcases compareRows_ok hc with rfl | rfl <;> exact hskip
    · change s.lane.clock ≤ l.clock
      rcases compareRows_ok hc with rfl | rfl
      · omega
      · exact Nat.le_succ_of_le (by omega)
  · split at hr
    · cases hr
    · rename_i hm
      have hm := Bool.eq_false_iff.2 hm
      obtain ⟨⟨rows', l⟩, hh, hr⟩ := Fallible.seq_ok.1 hr
      cases hr
      obtain ⟨hrows, hl⟩ := h.host hm hh
      refine ⟨hrows, ?_, ?_, fun hdev => ?_⟩
      · rcases hl with rfl | rfl <;> exact h.caughtUp.congr rfl rfl rfl rfl rfl
      · rcases hl with rfl | rfl <;> exact h.skip
      · rw [show s.devMode = false from hm] at hdev
        cases hdev

omit [DecidableEq V] in
theorem override_of_off [LogitRow V] (hgreedy : cfg.forceGreedy = false) (chosen : Fin S → Int) :
    s.override cfg rows chosen = chosen := by
  simp [override, hgreedy]

omit [DecidableEq V] in
/-- **Drawing and decoding leads to the next step.** -/
theorem Read.drawAndDecode [LogitRow V] (hgreedy : cfg.forceGreedy = false)
    (h : Read cfg model ans sampler toks st pre i rows s)
    (hd : drawAndDecode cfg model ans sampler toks i rows s = .ok s') :
    Inv cfg model ans sampler toks st pre promptLogits (i + 1) s' := by
  obtain ⟨⟨chosen, l⟩, hs, hd⟩ := Fallible.seq_ok.1 hd
  dsimp only at hd
  rw [override_of_off hgreedy] at hd
  obtain ⟨ctxv, hp, hd⟩ := Fallible.seq_ok.1 hd
  obtain ⟨l', hdec, hd⟩ := Fallible.seq_ok.1 hd
  cases hd
  have hs := mapError_ok.1 hs
  have hdec := mapError_ok.1 hdec
  obtain ⟨hahead, hctx⟩ := h.caughtUp.sample h.rows hs hp
  obtain ⟨hup, hfresh⟩ := hahead.decode hdec
  have hclock : l.clock = s.lane.clock := by
    obtain ⟨_, -, rfl⟩ := Lane.sample_eq_ok.1 hs
    rfl
  refine ⟨hup, ?_, nofun, fun _ => ⟨hfresh, rfl⟩, fun hm => ?_⟩
  · exact (Lane.decode_kept hdec).skip.trans (hctx ▸ h.skip)
  · obtain ⟨hwant, n, hn, hdev⟩ := h.seen hm
    refine ⟨hwant, n, ?_, hdev⟩
    obtain ⟨-, rfl⟩ := Lane.decode_eq_ok.1 hdec
    exact Nat.le_succ_of_le (hclock ▸ hn)

/-- **One step of the loop.** -/
theorem Inv.step [LogitRow V] (hgreedy : cfg.forceGreedy = false)
    (h : Inv cfg model ans sampler toks st pre promptLogits i s)
    (hs : step cfg model ans sampler toks promptLogits i s = .ok s') :
    Inv cfg model ans sampler toks st pre promptLogits (i + 1) s' := by
  obtain ⟨⟨rows, u⟩, hr, hd⟩ := Fallible.seq_ok.1 hs
  exact (h.readLogits hr).drawAndDecode hgreedy hd

end Stepwise

/-! ## Answers that let a call return -/

/-- No call to llama fails, and a device pointer once there stays. -/
structure Answers.Healthy (ans : Answers) : Prop where
  decode : ∀ n, ans.decode n = true
  hostRow : ∀ n, ans.hostRow n = true
  copy : ∀ n, ans.copy n = true
  init : ∀ n, ans.init n = true
  device : ∀ n m, n ≤ m → ans.device n = true → ans.device m = true

namespace Stepwise

variable [DecidableEq V] {cfg : EngineConfig} {model : History → V} {ans : Answers}
  {sampler : Sampler V σ S} {toks : Fin S → List Int} {st : σ} {pre : List (List BatchRow)}
  {promptLogits : Option (Nat → V)} {i : Nat} {s s' : Stepwise V σ S} {rows : Fin S → V}

omit [DecidableEq V] in
/-- In device mode the rows are still there. -/
theorem Inv.device_stays (h : Inv cfg model ans sampler toks st pre promptLogits i s)
    (ha : ans.Healthy) (hm : s.devMode = true) : ∃ rows, s.deviceLogits cfg ans i = some rows := by
  obtain ⟨hwant, n, hn, hdev⟩ := h.seen hm
  have hi : 0 < i := by
    rcases Nat.eq_zero_or_pos i with rfl | hi
    · rw [(h.first rfl).1] at hm
      cases hm
    · exact hi
  unfold deviceLogits
  rw [if_pos ⟨hwant, hi, ha.device n _ hn hdev, .inl hm⟩]
  exact ⟨_, (h.later hi).1.device⟩

theorem Inv.can_read (h : Inv cfg model ans sampler toks st pre promptLogits i s)
    (ha : ans.Healthy) : ∃ r, Stepwise.readLogits cfg ans promptLogits i s = .ok r := by
  unfold Stepwise.readLogits
  split
  · rename_i rows hd
    obtain ⟨rfl, hi, -⟩ := h.device hd
    obtain ⟨-, hskip, -, hith⟩ := h.enter rfl
    have hread : cfg.compareDevice = true → ∀ t : Fin S, (s.lastRow t).bind
        s.lane.ctx.getLogitsIth = some (model (s.ctxv t).zipIdx) := by
      intro hc
      refine h.readable ?_ hi
      rw [h.skip, hc]
      exact Bool.and_false _
    obtain ⟨l, hl⟩ := compareRows_succeeds i s.lastRow
      (if s.devMode then s.lane.tick else s.lane.tick.setSkip !cfg.compareDevice)
      ha.copy ha.hostRow fun hc t => by
        rw [show (LlamaContext.getLogitsIth _) = s.lane.ctx.getLogitsIth from funext hith]
        exact hread hc t
    exact ⟨_, Fallible.seq_ok.2 ⟨l, hl, rfl⟩⟩
  · rename_i hd
    split
    · rename_i hm
      obtain ⟨rows, hrows⟩ := h.device_stays ha hm
      rw [hrows] at hd
      cases hd
    · rename_i hm
      have hskip : s.lane.ctx.skipLogitsCopy = false := by
        rw [h.skip, Bool.eq_false_iff.2 hm]; rfl
      have hhost : ∃ r, hostLogits ans promptLogits i { s with lane := s.lane.tick } = .ok r := by
        unfold hostLogits
        split
        · exact ⟨_, rfl⟩
        · rename_i hsaved
          exact ⟨(_, _), Lane.hostRows_eq_ok.2
            ⟨ha.hostRow _, h.readable_all hskip hsaved, rfl⟩⟩
      obtain ⟨r, hr⟩ := hhost
      exact ⟨_, Fallible.seq_ok.2 ⟨r, hr, rfl⟩⟩

/-- **A step the window has is a step the loop takes.** -/
theorem Inv.can_step [LogitRow V] (hgreedy : cfg.forceGreedy = false)
    (h : Inv cfg model ans sampler toks st pre promptLogits i s)
    (ha : ans.Healthy) {w : Window V σ S}
    (hw : Window.after model sampler toks st (i + 1) = some w) :
    ∃ s', Stepwise.step cfg model ans sampler toks promptLogits i s = .ok s' := by
  obtain ⟨⟨rows, u⟩, hr⟩ := h.can_read ha
  have hread := h.readLogits hr
  obtain ⟨chosen, l, ctxv, hs, hp⟩ := hread.caughtUp.can_sample hw
  obtain ⟨l', hd⟩ : ∃ l', l.decode model ans "decode failed mid-window"
      (stepBatch toks chosen i) = .ok l' := ⟨_, Lane.decode_eq_ok.2 ⟨ha.decode _, rfl⟩⟩
  have hdraw : drawAndDecode cfg model ans sampler toks i rows u =
      .ok { u with lane := l', ctxv, lastRow := some } := by
    refine Fallible.seq_ok.2 ⟨(chosen, l), mapError_ok.2 ?_, ?_⟩
    · rw [hread.rows]
      exact hs
    · dsimp only
      rw [override_of_off hgreedy]
      exact Fallible.seq_ok.2 ⟨ctxv, hp, Fallible.seq_ok.2 ⟨l', mapError_ok.2 hd, rfl⟩⟩
  exact ⟨_, Fallible.seq_ok.2 ⟨(rows, u), hr, hdraw⟩⟩

end Stepwise

/-! ## The whole call -/

variable [Inhabited V] {cfg : EngineConfig} {model : History → V} {ans : Answers}
  {step : Sampler V σ S} {toks : Fin S → List Int} {l l' : Lane V σ S}

/-- The state the loop starts in. -/
theorem promptPass_inv (step : Sampler V σ S) {hS : 0 < S} {promptLogits : Option (Nat → V)}
    {rows : Nat → Option Nat} (hcells : l.ctx.cells = fun _ => [])
    (hskip : l.ctx.skipLogitsCopy = false) (hcalls : l.calls = [] ∧ l.chosen = [])
    (hne : ∀ s, toks s ≠ [])
    (h : promptPass cfg model ans toks hS l = .ok (promptLogits, rows, l')) :
    Stepwise.Inv cfg model ans step toks l.sampler l'.decoded promptLogits 0
      { lane := l', ctxv := toks, lastRow := rows } := by
  have hspec : Prompted toks l l' ∧ ∀ t : Fin S,
      Stepwise.promptRow promptLogits rows l'.ctx t = some (model (toks t).zipIdx) := by
    unfold promptPass at h
    split at h
    · obtain ⟨⟨saved, l₁⟩, hp, h⟩ := Fallible.seq_ok.1 h
      cases h
      obtain ⟨hprompted, hsaved⟩ := prefixPass_spec hcells hskip hne hp
      exact ⟨hprompted, fun t => congrArg some (hsaved t)⟩
    · obtain ⟨l₁, hd, h⟩ := Fallible.seq_ok.1 h
      cases h
      exact promptBatch_spec hcells hskip hne hd
  obtain ⟨⟨hkept, hprompts⟩, hlogits⟩ := hspec
  refine ⟨⟨?_, hprompts, ?_⟩, hkept.skip.trans hskip, fun _ => ⟨rfl, hlogits⟩, nofun, nofun⟩
  · rw [hkept.sampler, hkept.calls, hkept.chosen, hcalls.1, hcalls.2]
    rfl
  · rw [hkept.chosen, hcalls.2]
    exact (List.append_nil _).symm

theorem promptPass_succeeds (cfg : EngineConfig) (model : History → V) (toks : Fin S → List Int)
    (hS : 0 < S) (hskip : l.ctx.skipLogitsCopy = false) (ha : ans.Healthy) :
    ∃ r, promptPass cfg model ans toks hS l = .ok r := by
  unfold promptPass
  split
  · obtain ⟨r, hr⟩ := prefixPass_succeeds model toks hS hskip ha.decode ha.hostRow
    exact ⟨_, Fallible.seq_ok.2 ⟨r, hr, rfl⟩⟩
  · exact ⟨_, Fallible.seq_ok.2 ⟨_, Lane.decode_eq_ok.2 ⟨ha.decode _, rfl⟩, rfl⟩⟩

omit [Inhabited V] in
theorem refreshContext_ok (h : refreshContext cfg ans l = .ok l') :
    l'.calls = l.calls ∧ l'.chosen = l.chosen ∧ l'.sampler = l.sampler ∧
      (l.ctx.skipLogitsCopy = false → l'.ctx.skipLogitsCopy = false) := by
  unfold refreshContext at h
  split at h
  · split at h
    · cases h; exact ⟨rfl, rfl, rfl, fun _ => rfl⟩
    · cases h
  · cases h; exact ⟨rfl, rfl, rfl, id⟩

variable [DecidableEq V]

/-- **A call that returns has made the calls of the window.** -/
theorem stepwise_calls [LogitRow V] {n : Nat} (hgreedy : cfg.forceGreedy = false)
    (hskip : l.ctx.skipLogitsCopy = false)
    (h : generateWindowsStepwiseTok cfg model ans step toks l = .ok (n, l')) :
    n = S ∧ ∃ w, Window.after model step toks l.sampler cfg.windowTokens = some w ∧
      l'.calls = w.calls ∧ l'.chosen = w.chosen := by
  unfold generateWindowsStepwiseTok at h
  split at h
  · split at h
    · cases h
    · rename_i hne
      have hne : ∀ s, toks s ≠ [] := fun s hs => hne ⟨s, hs⟩
      split at h
      · cases h
      · obtain ⟨l₁, href, h⟩ := Fallible.seq_ok.1 h
        obtain ⟨hcalls, hchosen, hsampler, hskip₁⟩ := refreshContext_ok href
        obtain ⟨⟨promptLogits, rows, l₂⟩, hp, h⟩ := Fallible.seq_ok.1 h
        obtain ⟨s, hloop, h⟩ := Fallible.seq_ok.1 h
        cases h
        have hinv := promptPass_inv step (l := l₁.clear) rfl (hskip₁ hskip) ⟨hcalls, hchosen⟩ hne
          (h := hp)
        have hend := Fallible.loop_ok hinv (fun i _ s s' hs => hs.step hgreedy) hloop
        refine ⟨rfl, _, hsampler ▸ hend.caughtUp.window, ?_⟩
        split <;> exact ⟨rfl, rfl⟩
  · cases h

/-- **It returns** if the calls of llama succeed and the sampler does. -/
theorem stepwise_returns [LogitRow V] {w : Window V σ S} (hgreedy : cfg.forceGreedy = false)
    (hS : 0 < S) (hslots : S ≤ cfg.slotsPerDevice)
    (hne : ∀ s, toks s ≠ []) (hfit : ∀ s, (toks s).length + cfg.windowTokens ≤ cfg.ctxPerSlot)
    (hskip : l.ctx.skipLogitsCopy = false) (ha : ans.Healthy)
    (hw : Window.after model step toks l.sampler cfg.windowTokens = some w) :
    ∃ l', generateWindowsStepwiseTok cfg model ans step toks l = .ok (S, l') := by
  obtain ⟨l₁, href⟩ : ∃ l₁, refreshContext cfg ans l.start = .ok l₁ := by
    unfold refreshContext
    rw [if_pos (ha.init _)]
    split <;> exact ⟨_, rfl⟩
  obtain ⟨hcalls, hchosen, hsampler, hskip₁⟩ := refreshContext_ok href
  obtain ⟨⟨promptLogits, rows, l₂⟩, hp⟩ := promptPass_succeeds cfg model toks hS
    (l := l₁.clear) (hskip₁ hskip) ha
  have hinv := promptPass_inv step (l := l₁.clear) rfl (hskip₁ hskip) ⟨hcalls, hchosen⟩ hne
    (h := hp)
  obtain ⟨s, hloop, -⟩ := Fallible.loop_succeeds (n := cfg.windowTokens) hinv fun i hi s hs => by
    obtain ⟨u, hu⟩ := Window.after_of_le (m := i + 1) hw hi
    obtain ⟨s', hs'⟩ := hs.can_step hgreedy ha (hsampler ▸ hu)
    exact ⟨s', hs', hs.step hgreedy hs'⟩
  refine ⟨if s.devMode then s.lane.setSkip false else s.lane, ?_⟩
  unfold generateWindowsStepwiseTok
  rw [dif_pos ⟨hS, hslots⟩, if_neg (fun ⟨s, hs⟩ => hne s hs),
    if_neg (fun ⟨s, hs⟩ => Nat.not_lt.2 (hfit s) hs)]
  exact Fallible.seq_ok.2 ⟨l₁, href, Fallible.seq_ok.2 ⟨_, hp, Fallible.seq_ok.2 ⟨s, hloop, rfl⟩⟩⟩

/-! ## The call as a start and a loop -/

/-- The checks made before anything is decoded. -/
structure Admitted (cfg : EngineConfig) (toks : Fin S → List Int) : Prop where
  count : 0 < S ∧ S ≤ cfg.slotsPerDevice
  nonempty : ∀ s, toks s ≠ []
  fits : ∀ s, (toks s).length + cfg.windowTokens ≤ cfg.ctxPerSlot

/-- Everything up to the loop. -/
def enterStepwise (cfg : EngineConfig) (model : History → V) (ans : Answers)
    (toks : Fin S → List Int) (h : 0 < S) (l : Lane V σ S) :
    Except (Failure (Lane V σ S)) (Option (Nat → V) × Stepwise V σ S) := do
  let l ← refreshContext cfg ans l
  let (promptLogits, lastRow, l) ← promptPass cfg model ans toks h l.clear
  return (promptLogits, { lane := l, ctxv := toks, lastRow })

theorem stepwise_refused [LogitRow V] (h : ¬ Admitted cfg toks) :
    ∃ error, generateWindowsStepwiseTok cfg model ans step toks l
      = .error { error, left := l.start } := by
  unfold generateWindowsStepwiseTok
  split
  · rename_i hcount
    split
    · exact ⟨_, rfl⟩
    · rename_i hne
      split
      · exact ⟨_, rfl⟩
      · rename_i hfit
        refine absurd ⟨hcount, ?_, ?_⟩ h
        · intro s hs
          exact hne ⟨s, hs⟩
        · intro s
          exact Nat.le_of_not_lt fun hs => hfit ⟨s, hs⟩
  · exact ⟨_, rfl⟩

theorem stepwise_admitted [LogitRow V] (h : Admitted cfg toks) :
    generateWindowsStepwiseTok cfg model ans step toks l = (do
      let (promptLogits, s) ← enterStepwise cfg model ans toks h.count.1 l.start
      let s ← Fallible.loop (Stepwise.step cfg model ans step toks promptLogits)
        cfg.windowTokens s
      return (S, if s.devMode then s.lane.setSkip false else s.lane)) := by
  unfold generateWindowsStepwiseTok enterStepwise
  rw [dif_pos h.count, if_neg (fun ⟨s, hs⟩ => h.nonempty s hs),
    if_neg (fun ⟨s, hs⟩ => Nat.not_lt.2 (h.fits s) hs)]
  cases refreshContext cfg ans l.start with
  | error e => rfl
  | ok l₁ =>
    cases hp : promptPass cfg model ans toks h.count.1 l₁.clear with
    | error e => simp only [bind, Except.bind, hp]
    | ok r => simp only [bind, Except.bind, hp, pure, Except.pure]

end Engine
