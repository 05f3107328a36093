import SuprMeow.Engine.Llama

/-!
# One batch of windows on one context

A window as it should be: each stream is its prompt and the tokens drawn so far, and every call
of the sampler is given the streams and the logits the model has for them.  Both loops keep a
context whose cells lag behind the streams by no more than the token drawn last.

* `Window.after` — the window after `k` calls of the sampler, with the calls made;
* `CaughtUp`, `Ahead` — a lane whose context holds all of it, or all but the last token;
* `Ahead.decode`, `CaughtUp.sample` — the two operations that lead from one to the other.
-/

set_option autoImplicit false

namespace Engine

variable {V σ : Type} {S : Nat}

/-- What a `StepSampler` is given: the streams and a row of logits for each. -/
structure Call (V : Type) (S : Nat) where
  ctx : Fin S → List Int
  logits : Fin S → V

/-- A deterministic `StepSampler` with a state of its own: `none` when it returns false, else
what it fills `out_tokens` with. -/
abbrev Sampler (V σ : Type) (S : Nat) := σ → Call V S → Option (Fin S → Int) × σ

/-! ## The windows -/

structure Window (V σ : Type) (S : Nat) where
  ctx : Fin S → List Int
  sampler : σ
  calls : List (Call V S) := []
  chosen : List (Fin S → Int) := []

namespace Window

/-- The call a window is due: the model knows a stream by its tokens at their own positions. -/
def call (model : History → V) (w : Window V σ S) : Call V S :=
  ⟨w.ctx, fun s => model (w.ctx s).zipIdx⟩

def push (ctx : Fin S → List Int) (out : Fin S → Int) : Fin S → List Int :=
  fun s => ctx s ++ [out s]

def advance (model : History → V) (step : Sampler V σ S) (w : Window V σ S) :
    Option (Window V σ S) :=
  match step w.sampler (w.call model) with
  | (none, _) => none
  | (some out, sampler) =>
    if ∀ s, 0 ≤ out s then
      some ⟨push w.ctx out, sampler, w.calls ++ [w.call model], w.chosen ++ [out]⟩
    else none

/-- The window after `k` calls, unless a call failed or refused a stream. -/
def after (model : History → V) (step : Sampler V σ S) (toks : Fin S → List Int) (st : σ) :
    Nat → Option (Window V σ S)
  | 0 => some { ctx := toks, sampler := st }
  | k + 1 => (after model step toks st k).bind (advance model step)

variable {model : History → V} {step : Sampler V σ S} {toks : Fin S → List Int} {st : σ}

theorem after_succ {k : Nat} {w : Window V σ S} :
    after model step toks st (k + 1) = some w ↔
      ∃ u, after model step toks st k = some u ∧ advance model step u = some w :=
  Option.bind_eq_some_iff

theorem advance_eq_some {w u : Window V σ S} : advance model step w = some u ↔
    ∃ out sampler, step w.sampler (w.call model) = (some out, sampler) ∧ (∀ s, 0 ≤ out s) ∧
      u = ⟨push w.ctx out, sampler, w.calls ++ [w.call model], w.chosen ++ [out]⟩ := by
  unfold advance
  split
  · rename_i hstep
    rw [hstep]
    exact ⟨nofun, by rintro ⟨_, _, h, _⟩; cases h⟩
  · rename_i out sampler hstep
    rw [hstep]
    split
    · rename_i hpos
      constructor
      · intro h; cases h; exact ⟨out, sampler, rfl, hpos, rfl⟩
      · rintro ⟨_, _, h, _, rfl⟩; cases h; rfl
    · rename_i hpos
      exact ⟨nofun, by rintro ⟨_, _, h, hout, _⟩; cases h; exact absurd hout hpos⟩

/-- What is counted in a window of `k` calls. -/
theorem after_lengths {k : Nat} {w : Window V σ S} (h : after model step toks st k = some w) :
    w.calls.length = k ∧ w.chosen.length = k ∧ ∀ s, (w.ctx s).length = (toks s).length + k := by
  induction k generalizing w with
  | zero => cases h; exact ⟨rfl, rfl, fun _ => rfl⟩
  | succ k ih =>
    obtain ⟨u, hu, hw⟩ := after_succ.1 h
    obtain ⟨out, sampler, -, -, rfl⟩ := advance_eq_some.1 hw
    obtain ⟨hcalls, hchosen, hctx⟩ := ih hu
    refine ⟨by simp [hcalls], by simp [hchosen], fun s => ?_⟩
    unfold push
    rw [List.length_append, hctx s, List.length_singleton, Nat.add_assoc]

/-- A window that got to `k` calls got to every earlier one. -/
theorem after_of_le {k m : Nat} {w : Window V σ S} (h : after model step toks st k = some w)
    (hm : m ≤ k) : ∃ u, after model step toks st m = some u := by
  induction k generalizing w with
  | zero => obtain rfl : m = 0 := by omega
            exact ⟨w, h⟩
  | succ k ih =>
    rcases Nat.eq_or_lt_of_le hm with rfl | hlt
    · exact ⟨w, h⟩
    · obtain ⟨u, hu, -⟩ := after_succ.1 h
      exact ih hu (by omega)

end Window

/-! ## Lanes -/

/-- What llama and CUDA answer to the calls made on one context, one after the other. -/
structure Answers where
  decode : Nat → Bool
  hostRow : Nat → Bool
  device : Nat → Bool
  isDevicePtr : Nat → Bool
  copy : Nat → Bool
  init : Nat → Bool
  alloc : Nat → Bool

/-- An instance's context with the sampler that is fed from it.  `calls`, `chosen` and `decoded`
only record what was done; a batch is in `decoded` whether or not it was refused. -/
structure Lane (V σ : Type) (S : Nat) where
  ctx : LlamaContext V
  sampler : σ
  /-- The private copy of the device logits. -/
  dbuf : Fin S → V
  usedStepwise : Bool := false
  clock : Nat := 0
  calls : List (Call V S) := []
  chosen : List (Fin S → Int) := []
  decoded : List (List BatchRow) := []

/-- How a call ends early: its result, its message and the state it leaves. -/
structure Failure (W : Type) where
  code : Int := -1
  error : String
  left : W

namespace Lane

def tick (l : Lane V σ S) : Lane V σ S := { l with clock := l.clock + 1 }

/-- The records begin with the call of the engine they are about. -/
def start (l : Lane V σ S) : Lane V σ S := { l with calls := [], chosen := [], decoded := [] }

def setSkip (l : Lane V σ S) (skip : Bool) : Lane V σ S :=
  { l with ctx := l.ctx.setSkipLogitsCopy skip }

/-- `llama_decode`, with the message of a refusal. -/
def decode (model : History → V) (ans : Answers) (error : String) (batch : List BatchRow)
    (l : Lane V σ S) : Except (Failure (Lane V σ S)) (Lane V σ S) :=
  if ans.decode l.clock then
    .ok { l.tick with ctx := l.ctx.decode model batch, decoded := l.decoded ++ [batch] }
  else .error { error, left := { l.tick with decoded := l.decoded ++ [batch] } }

/-- The host pointers `llama_get_logits_ith` gives for the rows of the streams. -/
def hostRows (ans : Answers) (rows : Nat → Option Nat) (l : Lane V σ S) :
    Except (Failure (Lane V σ S)) ((Fin S → V) × Lane V σ S) :=
  if h : ans.hostRow l.clock ∧ ∀ s : Fin S, ((rows s).bind l.ctx.getLogitsIth).isSome then
    .ok (fun s => ((rows s).bind l.ctx.getLogitsIth).get (h.2 s), l.tick)
  else .error { error := "no logits returned", left := l.tick }

/-- A call of the step sampler. -/
def sample (step : Sampler V σ S) (ctxv : Fin S → List Int) (logits : Fin S → V)
    (l : Lane V σ S) : Except (Failure (Lane V σ S)) ((Fin S → Int) × Lane V σ S) :=
  let call : Call V S := ⟨ctxv, logits⟩
  match step l.sampler call with
  | (some out, sampler) =>
    .ok (out, { l with sampler, calls := l.calls ++ [call], chosen := l.chosen ++ [out] })
  | (none, sampler) =>
    .error { error := "sampler step failed"
             left := { l with sampler, calls := l.calls ++ [call] } }

/-- The streams with the tokens drawn, unless a stream was aborted. -/
def push (ctxv : Fin S → List Int) (out : Fin S → Int) (l : Lane V σ S) :
    Except (Failure (Lane V σ S)) (Fin S → List Int) :=
  if ∀ s, 0 ≤ out s then .ok (fun s => ctxv s ++ [out s])
  else .error { error := "sampler aborted a window", left := l }

/-- The pending decode is waited for and its logits are copied to the private buffer. -/
def syncAndCopy (ans : Answers) (l : Lane V σ S) : Option (Lane V σ S) :=
  if ans.device l.clock then
    match l.ctx.deviceRows S with
    | none => none
    | some rows => if ans.copy l.clock then some { l.tick with dbuf := rows } else none
  else none

end Lane

/-- The batch that decodes the tokens `tok` of step `i`, one row a stream. -/
def stepBatch (toks : Fin S → List Int) (tok : Fin S → Int) (i : Nat) : List BatchRow :=
  (List.finRange S).map fun s => ⟨tok s, (toks s).length + i, s, true⟩

/-- The batches that decode the tokens drawn so far, each at its own step. -/
def stepBatches (toks : Fin S → List Int) (chosen : List (Fin S → Int)) : List (List BatchRow) :=
  chosen.zipIdx.map fun e => stepBatch toks e.1 e.2

/-! ## What a step batch does to a context -/

theorem stepBatch_settled (toks : Fin S → List Int) (tok : Fin S → Int) (i : Nat) :
    Settled (stepBatch toks tok i) := by
  unfold Settled stepBatch
  refine List.pairwise_map.2 ((List.nodup_finRange S).imp fun hne _ h => hne ?_)
  exact Fin.ext h.symm

theorem flagged_map_finRange {l : List (Fin S)} {f : Fin S → BatchRow} (k : Nat)
    (hf : ∀ s, (f s).logits = true ∧ (f s).seq = s) :
    flagged k (l.map f) = (l.zipIdx k).map fun e => (e.2, e.1.val) := by
  induction l generalizing k with
  | nil => rfl
  | cons s l ih =>
    rw [List.map_cons, flagged, if_pos (hf s).1, (hf s).2, ih (k + 1)]
    rfl

theorem flagged_stepBatch (toks : Fin S → List Int) (tok : Fin S → Int) (i : Nat) :
    flagged 0 (stepBatch toks tok i) = (List.finRange S).map fun s => (s.val, s.val) := by
  unfold stepBatch
  rw [flagged_map_finRange 0 fun s => ⟨rfl, rfl⟩]
  refine List.ext_getElem (by simp) fun j h1 h2 => ?_
  simp

theorem storeAll_stepBatch (cells : Nat → History) (toks : Fin S → List Int) (tok : Fin S → Int)
    (i : Nat) (s : Fin S) :
    storeAll cells (stepBatch toks tok i) s = cells s ++ [(tok s, (toks s).length + i)] := by
  have hown : (List.finRange S).filter (fun t : Fin S => decide (t.val = s.val)) = [s] := by
    rw [List.filter_congr (q := (· == s)) fun t _ => decide_eq_decide.2 Fin.ext_iff.symm,
      List.filter_beq,
      List.count_eq_one_of_mem (List.nodup_finRange S) (List.mem_finRange s)]
    rfl
  rw [storeAll_apply]
  unfold stepBatch
  rw [List.filter_map, Function.comp_def, hown]
  rfl

theorem deviceRows_of_map {c : LlamaContext V} {f : Fin S → V}
    (h : c.logitsDev = (List.finRange S).map f) : c.deviceRows S = some f := by
  unfold LlamaContext.deviceRows
  rw [dif_pos (by rw [h, List.length_map, List.length_finRange])]
  congr 1
  funext s
  simp [h]

namespace Lane

/-- The logits that can be read are those of what the sequences hold. -/
structure Fresh (model : History → V) (l : Lane V σ S) : Prop where
  device : l.ctx.deviceRows S = some fun s : Fin S => model (l.ctx.cells s)
  host : l.ctx.skipLogitsCopy = false → ∀ s : Fin S,
    l.ctx.getLogitsIth s = some (model (l.ctx.cells s))

section Spec

variable (model : History → V) (step : Sampler V σ S) (toks : Fin S → List Int) (st : σ)
  (pre : List (List BatchRow))

/-- `k` calls were made and the context holds all the streams; the batches `pre` decoded the
prompts. -/
structure CaughtUp (k : Nat) (ctxv : Fin S → List Int) (l : Lane V σ S) : Prop where
  window : Window.after model step toks st k = some ⟨ctxv, l.sampler, l.calls, l.chosen⟩
  cells : ∀ s : Fin S, l.ctx.cells s = (ctxv s).zipIdx
  decoded : l.decoded = pre ++ stepBatches toks l.chosen

/-- `k + 1` calls were made and the context holds all but the tokens `tok` of the last one. -/
structure Ahead (k : Nat) (ctxv : Fin S → List Int) (tok : Fin S → Int) (l : Lane V σ S) :
    Prop where
  window : Window.after model step toks st (k + 1) = some ⟨ctxv, l.sampler, l.calls, l.chosen⟩
  behind : ∃ ctx chosen, ctxv = Window.push ctx tok ∧ l.chosen = chosen ++ [tok] ∧
    (∀ s : Fin S, l.ctx.cells s = (ctx s).zipIdx) ∧ l.decoded = pre ++ stepBatches toks chosen

end Spec

variable {model : History → V} {step : Sampler V σ S} {toks : Fin S → List Int} {st : σ}
  {pre : List (List BatchRow)} {ans : Answers} {l l' : Lane V σ S} {k : Nat}
  {ctxv ctxv' : Fin S → List Int} {tok out : Fin S → Int}

/-! ## Inversion of the operations -/

theorem decode_eq_ok {error : String} {batch : List BatchRow} :
    l.decode model ans error batch = .ok l' ↔ ans.decode l.clock = true ∧
      l' = { l.tick with ctx := l.ctx.decode model batch, decoded := l.decoded ++ [batch] } := by
  unfold decode
  split
  · rename_i h
    simp only [h, true_and, Except.ok.injEq, eq_comm]
  · rename_i h
    simp [h]

theorem hostRows_eq_ok {rows : Nat → Option Nat} {r : Fin S → V} :
    l.hostRows ans rows = .ok (r, l') ↔ ans.hostRow l.clock = true ∧
      (∀ s : Fin S, (rows s).bind l.ctx.getLogitsIth = some (r s)) ∧ l' = l.tick := by
  unfold hostRows
  split
  · rename_i h
    simp only [Except.ok.injEq, Prod.mk.injEq, h.1, true_and, funext_iff]
    refine and_congr (forall_congr' fun s => ?_) eq_comm
    rw [Option.eq_some_iff_get_eq]
    exact ⟨fun hr => ⟨h.2 s, hr⟩, fun ⟨_, hr⟩ => hr⟩
  · rename_i h
    refine ⟨nofun, fun ⟨ha, hr, _⟩ => absurd ⟨ha, fun s => ?_⟩ h⟩
    rw [hr s]; rfl

theorem sample_eq_ok {logits : Fin S → V} :
    l.sample step ctxv logits = .ok (out, l') ↔
      ∃ sampler, step l.sampler ⟨ctxv, logits⟩ = (some out, sampler) ∧
        l' = { l with sampler, calls := l.calls ++ [⟨ctxv, logits⟩]
                      chosen := l.chosen ++ [out] } := by
  unfold sample
  dsimp only
  split
  · rename_i hstep
    rw [hstep]
    constructor
    · intro h; cases h; exact ⟨_, rfl, rfl⟩
    · rintro ⟨_, h, rfl⟩; cases h; rfl
  · rename_i hstep
    rw [hstep]
    exact ⟨nofun, by rintro ⟨_, h, _⟩; cases h⟩

theorem push_eq_ok : l.push ctxv out = .ok ctxv' ↔
    (∀ s, 0 ≤ out s) ∧ ctxv' = Window.push ctxv out := by
  unfold push
  split
  · rename_i h
    simp only [Except.ok.injEq, eq_comm (b := ctxv'), and_iff_right h]
    rfl
  · rename_i h
    exact ⟨nofun, fun h' => absurd h'.1 h⟩

theorem syncAndCopy_eq_some : l.syncAndCopy ans = some l' ↔ ans.device l.clock = true ∧
    ∃ rows, l.ctx.deviceRows S = some rows ∧ ans.copy l.clock = true ∧
      l' = { l.tick with dbuf := rows } := by
  unfold syncAndCopy
  split
  · rename_i hd
    split
    · rename_i hr
      exact ⟨nofun, by rintro ⟨-, _, h, -⟩; rw [hr] at h; cases h⟩
    · rename_i rows hr
      split
      · rename_i hc
        constructor
        · intro h; cases h; exact ⟨hd, rows, hr, hc, rfl⟩
        · rintro ⟨-, _, h, -, rfl⟩; rw [hr] at h; cases h; rfl
      · rename_i hc
        exact ⟨nofun, by rintro ⟨-, _, -, h, -⟩; exact absurd h hc⟩
  · rename_i hd
    exact ⟨nofun, fun h => absurd h.1 hd⟩

/-! ## From behind to caught up and back -/

theorem stepBatches_append (toks : Fin S → List Int) (chosen : List (Fin S → Int))
    (tok : Fin S → Int) : stepBatches toks (chosen ++ [tok])
      = stepBatches toks chosen ++ [stepBatch toks tok chosen.length] := by
  unfold stepBatches
  rw [List.zipIdx_append, List.map_append, Nat.zero_add]
  rfl

/-- After a step batch the logits are those of what the sequences hold. -/
theorem fresh_decode {error : String} {i : Nat}
    (h : l.decode model ans error (stepBatch toks tok i) = .ok l') : l'.Fresh model := by
  obtain ⟨-, rfl⟩ := decode_eq_ok.1 h
  constructor
  · refine deviceRows_of_map ?_
    dsimp only
    rw [decode_reads_device (stepBatch_settled toks tok i), flagged_stepBatch, List.map_map]
    rfl
  · intro hskip s
    refine decode_reads_host hskip (stepBatch_settled toks tok i) ?_
    rw [flagged_stepBatch]
    exact List.mem_map.2 ⟨s, List.mem_finRange s, rfl⟩

/-- What a lane has caught up with does not depend on flags and clocks. -/
theorem CaughtUp.congr (h : CaughtUp model step toks st pre k ctxv l)
    (hsampler : l'.sampler = l.sampler) (hcalls : l'.calls = l.calls)
    (hchosen : l'.chosen = l.chosen) (hcells : l'.ctx.cells = l.ctx.cells)
    (hdecoded : l'.decoded = l.decoded) : CaughtUp model step toks st pre k ctxv l' := by
  refine ⟨?_, fun s => ?_, ?_⟩
  · rw [hsampler, hcalls, hchosen]; exact h.window
  · rw [hcells]; exact h.cells s
  · rw [hdecoded, hchosen]; exact h.decoded

/-- **Decoding the last tokens catches up.** -/
theorem Ahead.decode {error : String} (h : Ahead model step toks st pre k ctxv tok l)
    (hd : l.decode model ans error (stepBatch toks tok k) = .ok l') :
    CaughtUp model step toks st pre (k + 1) ctxv l' ∧ l'.Fresh model := by
  refine ⟨?_, fresh_decode hd⟩
  obtain ⟨-, rfl⟩ := decode_eq_ok.1 hd
  obtain ⟨ctx, chosen, rfl, hchosen, hcells, hdecoded⟩ := h.behind
  obtain ⟨-, hlen, hctx⟩ := Window.after_lengths h.window
  have hk : chosen.length = k := by
    rw [hchosen, List.length_append, List.length_singleton] at hlen
    omega
  refine ⟨h.window, fun s => ?_, ?_⟩
  · have hpos : (ctx s).length = (toks s).length + k := by
      have := hctx s
      unfold Window.push at this
      rw [List.length_append, List.length_singleton] at this
      omega
    change storeAll l.ctx.cells (stepBatch toks tok k) s = _
    rw [storeAll_stepBatch, hcells s, Window.push, List.zipIdx_append, Nat.zero_add, hpos]
    rfl
  · change l.decoded ++ _ = pre ++ stepBatches toks l.chosen
    rw [hdecoded, hchosen, stepBatches_append, hk, List.append_assoc]

/-- **A call on the logits of the streams runs ahead**, and is the call the window was due. -/
theorem CaughtUp.sample {logits : Fin S → V} (h : CaughtUp model step toks st pre k ctxv l)
    (hlogits : logits = fun s => model (ctxv s).zipIdx)
    (hs : l.sample step ctxv logits = .ok (out, l')) (hp : l'.push ctxv out = .ok ctxv') :
    Ahead model step toks st pre k ctxv' out l' ∧ l'.ctx = l.ctx := by
  obtain ⟨sampler, hstep, rfl⟩ := sample_eq_ok.1 hs
  obtain ⟨hpos, rfl⟩ := push_eq_ok.1 hp
  subst hlogits
  refine ⟨⟨?_, ctxv, l.chosen, rfl, rfl, h.cells, h.decoded⟩, rfl⟩
  exact Window.after_succ.2 ⟨_, h.window,
    Window.advance_eq_some.2 ⟨out, sampler, hstep, hpos, rfl⟩⟩

/-- A window with a further call is one the lane can make. -/
theorem CaughtUp.can_sample {u : Window V σ S} (h : CaughtUp model step toks st pre k ctxv l)
    (hu : Window.after model step toks st (k + 1) = some u) :
    ∃ out l' ctxv', l.sample step ctxv (fun s => model (ctxv s).zipIdx) = .ok (out, l') ∧
      l'.push ctxv out = .ok ctxv' := by
  obtain ⟨w, hw, hu⟩ := Window.after_succ.1 hu
  rw [h.window] at hw
  cases hw
  obtain ⟨out, sampler, hstep, hpos, -⟩ := Window.advance_eq_some.1 hu
  exact ⟨out, _, _, sample_eq_ok.2 ⟨sampler, hstep, rfl⟩, push_eq_ok.2 ⟨hpos, rfl⟩⟩

end Lane

end Engine
