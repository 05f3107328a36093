import SuprMeow.Library.Runs
import SuprMeow.Poi.Miner
import SuprMeow.Poi.Sequences

/-!
# Windows of one sampler group

The mining loop as one group sees it: between batches `set_job` may come, a batch gives every
stream a prompt, and each call of a stream carries its prompt and the tokens drawn so far.  A
batch ends anywhere: another group refuses, a sort or a decode fails, or every stream has its
256 tokens.

* `windows_fresh` — when every stream enters its batches with nothing left over, every call
  samples at its own place in the batch and the window examined is the batch's, once;
* `window_stale` — after an aborted batch the next one samples at the old one's step.
-/

set_option autoImplicit false

namespace Poi

open Stratum (Bytes)

/-! ## The loop -/

/-- A batch: the prompts of the streams and the tokens drawn so far. -/
structure Batch where
  prompt : Nat → List Int
  tokens : Nat → List Int := fun _ => []

/-- One sampled call: its place in the batch, what it was sampled at, and the stream's tokens
after it. -/
structure Call where
  seq : Nat
  index : Nat
  prompt : List Int
  step : Nat
  registered : Option (List Int)
  tokens : List Int
  examined : List (List Int)
  deriving DecidableEq

/-- **What a call owes to its batch.** -/
structure Call.Fresh (c : Call) : Prop where
  step : c.step = c.index
  registered : c.registered = some c.prompt
  examined : c.examined = if c.tokens.length = windowSize then [c.tokens] else []

structure Group where
  miner : Miner
  batch : Option Batch := none
  calls : List Call := []

inductive GroupEvent where
  /-- `set_job`, between batches. -/
  | setJob (p : PoiJobParams) (o : JobOutcome)
  /-- A batch starts; the one before, if it is not complete, was aborted. -/
  | begin (prompt : Nat → List Int)
  | call (seq : Nat) (o : StepOutcome)

namespace Group

/-- The context of a stream's next call. -/
def context (b : Batch) (seq : Nat) : List Int := b.prompt seq ++ b.tokens seq

def step (nVocab : Nat) (g : Group) : GroupEvent → Option Group
  | .setJob p o => (g.miner.setJob p o).map fun r => { g with miner := r.1, batch := none }
  | .begin prompt => some { g with batch := some { prompt } }
  | .call seq o =>
    match g.batch with
    | none => none
    | some b =>
      if seq < g.miner.nStreams ∧ (b.tokens seq).length < windowSize then
        let r := g.miner.onLogits seq nVocab (context b seq) o
        let tokens := b.tokens seq ++ r.2.recorded.toList
        some {
          miner := r.1
          -- A refusal fails the step and with it the batch.
          batch :=
            if r.2.ret < 0 then none
            else some { b with tokens := Function.update b.tokens seq tokens }
          calls := match r.2.sampled with
            | some (step, registered) =>
              g.calls ++ [{ seq, index := (b.tokens seq).length, prompt := b.prompt seq, step,
                            registered, tokens, examined := r.2.examined }]
            | none => g.calls }
      else none

end Group

/-- A group of `nStreams` streams before its first job. -/
def groupMachine (nStreams nVocab : Nat) : Runs.Machine Group GroupEvent where
  init := { miner := { nStreams } }
  step := Group.step nVocab

/-- The state a stream is in suits a new window with this prompt: its row, if it has one, stands
at a window boundary, and the prompt is no longer than its last context. -/
def Miner.startsFresh (m : Miner) (seq : Nat) (prompt : List Int) : Bool :=
  (match m.coord.getRow seq with
    | some row => (m.coord.row row).steps % windowSize == 0
    | none => true) && m.startsWindow seq prompt

/-- Streams enter their batches with nothing left over, and no window ends in a cooldown. -/
def EntersFresh (g : Group) : GroupEvent → Prop
  | .call seq o => ∀ b, g.batch = some b →
      (b.tokens seq = [] → g.miner.startsFresh seq (b.prompt seq) = true) ∧
      ((b.tokens seq).length = windowSize - 1 → o.cooling = false)
  | _ => True

instance : ∀ g e, Decidable (EntersFresh g e)
  | _, .setJob .. | _, .begin _ => inferInstanceAs (Decidable True)
  | g, .call seq o =>
    match h : g.batch with
    | none => isTrue fun b hb => by rw [h] at hb; cases hb
    | some b =>
      decidable_of_iff ((b.tokens seq = [] → g.miner.startsFresh seq (b.prompt seq) = true) ∧
          ((b.tokens seq).length = windowSize - 1 → o.cooling = false))
        ⟨fun hc b' hb => by rw [h] at hb; cases hb; exact hc, fun hc => hc b h⟩

/-! ## What each stage leaves alone -/

namespace Miner

theorem receive_eq (m : Miner) (pr : Proof) : ∃ nonce low pending hist, m.receive pr =
    { m with nonceSeq := nonce, droppedLowcred := low, pendingQ := pending, hist } := by
  unfold receive
  split
  · exact ⟨_, _, _, _, rfl⟩
  · dsimp only
    split
    · exact ⟨_, _, _, _, rfl⟩
    · split <;> exact ⟨_, _, _, _, rfl⟩

theorem drain_eq (m : Miner) (recv : Bool) : ∃ egress nonce low pending hist, m.drain recv =
    { m with egress, nonceSeq := nonce, droppedLowcred := low, pendingQ := pending, hist } := by
  unfold drain
  split
  · obtain ⟨n, l, p, h, he⟩ := receive_eq _ _
    exact ⟨_, n, l, p, h, he⟩
  · exact ⟨_, _, _, _, _, rfl⟩

theorem conclude_eq (m : Miner) (seq : Nat) (o : CheckOutcome) : ∃ egress hist,
    (m.conclude seq o).1 = { m with egress, hist } := by
  unfold conclude
  split
  · exact ⟨_, _, rfl⟩
  · exact ⟨_, _, rfl⟩
  · split
    · exact ⟨_, _, rfl⟩
    · split <;> exact ⟨_, _, rfl⟩

theorem checkWindow_eq (m : Miner) (seq : Nat) (o : StepOutcome) : ∃ egress hist,
    (m.checkWindow seq o).1 =
      { m with coord := (m.coord.checkSolutions seq o.cooling).1, egress, hist } := by
  unfold checkWindow
  dsimp only
  split
  · exact ⟨_, _, rfl⟩
  · exact conclude_eq { m with coord := (m.coord.checkSolutions seq o.cooling).1 } seq o.check

/-- What `check_solutions` examines, the miner reports. -/
theorem checkWindow_examined (m : Miner) (seq : Nat) (o : StepOutcome) :
    (m.checkWindow seq o).2.1 = (m.coord.checkSolutions seq o.cooling).2.toList := by
  unfold checkWindow
  dsimp only
  split <;> rename_i h <;> rw [h] <;> rfl

/-- The invariant of a miner. -/
structure Sound (m : Miner) : Prop where
  coord : m.coord.Sound m.nStreams

/-- Two states of a miner that one sequence cannot tell apart. -/
structure Same (m m' : Miner) (t : Nat) : Prop where
  view : m'.coord.view t = m.coord.view t
  lastCtx : m'.lastCtx t = m.lastCtx t
  promptLen : m'.promptLen t = m.promptLen t

theorem Same.refl (m : Miner) (t : Nat) : Same m m t := ⟨rfl, rfl, rfl⟩

theorem Same.trans {m₁ m₂ m₃ : Miner} {t : Nat} (h₁ : Same m₁ m₂ t) (h₂ : Same m₂ m₃ t) :
    Same m₁ m₃ t :=
  ⟨h₂.view.trans h₁.view, h₂.lastCtx.trans h₁.lastCtx, h₂.promptLen.trans h₁.promptLen⟩

/-- A step of sequence `seq`: the miner stays sound and the others see nothing. -/
structure Local (m m' : Miner) (seq : Nat) : Prop where
  sound : Sound m'
  streams : m'.nStreams = m.nStreams
  ready : m'.ready = m.ready
  same : ∀ t, t ≠ seq → Same m m' t

theorem Local.trans {m₁ m₂ m₃ : Miner} {seq : Nat} (h₁ : Local m₁ m₂ seq)
    (h₂ : Local m₂ m₃ seq) : Local m₁ m₃ seq :=
  ⟨h₂.sound, h₂.streams.trans h₁.streams, h₂.ready.trans h₁.ready,
    fun t ht => (h₁.same t ht).trans (h₂.same t ht)⟩

theorem Sound.local_refl {m : Miner} (h : Sound m) (seq : Nat) : Local m m seq :=
  ⟨h, rfl, rfl, fun t _ => Same.refl m t⟩

theorem Sound.drain_local {m : Miner} (h : Sound m) (recv : Bool) (seq : Nat) :
    Local m (m.drain recv) seq := by
  obtain ⟨e, n, l, p, hi, he⟩ := drain_eq m recv
  rw [he]
  exact ⟨⟨h.coord⟩, rfl, rfl, fun t _ => ⟨rfl, rfl, rfl⟩⟩

theorem Sound.check_local {m : Miner} (h : Sound m) (seq : Nat) (o : StepOutcome) :
    Local m (m.checkWindow seq o).1 seq := by
  obtain ⟨e, hi, he⟩ := checkWindow_eq m seq o
  obtain ⟨hs, hv⟩ := h.coord.check seq o.cooling
  rw [he]
  exact ⟨⟨hs⟩, rfl, rfl, fun t _ => ⟨hv t, rfl, rfl⟩⟩

theorem Sound.retire_local {m : Miner} (h : Sound m) (seq : Nat) : Local m (m.retire seq) seq :=
  ⟨⟨h.coord.cleanup seq⟩, rfl, rfl,
    fun _ ht => ⟨h.coord.view_cleanup_ne ht, Function.update_of_ne ht _ _, rfl⟩⟩

theorem Sound.begin_local {m : Miner} (h : Sound m) (seq : Nat) :
    Local m (m.beginSample seq) seq :=
  ⟨⟨h.coord.begin seq⟩, rfl, rfl, fun _ ht => ⟨h.coord.view_begin_ne ht, rfl, rfl⟩⟩

theorem Sound.record_local {m : Miner} (h : Sound m) (seq : Nat) (token : Int) :
    Local m (m.recordStep seq token) seq :=
  ⟨⟨h.coord.record seq token⟩, rfl, rfl,
    fun _ ht => ⟨h.coord.view_record_ne ht, rfl, rfl⟩⟩

theorem Sound.start_local {m : Miner} (h : Sound m) {seq : Nat} (hseq : seq < m.nStreams)
    (context : List Int) : Local m (m.startWindow seq context) seq := by
  refine ⟨⟨((h.coord.ensure hseq).register seq m.params).setPrompt seq context⟩, rfl, rfl,
    fun t ht => ⟨?_, rfl, Function.update_of_ne ht _ _⟩⟩
  exact (Coordinator.view_setPrompt_ne _ _ ht).trans
    ((Coordinator.view_register_ne _ _ ht).trans (h.coord.view_ensure_ne hseq ht))

theorem Sound.enter_local {m : Miner} (h : Sound m) {seq : Nat} (hseq : seq < m.nStreams)
    (context : List Int) : Local m (m.enter seq context) seq := by
  have hctx : ∀ {m' : Miner}, Local m m' seq →
      Local m { m' with lastCtx := Function.update m'.lastCtx seq (some context.length) } seq := by
    intro m' hl
    refine ⟨⟨hl.sound.coord⟩, hl.streams, hl.ready, fun t ht => ?_⟩
    obtain ⟨h1, h2, h3⟩ := hl.same t ht
    exact ⟨h1, (Function.update_of_ne ht _ _).trans h2, h3⟩
  unfold enter
  dsimp only
  split
  · exact hctx (h.start_local hseq context)
  · exact hctx (h.local_refl seq)

theorem Sound.accept_local {m : Miner} (h : Sound m) (seq : Nat) (token : Int) (steps : Nat)
    (sampled : Option (Nat × Option (List Int))) (o : StepOutcome) :
    Local m (m.accept seq token steps sampled o).1 seq := by
  have hr := h.record_local seq token
  unfold accept
  dsimp only
  split
  · exact hr.trans (hr.sound.drain_local o.recv seq)
  · have hc := hr.trans (hr.sound.check_local seq o)
    split
    · exact hc
    · have ht := hc.trans (hc.sound.retire_local seq)
      exact ht.trans (ht.sound.drain_local o.recv seq)

theorem Sound.sample_local {m : Miner} (h : Sound m) (seq nVocab : Nat) (context : List Int)
    (o : StepOutcome) : Local m (m.sample seq nVocab context o).1 seq := by
  have hb := h.begin_local seq
  unfold sample
  dsimp only
  split
  · split
    · exact hb.trans (hb.sound.retire_local seq)
    · exact hb.trans (hb.sound.accept_local seq _ _ _ o)
  · exact hb

/-- **A call of one sequence leaves the others alone.** -/
theorem Sound.onLogits_local {m : Miner} (h : Sound m) {seq : Nat} (hseq : seq < m.nStreams)
    (nVocab : Nat) (context : List Int) (o : StepOutcome) :
    Local m (m.onLogits seq nVocab context o).1 seq := by
  unfold onLogits
  split
  · exact h.local_refl seq
  · have he := h.enter_local hseq context
    exact he.trans (he.sound.sample_local seq nVocab context o)

end Miner

/-! ## A window in progress -/

theorem Row.window_boundary {r : Row} (hlen : r.chosen.length = windowSize)
    (h : r.steps % windowSize = 0) : r.window = r.chosen := by
  unfold Row.window
  refine List.ext_getElem (by simp [hlen]) fun i h₁ h₂ => ?_
  have hi : i < windowSize := hlen ▸ h₂
  rw [List.getElem_map, List.getElem_range, h, Nat.add_zero, Nat.mod_eq_of_lt hi]
  simp [List.getD_eq_getElem?_getD, List.getElem?_eq_getElem h₂]

theorem Row.record_steps {r : Row} {i : Nat} (token : Int) (h : r.steps % windowSize = i)
    (hi : i + 1 < windowSize) : (r.record token).steps % windowSize = i + 1 := by
  unfold Row.record
  unfold windowSize at *
  dsimp only
  omega

theorem Row.record_last {r : Row} (token : Int) (h : r.steps % windowSize = windowSize - 1) :
    (r.record token).steps % windowSize = 0 ∧ (r.record token).steps ≠ 0 := by
  unfold Row.record
  unfold windowSize at *
  dsimp only
  omega

theorem Row.record_take {r : Row} {i : Nat} (token : Int) (hlen : r.chosen.length = windowSize)
    (h : r.steps % windowSize = i) :
    (r.record token).chosen.take (i + 1) = r.chosen.take i ++ [token] := by
  have hi : i < r.chosen.length := by
    rw [hlen, ← h]; exact Nat.mod_lt _ (by decide)
  unfold Row.record
  dsimp only
  rw [h, List.take_add_one, List.take_set_of_le (Nat.le_refl i), List.getElem?_set_self hi]
  rfl

/-- Sequence `seq` is ready for the call after `tokens` of a batch with this prompt. -/
structure Ongoing (m : Miner) (seq : Nat) (prompt tokens : List Int) : Prop where
  row : ∃ r, (m.coord.view seq).row = some r ∧ r.steps % windowSize = tokens.length ∧
    r.chosen.take tokens.length = tokens
  params : (m.coord.view seq).params.isSome
  archive : (m.coord.view seq).archive = some (prompt ++ tokens)
  registered : tokens ≠ [] → (m.coord.view seq).promptTokens = some prompt
  promptLen : m.promptLen seq = prompt.length

theorem Ongoing.congr {m m' : Miner} {seq : Nat} {prompt tokens : List Int}
    (h : Ongoing m seq prompt tokens) (hv : m'.coord.view seq = m.coord.view seq)
    (hp : m'.promptLen seq = m.promptLen seq) : Ongoing m' seq prompt tokens :=
  ⟨hv ▸ h.row, hv ▸ h.params, hv ▸ h.archive, hv ▸ h.registered, hp ▸ h.promptLen⟩

theorem view_row (m : Miner) (seq : Nat) :
    (m.coord.view seq).row = (m.coord.getRow seq).map m.coord.row := rfl

theorem view_promptTokens (m : Miner) (seq : Nat) :
    m.coord.promptTokens seq = (m.coord.view seq).promptTokens := rfl

/-- The first call of a batch. -/
theorem ongoing_first {m : Miner} (hm : m.Sound) {seq : Nat} (hseq : seq < m.nStreams)
    {prompt : List Int} (hf : m.startsFresh seq prompt = true) :
    Ongoing (m.enter seq prompt) seq prompt [] := by
  unfold Miner.startsFresh at hf
  rw [Bool.and_eq_true] at hf
  obtain ⟨hrow, hstart⟩ := hf
  have hc : (m.enter seq prompt).coord.view seq =
      (((m.coord.view seq).ensure).register m.params).setPrompt prompt := by
    unfold Miner.enter
    rw [if_pos hstart]
    unfold Miner.startWindow
    dsimp only
    rw [Coordinator.view_setPrompt, Coordinator.view_register, hm.coord.view_ensure hseq]
  have hp : (m.enter seq prompt).promptLen seq = prompt.length := by
    unfold Miner.enter
    rw [if_pos hstart]
    exact Function.update_self _ _ _
  refine ⟨?_, ?_, ?_, fun h => absurd rfl h, hp⟩
  · rw [hc]
    refine ⟨(m.coord.view seq).row.getD {}, rfl, ?_, rfl⟩
    rw [view_row]
    cases hr : m.coord.getRow seq with
    | none => rfl
    | some row =>
      rw [hr] at hrow
      simpa using hrow
  · rw [hc]; rfl
  · rw [hc, List.append_nil]; rfl

/-- A later call of a batch starts no window. -/
theorem ongoing_next {m : Miner} {seq : Nat} {prompt tokens : List Int}
    (h : Ongoing m seq prompt tokens) (hne : tokens ≠ [])
    (hlast : m.lastCtx seq = some (prompt.length + tokens.length - 1)) :
    Ongoing (m.enter seq (prompt ++ tokens)) seq prompt tokens := by
  have hstart : m.startsWindow seq (prompt ++ tokens) = false := by
    have hpos := List.length_pos_iff.2 hne
    unfold Miner.startsWindow
    rw [hlast]
    simp only [List.length_append, decide_eq_false_iff_not]
    omega
  unfold Miner.enter
  rw [hstart]
  exact h.congr rfl rfl

/-- **A call samples at its own place, with the prompt registered.** -/
theorem ongoing_sample {m : Miner} (hm : m.Sound) {seq : Nat} {prompt tokens : List Int}
    (h : Ongoing m seq prompt tokens) :
    (m.coord.beginSample seq).2 = some tokens.length ∧
      Ongoing (m.beginSample seq) seq prompt tokens ∧
      ((m.beginSample seq).coord.view seq).promptTokens = some prompt := by
  obtain ⟨r, hr, hsteps, htake⟩ := h.row
  have hstep : (m.coord.view seq).step = tokens.length := by
    unfold View.step
    rw [hr]
    exact hsteps
  obtain ⟨h₁, h₂⟩ := hm.coord.view_begin (by rw [hr]; rfl) h.params
  have hv : (m.beginSample seq).coord.view seq = (m.coord.view seq).beginSample := h₂
  rw [hstep] at h₁
  have hreg : ((m.coord.view seq).beginSample).promptTokens = some prompt := by
    unfold View.beginSample
    rw [hstep]
    split
    · rename_i h0
      have hnil : tokens = [] := List.length_eq_zero_iff.1 h0
      simp [h.archive, hnil]
    · rename_i h0
      exact h.registered fun hnil => h0 (by rw [hnil]; rfl)
  have hrest : ((m.coord.view seq).beginSample).row = (m.coord.view seq).row ∧
      ((m.coord.view seq).beginSample).params = (m.coord.view seq).params ∧
      ((m.coord.view seq).beginSample).archive = (m.coord.view seq).archive := by
    unfold View.beginSample
    split <;> exact ⟨rfl, rfl, rfl⟩
  refine ⟨h₁, ⟨?_, ?_, ?_, fun _ => ?_, h.promptLen⟩, ?_⟩
  · rw [hv, hrest.1]; exact h.row
  · rw [hv, hrest.2.1]; exact h.params
  · rw [hv, hrest.2.2]; exact h.archive
  · rw [hv]; exact hreg
  · rw [hv]; exact hreg

theorem ongoing_record {m : Miner} (hm : m.Sound) {seq : Nat} {prompt tokens : List Int}
    (h : Ongoing m seq prompt tokens) (hreg : (m.coord.view seq).promptTokens = some prompt)
    (token : Int) (hlt : tokens.length + 1 < windowSize) :
    Ongoing (m.recordStep seq token) seq prompt (tokens ++ [token]) := by
  obtain ⟨r, hr, hsteps, htake⟩ := h.row
  have hlen : r.chosen.length = windowSize := by
    obtain ⟨row, -, rfl⟩ := Option.map_eq_some_iff.1 hr
    exact hm.coord.ring row
  have hv : (m.recordStep seq token).coord.view seq = (m.coord.view seq).record token :=
    hm.coord.view_record (by rw [hr]; rfl)
  refine ⟨?_, ?_, ?_, fun _ => ?_, h.promptLen⟩
  · rw [hv]
    refine ⟨r.record token, by simp [View.record, hr], ?_, ?_⟩
    · rw [List.length_append]
      exact Row.record_steps token hsteps hlt
    · rw [List.length_append]
      exact (Row.record_take token hlen hsteps).trans (by rw [htake])
  · rw [hv]; exact h.params
  · rw [hv]
    simp [View.record, h.archive]
  · rw [hv]; exact hreg

/-- **The check after the last call examines the batch's tokens.** -/
theorem ongoing_check {m : Miner} (hm : m.Sound) {seq : Nat} {prompt tokens : List Int}
    (h : Ongoing m seq prompt tokens) (token : Int) (hlast : tokens.length + 1 = windowSize)
    {o : StepOutcome} (hcool : o.cooling = false) :
    ((m.recordStep seq token).checkWindow seq o).2.1 = [tokens ++ [token]] := by
  obtain ⟨r, hr, hsteps, htake⟩ := h.row
  have hlen : r.chosen.length = windowSize := by
    obtain ⟨row, -, rfl⟩ := Option.map_eq_some_iff.1 hr
    exact hm.coord.ring row
  have hv : (m.recordStep seq token).coord.view seq = (m.coord.view seq).record token :=
    hm.coord.view_record (by rw [hr]; rfl)
  have hr' : ((m.recordStep seq token).coord.view seq).row = some (r.record token) := by
    rw [hv]; simp [View.record, hr]
  have hlen' : (r.record token).chosen.length = windowSize := by
    simp [Row.record, hlen]
  obtain ⟨hmod, hpos⟩ := Row.record_last token (r := r) (by omega)
  rw [Miner.checkWindow_examined, hcool,
    (hm.record_local seq token).sound.coord.check_boundary hr' (by rw [hv]; exact h.params)
      hpos hmod, Row.window_boundary hlen' hmod]
  have htake' := Row.record_take token hlen hsteps
  rw [htake, hlast, ← hlen', List.take_length] at htake'
  rw [htake']
  rfl

/-! ## `set_job` -/

theorem foldl_register_sound {n : Nat} (l : List Nat) (p : PowParams) {c : Coordinator PowParams}
    (h : c.Sound n) : (l.foldl (fun c sq => c.updatePowParamsForSequence sq p) c).Sound n := by
  induction l generalizing c with
  | nil => exact h
  | cons sq l ih => exact ih (h.register sq p)

theorem updateVdf_eq (m : Miner) (p : PoiJobParams) (vdfProof : Bytes) : ∃ hex tick parent proved,
    (m.updateVdf p vdfProof).1 =
      { m with vdfHex := hex, vdfTick := tick, parentHashHex := parent, provedHere := proved } := by
  unfold Miner.updateVdf
  split
  · split <;> exact ⟨_, _, _, _, rfl⟩
  · split
    · split <;> exact ⟨_, _, _, _, rfl⟩
    · exact ⟨_, _, _, _, rfl⟩

theorem Miner.Sound.setJob {m m' : Miner} {p : PoiJobParams} {o : JobOutcome} {ok : Bool}
    (h : m.Sound) (hj : m.setJob p o = some (m', ok)) : m'.Sound := by
  obtain ⟨hex, tick, parent, proved, hv⟩ :=
    updateVdf_eq { m with lastCtx := fun _ => none } p o.vdfProof
  unfold Miner.setJob at hj
  dsimp only at hj
  rw [hv] at hj
  split at hj
  · cases hj; exact ⟨h.coord⟩
  · split at hj
    · cases hj
    · split at hj
      · cases hj; exact ⟨h.coord⟩
      · split at hj
        · cases hj
          exact ⟨⟨h.coord.rows.congr rfl rfl, h.coord.held, h.coord.fits, h.coord.ring,
            h.coord.active⟩⟩
        · split at hj
          · cases hj
          · cases hj
            refine ⟨foldl_register_sound _ _ ?_⟩
            exact ⟨h.coord.rows.congr rfl rfl, h.coord.held, h.coord.fits, h.coord.ring, nofun⟩

/-! ## Runs -/

structure GroupInv (g : Group) : Prop where
  sound : g.miner.Sound
  ongoing : ∀ b, g.batch = some b → ∀ seq, seq < g.miner.nStreams → b.tokens seq ≠ [] →
    (b.tokens seq).length < windowSize → Ongoing g.miner seq (b.prompt seq) (b.tokens seq) ∧
      g.miner.lastCtx seq = some ((b.prompt seq).length + (b.tokens seq).length - 1)
  calls : ∀ c ∈ g.calls, c.Fresh

/-- What a call of a stream in step with its batch reports, and what it leaves. -/
structure Sampled (m : Miner) (seq : Nat) (prompt tokens : List Int) (r : Miner × Report) :
    Prop where
  report : ∀ s, r.2.sampled = some s → s = (tokens.length, some prompt) ∧
    r.2.examined = if (tokens ++ r.2.recorded.toList).length = windowSize
      then [tokens ++ r.2.recorded.toList] else []
  ongoing : 0 ≤ r.2.ret → (tokens ++ r.2.recorded.toList).length < windowSize →
    Ongoing r.1 seq prompt (tokens ++ r.2.recorded.toList) ∧ r.1.lastCtx seq = m.lastCtx seq ∧
      r.2.recorded.toList.length = 1

theorem sampled_accept {m : Miner} (hm : m.Sound) {seq : Nat} {prompt tokens : List Int}
    (h : Ongoing m seq prompt tokens) (hreg : (m.coord.view seq).promptTokens = some prompt)
    (hlen : tokens.length < windowSize) (token : Int) {o : StepOutcome}
    (hcool : tokens.length = windowSize - 1 → o.cooling = false) :
    Sampled m seq prompt tokens
      (m.accept seq token (tokens.length + 1) (some (tokens.length, some prompt)) o) := by
  have hadd : (tokens ++ [token]).length = tokens.length + 1 := List.length_append
  unfold Miner.accept
  dsimp only
  split
  · rename_i hlt
    refine ⟨fun s hs => ?_, fun _ _ => ?_⟩
    · cases hs
      refine ⟨rfl, (if_neg ?_).symm⟩
      exact fun he => Nat.ne_of_lt hlt (hadd.symm.trans he)
    · obtain ⟨e, n, l, p, hi, he⟩ := Miner.drain_eq (m.recordStep seq token) o.recv
      rw [he]
      exact ⟨(ongoing_record hm h hreg token hlt).congr rfl rfl, rfl, rfl⟩
  · rename_i hge
    have hlast : tokens.length + 1 = windowSize := by omega
    have hexam := ongoing_check hm h token hlast (hcool (by omega))
    split
    · refine ⟨fun s hs => ?_, fun hr => absurd hr (show ¬ (0 : Int) ≤ -1 by decide)⟩
      cases hs
      exact ⟨rfl, hexam.trans (if_pos (hadd.trans hlast)).symm⟩
    · refine ⟨fun s hs => ?_, fun _ hl => ?_⟩
      · cases hs
        exact ⟨rfl, hexam.trans (if_pos (hadd.trans hlast)).symm⟩
      · exact absurd (hadd.trans hlast) (Nat.ne_of_lt hl)

theorem sampled_sample {m : Miner} (hm : m.Sound) {seq : Nat} {prompt tokens : List Int}
    (h : Ongoing m seq prompt tokens) (hlen : tokens.length < windowSize) (nVocab : Nat)
    {o : StepOutcome} (hcool : tokens.length = windowSize - 1 → o.cooling = false) :
    Sampled m seq prompt tokens (m.sample seq nVocab (prompt ++ tokens) o) := by
  obtain ⟨hstep, hong, hreg⟩ := ongoing_sample hm h
  have hsteps : (prompt ++ tokens).length - m.promptLen seq + 1 = tokens.length + 1 := by
    rw [h.promptLen, List.length_append]
    omega
  unfold Miner.sample
  dsimp only
  rw [hstep, hsteps]
  cases o.draw with
  | none => exact ⟨nofun, fun hr => absurd hr (show ¬ (0 : Int) ≤ -1 by decide)⟩
  | some token =>
    dsimp only
    rw [view_promptTokens, hreg]
    split
    · refine ⟨fun s hs => ?_, fun hr => absurd hr (show ¬ (0 : Int) ≤ -1 by decide)⟩
      cases hs
      refine ⟨rfl, (if_neg ?_).symm⟩
      exact fun he => Nat.ne_of_lt hlen ((congrArg _ (List.append_nil _)).symm.trans he)
    · have := sampled_accept (hm.begin_local seq).sound hong hreg hlen token hcool
      exact ⟨this.report, this.ongoing⟩

theorem enter_lastCtx (m : Miner) (seq : Nat) (context : List Int) :
    (m.enter seq context).lastCtx seq = some context.length := Function.update_self _ _ _

theorem GroupInv.call {nVocab : Nat} {g g' : Group} {seq : Nat} {o : StepOutcome}
    (h : GroupInv g) (hok : EntersFresh g (.call seq o))
    (hs : g.step nVocab (.call seq o) = some g') : GroupInv g' := by
  simp only [Group.step] at hs
  split at hs
  · cases hs
  rename_i b hb
  obtain ⟨hfirst, hcool⟩ := hok b hb
  split at hs
  swap
  · cases hs
  rename_i hc
  obtain ⟨hseq, hlen⟩ := hc
  cases hs
  have hl := h.sound.onLogits_local hseq nVocab (Group.context b seq) o
  by_cases hready : g.miner.ready = false
  · -- Without a job nothing is sampled.
    have hr : g.miner.onLogits seq nVocab (Group.context b seq) o = (g.miner, { ret := -1 }) := by
      unfold Miner.onLogits
      rw [if_pos hready]
    rw [hr]
    exact ⟨h.sound, nofun, h.calls⟩
  have henter := h.sound.enter_local hseq (Group.context b seq)
  have hong : Ongoing (g.miner.enter seq (Group.context b seq)) seq (b.prompt seq)
      (b.tokens seq) := by
    unfold Group.context
    by_cases hnil : b.tokens seq = []
    · rw [hnil, List.append_nil]
      exact ongoing_first h.sound hseq (hfirst hnil)
    · obtain ⟨h₁, h₂⟩ := h.ongoing b hb seq hseq hnil hlen
      exact ongoing_next h₁ hnil h₂
  have hsam := sampled_sample henter.sound hong hlen nVocab hcool
  have hr : g.miner.onLogits seq nVocab (Group.context b seq) o =
      (g.miner.enter seq (Group.context b seq)).sample seq nVocab (b.prompt seq ++ b.tokens seq)
        o := by
    unfold Miner.onLogits
    rw [if_neg hready]
    rfl
  rw [← hr] at hsam
  refine ⟨hl.sound, fun b' hb' t ht hne hlt => ?_, fun c hc => ?_⟩
  · split at hb'
    · cases hb'
    · rename_i hret
      cases hb'
      dsimp only at ht hne hlt ⊢
      by_cases hts : t = seq
      · subst hts
        rw [Function.update_self] at hne hlt ⊢
        obtain ⟨h₁, h₂, h₃⟩ := hsam.ongoing (by omega) hlt
        refine ⟨h₁, ?_⟩
        have hctx : (Group.context b t).length = (b.prompt t).length + (b.tokens t).length :=
          List.length_append
        rw [h₂, enter_lastCtx, hctx, List.length_append, h₃]
        congr 1
      · rw [Function.update_of_ne hts] at hne hlt ⊢
        rw [hl.streams] at ht
        obtain ⟨h₁, h₂⟩ := h.ongoing b hb t ht hne hlt
        have hsame := hl.same t hts
        exact ⟨h₁.congr hsame.view hsame.promptLen, hsame.lastCtx.trans h₂⟩
  · dsimp only at hc
    split at hc
    · rename_i step registered hsome
      rcases List.mem_append.1 hc with hc | hc
      · exact h.calls c hc
      · obtain rfl := List.mem_singleton.1 hc
        obtain ⟨hs, hexam⟩ := hsam.report _ hsome
        cases hs
        exact ⟨rfl, rfl, hexam⟩
    · exact h.calls c hc

theorem GroupInv.step {nVocab : Nat} {g g' : Group} {e : GroupEvent} (h : GroupInv g)
    (hok : EntersFresh g e) (hs : g.step nVocab e = some g') : GroupInv g' := by
  cases e with
  | setJob p o =>
    obtain ⟨⟨m, ok⟩, hm, rfl⟩ := Option.map_eq_some_iff.1 hs
    exact ⟨h.sound.setJob hm, nofun, h.calls⟩
  | begin prompt =>
    cases hs
    refine ⟨h.sound, fun b hb seq _ hne _ => ?_, h.calls⟩
    cases hb
    exact absurd rfl hne
  | call seq o => exact h.call hok hs

/-- **In every run whose streams enter their batches with nothing left over, every call samples
at its own step with its batch's prompt, and the batch's 256 tokens are examined once.** -/
theorem windows_fresh {nStreams nVocab : Nat} (hn : nStreams ≤ maxConcurrency)
    {es : List GroupEvent} {g : Group}
    (hok : (groupMachine nStreams nVocab).Guarded EntersFresh
      (groupMachine nStreams nVocab).init es)
    (h : (groupMachine nStreams nVocab).exec (groupMachine nStreams nVocab).init es = some g) :
    ∀ c ∈ g.calls, c.Fresh := by
  refine ((groupMachine nStreams nVocab).guarded_invariant (I := GroupInv)
    (fun _ _ _ hI hg hs => hI.step hg hs) ?_ hok h).calls
  exact ⟨⟨Coordinator.sound_init hn⟩, nofun, nofun⟩

/-- A job with a pool-issued VDF. -/
def plainJob (jobId : Nat) : PoiJobParams :=
  { headerPrefix := List.replicate 152 48, jobId := [UInt8.ofNat jobId], poolVdf := [97, 97]
    valid := true }

/-- One stream through a whole window. -/
def oneWindow : List GroupEvent :=
  [.setJob (plainJob 1) {}, .begin fun _ => [1, 2]] ++
    List.replicate 256 (.call 0 { draw := some 5 })

theorem windows_fresh_oneWindow :
    ∃ g, (groupMachine 1 10).exec (groupMachine 1 10).init oneWindow = some g ∧
      ∀ c ∈ g.calls, c.Fresh := by
  have hrun : ((groupMachine 1 10).exec (groupMachine 1 10).init oneWindow).isSome := by
    decide +kernel
  obtain ⟨g, hg⟩ := Option.isSome_iff_exists.1 hrun
  exact ⟨g, hg, windows_fresh (by decide) (by decide +kernel) hg⟩

/-- A batch aborted after its first token, then another with the same prompt. -/
def abortedBatch : List GroupEvent :=
  [.setJob (plainJob 1) {}, .begin fun _ => [1, 2], .call 0 { draw := some 5 },
    .begin fun _ => [1, 2], .call 0 { draw := some 6 }]

/-- The second batch's first call is sampled at step 1. -/
theorem window_stale :
    ¬ ∀ g, (groupMachine 1 10).exec (groupMachine 1 10).init abortedBatch = some g →
      ∀ c ∈ g.calls, c.Fresh := by
  intro h
  have hrun : (((groupMachine 1 10).exec (groupMachine 1 10).init abortedBatch).map
      fun g => g.calls.map fun c => (c.step, c.index)) = some [(0, 0), (1, 0)] := by
    decide +kernel
  obtain ⟨g, hg, hcalls⟩ := Option.map_eq_some_iff.1 hrun
  have hm : (1, 0) ∈ g.calls.map fun c => (c.step, c.index) := by
    rw [hcalls]
    simp
  obtain ⟨c, hc, he⟩ := List.mem_map.1 hm
  have hstep : c.step = 1 := congrArg Prod.fst he
  have hindex : c.index = 0 := congrArg Prod.snd he
  have hfresh := (h g hg c hc).step
  omega

end Poi
