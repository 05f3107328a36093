import Mathlib.Algebra.BigOperators.Group.List.Basic
import Mathlib.Algebra.GroupWithZero.Nat
import SuprMeow.Engine.HostCopies

/-!
# What the contexts can hold

`load` sizes the contexts: `ctx_per_slot` positions a sequence and `n_batch` tokens a decode.  The
single-batch call checks the positions before it decodes anything but never the length of the
prompt batch; the double-buffered call checks neither.

* `load_ok` — what a configuration that was loaded satisfies, and its contexts;
* `capacity_iff` — the prompts either call keeps within the contexts, whatever is drawn and
  answered;
* `capacity_exceeded` — prompts of the advertised size that do not fit the batch.
-/

set_option autoImplicit false

namespace Engine

variable {V σ τ : Type} {S : Nat}

/-! ## Loading -/

/-- The rest of `EngineConfig` that `load` reads. -/
structure LoadConfig extends EngineConfig where
  modelPath : String
  /-- CUDA ordinals. -/
  devices : List Nat
  workersPerDevice : Nat := 1
  kvCacheType : String := "f16"
  gpuEmbeddings : Bool := false
  splitGroupSize : Nat := 0

/-- What ggml and llama have for a device: the backend that holds the embeddings, the group of
cards, the model, and each worker's contexts. -/
structure Loads where
  embedding : Nat → Bool
  group : Nat → Bool
  model : Nat → Bool
  context : Nat → Nat → Bool
  contextB : Nat → Nat → Bool

namespace EngineConfig

/-- `cp.n_batch`, computed in 32 bits. -/
def nBatch (cfg : EngineConfig) : Nat :=
  if cfg.prefixPrefill then max 512 cfg.slotsPerDevice
  else max 2048 (cfg.slotsPerDevice * 64 % 2 ^ 32)

end EngineConfig

namespace LoadConfig

/-- How many cards load one model. -/
def groupSize (cfg : LoadConfig) : Nat :=
  if cfg.splitModel then
    if 0 < cfg.splitGroupSize then cfg.splitGroupSize else cfg.devices.length
  else 1

/-- `load_devices`: the first card of every group. -/
def loadDevices (cfg : LoadConfig) : List Nat :=
  (cfg.devices.zipIdx.filter (·.2 % cfg.groupSize = 0)).map (·.1)

/-- One worker of a device. -/
def loadWorker (cfg : LoadConfig) (found : Loads) (dev w : Nat) : Except String (Instance V) :=
  if found.context dev w then
    if cfg.doubleBuffer then
      if found.contextB dev w then
        .ok { ctx := { nBatch := cfg.nBatch }, ctxB := { nBatch := cfg.nBatch }, hasCtxB := true }
      else .error ("failed to create the double-buffer context on GPU " ++ toString dev ++
        " (try fewer slots or a smaller ctx)")
    else .ok { ctx := { nBatch := cfg.nBatch }, ctxB := { nBatch := cfg.nBatch } }
  else .error ("failed to create context " ++ toString w ++ " on GPU " ++ toString dev ++
    " (try fewer slots/workers or a smaller ctx)")

def loadDevice (cfg : LoadConfig) (found : Loads) (dev : Nat) :
    Except String (List (Instance V)) :=
  if cfg.gpuEmbeddings ∧ found.embedding dev = false then
    .error ("cannot resolve embedding GPU CUDA" ++ toString dev)
  else if cfg.splitModel ∧ found.group dev = false then
    .error "split-model: could not resolve every selected GPU as a llama backend device"
  else if found.model dev = false then
    .error ("failed to load model '" ++ cfg.modelPath ++ "' on GPU " ++ toString dev ++
      " — check the path, and that the file is a bf16 GGUF of the registered model")
  else (List.range (max 1 cfg.workersPerDevice)).mapM (cfg.loadWorker found dev)

/-- `InferenceEngine::load`, with the instances it makes. -/
def load (cfg : LoadConfig) (found : Loads) : Except String (List (Instance V)) :=
  if cfg.modelPath = "" then .error "no model given — pass --model /path/to/model.gguf"
  else if cfg.devices = [] then .error "no devices selected"
  else if cfg.ctxPerSlot ≤ cfg.windowTokens then
    .error ("ctx_per_slot (" ++ toString cfg.ctxPerSlot ++ ") must exceed the " ++
      toString cfg.windowTokens ++ "-token window with room for a prompt; otherwise generation " ++
      "truncates and no proof is ever produced")
  else if cfg.kvCacheType ≠ "f16" ∧ cfg.kvCacheType ≠ "q8_0" then
    .error ("unsupported KV cache type: " ++ cfg.kvCacheType)
  else if cfg.groupSize < 1 ∨ cfg.devices.length % cfg.groupSize ≠ 0 then
    .error "selected devices must form complete split groups"
  else do
    let perDevice ← cfg.loadDevices.mapM (cfg.loadDevice found)
    return perDevice.flatten

/-- What `load` makes of a configuration. -/
structure Sized (cfg : EngineConfig) (inst : Instance V) : Prop where
  batch : inst.ctx.nBatch = cfg.nBatch
  batchB : inst.ctxB.nBatch = cfg.nBatch
  second : inst.hasCtxB = cfg.doubleBuffer
  copies : inst.CopiesHost

theorem loadWorker_sized {cfg : LoadConfig} {found : Loads} {dev w : Nat} {inst : Instance V}
    (h : cfg.loadWorker found dev w = .ok inst) : Sized cfg.toEngineConfig inst := by
  unfold loadWorker at h
  split at h
  · split at h
    · rename_i hdouble
      split at h
      · cases h
        exact ⟨rfl, rfl, hdouble.symm, rfl, rfl⟩
      · cases h
    · rename_i hdouble
      cases h
      exact ⟨rfl, rfl, (Bool.eq_false_iff.2 hdouble).symm, rfl, rfl⟩
  · cases h

theorem mapM_mem {α β ε : Type} {f : α → Except ε β} {l : List α} {l' : List β}
    (h : l.mapM f = .ok l') : ∀ b ∈ l', ∃ a ∈ l, f a = .ok b := by
  induction l generalizing l' with
  | nil =>
    cases h
    intro b hb
    cases hb
  | cons a l ih =>
    rw [List.mapM_cons] at h
    obtain ⟨b, hb, h⟩ := Fallible.seq_ok.1 h
    obtain ⟨bs, hbs, h⟩ := Fallible.seq_ok.1 h
    cases h
    intro c hc
    rcases List.mem_cons.1 hc with rfl | hc
    · exact ⟨a, List.mem_cons_self, hb⟩
    · obtain ⟨a', ha', hf⟩ := ih hbs c hc
      exact ⟨a', List.mem_cons_of_mem _ ha', hf⟩

/-- **A configuration that was loaded** has room behind its window, and its contexts the batch. -/
theorem load_ok {cfg : LoadConfig} {found : Loads} {insts : List (Instance V)}
    (h : cfg.load found = .ok insts) :
    cfg.windowTokens < cfg.ctxPerSlot ∧ ∀ inst ∈ insts, Sized cfg.toEngineConfig inst := by
  unfold load at h
  split at h
  · cases h
  split at h
  · cases h
  split at h
  · cases h
  rename_i hroom
  split at h
  · cases h
  split at h
  · cases h
  obtain ⟨perDevice, hdevices, h⟩ := Fallible.seq_ok.1 h
  cases h
  refine ⟨Nat.lt_of_not_le hroom, ?_⟩
  intro inst hinst
  obtain ⟨workers, hworkers, hmem⟩ := List.mem_flatten.1 hinst
  obtain ⟨dev, -, hdev⟩ := mapM_mem hdevices workers hworkers
  unfold loadDevice at hdev
  split at hdev
  · cases hdev
  split at hdev
  · cases hdev
  split at hdev
  · cases hdev
  obtain ⟨w, -, hw⟩ := mapM_mem hdev inst hmem
  exact loadWorker_sized hw

end LoadConfig

/-! ## Specification -/

/-- The tokens of a batch of prompts. -/
def total (toks : Fin S → List Int) : Nat := ((List.finRange S).map fun s => (toks s).length).sum

/-- A decode the contexts of `cfg` can take. -/
structure InBounds (cfg : EngineConfig) (batch : List BatchRow) : Prop where
  nonempty : 1 ≤ batch.length
  length : batch.length ≤ cfg.nBatch
  positions : ∀ r ∈ batch, r.pos < cfg.ctxPerSlot

/-- All decodes of a lane are. -/
def Lane.AllIn (cfg : EngineConfig) (l : Lane V σ S) : Prop := ∀ b ∈ l.decoded, InBounds cfg b

/-- Nothing was decoded or drawn. -/
def Lane.Quiet (l : Lane V σ S) : Prop := l.decoded = [] ∧ l.calls = []

/-- A call that is refused before anything is decoded or drawn. -/
def Refuses {W : Type} (quiet : W → Prop) (r : Except (Failure W) (Nat × W)) : Prop :=
  ∃ e, r = .error e ∧ e.code = -1 ∧ quiet e.left

/-- **The single-batch call respects the context** of an instance, whatever state the context is
in, whatever llama answers and whatever is drawn. -/
def StepwiseFits [Inhabited V] [DecidableEq V] [LogitRow V] (cfg : EngineConfig)
    (model : History → V) (inst : Instance V) (toks : Fin S → List Int) : Prop :=
  ∀ (σ : Type) (ans : Answers) (step : Sampler V σ S) (l : Lane V σ S),
    l.ctx.nBatch = inst.ctx.nBatch →
    let r := generateWindowsStepwiseTok cfg model ans step toks l
    Refuses Lane.Quiet r ∨ (leftBy r).AllIn cfg

/-- **The double-buffered call respects both contexts.** -/
def DoubleFits (cfg : EngineConfig) (model : History → V) (inst : Instance V)
    (toksA toksB : Fin S → List Int) : Prop :=
  ∀ (σ τ : Type) (ansA ansB : Answers) (stepA : Sampler V σ S) (stepB : Sampler V τ S)
    (d : Duo V σ τ S), d.a.ctx.nBatch = inst.ctx.nBatch → d.b.ctx.nBatch = inst.ctxB.nBatch →
    d.hasCtxB = inst.hasCtxB →
    let r := generateWindowsDoubleTok cfg model ansA ansB stepA stepB toksA toksB d
    Refuses (fun d => d.a.Quiet ∧ d.b.Quiet) r ∨
      ((leftBy r).a.AllIn cfg ∧ (leftBy r).b.AllIn cfg)

/-- The checks of the double-buffered call. -/
structure DoubleAdmitted (cfg : EngineConfig) (toksA toksB : Fin S → List Int) : Prop where
  buffered : cfg.doubleBuffer = true
  count : 0 < S ∧ S ≤ cfg.slotsPerDevice
  nonempty : ∀ s, toksA s ≠ [] ∧ toksB s ≠ []

/-- The prompts of both batches have room, batch A for one token more. -/
structure DoubleRoom (cfg : EngineConfig) (toksA toksB : Fin S → List Int) : Prop where
  batchA : total toksA ≤ cfg.nBatch
  batchB : total toksB ≤ cfg.nBatch
  roomA : ∀ s, (toksA s).length + (cfg.windowTokens - 1) + 1 ≤ cfg.ctxPerSlot
  roomB : ∀ s, (toksB s).length + (cfg.windowTokens - 1) ≤ cfg.ctxPerSlot

/-! ## The batches -/

section Batches

variable {cfg : EngineConfig} {toks : Fin S → List Int}

theorem nBatch_pos (cfg : EngineConfig) : 1 ≤ cfg.nBatch := by
  unfold EngineConfig.nBatch
  split <;> omega

theorem length_promptBatch (toks : Fin S → List Int) : (promptBatch toks).length = total toks := by
  simp [promptBatch, promptRows, total, List.length_flatMap]

/-- Every prompt that is not empty adds a token. -/
theorem le_total (hne : ∀ s, toks s ≠ []) : S ≤ total toks := by
  have hpos : ∀ n ∈ (List.finRange S).map fun s => (toks s).length, 1 ≤ n := by
    intro n hn
    obtain ⟨s, -, rfl⟩ := List.mem_map.1 hn
    exact List.length_pos_iff.2 (hne s)
  have hsum := List.length_le_sum_of_one_le _ hpos
  rwa [List.length_map, List.length_finRange] at hsum

theorem mem_promptBatch {r : BatchRow} (h : r ∈ promptBatch toks) :
    ∃ s : Fin S, r.pos < (toks s).length := by
  obtain ⟨s, -, hr⟩ := List.mem_flatMap.1 h
  exact ⟨s, (promptRows_seq hr).2⟩

theorem promptBatch_in (hS : 0 < S) (hne : ∀ s, toks s ≠ []) (hbatch : total toks ≤ cfg.nBatch)
    (hroom : ∀ s, (toks s).length ≤ cfg.ctxPerSlot) : InBounds cfg (promptBatch toks) := by
  refine ⟨?_, ?_, ?_⟩
  · rw [length_promptBatch]
    have := le_total hne
    omega
  · rwa [length_promptBatch]
  · intro r hr
    obtain ⟨s, hs⟩ := mem_promptBatch hr
    have := hroom s
    omega

theorem stepBatch_in (hS : 0 < S) (hbatch : S ≤ cfg.nBatch) (tok : Fin S → Int) {i : Nat}
    (hroom : ∀ s, (toks s).length + i < cfg.ctxPerSlot) : InBounds cfg (stepBatch toks tok i) := by
  have hlength : (stepBatch toks tok i).length = S := by simp [stepBatch]
  refine ⟨by omega, by omega, ?_⟩
  intro r hr
  obtain ⟨s, -, rfl⟩ := List.mem_map.1 hr
  exact hroom s

end Batches

/-! ## The prompt pass -/

/-- A computation on lanes that decodes within bounds, whether or not it succeeds. -/
abbrev StaysIn {α : Type} (cfg : EngineConfig) (x : Except (Failure (Lane V σ S)) α)
    (lane : α → Lane V σ S) : Prop :=
  Fallible.Ends x (fun a => (lane a).AllIn cfg) fun e => e.left.AllIn cfg

section Prompt

variable {cfg : EngineConfig} {model : History → V} {ans : Answers} {toks : Fin S → List Int}
  {l : Lane V σ S}

theorem Lane.AllIn.snoc {batch : List BatchRow} (h : l.AllIn cfg) (hb : InBounds cfg batch) :
    ∀ b ∈ l.decoded ++ [batch], InBounds cfg b := by
  intro b hmem
  rcases List.mem_append.1 hmem with hmem | hmem
  · exact h b hmem
  · rwa [List.mem_singleton.1 hmem]

theorem decode_in {error : String} {batch : List BatchRow} (h : l.AllIn cfg)
    (hb : InBounds cfg batch) : StaysIn cfg (l.decode model ans error batch) id := by
  unfold Lane.decode
  split
  · exact h.snoc hb
  · exact h.snoc hb

theorem feedShared_in {cap : Nat} (hcap : cap = cfg.nBatch) {rows : List BatchRow} :
    ∀ {pb : List BatchRow} {l : Lane V σ S}, l.AllIn cfg → pb.length < cap →
      (∀ r ∈ pb ++ rows, r.pos < cfg.ctxPerSlot) →
      StaysIn cfg (feedShared model ans cap rows pb l) id := by
  induction rows with
  | nil => exact fun h _ _ => h
  | cons r rest ih =>
    intro pb l h hpb hpos
    have hpos' : ∀ r' ∈ (pb ++ [r]) ++ rest, r'.pos < cfg.ctxPerSlot := by
      simpa using hpos
    have hlength : (pb ++ [r]).length = pb.length + 1 := by simp
    unfold feedShared
    split
    · have hb : InBounds cfg (pb ++ [r]) :=
        ⟨by omega, by omega, fun r' hr' => hpos' r' (List.mem_append_left _ hr')⟩
      apply Fallible.Ends.seq (decode_in h hb)
      intro l' h'
      have := nBatch_pos cfg
      exact ih h' (by rw [List.length_nil]; omega)
        fun r' hr' => hpos' r' (List.mem_append_right _ hr')
    · rename_i hfull
      exact ih h (by omega) hpos'

/-- The waiting rows can be decoded, and there is room for one more. -/
structure Prefill.In (cfg : EngineConfig) (p : Prefill V σ S) : Prop where
  lane : p.lane.AllIn cfg
  room : p.pb.length < cfg.nBatch
  positions : ∀ r ∈ p.pb, r.pos < cfg.ctxPerSlot

variable (cfg) in
theorem flush_in {p : Prefill V σ S} (h : p.lane.AllIn cfg) (hfull : p.pb.length ≤ cfg.nBatch)
    (hpos : ∀ r ∈ p.pb, r.pos < cfg.ctxPerSlot) :
    Fallible.Ends (flush model ans p) (fun p' => p'.lane.AllIn cfg ∧ p'.pb = [])
      fun e => e.left.AllIn cfg := by
  unfold flush
  split
  · rename_i hnil
    exact ⟨h, hnil⟩
  · rename_i hne
    have hb : InBounds cfg p.pb := ⟨List.length_pos_iff.2 hne, hfull, hpos⟩
    apply Fallible.Ends.seq (decode_in h hb)
    intro l' h'
    split
    · exact h'
    · exact ⟨h', rfl⟩

theorem addRow_in {p : Prefill V σ S} {r : BatchRow} (h : p.In cfg)
    (hr : r.pos < cfg.ctxPerSlot) :
    Fallible.Ends (addRow model ans cfg.nBatch p r) (Prefill.In cfg)
      fun e => e.left.AllIn cfg := by
  have hlength : (p.pb ++ [r]).length = p.pb.length + 1 := by simp
  have hpos : ∀ r' ∈ p.pb ++ [r], r'.pos < cfg.ctxPerSlot := by
    intro r' hr'
    rcases List.mem_append.1 hr' with hr' | hr'
    · exact h.positions r' hr'
    · rwa [List.mem_singleton.1 hr']
  have hroom := h.room
  unfold addRow
  dsimp only
  split
  · rename_i hfull
    refine (flush_in cfg ?_ ?_ ?_).mono ?_ ?_
    · exact h.lane
    · exact Nat.le_of_eq hfull
    · exact hpos
    · rintro p' ⟨hin, hnil⟩
      have := nBatch_pos cfg
      exact ⟨hin, by rw [hnil]; exact this, by rw [hnil]; exact nofun⟩
    · exact fun _ he => he
  · rename_i hfull
    refine ⟨h.lane, ?_, hpos⟩
    change (p.pb ++ [r]).length < cfg.nBatch
    omega

variable [Inhabited V]

theorem prefixPass_in (hS : 0 < S) (h : l.AllIn cfg) (hcap : l.ctx.nBatch = cfg.nBatch)
    (hroom : ∀ s, (toks s).length ≤ cfg.ctxPerSlot) :
    StaysIn cfg (prefixPass model ans toks hS l) Prod.snd := by
  have hshared : ∀ r ∈ [] ++ sharedRows (toks ⟨0, hS⟩) (commonPrefix toks hS),
      r.pos < cfg.ctxPerSlot := by
    intro r hr
    obtain ⟨e, he, rfl⟩ := List.mem_map.1 hr
    have hlt : e.2 < (toks ⟨0, hS⟩).length :=
      List.snd_lt_of_mem_zipIdx (List.mem_of_mem_take he)
    have := hroom ⟨0, hS⟩
    dsimp only
    omega
  have hone := nBatch_pos cfg
  apply Fallible.Ends.seq (feedShared_in hcap h (by rw [hcap]; exact hone) hshared)
  intro l₁ h₁
  have hcopied : (if commonPrefix toks hS = 0 then l₁
      else { l₁ with ctx := copyShared S l₁.ctx }).AllIn cfg := by
    split
    · exact h₁
    · exact h₁
  have hempty : ∀ r ∈ ([] : List BatchRow), r.pos < cfg.ctxPerSlot := by simp
  dsimp only
  rw [hcap]
  refine Fallible.Ends.seq (Q := Prefill.In cfg)
    (Fallible.Ends.foldlM (I := fun _ => Prefill.In cfg) ⟨hcopied, hone, hempty⟩
      fun done r hpre p hp => addRow_in hp ?_) ?_
  · have hmem : r ∈ (List.finRange S).flatMap (promptRows toks (commonPrefix toks hS)) :=
      hpre.subset (List.mem_append_right _ List.mem_cons_self)
    obtain ⟨s, -, hr⟩ := List.mem_flatMap.1 hmem
    have := (promptRows_seq hr).2
    have := hroom s
    omega
  · intro p hp
    apply Fallible.Ends.seq (flush_in cfg hp.lane (Nat.le_of_lt hp.room) hp.positions)
    intro p' hp'
    exact hp'.1

/-- **The prompt pass stays within bounds** with the shared prefix, and without it if the batch of
all prompts fits. -/
theorem promptPass_in (hS : 0 < S) (hne : ∀ s, toks s ≠ []) (h : l.AllIn cfg)
    (hcap : l.ctx.nBatch = cfg.nBatch) (hroom : ∀ s, (toks s).length ≤ cfg.ctxPerSlot)
    (hfit : cfg.prefixPrefill = true ∨ total toks ≤ cfg.nBatch) :
    StaysIn cfg (promptPass cfg model ans toks hS l) (·.2.2) := by
  unfold promptPass
  split
  · apply Fallible.Ends.seq (prefixPass_in hS h hcap hroom)
    rintro ⟨saved, l'⟩ h'
    exact h'
  · rename_i hshared
    have hbatch := hfit.resolve_left hshared
    apply Fallible.Ends.seq (decode_in h (promptBatch_in hS hne hbatch hroom))
    intro l' h'
    exact h'

theorem enterStepwise_in (hadm : Admitted cfg toks) (h : l.AllIn cfg)
    (hcap : l.ctx.nBatch = cfg.nBatch)
    (hfit : cfg.prefixPrefill = true ∨ total toks ≤ cfg.nBatch) :
    StaysIn cfg (enterStepwise cfg model ans toks hadm.count.1 l) (·.2.lane) := by
  have href : Fallible.Ends (refreshContext cfg ans l)
      (fun l' => l'.AllIn cfg ∧ l'.ctx.nBatch = cfg.nBatch) fun e => e.left.AllIn cfg := by
    unfold refreshContext
    split
    · split
      · exact ⟨h, hcap⟩
      · exact h
    · exact ⟨h, hcap⟩
  apply Fallible.Ends.seq href
  rintro l₁ ⟨h₁, hcap₁⟩
  have hclear : l₁.clear.AllIn cfg := h₁
  have hroom : ∀ s, (toks s).length ≤ cfg.ctxPerSlot := by
    intro s
    have := hadm.fits s
    omega
  apply Fallible.Ends.seq (promptPass_in hadm.count.1 hadm.nonempty hclear hcap₁ hroom hfit)
  rintro ⟨promptLogits, lastRow, l₂⟩ h₂
  exact h₂

end Prompt

/-! ## The loops -/

section Loops

variable {cfg : EngineConfig} {model : History → V} {ans : Answers} {step : Sampler V σ S}
  {toks ctxv : Fin S → List Int} {rows : Fin S → V} {l : Lane V σ S}

theorem sample_in (h : l.AllIn cfg) : StaysIn cfg (l.sample step ctxv rows) Prod.snd := by
  unfold Lane.sample
  dsimp only
  split
  · exact h
  · exact h

theorem push_in {out : Fin S → Int} (h : l.AllIn cfg) :
    Fallible.Ends (l.push ctxv out) (fun _ => True) fun e => e.left.AllIn cfg := by
  unfold Lane.push
  split
  · trivial
  · exact h

theorem hostRows_in {lastRow : Nat → Option Nat} (h : l.AllIn cfg) :
    StaysIn cfg (l.hostRows ans lastRow) Prod.snd := by
  unfold Lane.hostRows
  split
  · exact h
  · exact h

theorem syncAndCopy_in {l' : Lane V σ S} (h : l.AllIn cfg) (hc : l.syncAndCopy ans = some l') :
    l'.AllIn cfg := by
  obtain ⟨-, _, -, -, rfl⟩ := Lane.syncAndCopy_eq_some.1 hc
  exact h

variable [DecidableEq V]

theorem readLogits_in {promptLogits : Option (Nat → V)} {i : Nat} {s : Stepwise V σ S}
    (h : s.lane.AllIn cfg) :
    StaysIn cfg (s.readLogits cfg ans promptLogits i) (·.2.lane) := by
  unfold Stepwise.readLogits
  split
  · rename_i rows' _
    have hmode : (if s.devMode then s.lane.tick
        else s.lane.tick.setSkip !cfg.compareDevice).AllIn cfg := by
      split
      · exact h
      · exact h
    dsimp only
    generalize (if s.devMode then s.lane.tick
      else s.lane.tick.setSkip !cfg.compareDevice) = l₁ at hmode
    have hcompare : StaysIn cfg (Stepwise.compareRows cfg ans i rows' s.lastRow l₁) id := by
      unfold Stepwise.compareRows
      split
      · split
        · split
          · exact hmode
          · exact hmode
        · exact hmode
      · exact hmode
    apply Fallible.Ends.seq hcompare
    intro l₂ h₂
    exact h₂
  · split
    · exact h
    · have hhost : StaysIn cfg (Stepwise.hostLogits ans promptLogits i
          { s with lane := s.lane.tick }) Prod.snd := by
        unfold Stepwise.hostLogits
        split
        · exact h
        · exact hostRows_in h
      apply Fallible.Ends.seq hhost
      rintro ⟨rows', l₁⟩ h₁
      exact h₁

omit [DecidableEq V] in
theorem restore_in {s : Stepwise V σ S} {e : Failure (Lane V σ S)} (h : e.left.AllIn cfg) :
    (s.restore e).left.AllIn cfg := by
  unfold Stepwise.restore
  dsimp only
  split
  · exact h
  · exact h

variable [LogitRow V]

omit [DecidableEq V] in
theorem drawAndDecode_in (hadm : Admitted cfg toks) (hbatch : S ≤ cfg.nBatch) {i : Nat}
    (hi : i < cfg.windowTokens) {s : Stepwise V σ S} (h : s.lane.AllIn cfg) :
    StaysIn cfg (s.drawAndDecode cfg model ans step toks i rows) (·.lane) := by
  have hsample : StaysIn cfg ((s.lane.sample step s.ctxv rows).mapError s.restore) Prod.snd :=
    (sample_in h).mapError fun e he => restore_in he
  apply Fallible.Ends.seq hsample
  rintro ⟨drawn, l₁⟩ h₁
  dsimp only
  generalize s.override cfg rows drawn = chosen
  apply Fallible.Ends.seq (push_in h₁)
  intro ctxv' _
  have hb : InBounds cfg (stepBatch toks chosen i) := by
    apply stepBatch_in hadm.count.1 hbatch
    intro s
    have := hadm.fits s
    omega
  have hdecode : StaysIn cfg ((l₁.decode model ans "decode failed mid-window"
      (stepBatch toks chosen i)).mapError s.restore) id :=
    (decode_in h₁ hb).mapError fun e he => restore_in he
  apply Fallible.Ends.seq hdecode
  intro l₂ h₂
  exact h₂

theorem step_in (hadm : Admitted cfg toks) (hbatch : S ≤ cfg.nBatch)
    {promptLogits : Option (Nat → V)} {i : Nat} (hi : i < cfg.windowTokens) {s : Stepwise V σ S}
    (h : s.lane.AllIn cfg) :
    StaysIn cfg (s.step cfg model ans step toks promptLogits i) (·.lane) := by
  apply Fallible.Ends.seq (readLogits_in h)
  rintro ⟨rows', u⟩ hu
  exact drawAndDecode_in hadm hbatch hi hu

/-- The single-batch call, once it is admitted. -/
theorem stepwise_in [Inhabited V] (hadm : Admitted cfg toks) (hcap : l.ctx.nBatch = cfg.nBatch)
    (hfit : cfg.prefixPrefill = true ∨ total toks ≤ cfg.nBatch) :
    StaysIn cfg (generateWindowsStepwiseTok cfg model ans step toks l) Prod.snd := by
  have hstart : l.start.AllIn cfg := nofun
  have hbatch : S ≤ cfg.nBatch := by
    rcases hfit with hshared | hfit
    · have := hadm.count.2
      unfold EngineConfig.nBatch
      rw [if_pos hshared]
      omega
    · have := le_total hadm.nonempty
      omega
  rw [stepwise_admitted hadm]
  apply Fallible.Ends.seq (enterStepwise_in hadm hstart hcap hfit)
  rintro ⟨promptLogits, s₀⟩ h₀
  have hloop : StaysIn cfg (Fallible.loop (Stepwise.step cfg model ans step toks promptLogits)
      cfg.windowTokens s₀) (·.lane) :=
    Fallible.Ends.loop (I := fun _ (s : Stepwise V σ S) => s.lane.AllIn cfg) h₀
      fun i hi s hs => step_in hadm hbatch hi hs
  apply Fallible.Ends.seq hloop
  intro s hs
  change (if s.devMode then s.lane.setSkip false else s.lane).AllIn cfg
  split
  · exact hs
  · exact hs

end Loops

/-! ## The double-buffered call -/

section Double

variable {cfg : EngineConfig} {model : History → V} {ansA ansB : Answers} {stepA : Sampler V σ S}
  {stepB : Sampler V τ S} {toks toksA toksB : Fin S → List Int}

/-- Both lanes decode within bounds. -/
def Duo.AllIn (cfg : EngineConfig) (d : Duo V σ τ S) : Prop := d.a.AllIn cfg ∧ d.b.AllIn cfg

theorem promptAndStep0_in {l : Lane V σ S} (h : l.AllIn cfg)
    (hb : InBounds cfg (promptBatch toks)) :
    StaysIn cfg (promptAndStep0 model ansA stepA toks l) (·.2.2) := by
  apply Fallible.Ends.seq (decode_in h hb)
  intro l₁ h₁
  apply Fallible.Ends.seq (hostRows_in h₁)
  rintro ⟨rows, l₂⟩ h₂
  apply Fallible.Ends.seq (sample_in h₂)
  rintro ⟨first, l₃⟩ h₃
  apply Fallible.Ends.seq (push_in h₃)
  intro ctxv _
  exact h₃

theorem round_in (hS : 0 < S) (hbatch : S ≤ cfg.nBatch) {i : Nat}
    (hA : ∀ s, (toksA s).length + (i + 1) < cfg.ctxPerSlot)
    (hB : ∀ s, (toksB s).length + i < cfg.ctxPerSlot) {r : Rounds V σ τ S}
    (h : r.duo.AllIn cfg) :
    Fallible.Ends (Rounds.round model ansA ansB stepA stepB toksA toksB i r)
      (fun r' => r'.duo.AllIn cfg) fun e => e.left.AllIn cfg := by
  unfold Rounds.round
  split
  · change (if r.first then _ else _ : Failure (Duo V σ τ S)).left.AllIn cfg
    split
    · exact h
    · exact h
  rename_i a hcopyA
  have ha := syncAndCopy_in h.1 hcopyA
  have hdecB : Fallible.Ends ((r.duo.b.decode model ansB "double-buffered window failed"
      (stepBatch toksB r.tokB i)).mapError (Duo.failB { r.duo with a := a }))
      (fun b => b.AllIn cfg) fun e => e.left.AllIn cfg :=
    (decode_in h.2 (stepBatch_in hS hbatch r.tokB hB)).mapError fun e he => ⟨ha, he⟩
  apply Fallible.Ends.seq hdecB
  intro b hb
  have hsampleA : Fallible.Ends ((a.sample stepA r.ctxA a.dbuf).mapError
      (Duo.failA { r.duo with a := a, b := b }))
      (fun p => p.2.AllIn cfg) fun e => e.left.AllIn cfg :=
    (sample_in ha).mapError fun e he => ⟨he, hb⟩
  apply Fallible.Ends.seq hsampleA
  rintro ⟨nextA, a₁⟩ ha₁
  have hpushA : Fallible.Ends ((a₁.push r.ctxA nextA).mapError
      (Duo.failA { r.duo with a := a, b := b }))
      (fun _ => True) fun e => e.left.AllIn cfg :=
    (push_in ha₁).mapError fun e he => ⟨he, hb⟩
  apply Fallible.Ends.seq hpushA
  intro ctxA _
  dsimp only
  split
  · exact ⟨ha₁, hb⟩
  rename_i b₁ hcopyB
  have hb₁ := syncAndCopy_in hb hcopyB
  have hdecA : Fallible.Ends ((a₁.decode model ansA "double-buffered window failed"
      (stepBatch toksA nextA (i + 1))).mapError
      (Duo.failA { r.duo with a := a, b := b₁ }))
      (fun a => a.AllIn cfg) fun e => e.left.AllIn cfg :=
    (decode_in ha₁ (stepBatch_in hS hbatch nextA hA)).mapError fun e he => ⟨he, hb₁⟩
  apply Fallible.Ends.seq hdecA
  intro a₂ ha₂
  have hsampleB : Fallible.Ends ((b₁.sample stepB r.ctxB b₁.dbuf).mapError
      (Duo.failB { r.duo with a := a₂, b := b₁ }))
      (fun p => p.2.AllIn cfg) fun e => e.left.AllIn cfg :=
    (sample_in hb₁).mapError fun e he => ⟨ha₂, he⟩
  apply Fallible.Ends.seq hsampleB
  rintro ⟨nextB, b₂⟩ hb₂
  have hpushB : Fallible.Ends ((b₂.push r.ctxB nextB).mapError
      (Duo.failB { r.duo with a := a₂, b := b₁ }))
      (fun _ => True) fun e => e.left.AllIn cfg :=
    (push_in hb₂).mapError fun e he => ⟨ha₂, he⟩
  apply Fallible.Ends.seq hpushB
  intro ctxB _
  exact ⟨ha₂, hb₂⟩

theorem memoryClear_in {d : Duo V σ τ S} {skip : Bool} (h : d.AllIn cfg) :
    (d.memoryClear.setSkip skip).AllIn cfg := h

/-- The double-buffered call, once it is admitted. -/
theorem double_in (hadm : DoubleAdmitted cfg toksA toksB) (hroom : DoubleRoom cfg toksA toksB)
    (d : Duo V σ τ S) :
    Fallible.Ends (generateWindowsDoubleTok cfg model ansA ansB stepA stepB toksA toksB d)
      (fun r => r.2.AllIn cfg) fun e => e.left.AllIn cfg := by
  have hS := hadm.count.1
  have hbatch : S ≤ cfg.nBatch := by
    have := le_total fun s => (hadm.nonempty s).1
    have := hroom.batchA
    omega
  have hpromptA : InBounds cfg (promptBatch toksA) :=
    promptBatch_in hS (fun s => (hadm.nonempty s).1) hroom.batchA fun s => by
      have := hroom.roomA s
      omega
  have hpromptB : InBounds cfg (promptBatch toksB) :=
    promptBatch_in hS (fun s => (hadm.nonempty s).2) hroom.batchB fun s => by
      have := hroom.roomB s
      omega
  have hstart : d.start.AllIn cfg := ⟨nofun, nofun⟩
  unfold generateWindowsDoubleTok
  dsimp only
  split
  · exact hstart
  split
  · exact hstart
  split
  · exact hstart
  split
  · exact hstart
  have hgrow : Fallible.Ends (d.start.growBuffers ansA ansB) (fun d' => d'.AllIn cfg)
      fun e => e.left.AllIn cfg := by
    unfold Duo.growBuffers
    split
    · split
      · exact hstart
      · exact hstart
    · exact hstart
  apply Fallible.Ends.seq hgrow
  intro d₁ h₁
  have hclear : (d₁.memoryClear.setSkip false).AllIn cfg := memoryClear_in h₁
  generalize d₁.memoryClear.setSkip false = d₂ at hclear
  have hA : Fallible.Ends ((promptAndStep0 model ansA stepA toksA d₂.a).mapError d₂.failA)
      (fun p => p.2.2.AllIn cfg) fun e => e.left.AllIn cfg :=
    (promptAndStep0_in hclear.1 hpromptA).mapError fun e he => ⟨he, hclear.2⟩
  apply Fallible.Ends.seq hA
  rintro ⟨ctxA, tokA, a⟩ ha
  have hB : Fallible.Ends ((promptAndStep0 model ansB stepB toksB d₂.b).mapError
      (Duo.failB { d₂ with a := a })) (fun p => p.2.2.AllIn cfg) fun e => e.left.AllIn cfg :=
    (promptAndStep0_in hclear.2 hpromptB).mapError fun e he => ⟨ha, he⟩
  apply Fallible.Ends.seq hB
  rintro ⟨ctxB, tokB, b⟩ hb
  have hrun : Fallible.Ends ((Rounds.run cfg model ansA ansB stepA stepB toksA toksB
      { duo := Duo.setSkip { d₂ with a, b } true, ctxA, ctxB, tokA, tokB }).mapError
      Rounds.leave) (fun r => r.duo.AllIn cfg) fun e => e.left.AllIn cfg := by
    refine Fallible.Ends.mapError (R := fun e => e.left.AllIn cfg) ?_ fun e he => he
    have hdec : Fallible.Ends (((a.setSkip true).decode model ansA "double-buffered window failed"
        (stepBatch toksA tokA 0)).mapError (Duo.failA (Duo.setSkip { d₂ with a, b } true)))
        (fun a => a.AllIn cfg) fun e => e.left.AllIn cfg := by
      have hfirst : InBounds cfg (stepBatch toksA tokA 0) := stepBatch_in hS hbatch tokA fun s => by
        have := hroom.roomA s
        omega
      have haskip : (a.setSkip true).AllIn cfg := ha
      exact (decode_in haskip hfirst).mapError fun e he => ⟨he, hb⟩
    apply Fallible.Ends.seq hdec
    intro a₁ ha₁
    apply Fallible.Ends.loop (I := fun _ (r : Rounds V σ τ S) => r.duo.AllIn cfg)
    · exact ⟨ha₁, hb⟩
    · intro i hi r hr
      apply round_in hS hbatch _ _ hr
      · intro s
        have := hroom.roomA s
        omega
      · intro s
        have := hroom.roomB s
        omega
  apply Fallible.Ends.seq hrun
  intro r hr
  exact hr

end Double

/-! ## Results -/

section Results

variable [Inhabited V] [DecidableEq V] [LogitRow V] {cfg : EngineConfig} {model : History → V}
  {inst : Instance V} {toks toksA toksB : Fin S → List Int}

/-- llama refuses the first decode. -/
def allRefused : Answers := { allWell with decode := fun _ => false }

/-- The sampler that always draws token 0. -/
def zeroSampler (V : Type) (S : Nat) : Sampler V Unit S := fun _ _ => (some fun _ => 0, ())

omit [Inhabited V] [DecidableEq V] [LogitRow V] in
theorem zeroSampler_after (k : Nat) :
    ∃ w, Window.after model (zeroSampler V S) toks () k = some w := by
  induction k with
  | zero => exact ⟨_, rfl⟩
  | succ k ih =>
    obtain ⟨w, hw⟩ := ih
    exact ⟨_, Window.after_succ.2 ⟨w, hw,
      Window.advance_eq_some.2 ⟨fun _ => 0, (), rfl, fun _ => Int.le_refl 0, rfl⟩⟩⟩

theorem stepwise_fits_iff (hsized : LoadConfig.Sized cfg inst) :
    StepwiseFits cfg model inst toks ↔
      (Admitted cfg toks → cfg.prefixPrefill = true ∨ total toks ≤ cfg.nBatch) := by
  constructor
  · intro h hadm
    by_contra hno
    obtain ⟨hshared, hlong⟩ := not_or.1 hno
    have hrun := h Unit allRefused (zeroSampler V S) (inst.lane inst.ctx S ()) rfl
    -- The batch of the prompts is the first that is decoded.
    obtain ⟨left, hleft, hcall⟩ : ∃ left : Lane V Unit S, left.decoded = [promptBatch toks] ∧
        generateWindowsStepwiseTok cfg model allRefused (zeroSampler V S) toks
          (inst.lane inst.ctx S ()) = .error { error := "prompt decode failed", left } := by
      obtain ⟨l, hl, href⟩ : ∃ l : Lane V Unit S, l.decoded = [] ∧
          refreshContext cfg allRefused (inst.lane inst.ctx S ()).start = .ok l := by
        unfold refreshContext
        split
        · exact ⟨_, rfl, rfl⟩
        · exact ⟨_, rfl, rfl⟩
      refine ⟨{ l.clear.tick with decoded := l.decoded ++ [promptBatch toks] }, ?_, ?_⟩
      · change l.decoded ++ [promptBatch toks] = _
        rw [hl, List.nil_append]
      · have hpass : promptPass cfg model allRefused toks hadm.count.1 l.clear
            = .error { error := "prompt decode failed", left := { l.clear.tick with
                decoded := l.decoded ++ [promptBatch toks] } } := by
          unfold promptPass
          rw [if_neg hshared]
          rfl
        rw [stepwise_admitted hadm]
        unfold enterStepwise
        rw [href]
        change (do
          let (promptLogits, s) ← (do
            let (promptLogits, lastRow, l) ←
              promptPass cfg model allRefused toks hadm.count.1 l.clear
            return (promptLogits, ({ lane := l, ctxv := toks, lastRow } : Stepwise V Unit S)))
          let s ← Fallible.loop (Stepwise.step cfg model allRefused (zeroSampler V S) toks
            promptLogits) cfg.windowTokens s
          return (S, if s.devMode then s.lane.setSkip false else s.lane)) = _
        rw [hpass]
        rfl
    rw [hcall] at hrun
    rcases hrun with ⟨e, he, -, hquiet, -⟩ | hin
    · cases he
      rw [hleft] at hquiet
      cases hquiet
    · have hbatch := (hin (promptBatch toks) (by
        change promptBatch toks ∈ left.decoded
        rw [hleft]
        exact List.mem_singleton_self _)).length
      rw [length_promptBatch] at hbatch
      exact hlong hbatch
  · intro h σ ans step l hcap
    dsimp only
    by_cases hadm : Admitted cfg toks
    · have hend : StaysIn cfg (generateWindowsStepwiseTok cfg model ans step toks l) Prod.snd :=
        stepwise_in hadm (hcap.trans hsized.batch) (h hadm)
      right
      cases hr : generateWindowsStepwiseTok cfg model ans step toks l with
      | ok r => exact hend.of_ok hr
      | error e => exact hend.of_error hr
    · obtain ⟨error, he⟩ : ∃ error, generateWindowsStepwiseTok cfg model ans step toks l
          = .error { error, left := l.start } := stepwise_refused hadm
      exact .inl ⟨_, he, rfl, rfl, rfl⟩

omit [Inhabited V] [DecidableEq V] [LogitRow V] in
theorem double_refused {σ τ : Type} {ansA ansB : Answers} {stepA : Sampler V σ S}
    {stepB : Sampler V τ S} {d : Duo V σ τ S} (hctx : d.hasCtxB = cfg.doubleBuffer)
    (h : ¬ DoubleAdmitted cfg toksA toksB) :
    ∃ error, generateWindowsDoubleTok cfg model ansA ansB stepA stepB toksA toksB d
      = .error { error, left := d.start } := by
  unfold generateWindowsDoubleTok
  dsimp only
  split
  · exact ⟨_, rfl⟩
  rename_i hbuf
  split
  · rename_i hnone
    exact absurd (hctx.symm.trans hnone) hbuf
  split
  · exact ⟨_, rfl⟩
  rename_i hcount
  split
  · exact ⟨_, rfl⟩
  rename_i hempty
  refine absurd ⟨by simpa using hbuf, by omega, ?_⟩ h
  intro s
  constructor
  · exact fun hs => hempty ⟨s, .inl hs⟩
  · exact fun hs => hempty ⟨s, .inr hs⟩

/-- The last position of a prompt. -/
theorem exists_prompt_row {s : Fin S} (h : toks s ≠ []) :
    ∃ r ∈ promptBatch toks, r.pos = (toks s).length - 1 := by
  have hlast : (toks s).length - 1 < (toks s).length := by
    have := List.length_pos_iff.2 h
    omega
  refine ⟨⟨(toks s)[(toks s).length - 1], (toks s).length - 1, s,
    (toks s).length - 1 + 1 == (toks s).length⟩, ?_, rfl⟩
  refine List.mem_flatMap.2 ⟨s, List.mem_finRange s, ?_⟩
  refine List.mem_map.2 ⟨((toks s)[(toks s).length - 1], (toks s).length - 1), ?_, rfl⟩
  exact List.mem_iff_getElem.2 ⟨(toks s).length - 1, by simpa using hlast, by simp⟩

/-- The position of the `k`-th token drawn. -/
theorem exists_step_row (toks : Fin S → List Int) {chosen : List (Fin S → Int)} {k : Nat}
    (h : k < chosen.length) (s : Fin S) :
    ∃ b ∈ stepBatches toks chosen, ∃ r ∈ b, r.pos = (toks s).length + k := by
  refine ⟨stepBatch toks chosen[k] k, ?_, ⟨chosen[k] s, (toks s).length + k, s, true⟩, ?_, rfl⟩
  · exact List.mem_map.2 ⟨(chosen[k], k),
      List.mem_iff_getElem.2 ⟨k, by simpa using h, by simp⟩, rfl⟩
  · exact List.mem_map.2 ⟨s, List.mem_finRange s, rfl⟩

theorem allWell_steady : allWell.Steady :=
  ⟨⟨fun _ => rfl, fun _ => rfl, fun _ => rfl, fun _ => rfl, fun _ _ _ h => h⟩, fun _ => rfl,
    fun _ => rfl⟩

omit [DecidableEq V] [LogitRow V] in
theorem double_fits_iff (hsized : LoadConfig.Sized cfg inst) :
    DoubleFits cfg model inst toksA toksB ↔
      (DoubleAdmitted cfg toksA toksB → DoubleRoom cfg toksA toksB) := by
  constructor
  · intro h hadm
    obtain ⟨wA, hwA⟩ : ∃ w, Window.after model (zeroSampler V S) toksA ()
        (cfg.windowTokens - 1 + 1) = some w := zeroSampler_after _
    obtain ⟨wB, hwB⟩ : ∃ w, Window.after model (zeroSampler V S) toksB ()
        (cfg.windowTokens - 1 + 1) = some w := zeroSampler_after _
    obtain ⟨d', hd'⟩ := double_returns (d := inst.duo S () ()) hadm.buffered
      (hsized.second.trans hadm.buffered) hadm.count hadm.nonempty allWell_steady allWell_steady
      hwA hwB
    have hrun := h Unit Unit allWell allWell (zeroSampler V S) (zeroSampler V S)
      (inst.duo S () ()) rfl rfl rfl
    rw [hd'] at hrun
    obtain ⟨hinA, hinB⟩ : d'.a.AllIn cfg ∧ d'.b.AllIn cfg := by
      rcases hrun with ⟨e, he, -⟩ | hin
      · cases he
      · exact hin
    obtain ⟨-, -, ⟨ctxA, hA⟩, ctxB, tok, hB⟩ := double_spec hd'
    obtain ⟨_, chosen, -, hchosen, -, hdecB⟩ := hB.behind
    have hlenA : d'.a.chosen.length = cfg.windowTokens - 1 + 1 :=
      (Window.after_lengths hA.window).2.1
    have hlenB : d'.b.chosen.length = cfg.windowTokens - 1 + 1 :=
      (Window.after_lengths hB.window).2.1
    rw [hchosen, List.length_append, List.length_singleton] at hlenB
    unfold Lane.AllIn at hinA hinB
    rw [hA.decoded] at hinA
    rw [hdecB] at hinB
    refine ⟨?_, ?_, ?_, ?_⟩
    · rw [← length_promptBatch]
      exact (hinA _ (List.mem_append_left _ (List.mem_singleton_self _))).length
    · rw [← length_promptBatch]
      exact (hinB _ (List.mem_append_left _ (List.mem_singleton_self _))).length
    · intro s
      have hk : cfg.windowTokens - 1 < d'.a.chosen.length := by omega
      obtain ⟨b, hb, r, hr, hpos⟩ := exists_step_row toksA hk s
      have := (hinA b (List.mem_append_right _ hb)).positions r hr
      omega
    · intro s
      rcases Nat.eq_zero_or_pos (cfg.windowTokens - 1) with hnone | hsome
      · -- No token of batch B is decoded.
        obtain ⟨r, hr, hpos⟩ := exists_prompt_row (hadm.nonempty s).2
        have := (hinB _ (List.mem_append_left _ (List.mem_singleton_self _))).positions r hr
        omega
      · have hk : cfg.windowTokens - 2 < chosen.length := by omega
        obtain ⟨b, hb, r, hr, hpos⟩ := exists_step_row toksB hk s
        have := (hinB b (List.mem_append_right _ hb)).positions r hr
        omega
  · intro h σ τ ansA ansB stepA stepB d hcapA hcapB hctx
    dsimp only
    by_cases hadm : DoubleAdmitted cfg toksA toksB
    · have hend : Fallible.Ends (generateWindowsDoubleTok cfg model ansA ansB stepA stepB toksA
          toksB d) _ _ := double_in hadm (h hadm) d
      right
      cases hr : generateWindowsDoubleTok cfg model ansA ansB stepA stepB toksA toksB d with
      | ok r => exact hend.of_ok hr
      | error e => exact hend.of_error hr
    · obtain ⟨error, he⟩ : ∃ error, generateWindowsDoubleTok cfg model ansA ansB stepA stepB
          toksA toksB d = .error { error, left := d.start } :=
        double_refused (hctx.trans hsized.second) hadm
      exact .inl ⟨_, he, rfl, ⟨rfl, rfl⟩, rfl, rfl⟩

/-- **The prompts either call keeps within the contexts of a loaded configuration**: the
single-batch call those it admits, if the prefix is shared or all prompts together fit the batch;
the double-buffered call those that fit the batch and leave room for the window, which it does not
check. -/
theorem capacity_iff (model : History → V) {cfg : LoadConfig} {found : Loads}
    {insts : List (Instance V)} (hload : cfg.load found = .ok insts) (hinst : inst ∈ insts) :
    (∀ (S : Nat) (toks : Fin S → List Int), StepwiseFits cfg.toEngineConfig model inst toks ↔
      (Admitted cfg.toEngineConfig toks → cfg.prefixPrefill = true ∨ total toks ≤ cfg.nBatch)) ∧
    ∀ (S : Nat) (toksA toksB : Fin S → List Int),
      DoubleFits cfg.toEngineConfig model inst toksA toksB ↔
        (DoubleAdmitted cfg.toEngineConfig toksA toksB →
          DoubleRoom cfg.toEngineConfig toksA toksB) := by
  have hsized := (LoadConfig.load_ok hload).2 inst hinst
  exact ⟨fun S toks => stepwise_fits_iff hsized, fun S toksA toksB => double_fits_iff hsized⟩

end Results

/-- The default context with 32 slots and double buffering. -/
def wideEngine : LoadConfig :=
  { slotsPerDevice := 32, ctxPerSlot := 384, doubleBuffer := true, modelPath := "model.gguf"
    devices := [0] }

/-- Everything is there. -/
def allFound : Loads :=
  ⟨fun _ => true, fun _ => true, fun _ => true, fun _ _ => true, fun _ _ => true⟩

theorem wideEngine_load :
    wideEngine.load allFound = .ok [{ freshInstance with hasCtxB := true }] := rfl

theorem capacity_iff_wide :
    StepwiseFits wideEngine.toEngineConfig List.length { freshInstance with hasCtxB := true }
      (fun _ : Fin 32 => List.replicate 64 7) := by
  have h := (capacity_iff List.length wideEngine_load (List.mem_singleton_self _)).1 32
    fun _ => List.replicate 64 7
  exact h.2 fun _ => .inr (by decide +kernel)

/-- **Thirty-two prompts of 128 tokens do not fit the batch, and one of 300 leaves no room for the
window.**  The first call checks only the positions, the second nothing. -/
theorem capacity_exceeded :
    ¬ (StepwiseFits wideEngine.toEngineConfig List.length { freshInstance with hasCtxB := true }
        (fun _ : Fin 32 => List.replicate 128 7)) ∧
      ¬ DoubleFits wideEngine.toEngineConfig List.length { freshInstance with hasCtxB := true }
        (fun _ : Fin 1 => List.replicate 300 7) (fun _ : Fin 1 => List.replicate 300 7) := by
  have hsized := (LoadConfig.load_ok wideEngine_load).2 _ (List.mem_singleton_self _)
  constructor
  · intro h
    have hadm : Admitted wideEngine.toEngineConfig fun _ : Fin 32 => List.replicate 128 7 :=
      ⟨by decide, by decide +kernel, by decide +kernel⟩
    have := (stepwise_fits_iff hsized).1 h hadm
    revert this
    decide +kernel
  · intro h
    have hadm : DoubleAdmitted wideEngine.toEngineConfig (fun _ : Fin 1 => List.replicate 300 7)
        fun _ : Fin 1 => List.replicate 300 7 := ⟨rfl, by decide, by decide +kernel⟩
    have hroom := ((double_fits_iff hsized).1 h hadm).roomA 0
    revert hroom
    decide +kernel

end Engine
