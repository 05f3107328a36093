import SuprMeow.Engine.HostCopies

/-!
# The prompt pass with and without the shared prefix

`promptPass` decodes the prompts either as one batch or, with `prefix_prefill`, as the prefix they
share followed by the rest.  Where both succeed they leave one and the same cache.  The first step
reads the same logits if they are copied to the host; a call before this one may have left the copy
skipped, and then it reads what an earlier decode left there.

* `CellsHeld`, `RowsHeld` — every sequence holds its prompt and nothing else does, and a row of
  logits is there for each;
* `prefixPass_cells` — the cache the shared prefix leaves, whatever is read from it;
* `prefixPass_blind` — while the copy is skipped the rows saved do not depend on the model;
* `prefill_exact_iff` — the two ways leave the same exactly when the lane copies its logits;
* `prefill_reads_stale` — one that does not.
-/

set_option autoImplicit false

namespace Engine

variable {V σ : Type} {S : Nat} {model : History → V} {ans : Answers} {toks : Fin S → List Int}
  {l l' : Lane V σ S}

/-! ## Specification -/

/-- Each sequence holds its own tokens at positions `0` to `len - 1`, each once, and the sequences
no prompt has hold nothing. -/
def CellsHeld (toks : Fin S → List Int) (c : LlamaContext V) : Prop :=
  ∀ q, c.cells q = if h : q < S then (toks ⟨q, h⟩).zipIdx else []

/-- The rows the first step reads are the logits after the last tokens. -/
def RowsHeld (model : History → V) (toks : Fin S → List Int) (promptLogits : Option (Nat → V))
    (lastRow : Nat → Option Nat) (c : LlamaContext V) : Prop :=
  ∀ s : Fin S, Stepwise.promptRow promptLogits lastRow c s = some (model (toks s).zipIdx)

/-! ## The cache -/

theorem storeAll_beyond {cells : Nat → History} {q : Nat} (hq : S ≤ q) (c : Nat) :
    storeAll cells ((List.finRange S).flatMap (promptRows toks c)) q = cells q := by
  apply storeAll_of_not_mem
  intro r hr
  obtain ⟨s, -, hr⟩ := List.mem_flatMap.1 hr
  have hseq := (promptRows_seq hr).1
  have := s.isLt
  omega

theorem copyShared_beyond (c : LlamaContext V) {q : Nat} (hq : S ≤ q) :
    (copyShared S c).cells q = c.cells q := by
  have hcopy (ts : List Nat) (hts : q ∉ ts) (c : LlamaContext V) :
      (ts.foldl (fun c s => c.memorySeqCp s) c).cells q = c.cells q := by
    induction ts generalizing c with
    | nil => rfl
    | cons t ts ih =>
      obtain ⟨hne, hts⟩ := List.ne_and_not_mem_of_not_mem_cons hts
      rw [List.foldl_cons, ih hts]
      exact Function.update_of_ne hne _ _
  apply hcopy
  intro hmem
  have := List.mem_range.1 (List.mem_of_mem_drop hmem)
  omega

/-- What the sequences hold once the waiting rows are decoded. -/
def Prefill.stored (p : Prefill V σ S) : Nat → History := storeAll p.lane.ctx.cells p.pb

theorem flush_stored {p p' : Prefill V σ S} (h : flush model ans p = .ok p') :
    p'.stored = p.stored ∧ p'.pb = [] := by
  unfold flush at h
  split at h
  · rename_i hnil
    cases h
    exact ⟨rfl, hnil⟩
  · obtain ⟨l₁, hd, h⟩ := Fallible.seq_ok.1 h
    obtain ⟨-, rfl⟩ := Lane.decode_eq_ok.1 hd
    split at h
    · cases h
    · cases h
      exact ⟨rfl, rfl⟩

theorem addRow_stored {cap : Nat} {p p' : Prefill V σ S} {r : BatchRow}
    (h : addRow model ans cap p r = .ok p') : p'.stored = store p.stored r := by
  have hwait : storeAll p.lane.ctx.cells (p.pb ++ [r]) = store p.stored r :=
    storeAll_append _ _ _
  unfold addRow at h
  simp only at h
  split at h
  · exact (flush_stored h).1.trans hwait
  · cases h
    exact hwait

variable [Inhabited V]

/-- **The shared prefix leaves the prompts in the cache**, wherever the batches end and whatever
is read in between. -/
theorem prefixPass_cells {hS : 0 < S} {saved : Nat → V} (hcells : l.ctx.cells = fun _ => [])
    (h : prefixPass model ans toks hS l = .ok (saved, l')) : CellsHeld toks l'.ctx := by
  obtain ⟨l₁, hfed, h⟩ := Fallible.seq_ok.1 h
  have hshared := sharedPrefix_spec hcells hfed
  have hbeyond : ∀ q, S ≤ q → (if commonPrefix toks hS = 0 then l₁
      else { l₁ with ctx := copyShared S l₁.ctx }).ctx.cells q = [] := by
    intro q hq
    have hstored : l₁.ctx.cells q = [] := by
      rw [(feedShared_spec hfed fun _ => rfl).2, hcells, List.nil_append, storeAll_of_not_mem]
      intro r hr
      have := of_decide_eq_true (sharedRows_seq _ _ r hr)
      omega
    split
    · exact hstored
    · exact (copyShared_beyond l₁.ctx hq).trans hstored
  generalize (if commonPrefix toks hS = 0 then l₁
    else { l₁ with ctx := copyShared S l₁.ctx }) = l₂ at h hshared hbeyond
  obtain ⟨p, hfill, h⟩ := Fallible.seq_ok.1 h
  obtain ⟨p', hflush, h⟩ := Fallible.seq_ok.1 h
  cases h
  have hrows : p.stored =
      storeAll l₂.ctx.cells ((List.finRange S).flatMap (promptRows toks (commonPrefix toks hS))) :=
    Fallible.foldlM_ok (I := fun done p => p.stored = storeAll l₂.ctx.cells done) rfl
      (fun done r _ p p' hp hr => by
        rw [addRow_stored hr, hp, storeAll_append]
        rfl) hfill
  obtain ⟨hstored, hpb⟩ := flush_stored hflush
  have hend : p'.lane.ctx.cells = p'.stored := by
    rw [Prefill.stored, hpb]
    rfl
  intro q
  rw [hend, hstored, hrows]
  split
  · rename_i hq
    have := storeAll_promptRows l₂.ctx.cells toks (commonPrefix toks hS) ⟨q, hq⟩
    rw [hshared ⟨q, hq⟩, List.take_append_drop] at this
    exact this
  · rename_i hq
    rw [storeAll_beyond (by omega), hbeyond q (by omega)]

omit [Inhabited V] in
theorem promptBatch_cells {error : String} (hcells : l.ctx.cells = fun _ => [])
    (h : l.decode model ans error (promptBatch toks) = .ok l') : CellsHeld toks l'.ctx := by
  obtain ⟨-, rfl⟩ := Lane.decode_eq_ok.1 h
  intro q
  have hstored : (l.ctx.decode model (promptBatch toks)).cells q =
      storeAll l.ctx.cells (promptBatch toks) q := rfl
  rw [hstored, hcells]
  split
  · rename_i hq
    exact storeAll_promptRows (fun _ => []) toks 0 ⟨q, hq⟩
  · rename_i hq
    exact storeAll_beyond (by omega) 0

/-! ## Results -/

section

variable {cfg : EngineConfig} {hS : 0 < S} {promptLogits : Option (Nat → V)}
  {lastRow : Nat → Option Nat}

theorem promptPass_cells
    (h : promptPass cfg model ans toks hS l.clear = .ok (promptLogits, lastRow, l')) :
    CellsHeld toks l'.ctx := by
  unfold promptPass at h
  split at h
  · obtain ⟨⟨saved, l₁⟩, hpass, h⟩ := Fallible.seq_ok.1 h
    cases h
    exact prefixPass_cells rfl hpass
  · obtain ⟨l₁, hd, h⟩ := Fallible.seq_ok.1 h
    cases h
    exact promptBatch_cells rfl hd

theorem promptPass_rows (hne : ∀ s, toks s ≠ []) (hskip : l.ctx.skipLogitsCopy = false)
    (h : promptPass cfg model ans toks hS l.clear = .ok (promptLogits, lastRow, l')) :
    RowsHeld model toks promptLogits lastRow l'.ctx := by
  have hclear : l.clear.ctx.skipLogitsCopy = false := hskip
  unfold promptPass at h
  split at h
  · obtain ⟨⟨saved, l₁⟩, hpass, h⟩ := Fallible.seq_ok.1 h
    cases h
    intro s
    exact congrArg some ((prefixPass_spec rfl hclear hne hpass).2 s)
  · obtain ⟨l₁, hd, h⟩ := Fallible.seq_ok.1 h
    cases h
    exact (promptBatch_spec rfl hclear hne hd).2

end

/-! ## While the host copy is skipped -/

/-- Two lanes that skip the host copy and differ at most in their device logits. -/
structure Blind (l m : Lane V σ S) : Prop where
  cells : l.ctx.cells = m.ctx.cells
  outputIds : l.ctx.outputIds = m.ctx.outputIds
  logits : l.ctx.logits = m.ctx.logits
  skip : l.ctx.skipLogitsCopy = true
  skip' : m.ctx.skipLogitsCopy = true

section

variable {model' : History → V} {m m' : Lane V σ S} {p q p' q' : Prefill V σ S}

omit [Inhabited V]

/-- **A decode leaves nothing on the host that depends on the model.** -/
theorem Blind.decode {error : String} {batch : List BatchRow} (h : Blind l m)
    (hl : l.decode model ans error batch = .ok l') (hm : m.decode model' ans error batch = .ok m') :
    Blind l' m' := by
  obtain ⟨-, rfl⟩ := Lane.decode_eq_ok.1 hl
  obtain ⟨-, rfl⟩ := Lane.decode_eq_ok.1 hm
  constructor
  · exact congrArg (storeAll · batch) h.cells
  · exact (forward_rows model _ 0 batch).trans (forward_rows model' _ 0 batch).symm
  · change (if l.ctx.skipLogitsCopy then l.ctx.logits else _) =
      if m.ctx.skipLogitsCopy then m.ctx.logits else _
    rw [h.skip, h.skip', if_pos rfl, if_pos rfl, h.logits]
  · exact h.skip
  · exact h.skip'

theorem Blind.feedShared {cap : Nat} {rows pb : List BatchRow} (h : Blind l m)
    (hl : feedShared model ans cap rows pb l = .ok l')
    (hm : feedShared model' ans cap rows pb m = .ok m') : Blind l' m' := by
  induction rows generalizing pb l m with
  | nil => cases hl; cases hm; exact h
  | cons r rest ih =>
    unfold Engine.feedShared at hl hm
    split at hl
    · rename_i hfull
      rw [if_pos hfull] at hm
      obtain ⟨l₁, hd, hl⟩ := Fallible.seq_ok.1 hl
      obtain ⟨m₁, hd', hm⟩ := Fallible.seq_ok.1 hm
      exact ih (h.decode hd hd') hl hm
    · rename_i hmore
      rw [if_neg hmore] at hm
      exact ih h hl hm

theorem Blind.copyShared (h : Blind l m) :
    Blind { l with ctx := copyShared S l.ctx } { m with ctx := copyShared S m.ctx } := by
  have hcopy (ts : List Nat) (c d : LlamaContext V)
      (hcells : c.cells = d.cells) (hids : c.outputIds = d.outputIds) (hlogits : c.logits = d.logits)
      (hc : c.skipLogitsCopy = true) (hd : d.skipLogitsCopy = true) :
      Blind { l with ctx := ts.foldl (fun c s => c.memorySeqCp s) c }
        { m with ctx := ts.foldl (fun c s => c.memorySeqCp s) d } := by
    induction ts generalizing c d with
    | nil => exact ⟨hcells, hids, hlogits, hc, hd⟩
    | cons t ts ih =>
      refine ih (c.memorySeqCp t) (d.memorySeqCp t) ?_ hids hlogits hc hd
      unfold LlamaContext.memorySeqCp
      dsimp only
      rw [hcells]
  exact hcopy _ l.ctx m.ctx h.cells h.outputIds h.logits h.skip h.skip'

/-- The two states of the suffix loop. -/
structure BlindFill (p q : Prefill V σ S) : Prop where
  pb : p.pb = q.pb
  outputs : p.outputs = q.outputs
  saved : p.promptLogits = q.promptLogits
  lane : Blind p.lane q.lane

theorem collect_congr {c d : LlamaContext V} (hids : c.outputIds = d.outputIds)
    (hlogits : c.logits = d.logits) (outputs : List (Nat × Nat)) (saved : Nat → V) :
    collect c outputs saved = collect d outputs saved := by
  induction outputs generalizing saved with
  | nil => rfl
  | cons e rest ih =>
    have hread : c.getLogitsIth e.2 = d.getLogitsIth e.2 := by
      unfold LlamaContext.getLogitsIth
      rw [hids, hlogits]
    unfold collect
    rw [hread]
    cases d.getLogitsIth e.2 with
    | none => rfl
    | some v => exact ih _

theorem BlindFill.flush (h : BlindFill p q) (hp : flush model ans p = .ok p')
    (hq : flush model' ans q = .ok q') : BlindFill p' q' := by
  unfold Engine.flush at hp hq
  split at hp
  · rename_i hnil
    rw [if_pos (h.pb ▸ hnil)] at hq
    cases hp
    cases hq
    exact h
  · rename_i hrows
    rw [if_neg (h.pb ▸ hrows)] at hq
    obtain ⟨l₁, hd, hp⟩ := Fallible.seq_ok.1 hp
    obtain ⟨m₁, hd', hq⟩ := Fallible.seq_ok.1 hq
    rw [← h.pb] at hd'
    have hlane := h.lane.decode hd hd'
    split at hp
    · cases hp
    rename_i saved hs
    cases hp
    split at hq
    · cases hq
    rename_i saved' hs'
    cases hq
    have hs := (Option.ite_none_right_eq_some.1 hs).2
    have hs' := (Option.ite_none_right_eq_some.1 hs').2
    rw [collect_congr hlane.outputIds hlane.logits, h.outputs, h.saved, hs'] at hs
    exact ⟨rfl, rfl, (Option.some.inj hs).symm, ⟨hlane.cells, hlane.outputIds, hlane.logits,
      hlane.skip, hlane.skip'⟩⟩

theorem BlindFill.addRow {cap : Nat} {r : BatchRow} (h : BlindFill p q)
    (hp : addRow model ans cap p r = .ok p') (hq : addRow model' ans cap q r = .ok q') :
    BlindFill p' q' := by
  have hwait : BlindFill
      { p with
        pb := p.pb ++ [r]
        outputs := if r.logits then p.outputs ++ [(r.seq, p.pb.length)] else p.outputs }
      { q with
        pb := q.pb ++ [r]
        outputs := if r.logits then q.outputs ++ [(r.seq, q.pb.length)] else q.outputs } := by
    refine ⟨?_, ?_, h.saved, h.lane⟩
    · rw [h.pb]
    · rw [h.pb, h.outputs]
  unfold Engine.addRow at hp hq
  dsimp only at hp hq
  split at hp
  · rename_i hfull
    rw [if_pos (h.pb ▸ hfull)] at hq
    exact hwait.flush hp hq
  · rename_i hroom
    rw [if_neg (h.pb ▸ hroom)] at hq
    cases hp
    cases hq
    exact hwait

end

/-- **The rows saved are those the host buffer held before**, the same for any two models. -/
theorem prefixPass_blind {hS : 0 < S} {model' : History → V} {saved saved' : Nat → V}
    {m' : Lane V σ S} (hskip : l.ctx.skipLogitsCopy = true)
    (h : prefixPass model ans toks hS l = .ok (saved, l'))
    (h' : prefixPass model' ans toks hS l = .ok (saved', m')) : saved = saved' := by
  obtain ⟨l₁, hfed, h⟩ := Fallible.seq_ok.1 h
  obtain ⟨m₁, hfed', h'⟩ := Fallible.seq_ok.1 h'
  have hblind : Blind l₁ m₁ := Blind.feedShared ⟨rfl, rfl, rfl, hskip, hskip⟩ hfed hfed'
  have hcopied : Blind
      (if commonPrefix toks hS = 0 then l₁ else { l₁ with ctx := copyShared S l₁.ctx })
      (if commonPrefix toks hS = 0 then m₁ else { m₁ with ctx := copyShared S m₁.ctx }) := by
    split
    · exact hblind
    · exact hblind.copyShared
  obtain ⟨p, hfill, h⟩ := Fallible.seq_ok.1 h
  obtain ⟨q, hfill', h'⟩ := Fallible.seq_ok.1 h'
  obtain ⟨p', hflush, h⟩ := Fallible.seq_ok.1 h
  obtain ⟨q', hflush', h'⟩ := Fallible.seq_ok.1 h'
  cases h
  cases h'
  have hfilled : BlindFill p q := by
    refine Fallible.foldlM_related (R := BlindFill) ?_ ?_ hfill hfill'
    · exact ⟨rfl, rfl, rfl, hcopied⟩
    · intro r p q p' q' hpq hp hq
      exact hpq.addRow hp hq
  exact (hfilled.flush hflush hflush').saved

/-! ## When the two ways agree -/

/-- **Prefix prefill is the plain prompt pass** of these prompts from this lane: every sequence
holds its own prompt and the first step has the logits after it, as after the one batch; and the
pass gets there unless a call to llama fails. -/
structure PrefillExact (cfg : EngineConfig) (model : History → V) (ans : Answers)
    (toks : Fin S → List Int) (hS : 0 < S) (l : Lane V σ S) : Prop where
  same : ∀ saved lastRow l',
    promptPass { cfg with prefixPrefill := true } model ans toks hS l.clear
      = .ok (saved, lastRow, l') →
    CellsHeld toks l'.ctx ∧ RowsHeld model toks saved lastRow l'.ctx ∧
    ∀ ans₀ saved₀ lastRow₀ l₀,
      promptPass { cfg with prefixPrefill := false } model ans₀ toks hS l.clear
        = .ok (saved₀, lastRow₀, l₀) →
      l₀.ctx.cells = l'.ctx.cells ∧ ∀ s : Fin S,
        Stepwise.promptRow saved₀ lastRow₀ l₀.ctx s
          = Stepwise.promptRow saved lastRow l'.ctx s
  returns : (∀ n, ans.decode n = true) → (∀ n, ans.hostRow n = true) →
    ∃ r, promptPass { cfg with prefixPrefill := true } model ans toks hS l.clear = .ok r

theorem prefillExact_of_copy (cfg : EngineConfig) (model : History → V) (ans : Answers) (hS : 0 < S)
    (hne : ∀ s, toks s ≠ []) (hskip : l.ctx.skipLogitsCopy = false) :
    PrefillExact cfg model ans toks hS l := by
  constructor
  · intro saved lastRow l' h
    have hcells := promptPass_cells h
    have hrows := promptPass_rows hne hskip h
    refine ⟨hcells, hrows, ?_⟩
    intro ans₀ saved₀ lastRow₀ l₀ h₀
    have hcells₀ := promptPass_cells h₀
    have hrows₀ := promptPass_rows hne hskip h₀
    constructor
    · funext q
      rw [hcells q, hcells₀ q]
    · intro s
      rw [hrows s, hrows₀ s]
  · intro hd hr
    have hclear : l.clear.ctx.skipLogitsCopy = false := hskip
    obtain ⟨⟨saved, l'⟩, h⟩ := prefixPass_succeeds model toks hS hclear hd hr
    exact ⟨_, Fallible.seq_ok.2 ⟨_, h, rfl⟩⟩

/-- The row the exact pass saves for the first prompt, where everything answers. -/
theorem PrefillExact.saves {cfg : EngineConfig} {hS : 0 < S}
    (h : PrefillExact cfg model allWell toks hS l) :
    ∃ saved l', prefixPass model allWell toks hS l.clear = .ok (saved, l') ∧
      saved 0 = model (toks ⟨0, hS⟩).zipIdx := by
  obtain ⟨⟨promptLogits, lastRow, l'⟩, hr⟩ := h.returns (fun _ => rfl) fun _ => rfl
  have hrows := (h.same _ _ _ hr).2.1 ⟨0, hS⟩
  obtain ⟨⟨saved, l₁⟩, hpass, hr⟩ := Fallible.seq_ok.1 hr
  cases hr
  exact ⟨saved, l', hpass, Option.some.inj hrows⟩

/-- **It is, whatever the model and whatever llama answers, exactly when the lane copies its
logits to the host.**  Otherwise the rows are those of an earlier decode, the same for two models
that differ on the prompt. -/
theorem prefill_exact_iff [Nontrivial V] (cfg : EngineConfig) (toks : Fin S → List Int)
    (l : Lane V σ S) (hS : 0 < S) (hne : ∀ s, toks s ≠ []) :
    (∀ model ans, PrefillExact cfg model ans toks hS l) ↔ l.ctx.skipLogitsCopy = false := by
  constructor
  · intro h
    by_contra hskip
    obtain ⟨v, w, hvw⟩ := exists_pair_ne V
    obtain ⟨saved, l₁, hv, hsv⟩ := (h (fun _ => v) allWell).saves
    obtain ⟨saved', l₂, hw, hsw⟩ := (h (fun _ => w) allWell).saves
    have hon : l.clear.ctx.skipLogitsCopy = true := Bool.not_eq_false _ ▸ hskip
    rw [prefixPass_blind hon hv hw] at hsv
    exact hvw (hsv.symm.trans hsw)
  · intro hskip model ans
    exact prefillExact_of_copy cfg model ans hS hne hskip

/-- Two equal prompts and one that is a prefix of them. -/
def nestedPrompts (s : Fin 3) : List Int := if s = 1 then [5, 6] else [5, 6, 7]

/-- A context with batches of two rows, which end inside the prompts. -/
def narrowLane : Lane Nat Nat 3 := { ctx := { nBatch := 2 }, sampler := 0, dbuf := fun _ => 0 }

theorem prefill_exact_iff_nested : ∃ saved lastRow l',
    promptPass { doubleEngine with prefixPrefill := true } List.length allWell nestedPrompts
        (by decide) narrowLane.clear = .ok (saved, lastRow, l') ∧
      l'.ctx.cells 1 = [(5, 0), (6, 1)] ∧ l'.ctx.cells 2 = [(5, 0), (6, 1), (7, 2)] ∧
      Stepwise.promptRow saved lastRow l'.ctx 1 = some 2 := by
  obtain ⟨hsame, hruns⟩ := (prefill_exact_iff doubleEngine nestedPrompts narrowLane (by decide)
    (by decide)).2 rfl List.length allWell
  obtain ⟨⟨saved, lastRow, l'⟩, h⟩ := hruns (fun _ => rfl) (fun _ => rfl)
  obtain ⟨hcells, hrows, -⟩ := hsame saved lastRow l' h
  exact ⟨saved, lastRow, l', h, (hcells 1).trans rfl, (hcells 2).trans rfl, (hrows 1).trans rfl⟩

/-- The lane of the call after one whose sampler gave its stream up in device mode. -/
def strandedLane : Lane Nat Nat 1 :=
  let inst := freshInstance.call doubleEngine List.length
    (.stepwise allWell quittingSampler 0 fun _ => [5])
  inst.lane inst.ctx 1 0

/-- **There the prompt pass saves the row of the last decode copied**, that of two tokens, for a
prompt of three. -/
theorem prefill_reads_stale : (∃ saved lastRow l',
    promptPass { doubleEngine with prefixPrefill := true } List.length allWell
        (fun _ => [6, 8, 9]) (by decide) strandedLane.clear = .ok (saved, lastRow, l') ∧
      Stepwise.promptRow saved lastRow l'.ctx 0 = some 2) ∧
    ¬ PrefillExact doubleEngine List.length allWell (fun _ => [6, 8, 9]) (by decide)
      strandedLane := by
  have hrun : (promptPass { doubleEngine with prefixPrefill := true } List.length allWell
      (fun _ => [6, 8, 9]) (by decide) strandedLane.clear).toOption.map
        (fun r => Stepwise.promptRow r.1 r.2.1 r.2.2.ctx 0) = some (some 2) := by decide +kernel
  obtain ⟨⟨saved, lastRow, l'⟩, h, hstale⟩ := Option.map_eq_some_iff.1 hrun
  have h := Fallible.toOption_eq_some.1 h
  refine ⟨⟨saved, lastRow, l', h, hstale⟩, fun hexact => ?_⟩
  have hrow := (hexact.same _ _ _ h).2.1 0
  rw [Fin.val_zero, hstale] at hrow
  cases hrow

end Engine
