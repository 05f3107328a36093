import Mathlib.Data.List.Flatten
import SuprMeow.Engine.Lane

/-!
# The prompt pass

All prompts are decoded before the first token is drawn, each on its own sequence and with the
logits of its last token.  Either the whole of them is one batch, or the prefix they share is
decoded once on sequence 0, copied to the others, and the rest follows in batches of `n_batch`
rows, each full batch being flushed and its output rows saved.

* `promptBatch_spec` — what the one batch leaves;
* `prefixPass_spec`, `prefixPass_succeeds` — the shared prefix leaves the same.
-/

set_option autoImplicit false

namespace Engine

variable {V σ : Type} {S : Nat}

/-! ## The two ways -/

/-- The rows of prompt `s` from token `c` on. -/
def promptRows (toks : Fin S → List Int) (c : Nat) (s : Fin S) : List BatchRow :=
  ((toks s).zipIdx.drop c).map fun e => ⟨e.1, e.2, s, e.2 + 1 == (toks s).length⟩

/-- The batch of all prompts. -/
def promptBatch (toks : Fin S → List Int) : List BatchRow :=
  (List.finRange S).flatMap (promptRows toks 0)

/-- How far two prompts agree, up to `n` tokens. -/
def agree : Nat → List Int → List Int → Nat
  | n + 1, x :: xs, y :: ys => if x = y then agree n xs ys + 1 else 0
  | _, _, _ => 0

/-- The length of the prefix all prompts share, their last tokens left out. -/
def commonPrefix (toks : Fin S → List Int) (h : 0 < S) : Nat :=
  ((List.finRange S).drop 1).foldl
    (fun common s => agree (min common ((toks s).length - 1)) (toks s) (toks ⟨0, h⟩))
    ((toks ⟨0, h⟩).length - 1)

/-- The rows of the shared prefix, all of them on sequence 0. -/
def sharedRows (prompt : List Int) (common : Nat) : List BatchRow :=
  (prompt.zipIdx.take common).map fun e => ⟨e.1, e.2, 0, false⟩

/-- The rows of the shared prefix are decoded whenever `cap` of them are waiting, and at the
end. -/
def feedShared (model : History → V) (ans : Answers) (cap : Nat) :
    List BatchRow → List BatchRow → Lane V σ S → Except (Failure (Lane V σ S)) (Lane V σ S)
  | [], _, l => .ok l
  | r :: rest, pb, l =>
    if (pb ++ [r]).length = cap ∨ rest = [] then do
      let l ← l.decode model ans "shared prefix decode failed" (pb ++ [r])
      feedShared model ans cap rest [] l
    else feedShared model ans cap rest (pb ++ [r]) l

/-- The copies of sequence 0 to the others. -/
def copyShared (S : Nat) (c : LlamaContext V) : LlamaContext V :=
  ((List.range S).drop 1).foldl (fun c s => c.memorySeqCp s) c

/-- The logits of the flushed output rows are saved under their sequences. -/
def collect (c : LlamaContext V) : List (Nat × Nat) → (Nat → V) → Option (Nat → V)
  | [], saved => some saved
  | (seq, row) :: rest, saved =>
    match c.getLogitsIth row with
    | none => none
    | some v => collect c rest (Function.update saved seq v)

/-- The state of the suffix loop: the waiting rows, their outputs (sequence and row), and
`prompt_logits`. -/
structure Prefill (V σ : Type) (S : Nat) where
  pb : List BatchRow := []
  outputs : List (Nat × Nat) := []
  promptLogits : Nat → V
  lane : Lane V σ S

def flush (model : History → V) (ans : Answers) (p : Prefill V σ S) :
    Except (Failure (Lane V σ S)) (Prefill V σ S) :=
  if p.pb = [] then .ok p
  else do
    let l ← p.lane.decode model ans "prompt suffix decode failed" p.pb
    match if ans.hostRow l.clock then collect l.ctx p.outputs p.promptLogits else none with
    | none => .error { error := "prompt suffix decode failed", left := l.tick }
    | some promptLogits => .ok { promptLogits, lane := l.tick }

def addRow (model : History → V) (ans : Answers) (cap : Nat) (p : Prefill V σ S)
    (r : BatchRow) : Except (Failure (Lane V σ S)) (Prefill V σ S) :=
  let p := { p with
    pb := p.pb ++ [r]
    outputs := if r.logits then p.outputs ++ [(r.seq, p.pb.length)] else p.outputs }
  if p.pb.length = cap then flush model ans p else .ok p

/-- The prompt pass with a shared prefix: `prompt_logits` and the lane. -/
def prefixPass [Inhabited V] (model : History → V) (ans : Answers) (toks : Fin S → List Int)
    (h : 0 < S) (l : Lane V σ S) : Except (Failure (Lane V σ S)) ((Nat → V) × Lane V σ S) := do
  let common := commonPrefix toks h
  let cap := l.ctx.nBatch
  let l ← feedShared model ans cap (sharedRows (toks ⟨0, h⟩) common) [] l
  let l := if common = 0 then l else { l with ctx := copyShared S l.ctx }
  let p ← ((List.finRange S).flatMap (promptRows toks common)).foldlM (addRow model ans cap)
    { promptLogits := fun _ => default, lane := l }
  let p ← flush model ans p
  return (p.promptLogits, p.lane)

/-! ## The rows of the prompts -/

theorem zipIdx_pairwise {α : Type} (xs : List α) (k : Nat) :
    (xs.zipIdx k).Pairwise fun a b => a.2 < b.2 := by
  rw [← List.pairwise_map (f := Prod.snd) (R := (· < ·)), List.zipIdx_map_snd]
  exact List.pairwise_lt_range'

theorem take_zipIdx {α : Type} (xs : List α) (n k : Nat) :
    (xs.zipIdx k).take n = (xs.take n).zipIdx k := by
  induction xs generalizing n k with
  | nil => simp
  | cons x xs ih =>
    cases n with
    | zero => rfl
    | succ n => simp [ih]

theorem sharedRows_seq (prompt : List Int) (common : Nat) :
    ∀ r ∈ sharedRows prompt common, decide (r.seq = 0) = true := by
  intro r hr
  obtain ⟨e, -, rfl⟩ := List.mem_map.1 hr
  rfl

theorem promptRows_seq {toks : Fin S → List Int} {c : Nat} {s : Fin S} {r : BatchRow}
    (h : r ∈ promptRows toks c s) : r.seq = s ∧ r.pos < (toks s).length := by
  obtain ⟨e, he, rfl⟩ := List.mem_map.1 h
  have hlt := List.snd_lt_of_mem_zipIdx (List.mem_of_mem_drop he)
  exact ⟨rfl, hlt⟩

theorem promptRows_settled (toks : Fin S → List Int) (c : Nat) :
    Settled ((List.finRange S).flatMap (promptRows toks c)) := by
  unfold Settled
  rw [List.pairwise_flatMap]
  constructor
  · intro s _
    unfold promptRows
    refine List.pairwise_map.2 ?_
    refine ((zipIdx_pairwise (toks s) 0).sublist (List.drop_sublist c _)).imp_of_mem ?_
    intro e e' _ he' hlt hlast
    have hend := List.snd_lt_of_mem_zipIdx (List.mem_of_mem_drop he')
    have := beq_iff_eq.1 hlast
    omega
  · refine (List.nodup_finRange S).imp fun hne r hr r' hr' _ heq => hne (Fin.ext ?_)
    rw [← (promptRows_seq hr).1, ← (promptRows_seq hr').1, heq]

/-- Each prompt is stored on its own sequence. -/
theorem storeAll_promptRows (cells : Nat → History) (toks : Fin S → List Int) (c : Nat)
    (s : Fin S) : storeAll cells ((List.finRange S).flatMap (promptRows toks c)) s
      = cells s ++ (toks s).zipIdx.drop c := by
  have hown (l : List (Fin S)) (hnd : l.Nodup) (cells : Nat → History) :
      storeAll cells (l.flatMap (promptRows toks c)) s
        = cells s ++ if s ∈ l then (toks s).zipIdx.drop c else [] := by
    induction l generalizing cells with
    | nil => simp [storeAll]
    | cons t l ih =>
      obtain ⟨ht, hnd⟩ := List.nodup_cons.1 hnd
      rw [List.flatMap_cons, storeAll_append, ih hnd]
      by_cases hs : t = s
      · subst hs
        rw [if_neg ht, if_pos List.mem_cons_self, List.append_nil, storeAll_apply,
          List.filter_eq_self.2 fun r hr => decide_eq_true (promptRows_seq hr).1]
        unfold promptRows
        rw [List.map_map]
        congr 1
        exact List.map_id _
      · rw [storeAll_of_not_mem fun r hr heq => hs (Fin.ext ((promptRows_seq hr).1 ▸ heq))]
        simp [Ne.symm hs]
  rw [hown _ (List.nodup_finRange S), if_pos (List.mem_finRange s)]

/-- A prompt with a token left has a row that asks for its logits. -/
theorem exists_last_row (toks : Fin S → List Int) (s : Fin S) {c : Nat}
    (h : c < (toks s).length) :
    ∃ r ∈ (List.finRange S).flatMap (promptRows toks c), r.logits = true ∧ r.seq = s := by
  have hlast : (toks s).length - 1 < (toks s).length := by omega
  refine ⟨⟨(toks s)[(toks s).length - 1], (toks s).length - 1, s,
    (toks s).length - 1 + 1 == (toks s).length⟩, ?_, ?_, rfl⟩
  · refine List.mem_flatMap.2 ⟨s, List.mem_finRange s, ?_⟩
    refine List.mem_map.2 ⟨((toks s)[(toks s).length - 1], (toks s).length - 1), ?_, rfl⟩
    refine List.mem_iff_getElem.2 ⟨(toks s).length - 1 - c, by simp; omega, ?_⟩
    simp only [List.getElem_drop, List.getElem_zipIdx]
    simp only [show c + ((toks s).length - 1 - c) = (toks s).length - 1 by omega, Nat.zero_add]
  · exact beq_iff_eq.2 (by omega)

/-! ## The shared prefix -/

theorem agree_le (n : Nat) (xs ys : List Int) : agree n xs ys ≤ n := by
  fun_induction agree n xs ys <;> omega

theorem agree_take (n : Nat) (xs ys : List Int) :
    xs.take (agree n xs ys) = ys.take (agree n xs ys) := by
  fun_induction agree n xs ys with
  | case1 n x xs ys ih => simp [ih]
  | case2 => rfl
  | case3 => simp

theorem take_eq_of_le {α : Type} {xs ys : List α} {m n : Nat} (h : xs.take n = ys.take n)
    (hm : m ≤ n) : xs.take m = ys.take m := by
  have := congrArg (List.take m) h
  rwa [List.take_take, List.take_take, Nat.min_eq_left hm] at this

theorem foldl_agree (toks : Fin S → List Int) (front : List Int) (l : List (Fin S))
    (start common : Nat)
    (h : common = l.foldl (fun common s => agree (min common ((toks s).length - 1)) (toks s) front)
      start) :
    common ≤ start ∧ ∀ s ∈ l, common ≤ (toks s).length - 1 ∧
      (toks s).take common = front.take common := by
  induction l generalizing start with
  | nil => exact ⟨Nat.le_of_eq h, nofun⟩
  | cons t l ih =>
    obtain ⟨hle, hrest⟩ := ih _ h
    dsimp only at hle
    have hmin := agree_le (min start ((toks t).length - 1)) (toks t) front
    refine ⟨by omega, List.forall_mem_cons.2 ⟨⟨by omega, ?_⟩, hrest⟩⟩
    exact take_eq_of_le (agree_take _ _ _) hle

/-- Every prompt begins with the shared prefix and goes on behind it. -/
theorem commonPrefix_spec (toks : Fin S → List Int) (h : 0 < S) (s : Fin S) :
    commonPrefix toks h ≤ (toks s).length - 1 ∧
      (toks s).take (commonPrefix toks h) = (toks ⟨0, h⟩).take (commonPrefix toks h) := by
  obtain ⟨hfront, hrest⟩ := foldl_agree toks (toks ⟨0, h⟩) ((List.finRange S).drop 1) _ _ rfl
  by_cases hs : s = ⟨0, h⟩
  · subst hs
    exact ⟨hfront, rfl⟩
  · refine hrest s (List.mem_iff_getElem.2 ⟨s.val - 1, ?_, ?_⟩)
    · have := s.isLt
      have : s.val ≠ 0 := fun h0 => hs (Fin.ext h0)
      simp
      omega
    · have : s.val ≠ 0 := fun h0 => hs (Fin.ext h0)
      refine Fin.ext ?_
      simp
      omega

/-- A lane that went on decoding: nothing but its context has changed. -/
structure Lane.Kept (l l' : Lane V σ S) : Prop where
  sampler : l'.sampler = l.sampler
  calls : l'.calls = l.calls
  chosen : l'.chosen = l.chosen
  skip : l'.ctx.skipLogitsCopy = l.ctx.skipLogitsCopy
  decoded : ∃ batches, l'.decoded = l.decoded ++ batches

theorem Lane.Kept.refl (l : Lane V σ S) : l.Kept l :=
  ⟨rfl, rfl, rfl, rfl, [], (List.append_nil _).symm⟩

theorem Lane.Kept.trans {l l' l'' : Lane V σ S} (h : l.Kept l') (h' : l'.Kept l'') :
    l.Kept l'' := by
  obtain ⟨b, hb⟩ := h.decoded
  obtain ⟨b', hb'⟩ := h'.decoded
  refine ⟨h'.sampler.trans h.sampler, h'.calls.trans h.calls, h'.chosen.trans h.chosen,
    h'.skip.trans h.skip, b ++ b', ?_⟩
  rw [hb', hb, List.append_assoc]

theorem Lane.decode_kept {model : History → V} {ans : Answers} {error : String}
    {batch : List BatchRow} {l l' : Lane V σ S} (h : l.decode model ans error batch = .ok l') :
    l.Kept l' := by
  obtain ⟨-, rfl⟩ := Lane.decode_eq_ok.1 h
  exact ⟨rfl, rfl, rfl, rfl, [batch], rfl⟩

section Pass

variable {model : History → V} {ans : Answers}

theorem feedShared_spec {cap : Nat} {rows pb : List BatchRow} {l l' : Lane V σ S}
    (h : feedShared model ans cap rows pb l = .ok l') (hpb : rows = [] → pb = []) :
    l.Kept l' ∧ l'.ctx.cells = storeAll l.ctx.cells (pb ++ rows) := by
  induction rows generalizing pb l with
  | nil =>
    cases h
    rw [hpb rfl]
    exact ⟨.refl _, rfl⟩
  | cons r rest ih =>
    unfold feedShared at h
    split at h
    · obtain ⟨l₁, hd, hrest⟩ := Fallible.seq_ok.1 h
      obtain ⟨hkept, hcells⟩ := ih hrest fun _ => rfl
      refine ⟨(Lane.decode_kept hd).trans hkept, ?_⟩
      obtain ⟨-, rfl⟩ := Lane.decode_eq_ok.1 hd
      rw [hcells, List.nil_append, List.append_cons pb r rest, storeAll_append _ (pb ++ [r])]
      rfl
    · rename_i hmore
      obtain ⟨hkept, hcells⟩ := ih h fun hnil => absurd (.inr hnil) hmore
      refine ⟨hkept, ?_⟩
      rw [hcells, List.append_cons pb r rest]

theorem feedShared_succeeds (model : History → V) (hd : ∀ n, ans.decode n = true) (cap : Nat)
    (rows pb : List BatchRow) (l : Lane V σ S) :
    ∃ l', feedShared model ans cap rows pb l = .ok l' := by
  induction rows generalizing pb l with
  | nil => exact ⟨l, rfl⟩
  | cons r rest ih =>
    unfold feedShared
    split
    · obtain ⟨l', hl'⟩ := ih [] _
      exact ⟨l', Fallible.seq_ok.2 ⟨_, Lane.decode_eq_ok.2 ⟨hd _, rfl⟩, hl'⟩⟩
    · exact ih (pb ++ [r]) l

/-- The copies leave every sequence with what sequence 0 holds. -/
theorem copyShared_cells (c : LlamaContext V) (s : Fin S) :
    (copyShared S c).cells s = if s.val = 0 then c.cells s else c.cells 0 := by
  have hcopy (l : List Nat) (h0 : 0 ∉ l) (c : LlamaContext V) (q : Nat) :
      (l.foldl (fun c s => c.memorySeqCp s) c).cells q
        = if q ∈ l then c.cells 0 else c.cells q := by
    induction l generalizing c with
    | nil => rfl
    | cons t l ih =>
      rw [List.foldl_cons, ih (fun h => h0 (List.mem_cons_of_mem _ h))]
      have ht : 0 ≠ t := fun h => h0 (h ▸ List.mem_cons_self)
      unfold LlamaContext.memorySeqCp
      dsimp only
      rw [Function.update_of_ne ht]
      by_cases hq : q = t
      · subst hq; simp
      · simp [hq]
  unfold copyShared
  rw [hcopy _ (by simp [List.mem_iff_getElem])]
  have hs := s.isLt
  by_cases h0 : s.val = 0
  · rw [if_pos h0, if_neg (by rw [h0]; simp [List.mem_iff_getElem])]
  · rw [if_neg h0, if_pos]
    refine List.mem_iff_getElem.2 ⟨s.val - 1, by simp; omega, ?_⟩
    simp
    omega

theorem copyShared_skip (S : Nat) (c : LlamaContext V) :
    (copyShared S c).skipLogitsCopy = c.skipLogitsCopy := by
  unfold copyShared
  induction (List.range S).drop 1 generalizing c with
  | nil => rfl
  | cons t l ih => exact ih _

/-! ## The rest of the prompts -/

/-- Readable rows are all saved. -/
theorem collect_spec {c : LlamaContext V} {g : Nat → V} {outputs : List (Nat × Nat)}
    (h : ∀ e ∈ outputs, c.getLogitsIth e.2 = some (g e.1)) (saved : Nat → V) :
    ∃ saved', collect c outputs saved = some saved' ∧
      ∀ q, saved' q = if q ∈ outputs.map (·.1) then g q else saved q := by
  induction outputs generalizing saved with
  | nil => exact ⟨saved, rfl, fun _ => rfl⟩
  | cons e rest ih =>
    obtain ⟨seq, row⟩ := e
    obtain ⟨hrow, hrest⟩ := List.forall_mem_cons.1 h
    obtain ⟨saved', hs, hq⟩ := ih hrest (Function.update saved seq (g seq))
    refine ⟨saved', ?_, fun q => ?_⟩
    · unfold collect
      rw [hrow]
      exact hs
    · rw [hq q, Function.update_apply, List.map_cons]
      by_cases hm : q ∈ rest.map (·.1)
      · rw [if_pos hm, if_pos (List.mem_cons_of_mem _ hm)]
      · by_cases hs : q = seq
        · subst hs
          rw [if_neg hm, if_pos rfl, if_pos List.mem_cons_self]
        · rw [if_neg hm, if_neg hs, if_neg (by simp [hs, hm])]

/-- The state of the suffix loop when the rows `done` were added: some are flushed and their
logits are saved, the others wait. -/
structure Filling (model : History → V) (cells : Nat → History) (l : Lane V σ S)
    (done : List BatchRow) (p : Prefill V σ S) : Prop where
  kept : l.Kept p.lane
  outputs : p.outputs = (flagged 0 p.pb).map Prod.swap
  flushed : ∃ flushed, flushed ++ p.pb = done ∧ p.lane.ctx.cells = storeAll cells flushed ∧
    ∀ r ∈ flushed, r.logits = true → p.promptLogits r.seq = model (p.lane.ctx.cells r.seq)

variable {cells : Nat → History} {l : Lane V σ S} {done : List BatchRow} {p p' : Prefill V σ S}

/-- What a flush saves: the logits of the sequences that end in the waiting rows. -/
theorem Filling.collect (h : Filling model cells l done p) (hset : Settled done)
    (hskip : l.ctx.skipLogitsCopy = false) :
    ∃ saved, Engine.collect (p.lane.ctx.decode model p.pb) p.outputs p.promptLogits = some saved ∧
      ∀ q, saved q = if q ∈ (flagged 0 p.pb).map (·.2)
        then model (storeAll p.lane.ctx.cells p.pb q) else p.promptLogits q := by
  obtain ⟨flushed, rfl, -, -⟩ := h.flushed
  have hpb : Settled p.pb := (List.pairwise_append.1 hset).2.1
  have hread : ∀ e ∈ p.outputs, (p.lane.ctx.decode model p.pb).getLogitsIth e.2
      = some (model (storeAll p.lane.ctx.cells p.pb e.1)) := by
    intro e he
    rw [h.outputs] at he
    obtain ⟨⟨row, q⟩, hf, rfl⟩ := List.mem_map.1 he
    exact decode_reads_host (h.kept.skip.trans hskip) hpb hf
  obtain ⟨saved, hs, hq⟩ := collect_spec
    (g := fun q => model (storeAll p.lane.ctx.cells p.pb q)) hread p.promptLogits
  refine ⟨saved, hs, fun q => ?_⟩
  rw [hq q, h.outputs, List.map_map]
  rfl

theorem Filling.flush_spec (h : Filling model cells l done p) (hset : Settled done)
    (hskip : l.ctx.skipLogitsCopy = false) (hf : flush model ans p = .ok p') :
    Filling model cells l done p' ∧ p'.pb = [] := by
  obtain ⟨saved, hs, hq⟩ := h.collect hset hskip
  unfold flush at hf
  split at hf
  · rename_i hnil
    cases hf
    exact ⟨h, hnil⟩
  · obtain ⟨l', hd, hrest⟩ := Fallible.seq_ok.1 hf
    have hkept := Lane.decode_kept hd
    obtain ⟨-, rfl⟩ := Lane.decode_eq_ok.1 hd
    dsimp only at hrest
    rw [hs] at hrest
    split at hrest
    · cases hrest
    rename_i saved' hsome
    cases hrest
    obtain rfl : saved = saved' := by
      split at hsome
      · exact Option.some.inj hsome
      · cases hsome
    refine ⟨⟨h.kept.trans ⟨hkept.sampler, hkept.calls, hkept.chosen, hkept.skip, hkept.decoded⟩,
      rfl, ?_⟩, rfl⟩
    obtain ⟨flushed, rfl, hcells, hold⟩ := h.flushed
    have hnow : storeAll p.lane.ctx.cells p.pb = storeAll cells (flushed ++ p.pb) := by
      rw [hcells, storeAll_append]
    refine ⟨flushed ++ p.pb, List.append_nil _, hnow, fun r hr hl => ?_⟩
    change saved r.seq = model (storeAll p.lane.ctx.cells p.pb r.seq)
    rw [hq]
    split
    · rfl
    · rename_i hnone
      rcases List.mem_append.1 hr with hr | hr
      · -- a sequence that ended earlier has no row among those decoded now
        rw [hold r hr hl, storeAll_of_not_mem]
        exact fun r' hr' => (List.pairwise_append.1 hset).2.2 r hr r' hr' hl
      · obtain ⟨row, hrow⟩ := exists_flagged hr hl 0
        exact absurd (List.mem_map.2 ⟨_, hrow, rfl⟩) hnone

theorem Filling.flush_succeeds (h : Filling model cells l done p) (hset : Settled done)
    (hskip : l.ctx.skipLogitsCopy = false) (hd : ∀ n, ans.decode n = true)
    (hr : ∀ n, ans.hostRow n = true) : ∃ p', flush model ans p = .ok p' := by
  obtain ⟨saved, hs, -⟩ := h.collect hset hskip
  unfold flush
  split
  · exact ⟨p, rfl⟩
  · obtain ⟨l', hl'⟩ : ∃ l', p.lane.decode model ans "prompt suffix decode failed" p.pb = .ok l' :=
      ⟨_, Lane.decode_eq_ok.2 ⟨hd _, rfl⟩⟩
    refine ⟨{ promptLogits := saved, lane := l'.tick }, Fallible.seq_ok.2 ⟨l', hl', ?_⟩⟩
    obtain ⟨-, rfl⟩ := Lane.decode_eq_ok.1 hl'
    dsimp only
    rw [hr, if_pos rfl, hs]

/-- A row that was added waits, with its output. -/
theorem Filling.wait (h : Filling model cells l done p) (r : BatchRow) :
    Filling model cells l (done ++ [r]) { p with
      pb := p.pb ++ [r]
      outputs := if r.logits then p.outputs ++ [(r.seq, p.pb.length)] else p.outputs } := by
  obtain ⟨flushed, rfl, hcells, hold⟩ := h.flushed
  refine ⟨h.kept, ?_, flushed, (List.append_assoc _ _ _).symm, hcells, hold⟩
  dsimp only
  rw [flagged_append, List.map_append, ← h.outputs, Nat.zero_add]
  unfold flagged
  split <;> simp [flagged]

theorem Filling.addRow_spec {cap : Nat} {r : BatchRow} (h : Filling model cells l done p)
    (hset : Settled (done ++ [r])) (hskip : l.ctx.skipLogitsCopy = false)
    (ha : addRow model ans cap p r = .ok p') : Filling model cells l (done ++ [r]) p' := by
  unfold addRow at ha
  dsimp only at ha
  split at ha
  · exact ((h.wait r).flush_spec hset hskip ha).1
  · cases ha
    exact h.wait r

theorem Filling.addRow_succeeds {r : BatchRow} (h : Filling model cells l done p)
    (hset : Settled (done ++ [r])) (hskip : l.ctx.skipLogitsCopy = false)
    (hd : ∀ n, ans.decode n = true) (hr : ∀ n, ans.hostRow n = true) (cap : Nat) :
    ∃ p', addRow model ans cap p r = .ok p' := by
  unfold addRow
  dsimp only
  split
  · exact (h.wait r).flush_succeeds hset hskip hd hr
  · exact ⟨_, rfl⟩

theorem Settled.of_prefix {b b' : List BatchRow} (h : Settled b) (hb : b' <+: b) : Settled b' :=
  List.Pairwise.sublist hb.sublist h

/-! ## What the prompt pass leaves -/

/-- A lane whose context has gone from nothing to the prompts. -/
structure Prompted (toks : Fin S → List Int) (l l' : Lane V σ S) : Prop where
  kept : l.Kept l'
  cells : ∀ s : Fin S, l'.ctx.cells s = (toks s).zipIdx

variable {toks : Fin S → List Int} {l' : Lane V σ S}

/-- **One batch of all prompts leaves the prompts**, and their last rows can be read. -/
theorem promptBatch_spec {error : String} (hcells : l.ctx.cells = fun _ => [])
    (hskip : l.ctx.skipLogitsCopy = false) (hne : ∀ s, toks s ≠ [])
    (h : l.decode model ans error (promptBatch toks) = .ok l') :
    Prompted toks l l' ∧ ∀ s : Fin S, (lastRow (promptBatch toks) s).bind l'.ctx.getLogitsIth
      = some (model (toks s).zipIdx) := by
  have hkept := Lane.decode_kept h
  obtain ⟨-, rfl⟩ := Lane.decode_eq_ok.1 h
  have hall (s : Fin S) : storeAll l.ctx.cells (promptBatch toks) s = (toks s).zipIdx := by
    unfold promptBatch
    rw [storeAll_promptRows, hcells]
    rfl
  refine ⟨⟨hkept, hall⟩, fun s => ?_⟩
  obtain ⟨r, hr, hl, hs⟩ := exists_last_row toks s (List.length_pos_iff.2 (hne s))
  obtain ⟨row, hrow, hmem⟩ := lastRow_spec hr hl
  rw [hs] at hrow hmem
  have hrow' : lastRow (promptBatch toks) s = some row := hrow
  rw [hrow', ← hall s]
  exact decode_reads_host hskip (promptRows_settled toks 0) hmem

/-- The shared prefix and its copies leave every sequence with the beginning of its prompt. -/
theorem sharedPrefix_spec {hS : 0 < S} {cap : Nat} (hcells : l.ctx.cells = fun _ => [])
    (h : feedShared model ans cap (sharedRows (toks ⟨0, hS⟩) (commonPrefix toks hS)) [] l
      = .ok l') (s : Fin S) :
    (if commonPrefix toks hS = 0 then l' else { l' with ctx := copyShared S l'.ctx }).ctx.cells s
      = (toks s).zipIdx.take (commonPrefix toks hS) := by
  obtain ⟨-, hfed⟩ := feedShared_spec h fun _ => rfl
  obtain ⟨-, hs⟩ := commonPrefix_spec toks hS s
  rw [List.nil_append, hcells] at hfed
  have hzip : (toks s).zipIdx.take (commonPrefix toks hS)
      = (toks ⟨0, hS⟩).zipIdx.take (commonPrefix toks hS) := by
    rw [take_zipIdx, take_zipIdx, hs]
  split
  · rename_i hzero
    rw [hzero] at hfed
    rw [hfed, hzero]
    rfl
  · have hown : l'.ctx.cells 0 = (toks ⟨0, hS⟩).zipIdx.take (commonPrefix toks hS) := by
      rw [hfed, storeAll_apply, List.filter_eq_self.2 (sharedRows_seq _ _)]
      unfold sharedRows
      rw [List.map_map]
      exact List.map_id _
    change (copyShared S l'.ctx).cells s = _
    rw [copyShared_cells]
    split
    · rename_i h0
      rw [h0, hown, hzip]
    · rw [hown, hzip]

theorem sharedPrefix_kept {hS : 0 < S} {cap : Nat}
    (h : feedShared model ans cap (sharedRows (toks ⟨0, hS⟩) (commonPrefix toks hS)) [] l
      = .ok l') :
    l.Kept (if commonPrefix toks hS = 0 then l' else { l' with ctx := copyShared S l'.ctx }) := by
  have hk := (feedShared_spec h fun _ => rfl).1
  split
  · exact hk
  · exact hk.trans ⟨rfl, rfl, rfl, copyShared_skip S l'.ctx, [], (List.append_nil _).symm⟩

variable [Inhabited V]

/-- **The pass with a shared prefix leaves the prompts** and saves the logits of each. -/
theorem prefixPass_spec {hS : 0 < S} {saved : Nat → V} (hcells : l.ctx.cells = fun _ => [])
    (hskip : l.ctx.skipLogitsCopy = false) (hne : ∀ s, toks s ≠ [])
    (h : prefixPass model ans toks hS l = .ok (saved, l')) :
    Prompted toks l l' ∧ ∀ s : Fin S, saved s = model (toks s).zipIdx := by
  obtain ⟨l₁, hfed, h⟩ := Fallible.seq_ok.1 h
  have hkept := sharedPrefix_kept hfed
  have hshared := sharedPrefix_spec hcells hfed
  generalize hl₂ : (if commonPrefix toks hS = 0 then l₁
    else { l₁ with ctx := copyShared S l₁.ctx }) = l₂ at h hkept hshared
  obtain ⟨p, hfill, h⟩ := Fallible.seq_ok.1 h
  obtain ⟨p', hflush, h⟩ := Fallible.seq_ok.1 h
  cases h
  have hskip₂ := hkept.skip.trans hskip
  have hset := promptRows_settled toks (commonPrefix toks hS)
  have hall : Filling model l₂.ctx.cells l₂ _ p :=
    Fallible.foldlM_ok (I := Filling model l₂.ctx.cells l₂) ⟨.refl _, rfl, [], rfl, rfl, nofun⟩
      (fun done r hpre q q' hq => hq.addRow_spec (hset.of_prefix hpre) hskip₂) hfill
  obtain ⟨hend, hpb⟩ := hall.flush_spec hset hskip₂ hflush
  obtain ⟨flushed, hrows, hcells', hsaved⟩ := hend.flushed
  rw [hpb, List.append_nil] at hrows
  subst hrows
  have hall (s : Fin S) : p'.lane.ctx.cells s = (toks s).zipIdx := by
    rw [hcells', storeAll_promptRows, hshared s, List.take_append_drop]
  refine ⟨⟨hkept.trans hend.kept, hall⟩, fun s => ?_⟩
  obtain ⟨hle, -⟩ := commonPrefix_spec toks hS s
  have hpos := List.length_pos_iff.2 (hne s)
  obtain ⟨r, hr, hl, hs⟩ := exists_last_row toks s (c := commonPrefix toks hS) (by omega)
  have := hsaved r hr hl
  rwa [hs, hall s] at this

/-- **It succeeds where no call to llama fails.** -/
theorem prefixPass_succeeds (model : History → V) (toks : Fin S → List Int) (hS : 0 < S)
    (hskip : l.ctx.skipLogitsCopy = false) (hd : ∀ n, ans.decode n = true)
    (hr : ∀ n, ans.hostRow n = true) :
    ∃ r, prefixPass model ans toks hS l = .ok r := by
  obtain ⟨l₁, hfed⟩ := feedShared_succeeds model hd l.ctx.nBatch
    (sharedRows (toks ⟨0, hS⟩) (commonPrefix toks hS)) [] l
  have hkept := sharedPrefix_kept hfed
  unfold prefixPass
  generalize hl₂ : (if commonPrefix toks hS = 0 then l₁
    else { l₁ with ctx := copyShared S l₁.ctx }) = l₂ at hkept
  have hskip₂ := hkept.skip.trans hskip
  have hset := promptRows_settled toks (commonPrefix toks hS)
  obtain ⟨p, hfill, hall⟩ := Fallible.foldlM_succeeds
    (f := addRow model ans l.ctx.nBatch) (I := Filling model l₂.ctx.cells l₂)
    (l := (List.finRange S).flatMap (promptRows toks (commonPrefix toks hS)))
    (a := { promptLogits := fun _ => default, lane := l₂ })
    ⟨.refl _, rfl, [], rfl, rfl, nofun⟩ fun done r hpre q hq => by
      obtain ⟨q', hq'⟩ := hq.addRow_succeeds (hset.of_prefix hpre) hskip₂ hd hr l.ctx.nBatch
      exact ⟨q', hq', hq.addRow_spec (hset.of_prefix hpre) hskip₂ hq'⟩
  obtain ⟨p', hflush⟩ := hall.flush_succeeds hset hskip₂ hd hr
  refine ⟨_, Fallible.seq_ok.2 ⟨l₁, hfed, Fallible.seq_ok.2 ⟨p, ?_,
    Fallible.seq_ok.2 ⟨p', hflush, rfl⟩⟩⟩⟩
  rw [hl₂]
  exact hfill

end Pass

end Engine
