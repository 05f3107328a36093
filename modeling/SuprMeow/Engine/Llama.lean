import Mathlib.Data.List.Basic
import Mathlib.Data.List.FinRange
import Mathlib.Data.List.Nodup
import Mathlib.Logic.Function.Basic
import SuprMeow.Library.Fallible

/-!
# Contexts, decodes and logits

A llama context as the engine sees it: what every sequence holds, the rows of logits the last
decode left on the device, and the host copy of them.

* `LlamaContext.decode` — a batch is stored row by row; a row that asks for logits gets those of
  what its sequence holds by then;
* `LlamaContext.getLogitsIth`, `deviceRows` — the two ways to read them;
* `decode_reads_host`, `decode_reads_device` — after a batch in which no sequence goes on behind
  its output row, both read the logits of what the sequences hold.
-/

set_option autoImplicit false

namespace Engine

/-- A row of a `llama_batch`. -/
structure BatchRow where
  token : Int
  pos : Nat
  seq : Nat
  logits : Bool
  deriving DecidableEq

/-- The tokens and positions a sequence holds, in the order they were decoded. -/
abbrev History := List (Int × Nat)

structure LlamaContext (V : Type) where
  cells : Nat → History := fun _ => []
  /-- The batch row behind each output row of the last decode. -/
  outputIds : List Nat := []
  /-- The output tensor of the last decode, on the device. -/
  logitsDev : List V := []
  /-- The host buffer: what it was, as long as the copy is skipped. -/
  logits : List V := []
  skipLogitsCopy : Bool := false
  nBatch : Nat

variable {V : Type}

def store (cells : Nat → History) (r : BatchRow) : Nat → History :=
  Function.update cells r.seq (cells r.seq ++ [(r.token, r.pos)])

def storeAll (cells : Nat → History) (batch : List BatchRow) : Nat → History :=
  batch.foldl store cells

/-- The batch rows that ask for logits, counted from `k`, with what they get. -/
def forward (model : History → V) (cells : Nat → History) : Nat → List BatchRow → List (Nat × V)
  | _, [] => []
  | k, r :: rest =>
    let cells' := store cells r
    if r.logits then (k, model (cells' r.seq)) :: forward model cells' (k + 1) rest
    else forward model cells' (k + 1) rest

namespace LlamaContext

/-- `llama_memory_clear`. -/
def memoryClear (c : LlamaContext V) : LlamaContext V := { c with cells := fun _ => [] }

/-- `llama_memory_seq_cp(mem, 0, s, -1, -1)`. -/
def memorySeqCp (c : LlamaContext V) (s : Nat) : LlamaContext V :=
  { c with cells := Function.update c.cells s (c.cells 0) }

/-- `llama_set_skip_logits_copy`. -/
def setSkipLogitsCopy (c : LlamaContext V) (skip : Bool) : LlamaContext V :=
  { c with skipLogitsCopy := skip }

/-- `llama_decode` of a batch it accepts. -/
def decode (model : History → V) (c : LlamaContext V) (batch : List BatchRow) : LlamaContext V :=
  let outputs := forward model c.cells 0 batch
  { c with
    cells := storeAll c.cells batch
    outputIds := outputs.map (·.1)
    logitsDev := outputs.map (·.2)
    logits := if c.skipLogitsCopy then c.logits else outputs.map (·.2) }

/-- `llama_get_logits_ith`. -/
def getLogitsIth (c : LlamaContext V) (row : Nat) : Option V :=
  (c.outputIds.zip c.logits).lookup row

/-- The rows behind `llama_get_logits_device`, if there are `S` of them. -/
def deviceRows (c : LlamaContext V) (S : Nat) : Option (Fin S → V) :=
  if h : c.logitsDev.length = S then some fun s => c.logitsDev.get (s.cast h.symm) else none

end LlamaContext

/-! ## What a batch stores -/

theorem store_apply (cells : Nat → History) (r : BatchRow) (q : Nat) :
    store cells r q = if r.seq = q then cells q ++ [(r.token, r.pos)] else cells q := by
  unfold store
  rw [Function.update_apply]
  by_cases h : q = r.seq
  · subst h; simp
  · rw [if_neg h, if_neg (Ne.symm h)]

theorem storeAll_append (cells : Nat → History) (b b' : List BatchRow) :
    storeAll cells (b ++ b') = storeAll (storeAll cells b) b' := List.foldl_append

/-- A sequence gets the rows of the batch that are its own. -/
theorem storeAll_apply (cells : Nat → History) (batch : List BatchRow) (q : Nat) :
    storeAll cells batch q
      = cells q ++ (batch.filter (·.seq = q)).map fun r => (r.token, r.pos) := by
  induction batch generalizing cells with
  | nil => simp [storeAll]
  | cons r rest ih =>
    have hcons : storeAll cells (r :: rest) = storeAll (store cells r) rest := rfl
    rw [hcons, ih, store_apply]
    by_cases h : r.seq = q <;> simp [h]

theorem storeAll_of_not_mem {cells : Nat → History} {batch : List BatchRow} {q : Nat}
    (h : ∀ r ∈ batch, r.seq ≠ q) : storeAll cells batch q = cells q := by
  rw [storeAll_apply, List.filter_eq_nil_iff.2 (by simpa using h), List.map_nil, List.append_nil]

/-! ## Batches in which no sequence goes on behind its output row -/

def Settled (batch : List BatchRow) : Prop :=
  batch.Pairwise fun r r' => r.logits = true → r'.seq ≠ r.seq

/-- The rows that ask for logits, counted from `k`, with their sequences. -/
def flagged : Nat → List BatchRow → List (Nat × Nat)
  | _, [] => []
  | k, r :: rest => if r.logits then (k, r.seq) :: flagged (k + 1) rest else flagged (k + 1) rest

theorem forward_settled (model : History → V) {cells : Nat → History} {batch : List BatchRow}
    (k : Nat) (h : Settled batch) :
    forward model cells k batch
      = (flagged k batch).map fun e => (e.1, model (storeAll cells batch e.2)) := by
  induction batch generalizing cells k with
  | nil => rfl
  | cons r rest ih =>
    obtain ⟨hr, hrest⟩ := List.pairwise_cons.1 h
    have hcons : storeAll cells (r :: rest) = storeAll (store cells r) rest := rfl
    unfold forward flagged
    split
    · rename_i hl
      have hfix : storeAll (store cells r) rest r.seq = store cells r r.seq :=
        storeAll_of_not_mem fun r' hr' => hr r' hr' hl
      dsimp only
      rw [List.map_cons, ih (k + 1) hrest, hcons, hfix]
    · dsimp only
      rw [ih (k + 1) hrest, hcons]

/-- Which rows are output does not depend on the model. -/
theorem forward_rows (model : History → V) (cells : Nat → History) (k : Nat)
    (batch : List BatchRow) :
    (forward model cells k batch).map (·.1) = (flagged k batch).map (·.1) := by
  induction batch generalizing cells k with
  | nil => rfl
  | cons r rest ih =>
    unfold forward flagged
    split
    · exact congrArg (k :: ·) (ih _ _)
    · exact ih _ _

theorem le_of_mem_flagged {batch : List BatchRow} {k : Nat} {e : Nat × Nat}
    (h : e ∈ flagged k batch) : k ≤ e.1 := by
  induction batch generalizing k with
  | nil => cases h
  | cons r rest ih =>
    unfold flagged at h
    split at h
    · rcases List.mem_cons.1 h with rfl | h
      · exact Nat.le_refl k
      · exact Nat.le_of_succ_le (ih h)
    · exact Nat.le_of_succ_le (ih h)

theorem flagged_nodup (k : Nat) (batch : List BatchRow) :
    ((flagged k batch).map (·.1)).Nodup := by
  induction batch generalizing k with
  | nil => exact List.nodup_nil
  | cons r rest ih =>
    unfold flagged
    split
    · refine List.nodup_cons.2 ⟨fun hk => ?_, ih (k + 1)⟩
      obtain ⟨e, he, rfl⟩ := List.mem_map.1 hk
      exact absurd (le_of_mem_flagged he) (by omega)
    · exact ih (k + 1)

theorem flagged_append (k : Nat) (b b' : List BatchRow) :
    flagged k (b ++ b') = flagged k b ++ flagged (k + b.length) b' := by
  induction b generalizing k with
  | nil => rfl
  | cons r rest ih =>
    have hcons (l : List BatchRow) : flagged k (r :: l)
        = if r.logits then (k, r.seq) :: flagged (k + 1) l else flagged (k + 1) l := rfl
    rw [List.length_cons, Nat.add_comm rest.length 1, ← Nat.add_assoc, List.cons_append, hcons,
      hcons, ih (k + 1)]
    split <;> rfl

theorem exists_flagged {batch : List BatchRow} {r : BatchRow} (h : r ∈ batch)
    (hl : r.logits = true) (k : Nat) : ∃ row, (row, r.seq) ∈ flagged k batch := by
  induction batch generalizing k with
  | nil => cases h
  | cons r' rest ih =>
    unfold flagged
    rcases List.mem_cons.1 h with rfl | h
    · rw [if_pos hl]
      exact ⟨k, List.mem_cons_self⟩
    · obtain ⟨row, hrow⟩ := ih h (k + 1)
      refine ⟨row, ?_⟩
      split
      · exact List.mem_cons_of_mem _ hrow
      · exact hrow

def noteRow (m : Nat → Option Nat) (e : Nat × Nat) : Nat → Option Nat :=
  Function.update m e.2 (some e.1)

/-- `last_row`: for every sequence the last row that asks for its logits. -/
def lastRow (batch : List BatchRow) : Nat → Option Nat :=
  (flagged 0 batch).foldl noteRow fun _ => none

theorem foldl_noteRow_mem {L : List (Nat × Nat)} {m : Nat → Option Nat} {q row : Nat}
    (h : L.foldl noteRow m q = some row) :
    (row, q) ∈ L ∨ m q = some row := by
  induction L generalizing m with
  | nil => exact .inr h
  | cons e L ih =>
    rcases ih h with h | h
    · exact .inl (List.mem_cons_of_mem _ h)
    · unfold noteRow at h
      rw [Function.update_apply] at h
      split at h
      · rename_i hq
        cases h; subst hq
        exact .inl List.mem_cons_self
      · exact .inr h

theorem foldl_noteRow_isSome {L : List (Nat × Nat)} {m : Nat → Option Nat} {q : Nat}
    (h : (∃ row, (row, q) ∈ L) ∨ (m q).isSome) :
    (L.foldl noteRow m q).isSome := by
  induction L generalizing m with
  | nil =>
    rcases h with ⟨_, h⟩ | h
    · cases h
    · exact h
  | cons e L ih =>
    refine ih ?_
    rcases h with ⟨row, h⟩ | h
    · rcases List.mem_cons.1 h with rfl | h
      · exact .inr (by rw [noteRow, Function.update_self]; rfl)
      · exact .inl ⟨row, h⟩
    · refine .inr ?_
      rw [noteRow, Function.update_apply]
      split
      · rfl
      · exact h

/-- A sequence with a row that asks for its logits has a last one. -/
theorem lastRow_spec {batch : List BatchRow} {r : BatchRow} (h : r ∈ batch)
    (hl : r.logits = true) : ∃ row, lastRow batch r.seq = some row ∧
      (row, r.seq) ∈ flagged 0 batch := by
  obtain ⟨row, hrow⟩ := Option.isSome_iff_exists.1
    (foldl_noteRow_isSome (.inl (exists_flagged h hl 0)))
  refine ⟨row, hrow, ?_⟩
  rcases foldl_noteRow_mem hrow with h | h
  · exact h
  · cases h

/-! ## Reading the logits -/

theorem lookup_of_mem {L : List (Nat × V)} {row : Nat} {v : V} (hnd : (L.map (·.1)).Nodup)
    (h : (row, v) ∈ L) : L.lookup row = some v := by
  induction L with
  | nil => cases h
  | cons e L ih =>
    obtain ⟨k, u⟩ := e
    obtain ⟨hk, hnd⟩ := List.nodup_cons.1 hnd
    rcases List.mem_cons.1 h with he | htail
    · cases he; simp
    · have hne : row ≠ k := fun he => hk (List.mem_map.2 ⟨(row, v), htail, he⟩)
      rw [List.lookup_cons, beq_false_of_ne hne]
      exact ih hnd htail

/-- **The host copy holds the logits of what the sequences hold**, unless it is skipped. -/
theorem decode_reads_host {model : History → V} {c : LlamaContext V} {batch : List BatchRow}
    {row q : Nat} (hskip : c.skipLogitsCopy = false) (h : Settled batch)
    (hrow : (row, q) ∈ flagged 0 batch) :
    (c.decode model batch).getLogitsIth row
      = some (model ((c.decode model batch).cells q)) := by
  unfold LlamaContext.getLogitsIth LlamaContext.decode
  dsimp only
  rw [hskip, if_neg Bool.false_ne_true, ← List.unzip_fst, ← List.unzip_snd, List.zip_unzip,
    forward_settled model 0 h]
  refine lookup_of_mem ?_ (List.mem_map.2 ⟨(row, q), hrow, rfl⟩)
  rw [List.map_map]
  exact flagged_nodup 0 batch

/-- **So does the output tensor**, row by row. -/
theorem decode_reads_device {model : History → V} {c : LlamaContext V} {batch : List BatchRow}
    (h : Settled batch) :
    (c.decode model batch).logitsDev
      = (flagged 0 batch).map fun e => model ((c.decode model batch).cells e.2) := by
  unfold LlamaContext.decode
  dsimp only
  rw [forward_settled model 0 h, List.map_map]
  rfl

end Engine
