import Mathlib.Data.List.Nodup
import Mathlib.Logic.Function.Basic
import SuprMeow.Library.Runs
import SuprMeow.Stratum.Client

/-!
# The canary prompt counter

Prompts of a seeded job are derived from `(seed, w)`.  One counter serves all streams and workers:
`mine_device` resets it under `canary_mx` when its snapshot spells another seed than the counter
belongs to, and then draws once per stream outside the lock.

* `prompts_dense` — in a run whose draws all come from a counter that is the seed's own, no pair is
  used twice and the numbers used are an initial segment;
* `prompt_reused` — a seed that returns starts over.
-/

set_option autoImplicit false

namespace Poi

open Stratum (Bytes text)

/-! ## Seeds -/

/-- A hexadecimal digit's value, or -1. -/
def nib (c : UInt8) : Int :=
  if 48 ≤ c ∧ c ≤ 57 then c.toNat - 48
  else if 97 ≤ c ∧ c ≤ 102 then c.toNat - 97 + 10
  else if 65 ≤ c ∧ c ≤ 70 then c.toNat - 65 + 10
  else -1

/-- The loop of `canary_parse_seed`. -/
def parsePairs : Bytes → Option Bytes
  | hi :: lo :: rest =>
    if nib hi < 0 ∨ nib lo < 0 then none
    else (parsePairs rest).map (UInt8.ofNat ((nib hi).toNat * 16 + (nib lo).toNat) :: ·)
  | _ => some []

def canaryParseSeed (hex : Bytes) : Option Bytes :=
  if hex.length ≠ 64 then none else parsePairs hex

/-! ## The machine -/

/-- Where a worker is between two snapshots.  `seeded` holds the parsed seed and the number of
prompts still to derive. -/
inductive Turn where
  | top
  | snapshot (promptSeed : Bytes)
  | seeded (seed : Bytes) (left : Nat)
  | batch
  deriving DecidableEq

/-- A prompt was derived from `(seed, w)` while connection `conn` was the current one. -/
structure Draw where
  conn : Nat
  seed : Bytes
  w : Nat
  deriving DecidableEq

structure CanaryConfig where
  nWorkers : Nat := 1
  nStreams : Nat := 1
  wantDouble : Bool := false

/-- `conn` numbers the connections; `earlier` and `current` record the draws before and since the
last reset. -/
structure Canary where
  /-- `cur_job.prompt_seed`. -/
  promptSeed : Bytes := []
  canarySeedHex : Bytes := []
  canaryW : Nat := 0
  turn : Nat → Turn := fun _ => .top
  doubleOk : Nat → Bool
  conn : Nat := 0
  earlier : List Draw := []
  current : List Draw := []

inductive CanaryEvent where
  | notify (promptSeed : Bytes)
  | reconnect
  | snapshot (k : Nat)
  /-- The snapshot is not mined. -/
  | skip (k : Nat)
  /-- Parse the seed; with one, the critical section. -/
  | check (k : Nat)
  | draw (k : Nat)
  /-- The batch returns; `fallback` is the return value -2. -/
  | finish (k : Nat) (fallback : Bool)

namespace Canary

def setTurn (s : Canary) (k : Nat) (t : Turn) : Canary :=
  { s with turn := Function.update s.turn k t }

/-- The block under `canary_mx`. -/
def reset (s : Canary) (promptSeed : Bytes) : Canary :=
  if s.canarySeedHex ≠ promptSeed then
    { s with
      canarySeedHex := promptSeed
      canaryW := 0
      earlier := s.earlier ++ s.current
      current := [] }
  else s

/-- `canary_w.fetch_add(1)`, and the prompt derived from what it returned. -/
def fetchAdd (s : Canary) (seed : Bytes) : Canary :=
  { s with
    canaryW := (s.canaryW + 1) % 2 ^ 32
    current := s.current ++ [⟨s.conn, seed, s.canaryW⟩] }

/-- Every prompt derived so far. -/
def draws (s : Canary) : List Draw := s.earlier ++ s.current

def step (cfg : CanaryConfig) (s : Canary) : CanaryEvent → Option Canary
  | .notify promptSeed => some { s with promptSeed }
  | .reconnect => some { s with conn := s.conn + 1 }
  | .snapshot k =>
    if k < cfg.nWorkers ∧ s.turn k = .top then some (s.setTurn k (.snapshot s.promptSeed)) else none
  | .skip k =>
    match s.turn k with
    | .snapshot _ => some (s.setTurn k .top)
    | _ => none
  | .check k =>
    match s.turn k with
    | .snapshot promptSeed =>
      match canaryParseSeed promptSeed with
      | none => some (s.setTurn k .batch)
      | some seed =>
        let prompts := if s.doubleOk k then cfg.nStreams + cfg.nStreams else cfg.nStreams
        some ((s.reset promptSeed).setTurn k (.seeded seed prompts))
    | _ => none
  | .draw k =>
    match s.turn k with
    | .seeded seed (left + 1) => some ((s.fetchAdd seed).setTurn k (.seeded seed left))
    | _ => none
  | .finish k fallback =>
    match s.turn k with
    | .batch | .seeded _ 0 =>
      some { s.setTurn k .top with
        doubleOk := Function.update s.doubleOk k (s.doubleOk k && !fallback) }
    | _ => none

end Canary

def canaryMachine (cfg : CanaryConfig) : Runs.Machine Canary CanaryEvent where
  init := { doubleOk := fun _ => cfg.wantDouble }
  step := Canary.step cfg

/-! ## Specification -/

/-- **No pair is used twice on a connection, and the numbers used with a seed there start at 0 and
leave none out.** -/
structure Dense (l : List Draw) : Prop where
  unique : l.Nodup
  initial : ∀ d ∈ l, ∀ v < d.w, { d with w := v } ∈ l

/-- Before a draw: the counter belongs to the worker's seed and all it gave since the reset went to
the current connection, which had not used that seed before. -/
structure OwnCounter (s : Canary) (seed : Bytes) : Prop where
  belongs : canaryParseSeed s.canarySeedHex = some seed
  conn : ∀ d ∈ s.current, d.conn = s.conn
  fresh : ∀ d ∈ s.earlier, d.conn = s.conn → d.seed ≠ seed
  range : s.current.length < 2 ^ 32

/-- The draws of a run come from their own counter. -/
def DrawsOwn (s : Canary) : CanaryEvent → Prop
  | .draw k => ∀ seed left, s.turn k = .seeded seed left → OwnCounter s seed
  | _ => True

instance (s : Canary) (seed : Bytes) : Decidable (OwnCounter s seed) :=
  decidable_of_iff (canaryParseSeed s.canarySeedHex = some seed ∧
    (∀ d ∈ s.current, d.conn = s.conn) ∧
    (∀ d ∈ s.earlier, d.conn = s.conn → d.seed ≠ seed) ∧ s.current.length < 2 ^ 32)
    ⟨fun ⟨h₁, h₂, h₃, h₄⟩ => ⟨h₁, h₂, h₃, h₄⟩, fun h => ⟨h.belongs, h.conn, h.fresh, h.range⟩⟩

instance (s : Canary) : ∀ e, Decidable (DrawsOwn s e)
  | .draw k =>
    match h : s.turn k with
    | .seeded seed _ => decidable_of_iff (OwnCounter s seed)
        ⟨fun ho _ _ he => by cases h.symm.trans he; exact ho, fun ho => ho _ _ h⟩
    | .top | .snapshot _ | .batch => isTrue fun _ _ he => by cases h.symm.trans he
  | .notify _ | .reconnect | .snapshot _ | .skip _ | .check _ | .finish .. =>
    inferInstanceAs (Decidable True)

/-! ## Invariant -/

/-- The draws since the last reset are `0, 1, …` of one seed on one connection; those before it are
dense and on that connection of other seeds. -/
structure CanaryInv (s : Canary) : Prop where
  counter : s.current.length < 2 ^ 32 → s.canaryW = s.current.length
  numbers : s.current.map (·.w) = List.range s.current.length
  seed : ∀ d ∈ s.current, canaryParseSeed s.canarySeedHex = some d.seed
  conn : ∀ d ∈ s.current, ∀ e ∈ s.current, d.conn = e.conn
  earlier : Dense s.earlier
  apart : ∀ d ∈ s.current, ∀ e ∈ s.earlier, e.conn = d.conn → e.seed ≠ d.seed

/-- Since the reset, a number is used with every pair below it. -/
theorem CanaryInv.below {s : Canary} (h : CanaryInv s) {d : Draw} (hd : d ∈ s.current) {v : Nat}
    (hv : v < d.w) : { d with w := v } ∈ s.current := by
  have hw : d.w ∈ s.current.map (·.w) := List.mem_map_of_mem hd
  rw [h.numbers, List.mem_range] at hw
  have hmem : v ∈ s.current.map (·.w) := by
    rw [h.numbers, List.mem_range]
    omega
  obtain ⟨e, he, rfl⟩ := List.mem_map.1 hmem
  have hseed : e.seed = d.seed := Option.some.inj ((h.seed e he).symm.trans (h.seed d hd))
  have : ({ d with w := e.w } : Draw) = e := by
    rw [← h.conn e he d hd, ← hseed]
  rw [this]
  exact he

/-- **The draws so far are dense.** -/
theorem CanaryInv.dense {s : Canary} (h : CanaryInv s) : Dense s.draws := by
  have hnodup : s.current.Nodup := by
    refine List.Nodup.of_map (·.w) ?_
    rw [h.numbers]
    exact List.nodup_range
  constructor
  · refine List.nodup_append'.2 ⟨h.earlier.unique, hnodup, ?_⟩
    intro d hd hd'
    exact h.apart d hd' d hd rfl rfl
  · intro d hd v hv
    rcases List.mem_append.1 hd with hd | hd
    · exact List.mem_append_left _ (h.earlier.initial d hd v hv)
    · exact List.mem_append_right _ (h.below hd hv)

theorem CanaryInv.congr {s t : Canary} (h : CanaryInv s) (hw : t.canaryW = s.canaryW)
    (hs : t.canarySeedHex = s.canarySeedHex) (he : t.earlier = s.earlier)
    (hc : t.current = s.current) : CanaryInv t := by
  refine ⟨?_, ?_, ?_, ?_, ?_, ?_⟩
  · rw [hw, hc]; exact h.counter
  · rw [hc]; exact h.numbers
  · rw [hc, hs]; exact h.seed
  · rw [hc]; exact h.conn
  · rw [he]; exact h.earlier
  · rw [hc, he]; exact h.apart

theorem CanaryInv.reset {s : Canary} (h : CanaryInv s) (promptSeed : Bytes) :
    CanaryInv (s.reset promptSeed) := by
  unfold Canary.reset
  split
  · refine ⟨fun _ => rfl, rfl, ?_, ?_, h.dense, ?_⟩
    all_goals intro d hd; cases hd
  · exact h

theorem CanaryInv.fetchAdd {s : Canary} (h : CanaryInv s) {seed : Bytes} (ho : OwnCounter s seed) :
    CanaryInv (s.fetchAdd seed) := by
  have hw : s.canaryW = s.current.length := h.counter ho.range
  refine ⟨?_, ?_, ?_, ?_, h.earlier, ?_⟩
  · intro hlt
    simp only [Canary.fetchAdd, List.length_append, List.length_singleton] at hlt ⊢
    rw [hw, Nat.mod_eq_of_lt hlt]
  · simp only [Canary.fetchAdd, List.map_append, List.map_cons, List.map_nil, List.length_append,
      List.length_singleton, List.range_succ, h.numbers, hw]
  · intro d hd
    rcases List.mem_append.1 hd with hd | hd
    · exact h.seed d hd
    · rw [List.mem_singleton.1 hd]; exact ho.belongs
  · have hall : ∀ d ∈ (s.fetchAdd seed).current, d.conn = s.conn := by
      intro d hd
      rcases List.mem_append.1 hd with hd | hd
      · exact ho.conn d hd
      · rw [List.mem_singleton.1 hd]
    intro d hd e he
    rw [hall d hd, hall e he]
  · intro d hd
    rcases List.mem_append.1 hd with hd | hd
    · exact h.apart d hd
    · rw [List.mem_singleton.1 hd]; exact ho.fresh

theorem CanaryInv.step {cfg : CanaryConfig} {s t : Canary} {e : CanaryEvent} (h : CanaryInv s)
    (hok : DrawsOwn s e) (hs : s.step cfg e = some t) : CanaryInv t := by
  unfold Canary.step at hs
  cases e with
  | notify | reconnect => cases hs; exact h.congr rfl rfl rfl rfl
  | snapshot k =>
    dsimp only at hs
    split at hs
    · cases hs; exact h.congr rfl rfl rfl rfl
    · cases hs
  | skip k =>
    dsimp only at hs
    split at hs
    · cases hs; exact h.congr rfl rfl rfl rfl
    · cases hs
  | check k =>
    dsimp only at hs
    split at hs
    · rename_i promptSeed hturn
      split at hs
      · cases hs; exact h.congr rfl rfl rfl rfl
      · cases hs; exact (h.reset promptSeed).congr rfl rfl rfl rfl
    · cases hs
  | draw k =>
    dsimp only at hs
    split at hs
    · rename_i seed left hturn
      cases hs
      exact (h.fetchAdd (hok seed _ hturn)).congr rfl rfl rfl rfl
    · cases hs
  | finish k fallback =>
    dsimp only at hs
    split at hs
    · cases hs; exact h.congr rfl rfl rfl rfl
    · cases hs; exact h.congr rfl rfl rfl rfl
    · cases hs

/-! ## Results -/

/-- **In every run whose draws come from their own counter, the draws are dense.** -/
theorem prompts_dense (cfg : CanaryConfig) {es : List CanaryEvent} {s : Canary}
    (h : (canaryMachine cfg).exec (canaryMachine cfg).init es = some s)
    (hok : (canaryMachine cfg).Guarded DrawsOwn (canaryMachine cfg).init es) : Dense s.draws := by
  have hinv : CanaryInv s := by
    refine (canaryMachine cfg).guarded_invariant (I := CanaryInv) (fun _ _ _ => CanaryInv.step) ?_
      hok h
    refine ⟨fun _ => rfl, rfl, ?_, ?_, ⟨List.nodup_nil, ?_⟩, ?_⟩
    all_goals intro d hd; cases hd
  exact hinv.dense

def seedA : Bytes := List.replicate 64 97

def seedB : Bytes := List.replicate 64 66

/-- A worker takes the current job and derives one prompt. -/
def mineOnce (k : Nat) : List CanaryEvent := [.snapshot k, .check k, .draw k, .finish k false]

/-- Two workers on one seed, then one of them on another. -/
def twoSeeds : List CanaryEvent :=
  [.notify seedA, .snapshot 0, .snapshot 1, .check 1, .check 0, .draw 1, .draw 0, .finish 0 false,
    .notify seedB] ++ mineOnce 0

theorem prompts_dense_two : ∃ s, (canaryMachine { nWorkers := 2 }).exec
    (canaryMachine { nWorkers := 2 }).init twoSeeds = some s ∧ Dense s.draws := by
  have h : ((canaryMachine { nWorkers := 2 }).exec
      (canaryMachine { nWorkers := 2 }).init twoSeeds).isSome := by decide +kernel
  obtain ⟨s, hs⟩ := Option.isSome_iff_exists.1 h
  exact ⟨s, hs, prompts_dense { nWorkers := 2 } hs (by decide +kernel)⟩

/-- The first seed comes back. -/
def seedReturns : List CanaryEvent :=
  [.notify seedA] ++ mineOnce 0 ++ [.notify seedB] ++ mineOnce 0 ++ [.notify seedA] ++ mineOnce 0

/-- **The pair of the first prompt is used again.** -/
theorem prompt_reused : ∃ s, (canaryMachine {}).exec (canaryMachine {}).init seedReturns = some s ∧
    ¬ Dense s.draws := by
  have h : ((canaryMachine {}).exec (canaryMachine {}).init seedReturns).map
      (fun s => decide s.draws.Nodup) = some false := by decide +kernel
  obtain ⟨s, hs, hn⟩ := Option.map_eq_some_iff.1 h
  exact ⟨s, hs, fun hd => of_decide_eq_false hn hd.unique⟩

end Poi
