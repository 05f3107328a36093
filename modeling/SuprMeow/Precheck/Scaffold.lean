import Mathlib
import SuprMeow.Library.InsertionDict
import SuprMeow.Library.Intervals
import SuprMeow.Library.Words
import SuprMeow.Precheck.Gates

/-!
# Prompt scaffolds

`prompt_scaffold::ComputeWindow`: a continuation that fills the holes of a text the prompt supplied.
What is copied is found fragment by fragment, in one pass over the prompt; the coverage of every
window with three holes, from a prefix sum and an array of differences.

* `copied_iff`, `copied_spec` — the tokens that are copied; the union of the fragments is the union
  of all spans as long;
* `localCoverage_eq` — the best coverage of a window with enough holes;
* `computeWindow_ok_iff`, `scaffold_reject_iff` — what a window comes to.
-/

set_option autoImplicit false

namespace Precheck

namespace Scaffold

/-! ## The code -/

/-- `LOW_CREDIT`, `MIN_HOLE_CREDIT`, `MAX_HOLE_TOKENS`, `MIN_HOLES`, `MIN_REPETITIONS`. -/
def lowCredit : Nat := 256

def minHoleCredit : Nat := 512

def maxHoleTokens : Nat := 8

def minHoles : Nat := 3

def minRepetitions : Nat := 3

/-- `MIN_COVERED`. -/
def minCovered : List Nat := [77, 48, 52, 48]

/-- One flag for each of the `kWindow` tokens. -/
abbrev Mask := Nat → Bool

/-- The `k` tokens from `start` on. -/
def fragment (k : Nat) (tokens : List Nat) (start : Nat) : List Nat := (tokens.drop start).take k

/-- The fragments, and where each begins. -/
def occurrencesOf (k : Nat) (chosen : List Nat) : List (List Nat × List Nat) :=
  (List.range (kWindow + 1 - k)).foldl (fun occurrences start =>
    let key := fragment k chosen start
    InsertionDict.assign occurrences key
      ((InsertionDict.find occurrences key).getD [] ++ [start])) []

/-- The fragments that are left if repetitions are required. -/
def repeats (k : Nat) (occurrences : List (List Nat × List Nat)) : List (List Nat × List Nat) :=
  occurrences.filter fun e => !decide (Intervals.greedy k e.2 0 0 < minRepetitions)

/-- `fill_n`. -/
def fill (k : Nat) (mask : Mask) (start : Nat) : Mask :=
  fun i => mask i || decide (start ≤ i ∧ i < start + k)

/-- A token of the prompt that is not masked. -/
def visible (pad : List Nat) (i : Nat) : Bool := pad.isEmpty || decide (pad.getD i 0 = 0)

/-- The pass over the prompt. -/
def copyLoop (k : Nat) (prompt pad : List Nat) :
    Nat → Nat → Nat → List (List Nat × List Nat) → Mask → Mask
  | 0, _, _, _, mask => mask
  | left + 1, pos, consecutive, occurrences, mask =>
    if occurrences = [] then mask
    else if visible pad pos = false then copyLoop k prompt pad left (pos + 1) 0 occurrences mask
    else
      let consecutive := if consecutive < k then consecutive + 1 else consecutive
      if consecutive < k then copyLoop k prompt pad left (pos + 1) consecutive occurrences mask
      else
        let key := fragment k prompt (pos + 1 - k)
        match InsertionDict.find occurrences key with
        | none => copyLoop k prompt pad left (pos + 1) consecutive occurrences mask
        | some starts =>
          copyLoop k prompt pad left (pos + 1) consecutive
            (occurrences.filter fun e => decide (e.1 ≠ key)) (starts.foldl (fill k) mask)

/-- `Copied`. -/
def copied (k : Nat) (prompt pad chosen : List Nat) (requireRepeats : Bool) : Mask :=
  let occurrences := occurrencesOf k chosen
  let occurrences := if requireRepeats then repeats k occurrences else occurrences
  copyLoop k prompt pad prompt.length 0 0 occurrences fun _ => false

/-- `LowCredit`. -/
def lowCredited (mask : Mask) (credits : List Nat) : Mask :=
  fun i => mask i && decide (credits.getD i 0 ≤ lowCredit)

/-- `prefix[i]`: how many tokens before `i` are covered. -/
def prefixAt (mask : Mask) : Nat → Nat
  | 0 => 0
  | i + 1 => prefixAt mask i + (mask i).toNat

/-- The inner loop: the end of the uncovered run at `i`, and its credit. -/
def runEnd (mask : Mask) (credits : List Nat) : Nat → Nat → Nat → Nat × Nat
  | 0, i, sum => (i, sum)
  | left + 1, i, sum =>
    if mask i then (i, sum)
    else runEnd mask credits left (i + 1) (Word.add 64 sum (credits.getD i 0))

/-- The loop over the runs; `left` bounds how many are left. -/
def holeLoop (mask : Mask) (credits : List Nat) (width : Nat) :
    Nat → Nat → (Nat → Int) → (Nat → Int)
  | 0, _, delta => delta
  | left + 1, i, delta =>
    if kWindow ≤ i then delta
    else if mask i then holeLoop mask credits width left (i + 1) delta
    else
      let start := i
      let (i, sum) := runEnd mask credits (kWindow - start) start 0
      if start = 0 ∨ i = kWindow ∨ maxHoleTokens < i - start ∨ sum < minHoleCredit then
        holeLoop mask credits width left i delta
      else
        let low := if width < i then i - width else 0
        let high := min start (kWindow - width)
        holeLoop mask credits width left i
          (if low ≤ high then Intervals.mark delta low high else delta)

/-- The loop over the local windows. -/
def bestLoop (mask : Mask) (delta : Nat → Int) (width : Nat) : List Nat → Nat → Int → Nat
  | [], best, _ => best
  | start :: rest, best, holes =>
    let holes := holes + delta start
    let best :=
      if (minHoles : Int) ≤ holes then
        max best (prefixAt mask (start + width) - prefixAt mask start)
      else best
    bestLoop mask delta width rest best holes

/-- `LocalCoverage`. -/
def localCoverage (mask : Mask) (credits : List Nat) (width : Nat) : Nat :=
  bestLoop mask (holeLoop mask credits width kWindow 0 fun _ => 0) width
    (List.range (kWindow + 1 - width)) 0 0

structure Metrics where
  covered : List Nat := [0, 0, 0, 0]
  reject : Bool := false
  deriving DecidableEq

/-- `ComputeWindow`. -/
def computeWindow (prompt pad chosen credits : List Nat) : Except String Metrics :=
  if chosen.length ≠ kWindow ∨ credits.length ≠ kWindow then
    .error "expected 256 tokens and credits"
  else if pad ≠ [] ∧ pad.length ≠ prompt.length then
    .error "pad mask length differs from prompt"
  else if pad.any (fun value => decide (1 < value)) then .error "pad mask is not binary"
  else if credits.any (fun value => decide (maxStepCredit < value)) then
    .error "credit exceeds canonical per-step cap"
  else
    let r3 := copied 3 prompt pad chosen true
    let r4 := copied 4 prompt pad chosen true
    let c12 := copied 12 prompt pad chosen false
    let covered :=
      [localCoverage (lowCredited r4 credits) credits 128,
        localCoverage c12 credits 64,
        localCoverage (lowCredited r3 credits) credits 64,
        localCoverage r3 credits 64]
    .ok { covered, reject := (covered.zip minCovered).any fun c => decide (c.2 ≤ c.1) }

/-! ## The fragments -/

/-- A fragment of the continuation, and a place in it where it begins. -/
structure StandsAt (k : Nat) (chosen key : List Nat) (start : Nat) : Prop where
  fits : start + k ≤ kWindow
  eq : fragment k chosen start = key

/-- Where a fragment begins. -/
def starts (k : Nat) (chosen key : List Nat) : List Nat :=
  (List.range (kWindow + 1 - k)).filter fun start => decide (fragment k chosen start = key)

theorem mem_starts {k : Nat} {chosen key : List Nat} {start : Nat} :
    start ∈ starts k chosen key ↔ StandsAt k chosen key start := by
  unfold starts
  rw [List.mem_filter, List.mem_range, decide_eq_true_eq]
  exact ⟨fun h => ⟨by omega, h.2⟩, fun h => ⟨by have := h.fits; omega, h.eq⟩⟩

theorem occurrences_spec (k : Nat) (chosen : List Nat) (n : Nat) :
    let occurrences := (List.range n).foldl (fun (occurrences : List (List Nat × List Nat)) start =>
      let key := fragment k chosen start
      InsertionDict.assign occurrences key
        ((InsertionDict.find occurrences key).getD [] ++ [start])) []
    (occurrences.map (·.1)).Nodup ∧ ∀ key, (InsertionDict.find occurrences key).getD [] =
      (List.range n).filter fun start => decide (fragment k chosen start = key) := by
  induction n with
  | zero => exact ⟨List.nodup_nil, fun key => rfl⟩
  | succ n ih =>
    rw [List.range_succ, List.foldl_append]
    obtain ⟨hnodup, hlookup⟩ := ih
    refine ⟨InsertionDict.nodup_assign hnodup _ _, fun key => ?_⟩
    dsimp only [List.foldl_cons, List.foldl_nil]
    rw [InsertionDict.find_assign, List.filter_append]
    by_cases hkey : key = fragment k chosen n
    · subst hkey
      rw [if_pos rfl, Option.getD_some, hlookup]
      simp
    · rw [if_neg hkey, hlookup]
      simp [Ne.symm hkey]

/-- Where a fragment begins, as the map has it. -/
theorem find_occurrencesOf (k : Nat) (chosen key : List Nat) :
    (InsertionDict.find (occurrencesOf k chosen) key).getD [] = starts k chosen key :=
  (occurrences_spec k chosen _).2 key

theorem nodup_occurrencesOf (k : Nat) (chosen : List Nat) :
    ((occurrencesOf k chosen).map (·.1)).Nodup := (occurrences_spec k chosen _).1

/-- A fragment that stands in three places, no two of them overlapping. -/
def Repeated (k : Nat) (chosen key : List Nat) : Prop :=
  ∃ s : List Nat, s.length = minRepetitions ∧ s.Pairwise (fun a b => a + k ≤ b) ∧
    ∀ start ∈ s, StandsAt k chosen key start

/-- **The greedy count finds the fragments that repeat.** -/
theorem repeated_iff {k : Nat} (hk : 0 < k) (chosen key : List Nat) :
    minRepetitions ≤ Intervals.greedy k (starts k chosen key) 0 0 ↔ Repeated k chosen key := by
  have hsorted : (starts k chosen key).Pairwise (· < ·) := List.pairwise_lt_range.filter _
  rw [Intervals.le_greedy_iff hsorted]
  constructor
  · rintro ⟨s, hs, hlen, hapart⟩
    exact ⟨s, hlen, hapart.spaced, fun start h => mem_starts.1 (hs.subset h)⟩
  · rintro ⟨s, hlen, hspaced, hall⟩
    have hlt : s.Pairwise (· < ·) := hspaced.imp fun h => by omega
    refine ⟨s, ?_, hlen, hspaced, fun x _ => Nat.zero_le x⟩
    exact List.sublist_of_subperm_of_pairwise
      (List.subperm_of_subset (hlt.imp fun h => h.ne) fun x hx => mem_starts.2 (hall x hx))
      hlt hsorted

/-! ## The pass over the prompt -/

/-- The fragment stands in the prompt before `pos`, no token of it masked. -/
def Quoted (k : Nat) (prompt pad : List Nat) (pos : Nat) (key : List Nat) : Prop :=
  ∃ p, p + k ≤ pos ∧ fragment k prompt p = key ∧
    ∀ j, p ≤ j → j < p + k → visible pad j = true

/-- The tokens just before `pos` that are not masked, counted up to `k`. -/
structure Trail (k : Nat) (pad : List Nat) (pos consecutive : Nat) : Prop where
  le_pos : consecutive ≤ pos
  le : consecutive ≤ k
  shown : ∀ j, pos - consecutive ≤ j → j < pos → visible pad j = true
  hidden : consecutive < k → consecutive < pos → visible pad (pos - consecutive - 1) = false

variable {k pos consecutive : Nat} {prompt pad : List Nat}

theorem Trail.next (h : Trail k pad pos consecutive) (hv : visible pad pos = true) :
    Trail k pad (pos + 1) (if consecutive < k then consecutive + 1 else consecutive) := by
  have hpos := h.le_pos
  have hle := h.le
  have hall : ∀ j, pos - consecutive ≤ j → j < pos + 1 → visible pad j = true := by
    intro j h1 h2
    rcases Nat.lt_succ_iff_lt_or_eq.1 h2 with h2 | rfl
    · exact h.shown j h1 h2
    · exact hv
  split
  · rename_i hlt
    refine ⟨by omega, hlt, fun j h1 h2 => hall j (by omega) h2, fun h1 h2 => ?_⟩
    rw [show pos + 1 - (consecutive + 1) - 1 = pos - consecutive - 1 by omega]
    exact h.hidden hlt (by omega)
  · exact ⟨by omega, hle, fun j h1 h2 => hall j (by omega) h2, fun h1 => absurd h1 (by omega)⟩

theorem Trail.reset (hv : visible pad pos = false) : Trail k pad (pos + 1) 0 :=
  ⟨Nat.zero_le _, Nat.zero_le _, fun j h1 h2 => absurd h1 (by omega), fun _ _ => hv⟩

/-- The fragment that ends at `pos`, if it may be read. -/
theorem Trail.quoted_iff (h : Trail k pad pos consecutive) (key : List Nat) :
    (∃ p, p + k = pos ∧ fragment k prompt p = key ∧
        ∀ j, p ≤ j → j < p + k → visible pad j = true) ↔
      consecutive = k ∧ fragment k prompt (pos - k) = key := by
  have hpos := h.le_pos
  have hle := h.le
  constructor
  · rintro ⟨p, rfl, hkey, hvisible⟩
    have hfull : consecutive = k := by
      by_contra hne
      have hhidden := h.hidden (by omega) (by omega)
      rw [hvisible _ (by omega) (by omega)] at hhidden
      cases hhidden
    exact ⟨hfull, by rwa [Nat.add_sub_cancel]⟩
  · rintro ⟨rfl, hkey⟩
    exact ⟨pos - consecutive, by omega, hkey, fun j h1 h2 => h.shown j h1 (by omega)⟩

/-- One more token. -/
theorem Trail.quoted_succ (h : Trail k pad (pos + 1) consecutive) (key : List Nat) :
    Quoted k prompt pad (pos + 1) key ↔ Quoted k prompt pad pos key ∨
      (consecutive = k ∧ fragment k prompt (pos + 1 - k) = key) := by
  rw [← h.quoted_iff]
  constructor
  · rintro ⟨p, hp, rest⟩
    rcases Nat.lt_or_eq_of_le hp with hp | hp
    · exact .inl ⟨p, by omega, rest⟩
    · exact .inr ⟨p, hp, rest⟩
  · rintro (⟨p, hp, rest⟩ | ⟨p, hp, rest⟩)
    · exact ⟨p, by omega, rest⟩
    · exact ⟨p, hp.le, rest⟩

/-- A place the mask covers, of the fragments quoted before `pos`. -/
def Covers (k : Nat) (prompt pad : List Nat) (table : List (List Nat × List Nat)) (pos i : Nat) :
    Prop :=
  ∃ key places, InsertionDict.find table key = some places ∧ Quoted k prompt pad pos key ∧
    ∃ start ∈ places, start ≤ i ∧ i < start + k

/-- What the pass has done before `pos`. -/
structure Passed (k : Nat) (prompt pad : List Nat) (table : List (List Nat × List Nat)) (pos : Nat)
    (occurrences : List (List Nat × List Nat)) (mask : Mask) : Prop where
  nodup : (occurrences.map (·.1)).Nodup
  unseen : ∀ key, ¬ Quoted k prompt pad pos key →
    InsertionDict.find occurrences key = InsertionDict.find table key
  seen : ∀ key, Quoted k prompt pad pos key → InsertionDict.find occurrences key = none
  mask_iff : ∀ i, mask i = true ↔ Covers k prompt pad table pos i

theorem foldl_fill (mask : Mask) (places : List Nat) (i : Nat) :
    places.foldl (fill k) mask i = true ↔
      mask i = true ∨ ∃ start ∈ places, start ≤ i ∧ i < start + k := by
  induction places generalizing mask with
  | nil => simp
  | cons start rest ih =>
    rw [List.foldl_cons, ih, List.exists_mem_cons_iff]
    unfold fill
    rw [Bool.or_eq_true, decide_eq_true_eq, or_assoc]

section Pass

variable {table occurrences : List (List Nat × List Nat)} {mask : Mask}

/-- No fragment ends here. -/
theorem Passed.skip (h : Passed k prompt pad table pos occurrences mask)
    (hsame : ∀ key, Quoted k prompt pad (pos + 1) key ↔ Quoted k prompt pad pos key) :
    Passed k prompt pad table (pos + 1) occurrences mask := by
  obtain ⟨hnodup, hunseen, hseen, hmask⟩ := h
  refine ⟨hnodup, ?_, ?_, ?_⟩
  · simpa only [hsame] using hunseen
  · simpa only [hsame] using hseen
  · simpa only [Covers, hsame] using hmask

/-- The fragment that ends here is not, or no longer, among those that are looked for. -/
theorem Passed.miss (h : Passed k prompt pad table pos occurrences mask) {key : List Nat}
    (hsame : ∀ key', Quoted k prompt pad (pos + 1) key' ↔
      Quoted k prompt pad pos key' ∨ key = key')
    (hfind : InsertionDict.find occurrences key = none) :
    Passed k prompt pad table (pos + 1) occurrences mask := by
  by_cases hq : Quoted k prompt pad pos key
  · exact h.skip fun key' => (hsame key').trans ⟨fun h => h.elim id fun he => he ▸ hq, .inl⟩
  · have htable : InsertionDict.find table key = none := by rw [← h.unseen key hq, hfind]
    refine ⟨h.nodup, fun key' hn => ?_, fun key' hq' => ?_, fun i => ?_⟩
    · exact h.unseen key' fun hq' => hn ((hsame key').2 (.inl hq'))
    · rcases (hsame key').1 hq' with hq' | rfl
      · exact h.seen key' hq'
      · exact hfind
    · rw [h.mask_iff]
      constructor
      · rintro ⟨key', places, hf, hq', rest⟩
        exact ⟨key', places, hf, (hsame key').2 (.inl hq'), rest⟩
      · rintro ⟨key', places, hf, hq', rest⟩
        rcases (hsame key').1 hq' with hq' | rfl
        · exact ⟨key', places, hf, hq', rest⟩
        · rw [htable] at hf
          cases hf

/-- The fragment that ends here is found: all its places are covered. -/
theorem Passed.found (h : Passed k prompt pad table pos occurrences mask) {key places : List Nat}
    (hsame : ∀ key', Quoted k prompt pad (pos + 1) key' ↔
      Quoted k prompt pad pos key' ∨ key = key')
    (hfind : InsertionDict.find occurrences key = some places) :
    Passed k prompt pad table (pos + 1) (occurrences.filter fun e => decide (e.1 ≠ key))
      (places.foldl (fill k) mask) := by
  have hq : ¬ Quoted k prompt pad pos key := fun hq => by
    rw [h.seen key hq] at hfind
    cases hfind
  have htable : InsertionDict.find table key = some places := by rw [← h.unseen key hq, hfind]
  refine ⟨InsertionDict.nodup_filter h.nodup _, fun key' hn => ?_, fun key' hq' => ?_, fun i => ?_⟩
  · rw [hsame, not_or] at hn
    have hne : key' ≠ key := fun he => hn.2 he.symm
    rw [InsertionDict.find_filter h.nodup, h.unseen key' hn.1]
    cases InsertionDict.find table key' with
    | none => rfl
    | some places' => simp [Option.filter_some, hne]
  · rw [InsertionDict.find_filter h.nodup]
    rcases (hsame key').1 hq' with hq' | rfl
    · rw [h.seen key' hq']
      rfl
    · rw [hfind]
      simp [Option.filter_some]
  · rw [foldl_fill, h.mask_iff]
    constructor
    · rintro (⟨key', places', hf, hq', rest⟩ | rest)
      · exact ⟨key', places', hf, (hsame key').2 (.inl hq'), rest⟩
      · exact ⟨key, places, htable, (hsame key).2 (.inr rfl), rest⟩
    · rintro ⟨key', places', hf, hq', rest⟩
      rcases (hsame key').1 hq' with hq' | rfl
      · exact .inl ⟨key', places', hf, hq', rest⟩
      · rw [htable] at hf
        cases hf
        exact .inr rest

/-- Once nothing is looked for any more, the mask is complete. -/
theorem Passed.complete (h : Passed k prompt pad table pos [] mask) {last : Nat}
    (hlast : pos ≤ last) (i : Nat) : mask i = true ↔ Covers k prompt pad table last i := by
  rw [h.mask_iff]
  constructor
  · rintro ⟨key, places, hf, ⟨p, hp, hkey⟩, rest⟩
    exact ⟨key, places, hf, ⟨p, hp.trans hlast, hkey⟩, rest⟩
  · rintro ⟨key, places, hf, -, rest⟩
    by_cases hq : Quoted k prompt pad pos key
    · exact ⟨key, places, hf, hq, rest⟩
    · rw [← h.unseen key hq] at hf
      cases hf

/-- **The pass finds every fragment the prompt quotes.** -/
theorem copyLoop_spec (hk : 0 < k) : ∀ {left pos consecutive : Nat}
    {occurrences : List (List Nat × List Nat)} {mask : Mask}, pos + left = prompt.length →
    Trail k pad pos consecutive → Passed k prompt pad table pos occurrences mask →
    ∀ i, copyLoop k prompt pad left pos consecutive occurrences mask i = true ↔
      Covers k prompt pad table prompt.length i := by
  intro left
  induction left with
  | zero =>
    intro pos consecutive occurrences mask hpos _ h i
    rw [Nat.add_zero] at hpos
    subst hpos
    exact h.mask_iff i
  | succ left ih =>
    intro pos consecutive occurrences mask hpos htrail h i
    have hnext : pos + 1 + left = prompt.length := by omega
    unfold copyLoop
    by_cases hempty : occurrences = []
    · subst hempty
      rw [if_pos rfl]
      exact h.complete (by omega) i
    · rw [if_neg hempty]
      by_cases hv : visible pad pos = false
      · rw [if_pos hv]
        have hreset : Trail k pad (pos + 1) 0 := Trail.reset hv
        refine ih hnext hreset (h.skip fun key => ?_) i
        rw [hreset.quoted_succ]
        exact or_iff_left fun hn => absurd hn.1 (by omega)
      · rw [if_neg hv]
        have htrail' := htrail.next (Bool.not_eq_false _ ▸ hv)
        generalize (if consecutive < k then consecutive + 1 else consecutive) = count at htrail'
        dsimp only
        by_cases hshort : count < k
        · rw [if_pos hshort]
          refine ih hnext htrail' (h.skip fun key => ?_) i
          rw [htrail'.quoted_succ]
          exact or_iff_left fun hn => absurd hn.1 (by omega)
        · rw [if_neg hshort]
          have hfull : count = k := by have := htrail'.le; omega
          have hsame : ∀ key', Quoted k prompt pad (pos + 1) key' ↔
              Quoted k prompt pad pos key' ∨ fragment k prompt (pos + 1 - k) = key' := by
            intro key'
            rw [htrail'.quoted_succ]
            exact or_congr_right ⟨And.right, fun h => ⟨hfull, h⟩⟩
          cases hf : InsertionDict.find occurrences (fragment k prompt (pos + 1 - k)) with
          | none => exact ih hnext htrail' (h.miss hsame hf) i
          | some places => exact ih hnext htrail' (h.found hsame hf) i

end Pass

/-- The copied tokens: those of a fragment that stands in the prompt, no token of it masked. -/
def Copied (k : Nat) (prompt pad chosen : List Nat) (requireRepeats : Bool) (i : Nat) : Prop :=
  ∃ start, start + k ≤ kWindow ∧ (start ≤ i ∧ i < start + k) ∧
    Quoted k prompt pad prompt.length (fragment k chosen start) ∧
      (requireRepeats = true → Repeated k chosen (fragment k chosen start))

/-- What is looked for. -/
theorem find_eq_some {chosen key places : List Nat}
    (h : InsertionDict.find (occurrencesOf k chosen) key = some places) :
    places = starts k chosen key := by
  rw [← find_occurrencesOf, h, Option.getD_some]

theorem find_of_mem {chosen key : List Nat} {start : Nat} (h : start ∈ starts k chosen key) :
    InsertionDict.find (occurrencesOf k chosen) key = some (starts k chosen key) := by
  have hgetD := find_occurrencesOf k chosen key
  cases hf : InsertionDict.find (occurrencesOf k chosen) key with
  | none =>
    rw [hf, Option.getD_none] at hgetD
    rw [← hgetD] at h
    cases h
  | some places =>
    rw [hf, Option.getD_some] at hgetD
    rw [hgetD]

theorem find_repeats (k : Nat) (chosen key : List Nat) :
    InsertionDict.find (repeats k (occurrencesOf k chosen)) key =
      (InsertionDict.find (occurrencesOf k chosen) key).filter
        fun places => !decide (Intervals.greedy k places 0 0 < minRepetitions) :=
  InsertionDict.find_filter (nodup_occurrencesOf k chosen) _ key

/-- **The tokens that are copied**, and no others, are masked. -/
theorem copied_iff (hk : 0 < k) (prompt pad chosen : List Nat) (requireRepeats : Bool) (i : Nat) :
    copied k prompt pad chosen requireRepeats i = true ↔
      Copied k prompt pad chosen requireRepeats i := by
  have hstart : Trail k pad 0 0 :=
    ⟨le_rfl, Nat.zero_le _, fun _ _ h => absurd h (Nat.not_lt_zero _),
      fun _ h => absurd h (by omega)⟩
  have hquoted : ∀ key, ¬ Quoted k prompt pad 0 key := by
    rintro key ⟨p, hp, -⟩
    omega
  have hpassed : ∀ table : List (List Nat × List Nat), (table.map (·.1)).Nodup →
      Passed k prompt pad table 0 table fun _ => false := by
    refine fun table hnodup => ⟨hnodup, fun _ _ => rfl, fun key hq => absurd hq (hquoted key), ?_⟩
    intro i
    simp only [Bool.false_eq_true, false_iff]
    rintro ⟨key, places, -, hq, -⟩
    exact hquoted key hq
  have hnodup := nodup_occurrencesOf k chosen
  unfold copied
  cases requireRepeats with
  | false =>
    rw [if_neg Bool.false_ne_true,
      copyLoop_spec hk (Nat.zero_add _) hstart (hpassed _ hnodup)]
    constructor
    · rintro ⟨key, places, hf, hq, start, hmem, hspan⟩
      rw [find_eq_some hf] at hmem
      obtain ⟨hfits, rfl⟩ := mem_starts.1 hmem
      exact ⟨start, hfits, hspan, hq, fun h => absurd h Bool.false_ne_true⟩
    · rintro ⟨start, hfits, hspan, hq, -⟩
      have hmem : start ∈ starts k chosen (fragment k chosen start) :=
        mem_starts.2 ⟨hfits, rfl⟩
      exact ⟨_, _, find_of_mem hmem, hq, start, hmem, hspan⟩
  | true =>
    have hrepeats : ((repeats k (occurrencesOf k chosen)).map (·.1)).Nodup :=
      InsertionDict.nodup_filter hnodup _
    rw [if_pos rfl, copyLoop_spec hk (Nat.zero_add _) hstart (hpassed _ hrepeats)]
    constructor
    · rintro ⟨key, places, hf, hq, start, hmem, hspan⟩
      rw [find_repeats, Option.filter_eq_some_iff] at hf
      obtain ⟨hf, hgreedy⟩ := hf
      rw [find_eq_some hf] at hmem hgreedy
      obtain ⟨hfits, rfl⟩ := mem_starts.1 hmem
      simp only [Bool.not_eq_true', decide_eq_false_iff_not, not_lt] at hgreedy
      exact ⟨start, hfits, hspan, hq, fun _ => (repeated_iff hk _ _).1 hgreedy⟩
    · rintro ⟨start, hfits, hspan, hq, hrepeated⟩
      have hmem : start ∈ starts k chosen (fragment k chosen start) :=
        mem_starts.2 ⟨hfits, rfl⟩
      refine ⟨_, _, ?_, hq, start, hmem, hspan⟩
      rw [find_repeats, Option.filter_eq_some_iff]
      refine ⟨find_of_mem hmem, ?_⟩
      simpa using (repeated_iff hk _ _).2 (hrepeated rfl)

/-- A stretch of the continuation that stands in the prompt, no token of it masked. -/
structure Span (prompt pad chosen : List Nat) (n start p : Nat) : Prop where
  inside : start + n ≤ kWindow
  fits : p + n ≤ prompt.length
  equal : ∀ j, j < n → chosen[start + j]? = prompt[p + j]?
  shown : ∀ j, j < n → visible pad (p + j) = true

theorem fragment_getElem? (k : Nat) (tokens : List Nat) (start j : Nat) :
    (fragment k tokens start)[j]? = if j < k then tokens[start + j]? else none := by
  unfold fragment
  rw [List.getElem?_take, List.getElem?_drop]

theorem fragment_eq_iff {chosen : List Nat} {start p : Nat} :
    fragment k prompt p = fragment k chosen start ↔
      ∀ j, j < k → chosen[start + j]? = prompt[p + j]? := by
  constructor
  · intro h j hj
    have hget := congrArg (·[j]?) h
    simpa only [fragment_getElem?, if_pos hj] using hget.symm
  · intro h
    apply List.ext_getElem?
    intro j
    rw [fragment_getElem?, fragment_getElem?]
    split
    · rename_i hj
      exact (h j hj).symm
    · rfl

/-- **The union of the fragments is the union of all spans of their length or longer.** -/
theorem copied_iff_span (hk : 0 < k) (prompt pad chosen : List Nat) (i : Nat) :
    Copied k prompt pad chosen false i ↔
      ∃ n start p, k ≤ n ∧ (start ≤ i ∧ i < start + n) ∧ Span prompt pad chosen n start p := by
  constructor
  · rintro ⟨start, hfits, hspan, ⟨p, hp, hkey, hshown⟩, -⟩
    exact ⟨k, start, p, le_rfl, hspan, hfits, hp, fragment_eq_iff.1 hkey,
      fun j hj => hshown _ (by omega) (by omega)⟩
  · rintro ⟨n, start, p, hn, hspan, hinside, hfits, hequal, hshown⟩
    -- a fragment of the span that holds the token
    obtain ⟨o, ho⟩ : ∃ o, o = min (i - start) (n - k) := ⟨_, rfl⟩
    refine ⟨start + o, by omega, by omega, ⟨p + o, by omega, fragment_eq_iff.2 ?_, ?_⟩,
      fun h => absurd h Bool.false_ne_true⟩
    · intro j hj
      rw [Nat.add_assoc, Nat.add_assoc]
      exact hequal (o + j) (by omega)
    · intro j h1 h2
      have hj := hshown (j - p) (by omega)
      rwa [show p + (j - p) = j by omega] at hj

/-- **What `Copied` marks**: the fragments the prompt quotes, that repeat where that is required;
and where it is not, every token of a span as long as a fragment or longer. -/
theorem copied_spec (hk : 0 < k) (prompt pad chosen : List Nat) (i : Nat) :
    (copied k prompt pad chosen true i = true ↔ Copied k prompt pad chosen true i) ∧
      (copied k prompt pad chosen false i = true ↔
        ∃ n start p, k ≤ n ∧ (start ≤ i ∧ i < start + n) ∧ Span prompt pad chosen n start p) :=
  ⟨copied_iff hk prompt pad chosen true i,
    (copied_iff hk prompt pad chosen false i).trans (copied_iff_span hk prompt pad chosen i)⟩

/-- Three tokens that stand in the text three times, among other ones. -/
def thrice : List Nat :=
  [1, 2, 3] ++ List.replicate 80 7 ++ [1, 2, 3] ++ List.replicate 80 7 ++ [1, 2, 3] ++
    List.replicate 87 9

/-- The prompt has the three tokens, and three sevens of which one is masked. -/
theorem copied_spec_thrice :
    Copied 3 [0, 1, 2, 3, 7, 7, 7] [0, 0, 0, 0, 0, 1, 0] thrice true 84 ∧
      (∃ n start p, 3 ≤ n ∧ (start ≤ 84 ∧ 84 < start + n) ∧
        Span [0, 1, 2, 3, 7, 7, 7] [0, 0, 0, 0, 0, 1, 0] thrice n start p) ∧
      ¬ Copied 3 [0, 1, 2, 3, 7, 7, 7] [0, 0, 0, 0, 0, 1, 0] thrice true 10 := by
  have hspec := copied_spec (k := 3) (by decide) [0, 1, 2, 3, 7, 7, 7] [0, 0, 0, 0, 0, 1, 0] thrice
  refine ⟨(hspec 84).1.1 (by decide +kernel), (hspec 84).2.1 (by decide +kernel), ?_⟩
  rw [← (hspec 10).1]
  decide +kernel

/-! ## Holes -/

/-- An uncovered run between covered tokens, short and with enough credit. -/
structure Hole (mask : Mask) (credits : List Nat) (a b : Nat) : Prop where
  inside : 0 < a ∧ b < kWindow
  nonempty : a < b
  uncovered : ∀ j, a ≤ j → j < b → mask j = false
  before : mask (a - 1) = true
  behind : mask b = true
  short : b - a ≤ maxHoleTokens
  credit : minHoleCredit ≤ ∑ j ∈ Finset.Ico a b, credits.getD j 0

/-- No step has more than the cap. -/
def Capped (credits : List Nat) : Prop := ∀ i, credits.getD i 0 ≤ maxStepCredit

section Holes

variable {mask : Mask} {credits : List Nat} {width : Nat}

/-- **The inner loop finds the end of the run and adds up its credit.** -/
theorem runEnd_spec (hc : Capped credits) : ∀ {left i sum : Nat},
    sum + maxStepCredit * left < 2 ^ 64 →
    let e := runEnd mask credits left i sum
    (i ≤ e.1 ∧ e.1 ≤ i + left) ∧ (∀ j, i ≤ j → j < e.1 → mask j = false) ∧
      (e.1 < i + left → mask e.1 = true) ∧
        e.2 = sum + ∑ j ∈ Finset.Ico i e.1, credits.getD j 0 := by
  intro left
  induction left with
  | zero =>
    intro i sum _
    refine ⟨⟨le_rfl, le_rfl⟩, fun j h1 h2 => absurd h2 (not_lt.2 h1),
      fun h => absurd h (lt_irrefl _), ?_⟩
    simp [runEnd]
  | succ left ih =>
    intro i sum hfits
    rw [Nat.mul_succ] at hfits
    unfold runEnd
    by_cases hm : mask i = true
    · rw [if_pos hm]
      refine ⟨⟨le_rfl, by omega⟩, fun j h1 h2 => absurd h2 (not_lt.2 h1), fun _ => hm, ?_⟩
      simp
    · have hcap := hc i
      rw [if_neg hm, Word.add_eq (by omega)]
      obtain ⟨⟨h1, h2⟩, hopen, hend, hsum⟩ :=
        @ih (i + 1) (sum + credits.getD i 0) (by omega)
      refine ⟨⟨by omega, by omega⟩, fun j hj hj' => ?_, fun h => hend (by omega), ?_⟩
      · rcases Nat.eq_or_lt_of_le hj with rfl | hj
        · simpa using hm
        · exact hopen j hj hj'
      · have hlt : i < (runEnd mask credits left (i + 1) (sum + credits.getD i 0)).1 := by omega
        rw [hsum, Finset.sum_eq_sum_Ico_succ_bot hlt, Nat.add_assoc]

open Classical in
/-- The holes from `i` on that lie in the local window at `s`. -/
@[irreducible] noncomputable def holesFrom (mask : Mask) (credits : List Nat) (width i s : Nat) :
    Finset (Nat × Nat) :=
  (Finset.range kWindow ×ˢ Finset.range kWindow).filter fun h =>
    Hole mask credits h.1 h.2 ∧ i ≤ h.1 ∧ s ≤ h.1 ∧ h.2 ≤ s + width

theorem mem_holesFrom {i s a b : Nat} : (a, b) ∈ holesFrom mask credits width i s ↔
    Hole mask credits a b ∧ i ≤ a ∧ s ≤ a ∧ b ≤ s + width := by
  classical
  unfold holesFrom
  rw [Finset.mem_filter, Finset.mem_product, Finset.mem_range, Finset.mem_range]
  exact and_iff_right_of_imp fun h => by
    have := h.1.inside
    have := h.1.nonempty
    omega

theorem holesFrom_of_covered {i s : Nat} (h : mask i = true) :
    holesFrom mask credits width i s = holesFrom mask credits width (i + 1) s := by
  ext ⟨a, b⟩
  rw [mem_holesFrom, mem_holesFrom]
  constructor
  · rintro ⟨hhole, hi, rest⟩
    refine ⟨hhole, Nat.lt_of_le_of_ne hi ?_, rest⟩
    rintro rfl
    have hopen := hhole.uncovered i le_rfl hhole.nonempty
    rw [h] at hopen
    cases hopen
  · rintro ⟨hhole, hi, rest⟩
    exact ⟨hhole, by omega, rest⟩

theorem holesFrom_beyond {i s : Nat} (h : kWindow ≤ i) :
    holesFrom mask credits width i s = ∅ := by
  by_contra hne
  obtain ⟨⟨a, b⟩, hmem⟩ := Finset.nonempty_iff_ne_empty.2 hne
  rw [mem_holesFrom] at hmem
  have hinside := hmem.1.inside.2
  have hopen := hmem.1.nonempty
  have hia := hmem.2.1
  omega

/-- The uncovered run the outer loop has come to, from `i` to `e`. -/
structure Run (mask : Mask) (credits : List Nat) (i e sum : Nat) : Prop where
  before : 0 < i → mask (i - 1) = true
  lt : i < e
  le : e ≤ kWindow
  uncovered : ∀ j, i ≤ j → j < e → mask j = false
  behind : e < kWindow → mask e = true
  credit : sum = ∑ j ∈ Finset.Ico i e, credits.getD j 0

section Run

variable {i e sum s : Nat}

/-- What the outer loop asks of a run. -/
theorem Run.hole_iff (h : Run mask credits i e sum) : Hole mask credits i e ↔
    ¬ (i = 0 ∨ e = kWindow ∨ maxHoleTokens < e - i ∨ sum < minHoleCredit) := by
  have hle := h.le
  constructor
  · intro hhole
    have := hhole.inside
    have := hhole.short
    have := hhole.credit
    rw [← h.credit] at this
    omega
  · intro hno
    exact ⟨by omega, h.lt, h.uncovered, h.before (by omega), h.behind (by omega), by omega,
      by rw [← h.credit]; omega⟩

/-- A hole from the start of a run on is the run itself, or lies behind it. -/
theorem Run.mem_holesFrom (h : Run mask credits i e sum) (a b : Nat) :
    (a, b) ∈ holesFrom mask credits width i s ↔
      (a, b) ∈ holesFrom mask credits width e s ∨
        ((a, b) = (i, e) ∧ Hole mask credits i e ∧ s ≤ i ∧ e ≤ s + width) := by
  rw [Scaffold.mem_holesFrom, Scaffold.mem_holesFrom, Prod.mk.injEq]
  have hlt := h.lt
  constructor
  · rintro ⟨hhole, hi, hin⟩
    by_cases hea : e ≤ a
    · exact .inl ⟨hhole, hea, hin⟩
    · -- it begins in the run, so at its start, and ends where the run ends
      have ha : a = i := by
        by_contra hne
        have hbefore := hhole.before
        rw [h.uncovered (a - 1) (by omega) (by omega)] at hbefore
        cases hbefore
      subst ha
      have hb : b = e := by
        have hinside := hhole.inside
        rcases Nat.lt_trichotomy b e with hbe | heq | hbe
        · have hbehind := hhole.behind
          rw [h.uncovered b hhole.nonempty.le hbe] at hbehind
          cases hbehind
        · exact heq
        · have hmask := h.behind (by omega)
          rw [hhole.uncovered e hlt.le hbe] at hmask
          cases hmask
      subst hb
      exact .inr ⟨⟨rfl, rfl⟩, hhole, hin⟩
  · rintro (⟨hhole, hi, hin⟩ | ⟨⟨rfl, rfl⟩, hhole, hin⟩)
    · exact ⟨hhole, by omega, hin⟩
    · exact ⟨hhole, le_rfl, hin⟩

/-- A run that is no hole of the local window. -/
theorem Run.holesFrom_eq (h : Run mask credits i e sum)
    (hno : ¬ (Hole mask credits i e ∧ s ≤ i ∧ e ≤ s + width)) :
    holesFrom mask credits width i s = holesFrom mask credits width e s := by
  ext ⟨a, b⟩
  rw [h.mem_holesFrom]
  exact or_iff_left fun hn => hno hn.2

/-- A run that is one. -/
theorem Run.card_holesFrom (h : Run mask credits i e sum)
    (hin : Hole mask credits i e ∧ s ≤ i ∧ e ≤ s + width) :
    (holesFrom mask credits width i s).card = (holesFrom mask credits width e s).card + 1 := by
  have hout : (i, e) ∉ holesFrom mask credits width e s :=
    mt Scaffold.mem_holesFrom.1 fun hn => absurd hn.2.1 (not_le.2 h.lt)
  have hset : holesFrom mask credits width i s =
      insert (i, e) (holesFrom mask credits width e s) := by
    ext ⟨a, b⟩
    rw [h.mem_holesFrom, Finset.mem_insert, or_comm]
    exact or_congr_left (and_iff_left hin)
  rw [hset, Finset.card_insert_of_notMem hout]

/-- **What a hole adds to the array of differences** is one, for the windows it lies in. -/
theorem Run.sum_delta (h : Run mask credits i e sum) (hhole : Hole mask credits i e)
    (hs : s + width ≤ kWindow) (delta : Nat → Int) :
    let low := if width < e then e - width else 0
    let high := min i (kWindow - width)
    ∑ j ∈ Finset.range (s + 1), (if low ≤ high then Intervals.mark delta low high else delta) j +
        ((holesFrom mask credits width e s).card : Int) =
      ∑ j ∈ Finset.range (s + 1), delta j + (holesFrom mask credits width i s).card := by
  intro low high
  have hlow : low ≤ s ↔ e ≤ s + width := by
    show (if width < e then e - width else 0) ≤ s ↔ _
    split <;> omega
  have hhigh : s ≤ high ↔ s ≤ i := by
    show s ≤ min i (kWindow - width) ↔ _
    omega
  by_cases hin : s ≤ i ∧ e ≤ s + width
  · have hle : low ≤ high := (hlow.2 hin.2).trans (hhigh.2 hin.1)
    rw [if_pos hle, Intervals.sum_mark _ hle, if_pos ⟨hlow.2 hin.2, hhigh.2 hin.1⟩,
      h.card_holesFrom ⟨hhole, hin⟩]
    push_cast
    ring
  · rw [h.holesFrom_eq fun hn => hin hn.2]
    by_cases hle : low ≤ high
    · rw [if_pos hle, Intervals.sum_mark _ hle,
        if_neg fun hn => hin ⟨hhigh.1 hn.2, hlow.1 hn.1⟩, add_zero]
    · rw [if_neg hle]

end Run

/-- The run the inner loop finds. -/
theorem runEnd_run (hc : Capped credits) {i : Nat} (hi : i < kWindow) (hm : mask i = false)
    (hbefore : 0 < i → mask (i - 1) = true) :
    let e := runEnd mask credits (kWindow - i) i 0
    Run mask credits i e.1 e.2 := by
  have hfits : 0 + maxStepCredit * (kWindow - i) < 2 ^ 64 := by
    rw [Nat.zero_add]
    exact (Nat.mul_le_mul_left _ (Nat.sub_le _ _)).trans_lt (by decide)
  obtain ⟨⟨h1, h2⟩, hopen, hstop, hsum⟩ := @runEnd_spec mask credits hc (kWindow - i) i 0 hfits
  rw [Nat.zero_add] at hsum
  refine ⟨hbefore, ?_, by omega, hopen, fun h => hstop (by omega), hsum⟩
  rcases Nat.eq_or_lt_of_le h1 with heq | hlt
  · have hmask := hstop (by omega)
    rw [← heq, hm] at hmask
    cases hmask
  · exact hlt

/-- **The array of differences counts the holes of every local window.** -/
theorem holeLoop_spec (hc : Capped credits) {s : Nat} (hs : s + width ≤ kWindow) :
    ∀ {left i : Nat} {delta : Nat → Int}, kWindow ≤ i + left →
    (0 < i → i < kWindow → mask (i - 1) = false → mask i = true) →
      ∑ j ∈ Finset.range (s + 1), holeLoop mask credits width left i delta j =
        ∑ j ∈ Finset.range (s + 1), delta j + (holesFrom mask credits width i s).card := by
  intro left
  induction left with
  | zero =>
    intro i delta hi _
    rw [holesFrom_beyond (by omega), Finset.card_empty]
    exact (add_zero _).symm
  | succ left ih =>
    intro i delta hi hedge
    unfold holeLoop
    by_cases hend : kWindow ≤ i
    · rw [if_pos hend, holesFrom_beyond hend, Finset.card_empty]
      exact (add_zero _).symm
    · rw [if_neg hend]
      by_cases hm : mask i = true
      · rw [if_pos hm, holesFrom_of_covered hm]
        refine ih (by omega) fun _ _ h => ?_
        rw [Nat.add_sub_cancel, hm] at h
        cases h
      · have hbefore : 0 < i → mask (i - 1) = true := fun h => by
          by_contra hn
          exact hm (hedge h (by omega) (by simpa using hn))
        have hrun := runEnd_run hc (not_le.1 hend) (by simpa using hm) hbefore
        have hlt := hrun.lt
        have hnext : ∀ delta, _ = _ := fun delta =>
          @ih (runEnd mask credits (kWindow - i) i 0).1 delta (by omega)
            fun _ h _ => hrun.behind h
        rw [if_neg hm]
        dsimp only
        by_cases hno : i = 0 ∨ (runEnd mask credits (kWindow - i) i 0).1 = kWindow ∨
            maxHoleTokens < (runEnd mask credits (kWindow - i) i 0).1 - i ∨
              (runEnd mask credits (kWindow - i) i 0).2 < minHoleCredit
        · rw [if_pos hno, hnext, hrun.holesFrom_eq fun hn => hrun.hole_iff.1 hn.1 hno]
        · rw [if_neg hno, hnext]
          exact hrun.sum_delta (hrun.hole_iff.2 hno) hs delta

/-! ## The local windows -/

/-- The covered tokens of the local window at `s`. -/
def coveredIn (mask : Mask) (width s : Nat) : Nat :=
  ((Finset.Ico s (s + width)).filter fun i => mask i = true).card

/-- A local window with enough holes. -/
def Eligible (mask : Mask) (credits : List Nat) (width s : Nat) : Prop :=
  minHoles ≤ (holesFrom mask credits width 0 s).card

open Classical in
/-- The best coverage of a local window with enough holes. -/
noncomputable def coverage (mask : Mask) (credits : List Nat) (width : Nat) : Nat :=
  ((Finset.range (kWindow + 1 - width)).filter (Eligible mask credits width)).sup
    (coveredIn mask width)

theorem prefixAt_sub (mask : Mask) (width s : Nat) :
    prefixAt mask (s + width) - prefixAt mask s = coveredIn mask width s := by
  have hadd : prefixAt mask (s + width) = prefixAt mask s + coveredIn mask width s := by
    unfold coveredIn
    induction width with
    | zero => simp
    | succ width ih =>
      have hinsert : Finset.Ico s (s + (width + 1)) =
          insert (s + width) (Finset.Ico s (s + width)) :=
        Nat.Ico_succ_right_eq_insert_Ico (Nat.le_add_right s width)
      have hnew : s + width ∉ (Finset.Ico s (s + width)).filter fun i => mask i = true := by simp
      show prefixAt mask (s + width) + (mask (s + width)).toNat = _
      rw [ih, hinsert, Finset.filter_insert, Nat.add_assoc]
      cases hm : mask (s + width) with
      | false => simp
      | true =>
        rw [if_pos rfl, Finset.card_insert_of_notMem hnew]
        rfl
  omega

/-- **The loop over the local windows finds the best coverage.** -/
theorem bestLoop_spec {delta : Nat → Int} : ∀ {n start best : Nat} {holes : Int},
    holes = ∑ j ∈ Finset.range start, delta j →
    ∀ {c : Nat}, bestLoop mask delta width (List.range' start n) best holes ≤ c ↔
      best ≤ c ∧ ∀ s, start ≤ s → s < start + n →
        (minHoles : Int) ≤ ∑ j ∈ Finset.range (s + 1), delta j → coveredIn mask width s ≤ c := by
  intro n
  induction n with
  | zero =>
    intro start best holes _ c
    exact (and_iff_left fun s h1 h2 => absurd h2 (by omega)).symm
  | succ n ih =>
    intro start best holes hholes c
    have hsum : holes + delta start = ∑ j ∈ Finset.range (start + 1), delta j := by
      rw [hholes, Finset.sum_range_succ]
    rw [List.range'_succ]
    unfold bestLoop
    dsimp only
    rw [ih hsum, prefixAt_sub, hsum]
    have hrest : (∀ s, start ≤ s → s < start + (n + 1) →
        (minHoles : Int) ≤ ∑ j ∈ Finset.range (s + 1), delta j → coveredIn mask width s ≤ c) ↔
        ((minHoles : Int) ≤ ∑ j ∈ Finset.range (start + 1), delta j →
          coveredIn mask width start ≤ c) ∧
        ∀ s, start + 1 ≤ s → s < start + 1 + n →
          (minHoles : Int) ≤ ∑ j ∈ Finset.range (s + 1), delta j → coveredIn mask width s ≤ c := by
      constructor
      · exact fun h => ⟨h start le_rfl (by omega), fun s h1 h2 => h s (by omega) (by omega)⟩
      · rintro ⟨hfirst, hlater⟩ s h1 h2
        rcases Nat.eq_or_lt_of_le h1 with rfl | h1
        · exact hfirst
        · exact hlater s h1 (by omega)
    rw [hrest]
    by_cases hmin : (minHoles : Int) ≤ ∑ j ∈ Finset.range (start + 1), delta j
    · rw [if_pos hmin, max_le_iff, and_assoc]
      exact and_congr_right fun _ => and_congr_left fun _ => ⟨fun h _ => h, fun h => h hmin⟩
    · rw [if_neg hmin]
      exact and_congr_right fun _ => (and_iff_right fun h => absurd h hmin).symm

/-- **The coverage is the best of a local window with enough holes.** -/
theorem localCoverage_eq (hc : Capped credits) (hwidth : width ≤ kWindow) :
    localCoverage mask credits width = coverage mask credits width := by
  classical
  have hcount : ∀ s, s + width ≤ kWindow →
      ((minHoles : Int) ≤ ∑ j ∈ Finset.range (s + 1),
        holeLoop mask credits width kWindow 0 (fun _ => 0) j ↔ Eligible mask credits width s) := by
    intro s hs
    rw [holeLoop_spec hc hs (by omega) (fun h => absurd h (lt_irrefl 0)),
      Finset.sum_const_zero, zero_add]
    exact Int.ofNat_le
  refine eq_of_forall_ge_iff fun c => ?_
  unfold localCoverage coverage
  rw [List.range_eq_range', bestLoop_spec (by simp), Finset.sup_le_iff]
  constructor
  · rintro ⟨-, h⟩ s hs
    obtain ⟨hs, he⟩ := Finset.mem_filter.1 hs
    have hlt := Finset.mem_range.1 hs
    exact h s (Nat.zero_le s) (by omega) ((hcount s (by omega)).2 he)
  · intro h
    refine ⟨Nat.zero_le c, fun s _ hlt hmin => h s ?_⟩
    exact Finset.mem_filter.2
      ⟨Finset.mem_range.2 (by omega), (hcount s (by omega)).1 hmin⟩

theorem le_coverage_iff {n : Nat} (hn : 0 < n) : n ≤ coverage mask credits width ↔
    ∃ s, s + width ≤ kWindow ∧ Eligible mask credits width s ∧ n ≤ coveredIn mask width s := by
  classical
  unfold coverage
  rw [Finset.le_sup_iff hn]
  constructor
  · rintro ⟨s, hs, hle⟩
    obtain ⟨hs, he⟩ := Finset.mem_filter.1 hs
    have hlt := Finset.mem_range.1 hs
    exact ⟨s, by omega, he, hle⟩
  · rintro ⟨s, hs, he, hle⟩
    exact ⟨s, Finset.mem_filter.2 ⟨Finset.mem_range.2 (by omega), he⟩, hle⟩

end Holes

/-! ## The window -/

/-- One of the four conditions. -/
structure Branch where
  k : Nat
  requireRepeats : Bool
  lowCredit : Bool
  width : Nat
  minCovered : Nat

/-- Repeated fragments of four and of three tokens without much credit, spans of twelve or more, and
repeated fragments of three. -/
def branches : List Branch :=
  [⟨4, true, true, 128, 77⟩, ⟨12, false, false, 64, 48⟩, ⟨3, true, true, 64, 52⟩,
    ⟨3, true, false, 64, 48⟩]

open Classical in
/-- The tokens a branch counts. -/
noncomputable def Branch.counted (b : Branch) (prompt pad chosen credits : List Nat) : Mask :=
  fun i => decide (Copied b.k prompt pad chosen b.requireRepeats i ∧
    (b.lowCredit = true → credits.getD i 0 ≤ Scaffold.lowCredit))

/-- What `ComputeWindow` accepts. -/
structure ValidWindow (prompt pad chosen credits : List Nat) : Prop where
  chosenCount : chosen.length = kWindow
  creditCount : credits.length = kWindow
  padLength : pad = [] ∨ pad.length = prompt.length
  binary : ∀ value ∈ pad, value ≤ 1
  credit : ∀ value ∈ credits, value ≤ maxStepCredit

/-- The best coverage of each branch. -/
noncomputable def exactCovered (prompt pad chosen credits : List Nat) : List Nat :=
  branches.map fun b => coverage (b.counted prompt pad chosen credits) credits b.width

theorem capped_of_le {credits : List Nat} (h : ∀ value ∈ credits, value ≤ maxStepCredit) :
    Capped credits := by
  intro i
  rw [List.getD_eq_getElem?_getD]
  cases hget : credits[i]? with
  | none => exact Nat.zero_le _
  | some value => exact h value (List.mem_of_getElem? hget)

theorem lowCredited_eq (hk : 0 < k) (prompt pad chosen credits : List Nat) (requireRepeats : Bool)
    (width minCovered : Nat) :
    lowCredited (copied k prompt pad chosen requireRepeats) credits =
      Branch.counted ⟨k, requireRepeats, true, width, minCovered⟩ prompt pad chosen credits := by
  classical
  funext i
  unfold lowCredited Branch.counted
  rw [Bool.eq_iff_iff, Bool.and_eq_true, copied_iff hk, decide_eq_true_eq, decide_eq_true_eq]
  simp

theorem copied_eq (hk : 0 < k) (prompt pad chosen credits : List Nat) (requireRepeats : Bool)
    (width minCovered : Nat) : copied k prompt pad chosen requireRepeats =
      Branch.counted ⟨k, requireRepeats, false, width, minCovered⟩ prompt pad chosen credits := by
  classical
  funext i
  unfold Branch.counted
  rw [Bool.eq_iff_iff, copied_iff hk, decide_eq_true_eq]
  simp

/-- **The windows `ComputeWindow` accepts, and what it says of them.** -/
theorem computeWindow_ok_iff (prompt pad chosen credits : List Nat) (m : Metrics) :
    computeWindow prompt pad chosen credits = .ok m ↔
      ValidWindow prompt pad chosen credits ∧
        m = ⟨exactCovered prompt pad chosen credits,
          ((exactCovered prompt pad chosen credits).zip minCovered).any
            fun c => decide (c.2 ≤ c.1)⟩ := by
  unfold computeWindow
  by_cases hlen : chosen.length ≠ kWindow ∨ credits.length ≠ kWindow
  · rw [if_pos hlen]
    simp only [reduceCtorEq, false_iff, not_and]
    intro hv
    exact absurd hlen (by simp [hv.chosenCount, hv.creditCount])
  · rw [if_neg hlen]
    by_cases hpad : pad ≠ [] ∧ pad.length ≠ prompt.length
    · rw [if_pos hpad]
      simp only [reduceCtorEq, false_iff, not_and]
      intro hv
      exact absurd hv.padLength (by simpa using hpad)
    · rw [if_neg hpad]
      by_cases hbinary : pad.any (fun value => decide (1 < value)) = true
      · rw [if_pos hbinary]
        simp only [reduceCtorEq, false_iff, not_and]
        intro hv
        obtain ⟨value, hmem, hlt⟩ := List.any_eq_true.1 hbinary
        have := hv.binary value hmem
        have := of_decide_eq_true hlt
        omega
      · rw [if_neg hbinary]
        by_cases hcredit : credits.any (fun value => decide (maxStepCredit < value)) = true
        · rw [if_pos hcredit]
          simp only [reduceCtorEq, false_iff, not_and]
          intro hv
          obtain ⟨value, hmem, hlt⟩ := List.any_eq_true.1 hcredit
          have := hv.credit value hmem
          have := of_decide_eq_true hlt
          omega
        · rw [if_neg hcredit]
          have hv : ValidWindow prompt pad chosen credits := by
            constructor
            · omega
            · omega
            · by_contra hn
              rw [not_or] at hn
              exact hpad hn
            · intro value hmem
              by_contra hlt
              exact hbinary (List.any_eq_true.2 ⟨value, hmem, decide_eq_true (by omega)⟩)
            · intro value hmem
              by_contra hlt
              exact hcredit (List.any_eq_true.2 ⟨value, hmem, decide_eq_true (by omega)⟩)
          have hc := capped_of_le hv.credit
          dsimp only
          rw [lowCredited_eq (by decide) prompt pad chosen credits true 128 77,
            lowCredited_eq (by decide) prompt pad chosen credits true 64 52,
            copied_eq (by decide) prompt pad chosen credits false 64 48,
            copied_eq (by decide) prompt pad chosen credits true 64 48,
            localCoverage_eq hc (by decide), localCoverage_eq hc (by decide),
            localCoverage_eq hc (by decide), localCoverage_eq hc (by decide), Except.ok.injEq]
          constructor
          · rintro rfl
            exact ⟨hv, rfl⟩
          · rintro ⟨-, rfl⟩
            rfl

/-- Some local window with three holes or more has enough of the tokens the branch counts. -/
def Branch.Covers (b : Branch) (prompt pad chosen credits : List Nat) : Prop :=
  ∃ s, s + b.width ≤ kWindow ∧
    Eligible (b.counted prompt pad chosen credits) credits b.width s ∧
      b.minCovered ≤ coveredIn (b.counted prompt pad chosen credits) b.width s

theorem any_minCovered_iff (prompt pad chosen credits : List Nat) :
    ((exactCovered prompt pad chosen credits).zip minCovered).any
        (fun c => decide (c.2 ≤ c.1)) = true ↔
      ∃ b ∈ branches, b.Covers prompt pad chosen credits := by
  have hany : ((exactCovered prompt pad chosen credits).zip minCovered).any
        (fun c => decide (c.2 ≤ c.1)) = true ↔
      ∃ b ∈ branches, b.minCovered ≤
        coverage (b.counted prompt pad chosen credits) credits b.width := by
    simp [exactCovered, branches, minCovered]
  have hpos : ∀ b ∈ branches, 0 < b.minCovered := by simp [branches]
  rw [hany]
  exact exists_congr fun b => and_congr_right fun hb => le_coverage_iff (hpos b hb)

/-- **The windows that are rejected**: by one of the branches, some local window with three holes or
more has enough copied tokens. -/
theorem scaffold_reject_iff (prompt pad chosen credits : List Nat) :
    (∃ m, computeWindow prompt pad chosen credits = .ok m ∧ m.reject = true) ↔
      ValidWindow prompt pad chosen credits ∧
        ∃ b ∈ branches, b.Covers prompt pad chosen credits := by
  simp only [computeWindow_ok_iff]
  rw [← any_minCovered_iff]
  constructor
  · rintro ⟨m, ⟨hv, rfl⟩, hreject⟩
    exact ⟨hv, hreject⟩
  · rintro ⟨hv, hreject⟩
    exact ⟨_, ⟨hv, rfl⟩, hreject⟩

end Scaffold

end Precheck
