import SuprMeow.Library.Checked
import SuprMeow.Precheck.Scaffold

/-!
# The scaffold's walks stay in range

`prompt_scaffold::ComputeWindow` once more, with a bounds check at every access: the fragments of
the continuation and of the prompt, the pad mask, the credits, and the arrays of its own.

* `copiedM_ok`, `localCoverageM_ok` — the pass over the prompt, and that over the holes;
* `computeWindowM_ok` — the checked run never stops, and is the run.
-/

set_option autoImplicit false

namespace Precheck

open Checked

/-- The arrays of the window, and the three that the scaffold fills. -/
inductive Arr where
  | rowLen
  | logits
  | ids
  | chosen
  | chosenProbs
  | prompt
  | pad
  | credits
  | mask
  | sums
  | holeDelta
  deriving DecidableEq

namespace Scaffold

/-! ## The code -/

def occurrencesM (k : Nat) (chosen : List Nat) : Access Arr (List (List Nat × List Nat)) :=
  (List.range (kWindow + 1 - k)).foldlM (fun occurrences start => do
    let key ← slice .chosen chosen start k
    return InsertionDict.assign occurrences key
      ((InsertionDict.find occurrences key).getD [] ++ [start])) []

/-- `fill_n`, on the mask's 256 flags. -/
def fillM (k : Nat) (mask : Mask) (start : Nat) : Access Arr Mask := do
  room .mask kWindow start k
  return fill k mask start

def visibleM (pad : List Nat) (i : Nat) : Access Arr Bool :=
  if pad.isEmpty then return true
  else do
    let masked ← get .pad pad i
    return decide (masked = 0)

def copyLoopM (k : Nat) (prompt pad : List Nat) :
    Nat → Nat → Nat → List (List Nat × List Nat) → Mask → Access Arr Mask
  | 0, _, _, _, mask => return mask
  | left + 1, pos, consecutive, occurrences, mask =>
    if occurrences = [] then return mask
    else do
      let seen ← visibleM pad pos
      if seen = false then copyLoopM k prompt pad left (pos + 1) 0 occurrences mask
      else
        let consecutive := if consecutive < k then consecutive + 1 else consecutive
        if consecutive < k then copyLoopM k prompt pad left (pos + 1) consecutive occurrences mask
        else
          let key ← slice .prompt prompt (pos + 1 - k) k
          match InsertionDict.find occurrences key with
          | none => copyLoopM k prompt pad left (pos + 1) consecutive occurrences mask
          | some starts =>
            let mask ← starts.foldlM (fillM k) mask
            copyLoopM k prompt pad left (pos + 1) consecutive
              (occurrences.filter fun e => decide (e.1 ≠ key)) mask

def copiedM (k : Nat) (prompt pad chosen : List Nat) (requireRepeats : Bool) :
    Access Arr Mask := do
  let occurrences ← occurrencesM k chosen
  let occurrences := if requireRepeats then repeats k occurrences else occurrences
  copyLoopM k prompt pad prompt.length 0 0 occurrences fun _ => false

/-- `LowCredit` reads the credit of the tokens that are masked. -/
def lowCreditedM (mask : Mask) (credits : List Nat) : Access Arr Mask :=
  (List.range kWindow).foldlM (fun low i => do
    room .mask kWindow i 1
    if mask i then
      let credit ← get .credits credits i
      return if lowCredit < credit then Function.update low i false else low
    else return low) mask

def runEndM (mask : Mask) (credits : List Nat) : Nat → Nat → Nat → Access Arr (Nat × Nat)
  | 0, i, sum => return (i, sum)
  | left + 1, i, sum => do
    room .mask kWindow i 1
    if mask i then return (i, sum)
    else
      let credit ← get .credits credits i
      runEndM mask credits left (i + 1) (Word.add 64 sum credit)

def holeLoopM (mask : Mask) (credits : List Nat) (width : Nat) :
    Nat → Nat → (Nat → Int) → Access Arr (Nat → Int)
  | 0, _, delta => return delta
  | left + 1, i, delta =>
    if kWindow ≤ i then return delta
    else do
      room .mask kWindow i 1
      if mask i then holeLoopM mask credits width left (i + 1) delta
      else
        let start := i
        let (i, sum) ← runEndM mask credits (kWindow - start) start 0
        if start = 0 ∨ i = kWindow ∨ maxHoleTokens < i - start ∨ sum < minHoleCredit then
          holeLoopM mask credits width left i delta
        else
          let low := if width < i then i - width else 0
          let high := min start (kWindow - width)
          if low ≤ high then
            room .holeDelta (kWindow + 2) low 1
            room .holeDelta (kWindow + 2) (high + 1) 1
            holeLoopM mask credits width left i (Intervals.mark delta low high)
          else holeLoopM mask credits width left i delta

def bestLoopM (mask : Mask) (delta : Nat → Int) (width : Nat) :
    List Nat → Nat → Int → Access Arr Nat
  | [], best, _ => return best
  | start :: rest, best, holes => do
    room .holeDelta (kWindow + 2) start 1
    let holes := holes + delta start
    if (minHoles : Int) ≤ holes then
      room .sums (kWindow + 1) (start + width) 1
      room .sums (kWindow + 1) start 1
      bestLoopM mask delta width rest
        (max best (prefixAt mask (start + width) - prefixAt mask start)) holes
    else bestLoopM mask delta width rest best holes

def localCoverageM (mask : Mask) (credits : List Nat) (width : Nat) : Access Arr Nat := do
  let delta ← holeLoopM mask credits width kWindow 0 fun _ => 0
  bestLoopM mask delta width (List.range (kWindow + 1 - width)) 0 0

/-- `ComputeWindow`. -/
def computeWindowM (prompt pad chosen credits : List Nat) : Access Arr (Except String Metrics) :=
  if chosen.length ≠ kWindow ∨ credits.length ≠ kWindow then
    return .error "expected 256 tokens and credits"
  else if pad ≠ [] ∧ pad.length ≠ prompt.length then
    return .error "pad mask length differs from prompt"
  else if pad.any (fun value => decide (1 < value)) then return .error "pad mask is not binary"
  else if credits.any (fun value => decide (maxStepCredit < value)) then
    return .error "credit exceeds canonical per-step cap"
  else do
    let r3 ← copiedM 3 prompt pad chosen true
    let r4 ← copiedM 4 prompt pad chosen true
    let c12 ← copiedM 12 prompt pad chosen false
    let low4 ← localCoverageM (← lowCreditedM r4 credits) credits 128
    let text ← localCoverageM c12 credits 64
    let low3 ← localCoverageM (← lowCreditedM r3 credits) credits 64
    let three ← localCoverageM r3 credits 64
    let covered := [low4, text, low3, three]
    return .ok { covered, reject := (covered.zip minCovered).any fun c => decide (c.2 ≤ c.1) }

/-! ## The pass over the prompt -/

variable {k : Nat} {prompt pad chosen credits : List Nat} {mask : Mask}

/-- Every place in the table begins a fragment of the window. -/
def Fits (k : Nat) (occurrences : List (List Nat × List Nat)) : Prop :=
  ∀ e ∈ occurrences, ∀ start ∈ e.2, start + k ≤ kWindow

theorem occurrencesM_ok (h : chosen.length = kWindow) :
    occurrencesM k chosen = .ok (occurrencesOf k chosen) := by
  refine foldlM_ok (fun start hstart occurrences => ?_) []
  have hin : start + k ≤ chosen.length := by
    have := List.mem_range.1 hstart
    omega
  rw [bind_ok (slice_ok _ hin)]
  rfl

theorem fits_occurrencesOf (k : Nat) (chosen : List Nat) : Fits k (occurrencesOf k chosen) := by
  intro e he start hstart
  have hfind : InsertionDict.find (occurrencesOf k chosen) e.1 = some e.2 :=
    InsertionDict.find_of_mem (nodup_occurrencesOf k chosen) he
  rw [find_eq_some hfind] at hstart
  exact (mem_starts.1 hstart).fits

theorem Fits.filter {occurrences : List (List Nat × List Nat)} (h : Fits k occurrences)
    (p : List Nat × List Nat → Bool) : Fits k (occurrences.filter p) := fun e he =>
  h e (List.mem_filter.1 he).1

theorem fillM_ok {starts : List Nat} (h : ∀ start ∈ starts, start + k ≤ kWindow) (mask : Mask) :
    starts.foldlM (fillM k) mask = .ok (starts.foldl (fill k) mask) := by
  refine foldlM_ok (fun start hstart mask => ?_) mask
  unfold fillM
  rw [bind_ok (room_ok _ (h start hstart))]
  rfl

theorem visibleM_ok (hpad : pad = [] ∨ pad.length = prompt.length) {i : Nat}
    (hi : i < prompt.length) : visibleM pad i = .ok (visible pad i) := by
  unfold visibleM visible
  rcases hpad with rfl | hlen
  · rfl
  · have hin : i < pad.length := by omega
    have hne : pad.isEmpty = false := by
      rw [← Bool.not_eq_true, List.isEmpty_iff]
      rintro rfl
      exact absurd hin (Nat.not_lt_zero i)
    rw [hne, bind_ok (get_ok _ hin), List.getD_eq_getElem _ _ hin]
    rfl

theorem copyLoopM_ok (hpad : pad = [] ∨ pad.length = prompt.length) :
    ∀ {left pos consecutive : Nat} {occurrences : List (List Nat × List Nat)} {mask : Mask},
      pos + left = prompt.length → consecutive ≤ pos → Fits k occurrences →
      copyLoopM k prompt pad left pos consecutive occurrences mask =
        .ok (copyLoop k prompt pad left pos consecutive occurrences mask) := by
  intro left
  induction left with
  | zero => intros; rfl
  | succ left ih =>
    intro pos consecutive occurrences mask hpos hle hfits
    unfold copyLoopM copyLoop
    by_cases hnone : occurrences = []
    · rw [if_pos hnone, if_pos hnone]
      rfl
    rw [if_neg hnone, if_neg hnone, bind_ok (visibleM_ok hpad (by omega))]
    by_cases hseen : visible pad pos = false
    · rw [if_pos hseen, if_pos hseen]
      exact ih (by omega) (Nat.zero_le _) hfits
    rw [if_neg hseen, if_neg hseen]
    dsimp only
    have hnext : (if consecutive < k then consecutive + 1 else consecutive) ≤ pos + 1 := by
      split <;> omega
    generalize (if consecutive < k then consecutive + 1 else consecutive) = next at *
    by_cases hfew : next < k
    · rw [if_pos hfew, if_pos hfew]
      exact ih (by omega) hnext hfits
    -- the trail is `k` tokens long, so the fragment begins inside the prompt
    have hslice : slice Arr.prompt prompt (pos + 1 - k) k =
        .ok (fragment k prompt (pos + 1 - k)) := slice_ok _ (by omega)
    rw [if_neg hfew, if_neg hfew, bind_ok hslice]
    cases hfind : InsertionDict.find occurrences (fragment k prompt (pos + 1 - k)) with
    | none => exact ih (by omega) hnext hfits
    | some starts =>
      have hstarts : ∀ start ∈ starts, start + k ≤ kWindow :=
        hfits _ (InsertionDict.mem_of_find hfind)
      dsimp only
      rw [bind_ok (fillM_ok hstarts mask)]
      exact ih (by omega) hnext (hfits.filter _)

theorem copiedM_ok (hpad : pad = [] ∨ pad.length = prompt.length) (h : chosen.length = kWindow)
    (requireRepeats : Bool) : copiedM k prompt pad chosen requireRepeats =
      .ok (copied k prompt pad chosen requireRepeats) := by
  unfold copiedM copied
  rw [bind_ok (occurrencesM_ok h)]
  refine copyLoopM_ok hpad (by omega) (Nat.zero_le _) ?_
  cases requireRepeats with
  | false => exact fits_occurrencesOf k chosen
  | true => exact (fits_occurrencesOf k chosen).filter _

/-! ## The pass over the holes -/

theorem lowCreditedM_ok (h : credits.length = kWindow) (mask : Mask) :
    lowCreditedM mask credits = .ok (lowCredited mask credits) := by
  have hfold : ∀ n, (List.range n).foldl (fun low i =>
      if mask i then if lowCredit < credits.getD i 0 then Function.update low i false else low
      else low) mask = fun j => mask j && (decide (n ≤ j) || decide (credits.getD j 0 ≤ lowCredit)) := by
    intro n
    induction n with
    | zero => simp
    | succ n ih =>
      rw [List.range_succ, List.foldl_append, ih, List.foldl_cons, List.foldl_nil]
      funext j
      by_cases hj : j = n
      · subst hj
        cases hm : mask j with
        | false => simp [hm]
        | true =>
          by_cases hlow : lowCredit < credits.getD j 0
          · rw [if_pos rfl, if_pos hlow, Function.update_self, decide_eq_false (not_le.2 hlow),
              decide_eq_false (Nat.not_succ_le_self j)]
            rfl
          · rw [if_pos rfl, if_neg hlow, decide_eq_true (not_lt.1 hlow), hm, Bool.or_true,
              Bool.or_true]
      · have hle : (n + 1 ≤ j) = (n ≤ j) := propext (by omega)
        simp only [hle]
        split
        · split
          · rw [Function.update_of_ne hj]
          · rfl
        · rfl
  unfold lowCreditedM
  rw [foldlM_ok (g := fun low i =>
    if mask i then if lowCredit < credits.getD i 0 then Function.update low i false else low
    else low) ?_ mask, hfold]
  · congr 1
    funext j
    unfold lowCredited
    by_cases hj : kWindow ≤ j
    · have hzero : credits.getD j 0 = 0 := List.getD_eq_default _ _ (by omega)
      rw [hzero, decide_eq_true hj, Bool.true_or]
      rfl
    · rw [decide_eq_false hj, Bool.false_or]
  · intro i hi low
    have hi : i < kWindow := List.mem_range.1 hi
    have hin : i < credits.length := by omega
    rw [bind_ok (room_ok _ (by omega))]
    split
    · rw [bind_ok (get_ok _ hin), List.getD_eq_getElem _ _ hin]
      rfl
    · rfl

theorem runEndM_ok (h : credits.length = kWindow) (mask : Mask) :
    ∀ {left i sum : Nat}, i + left ≤ kWindow →
      runEndM mask credits left i sum = .ok (runEnd mask credits left i sum) := by
  intro left
  induction left with
  | zero => intros; rfl
  | succ left ih =>
    intro i sum hi
    unfold runEndM runEnd
    rw [bind_ok (room_ok _ (by omega))]
    split
    · rfl
    · have hin : i < credits.length := by omega
      rw [bind_ok (get_ok _ hin), List.getD_eq_getElem _ _ hin]
      exact ih (by omega)

theorem holeLoopM_ok (h : credits.length = kWindow) (mask : Mask) {width : Nat} :
    ∀ {left i : Nat} {delta : Nat → Int}, holeLoopM mask credits width left i delta =
      .ok (holeLoop mask credits width left i delta) := by
  intro left
  induction left with
  | zero => intros; rfl
  | succ left ih =>
    intro i delta
    unfold holeLoopM holeLoop
    by_cases hend : kWindow ≤ i
    · rw [if_pos hend, if_pos hend]
      rfl
    rw [if_neg hend, if_neg hend, bind_ok (room_ok _ (by omega))]
    split
    · exact ih
    · rw [bind_ok (runEndM_ok h mask (by omega))]
      dsimp only
      generalize runEnd mask credits (kWindow - i) i 0 = run
      obtain ⟨e, sum⟩ := run
      dsimp only
      split
      · exact ih
      · generalize (if width < e then e - width else 0) = low
        by_cases hle : low ≤ min i (kWindow - width)
        · have hhigh : min i (kWindow - width) + 1 + 1 ≤ kWindow + 2 := by omega
          rw [if_pos hle, if_pos hle, bind_ok (room_ok _ ((Nat.succ_le_succ hle).trans (by omega))),
            bind_ok (room_ok _ hhigh)]
          exact ih
        · rw [if_neg hle, if_neg hle]
          exact ih

theorem bestLoopM_ok (mask : Mask) (delta : Nat → Int) {width : Nat} :
    ∀ {starts : List Nat} {best : Nat} {holes : Int},
      (∀ start ∈ starts, start + width ≤ kWindow) →
      bestLoopM mask delta width starts best holes =
        .ok (bestLoop mask delta width starts best holes) := by
  intro starts
  induction starts with
  | nil => intros; rfl
  | cons start rest ih =>
    intro best holes hall
    rw [List.forall_mem_cons] at hall
    unfold bestLoopM bestLoop
    rw [bind_ok (room_ok _ (by omega))]
    dsimp only
    split
    · rw [bind_ok (room_ok _ (by omega)), bind_ok (room_ok _ (by omega))]
      exact ih hall.2
    · exact ih hall.2

theorem localCoverageM_ok (h : credits.length = kWindow) (mask : Mask) (width : Nat) :
    localCoverageM mask credits width = .ok (localCoverage mask credits width) := by
  unfold localCoverageM localCoverage
  rw [bind_ok (holeLoopM_ok h mask)]
  refine bestLoopM_ok mask _ fun start hstart => ?_
  have := List.mem_range.1 hstart
  omega

/-- **Whatever the scaffold is handed, it reads and writes in range.** -/
theorem computeWindowM_ok (prompt pad chosen credits : List Nat) :
    computeWindowM prompt pad chosen credits = .ok (computeWindow prompt pad chosen credits) := by
  unfold computeWindowM computeWindow
  split
  · rfl
  rename_i hcount
  split
  · rfl
  rename_i hlen
  split
  · rfl
  split
  · rfl
  have hchosen : chosen.length = kWindow := by omega
  have hcredits : credits.length = kWindow := by omega
  have hpad : pad = [] ∨ pad.length = prompt.length := by
    by_contra hn
    rw [not_or] at hn
    exact hlen hn
  rw [bind_ok (copiedM_ok hpad hchosen true), bind_ok (copiedM_ok hpad hchosen true),
    bind_ok (copiedM_ok hpad hchosen false), bind_ok (lowCreditedM_ok hcredits _),
    bind_ok (localCoverageM_ok hcredits _ 128), bind_ok (localCoverageM_ok hcredits _ 64),
    bind_ok (lowCreditedM_ok hcredits _), bind_ok (localCoverageM_ok hcredits _ 64),
    bind_ok (localCoverageM_ok hcredits _ 64)]
  rfl

end Scaffold

end Precheck
