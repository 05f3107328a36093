import Mathlib.Data.List.Basic
import SuprMeow.Stratum.Client

/-!
# Tuning and handing back (`device.cpp`)

`apply_tuning` makes up to five settings and returns at the first that fails; a device goes on the
list for `restore_all` only at the end.  What NVML answers is part of a call.

* `run_leaves` — what a sequence of calls leaves behind;
* `handed_back_iff` — when every fan and every clock set is given back.
-/

set_option autoImplicit false

open Stratum (Bytes text)

namespace Host

/-! ## NVML -/

/-- `DeviceTuning::UNSET`. -/
def UNSET : Int := -2 ^ 31

structure DeviceTuning where
  coreOffsetMhz : Int := UNSET
  memOffsetMhz : Int := UNSET
  powerLimitW : Int := UNSET
  fanPct : Int := UNSET
  lockCoreMhz : Int := UNSET

/-- A call of `apply_tuning` and what NVML answers.  An answer is `none`, or the error string of a
failure; `numFans` is `none` when the fans cannot be counted. -/
structure TuneCall where
  index : Int
  tuning : DeviceTuning := {}
  handle : Bool := true
  power : Option Bytes := none
  core : Option Bytes := none
  mem : Option Bytes := none
  lock : Option Bytes := none
  numFans : Option Nat := some 1
  fan : Nat → Option Bytes := fun _ => none

/-- What NVML answers when a device is restored; a device is restored once. -/
structure RestoreAnswer where
  handle : Bool := true
  fan : Bool := true
  clocks : Bool := true

/-- `DeviceManager`.  The fields behind `tuned` record the calls that succeeded. -/
structure DeviceManager where
  nvmlReady : Bool := true
  /-- Indices we must restore. -/
  tuned : List Int := []
  fansSet : List (Int × Nat) := []
  locksSet : List Int := []
  fansRestored : List (Int × Nat) := []
  locksReset : List Int := []

/-! ## `apply_tuning` -/

/-- The error a setting returns with, when it is requested and fails. -/
def settingError (value : Int) (label : String) (answer : Option Bytes) : Option Bytes :=
  if value ≠ UNSET then answer.map (text label ++ ·) else none

/-- The loop over the `left` fans from `f` on: the fans set, and the error. -/
def setFans (fan : Nat → Option Bytes) : Nat → Nat → List Nat × Option Bytes
  | 0, _ => ([], none)
  | left + 1, f =>
    match fan f with
    | some e => ([], some (text "fan: " ++ e))
    | none =>
      let r := setFans fan left (f + 1)
      (f :: r.1, r.2)

/-- `fans`: one, when they cannot be counted. -/
def TuneCall.fans (c : TuneCall) : Nat := c.numFans.getD 1

/-- The fans the call sets, and the error. -/
def TuneCall.fanLoop (c : TuneCall) : List Nat × Option Bytes :=
  if c.tuning.fanPct ≠ UNSET then setFans c.fan c.fans 0 else ([], none)

def TuneCall.touched (c : TuneCall) : Bool :=
  c.tuning.powerLimitW ≠ UNSET || c.tuning.coreOffsetMhz ≠ UNSET ||
    c.tuning.memOffsetMhz ≠ UNSET || c.tuning.lockCoreMhz ≠ UNSET || c.tuning.fanPct ≠ UNSET

namespace DeviceManager

def recordLock (s : DeviceManager) (c : TuneCall) : DeviceManager :=
  { s with
    locksSet := if c.tuning.lockCoreMhz ≠ UNSET then s.locksSet ++ [c.index] else s.locksSet }

def recordFans (s : DeviceManager) (c : TuneCall) : DeviceManager :=
  { s with fansSet := s.fansSet ++ c.fanLoop.1.map (c.index, ·) }

/-- A device goes on the list once. -/
def list (s : DeviceManager) (c : TuneCall) : DeviceManager :=
  { s with
    tuned := if c.touched ∧ c.index ∉ s.tuned then s.tuned ++ [c.index] else s.tuned }

/-- The manager afterwards, and the error when the call returns false. -/
def applyTuning (s : DeviceManager) (c : TuneCall) : DeviceManager × Option Bytes :=
  if ¬ s.nvmlReady then (s, some (text "NVML unavailable — cannot tune"))
  else if ¬ c.handle then
    (s, some (text "no NVML handle for device " ++ text (toString c.index)))
  else
    match settingError c.tuning.powerLimitW "power limit: " c.power with
    | some e => (s, some e)
    | none =>
    match settingError c.tuning.coreOffsetMhz "core offset: " c.core with
    | some e => (s, some e)
    | none =>
    match settingError c.tuning.memOffsetMhz "memory offset: " c.mem with
    | some e => (s, some e)
    | none =>
    match settingError c.tuning.lockCoreMhz "locked clocks: " c.lock with
    | some e => (s, some e)
    | none =>
      let s := s.recordLock c
      let s := s.recordFans c
      match c.fanLoop.2 with
      | some e => (s, some e)
      | none => (s.list c, none)

/-- `restore_all`. -/
def restoreAll (s : DeviceManager) (answer : Int → RestoreAnswer) : DeviceManager :=
  if ¬ s.nvmlReady then s
  else
    let reached := s.tuned.filter fun idx => (answer idx).handle
    { s with
      fansRestored := s.fansRestored ++ (reached.filter fun idx => (answer idx).fan).map (·, 0)
      locksReset := s.locksReset ++ reached.filter fun idx => (answer idx).clocks
      tuned := [] }

/-- A sequence of calls on the devices of a manager. -/
def run (s : DeviceManager) (calls : List TuneCall) : DeviceManager :=
  calls.foldl (fun s c => (s.applyTuning c).1) s

end DeviceManager

/-! ## Specification -/

/-- **After the calls and `restore_all`, every fan and every clock set is handed back.** -/
def HandedBack (nvmlReady : Bool) (calls : List TuneCall) (answer : Int → RestoreAnswer) : Prop :=
  let s := (({ nvmlReady } : DeviceManager).run calls).restoreAll answer
  (∀ p ∈ s.fansSet, p ∈ s.fansRestored) ∧ ∀ idx ∈ s.locksSet, idx ∈ s.locksReset

namespace TuneCall

/-- A setting is left alone or succeeds. -/
def Passes (value : Int) (answer : Option Bytes) : Prop := value ≠ UNSET → answer = none

variable (c : TuneCall)

/-- The settings before the clock lock pass. -/
def ReachesLock : Prop :=
  c.handle = true ∧ Passes c.tuning.powerLimitW c.power ∧ Passes c.tuning.coreOffsetMhz c.core ∧
    Passes c.tuning.memOffsetMhz c.mem

/-- The call locks the clocks. -/
def SetsLock : Prop := c.ReachesLock ∧ c.tuning.lockCoreMhz ≠ UNSET ∧ c.lock = none

def ReachesFans : Prop := c.ReachesLock ∧ Passes c.tuning.lockCoreMhz c.lock

/-- The call sets the speed of fan `f`. -/
def SetsFan (f : Nat) : Prop :=
  c.ReachesFans ∧ c.tuning.fanPct ≠ UNSET ∧ f < c.fans ∧ ∀ f' ≤ f, c.fan f' = none

/-- Something is requested and everything requested succeeds. -/
def Completes : Prop :=
  c.ReachesFans ∧ (c.tuning.fanPct ≠ UNSET → ∀ f < c.fans, c.fan f = none) ∧ c.touched = true

end TuneCall

/-- When a sequence of calls can be handed back: a fan set is fan 0, a device with a fan or a lock
set has a call that completes, and NVML can restore it. -/
structure Returnable (calls : List TuneCall) (answer : Int → RestoreAnswer) : Prop where
  fanZero : ∀ c ∈ calls, ∀ f, c.SetsFan f → f = 0
  fanListed : ∀ c ∈ calls, ∀ f, c.SetsFan f → ∃ c' ∈ calls, c'.index = c.index ∧ c'.Completes
  fanAnswer : ∀ c ∈ calls, ∀ f, c.SetsFan f →
    (answer c.index).handle = true ∧ (answer c.index).fan = true
  lockListed : ∀ c ∈ calls, c.SetsLock → ∃ c' ∈ calls, c'.index = c.index ∧ c'.Completes
  lockAnswer : ∀ c ∈ calls, c.SetsLock →
    (answer c.index).handle = true ∧ (answer c.index).clocks = true

/-! ## One call -/

theorem settingError_eq_none_iff {value : Int} {label : String} {answer : Option Bytes} :
    settingError value label answer = none ↔ TuneCall.Passes value answer := by
  unfold settingError TuneCall.Passes
  split
  · rename_i h
    rw [Option.map_eq_none_iff]
    exact ⟨fun ha _ => ha, fun ha => ha h⟩
  · rename_i h
    exact iff_of_true rfl fun hv => absurd hv h

/-- The fans up to the first that fails. -/
theorem mem_setFans {fan : Nat → Option Bytes} {left from' f : Nat} :
    f ∈ (setFans fan left from').1 ↔
      from' ≤ f ∧ f < from' + left ∧ ∀ f', from' ≤ f' → f' ≤ f → fan f' = none := by
  induction left generalizing from' with
  | zero =>
    refine iff_of_false (by simp [setFans]) ?_
    rintro ⟨hge, hlt, -⟩
    omega
  | succ left ih =>
    rw [setFans]
    split
    · rename_i e he
      refine iff_of_false (by simp) ?_
      rintro ⟨hge, -, hall⟩
      rw [hall from' le_rfl hge] at he
      cases he
    · rename_i hnone
      rw [List.mem_cons, ih]
      constructor
      · rintro (rfl | ⟨hge, hlt, hall⟩)
        · refine ⟨le_rfl, by omega, fun f' hge hle => ?_⟩
          rw [Nat.le_antisymm hle hge, hnone]
        · refine ⟨by omega, by omega, fun f' hf' hle => ?_⟩
          rcases Nat.eq_or_lt_of_le hf' with rfl | hlt'
          · exact hnone
          · exact hall f' hlt' hle
      · rintro ⟨hge, hlt, hall⟩
        rcases Nat.eq_or_lt_of_le hge with rfl | hlt'
        · exact .inl rfl
        · exact .inr ⟨hlt', by omega, fun f' hf' hle => hall f' (by omega) hle⟩

theorem setFans_error_eq_none_iff {fan : Nat → Option Bytes} {left from' : Nat} :
    (setFans fan left from').2 = none ↔ ∀ f, from' ≤ f → f < from' + left → fan f = none := by
  induction left generalizing from' with
  | zero => exact iff_of_true rfl fun f hge hlt => by omega
  | succ left ih =>
    rw [setFans]
    split
    · rename_i e he
      refine iff_of_false (by simp) fun hall => ?_
      rw [hall from' le_rfl (by omega)] at he
      cases he
    · rename_i hnone
      rw [ih]
      constructor
      · intro hall f hge hlt
        rcases Nat.eq_or_lt_of_le hge with rfl | hlt'
        · exact hnone
        · exact hall f hlt' (by omega)
      · intro hall f hge hlt
        exact hall f (by omega) (by omega)

theorem TuneCall.mem_fanLoop {c : TuneCall} (h : c.ReachesFans) (f : Nat) :
    f ∈ c.fanLoop.1 ↔ c.SetsFan f := by
  unfold fanLoop SetsFan
  split
  · rename_i hfan
    rw [mem_setFans]
    constructor
    · rintro ⟨-, hlt, hall⟩
      exact ⟨h, hfan, by omega, fun f' hle => hall f' (Nat.zero_le _) hle⟩
    · rintro ⟨-, -, hlt, hall⟩
      exact ⟨Nat.zero_le _, by omega, fun f' _ hle => hall f' hle⟩
  · rename_i hfan
    exact iff_of_false (by simp) fun hs => hfan hs.2.1

theorem TuneCall.fanLoop_error_eq_none_iff (c : TuneCall) :
    c.fanLoop.2 = none ↔ (c.tuning.fanPct ≠ UNSET → ∀ f < c.fans, c.fan f = none) := by
  unfold fanLoop
  split
  · rename_i hfan
    rw [setFans_error_eq_none_iff]
    constructor
    · intro hall _ f hlt
      exact hall f (Nat.zero_le _) (by omega)
    · intro hall f _ hlt
      exact hall hfan f (by omega)
  · rename_i hfan
    exact iff_of_true rfl fun h => absurd h hfan

namespace DeviceManager

variable {s : DeviceManager} {c : TuneCall}

theorem mem_list (i : Int) :
    i ∈ (s.list c).tuned ↔ i ∈ s.tuned ∨ i = c.index ∧ c.touched = true := by
  unfold list
  dsimp only
  split
  · rename_i h
    rw [List.mem_append, List.mem_singleton]
    simp [h.1]
  · rename_i h
    constructor
    · exact .inl
    · rintro (hi | ⟨rfl, ht⟩)
      · exact hi
      · by_contra hnot
        exact h ⟨ht, hnot⟩

/-- The manager once a call has come to the fans. -/
def afterFans (s : DeviceManager) (c : TuneCall) : DeviceManager :=
  (s.recordLock c).recordFans c

theorem mem_afterFans_fansSet (h : c.ReachesFans) (i : Int) (f : Nat) :
    (i, f) ∈ (s.afterFans c).fansSet ↔ (i, f) ∈ s.fansSet ∨ i = c.index ∧ c.SetsFan f := by
  change (i, f) ∈ s.fansSet ++ _ ↔ _
  rw [List.mem_append, List.mem_map]
  refine or_congr_right ?_
  constructor
  · rintro ⟨f', hf', heq⟩
    cases heq
    exact ⟨rfl, (TuneCall.mem_fanLoop h _).1 hf'⟩
  · rintro ⟨rfl, hf⟩
    exact ⟨f, (TuneCall.mem_fanLoop h f).2 hf, rfl⟩

theorem mem_afterFans_locksSet (h : c.ReachesFans) (i : Int) :
    i ∈ (s.afterFans c).locksSet ↔ i ∈ s.locksSet ∨ i = c.index ∧ c.SetsLock := by
  change i ∈ (if c.tuning.lockCoreMhz ≠ UNSET then s.locksSet ++ [c.index] else s.locksSet) ↔ _
  unfold TuneCall.SetsLock
  split
  · rename_i hlock
    rw [List.mem_append, List.mem_singleton]
    simp [h.1, hlock, h.2 hlock]
  · rename_i hlock
    simp [hlock]

/-- A call that fails before the clock lock changes nothing, and it set nothing. -/
theorem applyTuning_of_not_reachesLock (hready : s.nvmlReady = true) (h : ¬ c.ReachesLock) :
    (s.applyTuning c).1 = s := by
  unfold applyTuning
  rw [if_neg (by simp [hready])]
  split
  · rfl
  rename_i hhandle
  split
  · rfl
  rename_i hpower
  split
  · rfl
  rename_i hcore
  split
  · rfl
  rename_i hmem
  refine absurd ⟨not_not.1 hhandle, ?_, ?_, ?_⟩ h
  · exact settingError_eq_none_iff.1 hpower
  · exact settingError_eq_none_iff.1 hcore
  · exact settingError_eq_none_iff.1 hmem

/-- One that reaches it goes on to the lock. -/
theorem applyTuning_of_reachesLock (hready : s.nvmlReady = true) (h : c.ReachesLock) :
    s.applyTuning c =
      match settingError c.tuning.lockCoreMhz "locked clocks: " c.lock with
      | some e => (s, some e)
      | none =>
        let s := s.recordLock c
        let s := s.recordFans c
        match c.fanLoop.2 with
        | some e => (s, some e)
        | none => (s.list c, none) := by
  obtain ⟨hhandle, hpower, hcore, hmem⟩ := h
  unfold applyTuning
  rw [if_neg (by simp [hready]), if_neg (by simp [hhandle]),
    settingError_eq_none_iff.2 hpower, settingError_eq_none_iff.2 hcore,
    settingError_eq_none_iff.2 hmem]

/-- What a call adds: the fans and the lock it sets, and its device when it completes. -/
structure Adds (s t : DeviceManager) (c : TuneCall) : Prop where
  ready : t.nvmlReady = s.nvmlReady
  fans : ∀ i f, (i, f) ∈ t.fansSet ↔ (i, f) ∈ s.fansSet ∨ i = c.index ∧ c.SetsFan f
  locks : ∀ i, i ∈ t.locksSet ↔ i ∈ s.locksSet ∨ i = c.index ∧ c.SetsLock
  tuned : ∀ i, i ∈ t.tuned ↔ i ∈ s.tuned ∨ i = c.index ∧ c.Completes
  fansRestored : t.fansRestored = s.fansRestored
  locksReset : t.locksReset = s.locksReset

/-- A call that sets nothing and does not complete. -/
theorem Adds.refl (hfan : ∀ f, ¬ c.SetsFan f) (hlock : ¬ c.SetsLock) (hdone : ¬ c.Completes) :
    Adds s s c where
  ready := rfl
  fans i f := by simp [hfan f]
  locks i := by simp [hlock]
  tuned i := by simp [hdone]
  fansRestored := rfl
  locksReset := rfl

/-- **What a call adds.** -/
theorem applyTuning_adds (hready : s.nvmlReady = true) (c : TuneCall) :
    Adds s (s.applyTuning c).1 c := by
  by_cases hreach : c.ReachesLock
  · rw [applyTuning_of_reachesLock hready hreach]
    split
    · rename_i e he
      have hlock : ¬ TuneCall.Passes c.tuning.lockCoreMhz c.lock := by
        intro hpass
        have hnone := he.symm.trans (settingError_eq_none_iff.2 hpass)
        cases hnone
      refine Adds.refl (fun f h => hlock h.1.2) (fun h => hlock fun _ => h.2.2) fun h => hlock h.1.2
    · rename_i hnone
      have hlock := settingError_eq_none_iff.1 hnone
      have hfans : c.ReachesFans := ⟨hreach, hlock⟩
      change Adds s (match c.fanLoop.2 with
        | some e => (s.afterFans c, some e)
        | none => ((s.afterFans c).list c, none)).1 c
      split
      · rename_i e he
        have hdone : ¬ c.Completes := by
          intro h
          rw [c.fanLoop_error_eq_none_iff.2 h.2.1] at he
          cases he
        exact ⟨rfl, mem_afterFans_fansSet hfans, mem_afterFans_locksSet hfans,
          fun i => by simp [hdone, afterFans, recordFans, recordLock], rfl, rfl⟩
      · rename_i hok
        have hdone : c.Completes ↔ c.touched = true := by
          refine ⟨fun h => h.2.2, fun h => ⟨hfans, c.fanLoop_error_eq_none_iff.1 hok, h⟩⟩
        refine ⟨rfl, mem_afterFans_fansSet hfans, mem_afterFans_locksSet hfans, fun i => ?_,
          rfl, rfl⟩
        rw [hdone]
        exact mem_list (s := s.afterFans c) i
  · rw [applyTuning_of_not_reachesLock hready hreach]
    exact Adds.refl (fun f h => hreach h.1.1) (fun h => hreach h.1) fun h => hreach h.1.1

/-! ## A sequence of calls -/

/-- Without NVML nothing is set. -/
theorem run_not_ready (hready : s.nvmlReady = false) (calls : List TuneCall) :
    s.run calls = s := by
  induction calls with
  | nil => rfl
  | cons c calls ih =>
    have hstep : (s.applyTuning c).1 = s := by
      unfold applyTuning
      rw [if_pos (by simp [hready])]
    change ((s.applyTuning c).1).run calls = s
    rw [hstep, ih]

/-- **What a sequence of calls leaves behind.** -/
structure Leaves (s t : DeviceManager) (calls : List TuneCall) : Prop where
  ready : t.nvmlReady = s.nvmlReady
  fans : ∀ i f, (i, f) ∈ t.fansSet ↔
    (i, f) ∈ s.fansSet ∨ ∃ c ∈ calls, i = c.index ∧ c.SetsFan f
  locks : ∀ i, i ∈ t.locksSet ↔ i ∈ s.locksSet ∨ ∃ c ∈ calls, i = c.index ∧ c.SetsLock
  tuned : ∀ i, i ∈ t.tuned ↔ i ∈ s.tuned ∨ ∃ c ∈ calls, i = c.index ∧ c.Completes
  fansRestored : t.fansRestored = s.fansRestored
  locksReset : t.locksReset = s.locksReset

theorem run_leaves (hready : s.nvmlReady = true) (calls : List TuneCall) :
    Leaves s (s.run calls) calls := by
  induction calls generalizing s with
  | nil => exact ⟨rfl, by simp [run], by simp [run], by simp [run], rfl, rfl⟩
  | cons c calls ih =>
    have hadds := applyTuning_adds hready c
    have hrest := ih (s := (s.applyTuning c).1) (hadds.ready.trans hready)
    change Leaves s ((s.applyTuning c).1.run calls) (c :: calls)
    refine ⟨hrest.ready.trans hadds.ready, fun i f => ?_, fun i => ?_, fun i => ?_,
      hrest.fansRestored.trans hadds.fansRestored, hrest.locksReset.trans hadds.locksReset⟩
    · rw [hrest.fans, hadds.fans, List.exists_mem_cons_iff, or_assoc]
    · rw [hrest.locks, hadds.locks, List.exists_mem_cons_iff, or_assoc]
    · rw [hrest.tuned, hadds.tuned, List.exists_mem_cons_iff, or_assoc]

/-- What `restore_all` gives back: fan 0 and the clocks of the devices on the list that answer. -/
theorem mem_fansRestored (hready : s.nvmlReady = true) (hnone : s.fansRestored = [])
    (answer : Int → RestoreAnswer) (i : Int) (f : Nat) :
    (i, f) ∈ (s.restoreAll answer).fansRestored ↔
      i ∈ s.tuned ∧ f = 0 ∧ (answer i).handle = true ∧ (answer i).fan = true := by
  unfold restoreAll
  rw [if_neg (by simp [hready]), hnone]
  simp only [List.nil_append, List.mem_map, List.mem_filter, Prod.mk.injEq]
  constructor
  · rintro ⟨_, ⟨⟨hi, hh⟩, hf⟩, rfl, rfl⟩
    exact ⟨hi, rfl, hh, hf⟩
  · rintro ⟨hi, rfl, hh, hf⟩
    exact ⟨i, ⟨⟨hi, hh⟩, hf⟩, rfl, rfl⟩

theorem mem_locksReset (hready : s.nvmlReady = true) (hnone : s.locksReset = [])
    (answer : Int → RestoreAnswer) (i : Int) :
    i ∈ (s.restoreAll answer).locksReset ↔
      i ∈ s.tuned ∧ (answer i).handle = true ∧ (answer i).clocks = true := by
  unfold restoreAll
  rw [if_neg (by simp [hready]), hnone]
  simp only [List.nil_append, List.mem_filter, and_assoc]

theorem restoreAll_sets (answer : Int → RestoreAnswer) :
    (s.restoreAll answer).fansSet = s.fansSet ∧ (s.restoreAll answer).locksSet = s.locksSet := by
  unfold restoreAll
  split <;> exact ⟨rfl, rfl⟩

end DeviceManager

/-! ## Results -/

open DeviceManager in
/-- **Every fan and every clock set is handed back exactly when the calls are returnable.** -/
theorem handed_back_iff (nvmlReady : Bool) (calls : List TuneCall)
    (answer : Int → RestoreAnswer) :
    HandedBack nvmlReady calls answer ↔ (nvmlReady = true → Returnable calls answer) := by
  unfold HandedBack
  dsimp only
  rw [(restoreAll_sets answer).1, (restoreAll_sets answer).2]
  cases hready : nvmlReady with
  | false =>
    rw [run_not_ready rfl]
    exact iff_of_true ⟨List.forall_mem_nil _, List.forall_mem_nil _⟩ fun h => by cases h
  | true =>
    have hleaves := run_leaves (s := { nvmlReady := true }) rfl calls
    have htuned : ∀ i, i ∈ (({ nvmlReady := true } : DeviceManager).run calls).tuned ↔
        ∃ c ∈ calls, c.index = i ∧ c.Completes := by
      intro i
      rw [hleaves.tuned]
      simp [eq_comm]
    have hfan : ∀ i f, (i, f) ∈ (({ nvmlReady := true } : DeviceManager).run calls).fansSet ↔
        ∃ c ∈ calls, i = c.index ∧ c.SetsFan f := by
      intro i f
      rw [hleaves.fans]
      simp
    have hlock : ∀ i, i ∈ (({ nvmlReady := true } : DeviceManager).run calls).locksSet ↔
        ∃ c ∈ calls, i = c.index ∧ c.SetsLock := by
      intro i
      rw [hleaves.locks]
      simp
    constructor
    · rintro ⟨hfans, hlocks⟩ -
      have hback : ∀ c ∈ calls, ∀ f, c.SetsFan f → _ := fun c hc f hset =>
        (mem_fansRestored hleaves.ready hleaves.fansRestored answer c.index f).1
          (hfans _ ((hfan _ _).2 ⟨c, hc, rfl, hset⟩))
      have hreset : ∀ c ∈ calls, c.SetsLock → _ := fun c hc hset =>
        (mem_locksReset hleaves.ready hleaves.locksReset answer c.index).1
          (hlocks _ ((hlock _).2 ⟨c, hc, rfl, hset⟩))
      refine ⟨?_, ?_, ?_, ?_, ?_⟩
      · exact fun c hc f hset => (hback c hc f hset).2.1
      · exact fun c hc f hset => (htuned _).1 (hback c hc f hset).1
      · exact fun c hc f hset => (hback c hc f hset).2.2
      · exact fun c hc hset => (htuned _).1 (hreset c hc hset).1
      · exact fun c hc hset => (hreset c hc hset).2
    · intro hret
      have hret := hret rfl
      constructor
      · rintro ⟨i, f⟩ hmem
        obtain ⟨c, hc, rfl, hset⟩ := (hfan i f).1 hmem
        rw [mem_fansRestored hleaves.ready hleaves.fansRestored]
        exact ⟨(htuned _).2 (hret.fanListed c hc f hset), hret.fanZero c hc f hset,
          hret.fanAnswer c hc f hset⟩
      · intro i hmem
        obtain ⟨c, hc, rfl, hset⟩ := (hlock i).1 hmem
        rw [mem_locksReset hleaves.ready hleaves.locksReset]
        exact ⟨(htuned _).2 (hret.lockListed c hc hset), hret.lockAnswer c hc hset⟩

/-- The clocks are locked, and then the fan refuses. -/
def lockThenFan : TuneCall where
  index := 0
  tuning := { lockCoreMhz := 1500, fanPct := 70 }
  fan := fun _ => some (text "Not Supported")

/-- **The lock is not handed back.** -/
theorem lock_kept : ¬ HandedBack true [lockThenFan] fun _ => {} := by
  rintro ⟨-, hlocks⟩
  have := hlocks 0 (by decide +kernel)
  revert this
  decide +kernel

/-- A card with two fans keeps the speed of the second. -/
example : ¬ HandedBack true [{ index := 0, tuning := { fanPct := 70 }, numFans := some 2 }]
    fun _ => {} := by
  rintro ⟨hfans, -⟩
  have := hfans (0, 1) (by decide +kernel)
  revert this
  decide +kernel

end Host
