import SuprMeow.Library.Fallible
import SuprMeow.Library.Runs
import SuprMeow.Poi.Coordinator

/-!
# Switching the parameters between sequences

One hasher and one proof writer serve all sequences of a coordinator: `apply_pow_params` writes a
parameter map into them, sub-step by sub-step, and any sub-step may throw on its string.  The
coordinator keeps the map it applied last and the sequence that is active; the patched
`activate_sequence_params` skips a map that is the one applied last.

* `skips_exactly_iff` — the skip shows in no call of a run exactly when none of them skips a map
  that threw;
* `sees_own` — a run in which every call sees the parameters of its own sequence.
-/

set_option autoImplicit false

namespace Poi

/-- The parameter maps, and what the hasher and the proof writer hold. -/
structure Switch (P H : Type) where
  params : Nat → Option P := fun _ => none
  active : Option Nat := none
  /-- `current_pow_params`. -/
  current : Option P := none
  held : H

/-- How `activate_sequence_params` leaves: true, false, an exception. -/
inductive Activation where
  | active
  | missing
  | throws
  deriving DecidableEq

/-- The calls on a coordinator that touch its parameters. -/
inductive ParamCall (P : Type) where
  | updatePowParams (p : P)
  | updatePowParamsForSequence (seq : Nat) (p : P)
  | cleanupSequence (seq : Nat)
  | sample (seq : Nat)
  /-- `cooling`: the cooldown is on. -/
  | check (seq : Nat) (cooling : Bool)
  deriving DecidableEq

section Defs

variable {P H : Type} [DecidableEq P] (updates : P → List (Option (H → H)))

/-- No sub-step throws on the map. -/
def Reads (p : P) : Prop := (updates p).all Option.isSome = true

/-- Writing a map again changes nothing. -/
def Settles : Prop :=
  ∀ p h, (Fallible.assign (updates p) (Fallible.assign (updates p) h).1).1 =
    (Fallible.assign (updates p) h).1

instance (p : P) : Decidable (Reads updates p) := inferInstanceAs (Decidable (_ = true))

namespace Switch

/-- `apply_pow_params`, and whether it returned. -/
def applyPowParams (s : Switch P H) (p : P) : Switch P H × Bool :=
  ({ s with current := some p, held := (Fallible.assign (updates p) s.held).1 },
    (Fallible.assign (updates p) s.held).2)

/-- `update_pow_params`; no sequence is active after it, unless it throws. -/
def updatePowParams (s : Switch P H) (p : P) : Switch P H × Bool :=
  let r := s.applyPowParams updates p
  if r.2 then ({ r.1 with active := none }, true) else r

/-- `update_pow_params_for_sequence`. -/
def updatePowParamsForSequence (s : Switch P H) (seq : Nat) (p : P) : Switch P H × Bool :=
  if s.params seq = some p then (s, true)
  else
    let s₁ := { s with params := Function.update s.params seq (some p) }
    if s.active = some seq then s₁.applyPowParams updates p else (s₁, true)

/-- `cleanup_sequence`. -/
def cleanupSequence (s : Switch P H) (seq : Nat) : Switch P H :=
  { s with
    params := Function.update s.params seq none
    active := if s.active = some seq then none else s.active }

/-- `activate_sequence_params`, with or without the patch. -/
def activateSequenceParams (patched : Bool) (s : Switch P H) (seq : Nat) :
    Switch P H × Activation :=
  if s.active = some seq then (s, .active)
  else
    match s.params seq with
    | none => (s, .missing)
    | some p =>
      -- identical params already active
      if patched ∧ s.current = some p then ({ s with active := some seq }, .active)
      else
        let r := s.applyPowParams updates p
        if r.2 then ({ r.1 with active := some seq }, .active) else (r.1, .throws)

/-- What a call that activates a sequence goes on with. -/
def use (patched : Bool) (s : Switch P H) (seq : Nat) : Switch P H × Option H :=
  let r := s.activateSequenceParams updates patched seq
  (r.1, if r.2 = .active then some r.1.held else none)

/-- One call: the coordinator after it, and the hasher and the proof writer as it saw them. -/
def call (patched : Bool) (s : Switch P H) : ParamCall P → Switch P H × Option H
  | .updatePowParams p => ((s.updatePowParams updates p).1, none)
  | .updatePowParamsForSequence seq p => ((s.updatePowParamsForSequence updates seq p).1, none)
  | .cleanupSequence seq => (s.cleanupSequence seq, none)
  | .sample seq => s.use updates patched seq
  | .check seq cooling => if cooling then (s, none) else s.use updates patched seq

end Switch

/-- The sequence a call activates. -/
def ParamCall.uses : ParamCall P → Option Nat
  | .sample seq => some seq
  | .check seq cooling => if cooling then none else some seq
  | _ => none

/-- The same calls on a patched and on an unpatched coordinator. -/
def bothMachine (init : Switch P H) : Runs.Machine (Switch P H × Switch P H) (ParamCall P) where
  init := (init, init)
  step s c := some ((s.1.call updates true c).1, (s.2.call updates false c).1)

/-! ## The property and the condition -/

/-- The call sees the same on both coordinators. -/
def SeesSame (s : Switch P H × Switch P H) (c : ParamCall P) : Prop :=
  (s.1.call updates true c).2 = (s.2.call updates false c).2

/-- What the call sees is what the map of its own sequence sets: to set it again changes nothing. -/
def SeesOwn (s : Switch P H) (c : ParamCall P) : Prop :=
  ∀ seq h, c.uses = some seq → (s.call updates true c).2 = some h →
    ∃ p, s.params seq = some p ∧ Fallible.assign (updates p) h = (h, true)

/-- The map applied last threw, and the call would skip it. -/
def Switch.SkipsTorn (s : Switch P H) (c : ParamCall P) : Prop :=
  ∃ seq p, c.uses = some seq ∧ s.active ≠ some seq ∧ s.params seq = some p ∧
    s.current = some p ∧ ¬ Reads updates p

/-- The map applied last threw, and the call is on the sequence that is active or whose map it
is. -/
def Switch.UsesTorn (s : Switch P H) (c : ParamCall P) : Prop :=
  ∃ seq p, c.uses = some seq ∧ s.current = some p ∧ ¬ Reads updates p ∧
    (s.active = some seq ∨ s.params seq = some p)

instance (s : Switch P H) (c : ParamCall P) : Decidable (s.UsesTorn updates c) :=
  decidable_of_iff (∃ seq ∈ c.uses, ∃ p ∈ s.current,
      ¬ Reads updates p ∧ (s.active = some seq ∨ s.params seq = some p)) <| by
    unfold Switch.UsesTorn
    simp only [Option.mem_def, ← exists_and_left]

end Defs

/-! ## What is kept -/

section Steps

variable {P H : Type} {updates : P → List (Option (H → H))}

theorem Switch.applied_snd (s : Switch P H) (p : P) :
    (s.applyPowParams updates p).2 = true ↔ Reads updates p := by
  unfold Switch.applyPowParams Reads
  rw [Fallible.assign_snd]

/-- The map applied last is in place, unless it threw; the active sequence has parameters, and they
are that map, unless it threw. -/
structure Switch.Coherent (updates : P → List (Option (H → H))) (s : Switch P H) : Prop where
  held : ∀ p, s.current = some p → Reads updates p →
    Fallible.assign (updates p) s.held = (s.held, true)
  active : ∀ seq, s.active = some seq → ∃ p, s.params seq = some p ∧
    ∀ cur, s.current = some cur → Reads updates cur → cur = p
  applied : s.active ≠ none → s.current ≠ none

namespace Switch.Coherent

variable {s : Switch P H}

/-- **`apply_pow_params`**: writing a map twice is writing it once. -/
theorem apply (hidem : Settles updates) {p : P} {active : Option Nat}
    (hactive : ∀ seq, active = some seq → ∃ q, s.params seq = some q ∧ (Reads updates p → p = q)) :
    Coherent updates { (s.applyPowParams updates p).1 with active } := by
  constructor
  · rintro q ⟨⟩ hread
    apply Prod.ext
    · exact hidem p s.held
    · rw [Fallible.assign_snd]
      exact hread
  · intro seq hseq
    obtain ⟨q, hq, heq⟩ := hactive seq hseq
    refine ⟨q, hq, ?_⟩
    rintro cur ⟨⟩ hread
    exact heq hread
  · intro _
    exact Option.some_ne_none p

theorem updatePowParams (hidem : Settles updates) (h : Coherent updates s) (p : P) :
    Coherent updates (s.updatePowParams updates p).1 := by
  unfold Switch.updatePowParams
  dsimp only
  split
  · exact apply hidem fun seq hseq => nomatch hseq
  · rename_i hthrows
    apply apply hidem
    intro seq hseq
    obtain ⟨q, hq, -⟩ := h.active seq hseq
    exact ⟨q, hq, fun hread => absurd ((applied_snd s p).2 hread) hthrows⟩

theorem updatePowParamsForSequence [DecidableEq P] (hidem : Settles updates)
    (h : Coherent updates s) (seq : Nat) (p : P) :
    Coherent updates (s.updatePowParamsForSequence updates seq p).1 := by
  unfold Switch.updatePowParamsForSequence
  dsimp only
  split
  · exact h
  · split
    · rename_i hactive
      apply apply (s := { s with params := Function.update s.params seq (some p) }) hidem
      intro t ht
      obtain rfl : seq = t := Option.some.inj (hactive.symm.trans ht)
      exact ⟨p, Function.update_self seq (some p) s.params, fun _ => rfl⟩
    · rename_i hother
      refine ⟨h.held, ?_, h.applied⟩
      intro t ht
      obtain ⟨q, hq, heq⟩ := h.active t ht
      have hne : t ≠ seq := by
        rintro rfl
        exact hother ht
      exact ⟨q, (Function.update_of_ne hne _ _).trans hq, heq⟩

theorem cleanupSequence (h : Coherent updates s) (seq : Nat) :
    Coherent updates (s.cleanupSequence seq) := by
  refine ⟨h.held, ?_, ?_⟩
  · intro t ht
    change (if s.active = some seq then none else s.active) = some t at ht
    split at ht
    · cases ht
    · rename_i hother
      obtain ⟨q, hq, heq⟩ := h.active t ht
      have hne : t ≠ seq := by
        rintro rfl
        exact hother ht
      exact ⟨q, (Function.update_of_ne hne _ _).trans hq, heq⟩
  · intro hne
    apply h.applied
    rintro hnone
    apply hne
    change (if s.active = some seq then none else s.active) = none
    rw [hnone, if_neg nofun]

theorem activate [DecidableEq P] (hidem : Settles updates) (h : Coherent updates s)
    (patched : Bool) (seq : Nat) :
    Coherent updates (s.activateSequenceParams updates patched seq).1 := by
  unfold activateSequenceParams
  split
  · exact h
  · cases hp : s.params seq with
    | none => exact h
    | some p =>
      dsimp only
      split
      · rename_i hskip
        refine ⟨h.held, ?_, ?_⟩
        · rintro t ⟨⟩
          refine ⟨p, hp, ?_⟩
          intro cur hcur _
          exact Option.some.inj (hcur.symm.trans hskip.2)
        · intro _
          rw [hskip.2]
          exact Option.some_ne_none p
      · split
        · apply apply hidem
          rintro t ⟨⟩
          exact ⟨p, hp, fun _ => rfl⟩
        · rename_i hthrows
          apply apply hidem
          intro t ht
          obtain ⟨q, hq, -⟩ := h.active t ht
          exact ⟨q, hq, fun hread => absurd ((applied_snd s p).2 hread) hthrows⟩

/-- **Every call keeps the switch coherent.** -/
theorem call [DecidableEq P] (hidem : Settles updates) (h : Coherent updates s) (patched : Bool)
    (c : ParamCall P) : Coherent updates (s.call updates patched c).1 := by
  cases c with
  | updatePowParams p => exact h.updatePowParams hidem p
  | updatePowParamsForSequence seq p => exact h.updatePowParamsForSequence hidem seq p
  | cleanupSequence seq => exact h.cleanupSequence seq
  | sample seq => exact h.activate hidem patched seq
  | check seq cooling =>
    cases cooling
    · exact h.activate hidem patched seq
    · exact h

end Switch.Coherent

/-! ## One call on both -/

section Both

theorem Switch.skipsTorn_uses {s : Switch P H} {c : ParamCall P} (h : s.SkipsTorn updates c) :
    s.UsesTorn updates c := by
  obtain ⟨seq, p, hc, -, hp, hcur, hread⟩ := h
  exact ⟨seq, p, hc, hcur, hread, .inr hp⟩

/-- Applied again, the map applied last changes nothing. -/
theorem Switch.Coherent.apply_again {s : Switch P H} (h : s.Coherent updates) {p : P}
    (hcur : s.current = some p) (hread : Reads updates p) :
    s.applyPowParams updates p = (s, true) := by
  have hheld := h.held p hcur hread
  unfold Switch.applyPowParams
  rw [hheld]
  apply congrArg (·, true)
  rw [← hcur]

variable [DecidableEq P] {s : Switch P H} {seq : Nat}

theorem Switch.use_active (patched : Bool) (h : s.active = some seq) :
    s.use updates patched seq = (s, some s.held) := by
  unfold use activateSequenceParams
  rw [if_pos h]
  rfl

theorem Switch.use_missing (patched : Bool) (h : s.active ≠ some seq) (hp : s.params seq = none) :
    s.use updates patched seq = (s, none) := by
  unfold use activateSequenceParams
  rw [if_neg h, hp]
  rfl

theorem Switch.use_skip {p : P} (h : s.active ≠ some seq) (hp : s.params seq = some p)
    (hcur : s.current = some p) :
    s.use updates true seq = ({ s with active := some seq }, some s.held) := by
  unfold use activateSequenceParams
  rw [if_neg h, hp]
  dsimp only
  rw [if_pos (And.intro rfl hcur)]
  rfl

/-- The map is applied, when it reads. -/
theorem Switch.use_apply {patched : Bool} {p : P} (h : s.active ≠ some seq)
    (hp : s.params seq = some p) (hskip : patched = true → s.current ≠ some p) :
    s.use updates patched seq =
      if Reads updates p then
        ({ (s.applyPowParams updates p).1 with active := some seq },
          some (s.applyPowParams updates p).1.held)
      else ((s.applyPowParams updates p).1, none) := by
  unfold use activateSequenceParams
  rw [if_neg h, hp]
  dsimp only
  rw [if_neg (fun hc : patched = true ∧ s.current = some p => hskip hc.1 hc.2)]
  by_cases hread : Reads updates p
  · rw [if_pos ((s.applied_snd p).2 hread), if_pos hread]
    rfl
  · rw [if_neg (fun hc => hread ((s.applied_snd p).1 hc)), if_neg hread]
    rfl

/-- Without the patch, whatever was applied last. -/
theorem Switch.use_plain {p : P} (h : s.active ≠ some seq) (hp : s.params seq = some p) :
    s.use updates false seq =
      if Reads updates p then
        ({ (s.applyPowParams updates p).1 with active := some seq },
          some (s.applyPowParams updates p).1.held)
      else ((s.applyPowParams updates p).1, none) :=
  use_apply h hp fun hpatched => absurd hpatched Bool.false_ne_true

/-- **Without a map that throws the skip does not show.** -/
theorem Switch.Coherent.use_same (h : s.Coherent updates)
    (hskip : ∀ p, s.active ≠ some seq → s.params seq = some p → s.current = some p →
      Reads updates p) : s.use updates true seq = s.use updates false seq := by
  by_cases hactive : s.active = some seq
  · rw [use_active true hactive, use_active false hactive]
  · cases hp : s.params seq with
    | none => rw [use_missing true hactive hp, use_missing false hactive hp]
    | some p =>
      by_cases hcur : s.current = some p
      · have hread := hskip p hactive hp hcur
        rw [use_skip hactive hp hcur, use_plain hactive hp, if_pos hread,
          h.apply_again hcur hread]
      · rw [use_apply hactive hp fun _ => hcur, use_plain hactive hp]

/-- **With one it does**: the unpatched coordinator throws again. -/
theorem Switch.use_torn {p : P} (hactive : s.active ≠ some seq) (hp : s.params seq = some p)
    (hcur : s.current = some p) (hread : ¬ Reads updates p) :
    (s.use updates true seq).2 = some s.held ∧ (s.use updates false seq).2 = none := by
  constructor
  · rw [use_skip hactive hp hcur]
  · rw [use_plain hactive hp, if_neg hread]

theorem Switch.Coherent.use_own (h : s.Coherent updates) (hidem : Settles updates)
    (htorn : ∀ p, s.current = some p → s.active = some seq ∨ s.params seq = some p →
      Reads updates p) {held : H} (hsees : (s.use updates true seq).2 = some held) :
    ∃ p, s.params seq = some p ∧ Fallible.assign (updates p) held = (held, true) := by
  by_cases hactive : s.active = some seq
  · rw [use_active true hactive] at hsees
    obtain rfl : s.held = held := Option.some.inj hsees
    obtain ⟨cur, hcur⟩ := Option.ne_none_iff_exists'.1
      (h.applied (by rw [hactive]; exact Option.some_ne_none seq))
    have hread := htorn cur hcur (.inl hactive)
    obtain ⟨p, hp, heq⟩ := h.active seq hactive
    obtain rfl := heq cur hcur hread
    exact ⟨cur, hp, h.held cur hcur hread⟩
  · cases hp : s.params seq with
    | none =>
      rw [use_missing true hactive hp] at hsees
      cases hsees
    | some p =>
      refine ⟨p, rfl, ?_⟩
      by_cases hcur : s.current = some p
      · rw [use_skip hactive hp hcur] at hsees
        obtain rfl : s.held = held := Option.some.inj hsees
        exact h.held p hcur (htorn p hcur (.inr hp))
      · rw [use_apply hactive hp fun _ => hcur] at hsees
        by_cases hread : Reads updates p
        · rw [if_pos hread] at hsees
          obtain rfl : (Fallible.assign (updates p) s.held).1 = held := Option.some.inj hsees
          apply Prod.ext
          · exact hidem p s.held
          · rw [Fallible.assign_snd]
            exact hread
        · rw [if_neg hread] at hsees
          cases hsees

/-- A call that activates no sequence is the same on both and sees nothing. -/
theorem Switch.call_none (patched : Bool) {c : ParamCall P} (hc : c.uses = none) :
    s.call updates patched c = s.call updates false c ∧ (s.call updates patched c).2 = none := by
  cases c with
  | sample seq => cases hc
  | check seq cooling =>
    cases cooling
    · cases hc
    · exact ⟨rfl, rfl⟩
  | _ => exact ⟨rfl, rfl⟩

theorem Switch.call_uses (patched : Bool) {c : ParamCall P} (hc : c.uses = some seq) :
    s.call updates patched c = s.use updates patched seq := by
  cases c with
  | sample t =>
    cases hc
    rfl
  | check t cooling =>
    cases cooling
    · cases hc
      rfl
    · cases hc
  | _ => cases hc

/-- **One call, from one state, sees the same on both coordinators exactly when it does not skip a
map that threw.** -/
theorem Switch.Coherent.call_same_iff (h : s.Coherent updates) (c : ParamCall P) :
    SeesSame updates (s, s) c ↔ ¬ s.SkipsTorn updates c := by
  constructor
  · rintro hsame ⟨seq, p, hc, hactive, hp, hcur, hread⟩
    obtain ⟨hpatched, hplain⟩ := use_torn hactive hp hcur hread
    unfold SeesSame at hsame
    rw [call_uses true hc, call_uses false hc, hpatched, hplain] at hsame
    cases hsame
  · intro hskip
    unfold SeesSame
    cases hc : c.uses with
    | none => rw [(call_none true hc).1]
    | some seq =>
      rw [call_uses true hc, call_uses false hc, h.use_same]
      intro p hactive hp hcur
      by_contra hread
      exact hskip ⟨seq, p, hc, hactive, hp, hcur, hread⟩

/-- It then leaves both in one state. -/
theorem Switch.Coherent.call_eq (h : s.Coherent updates) {c : ParamCall P}
    (hskip : ¬ s.SkipsTorn updates c) :
    s.call updates true c = s.call updates false c := by
  cases hc : c.uses with
  | none => exact (call_none true hc).1
  | some seq =>
    rw [call_uses true hc, call_uses false hc]
    apply h.use_same
    intro p hactive hp hcur
    by_contra hread
    exact hskip ⟨seq, p, hc, hactive, hp, hcur, hread⟩

theorem Switch.Coherent.call_own (h : s.Coherent updates) (hidem : Settles updates)
    {c : ParamCall P} (htorn : ¬ s.UsesTorn updates c) : SeesOwn updates s c := by
  intro seq held hc hsees
  rw [call_uses true hc] at hsees
  apply h.use_own hidem _ hsees
  intro p hcur hor
  by_contra hread
  exact htorn ⟨seq, p, hc, hcur, hread, hor⟩

end Both

/-! ## Runs -/

section Runs

variable [DecidableEq P]

/-- Both coordinators stand at one coherent state. -/
def Agree (updates : P → List (Option (H → H))) (s : Switch P H × Switch P H) : Prop :=
  s.1 = s.2 ∧ s.1.Coherent updates

theorem Agree.step (hidem : Settles updates) {init : Switch P H} {s t : Switch P H × Switch P H}
    {c : ParamCall P} (h : Agree updates s) (hskip : ¬ s.1.SkipsTorn updates c)
    (ht : (bothMachine updates init).step s c = some t) : Agree updates t := by
  obtain ⟨heq, hcoherent⟩ := h
  cases ht
  refine ⟨?_, hcoherent.call hidem true c⟩
  dsimp only
  rw [← heq, hcoherent.call_eq hskip]

theorem Agree.call_same_iff {s : Switch P H × Switch P H} (h : Agree updates s) (c : ParamCall P) :
    SeesSame updates s c ↔ ¬ s.1.SkipsTorn updates c := by
  have hs : s = (s.1, s.1) := Prod.ext rfl h.1.symm
  rw [hs]
  exact h.2.call_same_iff c

/-- **The skip shows in no call of a run exactly when no call skips a map that threw.** -/
theorem skips_exactly_iff (hidem : Settles updates) {init : Switch P H}
    (hinit : init.Coherent updates) (cs : List (ParamCall P)) :
    (bothMachine updates init).Guarded (SeesSame updates) (init, init) cs ↔
      (bothMachine updates init).Guarded (fun s c => ¬ s.1.SkipsTorn updates c) (init, init)
        cs := by
  apply Runs.Machine.guarded_congr_of_kept (I := Agree updates)
  · intro s c t hs hsame ht
    exact hs.step hidem ((hs.call_same_iff c).1 hsame) ht
  · intro s c hs
    exact hs.call_same_iff c
  · exact ⟨rfl, hinit⟩

/-- **A run without a call on a map that threw** sees the same on both coordinators, and each call
sees the map of its own sequence. -/
theorem sees_own (hidem : Settles updates) {init : Switch P H} (hinit : init.Coherent updates)
    {cs : List (ParamCall P)}
    (hcs : (bothMachine updates init).Guarded (fun s c => ¬ s.1.UsesTorn updates c)
      (init, init) cs) :
    (bothMachine updates init).Guarded (fun s c => SeesSame updates s c ∧ SeesOwn updates s.1 c)
      (init, init) cs := by
  have hboth : (bothMachine updates init).Guarded
      (fun s c => ¬ s.1.UsesTorn updates c ∧ SeesSame updates s c ∧ SeesOwn updates s.1 c)
      (init, init) cs := by
    apply (Runs.Machine.guarded_congr_of_kept (I := Agree updates) _ _ _ ⟨rfl, hinit⟩).1 hcs
    · intro s c t hs htorn ht
      exact hs.step hidem (fun hskip => htorn (Switch.skipsTorn_uses hskip)) ht
    · intro s c hs
      constructor
      · intro htorn
        have hskip : ¬ s.1.SkipsTorn updates c := fun hskip => htorn (Switch.skipsTorn_uses hskip)
        exact ⟨htorn, (hs.call_same_iff c).2 hskip, hs.2.call_own hidem htorn⟩
      · exact And.left
  exact Runs.Machine.Guarded.mono _ (fun _ _ => And.right) hboth

end Runs

end Steps

end Poi
