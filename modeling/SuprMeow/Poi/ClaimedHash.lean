import SuprMeow.Poi.HeaderHash
import SuprMeow.Poi.ParamSwitch

/-!
# Shares and the targets of their job

A miner with its hasher: `set_job` with its strings read, and `on_logits` whose windows are judged
by what the hasher holds.  Which digest a window comes to is up to the call.

* `switch_begin`, `switch_register`, … — the coordinator moves its parameters as `ParamSwitch` says;
* `Fitted` — the hasher holds the targets of the active sequence;
* `shares_meet_targets` — every share meets a target of the job it was mined under, unless a
  rejected job has left its target behind;
* `share_of_other_target` — one that has.
-/

set_option autoImplicit false

open Stratum (Bytes text)

namespace Poi

/-! ## The hasher of the coordinator -/

section Coordinator

variable {P H : Type}

/-- The parameters of a coordinator and what its hasher holds. -/
def Coordinator.switch (c : Coordinator P) (held : H) : Switch P H where
  params := c.params
  active := c.active
  current := c.current
  held

variable {c : Coordinator P} {h : H} {seq : Nat}

theorem Coordinator.switch_cleanup : (c.cleanupSequence seq).switch h =
    (c.switch h).cleanupSequence seq := by
  unfold cleanupSequence
  dsimp only
  split
  · unfold freeRow
    dsimp only
    split <;> rfl
  · rfl

theorem Coordinator.switch_allocate {c' : Coordinator P} {row : Nat}
    (ha : c.allocateRow seq = some (c', row)) : c'.switch h = c.switch h := by
  unfold allocateRow at ha
  split at ha
  · cases ha
    rfl
  · split at ha
    · cases ha
    · cases ha
      rfl

/-- A full table evicts a sequence. -/
theorem Coordinator.switch_ensure (c : Coordinator P) (h : H) (seq : Nat) :
    (c.ensureSequence seq).switch h = c.switch h ∨
      ∃ old, (c.ensureSequence seq).switch h = (c.switch h).cleanupSequence old := by
  unfold ensureSequence
  split
  · exact .inl rfl
  · split
    · rename_i ha
      have hc := switch_allocate (h := h) ha
      exact .inl hc
    · split
      · exact .inl rfl
      · rename_i old _
        split
        · rename_i ha
          have hc := switch_allocate (h := h) ha
          exact .inr ⟨old, hc.trans switch_cleanup⟩
        · exact .inr ⟨old, switch_cleanup⟩

theorem Coordinator.switch_record (token : Int) :
    (c.recordCompleteStep seq token).switch h = c.switch h := by
  unfold recordCompleteStep
  split <;> rfl

/-- A sample that is drawn leaves its sequence active. -/
theorem Coordinator.active_begin {step : Nat} (hs : (c.beginSample seq).2 = some step) :
    (c.beginSample seq).1.active = some seq := by
  unfold beginSample at hs ⊢
  split at hs
  · cases hs
  · rename_i ha
    have hactive := congrArg Coordinator.active (activate_cases ha)
    split at hs
    · cases hs
    · dsimp only
      split
      · exact hactive
      · exact hactive

/-- A check on the active sequence switches nothing. -/
theorem Coordinator.switch_check (hactive : c.active = some seq) (cooling : Bool) :
    (c.checkSolutions seq cooling).1.switch h = c.switch h := by
  have ha : c.activateSequenceParams seq = some c := if_pos hactive
  unfold checkSolutions
  split
  · rfl
  · rw [ha]
    dsimp only
    split
    · split <;> rfl
    · rfl

section

variable [DecidableEq P] {updates : P → List (Option (H → H))}

theorem Coordinator.switch_register (c : Coordinator P) (h : H) (seq : Nat) (p : P) :
    (c.updatePowParamsForSequence seq p).switch
        ((c.switch h).updatePowParamsForSequence updates seq p).1.held =
      ((c.switch h).updatePowParamsForSequence updates seq p).1 := by
  unfold updatePowParamsForSequence Switch.updatePowParamsForSequence
  by_cases hsame : c.params seq = some p
  · rw [if_pos hsame, if_pos (show (c.switch h).params seq = some p from hsame)]
    rfl
  · rw [if_neg hsame, if_neg (show ¬ (c.switch h).params seq = some p from hsame)]
    dsimp only
    by_cases hactive : c.active = some seq
    · rw [if_pos hactive, if_pos (show (c.switch h).active = some seq from hactive)]
      rfl
    · rw [if_neg hactive, if_neg (show ¬ (c.switch h).active = some seq from hactive)]
      rfl

/-- Activating a sequence whose parameters read. -/
theorem Coordinator.switch_activate {c' : Coordinator P}
    (hread : ∀ p, c.params seq = some p → Reads updates p)
    (ha : c.activateSequenceParams seq = some c') :
    c'.switch ((c.switch h).use updates true seq).1.held = ((c.switch h).use updates true seq).1 ∧
      c'.active = some seq := by
  unfold activateSequenceParams at ha
  by_cases hactive : c.active = some seq
  · rw [if_pos hactive] at ha
    cases ha
    rw [Switch.use_active true (show (c.switch h).active = some seq from hactive)]
    exact ⟨rfl, hactive⟩
  · rw [if_neg hactive] at ha
    obtain ⟨p, hp, rfl⟩ := Option.map_eq_some_iff.1 ha
    refine ⟨?_, rfl⟩
    by_cases hcur : c.current = some p
    · rw [Switch.use_skip (s := c.switch h) hactive hp hcur]
      unfold applyPowParams switch
      rw [← hcur]
    · rw [Switch.use_apply (s := c.switch h) hactive hp fun _ => hcur, if_pos (hread p hp)]
      rfl

theorem Coordinator.activate_none (ha : c.activateSequenceParams seq = none) :
    ((c.switch h).use updates true seq).1 = c.switch h := by
  unfold activateSequenceParams at ha
  by_cases hactive : c.active = some seq
  · rw [if_pos hactive] at ha
    cases ha
  · rw [if_neg hactive] at ha
    have hp := Option.map_eq_none_iff.1 ha
    rw [Switch.use_missing (s := c.switch h) true hactive hp]

/-- **A sample switches to the parameters of its sequence.** -/
theorem Coordinator.switch_begin (hread : ∀ p, c.params seq = some p → Reads updates p) :
    (c.beginSample seq).1.switch ((c.switch h).use updates true seq).1.held =
      ((c.switch h).use updates true seq).1 := by
  unfold beginSample
  split
  · rename_i ha
    have hkept : ((c.switch h).use updates true seq).1 = c.switch h := activate_none ha
    rw [hkept]
    rfl
  · rename_i ha
    have hc := (switch_activate (h := h) hread ha).1
    split
    · exact hc
    · dsimp only
      split
      · exact hc
      · exact hc

end

end Coordinator

/-! ## A miner and its hasher -/

/-- What an `on_logits` meets: the token drawn, whether the cooldown is on, the digest its window
comes to, whether its credit is low, whether writing the proof throws, and whether a message has
arrived. -/
structure LogitsOutcome where
  draw : Option Int
  cooling : Bool := false
  digest : Digest
  lowCredit : Bool := false
  throws : Bool := false
  recv : Bool := false

/-- A record: a proof, the parameters of its sequence when it was written, and its digest. -/
structure Minted where
  proof : Proof
  params : PowParams
  digest : Digest

structure Hashing where
  miner : Miner
  hasher : PowHasher := {}
  minted : List Minted := []

inductive HashingEvent where
  | setJob (p : PoiJobParams) (o : MapOrder)
  | onLogits (seq nVocab : Nat) (context : List Int) (o : LogitsOutcome)

namespace Miner

/-- The hasher after the window start. -/
def hasherEnter (m : Miner) (h : PowHasher) (seq : Nat) (context : List Int) : PowHasher :=
  if m.startsWindow seq context then
    (((m.coord.ensureSequence seq).switch h).updatePowParamsForSequence PowHasher.updates seq
      m.params).1.held
  else h

/-- The hasher that samples, and that judges the window. -/
def hasherSample (m : Miner) (h : PowHasher) (seq : Nat) (context : List Int) : PowHasher :=
  (((m.enter seq context).coord.switch (m.hasherEnter h seq context)).use PowHasher.updates true
    seq).1.held

end Miner

section Machine

variable (sha : Bytes → Digest)

/-- `check_solutions` on a window that comes to a digest: a window that meets one of the targets is
written with the header prefix of its map. -/
def PowHasher.judge (h : PowHasher) (p : PowParams) (o : LogitsOutcome) : CheckOutcome :=
  if (h.checkSolution sha [o.digest.bytes]).headD false ∨
      (h.checkShareSolution sha [o.digest.bytes]).headD false then
    if o.throws then .throws
    else
      match PowUtils.hexToBytes p.headerPrefix with
      | none => .throws
      | some headerPrefix =>
        .emit (achievedHex sha (some headerPrefix) (some o.digest.bytes)) o.lowCredit
  else .quiet

namespace Hashing

/-- `on_logits`, when there is a job. -/
def onLogits (s : Hashing) (seq nVocab : Nat) (context : List Int) (o : LogitsOutcome) : Hashing :=
  if s.miner.ready = false then s
  else
    let hasher := s.miner.hasherSample s.hasher seq context
    let params := ((s.miner.enter seq context).coord.params seq).getD {}
    let m := (s.miner.onLogits seq nVocab context
      { draw := o.draw, cooling := o.cooling, check := hasher.judge sha params o,
        recv := o.recv }).1
    { miner := m
      hasher
      minted := s.minted ++ (m.hist.emitted.drop s.miner.hist.emitted.length).map
        fun proof => { proof, params, digest := o.digest } }

end Hashing

variable (proveSlow : Bytes → Nat → Bytes)

/-- One miner; a `set_job` that throws ends the run. -/
def hashingMachine (nStreams : Nat) : Runs.Machine Hashing HashingEvent where
  init := { miner := { nStreams } }
  step s
    | .setJob p o => (s.miner.setJobHex proveSlow s.hasher p o).map fun r =>
        { s with miner := r.1, hasher := r.2.1 }
    | .onLogits seq nVocab context o => some (s.onLogits sha seq nVocab context o)

end Machine

/-- The number of a target, as the sampler reads it. -/
def targetNumber (s : Bytes) : Nat := beNumber ((readTarget s).getD [])

/-- A number is no more than one of the targets of a job. -/
def PowParams.MetBy (p : PowParams) (n : Nat) : Prop :=
  n ≤ targetNumber p.target ∨ p.shareTarget ≠ [] ∧ n ≤ targetNumber p.shareTarget

/-- Every share meets a target of the parameters its proof was written with. -/
def Hashing.SharesMeet (s : Hashing) : Prop :=
  ∀ share ∈ s.miner.hist.enqueued, ∃ e ∈ s.minted, e.proof = share.proof ∧
    share.proof.reqId = e.params.requestId ∧ e.params.MetBy (hexNumber share.achievedHex)

/-- The parameters of the job are refused after its target was set, while a sequence is active. -/
def Miner.LeavesTarget (proveSlow : Bytes → Nat → Bytes) (m : Miner) (p : PoiJobParams) : Prop :=
  p.valid = true ∧ p.headerPrefix.length = 152 ∧ Readable p.parent ∧ ¬ m.Unproved proveSlow p ∧
    ¬ ParamsReadable proveSlow m p ∧ m.coord.active ≠ none ∧
    Readable (m.vdfFor proveSlow p).1 ∧ (m.vdfFor proveSlow p).2 < 2 ^ 31 ∧
    p.requestId < 2 ^ 31 ∧ Readable (padTarget p.blockTarget)

/-- The jobs that do not. -/
def KeepsTargets (proveSlow : Bytes → Nat → Bytes) (s : Hashing) : HashingEvent → Prop
  | .setJob p _ => ¬ s.miner.LeavesTarget proveSlow p
  | .onLogits .. => True

instance (proveSlow : Bytes → Nat → Bytes) (m : Miner) (p : PoiJobParams) :
    Decidable (m.LeavesTarget proveSlow p) := inferInstanceAs (Decidable (_ ∧ _))

instance (proveSlow : Bytes → Nat → Bytes) : ∀ s e, Decidable (KeepsTargets proveSlow s e)
  | s, .setJob p _ => inferInstanceAs (Decidable (¬ s.miner.LeavesTarget proveSlow p))
  | _, .onLogits .. => isTrue trivial

/-! ## What the hasher holds -/

namespace PowHasher

/-- The targets and the header prefix of the map are in place. -/
structure Holds (h : PowHasher) (p : PowParams) : Prop extends h.HoldsTargets p where
  headerPrefix : PowUtils.hexToBytes p.headerPrefix = some h.headerPrefix

/-- Nothing of what a window is judged by has changed. -/
structure Alike (h h' : PowHasher) : Prop where
  target : h'.target = h.target
  shareTarget : h'.shareTarget = h.shareTarget
  headerPrefix : h'.headerPrefix = h.headerPrefix

theorem Holds.alike {h h' : PowHasher} {p : PowParams} (hh : h.Holds p) (ha : h.Alike h') :
    h'.Holds p := by
  refine ⟨⟨?_, ?_⟩, ?_⟩
  · rw [ha.target]
    exact hh.target
  · rw [ha.shareTarget]
    exact hh.shareTarget
  · rw [ha.headerPrefix]
    exact hh.headerPrefix

/-- Every string before the share target reads, so the target is set. -/
structure SetsTarget (p : PowParams) : Prop where
  blockHash : Readable p.blockHash
  vdf : Readable p.vdf
  tick : p.tick < 2 ^ 31
  requestId : p.requestId < 2 ^ 31
  target : Readable (padTarget p.target)

/-- A map that reads is held. -/
theorem holds_of_reads (h : PowHasher) {p : PowParams} (hread : Reads updates p) :
    (Fallible.assign (updates p) h).1.Holds p := by
  unfold Reads at hread
  simp only [updates, List.all_cons, List.all_nil, Option.isSome_map, Bool.and_eq_true,
    Option.isSome_iff_exists] at hread
  obtain ⟨⟨v1, h1⟩, ⟨v2, h2⟩, ⟨v3, h3⟩, ⟨v4, h4⟩, ⟨v5, h5⟩, ⟨v6, h6⟩, ⟨v7, h7⟩, -⟩ := hread
  simp only [updates, h1, h2, h3, h4, h5, h6, h7, Option.map_some, Fallible.assign]
  exact ⟨⟨h5, h6⟩, h7⟩

/-- **A map that throws before its target is set changes nothing a window is judged by.** -/
theorem alike_of_not_sets (h : PowHasher) {p : PowParams} (hsets : ¬ SetsTarget p) :
    h.Alike (Fallible.assign (updates p) h).1 := by
  unfold updates
  cases h1 : PowUtils.hexToBytes p.blockHash with
  | none => exact ⟨rfl, rfl, rfl⟩
  | some v1 =>
    cases h2 : PowUtils.hexToBytes p.vdf with
    | none => exact ⟨rfl, rfl, rfl⟩
    | some v2 =>
      cases h3 : stoi p.tick with
      | none => exact ⟨rfl, rfl, rfl⟩
      | some v3 =>
        cases h4 : stoi p.requestId with
        | none => exact ⟨rfl, rfl, rfl⟩
        | some v4 =>
          cases h5 : PowUtils.hexToBytes (padTarget p.target) with
          | none => exact ⟨rfl, rfl, rfl⟩
          | some v5 =>
            refine absurd ⟨?_, ?_, ?_, ?_, ?_⟩ hsets
            · exact (PowUtils.hexToBytes_isSome_iff _).1 (by rw [h1]; rfl)
            · exact (PowUtils.hexToBytes_isSome_iff _).1 (by rw [h2]; rfl)
            · exact (stoi_isSome_iff _).1 (by rw [h3]; rfl)
            · exact (stoi_isSome_iff _).1 (by rw [h4]; rfl)
            · exact (PowUtils.hexToBytes_isSome_iff _).1 (by rw [h5]; rfl)

end PowHasher

/-- The maps of all sequences read, and the hasher holds the one applied last, if it reads, and the
one of the active sequence. -/
structure Fitted (s : Switch PowParams PowHasher) : Prop where
  registered : ∀ seq p, s.params seq = some p → Reads PowHasher.updates p
  current : ∀ p, s.current = some p → Reads PowHasher.updates p → s.held.Holds p
  active : ∀ seq p, s.active = some seq → s.params seq = some p → s.held.Holds p

namespace Fitted

variable {s : Switch PowParams PowHasher} {seq : Nat} {p : PowParams}

/-- A map that reads is applied. -/
theorem apply (h : Fitted s) (hread : Reads PowHasher.updates p) {active : Option Nat}
    (hactive : ∀ t, active = some t → s.params t = some p) :
    Fitted { (s.applyPowParams PowHasher.updates p).1 with active } := by
  refine ⟨h.registered, ?_, ?_⟩
  · rintro q ⟨⟩ -
    exact PowHasher.holds_of_reads s.held hread
  · intro t q ht hq
    obtain rfl := Option.some.inj ((hactive t ht).symm.trans hq)
    exact PowHasher.holds_of_reads s.held hread

/-- A map that throws is, too, when no sequence is active or the target stays. -/
theorem applyTorn (h : Fitted s) (hread : ¬ Reads PowHasher.updates p)
    (hok : s.active = none ∨ ¬ PowHasher.SetsTarget p) :
    Fitted (s.applyPowParams PowHasher.updates p).1 := by
  refine ⟨h.registered, ?_, ?_⟩
  · rintro q ⟨⟩ hq
    exact absurd hq hread
  · intro t q ht hq
    rcases hok with hnone | hsets
    · rw [show (s.applyPowParams PowHasher.updates p).1.active = s.active from rfl, hnone] at ht
      cases ht
    · exact (h.active t q ht hq).alike (PowHasher.alike_of_not_sets s.held hsets)

theorem cleanup (h : Fitted s) (seq : Nat) : Fitted (s.cleanupSequence seq) := by
  have hparams : ∀ t q, (s.cleanupSequence seq).params t = some q → s.params t = some q := by
    intro t q hq
    change Function.update s.params seq none t = some q at hq
    by_cases ht : t = seq
    · rw [ht, Function.update_self] at hq
      cases hq
    · rwa [Function.update_of_ne ht] at hq
  refine ⟨fun t q hq => h.registered t q (hparams t q hq), h.current, ?_⟩
  intro t q ht hq
  refine h.active t q ?_ (hparams t q hq)
  change (if s.active = some seq then none else s.active) = some t at ht
  split at ht
  · cases ht
  · exact ht

theorem register (h : Fitted s) (hread : Reads PowHasher.updates p) (seq : Nat) :
    Fitted (s.updatePowParamsForSequence PowHasher.updates seq p).1 := by
  unfold Switch.updatePowParamsForSequence
  dsimp only
  split
  · exact h
  · have hregistered : ∀ t q, Function.update s.params seq (some p) t = some q →
        Reads PowHasher.updates q := by
      intro t q hq
      by_cases ht : t = seq
      · rw [ht, Function.update_self] at hq
        cases hq
        exact hread
      · rw [Function.update_of_ne ht] at hq
        exact h.registered t q hq
    split
    · rename_i hactive
      refine ⟨hregistered, ?_, ?_⟩
      · rintro q ⟨⟩ -
        exact PowHasher.holds_of_reads s.held hread
      · intro t q ht hq
        obtain rfl : seq = t := Option.some.inj (hactive.symm.trans ht)
        change Function.update s.params seq (some p) seq = some q at hq
        rw [Function.update_self] at hq
        cases hq
        exact PowHasher.holds_of_reads s.held hread
    · rename_i hother
      refine ⟨hregistered, h.current, ?_⟩
      intro t q ht hq
      have hne : t ≠ seq := by
        rintro rfl
        exact hother ht
      change Function.update s.params seq (some p) t = some q at hq
      rw [Function.update_of_ne hne] at hq
      exact h.active t q ht hq

/-- **What a sample or a check goes on with is the map of its sequence.** -/
theorem use (h : Fitted s) (seq : Nat) : Fitted (s.use PowHasher.updates true seq).1 := by
  by_cases hactive : s.active = some seq
  · rw [Switch.use_active true hactive]
    exact h
  · cases hp : s.params seq with
    | none =>
      rw [Switch.use_missing true hactive hp]
      exact h
    | some p =>
      have hread := h.registered seq p hp
      by_cases hcur : s.current = some p
      · rw [Switch.use_skip hactive hp hcur]
        refine ⟨h.registered, h.current, ?_⟩
        rintro t q ⟨⟩ hq
        obtain rfl := Option.some.inj (hp.symm.trans hq)
        exact h.current p hcur hread
      · rw [Switch.use_apply hactive hp fun _ => hcur, if_pos hread]
        apply h.apply hread
        rintro t ⟨⟩
        exact hp

end Fitted

/-! ## `on_logits` -/

namespace Miner

section Fits

variable {m : Miner} {h : PowHasher} {seq : Nat}

theorem enter_fitted (hf : Fitted (m.coord.switch h)) (hp : Reads PowHasher.updates m.params)
    (seq : Nat) (context : List Int) :
    Fitted ((m.enter seq context).coord.switch (m.hasherEnter h seq context)) := by
  unfold enter hasherEnter
  by_cases hstart : m.startsWindow seq context = true
  · rw [if_pos hstart, if_pos hstart]
    have hensure : Fitted ((m.coord.ensureSequence seq).switch h) := by
      rcases Coordinator.switch_ensure m.coord h seq with heq | ⟨old, heq⟩
      · rw [heq]
        exact hf
      · rw [heq]
        exact hf.cleanup old
    have hregister := hensure.register hp seq
    rw [← Coordinator.switch_register] at hregister
    exact hregister
  · rw [if_neg hstart, if_neg hstart]
    exact hf

theorem begin_fitted (hf : Fitted (m.coord.switch h)) (seq : Nat) :
    Fitted ((m.beginSample seq).coord.switch
      ((m.coord.switch h).use PowHasher.updates true seq).1.held) := by
  have hread : ∀ p, m.coord.params seq = some p → Reads PowHasher.updates p :=
    fun p hp => hf.registered seq p hp
  unfold beginSample
  dsimp only
  rw [Coordinator.switch_begin hread]
  exact hf.use seq

theorem drain_switch (m : Miner) (h : PowHasher) (recv : Bool) :
    (m.drain recv).coord.switch h = m.coord.switch h := by
  obtain ⟨_, _, _, _, _, hd⟩ := drain_eq m recv
  rw [hd]

theorem checkWindow_switch (hactive : m.coord.active = some seq) (h : PowHasher)
    (o : StepOutcome) : (m.checkWindow seq o).1.coord.switch h = m.coord.switch h := by
  obtain ⟨_, _, hc⟩ := checkWindow_eq m seq o
  rw [hc]
  exact Coordinator.switch_check hactive o.cooling

theorem accept_fitted (hf : Fitted (m.coord.switch h)) (hactive : m.coord.active = some seq)
    (token : Int) (steps : Nat) (sampled : Option (Nat × Option (List Int))) (o : StepOutcome) :
    Fitted ((m.accept seq token steps sampled o).1.coord.switch h) := by
  have hrecord : (m.recordStep seq token).coord.switch h = m.coord.switch h :=
    Coordinator.switch_record token
  have hactive' : (m.recordStep seq token).coord.active = some seq :=
    (congrArg Switch.active hrecord).trans hactive
  unfold accept
  dsimp only
  split
  · rw [drain_switch, hrecord]
    exact hf
  · have hcheck := checkWindow_switch hactive' h o
    split
    · rw [hcheck, hrecord]
      exact hf
    · have hretire : (((m.recordStep seq token).checkWindow seq o).1.retire seq).coord.switch h =
          (m.coord.switch h).cleanupSequence seq := by
        unfold retire
        dsimp only
        rw [Coordinator.switch_cleanup, hcheck, hrecord]
      rw [drain_switch, hretire]
      exact hf.cleanup seq

/-- **`on_logits` leaves the hasher fitted.** -/
theorem onLogits_fitted (hready : m.ready ≠ false) (hf : Fitted (m.coord.switch h))
    (hp : Reads PowHasher.updates m.params) (seq nVocab : Nat) (context : List Int)
    (o : StepOutcome) :
    Fitted ((m.onLogits seq nVocab context o).1.coord.switch (m.hasherSample h seq context)) := by
  have hbegin := begin_fitted (enter_fitted hf hp seq context) seq
  unfold onLogits hasherSample
  rw [if_neg hready]
  unfold sample
  dsimp only
  split
  · rename_i step token hstep _
    split
    · unfold retire
      dsimp only
      rw [Coordinator.switch_cleanup]
      exact hbegin.cleanup seq
    · exact accept_fitted hbegin (Coordinator.active_begin hstep) _ _ _ o
  · exact hbegin

/-- The hasher that judges a window holds the map of its sequence. -/
theorem hasherSample_holds (hf : Fitted (m.coord.switch h))
    (hp : Reads PowHasher.updates m.params) {context : List Int} {step : Nat} {p : PowParams}
    (hstep : ((m.enter seq context).coord.beginSample seq).2 = some step)
    (hparams : (m.enter seq context).coord.params seq = some p) :
    (m.hasherSample h seq context).Holds p := by
  have hbegin := begin_fitted (enter_fitted hf hp seq context) seq
  apply hbegin.active seq p
  · exact Coordinator.active_begin hstep
  · have hkept := congrFun (Coordinator.begin_params (m.enter seq context).coord seq) seq
    exact hkept.trans hparams

end Fits

/-! ### What it emits and enqueues -/

/-- A proof emitted by a check, with the parameters of its sequence. -/
def Mints (o : CheckOutcome) (p : Option PowParams) (pr : Proof) : Prop :=
  ∃ achievedHex lowCredit q, o = .emit achievedHex lowCredit ∧ p = some q ∧
    pr.achievedHex = achievedHex ∧ pr.reqId = q.requestId

/-- The proofs emitted in between satisfy `E`; the shares enqueued in between claim what their
proofs do; the job's parameters stay. -/
structure Traces (E : Proof → Prop) (m m' : Miner) : Prop where
  params : m'.params = m.params
  emitted : ∃ l, m'.hist.emitted = m.hist.emitted ++ l ∧ ∀ pr ∈ l, E pr
  enqueued : ∀ s ∈ m'.hist.enqueued, s ∈ m.hist.enqueued ∨
    s.achievedHex = s.proof.achievedHex ∧ s.achievedHex ≠ []

variable {E : Proof → Prop}

theorem traces_of_hist {m m' : Miner} (hh : m'.hist = m.hist) (hp : m'.params = m.params) :
    Traces E m m' := by
  refine ⟨hp, ?_, ?_⟩
  · exact ⟨[], by rw [hh, List.append_nil], nofun⟩
  · intro s hs
    rw [hh] at hs
    exact .inl hs

theorem Traces.trans {m₁ m₂ m₃ : Miner} (h₁ : Traces E m₁ m₂) (h₂ : Traces E m₂ m₃) :
    Traces E m₁ m₃ := by
  obtain ⟨l₁, he₁, hl₁⟩ := h₁.emitted
  obtain ⟨l₂, he₂, hl₂⟩ := h₂.emitted
  refine ⟨h₂.params.trans h₁.params, ?_, ?_⟩
  · refine ⟨l₁ ++ l₂, by rw [he₂, he₁, List.append_assoc], ?_⟩
    intro pr hpr
    rcases List.mem_append.1 hpr with hpr | hpr
    · exact hl₁ pr hpr
    · exact hl₂ pr hpr
  · intro s hs
    rcases h₂.enqueued s hs with hs | hs
    · exact h₁.enqueued s hs
    · exact .inr hs

theorem conclude_traces (m : Miner) (seq : Nat) (o : CheckOutcome) :
    Traces (Mints o (m.coord.params seq)) m (m.conclude seq o).1 := by
  unfold conclude
  split
  · exact traces_of_hist rfl rfl
  · exact traces_of_hist rfl rfl
  · rename_i achievedHex lowCredit
    split
    · exact traces_of_hist rfl rfl
    · rename_i p hp
      split
      · exact traces_of_hist rfl rfl
      · refine ⟨rfl, ⟨[m.proofOf seq p achievedHex lowCredit], rfl, ?_⟩, fun s hs => .inl hs⟩
        intro pr hpr
        obtain rfl := List.mem_singleton.1 hpr
        exact ⟨achievedHex, lowCredit, p, rfl, hp, rfl, rfl⟩

theorem checkWindow_traces (m : Miner) (seq : Nat) (o : StepOutcome) :
    Traces (Mints o.check (m.coord.params seq)) m (m.checkWindow seq o).1 := by
  have hcoord : Traces (Mints o.check (m.coord.params seq)) m
      { m with coord := (m.coord.checkSolutions seq o.cooling).1 } := traces_of_hist rfl rfl
  unfold checkWindow
  dsimp only
  split
  · exact hcoord
  · have hc := conclude_traces { m with coord := (m.coord.checkSolutions seq o.cooling).1 } seq
      o.check
    rw [Coordinator.check_params] at hc
    exact hcoord.trans hc

/-- A message received is dropped or becomes a share with its text. -/
theorem drain_traces (m : Miner) (recv : Bool) : Traces E m (m.drain recv) := by
  unfold drain
  split
  swap
  · exact traces_of_hist rfl rfl
  rename_i pr rest _
  have hnone : ∃ l, m.hist.emitted = m.hist.emitted ++ l ∧ ∀ pr ∈ l, E pr :=
    ⟨[], (List.append_nil _).symm, nofun⟩
  unfold receive
  dsimp only
  split
  · exact ⟨rfl, hnone, fun s hs => .inl hs⟩
  · split
    · exact ⟨rfl, hnone, fun s hs => .inl hs⟩
    · rename_i hhex
      split
      · exact ⟨rfl, hnone, fun s hs => .inl hs⟩
      · refine ⟨rfl, hnone, fun s hs => ?_⟩
        rcases List.mem_append.1 hs with hs | hs
        · exact .inl hs
        · obtain rfl := List.mem_singleton.1 hs
          exact .inr ⟨rfl, hhex⟩

theorem accept_traces (m : Miner) (seq : Nat) (token : Int) (steps : Nat)
    (sampled : Option (Nat × Option (List Int))) (o : StepOutcome) :
    Traces (Mints o.check (m.coord.params seq)) m (m.accept seq token steps sampled o).1 := by
  have hr : Traces (Mints o.check (m.coord.params seq)) m (m.recordStep seq token) :=
    traces_of_hist rfl rfl
  unfold accept
  dsimp only
  split
  · exact hr.trans (drain_traces _ _)
  · have hcheck := checkWindow_traces (m.recordStep seq token) seq o
    rw [show (m.recordStep seq token).coord.params seq = m.coord.params seq from
      congrFun (Coordinator.record_params m.coord seq token) seq] at hcheck
    have hc := hr.trans hcheck
    split
    · exact hc
    · have ht : Traces (Mints o.check (m.coord.params seq)) m
          (((m.recordStep seq token).checkWindow seq o).1.retire seq) :=
        hc.trans (traces_of_hist rfl rfl)
      exact ht.trans (drain_traces _ _)

/-- **What a call emits, it emits after a sample, with the parameters of its sequence.** -/
theorem onLogits_traces (m : Miner) (seq nVocab : Nat) (context : List Int) (o : StepOutcome) :
    Traces (fun pr => Mints o.check ((m.enter seq context).coord.params seq) pr ∧
        ∃ step, ((m.enter seq context).coord.beginSample seq).2 = some step)
      m (m.onLogits seq nVocab context o).1 := by
  unfold onLogits
  split
  · exact traces_of_hist rfl rfl
  · obtain ⟨henter, hparams⟩ : (m.enter seq context).hist = m.hist ∧
        (m.enter seq context).params = m.params := by
      unfold enter
      dsimp only
      split <;> exact ⟨rfl, rfl⟩
    unfold sample
    dsimp only
    split
    · rename_i step token hstep _
      split
      · exact traces_of_hist henter hparams
      · have haccept := accept_traces ((m.enter seq context).beginSample seq) seq token
          (context.length - (m.enter seq context).promptLen seq + 1)
          (some (step, ((m.enter seq context).beginSample seq).coord.promptTokens seq)) o
        rw [show ((m.enter seq context).beginSample seq).coord.params seq =
          (m.enter seq context).coord.params seq from
            congrFun (Coordinator.begin_params (m.enter seq context).coord seq) seq] at haccept
        obtain ⟨hkept, ⟨l, hl, hmints⟩, henqueued⟩ := haccept
        have hhist : ((m.enter seq context).beginSample seq).hist = m.hist := henter
        rw [hhist] at hl henqueued
        refine ⟨hkept.trans hparams, ⟨l, hl, ?_⟩, henqueued⟩
        intro pr hpr
        exact ⟨hmints pr hpr, step, hstep⟩
    · exact traces_of_hist henter hparams

end Miner

/-! ## `set_job` -/

section SetJob

variable {proveSlow : Bytes → Nat → Bytes} {m : Miner} {h : PowHasher} {p : PoiJobParams}
  {o : MapOrder}

theorem afterVdf_kept (proveSlow : Bytes → Nat → Bytes) (m : Miner) (p : PoiJobParams) :
    (m.afterVdf proveSlow p).1.coord = m.coord ∧ (m.afterVdf proveSlow p).1.params = m.params := by
  obtain ⟨_, _, _, _, hv⟩ := updateVdf_eq { m with lastCtx := fun _ => none } p
    (proveHex proveSlow p.parent p.selfTick)
  unfold Miner.afterVdf
  rw [hv]
  exact ⟨rfl, rfl⟩

/-- Registering the map that was just applied. -/
theorem Fitted.registerAll {q : PowParams} (hq : Reads PowHasher.updates q) (l : List Nat)
    {c : Coordinator PowParams} (hc : Fitted (c.switch h)) (hnone : c.active = none) :
    Fitted ((l.foldl (fun c sq => c.updatePowParamsForSequence sq q) c).switch h) := by
  induction l generalizing c with
  | nil => exact hc
  | cons sq l ih =>
    have hregister := hc.register hq sq
    rw [← Coordinator.switch_register] at hregister
    have hheld : ((c.switch h).updatePowParamsForSequence PowHasher.updates sq q).1.held = h := by
      unfold Switch.updatePowParamsForSequence
      dsimp only
      split
      · rfl
      · rw [if_neg (show ¬ (c.switch h).active = some sq by
          rw [show (c.switch h).active = none from hnone]
          exact nofun)]
        rfl
    rw [hheld] at hregister
    exact ih hregister ((Coordinator.updateForSequence_active c sq q).trans hnone)

/-- What the parameters of the job set before they are refused. -/
theorem leavesTarget_iff (hvalid : p.valid = true ∧ p.headerPrefix.length = 152)
    (hparent : Readable p.parent) (hp : ¬ m.Unproved proveSlow p)
    (hrefused : ¬ ParamsReadable proveSlow m p) :
    m.LeavesTarget proveSlow p ↔ m.coord.active ≠ none ∧
      PowHasher.SetsTarget ((m.afterVdf proveSlow p).1.powParams p) := by
  obtain ⟨-, -, hvdf, htick⟩ := afterVdf_spec proveSlow hp
  have hsets : PowHasher.SetsTarget ((m.afterVdf proveSlow p).1.powParams p) ↔
      Readable (m.vdfFor proveSlow p).1 ∧ (m.vdfFor proveSlow p).2 < 2 ^ 31 ∧
        p.requestId < 2 ^ 31 ∧ Readable (padTarget p.blockTarget) := by
    rw [← hvdf, ← htick]
    constructor
    · rintro ⟨-, h2, h3, h4, h5⟩
      exact ⟨h2, h3, h4, h5⟩
    · rintro ⟨h2, h3, h4, h5⟩
      exact ⟨hparent, h2, h3, h4, h5⟩
  rw [hsets]
  unfold Miner.LeavesTarget
  constructor
  · rintro ⟨-, -, -, -, -, hactive, hrest⟩
    exact ⟨hactive, hrest⟩
  · rintro ⟨hactive, hrest⟩
    exact ⟨hvalid.1, hvalid.2, hparent, hp, hrefused, hactive, hrest⟩

/-- **`set_job` leaves the hasher fitted** unless it leaves its target behind. -/
theorem setJobHex_fitted (hf : Fitted (m.coord.switch h)) (hread : Reads PowHasher.updates m.params)
    (hok : ¬ m.LeavesTarget proveSlow p) {m' : Miner} {h' : PowHasher} {ok : Bool}
    (hj : m.setJobHex proveSlow h p o = some (m', h', ok)) :
    Fitted (m'.coord.switch h') ∧ Reads PowHasher.updates m'.params := by
  by_cases hbad : p.valid = false ∨ p.headerPrefix.length ≠ 152
  · have hkept : m.hasherAfter proveSlow h p = h := by
      unfold Miner.hasherAfter
      rw [if_neg]
      rintro ⟨hv, hlen, -⟩
      rcases hbad with hb | hb
      · rw [hv] at hb
        cases hb
      · exact hb hlen
    rw [setJobHex_invalid proveSlow hbad, hkept] at hj
    cases hj
    exact ⟨hf, hread⟩
  · have hvalid := valid_of_not hbad
    by_cases hparent : Readable p.parent
    swap
    · rw [setJobHex_throws proveSlow hvalid hparent] at hj
      cases hj
    obtain ⟨hcoord, hparams⟩ := afterVdf_kept proveSlow m p
    have hhex : (m.attempt proveSlow h p o).parentHex = true :=
      (challenge_isSome_iff hvalid.2).2 hparent
    unfold Miner.setJobHex at hj
    by_cases hp : m.Unproved proveSlow p
    · obtain ⟨hv, hjobs⟩ := afterVdf_unproved proveSlow hp
      have hkept : m.hasherAfter proveSlow h p = h := by
        unfold Miner.hasherAfter
        rw [if_neg]
        rintro ⟨-, -, hv'⟩
        rw [hv] at hv'
        cases hv'
      rw [call_eq (proveHex proveSlow) hvalid hhex (v := m.afterVdf proveSlow p) rfl hjobs,
        if_pos hv, hkept] at hj
      cases hj
      rw [hcoord, hparams]
      exact ⟨hf, hread⟩
    · obtain ⟨hv, hjobs, -, -⟩ := afterVdf_spec proveSlow hp
      have hafter : m.hasherAfter proveSlow h p =
          (Fallible.assign (PowHasher.updates ((m.afterVdf proveSlow p).1.powParams p)) h).1 := by
        unfold Miner.hasherAfter
        rw [if_pos ⟨hvalid.1, hvalid.2, hv⟩]
        rfl
      have hreads : (m.attempt proveSlow h p o).accepted = true ↔
          Reads PowHasher.updates ((m.afterVdf proveSlow p).1.powParams p) := by
        unfold Miner.attempt PowHasher.updateFromPayload Reads
        dsimp only
        rw [Fallible.assign_snd]
      rw [call_eq (proveHex proveSlow) hvalid hhex (v := m.afterVdf proveSlow p) rfl hjobs,
        if_neg (by rw [hv]; decide), hafter] at hj
      by_cases hacc : (m.attempt proveSlow h p o).accepted = true
      · rw [if_neg (by rw [hacc]; decide)] at hj
        cases hj
        have hq := hreads.1 hacc
        refine ⟨?_, hq⟩
        unfold Miner.install
        dsimp only
        apply Fitted.registerAll hq
        · rw [hcoord]
          exact hf.apply hq fun t ht => nomatch ht
        · rfl
      · rw [if_pos (eq_false_of_ne_true hacc)] at hj
        cases hj
        have hq : ¬ Reads PowHasher.updates ((m.afterVdf proveSlow p).1.powParams p) :=
          fun hq => hacc (hreads.2 hq)
        have hrefused : ¬ ParamsReadable proveSlow m p :=
          fun hr => hacc ((accepted_iff proveSlow hp hparent).2 hr)
        rw [leavesTarget_iff hvalid hparent hp hrefused] at hok
        refine ⟨?_, ?_⟩
        · dsimp only
          rw [hcoord]
          apply hf.applyTorn hq
          by_cases hnone : m.coord.active = none
          · exact .inl hnone
          · exact .inr fun hsets => hok ⟨hnone, hsets⟩
        · dsimp only
          rw [hparams]
          exact hread

theorem setJobHex_carries {m' : Miner} {h' : PowHasher} {ok : Bool}
    (hj : m.setJobHex proveSlow h p o = some (m', h', ok)) :
    Miner.Carries 0 m m' ∧ m'.hist = m.hist := by
  obtain ⟨⟨m₁, ok₁⟩, hcall, heq⟩ := Option.map_eq_some_iff.1 hj
  cases heq
  obtain ⟨hh, he, hq⟩ := Miner.setJob_same hcall
  exact ⟨Miner.carries_of_eq hh he hq, hh⟩

end SetJob

/-! ## Runs -/

/-- What is claimed for a proof is no more than a target of its parameters. -/
structure Minted.Sound (e : Minted) : Prop where
  reqId : e.proof.reqId = e.params.requestId
  met : e.proof.achievedHex ≠ [] → e.params.MetBy (hexNumber e.proof.achievedHex)

structure Hashing.Sound (s : Hashing) : Prop where
  fitted : Fitted (s.miner.coord.switch s.hasher)
  params : Reads PowHasher.updates s.miner.params
  accounts : s.miner.Accounts
  honest : ∀ share ∈ s.miner.hist.enqueued,
    share.achievedHex = share.proof.achievedHex ∧ share.achievedHex ≠ []
  records : s.minted.map (·.proof) = s.miner.hist.emitted
  minted : ∀ e ∈ s.minted, e.Sound

theorem targetNumber_eq {s target : Bytes} (h : readTarget s = some target) :
    targetNumber s = beNumber target := by
  unfold targetNumber
  rw [h]
  rfl

/-- **A window that is emitted meets a target of the map the hasher holds.** -/
theorem judge_met {sha : Bytes → Digest} {h : PowHasher} {p : PowParams} (hh : h.Holds p)
    {o : LogitsOutcome} {achieved : Bytes} {lowCredit : Bool}
    (hj : h.judge sha p o = .emit achieved lowCredit) (hne : achieved ≠ []) :
    p.MetBy (hexNumber achieved) := by
  unfold PowHasher.judge at hj
  split at hj
  swap
  · cases hj
  rename_i hmeets
  split at hj
  · cases hj
  rw [hh.headerPrefix] at hj
  obtain ⟨rfl, -⟩ := CheckOutcome.emit.inj hj
  have hsize : o.digest.bytes.length = 32 ∧ h.headerPrefix.length = 76 := by
    by_contra hno
    exact hne (if_neg hno)
  have hvalue := hexNumber_achieved sha hsize.2 hsize.1
  unfold PowParams.MetBy
  rw [hvalue]
  rcases hmeets with hsolution | hshare
  · left
    rw [targetNumber_eq hh.target]
    exact (checkAgainst_iff sha (length_readTarget hh.target)).1 hsolution
  · right
    have hset : p.shareTarget ≠ [] := by
      intro hnil
      unfold PowHasher.checkShareSolution at hshare
      rw [if_pos (hh.toHoldsTargets.share_empty hnil)] at hshare
      cases hshare
    obtain ⟨hread, hlen⟩ := hh.toHoldsTargets.share_read hset
    have hnonempty : h.shareTarget ≠ [] := by
      intro hnil
      rw [hnil] at hlen
      cases hlen
    unfold PowHasher.checkShareSolution at hshare
    rw [if_neg hnonempty] at hshare
    refine ⟨hset, ?_⟩
    rw [targetNumber_eq hread]
    exact (checkAgainst_iff sha hlen).1 hshare

section Runs

variable {sha : Bytes → Digest} {proveSlow : Bytes → Nat → Bytes}

theorem Hashing.Sound.onLogits {s : Hashing} (hs : s.Sound) (seq nVocab : Nat)
    (context : List Int) (o : LogitsOutcome) : (s.onLogits sha seq nVocab context o).Sound := by
  unfold Hashing.onLogits
  split
  · exact hs
  rename_i hready
  dsimp only
  obtain ⟨hparams, ⟨l, hl, hmints⟩, henqueued⟩ := s.miner.onLogits_traces seq nVocab context
    { draw := o.draw, cooling := o.cooling
      check := (s.miner.hasherSample s.hasher seq context).judge sha
        (((s.miner.enter seq context).coord.params seq).getD {}) o
      recv := o.recv }
  have hnew : ∀ pr ∈ l, Minted.Sound
      ⟨pr, ((s.miner.enter seq context).coord.params seq).getD {}, o.digest⟩ := by
    intro pr hpr
    obtain ⟨⟨achieved, lowCredit, q, hemit, hq, hachieved, hreq⟩, step, hstep⟩ := hmints pr hpr
    have hholds := Miner.hasherSample_holds hs.fitted hs.params hstep hq
    rw [hq, Option.getD_some] at hemit ⊢
    refine ⟨hreq, ?_⟩
    dsimp only
    rw [hachieved]
    exact judge_met hholds hemit
  have hdrop : (s.miner.hist.emitted ++ l).drop s.miner.hist.emitted.length = l := List.drop_left
  refine ⟨Miner.onLogits_fitted hready hs.fitted hs.params seq nVocab context _, ?_, ?_, ?_, ?_, ?_⟩
  · dsimp only
    rw [hparams]
    exact hs.params
  · exact (s.miner.onLogits_carries seq nVocab context _).accounts hs.accounts
  · intro share hshare
    rcases henqueued share hshare with hold | hnew
    · exact hs.honest share hold
    · exact hnew
  · dsimp only
    rw [hl, hdrop, List.map_append, hs.records, List.map_map]
    exact congrArg _ (List.map_id l)
  · intro e he
    dsimp only at he
    rw [hl, hdrop] at he
    rcases List.mem_append.1 he with he | he
    · exact hs.minted e he
    · obtain ⟨pr, hpr, rfl⟩ := List.mem_map.1 he
      exact hnew pr hpr

theorem Hashing.Sound.step {nStreams : Nat} {s t : Hashing} {e : HashingEvent} (hs : s.Sound)
    (hok : KeepsTargets proveSlow s e)
    (ht : (hashingMachine sha proveSlow nStreams).step s e = some t) : t.Sound := by
  cases e with
  | setJob p o =>
    obtain ⟨⟨m', h', ok⟩, hj, rfl⟩ := Option.map_eq_some_iff.1 ht
    obtain ⟨hfitted, hparams⟩ := setJobHex_fitted hs.fitted hs.params hok hj
    obtain ⟨hcarries, hhist⟩ := setJobHex_carries hj
    refine ⟨hfitted, hparams, hcarries.accounts hs.accounts, ?_, ?_, hs.minted⟩
    · dsimp only
      rw [hhist]
      exact hs.honest
    · dsimp only
      rw [hhist]
      exact hs.records
  | onLogits seq nVocab context o =>
    cases ht
    exact hs.onLogits seq nVocab context o

theorem Hashing.sound_init (nStreams : Nat) :
    (hashingMachine sha proveSlow nStreams).init.Sound := by
  refine ⟨⟨nofun, nofun, nofun⟩, ?_, ⟨rfl, ⟨[], rfl, rfl, List.Perm.refl _⟩, rfl⟩, nofun, rfl,
    nofun⟩
  exact (show Reads PowHasher.updates {} by decide +kernel)

theorem Hashing.Sound.sharesMeet {s : Hashing} (hs : s.Sound) : s.SharesMeet := by
  intro share hshare
  obtain ⟨got, hgot, -, hperm⟩ := hs.accounts.egress
  have hmem : share.proof ∈ s.miner.hist.emitted := by
    rw [hgot]
    apply List.mem_append_left
    apply hperm.mem_iff.2
    exact List.mem_append_right _ (List.mem_map.2 ⟨share, hshare, rfl⟩)
  rw [← hs.records] at hmem
  obtain ⟨e, he, heq⟩ := List.mem_map.1 hmem
  obtain ⟨hachieved, hne⟩ := hs.honest share hshare
  have hsound := hs.minted e he
  refine ⟨e, he, heq, ?_, ?_⟩
  · rw [← heq]
    exact hsound.reqId
  · rw [hachieved, ← heq]
    apply hsound.met
    rw [heq, ← hachieved]
    exact hne

/-- **The claimed hash means what the sampler checked**, for every digest and every target of 64
digits; and in every run whose jobs leave no target behind, every share meets a target of the
parameters its proof was written with. -/
theorem shares_meet_targets (sha : Bytes → Digest) (proveSlow : Bytes → Nat → Bytes)
    (nStreams : Nat) :
    (∀ (h : PowHasher) (digest target : Bytes), h.headerPrefix.length = 76 → digest.length = 32 →
      AllHex target → target.length = 64 →
      (hexNumber (achievedHex sha (some h.headerPrefix) (some digest)) ≤ hexNumber target ↔
        (({ h with target := hexBytes target } : PowHasher).checkSolution sha [digest]).headD
          false = true)) ∧
    ∀ es s, (hashingMachine sha proveSlow nStreams).Guarded (KeepsTargets proveSlow)
        (hashingMachine sha proveSlow nStreams).init es →
      (hashingMachine sha proveSlow nStreams).exec (hashingMachine sha proveSlow nStreams).init es =
        some s → s.SharesMeet := by
  constructor
  · intro h digest target hp hd ht hlen
    exact achieved_le_iff sha hp hd ht hlen
  · intro es s hok hrun
    have hsound : s.Sound := by
      apply (hashingMachine sha proveSlow nStreams).guarded_invariant (I := Hashing.Sound) _
        (Hashing.sound_init nStreams) hok hrun
      intro s e t hs hok ht
      exact hs.step hok ht
    exact hsound.sharesMeet

end Runs

/-- A job whose targets are zero. -/
def strictJob : PoiJobParams :=
  { bareJob (List.replicate 152 48) with shareTarget := List.replicate 64 48 }

/-- A job with the easiest share target, refused for the end of its header. -/
def refusedJob : PoiJobParams := bareJob (List.replicate 150 48 ++ text "zz")

/-- A job with an easy share target. -/
def easyJob : PoiJobParams := bareJob (List.replicate 152 48)

/-- A digest whose number is one. -/
def oneDigest : Digest := ⟨1 :: List.replicate 31 0, rfl⟩

/-- The first tokens of a batch. -/
def firstTokens (n : Nat) : List HashingEvent :=
  (List.range n).map fun i => .onLogits 0 10 ([1, 2] ++ List.replicate i 5)
    { draw := some 5, digest := oneDigest, recv := true }

/-- A window that meets the share target, then a job that is refused for its header before any
target is set. -/
def easyRun : List HashingEvent :=
  .setJob easyJob {} :: firstTokens 256 ++ [.setJob { easyJob with headerPrefix := [48] } {}]

theorem shares_meet_targets_enqueued :
    ∃ s, (hashingMachine (fun _ => oneDigest) (fun _ _ => []) 1).exec
        (hashingMachine (fun _ => oneDigest) (fun _ _ => []) 1).init easyRun = some s ∧
      s.miner.hist.enqueued.length = 1 ∧ s.SharesMeet := by
  have hrun : ((hashingMachine (fun _ => oneDigest) (fun _ _ => []) 1).exec
      (hashingMachine (fun _ => oneDigest) (fun _ _ => []) 1).init easyRun).map
        (fun s => s.miner.hist.enqueued.length) = some 1 := by
    decide +kernel
  obtain ⟨s, hs, hlen⟩ := Option.map_eq_some_iff.1 hrun
  exact ⟨s, hs, hlen, (shares_meet_targets _ _ 1).2 easyRun s (by decide +kernel) hs⟩

/-- Two batches abandoned half-way, a job that is refused, and a whole batch. -/
def refusedRun : List HashingEvent :=
  .setJob strictJob {} :: firstTokens 128 ++ firstTokens 128 ++
    .setJob refusedJob {} :: firstTokens 256

/-- **The window of the first job is judged by the target of the refused one.** -/
theorem share_of_other_target :
    ¬ ∀ s, (hashingMachine (fun _ => oneDigest) (fun _ _ => []) 1).exec
      (hashingMachine (fun _ => oneDigest) (fun _ _ => []) 1).init refusedRun = some s →
      s.SharesMeet := by
  intro h
  have hrun : ((hashingMachine (fun _ => oneDigest) (fun _ _ => []) 1).exec
      (hashingMachine (fun _ => oneDigest) (fun _ _ => []) 1).init refusedRun).map (fun s =>
        (s.miner.hist.enqueued.map fun share => hexNumber share.achievedHex,
          s.minted.map fun e => (e.params.target, e.params.shareTarget))) =
      some ([1], [(List.replicate 64 48, List.replicate 64 48)]) := by
    decide +kernel
  obtain ⟨s, hs, heq⟩ := Option.map_eq_some_iff.1 hrun
  obtain ⟨henqueued, hminted⟩ := Prod.mk.inj heq
  obtain ⟨share, hshare, hone⟩ : ∃ share ∈ s.miner.hist.enqueued,
      hexNumber share.achievedHex = 1 := by
    apply List.mem_map.1
    rw [henqueued]
    exact List.mem_singleton_self 1
  obtain ⟨e, he, -, -, hmet⟩ := h s hs share hshare
  have hparams : (e.params.target, e.params.shareTarget) =
      (List.replicate 64 48, List.replicate 64 48) := by
    apply List.mem_singleton.1
    rw [← hminted]
    exact List.mem_map.2 ⟨e, he, rfl⟩
  obtain ⟨htarget, hshareTarget⟩ := Prod.mk.inj hparams
  have hzero : targetNumber (List.replicate 64 48) = 0 := by decide +kernel
  rw [hone] at hmet
  unfold PowParams.MetBy at hmet
  rw [htarget, hshareTarget, hzero] at hmet
  omega

end Poi
