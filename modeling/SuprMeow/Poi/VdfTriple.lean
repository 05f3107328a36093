import SuprMeow.Poi.Labels

/-!
# The VDF triple

`set_job` keeps a proof, its tick and its parent between calls and decides from them whether the
next job needs another.  `prove` stands for `Vdf::prove` with its result in hex; whether it fails
in a call, and whether the parameters are accepted, is up to the call.

* `TripleSound` — after the call the triple is the one of the last call that succeeded, and a call
  that returns false has changed nothing;
* `KeepsTriple` — when one call does so;
* `triple_sound_iff` — for whole runs, with tokens in between.
-/

set_option autoImplicit false

open Stratum (Bytes)

namespace Poi

/-! ## Calls -/

/-- What a call meets besides its job; `order` is how the map of jobs is iterated. -/
structure Attempt where
  parentHex : Bool := true
  proves : Bool := true
  accepted : Bool := true
  order : List Nat → List Nat := id
  perm : ∀ l, (order l).Perm l := by exact fun l => List.Perm.refl l

section Calls

variable (prove : Bytes → Nat → Bytes)

/-- The local proof, when proving works in this call. -/
def Attempt.proof (a : Attempt) (p : PoiJobParams) : Bytes :=
  if a.proves then prove p.parent p.selfTick else []

def Attempt.outcome (a : Attempt) (m : Miner) (p : PoiJobParams) : JobOutcome where
  parentHex := a.parentHex
  vdfProof := a.proof prove p
  accepted := a.accepted
  scan := a.order ((Miner.insertJob m.jobByReq p).map (·.1))

def Attempt.call (a : Attempt) (m : Miner) (p : PoiJobParams) : Option (Miner × Bool) :=
  m.setJob p (a.outcome prove m p)

inductive VdfEvent where
  | setJob (p : PoiJobParams) (a : Attempt)
  | onLogits (seq nVocab : Nat) (context : List Int) (o : StepOutcome)

/-- A miner and the job of the last call that returned true. -/
def vdfMachine (nStreams : Nat) : Runs.Machine (Miner × Option PoiJobParams) VdfEvent where
  init := ({ nStreams }, none)
  step s
    | .setJob p a => (a.call prove s.1 p).map fun r => (r.1, if r.2 then some p else s.2)
    | .onLogits seq nVocab context o => some ((s.1.onLogits seq nVocab context o).1, s.2)

/-! ## The property -/

def Miner.triple (m : Miner) : Bytes × Nat × Bytes := (m.vdfHex, m.vdfTick, m.parentHashHex)

/-- The triple of a job: the pool's proof and tick, else the local proof for the selected tick. -/
def PoiJobParams.triple (p : PoiJobParams) : Bytes × Nat × Bytes :=
  (if p.poolVdf ≠ [] then p.poolVdf else prove p.parent p.selfTick, p.tick, p.parent)

/-- The triple is the one of the last job that was accepted, or empty. -/
def Settled (m : Miner) : Option PoiJobParams → Prop
  | none => m.triple = ([], 0, [])
  | some p => m.triple = p.triple prove

/-- What a call that returns false must leave alone. -/
structure LeftAlone (m m' : Miner) : Prop where
  triple : m'.triple = m.triple
  job : m'.job = m.job
  jobId : m'.jobId = m.jobId
  ready : m'.ready = m.ready
  lastCtx : m'.lastCtx = m.lastCtx
  promptLen : m'.promptLen = m.promptLen

def TripleSound (s : Miner × Option PoiJobParams) : VdfEvent → Prop
  | .setJob p a => ∀ m' ok, a.call prove s.1 p = some (m', ok) →
    Settled prove m' (if ok then some p else s.2) ∧ (ok = false → LeftAlone s.1 m')
  | .onLogits seq nVocab context o => Settled prove (s.1.onLogits seq nVocab context o).1 s.2

/-! ## The condition -/

/-- No sequence is inside a window. -/
def Miner.Between (m : Miner) : Prop := m.lastCtx = fun _ => none

/-- A refused job, and one whose parameters are refused while its VDF is in place, must come
between windows; a proof may fail only for the tick in place, between windows; the parameters of a
job with another VDF must be accepted; and a job whose VDF counts as in place must be the one that
is in place, tick included. -/
def KeepsTriple (m : Miner) : VdfEvent → Prop
  | .setJob p a =>
    if p.valid = false ∨ p.headerPrefix.length ≠ 152 then m.Between
    else a.parentHex = true →
      if m.newVdf p then
        if p.poolVdf = [] ∧ a.proof prove p = [] then m.vdfTick = p.selfTick ∧ m.Between
        else a.accepted = true
      else if a.accepted = true then m.triple = p.triple prove
      else m.Between
  | .onLogits .. => True

end Calls

/-! ## The VDF part, case by case -/

section Update

variable {m : Miner} {p : PoiJobParams} {vdfProof : Bytes}

theorem updateVdf_kept (h : ¬ m.newVdf p) : m.updateVdf p vdfProof = (m, true) := by
  unfold Miner.newVdf at h
  unfold Miner.updateVdf
  split
  · rename_i hp
    rw [if_pos hp] at h
    rw [if_neg h]
  · rename_i hp
    rw [if_neg hp] at h
    rw [if_neg h]

theorem updateVdf_failed (h : m.newVdf p) (hp : p.poolVdf = []) (hv : vdfProof = []) :
    m.updateVdf p vdfProof = ({ m with vdfTick := p.selfTick }, false) := by
  have hpool : ¬ p.poolVdf ≠ [] := fun hne => hne hp
  unfold Miner.newVdf at h
  rw [if_neg hpool] at h
  unfold Miner.updateVdf
  rw [if_neg hpool, if_pos h, if_pos hv]

theorem updateVdf_new (h : m.newVdf p) (hok : ¬ (p.poolVdf = [] ∧ vdfProof = [])) :
    ∃ proved, m.updateVdf p vdfProof =
      ({ m with
          vdfHex := if p.poolVdf ≠ [] then p.poolVdf else vdfProof
          vdfTick := p.tick
          parentHashHex := p.parent
          provedHere := proved }, true) := by
  unfold Miner.newVdf at h
  unfold Miner.updateVdf PoiJobParams.tick
  by_cases hp : p.poolVdf ≠ []
  · rw [if_pos hp] at h
    simp only [if_pos hp, if_pos h]
    exact ⟨_, rfl⟩
  · rw [if_neg hp] at h
    have hv : vdfProof ≠ [] := fun hv => hok ⟨Decidable.not_not.1 hp, hv⟩
    simp only [if_neg hp, if_pos h, if_neg hv]
    exact ⟨_, rfl⟩

/-- A VDF that does not count as in place is not the one in place. -/
theorem triple_ne_of_new (h : m.newVdf p) (hok : ¬ (p.poolVdf = [] ∧ vdfProof = [])) (t : Nat) :
    (if p.poolVdf ≠ [] then p.poolVdf else vdfProof, t, p.parent) ≠ m.triple := by
  unfold Miner.newVdf at h
  intro heq
  have h1 : (if p.poolVdf ≠ [] then p.poolVdf else vdfProof) = m.vdfHex := congrArg Prod.fst heq
  have h2 : p.parent = m.parentHashHex := congrArg (·.2.2) heq
  by_cases hp : p.poolVdf ≠ []
  · rw [if_pos hp] at h h1
    exact h.elim (fun hne => hne h1) (fun hne => hne h2)
  · rw [if_neg hp] at h h1
    rcases h with hne | hempty
    · exact hne h2
    · exact hok ⟨Decidable.not_not.1 hp, h1.trans hempty⟩

end Update

/-! ## One call -/

section Step

variable (prove : Bytes → Nat → Bytes) {m : Miner} {p : PoiJobParams} {a : Attempt}

/-- The end of a call whose VDF part leaves `v`. -/
theorem call_eq {v : Miner × Bool} (hvalid : p.valid = true ∧ p.headerPrefix.length = 152)
    (hhex : a.parentHex = true)
    (hv : Miner.updateVdf { m with lastCtx := fun _ => none } p (a.proof prove p) = v)
    (hjobs : v.1.jobByReq = m.jobByReq) :
    a.call prove m p =
      if v.2 = false then some (v.1, false)
      else if a.accepted = false then
        some ({ v.1 with coord := v.1.coord.applyPowParams (v.1.powParams p) }, false)
      else some (v.1.install p (a.outcome prove m p).scan, true) := by
  have hscan : (a.outcome prove m p).scan.Perm ((Miner.insertJob v.1.jobByReq p).map (·.1)) := by
    rw [hjobs]
    exact a.perm _
  unfold Attempt.call Miner.setJob
  rw [if_neg (by rw [hvalid.1, hvalid.2]; simp),
    if_neg (show ¬ (a.outcome prove m p).parentHex = false from fun h =>
      Bool.false_ne_true (h.symm.trans hhex))]
  dsimp only
  rw [show (a.outcome prove m p).vdfProof = a.proof prove p from rfl, hv,
    if_neg (show ¬ (_ ∧ ¬ (a.outcome prove m p).scan.Perm _) from fun h => h.2 hscan)]
  rfl

/-- A successful proof is the one the triple wants. -/
theorem proof_eq (h : ¬ (p.poolVdf = [] ∧ a.proof prove p = [])) :
    (if p.poolVdf ≠ [] then p.poolVdf else a.proof prove p) = (p.triple prove).1 := by
  unfold PoiJobParams.triple
  by_cases hp : p.poolVdf ≠ []
  · rw [if_pos hp, if_pos hp]
  · have hne : a.proof prove p ≠ [] := fun hv => h ⟨Decidable.not_not.1 hp, hv⟩
    rw [if_neg hp, if_neg hp]
    unfold Attempt.proof at hne ⊢
    split
    · rfl
    · rename_i hfail
      rw [if_neg hfail] at hne
      exact absurd rfl hne

/-- Clearing the contexts is all that a refused call does: nothing between windows. -/
theorem leftAlone_cleared_iff {coord : Coordinator PowParams} :
    LeftAlone m { m with coord, lastCtx := fun _ => none } ↔ m.Between :=
  ⟨fun h => h.lastCtx.symm, fun h => ⟨rfl, rfl, rfl, rfl, h.symm, rfl⟩⟩

/-- What the property says of a call that returned. -/
theorem sound_iff_of_call {last : Option PoiJobParams} {m' : Miner} {ok : Bool}
    (h : a.call prove m p = some (m', ok)) :
    TripleSound prove (m, last) (.setJob p a) ↔
      Settled prove m' (if ok then some p else last) ∧ (ok = false → LeftAlone m m') := by
  unfold TripleSound
  dsimp only
  rw [h]
  exact ⟨fun hs => hs _ _ rfl, by rintro hs _ _ ⟨⟩; exact hs⟩

theorem Settled.congr {last : Option PoiJobParams} {m' : Miner} (hs : Settled prove m last)
    (h : m'.triple = m.triple) : Settled prove m' last := by
  cases last <;> exact h.trans hs

/-- **One call, from a settled triple, is sound exactly under the condition.** -/
theorem setJob_sound_iff {last : Option PoiJobParams} (hs : Settled prove m last) :
    TripleSound prove (m, last) (.setJob p a) ↔ KeepsTriple prove m (.setJob p a) := by
  unfold KeepsTriple
  dsimp only
  by_cases hbad : p.valid = false ∨ p.headerPrefix.length ≠ 152
  · -- refused before anything is decided
    rw [if_pos hbad, sound_iff_of_call prove (if_pos hbad)]
    have hclear := @leftAlone_cleared_iff m m.coord
    exact ⟨fun h => hclear.1 (h.2 rfl), fun h => ⟨hs.congr prove rfl, fun _ => hclear.2 h⟩⟩
  · have hvalid : p.valid = true ∧ p.headerPrefix.length = 152 :=
      ⟨eq_true_of_ne_false fun h => hbad (.inl h), Decidable.not_not.1 fun h => hbad (.inr h)⟩
    rw [if_neg hbad]
    by_cases hhex : a.parentHex = true
    · rw [imp_iff_right hhex]
      by_cases hnew : m.newVdf p
      · rw [if_pos hnew]
        have hnew₀ : Miner.newVdf { m with lastCtx := fun _ => none } p := hnew
        by_cases hfail : p.poolVdf = [] ∧ a.proof prove p = []
        · -- the prover fails after the tick has moved
          rw [if_pos hfail, sound_iff_of_call prove (call_eq prove hvalid hhex
            (updateVdf_failed hnew₀ hfail.1 hfail.2) rfl)]
          constructor
          · intro h
            exact ⟨(congrArg (·.2.1) (h.2 rfl).triple).symm, (h.2 rfl).lastCtx.symm⟩
          · rintro ⟨htick, hbetween⟩
            have htriple : (m.vdfHex, p.selfTick, m.parentHashHex) = m.triple := by
              rw [← htick, Miner.triple]
            exact ⟨hs.congr prove htriple, fun _ =>
              ⟨htriple, rfl, rfl, rfl, hbetween.symm, rfl⟩⟩
        · rw [if_neg hfail]
          obtain ⟨proved, hv⟩ := updateVdf_new hnew₀ hfail
          have hcall := call_eq prove hvalid hhex hv rfl
          rw [if_neg (show ¬ true = false from nofun)] at hcall
          cases hacc : a.accepted with
          | false =>
            -- refused with the new triple already in place
            rw [hacc, if_pos rfl] at hcall
            rw [sound_iff_of_call prove hcall]
            refine ⟨fun h => absurd (h.2 rfl).triple (triple_ne_of_new hnew hfail p.tick), nofun⟩
          | true =>
            rw [hacc, if_neg (show ¬ true = false from nofun)] at hcall
            rw [sound_iff_of_call prove hcall]
            refine ⟨fun _ => rfl, fun _ => ⟨?_, nofun⟩⟩
            exact congrArg (·, p.tick, p.parent) (proof_eq prove hfail)
      · rw [if_neg hnew]
        have hcall := call_eq prove hvalid hhex
          (@updateVdf_kept _ _ (a.proof prove p)
            (show ¬ Miner.newVdf { m with lastCtx := fun _ => none } p from hnew)) rfl
        rw [if_neg (show ¬ true = false from nofun)] at hcall
        cases hacc : a.accepted with
        | false =>
          rw [hacc, if_pos rfl] at hcall
          rw [sound_iff_of_call prove hcall, if_neg (show ¬ false = true from nofun)]
          exact ⟨fun h => leftAlone_cleared_iff.1 (h.2 rfl),
            fun h => ⟨hs.congr prove rfl, fun _ => leftAlone_cleared_iff.2 h⟩⟩
        | true =>
          rw [hacc, if_neg (show ¬ true = false from nofun)] at hcall
          rw [sound_iff_of_call prove hcall, if_pos rfl]
          exact ⟨fun h => h.1, fun h => ⟨h, nofun⟩⟩
    · -- the exception: no return value to speak of
      have hcall : a.call prove m p = none := by
        unfold Attempt.call Miner.setJob
        rw [if_neg hbad]
        exact if_pos (eq_false_of_ne_true hhex)
      unfold TripleSound
      dsimp only
      rw [hcall]
      exact ⟨fun _ h => absurd h hhex, fun _ _ _ h => nomatch h⟩

end Step

/-! ## Runs -/

/-- **What `on_logits` may change**: a part of the miner that does not see these fields is left
alone. -/
theorem onLogits_frame {α : Type} (f : Miner → α)
    (hf : ∀ (m : Miner) coord lastCtx promptLen seqOrigin egress nonceSeq droppedLowcred pendingQ
      hist, f { m with coord, lastCtx, promptLen, seqOrigin, egress, nonceSeq, droppedLowcred
                       pendingQ, hist } = f m)
    (m : Miner) (seq nVocab : Nat) (context : List Int) (o : StepOutcome) :
    f (m.onLogits seq nVocab context o).1 = f m := by
  have hdrain : ∀ (m : Miner) recv, f (m.drain recv) = f m := by
    intro m recv
    obtain ⟨_, _, _, _, _, he⟩ := Miner.drain_eq m recv
    rw [he]
    exact hf m _ _ _ _ _ _ _ _ _
  have hcheck : ∀ m : Miner, f (m.checkWindow seq o).1 = f m := by
    intro m
    obtain ⟨_, _, he⟩ := Miner.checkWindow_eq m seq o
    rw [he]
    exact hf m _ _ _ _ _ _ _ _ _
  have hretire : ∀ m : Miner, f (m.retire seq) = f m := fun m => hf m _ _ _ _ _ _ _ _ _
  have hrecord : ∀ (m : Miner) token, f (m.recordStep seq token) = f m :=
    fun m _ => hf m _ _ _ _ _ _ _ _ _
  have hbegin : f ((m.enter seq context).beginSample seq) = f m := by
    refine (hf (m.enter seq context) _ _ _ _ _ _ _ _ _).trans ?_
    unfold Miner.enter
    dsimp only
    split <;> exact hf m _ _ _ _ _ _ _ _ _
  unfold Miner.onLogits
  split
  · rfl
  · unfold Miner.sample
    dsimp only
    split
    · split
      · exact (hretire _).trans hbegin
      · unfold Miner.accept
        dsimp only
        split
        · rw [hdrain, hrecord, hbegin]
        · split
          · rw [hcheck, hrecord, hbegin]
          · rw [hdrain, hretire, hcheck, hrecord, hbegin]
    · exact hbegin

/-- `on_logits` leaves the triple alone. -/
theorem onLogits_triple (m : Miner) (seq nVocab : Nat) (context : List Int) (o : StepOutcome) :
    (m.onLogits seq nVocab context o).1.triple = m.triple :=
  onLogits_frame Miner.triple (fun _ _ _ _ _ _ _ _ _ _ => rfl) m seq nVocab context o

/-- **In every run each `set_job` is sound exactly when each meets the condition.** -/
theorem triple_sound_iff (prove : Bytes → Nat → Bytes) (nStreams : Nat) (es : List VdfEvent) :
    (vdfMachine prove nStreams).Guarded (TripleSound prove) (vdfMachine prove nStreams).init es ↔
      (vdfMachine prove nStreams).Guarded (fun s e => KeepsTriple prove s.1 e)
        (vdfMachine prove nStreams).init es := by
  refine (vdfMachine prove nStreams).guarded_congr_of_kept (I := fun s => Settled prove s.1 s.2)
    ?_ ?_ rfl
  · intro s e t hs hok ht
    cases e with
    | setJob p a =>
      obtain ⟨⟨m', ok⟩, hr, rfl⟩ := Option.map_eq_some_iff.1 ht
      exact (hok m' ok hr).1
    | onLogits seq nVocab context o =>
      cases ht
      exact hok
  · rintro ⟨m, last⟩ e hs
    cases e with
    | setJob p a => exact setJob_sound_iff prove hs
    | onLogits seq nVocab context o =>
      exact iff_of_true (hs.congr prove (onLogits_triple m seq nVocab context o)) trivial

/-- A job on a parent of zeros with a pool-issued VDF. -/
def pooledJob (tick : Nat) : PoiJobParams :=
  { headerPrefix := List.replicate 152 48, poolVdf := [97, 97], poolVdfTick := tick, valid := true }

/-- **The pool raises the tick and leaves the VDF as it was**: the call returns true and the triple
keeps the old tick. -/
theorem triple_keeps_tick :
    ¬ (vdfMachine (fun _ _ => [98]) 1).Guarded (TripleSound fun _ _ => [98])
      (vdfMachine (fun _ _ => [98]) 1).init
      [.setJob (pooledJob 2000) {}, .setJob (pooledJob 3000) {}] := by
  rintro ⟨-, h⟩
  have hrun : ((vdfMachine (fun _ _ => [98]) 1).step (vdfMachine (fun _ _ => [98]) 1).init
      (.setJob (pooledJob 2000) {})).bind (fun s =>
        (Attempt.call (fun _ _ => [98]) {} s.1 (pooledJob 3000)).map fun r => (r.1.vdfTick, r.2)) =
      some (2000, true) := by decide +kernel
  obtain ⟨s, hs, hcall⟩ := Option.bind_eq_some_iff.1 hrun
  obtain ⟨⟨m', ok⟩, hr, heq⟩ := Option.map_eq_some_iff.1 hcall
  obtain ⟨htick, rfl⟩ := Prod.mk.inj heq
  have hsettled : m'.triple = (pooledJob 3000).triple fun _ _ => [98] := ((h s hs).1 m' true hr).1
  have htick' : m'.vdfTick = 3000 := congrArg (·.2.1) hsettled
  exact absurd (htick.symm.trans htick') (by decide)

end Poi
