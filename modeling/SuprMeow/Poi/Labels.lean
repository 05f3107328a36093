import SuprMeow.Poi.Windows

/-!
# Labels of shares

`on_logits` labels a share with what `job_by_req` holds under the proof's request id and with the
current `vdf_tick_`, both read when the proof is drained, which may be many jobs after it was
emitted.

* `shares_labelled` — when no job accepted while a proof waits takes over its request id or moves
  the tick, every share carries the labels of the call it was mined under;
* `share_mislabelled` — two jobs with request id 0.
-/

set_option autoImplicit false

namespace Poi

open Stratum (Bytes)
open KeyedList

/-! ## Runs of one miner -/

inductive MinerEvent where
  | setJob (p : PoiJobParams) (o : JobOutcome)
  | onLogits (seq nVocab : Nat) (context : List Int) (o : StepOutcome)

def Miner.step (m : Miner) : MinerEvent → Option Miner
  | .setJob p o => (m.setJob p o).map (·.1)
  | .onLogits seq nVocab context o => some (m.onLogits seq nVocab context o).1

/-- A miner of `nStreams` sequences before its first job. -/
def minerMachine (nStreams : Nat) : Runs.Machine Miner MinerEvent where
  init := { nStreams }
  step := Miner.step

/-! ## The condition -/

/-- The job's VDF is not the one in place. -/
def Miner.newVdf (m : Miner) (p : PoiJobParams) : Prop :=
  if p.poolVdf ≠ [] then p.poolVdf ≠ m.vdfHex ∨ p.parent ≠ m.parentHashHex
  else p.parent ≠ m.parentHashHex ∨ m.vdfHex = []

instance (m : Miner) (p : PoiJobParams) : Decidable (m.newVdf p) :=
  inferInstanceAs (Decidable (ite _ _ _))

/-- The tick of the job's VDF. -/
def PoiJobParams.tick (p : PoiJobParams) : Nat := if p.poolVdf ≠ [] then p.poolTick else p.selfTick

/-- A proof that waits was mined under this job id and height, or names another request. -/
def Proof.Spared (pr : Proof) (p : PoiJobParams) : Prop :=
  pr.reqId = p.requestId → p.jobId = pr.origin.jobId ∧ p.height = pr.origin.height

instance (pr : Proof) (p : PoiJobParams) : Decidable (pr.Spared p) :=
  inferInstanceAs (Decidable (_ → _))

/-- While a proof waits, a `set_job` that gets past the job check brings no other tick, and one
that is accepted takes no waiting proof's request id; no proof is emitted between a failed
`set_job` that moved the tick and the next that succeeds. -/
def KeepsLabels (m : Miner) : MinerEvent → Prop
  | .setJob p o =>
    p.valid = true ∧ p.headerPrefix.length = 152 →
      (m.egress ≠ [] → m.newVdf p → p.tick = m.vdfTick) ∧
      (o.accepted = true ∧ ¬ (p.poolVdf = [] ∧ m.newVdf p ∧ o.vdfProof = []) →
        ∀ pr ∈ m.egress, pr.Spared p)
  | .onLogits _ _ _ o =>
    match o.check with
    | .emit .. => m.params.tick = m.vdfTick
    | _ => True

instance : ∀ m e, Decidable (KeepsLabels m e)
  | m, .setJob p o =>
    inferInstanceAs (Decidable (p.valid = true ∧ p.headerPrefix.length = 152 →
      (m.egress ≠ [] → m.newVdf p → p.tick = m.vdfTick) ∧
      (o.accepted = true ∧ ¬ (p.poolVdf = [] ∧ m.newVdf p ∧ o.vdfProof = []) →
        ∀ pr ∈ m.egress, pr.Spared p)))
  | m, .onLogits _ _ _ o =>
    match h : o.check with
    | .emit .. => decidable_of_iff (m.params.tick = m.vdfTick) (by simp [KeepsLabels, h])
    | .quiet => isTrue (by simp [KeepsLabels, h])
    | .throws => isTrue (by simp [KeepsLabels, h])

/-! ## The invariant -/

/-- The entries under a request id name the label's job and height. -/
def Names (jobs : List (Nat × PoiJobParams)) (reqId : Nat) (l : Label) : Prop :=
  ∀ e ∈ jobs, e.1 = reqId → e.2.jobId = l.jobId ∧ e.2.height = l.height

theorem Names.sublist {jobs jobs' : List (Nat × PoiJobParams)} {reqId : Nat} {l : Label}
    (h : Names jobs reqId l) (hs : jobs'.Sublist jobs) : Names jobs' reqId l :=
  fun e he => h e (hs.subset he)

namespace Miner

structure Labelling (m : Miner) : Prop where
  keys : (m.jobByReq.map (·.1)).Nodup
  /-- A sequence with a context has the parameters of the miner. -/
  active : ∀ seq, m.lastCtx seq ≠ none → ∀ p, m.coord.params seq = some p →
    p = m.params ∧ m.seqOrigin seq = m.origin
  tick : m.origin.vdfTick = m.params.tick
  job : Names m.jobByReq m.params.requestId m.origin
  waiting : ∀ pr ∈ m.egress, pr.origin.vdfTick = m.vdfTick ∧ Names m.jobByReq pr.reqId pr.origin
  enqueued : ∀ s ∈ m.hist.enqueued, s.Labelled

/-- What touches only the coordinator and the contexts keeps the invariant. -/
theorem Labelling.touch {m : Miner} (h : Labelling m) {coord : Coordinator PowParams}
    {lastCtx : Nat → Option Nat} {promptLen : Nat → Nat}
    (hp : ∀ seq p, coord.params seq = some p → m.coord.params seq = some p)
    (hl : ∀ seq, lastCtx seq ≠ none → m.lastCtx seq ≠ none) :
    Labelling { m with coord, lastCtx, promptLen } :=
  ⟨h.keys, fun seq hs p he => h.active seq (hl seq hs) p (hp seq p he), h.tick, h.job, h.waiting,
    h.enqueued⟩

end Miner

/-! ## Parameters of the sequences -/

namespace Coordinator

variable {P : Type}

theorem cleanup_params {c : Coordinator P} {seq t : Nat} {p : P}
    (h : (c.cleanupSequence seq).params t = some p) : c.params t = some p := by
  have hp : (c.cleanupSequence seq).params = Function.update c.params seq none := by
    unfold cleanupSequence
    dsimp only
    split
    · unfold freeRow clearRow
      dsimp only
      split <;> rfl
    · rfl
  rw [hp, Function.update_apply] at h
  split at h
  · cases h
  · exact h

theorem allocate_params {c c' : Coordinator P} {seq row : Nat}
    (h : c.allocateRow seq = some (c', row)) : c'.params = c.params := by
  unfold allocateRow at h
  split at h
  · cases h; rfl
  · split at h <;> cases h
    rfl

/-- `ensure_sequences` adds no parameters, though it may evict a sequence. -/
theorem ensure_params {c : Coordinator P} {seq t : Nat} {p : P}
    (h : (c.ensureSequence seq).params t = some p) : c.params t = some p := by
  unfold ensureSequence at h
  split at h
  · exact h
  · split at h
    · rename_i ha
      rwa [params_clearRow, allocate_params ha] at h
    · split at h
      · exact h
      · split at h
        · rename_i ha
          rw [params_clearRow, allocate_params ha] at h
          exact cleanup_params h
        · exact cleanup_params h

theorem begin_params (c : Coordinator P) (seq : Nat) : (c.beginSample seq).1.params = c.params := by
  unfold beginSample
  split
  · rfl
  · rename_i ha
    have hc := activate_cases ha
    split
    · rw [hc]
    · dsimp only
      split <;> rw [hc]

theorem record_params (c : Coordinator P) (seq : Nat) (token : Int) :
    (c.recordCompleteStep seq token).params = c.params := by
  unfold recordCompleteStep
  split <;> rfl

theorem check_params (c : Coordinator P) (seq : Nat) (cooling : Bool) :
    (c.checkSolutions seq cooling).1.params = c.params := by
  unfold checkSolutions
  split
  · rfl
  · split
    · rfl
    · rename_i ha
      have hc := activate_cases ha
      dsimp only
      split
      · split <;> rw [hc]
      · rw [hc]

end Coordinator

/-! ## `on_logits` -/

namespace Miner

theorem Labelling.enter {m : Miner} (h : Labelling m) (seq : Nat) (context : List Int) :
    Labelling (m.enter seq context) := by
  -- A sequence whose window starts here takes the miner's parameters.
  unfold Miner.enter
  dsimp only
  split
  · refine ⟨h.keys, fun t ht p hp => ?_, h.tick, h.job, h.waiting, h.enqueued⟩
    simp only [startWindow] at ht hp ⊢
    rw [show ∀ c : Coordinator PowParams, (c.setPromptTokens seq context).params = c.params from
      fun _ => rfl, Coordinator.updateForSequence_params] at hp
    by_cases hts : t = seq
    · subst hts
      rw [Function.update_self] at hp ⊢
      cases hp
      exact ⟨rfl, rfl⟩
    · rw [Function.update_of_ne hts] at ht hp ⊢
      exact h.active t ht p (Coordinator.ensure_params hp)
  · rename_i hs
    refine h.touch (fun _ _ hp => hp) fun t ht => ?_
    by_cases hts : t = seq
    · subst hts
      intro hn
      unfold startsWindow at hs
      rw [hn] at hs
      exact hs rfl
    · rwa [Function.update_of_ne hts] at ht

theorem Labelling.retire {m : Miner} (h : Labelling m) (seq : Nat) : Labelling (m.retire seq) := by
  refine h.touch (fun _ _ hp => Coordinator.cleanup_params hp) fun t ht => ?_
  by_cases hts : t = seq
  · subst hts
    exact absurd (Function.update_self _ _ _) ht
  · rwa [Function.update_of_ne hts] at ht

theorem Labelling.beginSample {m : Miner} (h : Labelling m) (seq : Nat) :
    Labelling (m.beginSample seq) :=
  h.touch (fun t p hp => by rwa [Coordinator.begin_params] at hp) fun _ hl => hl

theorem Labelling.recordStep {m : Miner} (h : Labelling m) (seq : Nat) (token : Int) :
    Labelling (m.recordStep seq token) :=
  h.touch (fun t p hp => by rwa [Coordinator.record_params] at hp) fun _ hl => hl

/-- A proof carries the label of the parameters it was mined under. -/
theorem Labelling.conclude {m : Miner} (h : Labelling m) {seq : Nat} (hctx : m.lastCtx seq ≠ none)
    {o : CheckOutcome} (hok : ∀ a l, o = .emit a l → m.params.tick = m.vdfTick) :
    Labelling (m.conclude seq o).1 := by
  unfold Miner.conclude
  split
  · exact h
  · exact h
  · rename_i achievedHex lowCredit
    split
    · exact h
    · rename_i p hp
      obtain ⟨rfl, ho⟩ := h.active seq hctx p hp
      split
      · exact h
      · refine ⟨h.keys, h.active, h.tick, h.job, fun pr hpr => ?_, h.enqueued⟩
        rcases List.mem_append.1 hpr with hpr | hpr
        · exact h.waiting pr hpr
        · obtain rfl := List.mem_singleton.1 hpr
          refine ⟨?_, ?_⟩
          · exact (congrArg Label.vdfTick ho).trans (h.tick.trans (hok _ _ rfl))
          · change Names m.jobByReq m.params.requestId (m.seqOrigin seq)
            rw [ho]
            exact h.job

theorem Labelling.checkWindow {m : Miner} (h : Labelling m) {seq : Nat}
    (hctx : m.lastCtx seq ≠ none) {o : StepOutcome}
    (hok : ∀ a l, o.check = .emit a l → m.params.tick = m.vdfTick) :
    Labelling (m.checkWindow seq o).1 := by
  have hc : Labelling { m with coord := (m.coord.checkSolutions seq o.cooling).1 } :=
    h.touch (fun t p hp => by rwa [Coordinator.check_params] at hp) fun _ hl => hl
  unfold Miner.checkWindow
  dsimp only
  split
  · exact hc
  · exact hc.conclude hctx hok

/-- **What the drain enqueues is labelled as its proof was mined.** -/
theorem Labelling.receive {m : Miner} (h : Labelling m) {pr : Proof}
    (ht : pr.origin.vdfTick = m.vdfTick) (hn : Names m.jobByReq pr.reqId pr.origin) :
    Labelling (m.receive pr) := by
  unfold Miner.receive
  split
  · exact ⟨h.keys, h.active, h.tick, h.job, h.waiting, h.enqueued⟩
  · rename_i e he
    have hkey : e.1 = pr.reqId := by simpa using List.find?_some he
    obtain ⟨hjob, hheight⟩ := hn e (List.mem_of_find?_eq_some he) hkey
    dsimp only
    split
    · exact ⟨h.keys, h.active, h.tick, h.job, h.waiting, h.enqueued⟩
    · split
      · exact ⟨h.keys, h.active, h.tick, h.job, h.waiting, h.enqueued⟩
      · refine ⟨h.keys, h.active, h.tick, h.job, h.waiting, fun s hs => ?_⟩
        rcases List.mem_append.1 hs with hs | hs
        · exact h.enqueued s hs
        · obtain rfl := List.mem_singleton.1 hs
          exact ⟨hjob, hheight, ht.symm⟩

theorem Labelling.drain {m : Miner} (h : Labelling m) (recv : Bool) : Labelling (m.drain recv) := by
  unfold Miner.drain
  split
  · rename_i pr rest he
    obtain ⟨ht, hn⟩ := h.waiting pr (he ▸ List.mem_cons_self)
    have hrest : Labelling { m with
        egress := rest
        hist := { m.hist with received := m.hist.received + 1 } } :=
      ⟨h.keys, h.active, h.tick, h.job,
        fun q hq => h.waiting q (he ▸ List.mem_cons_of_mem pr hq), h.enqueued⟩
    exact hrest.receive ht hn
  · exact h

theorem Labelling.accept {m : Miner} (h : Labelling m) {seq : Nat} (hctx : m.lastCtx seq ≠ none)
    (token : Int) (steps : Nat) (sampled : Option (Nat × Option (List Int))) {o : StepOutcome}
    (hok : ∀ a l, o.check = .emit a l → m.params.tick = m.vdfTick) :
    Labelling (m.accept seq token steps sampled o).1 := by
  have hr := h.recordStep seq token
  unfold Miner.accept
  dsimp only
  split
  · exact hr.drain o.recv
  · have hc : Labelling ((m.recordStep seq token).checkWindow seq o).1 := hr.checkWindow hctx hok
    split
    · exact hc
    · exact (hc.retire seq).drain o.recv

theorem Labelling.onLogits {m : Miner} (h : Labelling m) (seq nVocab : Nat) (context : List Int)
    {o : StepOutcome} (hok : ∀ a l, o.check = .emit a l → m.params.tick = m.vdfTick) :
    Labelling (m.onLogits seq nVocab context o).1 := by
  unfold Miner.onLogits
  split
  · exact h
  · have he := h.enter seq context
    have hparams : (m.enter seq context).params = m.params ∧
        (m.enter seq context).vdfTick = m.vdfTick := by
      unfold Miner.enter
      dsimp only
      split <;> exact ⟨rfl, rfl⟩
    have hctx : (m.enter seq context).lastCtx seq ≠ none := by
      rw [enter_lastCtx]
      exact Option.some_ne_none _
    rw [← hparams.1, ← hparams.2] at hok
    unfold Miner.sample
    dsimp only
    have hb := he.beginSample seq
    split
    · split
      · exact hb.retire seq
      · exact hb.accept hctx _ _ _ hok
    · exact hb

end Miner

/-! ## `set_job` -/

theorem mem_insertJob {l : List (Nat × PoiJobParams)} (hk : (l.map (·.1)).Nodup)
    {p : PoiJobParams} {e : Nat × PoiJobParams} (h : e ∈ Miner.insertJob l p) :
    e = (p.requestId, p) ∨ e ∈ l ∧ e.1 ≠ p.requestId := by
  unfold Miner.insertJob at h
  rw [eraseP_eq_filter hk] at h
  rcases List.mem_append.1 h with h | h
  · obtain ⟨hm, hne⟩ := List.mem_filter.1 h
    exact .inr ⟨hm, by simpa using hne⟩
  · exact .inl (List.mem_singleton.1 h)

theorem nodup_insertJob {l : List (Nat × PoiJobParams)} (hk : (l.map (·.1)).Nodup)
    (p : PoiJobParams) : ((Miner.insertJob l p).map (·.1)).Nodup := by
  unfold Miner.insertJob
  rw [eraseP_eq_filter hk, List.map_append, List.nodup_append]
  refine ⟨hk.sublist (List.filter_sublist.map _), List.nodup_singleton _, fun a ha b hb => ?_⟩
  obtain ⟨e, he, rfl⟩ := List.mem_map.1 ha
  obtain rfl : b = p.requestId := List.mem_singleton.1 hb
  simpa using (List.mem_filter.1 he).2

theorem evict_sublist (jobId : Bytes) (scan : List Nat) (l : List (Nat × PoiJobParams)) :
    (Miner.evict jobId scan l).Sublist l := by
  induction scan generalizing l with
  | nil => exact List.Sublist.refl l
  | cons k ks ih =>
    unfold Miner.evict
    split
    · exact List.Sublist.refl l
    · split
      · exact (ih _).trans List.eraseP_sublist
      · exact ih l

/-- The tick after the VDF part. -/
theorem updateVdf_tick (m : Miner) (p : PoiJobParams) (vdfProof : Bytes) :
    (m.updateVdf p vdfProof).1.vdfTick = if m.newVdf p then p.tick else m.vdfTick := by
  unfold Miner.updateVdf Miner.newVdf PoiJobParams.tick
  by_cases hp : p.poolVdf ≠ []
  · simp only [if_pos hp]
    split <;> rfl
  · simp only [if_neg hp]
    split
    · split <;> rfl
    · rfl

/-- The prover's failure is the only one of the VDF part. -/
theorem updateVdf_ok {m : Miner} {p : PoiJobParams} {vdfProof : Bytes}
    (h : (m.updateVdf p vdfProof).2 = true) :
    ¬ (p.poolVdf = [] ∧ m.newVdf p ∧ vdfProof = []) := by
  rintro ⟨hp, hn, hv⟩
  have hpool : ¬ p.poolVdf ≠ [] := fun hne => hne hp
  unfold Miner.newVdf at hn
  rw [if_neg hpool] at hn
  unfold Miner.updateVdf at h
  rw [if_neg hpool, if_pos hn, if_pos hv] at h
  cases h

namespace Miner

/-- The VDF part, while no waiting proof sees another tick. -/
theorem Labelling.updateVdf {m : Miner} (h : Labelling m) {p : PoiJobParams} (vdfProof : Bytes)
    (hok : m.egress ≠ [] → m.newVdf p → p.tick = m.vdfTick) :
    Labelling (m.updateVdf p vdfProof).1 := by
  have htick : m.egress ≠ [] → (m.updateVdf p vdfProof).1.vdfTick = m.vdfTick := by
    intro hne
    rw [updateVdf_tick]
    split
    · rename_i hn
      exact hok hne hn
    · rfl
  obtain ⟨hex, tick, parent, proved, hv⟩ := updateVdf_eq m p vdfProof
  rw [hv] at htick ⊢
  refine ⟨h.keys, h.active, h.tick, h.job, fun pr hpr => ?_, h.enqueued⟩
  exact ⟨(h.waiting pr hpr).1.trans (htick (List.ne_nil_of_mem hpr)).symm, (h.waiting pr hpr).2⟩

/-- An accepted job takes over its request id; the waiting proofs are spared. -/
theorem Labelling.install {m : Miner} (h : Labelling m) (hctx : ∀ seq, m.lastCtx seq = none)
    {p : PoiJobParams} (scan : List Nat) (hok : ∀ pr ∈ m.egress, pr.Spared p) :
    Labelling (m.install p scan) := by
  have hsub : ∀ {l : List (Nat × PoiJobParams)} {P : List (Nat × PoiJobParams) → Prop},
      P l → P (Miner.evict p.jobId scan l) →
      P (if 16 < l.length then Miner.evict p.jobId scan l else l) := by
    intro l P h₁ h₂
    split
    · exact h₂
    · exact h₁
  have hnames : ∀ {reqId : Nat} {l : Label},
      Names (insertJob m.jobByReq p) reqId l → Names (m.install p scan).jobByReq reqId l := by
    intro reqId l hn
    exact hsub (P := fun jobs => Names jobs reqId l) hn (hn.sublist (evict_sublist _ _ _))
  refine ⟨?_, fun seq hs => absurd (hctx seq) hs, rfl, hnames ?_, fun pr hpr => ?_, h.enqueued⟩
  · have hk := nodup_insertJob h.keys p
    exact hsub (P := fun jobs => (jobs.map (·.1)).Nodup) hk
      (hk.sublist ((evict_sublist _ _ _).map _))
  · intro e he hk
    rcases mem_insertJob h.keys he with rfl | ⟨-, hne⟩
    · exact ⟨rfl, rfl⟩
    · exact absurd hk hne
  · obtain ⟨ht, hn⟩ := h.waiting pr hpr
    refine ⟨ht, hnames fun e he hk => ?_⟩
    rcases mem_insertJob h.keys he with rfl | ⟨hm, -⟩
    · exact hok pr hpr hk.symm
    · exact hn e hm hk

theorem Labelling.setJob {m m' : Miner} (h : Labelling m) {p : PoiJobParams} {o : JobOutcome}
    {ok : Bool} (hok : KeepsLabels m (.setJob p o)) (hj : m.setJob p o = some (m', ok)) :
    Labelling m' := by
  have h₀ : Labelling { m with lastCtx := fun _ => none } :=
    h.touch (fun _ _ hp => hp) fun _ hl => absurd rfl hl
  unfold Miner.setJob at hj
  dsimp only at hj
  split at hj
  · cases hj
    exact h₀
  · rename_i hshape
    have hwf : p.valid = true ∧ p.headerPrefix.length = 152 := by
      refine ⟨?_, ?_⟩
      · cases hv : p.valid with
        | true => rfl
        | false => exact absurd (.inl hv) hshape
      · exact Decidable.not_not.1 fun hl => hshape (.inr hl)
    obtain ⟨hvdf, hreq⟩ := hok hwf
    have h₁ := h₀.updateVdf (p := p) o.vdfProof hvdf
    split at hj
    · cases hj
    · split at hj
      · cases hj
        exact h₁
      · rename_i hv
        split at hj
        · cases hj
          exact h₁.touch (fun _ _ hp => hp) fun _ hl => hl
        · rename_i hacc
          split at hj
          · cases hj
          · cases hj
            have hv' := updateVdf_ok (eq_true_of_ne_false hv)
            have hall := hreq ⟨eq_true_of_ne_false hacc, hv'⟩
            obtain ⟨hex, tick, parent, proved, he⟩ :=
              updateVdf_eq { m with lastCtx := fun _ => none } p o.vdfProof
            rw [he] at h₁ ⊢
            exact h₁.install (fun _ => rfl) o.scan hall

end Miner

/-! ## Runs -/

theorem Miner.Labelling.step {m m' : Miner} {e : MinerEvent} (h : m.Labelling)
    (hok : KeepsLabels m e) (hs : m.step e = some m') : m'.Labelling := by
  cases e with
  | setJob p o =>
    obtain ⟨⟨m₁, ok⟩, hj, rfl⟩ := Option.map_eq_some_iff.1 hs
    exact h.setJob hok hj
  | onLogits seq nVocab context o =>
    cases hs
    refine h.onLogits seq nVocab context fun a l he => ?_
    simpa only [KeepsLabels, he] using hok

/-- **In every run that keeps the labels of waiting proofs, every share enqueued carries the job
id, the height and the tick of the `set_job` call it was mined under.** -/
theorem shares_labelled {nStreams : Nat} {es : List MinerEvent} {m : Miner}
    (hok : (minerMachine nStreams).Guarded KeepsLabels (minerMachine nStreams).init es)
    (h : (minerMachine nStreams).exec (minerMachine nStreams).init es = some m) :
    ∀ s ∈ m.hist.enqueued, s.Labelled := by
  refine ((minerMachine nStreams).guarded_invariant (I := Miner.Labelling)
    (fun _ _ _ hI hg hs => hI.step hg hs) ?_ hok h).enqueued
  exact ⟨List.nodup_nil, fun _ hs => absurd rfl hs, rfl, nofun, nofun, nofun⟩

/-- A job, a whole window whose solution stays in the egress, another job, and the call that
receives it. -/
def delayed (next : PoiJobParams) : List MinerEvent :=
  .setJob { plainJob 1 with height := 7 } {} ::
    (List.range windowSize).map (fun i =>
      .onLogits 0 10 ([1, 2] ++ List.replicate i 5) { draw := some 5, check := .emit [1] false }) ++
    [.setJob next {}, .onLogits 0 10 [1, 2] { draw := some 5, recv := true }]

/-- With a request id of its own the next job does not get the share. -/
theorem shares_labelled_delayed :
    ∃ m, (minerMachine 1).exec (minerMachine 1).init
        (delayed { plainJob 2 with requestId := 1 }) = some m ∧
      m.hist.enqueued.length = 1 ∧ ∀ s ∈ m.hist.enqueued, s.Labelled := by
  have hrun : ((minerMachine 1).exec (minerMachine 1).init
      (delayed { plainJob 2 with requestId := 1 })).map (·.hist.enqueued.length) = some 1 := by
    decide +kernel
  obtain ⟨m, hm, hlen⟩ := Option.map_eq_some_iff.1 hrun
  exact ⟨m, hm, hlen, shares_labelled (by decide +kernel) hm⟩

/-- Both jobs carry request id 0: the share of job 1 is labelled with job 2. -/
theorem share_mislabelled :
    ¬ ∀ m, (minerMachine 1).exec (minerMachine 1).init (delayed (plainJob 2)) = some m →
      ∀ s ∈ m.hist.enqueued, s.Labelled := by
  intro h
  have hrun : ((minerMachine 1).exec (minerMachine 1).init (delayed (plainJob 2))).map
      (fun m => m.hist.enqueued.map fun s => (s.jobId, s.proof.origin.jobId)) =
        some [([2], [1])] := by
    decide +kernel
  obtain ⟨m, hm, hlabels⟩ := Option.map_eq_some_iff.1 hrun
  have hmem : ([2], [1]) ∈ m.hist.enqueued.map fun s => (s.jobId, s.proof.origin.jobId) := by
    rw [hlabels]
    exact List.mem_singleton_self _
  obtain ⟨s, hs, he⟩ := List.mem_map.1 hmem
  have hjob : s.jobId = [2] := congrArg Prod.fst he
  have horigin : s.proof.origin.jobId = [1] := congrArg Prod.snd he
  have hlabel := (h m hm s hs).1
  rw [hjob, horigin] at hlabel
  exact absurd hlabel (by decide)

end Poi
