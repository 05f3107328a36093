import SuprMeow.Poi.Labels
import SuprMeow.Poi.Mining

/-!
# All groups mine the current job

`mine_device` fans a job out when its first group of pool A is not ready or holds another job id;
otherwise it takes for granted that every group has the job of the snapshot.

* `groups_current` — when every batch that skips the fan-out follows a complete one of the same
  parameters, every group mines the snapshot;
* `groups_not_current` — a job notified again under its id with another header.
-/

set_option autoImplicit false

namespace Poi

open Stratum (Bytes)

/-! ## What the groups should hold -/

/-- **The miner is ready with the parameters of `p`.** -/
structure Miner.Mines (m : Miner) (p : PoiJobParams) : Prop where
  ready : m.ready = true
  headerPrefix : m.params.headerPrefix = p.headerPrefix
  blockHash : m.params.blockHash = p.parent
  target : m.params.target = p.blockTarget
  shareTarget : m.params.shareTarget = p.shareTarget
  modelIdentifier : m.params.modelIdentifier = p.modelIdentifier
  difficulty : m.params.difficulty = p.modelDifficulty
  requestId : m.params.requestId = p.requestId
  /-- The pool's VDF verbatim, or one proved here. -/
  vdf : p.poolVdf ≠ [] → m.params.vdf = p.poolVdf
  proved : p.poolVdf = [] → m.jobProved = true
  tick : m.params.tick = p.tick

/-- Every group of the batch mines the snapshot it started from. -/
def Start.Current (cfg : Config) (st : Start) : Prop :=
  ∀ mi ∈ st.groups, mi.Mines (cfg.jobParams st.job st.model)

/-- The jobs give the same parameters. -/
structure PoiJobParams.Same (p q : PoiJobParams) : Prop where
  headerPrefix : p.headerPrefix = q.headerPrefix
  blockTarget : p.blockTarget = q.blockTarget
  shareTarget : p.shareTarget = q.shareTarget
  modelIdentifier : p.modelIdentifier = q.modelIdentifier
  modelDifficulty : p.modelDifficulty = q.modelDifficulty
  requestId : p.requestId = q.requestId
  poolVdf : p.poolVdf = q.poolVdf
  tick : p.tick = q.tick

instance (p q : PoiJobParams) : Decidable (p.Same q) :=
  decidable_of_iff (p.headerPrefix = q.headerPrefix ∧ p.blockTarget = q.blockTarget ∧
      p.shareTarget = q.shareTarget ∧ p.modelIdentifier = q.modelIdentifier ∧
      p.modelDifficulty = q.modelDifficulty ∧ p.requestId = q.requestId ∧
      p.poolVdf = q.poolVdf ∧ p.tick = q.tick)
    ⟨fun ⟨h₁, h₂, h₃, h₄, h₅, h₆, h₇, h₈⟩ => ⟨h₁, h₂, h₃, h₄, h₅, h₆, h₇, h₈⟩,
      fun ⟨h₁, h₂, h₃, h₄, h₅, h₆, h₇, h₈⟩ => ⟨h₁, h₂, h₃, h₄, h₅, h₆, h₇, h₈⟩⟩

theorem Miner.Mines.congr {m : Miner} {p q : PoiJobParams} (h : m.Mines p) (hs : p.Same q) :
    m.Mines q where
  ready := h.ready
  headerPrefix := h.headerPrefix.trans hs.headerPrefix
  blockHash := h.blockHash.trans (by unfold PoiJobParams.parent; rw [hs.headerPrefix])
  target := h.target.trans hs.blockTarget
  shareTarget := h.shareTarget.trans hs.shareTarget
  modelIdentifier := h.modelIdentifier.trans hs.modelIdentifier
  difficulty := h.difficulty.trans hs.modelDifficulty
  requestId := h.requestId.trans hs.requestId
  vdf hq := (h.vdf (hs.poolVdf ▸ hq)).trans hs.poolVdf
  proved hq := h.proved (hs.poolVdf.trans hq)
  tick := h.tick.trans hs.tick

/-! ## The condition -/

/-- The job replaces the VDF in place, or that one is of its source and tick. -/
def Miner.suits (m : Miner) (p : PoiJobParams) : Prop :=
  m.newVdf p ∨ m.vdfTick = p.tick ∧ (p.poolVdf = [] → m.provedHere = true)

instance (m : Miner) (p : PoiJobParams) : Decidable (m.suits p) :=
  inferInstanceAs (Decidable (_ ∨ _))

/-- The last fan-out that got past the first group was complete and of these parameters. -/
def Worker.holds (wk : Worker) (p : PoiJobParams) : Prop :=
  match wk.fan with
  | none => False
  | some f => f.params.Same p ∧ f.all = true ∧ (wk.doubleOk = true → f.allB = true)

instance (wk : Worker) (p : PoiJobParams) : Decidable (wk.holds p) :=
  match h : wk.fan with
  | none => isFalse (by simp [Worker.holds, h])
  | some f =>
    decidable_of_iff (f.params.Same p ∧ f.all = true ∧ (wk.doubleOk = true → f.allB = true))
      (by simp [Worker.holds, h])

/-- A worker that is about to start a batch skips the fan-out only when it would change nothing. -/
def Worker.mayStart (cfg : Config) (wk : Worker) (j : PoolJob) (m : PoolModel) : Prop :=
  usable j m = true → cfg.wrongModel m = false →
    (wk.inPlace j = true → wk.holds (cfg.jobParams j m)) ∧
    (wk.inPlace j = false → ∀ mi ∈ wk.groups, mi.suits (cfg.jobParams j m))

instance (cfg : Config) (wk : Worker) (j : PoolJob) (m : PoolModel) :
    Decidable (wk.mayStart cfg j m) := inferInstanceAs (Decidable (_ → _ → _ ∧ _))

def FansOut (cfg : Config) (s : Mine) : MineEvent → Prop
  | .prepare w _ _ =>
    match (s.workers w).phase with
    | .snapshot j m => (s.workers w).mayStart cfg j m
    | _ => True
  | _ => True

instance (cfg : Config) : ∀ s e, Decidable (FansOut cfg s e)
  | s, .prepare w _ _ =>
    match h : (s.workers w).phase with
    | .snapshot j m => decidable_of_iff ((s.workers w).mayStart cfg j m) (by simp [FansOut, h])
    | .test | .top | .batch .. | .left => isTrue (by simp [FansOut, h])
  | _, .setTarget _ | _, .notify _ | _, .setModel _ | _, .loop _ | _, .snapshot _
  | _, .call .. | _, .finish .. | _, .stop | _, .producersDone | _, .pop _ | _, .settle ..
  | _, .gone _ | _, .return => isTrue trivial

/-! ## Miners -/

namespace Miner

/-- What the parameters of a miner depend on. -/
structure Keeps (m m' : Miner) : Prop where
  params : m'.params = m.params
  ready : m'.ready = m.ready
  jobProved : m'.jobProved = m.jobProved

theorem Keeps.refl (m : Miner) : Keeps m m := ⟨rfl, rfl, rfl⟩

theorem Keeps.trans {m₁ m₂ m₃ : Miner} (h₁ : Keeps m₁ m₂) (h₂ : Keeps m₂ m₃) : Keeps m₁ m₃ :=
  ⟨h₂.params.trans h₁.params, h₂.ready.trans h₁.ready, h₂.jobProved.trans h₁.jobProved⟩

theorem Mines.keeps {m m' : Miner} {p : PoiJobParams} (h : m.Mines p) (hk : Keeps m m') :
    m'.Mines p := by
  obtain ⟨hp, hr, hj⟩ := hk
  refine ⟨?_, ?_, ?_, ?_, ?_, ?_, ?_, ?_, ?_, ?_, ?_⟩
  · rw [hr]; exact h.ready
  · rw [hp]; exact h.headerPrefix
  · rw [hp]; exact h.blockHash
  · rw [hp]; exact h.target
  · rw [hp]; exact h.shareTarget
  · rw [hp]; exact h.modelIdentifier
  · rw [hp]; exact h.difficulty
  · rw [hp]; exact h.requestId
  · rw [hp]; exact h.vdf
  · rw [hj]; exact h.proved
  · rw [hp]; exact h.tick

theorem drain_keeps (m : Miner) (recv : Bool) : Keeps m (m.drain recv) := by
  obtain ⟨e, n, l, p, h, he⟩ := drain_eq m recv
  rw [he]
  exact ⟨rfl, rfl, rfl⟩

theorem check_keeps (m : Miner) (seq : Nat) (o : StepOutcome) :
    Keeps m (m.checkWindow seq o).1 := by
  obtain ⟨e, h, he⟩ := checkWindow_eq m seq o
  rw [he]
  exact ⟨rfl, rfl, rfl⟩

theorem enter_keeps (m : Miner) (seq : Nat) (context : List Int) :
    Keeps m (m.enter seq context) := by
  unfold enter
  dsimp only
  split <;> exact ⟨rfl, rfl, rfl⟩

theorem accept_keeps (m : Miner) (seq : Nat) (token : Int) (steps : Nat)
    (sampled : Option (Nat × Option (List Int))) (o : StepOutcome) :
    Keeps m (m.accept seq token steps sampled o).1 := by
  have hr : Keeps m (m.recordStep seq token) := ⟨rfl, rfl, rfl⟩
  unfold accept
  dsimp only
  split
  · exact hr.trans (drain_keeps _ _)
  · have hc := hr.trans (check_keeps (m.recordStep seq token) seq o)
    split
    · exact hc
    · have ht : Keeps m (((m.recordStep seq token).checkWindow seq o).1.retire seq) :=
        hc.trans ⟨rfl, rfl, rfl⟩
      exact ht.trans (drain_keeps _ _)

/-- `on_logits` leaves the job alone. -/
theorem onLogits_keeps (m : Miner) (seq nVocab : Nat) (context : List Int) (o : StepOutcome) :
    Keeps m (m.onLogits seq nVocab context o).1 := by
  unfold onLogits
  split
  · exact Keeps.refl m
  · have he := enter_keeps m seq context
    have hb : Keeps (m.enter seq context) ((m.enter seq context).beginSample seq) :=
      ⟨rfl, rfl, rfl⟩
    unfold sample
    dsimp only
    split
    · split
      · exact (he.trans hb).trans ⟨rfl, rfl, rfl⟩
      · exact (he.trans hb).trans (accept_keeps _ seq _ _ _ o)
    · exact he.trans hb

/-- The VDF in place after the VDF part. -/
theorem updateVdf_source {m : Miner} {p : PoiJobParams} {vdfProof : Bytes} (hs : m.suits p)
    (h : (m.updateVdf p vdfProof).2 = true) :
    (p.poolVdf ≠ [] → (m.updateVdf p vdfProof).1.vdfHex = p.poolVdf) ∧
    (p.poolVdf = [] → (m.updateVdf p vdfProof).1.provedHere = true) := by
  have hkeep : ¬ m.newVdf p → p.poolVdf = [] → m.provedHere = true := by
    intro hn
    exact (hs.resolve_left hn).2
  unfold Miner.newVdf at hkeep
  unfold Miner.updateVdf at h ⊢
  by_cases hp : p.poolVdf = []
  · have hn : ¬ p.poolVdf ≠ [] := fun h => h hp
    rw [if_neg hn] at h hkeep ⊢
    refine ⟨fun h => absurd hp h, fun _ => ?_⟩
    by_cases hv : p.parent ≠ m.parentHashHex ∨ m.vdfHex = []
    · rw [if_pos hv] at h ⊢
      split
      · rename_i hz
        rw [if_pos hz] at h
        cases h
      · rfl
    · rw [if_neg hv]
      exact hkeep hv hp
  · rw [if_pos hp]
    refine ⟨fun _ => ?_, fun h => absurd h hp⟩
    split
    · rfl
    · rename_i hv
      exact (Decidable.not_not.1 fun hne => hv (.inl hne)).symm

/-- **An accepted job is mined.** -/
theorem setJob_mines {m m' : Miner} {p : PoiJobParams} {o : JobOutcome} (hs : m.suits p)
    (h : m.setJob p o = some (m', true)) : m'.Mines p := by
  have hs₀ : Miner.suits { m with lastCtx := fun _ => none } p := hs
  unfold setJob at h
  dsimp only at h
  split at h
  · cases h
  · split at h
    · cases h
    · split at h
      · cases h
      · rename_i hv
        obtain ⟨hpool, hself⟩ := updateVdf_source hs₀ (eq_true_of_ne_false hv)
        have htick := updateVdf_tick { m with lastCtx := fun _ => none } p o.vdfProof
        have ht : (updateVdf { m with lastCtx := fun _ => none } p o.vdfProof).1.vdfTick =
            p.tick := by
          rw [htick]
          split
          · rfl
          · rename_i hn
            exact (hs₀.resolve_left hn).1
        split at h
        · cases h
        · split at h
          · cases h
          · cases h
            exact ⟨rfl, rfl, rfl, rfl, rfl, rfl, rfl, rfl, hpool, hself, ht⟩

/-- A refused job leaves the parameters of the last one. -/
theorem setJob_keeps {m m' : Miner} {p : PoiJobParams} {o : JobOutcome}
    (h : m.setJob p o = some (m', false)) : Keeps m m' := by
  obtain ⟨hex, tick, parent, proved, hv⟩ :=
    updateVdf_eq { m with lastCtx := fun _ => none } p o.vdfProof
  unfold setJob at h
  dsimp only at h
  rw [hv] at h
  split at h
  · cases h; exact ⟨rfl, rfl, rfl⟩
  · split at h
    · cases h
    · split at h
      · cases h; exact ⟨rfl, rfl, rfl⟩
      · split at h
        · cases h; exact ⟨rfl, rfl, rfl⟩
        · split at h <;> cases h

end Miner

/-! ## Workers -/

namespace Worker

/-- What the record of the last fan-out says of the groups. -/
structure FanInv (wk : Worker) : Prop where
  all : ∀ f, wk.fan = some f → f.all = true → ∀ m ∈ wk.pool, m.Mines f.params
  allB : ∀ f, wk.fan = some f → wk.doubleOk = true → f.allB = true →
    ∀ m ∈ wk.poolB, m.Mines f.params

/-- What the record promises holds of the groups of a batch. -/
theorem FanInv.groups {wk : Worker} (h : FanInv wk) {p : PoiJobParams} (hp : wk.holds p) :
    ∀ m ∈ wk.groups, m.Mines p := by
  unfold Worker.holds at hp
  cases hf : wk.fan with
  | none =>
    rw [hf] at hp
    exact hp.elim
  | some f =>
    rw [hf] at hp
    obtain ⟨hsame, hall, hallB⟩ := hp
    intro m hm
    rcases List.mem_append.1 hm with hm | hm
    · exact (h.all f hf hall m hm).congr hsame
    · split at hm
      · rename_i hd
        exact (h.allB f hf hd (hallB hd) m hm).congr hsame
      · cases hm

theorem FanInv.setPool {wk : Worker} (h : FanInv wk) {second : Bool} {pool : SamplerPool}
    (hk : ∀ m' ∈ pool, ∃ m ∈ wk.pools second, m.Keeps m') : FanInv (wk.setPool second pool) := by
  cases second with
  | false =>
    refine ⟨fun f hf ha m' hm => ?_, h.allB⟩
    obtain ⟨m, hm, hk⟩ := hk m' hm
    exact (h.all f hf ha m hm).keeps hk
  | true =>
    refine ⟨h.all, fun f hf hd ha m' hm => ?_⟩
    obtain ⟨m, hm, hk⟩ := hk m' hm
    exact (h.allB f hf hd ha m hm).keeps hk

/-- Handing shares over leaves the jobs alone. -/
theorem takeShares_keeps (pool : SamplerPool) :
    ∀ m' ∈ pool.takeShares.2, ∃ m ∈ pool, m.Keeps m' := by
  intro m' hm
  obtain ⟨g, hg⟩ := List.mem_iff_getElem?.1 hm
  obtain ⟨m, pending, hpool, -, rfl⟩ := SamplerPool.takeShares_group hg
  exact ⟨m, List.mem_of_getElem? hpool, ⟨rfl, rfl, rfl⟩⟩

theorem FanInv.handOver {wk : Worker} (h : FanInv wk) (w device : Nat) :
    FanInv (wk.handOver w device).2 := by
  refine ⟨fun f hf ha m' hm => ?_, fun f hf hd ha m' hm => ?_⟩
  · obtain ⟨m, hm, hk⟩ := takeShares_keeps wk.pool m' hm
    exact (h.all f hf ha m hm).keeps hk
  · obtain ⟨m, hm, hk⟩ := takeShares_keeps wk.poolB m' hm
    exact (h.allB f hf hd ha m hm).keeps hk

/-- **A fan-out**: whatever it comes to, its record is true, and when it succeeds every group
mines the job. -/
theorem FanInv.fanOut {wk wk' : Worker} (h : FanInv wk) {p : PoiJobParams}
    {oa ob : List JobOutcome} {ok : Bool} (hs : ∀ m ∈ wk.groups, m.suits p)
    (hf : wk.fanOut p oa ob = some (wk', ok)) :
    FanInv wk' ∧ (ok = true → ∀ m ∈ wk'.groups, m.Mines p) := by
  have hsA : ∀ m ∈ wk.pool, m.suits p := fun m hm => hs m (List.mem_append_left _ hm)
  unfold Worker.fanOut at hf
  split at hf
  · cases hf
  · rename_i pool k hA
    cases hf
    refine ⟨?_, nofun⟩
    by_cases hk : k = 0
    · -- The first group refused: the record still describes the fan-out before.
      subst hk
      refine ⟨fun f hf ha => ?_, h.allB⟩
      exact SamplerPool.setJob_refused (fun m o m' hm hj => hm.keeps (Miner.setJob_keeps hj)) hA
        (h.all f hf ha)
    · rw [if_neg hk]
      exact ⟨fun f hf ha => (by cases hf; cases ha), fun f hf _ ha => (by cases hf; cases ha)⟩
  · rename_i pool k hA
    have hpool : ∀ m ∈ pool, m.Mines p :=
      SamplerPool.setJob_accepted (fun m hm o m' hj => Miner.setJob_mines (hsA m hm) hj) hA
    split at hf
    · cases hf
    · rename_i poolB kB okB hB
      cases hf
      have hpoolB : wk.doubleOk = true → ok = true → ∀ m ∈ poolB, m.Mines p := by
        intro hd hok
        subst hok
        refine SamplerPool.setJob_accepted (fun m hm o m' hj => Miner.setJob_mines ?_ hj) hB
        exact hs m (List.mem_append_right _ (by rw [if_pos hd]; exact hm))
      refine ⟨⟨fun f hf _ => by cases hf; exact hpool, fun f hf hd ha => by
        cases hf; exact hpoolB hd ha⟩, fun hok m hm => ?_⟩
      rcases List.mem_append.1 hm with hm | hm
      · exact hpool m hm
      · split at hm
        · rename_i hd
          exact hpoolB hd hok m hm
        · cases hm

end Worker

/-! ## Runs -/

/-- The invariant of a run. -/
structure JobInv (cfg : Config) (s : Mine) : Prop where
  workers : ∀ w, (s.workers w).FanInv
  starts : ∀ st ∈ s.starts, st.Current cfg

theorem JobInv.setWorker {cfg : Config} {s : Mine} (h : JobInv cfg s) (w : Nat) {wk : Worker}
    (hw : wk.FanInv) : JobInv cfg (s.setWorker w wk) := by
  refine ⟨fun t => ?_, h.starts⟩
  unfold Mine.setWorker
  dsimp only
  rw [Function.update_apply]
  split
  · exact hw
  · exact h.workers t

theorem JobInv.setPhase {cfg : Config} {s : Mine} (h : JobInv cfg s) (w : Nat) (ph : Phase) :
    JobInv cfg (s.setPhase w ph) :=
  h.setWorker w ⟨(h.workers w).all, (h.workers w).allB⟩

theorem JobInv.start {cfg : Config} {s : Mine} (h : JobInv cfg s) (w : Nat) {wk : Worker}
    {j : PoolJob} {m : PoolModel} (hw : wk.FanInv)
    (hg : ∀ mi ∈ wk.groups, mi.Mines (cfg.jobParams j m)) : JobInv cfg (s.start w wk j m) := by
  have hset : JobInv cfg (s.setWorker w { wk with phase := .batch j m }) :=
    h.setWorker w ⟨hw.all, hw.allB⟩
  refine ⟨hset.workers, fun st hst => ?_⟩
  rcases List.mem_append.1 hst with hst | hst
  · exact h.starts st hst
  · obtain rfl := List.mem_singleton.1 hst
    exact hg

theorem JobInv.prepare {cfg : Config} {s s' : Mine} (h : JobInv cfg s) {w : Nat}
    {oa ob : List JobOutcome} (hok : FansOut cfg s (.prepare w oa ob))
    (hs : s.prepare cfg w oa ob = some s') : JobInv cfg s' := by
  unfold Mine.prepare at hs
  cases hph : (s.workers w).phase with
  | snapshot j m =>
    rw [hph] at hs
    simp only [FansOut, hph] at hok
    dsimp only at hs
    split at hs
    · cases hs
      exact h.setPhase w .test
    · rename_i huse
      split at hs
      · cases hs
        have hp := h.setPhase w .test
        exact ⟨hp.workers, hp.starts⟩
      · rename_i hmodel
        obtain ⟨hskip, hfan⟩ := hok (eq_true_of_ne_false huse) (eq_false_of_ne_true hmodel)
        split at hs
        · rename_i hin
          cases hs
          exact h.start w (h.workers w) ((h.workers w).groups (hskip hin))
        · rename_i hin
          have hsuits := hfan (eq_false_of_ne_true hin)
          split at hs
          · cases hs
          · rename_i wk hf
            cases hs
            have hw := ((h.workers w).fanOut hsuits hf).1
            exact h.setWorker w ⟨hw.all, hw.allB⟩
          · rename_i wk hf
            cases hs
            obtain ⟨hw, hg⟩ := (h.workers w).fanOut hsuits hf
            exact h.start w hw (hg rfl)
  | test | top | batch | left =>
    rw [hph] at hs
    cases hs

theorem JobInv.call {cfg : Config} {s s' : Mine} (h : JobInv cfg s) {id : GroupId}
    {seq nVocab : Nat} {context : List Int} {o : StepOutcome}
    (hs : s.call id seq nVocab context o = some s') : JobInv cfg s' := by
  unfold Mine.call at hs
  dsimp only at hs
  split at hs
  · rename_i m _ hm
    split at hs
    · cases hs
      refine h.setWorker id.worker ((h.workers id.worker).setPool fun m' hm' => ?_)
      rcases List.mem_or_eq_of_mem_set hm' with hm' | rfl
      · exact ⟨m', hm', Miner.Keeps.refl m'⟩
      · exact ⟨m, List.mem_of_getElem? hm, Miner.onLogits_keeps m seq nVocab context o⟩
    · cases hs
  · cases hs

theorem JobInv.finish {cfg : Config} {s s' : Mine} (h : JobInv cfg s) {w : Nat} {n : Int}
    (hs : s.finish cfg w n = some s') : JobInv cfg s' := by
  have hw := h.workers w
  unfold Mine.finish at hs
  dsimp only at hs
  split at hs
  · split at hs
    · cases hs
      exact h.setWorker w ⟨hw.all, fun _ _ hd => nomatch hd⟩
    · split at hs
      · cases hs
        exact h.setPhase w .test
      · cases hs
        have ho := hw.handOver w (cfg.device w)
        have hset : JobInv cfg (s.setWorker w
            { ((s.workers w).handOver w (cfg.device w)).2 with phase := .test }) :=
          h.setWorker w ⟨ho.all, ho.allB⟩
        unfold Mine.handOver
        exact ⟨hset.workers, hset.starts⟩
  · cases hs

theorem JobInv.step {cfg : Config} {s s' : Mine} {e : MineEvent} (h : JobInv cfg s)
    (hok : FansOut cfg s e) (hs : s.step cfg e = some s') : JobInv cfg s' := by
  cases e with
  | prepare w oa ob => exact h.prepare hok hs
  | call id seq nVocab context o => exact h.call hs
  | finish w n => exact h.finish hs
  | loop w =>
    unfold Mine.step at hs
    dsimp only at hs
    split at hs <;> cases hs
    exact h.setPhase w _
  | snapshot w =>
    unfold Mine.step at hs
    dsimp only at hs
    split at hs <;> cases hs
    exact h.setPhase w _
  | setTarget | notify | setModel | stop | producersDone | pop | settle | gone | «return» =>
    have hq := Mine.step_quiet rfl hs
    exact ⟨fun t => by rw [hq.workers]; exact h.workers t, by rw [hq.starts]; exact h.starts⟩

/-- **In every run whose fan-outs are skipped only after a complete one of the same parameters,
every group mines the snapshot of every batch that starts.** -/
theorem groups_current {cfg : Config} {es : List MineEvent} {s : Mine}
    (hok : (mineMachine cfg).Guarded (FansOut cfg) (mineMachine cfg).init es)
    (h : (mineMachine cfg).exec (mineMachine cfg).init es = some s) :
    ∀ st ∈ s.starts, st.Current cfg := by
  refine ((mineMachine cfg).guarded_invariant (I := JobInv cfg)
    (fun _ _ _ hI hg hs => hI.step hg hs) ?_ hok h).starts
  exact ⟨fun _ => ⟨fun f hf _ => (nomatch hf), fun f hf _ _ => (nomatch hf)⟩, nofun⟩

/-- Job 1, with every digit of the header prefix the same. -/
def poolJob (digit : UInt8) : PoolJob :=
  { jobId := [1], headerPrefix := List.replicate 152 digit, poolVdf := [97, 97] }

/-- The loop up to the start of a batch; each pool has two groups. -/
def nextBatch : List MineEvent := [.loop 0, .snapshot 0, .prepare 0 [{}, {}] [{}, {}]]

/-- A batch of job 1, then another after the pool notified it again. -/
def renotified (digit : UInt8) : List MineEvent :=
  [.setTarget [1], .setModel { name := [109] }, .notify (poolJob 48)] ++ nextBatch ++
    [.finish 0 2, .notify (poolJob digit)] ++ nextBatch

def twoGroups : Config := { nStreams := 2, groups := 2, wantDouble := true }

theorem groups_current_renotified :
    ∃ s, (mineMachine twoGroups).exec (mineMachine twoGroups).init (renotified 48) = some s ∧
      s.starts.map (·.groups.length) = [4, 4] ∧ ∀ st ∈ s.starts, st.Current twoGroups := by
  have hrun : ((mineMachine twoGroups).exec (mineMachine twoGroups).init (renotified 48)).map
      (fun s => s.starts.map (·.groups.length)) = some [4, 4] := by
    decide +kernel
  obtain ⟨s, hs, hlen⟩ := Option.map_eq_some_iff.1 hrun
  exact ⟨s, hs, hlen, groups_current (by decide +kernel) hs⟩

/-- The same job id with another header: the second batch mines the first one's. -/
theorem groups_not_current :
    ¬ ∀ s, (mineMachine twoGroups).exec (mineMachine twoGroups).init (renotified 49) = some s →
      ∀ st ∈ s.starts, st.Current twoGroups := by
  intro h
  have hrun : ((mineMachine twoGroups).exec (mineMachine twoGroups).init (renotified 49)).map
      (fun s => s.starts.all fun st =>
        st.groups.all fun mi => mi.params.headerPrefix == st.job.headerPrefix) = some false := by
    decide +kernel
  obtain ⟨s, hs, hall⟩ := Option.map_eq_some_iff.1 hrun
  rw [List.all_eq_false] at hall
  obtain ⟨st, hst, hall⟩ := hall
  refine hall (List.all_eq_true.2 fun mi hmi => ?_)
  exact beq_iff_eq.2 (h s hs st hst mi hmi).headerPrefix

end Poi
