import SuprMeow.Library.KeyedList
import SuprMeow.Poi.Pool

/-!
# The miner as a whole

What `main` runs: the network thread's callbacks set the current job and model, each worker of
`mine_device` takes a snapshot of them, fans it out to its pools, generates a batch and hands the
finished shares to the submitter threads; on a stop the workers leave their loops, the submitters
empty the queue, and `main` returns.

Every event is one step of one thread.  What a thread does under a lock is one event; what it does
to state no other thread touches may be one event too.
-/

set_option autoImplicit false

namespace Poi

open Stratum (Bytes text)

/-! ## Jobs and models -/

/-- A `PoolJob`; the fields no one reads while mining are left out. -/
structure PoolJob where
  jobId : Bytes := []
  headerPrefix : Bytes := []
  blockTarget : Bytes := []
  shareTarget : Bytes := []
  height : Nat := 0
  requestId : Nat := 0
  poolVdf : Bytes := []
  poolVdfTick : Nat := 0
  valid : Bool := false
  deriving DecidableEq

structure PoolModel where
  name : Bytes := []
  commit : Bytes := []
  precision : Bytes := []
  difficulty : Nat := 0
  normalizer : Nat := 0
  valid : Bool := false
  deriving DecidableEq

/-- `m.name + "@" + m.commit`. -/
def PoolModel.identifier (m : PoolModel) : Bytes := m.name ++ text "@" ++ m.commit

def q8ModelIdentifier : Bytes := text "Qwen/Qwen3-8B@9c925d64d72725edaf899c6cb9c377fd0709d9c5"

/-! ## State -/

inductive PrecheckMode where
  | off
  | shadow
  | on
  deriving DecidableEq

inductive Verdict where
  | pass
  | reject
  | unavailable
  deriving DecidableEq

/-- What the command line and the hardware fix. -/
structure Config where
  nWorkers : Nat := 1
  nStreams : Nat := 1
  groups : Nat := 1
  wantDouble : Bool := false
  q8 : Bool := false
  vdfTick : Nat := 0
  precheck : PrecheckMode := .off
  submitters : Nat := 1
  device : Nat → Nat := fun _ => 0

/-- A group takes at most 64 streams. -/
def Config.nGroups (cfg : Config) : Nat :=
  max (max 1 (min cfg.groups cfg.nStreams)) ((cfg.nStreams + 63) / 64)

/-- A worker, one of its two pools, and a group of it. -/
structure GroupId where
  worker : Nat
  second : Bool
  group : Nat
  deriving DecidableEq

/-- A share on its way to the pool; `source` is a record. -/
structure PendingShare where
  sh : PoiShare
  device : Nat
  source : GroupId
  deriving DecidableEq

/-- Where a worker is in `mine_device`. -/
inductive Phase where
  /-- At the loop test. -/
  | test
  /-- Before the snapshot. -/
  | top
  | snapshot (j : PoolJob) (m : PoolModel)
  | batch (j : PoolJob) (m : PoolModel)
  | left
  deriving DecidableEq

/-- Record of the last fan-out that the first group of pool A accepted: its parameters, and
whether every group of pool A, and of pool B, did. -/
structure Fan where
  params : PoiJobParams
  all : Bool := false
  allB : Bool := false

structure Worker where
  pool : SamplerPool
  poolB : SamplerPool := []
  doubleOk : Bool := false
  phase : Phase := .test
  fan : Option Fan := none

/-- Record of a batch start: the snapshot and the groups the batch is sampled by. -/
structure Start where
  job : PoolJob
  model : PoolModel
  groups : List Miner

structure Mine where
  /-- `share_target_` of the client. -/
  shareTarget : Bytes := []
  curJob : PoolJob := {}
  curModel : PoolModel := {}
  workers : Nat → Worker
  submitQ : List PendingShare := []
  /-- What a submitter thread has popped. -/
  hands : List (Nat × PendingShare) := []
  /-- Submitters that returned. -/
  gone : List Nat := []
  stop : Bool := false
  producersDone : Bool := false
  returned : Bool := false
  /-- Records. -/
  starts : List Start := []
  submitted : List PendingShare := []
  withheld : List PendingShare := []

inductive MineEvent where
  | setTarget (t : Bytes)
  | notify (j : PoolJob)
  | setModel (m : PoolModel)
  | loop (w : Nat)
  | snapshot (w : Nat)
  /-- From the snapshot to the start of the batch or back to the loop test. -/
  | prepare (w : Nat) (oa ob : List JobOutcome)
  | call (id : GroupId) (seq nVocab : Nat) (context : List Int) (o : StepOutcome)
  /-- The batch returns `n`. -/
  | finish (w : Nat) (n : Int)
  | stop
  | producersDone
  | pop (k : Nat)
  | settle (k : Nat) (v : Verdict)
  | gone (k : Nat)
  | return

/-! ## Workers -/

namespace Worker

def pools (wk : Worker) : Bool → SamplerPool
  | false => wk.pool
  | true => wk.poolB

/-- The groups a batch is sampled by. -/
def groups (wk : Worker) : List Miner := wk.pool ++ if wk.doubleOk then wk.poolB else []

def setPool (wk : Worker) (second : Bool) (pool : SamplerPool) : Worker :=
  if second then { wk with poolB := pool } else { wk with pool }

/-- `pool.set_job(p) && (!poolB || poolB->set_job(p))`. -/
def fanOut (wk : Worker) (p : PoiJobParams) (oa ob : List JobOutcome) : Option (Worker × Bool) :=
  match wk.pool.setJob p oa with
  | none => none
  | some (pool, k, false) =>
    some ({ wk with pool, fan := if k = 0 then wk.fan else some { params := p } }, false)
  | some (pool, _, true) =>
    -- Without double buffering pool B has no groups and accepts everything.
    match wk.poolB.setJob p ob with
    | none => none
    | some (poolB, _, ok) =>
      some ({ wk with pool, poolB, fan := some { params := p, all := true, allB := ok } }, ok)

/-- `take_share` on pool A, then on pool B, until both are empty. -/
def handOver (wk : Worker) (w device : Nat) : List PendingShare × Worker :=
  let a := wk.pool.takeShares
  let b := wk.poolB.takeShares
  (a.1.map (fun e => { sh := e.2, device, source := ⟨w, false, e.1⟩ }) ++
    b.1.map (fun e => { sh := e.2, device, source := ⟨w, true, e.1⟩ }),
    { wk with pool := a.2, poolB := b.2 })

end Worker

/-- The parameters `mine_device` fills in. -/
def Config.jobParams (cfg : Config) (j : PoolJob) (m : PoolModel) : PoiJobParams where
  headerPrefix := j.headerPrefix
  blockTarget := j.blockTarget
  shareTarget := j.shareTarget
  modelIdentifier := m.identifier
  modelDifficulty := m.difficulty
  normalizer := m.normalizer
  jobId := j.jobId
  requestId := j.requestId
  height := j.height
  poolVdf := j.poolVdf
  poolVdfTick := j.poolVdfTick
  selfVdfTick := cfg.vdfTick
  valid := true

/-- The guard in front of `set_job` finds the job in place. -/
def Worker.inPlace (wk : Worker) (j : PoolJob) : Bool :=
  wk.pool.ready && wk.pool.jobId == j.jobId

/-- A snapshot that can be mined. -/
def usable (j : PoolJob) (m : PoolModel) : Bool := j.valid && m.valid && j.shareTarget != []

/-- The model is not the one the Q8 weights were verified for. -/
def Config.wrongModel (cfg : Config) (m : PoolModel) : Bool :=
  cfg.q8 && (m.identifier != q8ModelIdentifier || m.precision != text "bf16")

/-- Withheld rather than submitted. -/
def Config.withholds (cfg : Config) (v : Verdict) : Bool :=
  cfg.precheck == .on && v == .reject

/-! ## Steps -/

namespace Mine

def setWorker (s : Mine) (w : Nat) (wk : Worker) : Mine :=
  { s with workers := Function.update s.workers w wk }

def setPhase (s : Mine) (w : Nat) (ph : Phase) : Mine :=
  s.setWorker w { s.workers w with phase := ph }

/-- A batch starts. -/
def start (s : Mine) (w : Nat) (wk : Worker) (j : PoolJob) (m : PoolModel) : Mine :=
  { s.setWorker w { wk with phase := .batch j m } with
    starts := s.starts ++ [{ job := j, model := m, groups := wk.groups }] }

def prepare (cfg : Config) (s : Mine) (w : Nat) (oa ob : List JobOutcome) : Option Mine :=
  match (s.workers w).phase with
  | .snapshot j m =>
    if usable j m = false then some (s.setPhase w .test)
    else if cfg.wrongModel m then
      -- The loop is left; its test would fail as well.
      some { s.setPhase w .test with stop := true }
    else if (s.workers w).inPlace j then some (s.start w (s.workers w) j m)
    else
      match (s.workers w).fanOut (cfg.jobParams j m) oa ob with
      | none => none
      | some (wk, false) => some (s.setWorker w { wk with phase := .test })
      | some (wk, true) => some (s.start w wk j m)
  | _ => none

def call (s : Mine) (id : GroupId) (seq nVocab : Nat) (context : List Int) (o : StepOutcome) :
    Option Mine :=
  let wk := s.workers id.worker
  match wk.phase, (wk.pools id.second)[id.group]? with
  | .batch _ _, some m =>
    if seq < m.nStreams ∧ (id.second = true → wk.doubleOk = true) then
      some (s.setWorker id.worker (wk.setPool id.second
        ((wk.pools id.second).set id.group (m.onLogits seq nVocab context o).1)))
    else none
  | _, _ => none

/-- The shares of a completed batch go to the submit queue. -/
def handOver (cfg : Config) (s : Mine) (w : Nat) : Mine :=
  let r := (s.workers w).handOver w (cfg.device w)
  { s.setWorker w { r.2 with phase := .test } with submitQ := s.submitQ ++ r.1 }

def finish (cfg : Config) (s : Mine) (w : Nat) (n : Int) : Option Mine :=
  let wk := s.workers w
  match wk.phase with
  | .batch _ _ =>
    if wk.doubleOk ∧ n = -2 then
      some (s.setWorker w { wk with doubleOk := false, phase := .test })
    else if n < 0 then some (s.setPhase w .test)
    else some (s.handOver cfg w)
  | _ => none

/-- What a submitter holds goes to `client.submit`, or nowhere. -/
def settle (cfg : Config) (s : Mine) (k : Nat) (v : Verdict) : Option Mine :=
  match s.hands.find? (·.1 == k) with
  | none => none
  | some e =>
    let s := { s with hands := s.hands.eraseP (·.1 == k) }
    some (if cfg.withholds v then { s with withheld := s.withheld ++ [e.2] }
      else { s with submitted := s.submitted ++ [e.2] })

def step (cfg : Config) (s : Mine) : MineEvent → Option Mine
  | .setTarget t => some { s with shareTarget := t }
  | .notify j =>
    if j.headerPrefix.length ≠ 152 then some s
    else some { s with curJob := { j with shareTarget := s.shareTarget, valid := true } }
  | .setModel m => some { s with curModel := { m with valid := m.name != [] } }
  | .loop w =>
    if w < cfg.nWorkers ∧ (s.workers w).phase = .test then
      some (s.setPhase w (if s.stop then .left else .top))
    else none
  | .snapshot w =>
    if (s.workers w).phase = .top then some (s.setPhase w (.snapshot s.curJob s.curModel))
    else none
  | .prepare w oa ob => s.prepare cfg w oa ob
  | .call id seq nVocab context o => s.call id seq nVocab context o
  | .finish w n => s.finish cfg w n
  | .stop => some { s with stop := true }
  | .producersDone =>
    if ∀ w < cfg.nWorkers, (s.workers w).phase = .left then some { s with producersDone := true }
    else none
  | .pop k =>
    match s.submitQ with
    | ps :: rest =>
      if k < cfg.submitters ∧ k ∉ s.gone ∧ k ∉ s.hands.map (·.1) then
        some { s with submitQ := rest, hands := s.hands ++ [(k, ps)] }
      else none
    | [] => none
  | .settle k v => s.settle cfg k v
  | .gone k =>
    if k < cfg.submitters ∧ k ∉ s.gone ∧ k ∉ s.hands.map (·.1) ∧ s.submitQ = [] ∧
        s.producersDone then
      some { s with gone := k :: s.gone }
    else none
  | .return =>
    if s.producersDone ∧ ∀ k < cfg.submitters, k ∈ s.gone then some { s with returned := true }
    else none

end Mine

/-! ## What a step can do -/

/-- The worker whose step an event is. -/
def MineEvent.worker : MineEvent → Option Nat
  | .loop w | .snapshot w | .prepare w .. | .finish w _ => some w
  | .call id .. => some id.worker
  | _ => none

namespace Mine

/-- Every share that has left its `pending_q`. -/
def onward (s : Mine) : List PendingShare :=
  s.submitQ ++ s.hands.map (·.2) ++ s.submitted ++ s.withheld

/-- What the other threads' steps leave of the workers' state. -/
structure Quiet (cfg : Config) (s s' : Mine) : Prop where
  workers : s'.workers = s.workers
  starts : s'.starts = s.starts
  onward : s.onward.Perm s'.onward
  done : s'.producersDone = true →
    s.producersDone = true ∨ ∀ w < cfg.nWorkers, (s.workers w).phase = .left
  stays : s.producersDone = true → s'.producersDone = true
  returned : s'.returned = true → s.returned = true ∨ s.producersDone = true

theorem Quiet.of_eq {cfg : Config} {s s' : Mine} (hw : s'.workers = s.workers)
    (hst : s'.starts = s.starts) (ho : s'.onward = s.onward)
    (hd : s'.producersDone = s.producersDone) (hr : s'.returned = s.returned) :
    Quiet cfg s s' :=
  ⟨hw, hst, by rw [ho], fun h => .inl (hd ▸ h), fun h => hd.trans h, fun h => .inl (hr ▸ h)⟩

theorem settle_quiet {cfg : Config} {s s' : Mine} {k : Nat} {v : Verdict}
    (hs : s.settle cfg k v = some s') : Quiet cfg s s' := by
  unfold settle at hs
  split at hs
  · cases hs
  · rename_i e he
    have hp : (s.hands.map (·.2)).Perm (e.2 :: (s.hands.eraseP (·.1 == k)).map (·.2)) :=
      (KeyedList.perm_cons_eraseP he).map _
    -- The share goes from the submitter's hands to the end of one of the two lists.
    have hmove : ∀ {a b c d : List PendingShare}, (a ++ (e.2 :: b) ++ c ++ d).Perm
        (a ++ b ++ (c ++ [e.2]) ++ d) := by
      intro a b c d
      simp only [List.append_assoc, List.cons_append]
      refine List.Perm.append_left a ?_
      have hm : (e.2 :: (b ++ c) ++ d).Perm (b ++ c ++ [e.2] ++ d) :=
        (List.perm_append_singleton e.2 (b ++ c)).symm.append_right d
      simpa only [List.append_assoc, List.cons_append, List.nil_append] using hm
    have hout := ((hp.append_left s.submitQ).append_right s.submitted).append_right s.withheld
    cases hs
    split
    · refine ⟨rfl, rfl, hout.trans ?_, .inl, id, .inl⟩
      have hm := @hmove s.submitQ ((s.hands.eraseP (·.1 == k)).map (·.2))
        (s.submitted ++ s.withheld) []
      simpa only [onward, List.append_assoc, List.append_nil] using hm
    · exact ⟨rfl, rfl, hout.trans hmove, .inl, id, .inl⟩

/-- **A step of the network thread, of a submitter or of `main`.** -/
theorem step_quiet {cfg : Config} {s s' : Mine} {e : MineEvent} (he : e.worker = none)
    (hs : s.step cfg e = some s') : Quiet cfg s s' := by
  cases e with
  | settle k v => exact settle_quiet hs
  | pop k =>
    unfold step at hs
    dsimp only at hs
    split at hs
    · rename_i ps rest hq
      split at hs <;> cases hs
      refine ⟨rfl, rfl, ?_, .inl, id, .inl⟩
      unfold onward
      dsimp only
      rw [hq, List.map_append]
      refine List.Perm.append_right _ (List.Perm.append_right _ ?_)
      rw [← List.append_assoc]
      exact (List.perm_append_singleton ps _).symm
    · cases hs
  | notify j =>
    unfold step at hs
    dsimp only at hs
    split at hs <;> cases hs <;> exact .of_eq rfl rfl rfl rfl rfl
  | setTarget | setModel | stop =>
    obtain rfl := Option.some.inj hs
    exact .of_eq rfl rfl rfl rfl rfl
  | producersDone =>
    unfold step at hs
    dsimp only at hs
    split at hs <;> cases hs
    rename_i hall
    exact ⟨rfl, rfl, List.Perm.refl _, fun _ => .inr hall, fun _ => rfl, .inl⟩
  | gone k =>
    unfold step at hs
    dsimp only at hs
    split at hs <;> cases hs
    exact .of_eq rfl rfl rfl rfl rfl
  | «return» =>
    unfold step at hs
    dsimp only at hs
    split at hs <;> cases hs
    rename_i hd
    exact ⟨rfl, rfl, List.Perm.refl _, .inl, id, fun _ => .inr hd.1⟩
  | loop | snapshot | prepare | call | finish => cases he

/-- A worker's step changes that worker, which has not left; it leaves at the loop test only, once
stopped. -/
structure Works (s s' : Mine) (e : MineEvent) (w : Nat) : Prop where
  running : (s.workers w).phase ≠ .left
  others : ∀ t, t ≠ w → s'.workers t = s.workers t
  done : s'.producersDone = s.producersDone
  returned : s'.returned = s.returned
  leaves : (s'.workers w).phase = .left → e = .loop w ∧ s.stop = true ∧
    ∀ b, (s'.workers w).pools b = (s.workers w).pools b

/-- The usual worker's step: the worker goes on in its loop. -/
theorem Works.of_set {s s' : Mine} {e : MineEvent} {w : Nat} {wk : Worker}
    (hr : (s.workers w).phase ≠ .left) (hw : s'.workers = Function.update s.workers w wk)
    (hd : s'.producersDone = s.producersDone) (hret : s'.returned = s.returned)
    (hp : wk.phase ≠ .left) : Works s s' e w := by
  refine ⟨hr, fun t ht => ?_, hd, hret, fun hl => ?_⟩
  · rw [hw, Function.update_of_ne ht]
  · rw [hw, Function.update_self] at hl
    exact absurd hl hp

/-- **A worker's step.** -/
theorem step_works {cfg : Config} {s s' : Mine} {e : MineEvent} {w : Nat}
    (he : e.worker = some w) (hs : s.step cfg e = some s') : Works s s' e w := by
  cases e with
  | prepare t oa ob =>
    cases he
    change s.prepare cfg w oa ob = some s' at hs
    unfold prepare at hs
    split at hs
    · rename_i j m hph
      have ht : (s.workers w).phase ≠ .left := by
        rw [hph]
        nofun
      split at hs
      · cases hs
        exact .of_set ht rfl rfl rfl nofun
      · split at hs
        · cases hs
          exact .of_set ht rfl rfl rfl nofun
        · split at hs
          · cases hs
            exact .of_set ht rfl rfl rfl nofun
          · split at hs <;> cases hs <;> exact .of_set ht rfl rfl rfl nofun
    · cases hs
  | call id seq nVocab context o =>
    cases he
    change s.call id seq nVocab context o = some s' at hs
    unfold call at hs
    dsimp only at hs
    split at hs
    · rename_i j m' m hph _
      have ht : (s.workers id.worker).phase ≠ .left := by
        rw [hph]
        nofun
      split at hs <;> cases hs
      refine .of_set ht rfl rfl rfl ?_
      unfold Worker.setPool
      split <;> exact ht
    · cases hs
  | finish t n =>
    cases he
    change s.finish cfg w n = some s' at hs
    unfold finish at hs
    dsimp only at hs
    split at hs
    · rename_i hph
      have ht : (s.workers w).phase ≠ .left := by
        rw [hph]
        nofun
      split at hs
      · cases hs
        exact .of_set ht rfl rfl rfl nofun
      · split at hs <;> cases hs <;> exact .of_set ht rfl rfl rfl nofun
    · cases hs
  | loop t =>
    cases he
    unfold step at hs
    dsimp only at hs
    split at hs <;> cases hs
    rename_i hc
    have ht : (s.workers w).phase ≠ .left := by
      rw [hc.2]
      nofun
    cases hstop : s.stop with
    | false => exact .of_set ht rfl rfl rfl nofun
    | true =>
      refine ⟨ht, fun t hne => Function.update_of_ne hne _ _, rfl, rfl, fun _ => ⟨rfl, hstop, ?_⟩⟩
      intro b
      unfold setPhase setWorker
      dsimp only
      rw [Function.update_self]
      cases b <;> rfl
  | snapshot t =>
    cases he
    unfold step at hs
    dsimp only at hs
    split at hs <;> cases hs
    rename_i hc
    exact .of_set (by rw [hc]; nofun) rfl rfl rfl nofun
  | setTarget | notify | setModel | stop | producersDone | pop | settle | gone | «return» =>
    cases he

end Mine

def Config.worker (cfg : Config) : Worker where
  pool := SamplerPool.init cfg.nStreams cfg.nGroups
  poolB := if cfg.wantDouble then SamplerPool.init cfg.nStreams cfg.nGroups else []
  doubleOk := cfg.wantDouble

/-- The miner from the start of the client on. -/
def mineMachine (cfg : Config) : Runs.Machine Mine MineEvent where
  init := { workers := fun _ => cfg.worker }
  step := Mine.step cfg

end Poi
