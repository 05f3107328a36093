import SuprMeow.Poi.Egress
import SuprMeow.Stratum.Messages

/-!
# Clean jobs

A `mining.notify` with `clean_jobs` says that the parent changed and that work in flight must be
abandoned.  `on_job` prints the flag and goes on as with any other job: neither the running batch
nor a share on its way learns of it.

* `Flight` — the miner with records of the `mining.notify` each window goes back to;
* `work_abandoned` — when the windows in flight at a clean notify find nothing, or what they find
  is lost, dropped or withheld, no share of an earlier job is submitted after it;
* `work_not_abandoned` — a share of a batch that was running.
-/

set_option autoImplicit false

namespace Poi

open Stratum (Json text)

/-! ## Jobs and their `mining.notify` -/

/-- What the mining threads read of a job. -/
def PoolJob.of (j : Stratum.PoolJob) : PoolJob where
  jobId := j.jobId
  headerPrefix := j.headerPrefix
  blockTarget := j.blockTarget
  shareTarget := j.shareTarget
  height := j.height
  requestId := j.requestId
  poolVdf := j.poolVdf
  poolVdfTick := j.poolVdfTick
  valid := j.valid

/-- The miner.  The rest are records: jobs are numbered by the `mining.notify` that brought them,
from 1 on, a window is known by its group and sequence, and its proof by the serial. -/
structure Flight where
  mine : Mine
  /-- The number of the current job. -/
  jobs : Nat := 0
  /-- The last clean one. -/
  clean : Nat := 0
  /-- The job of each worker's snapshot. -/
  taken : Nat → Nat := fun _ => 0
  /-- The job a group accepted last. -/
  installed : GroupId → Nat := fun _ => 0
  /-- The job a window was begun under. -/
  begun : GroupId → Nat → Nat := fun _ _ => 0
  /-- The job the window of a proof was begun under. -/
  mined : GroupId → Nat → Nat := fun _ _ => 0
  /-- Shares submitted though a clean job came after the one their window was begun under. -/
  late : List PendingShare := []

inductive FlightEvent where
  /-- A `mining.notify` with its parameters. -/
  | notify (p : List Json)
  | mine (e : MineEvent)

/-- The groups that accept the job of a fan-out. -/
def Worker.accepts (wk : Worker) (p : PoiJobParams) (oa ob : List JobOutcome) (second : Bool)
    (group : Nat) : Bool :=
  match wk.pool.setJob p oa, second with
  | some (_, k, _), false => decide (group < k)
  | some (_, _, true), true =>
    ((wk.poolB.setJob p ob).map fun r => decide (group < r.2.1)).getD false
  | _, _ => false

/-- The parameters of a fan-out that is made. -/
def Worker.fansOut (cfg : Config) (wk : Worker) : Option PoiJobParams :=
  match wk.phase with
  | .snapshot j m =>
    if usable j m && !cfg.wrongModel m && !wk.inPlace j then some (cfg.jobParams j m) else none
  | _ => none

namespace Flight

/-- The share of a window begun under a job before the last clean one. -/
def old (s : Flight) (ps : PendingShare) : Bool :=
  decide (s.mined ps.source ps.sh.proof.serial < s.clean)

/-- What `handle_line` makes of a `mining.notify`: the job for `on_job`, if any. -/
def notified (s : Flight) (p : List Json) : Except Stratum.TypeError (Option Stratum.PoolJob) :=
  if p.length < 7 then .ok none
  else (Stratum.readJob s.mine.shareTarget p).map fun j =>
    if j.headerPrefix.length ≠ 152 then none else some { j with valid := true }

/-- `on_job`.  The flag is not looked at; `clean` is a record. -/
def onJob (cfg : Config) (s : Flight) (j : Stratum.PoolJob) : Option Flight :=
  (s.mine.step cfg (.notify (.of j))).map fun m =>
    { s with mine := m, jobs := s.jobs + 1, clean := if j.clean then s.jobs + 1 else s.clean }

/-- What `handle_line` throws ends the process. -/
def notify (cfg : Config) (s : Flight) (p : List Json) : Option Flight :=
  match s.notified p with
  | .error _ => none
  | .ok none => some s
  | .ok (some j) => s.onJob cfg j

/-- The jobs behind the windows before a call at `seq`: a window that starts is begun under the
job its group has. -/
def beginWindow (s : Flight) (id : GroupId) (mi : Miner) (seq : Nat) (context : List Int) :
    GroupId → Nat → Nat :=
  if mi.ready && mi.startsWindow seq context then
    Function.update s.begun id (Function.update (s.begun id) seq (s.installed id))
  else s.begun

/-- The jobs behind the proofs once a group emitted up to serial `upTo`. -/
def emitted (s : Flight) (id : GroupId) (fro upTo job : Nat) (i : GroupId) (n : Nat) : Nat :=
  if i = id ∧ fro ≤ n ∧ n < upTo then job else s.mined i n

/-- The records of a step to `m`. -/
def record (cfg : Config) (s : Flight) (m : Mine) : MineEvent → Flight
  | .snapshot w => { s with mine := m, taken := Function.update s.taken w s.jobs }
  | .prepare w oa ob =>
    { s with
      mine := m
      installed := fun id =>
        if id.worker = w ∧ ((s.mine.workers w).fansOut cfg).any
            (fun p => (s.mine.workers w).accepts p oa ob id.second id.group) then s.taken w
        else s.installed id }
  | .call id seq _ context _ =>
    match s.mine.group id, m.group id with
    | some mi, some mi' =>
      let begun := s.beginWindow id mi seq context
      { s with
        mine := m
        begun
        mined := s.emitted id mi.hist.emitted.length mi'.hist.emitted.length (begun id seq) }
    | _, _ => { s with mine := m }
  | .settle _ _ =>
    { s with
      mine := m
      late := s.late ++ (m.submitted.drop s.mine.submitted.length).filter s.old }
  | _ => { s with mine := m }

def step (cfg : Config) (s : Flight) : FlightEvent → Option Flight
  | .notify p => s.notify cfg p
  | .mine (.notify _) => none
  | .mine e => (s.mine.step cfg e).map fun m => s.record cfg m e

end Flight

def flightMachine (cfg : Config) : Runs.Machine Flight FlightEvent where
  init := { mine := (mineMachine cfg).init }
  step := Flight.step cfg

/-! ## The condition -/

namespace Miner

/-- The message a call takes off the egress. -/
def takes (m : Miner) (seq nVocab : Nat) (context : List Int) (o : StepOutcome) : Option Proof :=
  if (m.onLogits seq nVocab context o).2.receives o.recv then
    (m.egress ++ (m.onLogits seq nVocab context o).1.hist.emitted.drop m.hist.emitted.length).head?
  else none

/-- A rule drops the message: its job is unknown, the header hash is missing, or the credit is
below 70 bits. -/
def drops (m : Miner) (pr : Proof) : Bool :=
  (m.jobByReq.find? (·.1 == pr.reqId)).isNone || pr.achievedHex == [] || pr.lowCredit

end Miner

/-- The pre-check keeps the proof from the pool. -/
def Config.bars (cfg : Config) (rejects : Proof → Bool) (pr : Proof) : Bool :=
  cfg.precheck == .on && rejects pr

/-- Shares between the groups and `client.submit`. -/
def Mine.sending (s : Mine) : List PendingShare := s.submitQ ++ s.hands.map (·.2)

/-- The job behind a message that a call takes: a proof of this very call comes from the window at
`seq`. -/
def Flight.jobBehind (s : Flight) (id : GroupId) (m : Miner) (seq : Nat) (context : List Int)
    (pr : Proof) : Nat :=
  if pr.serial < m.hist.emitted.length then s.mined id pr.serial
  else s.beginWindow id m seq context id seq

/-- What becomes of the work in flight, when the pre-check rejects the proofs `rejects`.  At a
clean notify every share already drained is one the pre-check keeps back; a message that goes back
to an earlier job is dropped by a rule when a call takes it, or likewise kept back; and what the
pre-check rejects gets that verdict.  A window that finds nothing, and a message that never
arrives, meet this. -/
def Abandons (cfg : Config) (rejects : Proof → Bool) (s : Flight) : FlightEvent → Prop
  | .notify p =>
    match s.notified p with
    | .ok (some j) => j.clean = true →
        (∀ w < cfg.nWorkers, ∀ b, ∀ m ∈ (s.mine.workers w).pools b, ∀ sh ∈ m.pendingQ,
          cfg.bars rejects sh.proof = true) ∧
        ∀ ps ∈ s.mine.sending, cfg.bars rejects ps.sh.proof = true
    | _ => True
  | .mine (.call id seq nVocab context o) =>
    ∀ m ∈ s.mine.group id, ∀ pr ∈ m.takes seq nVocab context o,
      s.jobBehind id m seq context pr < s.clean →
        m.drops pr = true ∨ cfg.bars rejects pr = true
  | .mine (.settle k v) =>
    ∀ e ∈ s.mine.hands.find? (·.1 == k), rejects e.2.sh.proof = true → v = .reject
  | .mine _ => True

instance (cfg : Config) (rejects : Proof → Bool) : ∀ s e, Decidable (Abandons cfg rejects s e)
  | s, .notify p =>
    match h : s.notified p with
    | .ok (some j) => decidable_of_iff (j.clean = true →
        (∀ w < cfg.nWorkers, ∀ b, ∀ m ∈ (s.mine.workers w).pools b, ∀ sh ∈ m.pendingQ,
          cfg.bars rejects sh.proof = true) ∧
        ∀ ps ∈ s.mine.sending, cfg.bars rejects ps.sh.proof = true) (by simp [Abandons, h])
    | .ok none | .error _ => isTrue (by simp [Abandons, h])
  | s, .mine (.call id seq nVocab context o) =>
    inferInstanceAs (Decidable (∀ m ∈ s.mine.group id, ∀ pr ∈ m.takes seq nVocab context o,
      s.jobBehind id m seq context pr < s.clean →
        m.drops pr = true ∨ cfg.bars rejects pr = true))
  | s, .mine (.settle k v) =>
    inferInstanceAs (Decidable (∀ e ∈ s.mine.hands.find? (·.1 == k),
      rejects e.2.sh.proof = true → v = .reject))
  | _, .mine (.setTarget _) | _, .mine (.notify _) | _, .mine (.setModel _) | _, .mine (.loop _)
  | _, .mine (.snapshot _) | _, .mine (.prepare ..) | _, .mine (.finish ..) | _, .mine .stop
  | _, .mine .producersDone | _, .mine (.pop _) | _, .mine (.gone _)
  | _, .mine .return => isTrue trivial

/-! ## One group -/

/-- **A call drains the message it takes**, unless a rule drops it. -/
theorem Miner.onLogits_pendingQ (m : Miner) (seq nVocab : Nat) (context : List Int)
    (o : StepOutcome) {sh : PoiShare} (h : sh ∈ (m.onLogits seq nVocab context o).1.pendingQ) :
    sh ∈ m.pendingQ ∨
      m.takes seq nVocab context o = some sh.proof ∧ m.drops sh.proof = false := by
  obtain ⟨m₁, new, hnew, heq⟩ := m.onLogits_split seq nVocab context o
  have htakes : (m.onLogits seq nVocab context o).2.receives o.recv = true →
      m.takes seq nVocab context o = m₁.egress.head? := by
    intro hr
    have hemitted : (m.onLogits seq nVocab context o).1.hist.emitted = m₁.hist.emitted := by
      rw [heq, hr]
      unfold drain
      split
      · unfold receive
        split
        · rfl
        · dsimp only
          split <;> [rfl; split <;> rfl]
      · rfl
    rw [takes, if_pos hr, hemitted, hnew.hist, List.drop_left, hnew.egress]
  rw [heq] at h
  cases hr : (m.onLogits seq nVocab context o).2.receives o.recv with
  | false =>
    rw [hr] at h
    exact .inl (hnew.pendingQ ▸ h)
  | true =>
    rw [hr] at h
    rw [htakes hr]
    cases hpr : m₁.egress with
    | nil =>
      unfold drain at h
      rw [hpr] at h
      exact .inl (hnew.pendingQ ▸ h)
    | cons pr rest =>
      unfold drain at h
      rw [hpr] at h
      unfold receive at h
      dsimp only at h
      rw [hnew.jobByReq, hnew.pendingQ] at h
      unfold drops
      split at h
      · exact .inl h
      rename_i e he
      split at h
      · exact .inl h
      rename_i hhash
      split at h
      · exact .inl h
      rename_i hcredit
      rcases List.mem_append.1 h with h | h
      · exact .inl h
      · obtain rfl := List.mem_singleton.1 h
        exact .inr ⟨rfl, by simp [he, hhash, hcredit]⟩

/-! ## Pools -/

namespace SamplerPool

/-- A share taken was pending in the group it is said to come from. -/
theorem mem_takeShares {pool : SamplerPool} {g : Nat} {s : PoiShare}
    (h : (g, s) ∈ (takeShares pool).1) : ∃ m, pool[g]? = some m ∧ s ∈ m.pendingQ := by
  unfold takeShares at h
  generalize pendingCount pool = fuel at h
  induction fuel generalizing pool with
  | zero => cases h
  | succ fuel ih =>
    unfold takeAll at h
    split at h
    · cases h
    · rename_i e pool' he
      obtain ⟨k, s'⟩ := e
      obtain ⟨m, rest, hm, hq, rfl⟩ := takeShare_some he
      rcases List.mem_cons.1 h with hs | hs
      · cases hs
        exact ⟨m, hm, hq ▸ List.mem_cons_self⟩
      · obtain ⟨n, hn, hsn⟩ := ih hs
        by_cases hk : k = g
        · subst hk
          have hlt : k < pool.length := (List.getElem?_eq_some_iff.1 hm).1
          rw [List.getElem?_set_self hlt] at hn
          cases hn
          exact ⟨m, hm, hq ▸ List.mem_cons_of_mem s' hsn⟩
        · rw [List.getElem?_set_ne hk] at hn
          exact ⟨n, hn, hsn⟩

end SamplerPool

theorem mem_handOver {wk : Worker} {w device : Nat} {ps : PendingShare}
    (h : ps ∈ (wk.handOver w device).1) :
    ∃ b g m, ps.source = ⟨w, b, g⟩ ∧ (wk.pools b)[g]? = some m ∧ ps.sh ∈ m.pendingQ := by
  unfold Worker.handOver at h
  rcases List.mem_append.1 h with h | h
  · obtain ⟨⟨g, s⟩, he, rfl⟩ := List.mem_map.1 h
    obtain ⟨m, hm, hs⟩ := SamplerPool.mem_takeShares he
    exact ⟨false, g, m, rfl, hm, hs⟩
  · obtain ⟨⟨g, s⟩, he, rfl⟩ := List.mem_map.1 h
    obtain ⟨m, hm, hs⟩ := SamplerPool.mem_takeShares he
    exact ⟨true, g, m, rfl, hm, hs⟩

/-! ## The invariant -/

/-- The share goes back to a job no older than the last clean one, or the pre-check keeps it
back. -/
def Flight.Harmless (cfg : Config) (rejects : Proof → Bool) (s : Flight) (id : GroupId)
    (sh : PoiShare) : Prop :=
  s.clean ≤ s.mined id sh.proof.serial ∨ cfg.bars rejects sh.proof = true

/-- **No share drained is of an earlier job and on its way.** -/
structure Barred (cfg : Config) (rejects : Proof → Bool) (s : Flight) : Prop where
  books : Books s.mine
  inside : ∀ w, (s.mine.workers w).phase ≠ .test → w < cfg.nWorkers
  pending : ∀ id m, id.worker < cfg.nWorkers → s.mine.group id = some m →
    ∀ sh ∈ m.pendingQ, s.Harmless cfg rejects id sh
  sending : ∀ ps ∈ s.mine.sending, s.Harmless cfg rejects ps.source ps.sh
  late : s.late = []

/-- A share that is pending or has been given out carries a serial the group has emitted. -/
theorem Books.serial_lt {s : Mine} (h : Books s) {id : GroupId} {m : Miner}
    (hm : s.group id = some m) {sh : PoiShare}
    (hsh : sh ∈ m.pendingQ ∨ sh ∈ sentBy id s.onward) :
    sh.proof.serial < m.hist.emitted.length := by
  have ha := h.accounts id m hm
  have hq : sh ∈ m.hist.enqueued := by
    rw [ha.enqueued]
    rcases hsh with hsh | hsh
    · exact List.mem_append_right _ hsh
    · exact List.mem_append_left _ ((h.handed id m hm).mem_iff.2 hsh)
  obtain ⟨got, he, -, hp⟩ := ha.egress
  have hmem : sh.proof ∈ m.hist.emitted := by
    rw [he]
    exact List.mem_append_left _
      (hp.mem_iff.2 (List.mem_append_right _ (List.mem_map_of_mem hq)))
  have hser : sh.proof.serial ∈ List.range m.hist.emitted.length :=
    ha.serials ▸ List.mem_map_of_mem hmem
  exact List.mem_range.1 hser

/-- A share on its way was on its way, or was pending in the group it is said to come from. -/
theorem Mine.sending_step {cfg : Config} {s s' : Mine} {e : MineEvent}
    (hs : s.step cfg e = some s') {ps : PendingShare} (h : ps ∈ s'.sending) :
    ps ∈ s.sending ∨ (s.workers ps.source.worker).phase ≠ .test ∧
      ∃ m, s.group ps.source = some m ∧ ps.sh ∈ m.pendingQ := by
  cases e with
  | finish w n =>
    change s.finish cfg w n = some s' at hs
    unfold finish at hs
    dsimp only at hs
    split at hs
    swap
    · cases hs
    rename_i j md hph
    split at hs
    · cases hs; exact .inl h
    split at hs
    · cases hs; exact .inl h
    cases hs
    unfold sending handOver at h
    dsimp only at h
    rw [List.append_assoc] at h
    rcases List.mem_append.1 h with h | h
    · exact .inl (List.mem_append_left _ h)
    rcases List.mem_append.1 h with h | h
    · obtain ⟨b, g, m, hsrc, hm, hsh⟩ := mem_handOver h
      rw [hsrc]
      exact .inr ⟨by rw [hph]; exact nofun, m, hm, hsh⟩
    · exact .inl (List.mem_append_right _ h)
  | settle k v =>
    change s.settle cfg k v = some s' at hs
    unfold settle at hs
    split at hs
    · cases hs
    refine .inl ((List.Sublist.append_left (List.eraseP_sublist.map _) _).subset (?_ :
      ps ∈ s.submitQ ++ (s.hands.eraseP (·.1 == k)).map (·.2)))
    cases hs
    split at h <;> exact h
  | pop k =>
    unfold step at hs
    dsimp only at hs
    split at hs
    · rename_i ps' rest hq
      split at hs <;> cases hs
      refine .inl ?_
      unfold sending at h ⊢
      rw [hq]
      simp only [List.map_append, List.mem_append, List.map_cons, List.map_nil,
        List.mem_cons, List.not_mem_nil, or_false] at h ⊢
      tauto
    · cases hs
  | prepare w oa ob =>
    change s.prepare cfg w oa ob = some s' at hs
    unfold prepare at hs
    split at hs
    · split at hs
      · cases hs; exact .inl h
      split at hs
      · cases hs; exact .inl h
      split at hs
      · cases hs; exact .inl h
      split at hs <;> cases hs <;> exact .inl h
    · cases hs
  | call id seq nVocab context o =>
    change s.call id seq nVocab context o = some s' at hs
    unfold call at hs
    dsimp only at hs
    split at hs
    · split at hs <;> cases hs
      exact .inl h
    · cases hs
  | setTarget | setModel | stop =>
    cases hs
    exact .inl h
  | notify | loop | snapshot | producersDone | gone | «return» =>
    unfold step at hs
    dsimp only at hs
    split at hs <;> cases hs <;> exact .inl h

theorem Mine.mem_sentBy_onward {s : Mine} {ps : PendingShare} (h : ps ∈ s.sending) :
    ps.sh ∈ sentBy ps.source s.onward := by
  have hon : ps ∈ s.onward := by
    unfold onward
    exact List.mem_append_left _ (List.mem_append_left _ h)
  exact List.mem_map_of_mem (List.mem_filter.2 ⟨hon, by simp⟩)

/-- Only the workers the command line asks for leave the loop test. -/
theorem Mine.inside_step {cfg : Config} {s s' : Mine} {e : MineEvent}
    (h : ∀ w, (s.workers w).phase ≠ .test → w < cfg.nWorkers) (hs : s.step cfg e = some s') :
    ∀ w, (s'.workers w).phase ≠ .test → w < cfg.nWorkers := by
  intro w hw
  cases he : e.worker with
  | none => exact h w ((Mine.step_quiet he hs).workers ▸ hw)
  | some t =>
    by_cases hwt : w = t
    · subst hwt
      cases e with
      | loop t =>
        cases he
        unfold step at hs
        dsimp only at hs
        split at hs <;> cases hs
        rename_i hc
        exact hc.1
      | snapshot t =>
        cases he
        unfold step at hs
        dsimp only at hs
        split at hs <;> cases hs
        rename_i hph
        exact h w (by rw [hph]; exact nofun)
      | prepare t oa ob =>
        cases he
        change s.prepare cfg w oa ob = some s' at hs
        unfold prepare at hs
        split at hs
        · rename_i hph
          exact h w (by rw [hph]; exact nofun)
        · cases hs
      | call id seq nVocab context o =>
        cases he
        change s.call id seq nVocab context o = some s' at hs
        unfold call at hs
        dsimp only at hs
        split at hs
        · rename_i hph _
          exact h _ (by rw [hph]; exact nofun)
        · cases hs
      | finish t n =>
        cases he
        change s.finish cfg w n = some s' at hs
        unfold finish at hs
        dsimp only at hs
        split at hs
        · rename_i hph
          exact h w (by rw [hph]; exact nofun)
        · cases hs
      | setTarget | notify | setModel | stop | producersDone | pop | settle | gone | «return» =>
        cases he
    · exact h w ((Mine.step_works he hs).others w hwt ▸ hw)

/-! ## Steps -/

namespace Flight

variable {cfg : Config} {rejects : Proof → Bool} {s : Flight}

theorem record_mine (m : Mine) (e : MineEvent) : (s.record cfg m e).mine = m := by
  cases e <;> try rfl
  unfold record
  dsimp only
  split <;> rfl

theorem record_clean (m : Mine) (e : MineEvent) : (s.record cfg m e).clean = s.clean := by
  cases e <;> try rfl
  unfold record
  dsimp only
  split <;> rfl

/-- The job behind a proof emitted before the step is not touched. -/
theorem record_mined (m : Mine) (e : MineEvent) {id : GroupId} {n : Nat}
    (hn : ∀ mi, s.mine.group id = some mi → n < mi.hist.emitted.length) :
    (s.record cfg m e).mined id n = s.mined id n := by
  cases e <;> try rfl
  unfold record
  dsimp only
  split
  · rename_i mi mi' hmi hmi'
    dsimp only
    unfold emitted
    split
    · rename_i hin
      have := hn mi (hin.1 ▸ hmi)
      omega
    · rfl
  · rfl

/-- The job behind a proof of the call itself. -/
theorem record_call_mined {m : Mine} {id : GroupId} {mi mi' : Miner} {seq nVocab : Nat}
    {context : List Int} {o : StepOutcome} (hmi : s.mine.group id = some mi)
    (hmi' : m.group id = some mi') {pr : Proof} (hpr : pr.serial < mi'.hist.emitted.length) :
    (s.record cfg m (.call id seq nVocab context o)).mined id pr.serial =
      s.jobBehind id mi seq context pr := by
  unfold record jobBehind
  dsimp only
  rw [hmi, hmi']
  dsimp only
  unfold emitted
  by_cases hlt : pr.serial < mi.hist.emitted.length
  · rw [if_neg (by omega), if_pos hlt]
  · rw [if_pos ⟨rfl, by omega, hpr⟩, if_neg hlt]

theorem Harmless.record {id : GroupId} {sh : PoiShare} (h : s.Harmless cfg rejects id sh)
    (m : Mine) (e : MineEvent)
    (hn : ∀ mi, s.mine.group id = some mi → sh.proof.serial < mi.hist.emitted.length) :
    (s.record cfg m e).Harmless cfg rejects id sh := by
  unfold Harmless at h ⊢
  rwa [record_clean, record_mined m e hn]

end Flight

theorem GroupStep.drained {id : GroupId} {e : MineEvent} {m m' : Miner} (h : GroupStep id e m m')
    {sh : PoiShare} (hsh : sh ∈ m'.pendingQ) : sh ∈ m.pendingQ ∨
      ∃ seq nVocab context o, e = .call id seq nVocab context o ∧
        m.takes seq nVocab context o = some sh.proof ∧ m.drops sh.proof = false := by
  cases h with
  | same => exact .inl hsh
  | job oa ob hj => exact .inl ((Miner.setJob_same hj).2.2 ▸ hsh)
  | handOver => cases hsh
  | call seq nVocab context o =>
    exact (m.onLogits_pendingQ seq nVocab context o hsh).imp_right
      fun ht => ⟨seq, nVocab, context, o, rfl, ht⟩

namespace Barred

variable {cfg : Config} {rejects : Proof → Bool} {s : Flight}

/-- **A clean notify finds only shares that the pre-check keeps back.** -/
theorem onJob (h : Barred cfg rejects s) {s' : Flight} {j : Stratum.PoolJob}
    (hok : j.clean = true →
      (∀ w < cfg.nWorkers, ∀ b, ∀ m ∈ (s.mine.workers w).pools b, ∀ sh ∈ m.pendingQ,
        cfg.bars rejects sh.proof = true) ∧
      ∀ ps ∈ s.mine.sending, cfg.bars rejects ps.sh.proof = true)
    (hs : s.onJob cfg j = some s') : Barred cfg rejects s' := by
  obtain ⟨m, hm, rfl⟩ := Option.map_eq_some_iff.1 hs
  have hsame : m.workers = s.mine.workers ∧ m.sending = s.mine.sending := by
    unfold Mine.step at hm
    dsimp only at hm
    split at hm <;> cases hm <;> exact ⟨rfl, rfl⟩
  have hgroup : ∀ id, m.group id = s.mine.group id := fun id => by
    unfold Mine.group
    rw [hsame.1]
  refine ⟨h.books.step hm, Mine.inside_step h.inside hm, fun id mi hid hmi sh hsh => ?_,
    fun ps hps => ?_, h.late⟩
  · rw [hgroup] at hmi
    cases hcl : j.clean with
    | false => exact h.pending id mi hid hmi sh hsh
    | true => exact .inr ((hok hcl).1 id.worker hid id.second mi (List.mem_of_getElem? hmi) sh hsh)
  · rw [hsame.2] at hps
    cases hcl : j.clean with
    | false => exact h.sending ps hps
    | true => exact .inr ((hok hcl).2 ps hps)

/-- **A share a call drains is harmless**: it is of no earlier job, or kept back. -/
theorem drained (h : Barred cfg rejects s) {e : MineEvent} {m : Mine}
    (hok : Abandons cfg rejects s (.mine e)) (hs : s.mine.step cfg e = some m) {id : GroupId}
    {mi : Miner} (hid : id.worker < cfg.nWorkers) (hmi : m.group id = some mi) {sh : PoiShare}
    (hsh : sh ∈ mi.pendingQ) : (s.record cfg m e).Harmless cfg rejects id sh := by
  obtain ⟨m₀, hm₀, hg⟩ := Mine.group_before hs hmi
  rcases hg.drained hsh with hold | ⟨seq, nVocab, context, o, rfl, htakes, hdrops⟩
  · refine (h.pending id m₀ hid hm₀ sh hold).record m e fun m₁ hm₁ => ?_
    exact h.books.serial_lt hm₁ (.inl (Option.some.inj (hm₀.symm.trans hm₁) ▸ hold))
  · have hser := (h.books.step hs).serial_lt hmi (.inl hsh)
    unfold Flight.Harmless
    rw [Flight.record_clean, Flight.record_call_mined hm₀ hmi hser]
    by_cases hlt : s.jobBehind id m₀ seq context sh.proof < s.clean
    · have hbars := hok m₀ hm₀ sh.proof htakes hlt
      rw [hdrops] at hbars
      exact .inr (hbars.resolve_left nofun)
    · exact .inl (not_lt.1 hlt)

/-- **What is submitted is of no earlier job.** -/
theorem settle (h : Barred cfg rejects s) {k : Nat} {v : Verdict} {m : Mine}
    (hok : Abandons cfg rejects s (.mine (.settle k v)))
    (hs : s.mine.settle cfg k v = some m) : (s.record cfg m (.settle k v)).late = [] := by
  unfold Mine.settle at hs
  split at hs
  · cases hs
  rename_i e he
  have hhand : e.2 ∈ s.mine.sending :=
    List.mem_append_right _ (List.mem_map_of_mem (List.mem_of_find?_eq_some he))
  cases hs
  split
  · simp [Flight.record, h.late]
  · rename_i hkept
    have hold : s.old e.2 = false := by
      rcases h.sending e.2 hhand with hle | hbars
      · exact decide_eq_false (Nat.not_lt.2 hle)
      · -- the verdict on a share the pre-check rejects withholds it
        unfold Config.bars at hbars
        rw [Bool.and_eq_true] at hbars
        have hv : v = .reject := hok e he hbars.2
        refine absurd ?_ hkept
        rw [hv, Config.withholds, hbars.1]
        rfl
    simp [Flight.record, h.late, hold]

theorem step (h : Barred cfg rejects s) {e : FlightEvent} {s' : Flight}
    (hok : Abandons cfg rejects s e) (hs : s.step cfg e = some s') : Barred cfg rejects s' := by
  cases e with
  | notify p =>
    unfold Abandons at hok
    dsimp only at hok
    change s.notify cfg p = some s' at hs
    unfold Flight.notify at hs
    split at hs
    · cases hs
    · cases hs; exact h
    · rename_i j hj
      rw [hj] at hok
      exact h.onJob hok hs
  | mine e =>
    have hstep : ∃ m, s.mine.step cfg e = some m ∧ s' = s.record cfg m e := by
      cases e with
      | notify => cases hs
      | setTarget | setModel | stop => exact ⟨_, rfl, (Option.some.inj hs).symm⟩
      | _ =>
        obtain ⟨m, hm, rfl⟩ := Option.map_eq_some_iff.1 hs
        exact ⟨m, hm, rfl⟩
    obtain ⟨m, hm, rfl⟩ := hstep
    have hmine : (s.record cfg m e).mine = m := Flight.record_mine m e
    refine ⟨?_, ?_, fun id mi hid hmi sh hsh => ?_, fun ps hps => ?_, ?_⟩
    · rw [hmine]
      exact h.books.step hm
    · rw [hmine]
      exact Mine.inside_step h.inside hm
    · rw [hmine] at hmi
      exact h.drained hok hm hid hmi hsh
    · rw [hmine] at hps
      rcases Mine.sending_step hm hps with hsent | ⟨hph, mi, hmi, hsh⟩
      · refine (h.sending ps hsent).record m e fun mi hmi => h.books.serial_lt hmi (.inr ?_)
        exact Mine.mem_sentBy_onward hsent
      · refine (h.pending _ mi (h.inside _ hph) hmi _ hsh).record m e fun m₁ hm₁ => ?_
        exact h.books.serial_lt hm₁ (.inl (Option.some.inj (hmi.symm.trans hm₁) ▸ hsh))
    · cases e with
      | settle k v => exact h.settle hok hm
      | call id seq nVocab context o =>
        unfold Flight.record
        dsimp only
        split <;> exact h.late
      | _ => exact h.late

end Barred

/-! ## Runs -/

/-- **In every run in which the work in flight at a clean notify is found empty, lost, dropped or
kept back, no share of a window begun under an earlier job is submitted after the notify.** -/
theorem work_abandoned {cfg : Config} (rejects : Proof → Bool) {es : List FlightEvent} {s : Flight}
    (hok : (flightMachine cfg).Guarded (Abandons cfg rejects) (flightMachine cfg).init es)
    (h : (flightMachine cfg).exec (flightMachine cfg).init es = some s) : s.late = [] := by
  refine ((flightMachine cfg).guarded_invariant (I := Barred cfg rejects)
    (fun _ _ _ hI hg hs => hI.step hg hs) ?_ hok h).late
  refine ⟨init_books cfg, fun _ hw => absurd rfl hw, fun id m _ hm sh hsh => ?_,
    fun _ hps => (nomatch hps), rfl⟩
  rw [(init_group hm).2.2] at hsh
  cases hsh

/-- The parameters of a `mining.notify`: an id and a header prefix of one digit. -/
def cleanParams (digit : UInt8) (flag : Json) : List Json :=
  [.string [digit], .string (List.replicate 152 digit), .string (List.replicate 64 48),
    .unsigned 0, .unsigned 7, .unsigned 0, flag]

/-- A worker goes into a batch. -/
def intoBatch : List FlightEvent :=
  [.mine (.loop 0), .mine (.snapshot 0), .mine (.prepare 0 [{ vdfProof := [97] }] [])]

/-- Steps `fro` to `upTo` of a window that ends as `check` says. -/
def windowEnding (check : CheckOutcome) (fro upTo : Nat) : List FlightEvent :=
  (List.range' fro (upTo - fro)).map fun i => .mine (.call ⟨0, false, 0⟩ 0 10
    ([1, 2] ++ List.replicate i 5) { draw := some 5, check, recv := true })

/-- Steps of a window that ends in a solution. -/
def windowSteps : Nat → Nat → List FlightEvent := windowEnding (.emit [1] false)

/-- The batch ends and its share goes out. -/
def sendShare : List FlightEvent :=
  [.mine (.finish 0 1), .mine (.pop 0), .mine (.settle 0 .pass)]

/-- Job 1 and the first `steps` calls of a batch. -/
def firstJob (steps : Nat) : List FlightEvent :=
  [.mine (.setTarget [1]), .mine (.setModel { name := [109] }),
    .notify (cleanParams 49 (.boolean true))] ++ intoBatch ++ windowSteps 0 steps

/-- At the clean notify one share of job 1 waits for a submitter and a window is one call from its
end: the pre-check rejects the one, the other finds a proof below the credit floor.  Then a share
of job 2 goes out. -/
def abandonedRun : List FlightEvent :=
  firstJob 256 ++
    [.mine (.finish 0 1), .mine (.loop 0), .mine (.snapshot 0), .mine (.prepare 0 [] [])] ++
    windowEnding (.emit [3] true) 0 255 ++
    [.notify (cleanParams 50 (.boolean true))] ++ windowEnding (.emit [3] true) 255 256 ++
    [.mine (.finish 0 1), .mine (.pop 0), .mine (.settle 0 .reject)] ++
    intoBatch ++ windowEnding (.emit [2] false) 0 256 ++ sendShare

theorem work_abandoned_inFlight :
    ∃ s, (flightMachine { precheck := .on }).exec (flightMachine { precheck := .on }).init
        abandonedRun = some s ∧
      s.mine.withheld.length = 1 ∧ s.mine.submitted.length = 1 ∧ s.late = [] := by
  have hrun : ((flightMachine { precheck := .on }).exec (flightMachine { precheck := .on }).init
      abandonedRun).map (fun s => (s.mine.withheld.length, s.mine.submitted.length)) =
        some (1, 1) := by
    decide +kernel
  obtain ⟨s, hs, hlen⟩ := Option.map_eq_some_iff.1 hrun
  exact ⟨s, hs, congrArg Prod.fst hlen, congrArg Prod.snd hlen,
    work_abandoned (fun pr => pr.achievedHex == [1]) (by decide +kernel) hs⟩

/-- The clean job comes before the last token of the window. -/
def notifiedLate (flag : Json) : List FlightEvent :=
  firstJob 255 ++ [.notify (cleanParams 50 flag)] ++ windowSteps 255 256 ++ sendShare

/-- The clean job, by its flag or without one, comes before the last token: the batch goes on and
its share is submitted. -/
theorem work_not_abandoned :
    (¬ ∀ s, (flightMachine {}).exec (flightMachine {}).init (notifiedLate (.boolean true)) =
      some s → s.late = []) ∧
    ¬ ∀ s, (flightMachine {}).exec (flightMachine {}).init (notifiedLate .null) =
      some s → s.late = [] := by
  have hlate : ∀ flag ∈ [Json.boolean true, Json.null],
      ((flightMachine {}).exec (flightMachine {}).init (notifiedLate flag)).map
        (·.late.length) = some 1 := by
    decide +kernel
  have hnot : ∀ flag ∈ [Json.boolean true, Json.null],
      ¬ ∀ s, (flightMachine {}).exec (flightMachine {}).init (notifiedLate flag) = some s →
        s.late = [] := by
    intro flag hflag h
    obtain ⟨s, hs, hlen⟩ := Option.map_eq_some_iff.1 (hlate flag hflag)
    rw [h s hs] at hlen
    exact absurd hlen (by decide)
  exact ⟨hnot _ (.head _), hnot _ (.tail _ (.head _))⟩

end Poi
