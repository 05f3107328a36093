import Mathlib.Data.List.Perm.Basic
import SuprMeow.Poi.CurrentJob

/-!
# Where a finished proof is

A proof goes from `check_solutions` through the egress of its group, the group's `pending_q`, the
submit queue and a submitter's hands to `client.submit`, or is dropped by a rule.  At a stop the
workers leave their loops as they are; only the submit queue is emptied.

* `Mine.group_step` — what one step does to one group;
* `proofs_accounted` — at every moment each proof is in exactly one place, and nothing is left in
  an egress or a `pending_q` exactly when the calls received what the checks emitted and a batch
  was completed after each share drained;
* `proof_left_behind` — a proof of the last batch that had not arrived.
-/

set_option autoImplicit false

namespace Poi

open KeyedList

/-! ## The books of one group -/

/-- Whether a call takes a message off the egress: one has arrived, and the call gets to its
receive. -/
def Report.receives (r : Report) (recv : Bool) : Bool := recv && decide (r.ret ≠ -1)

namespace Miner

/-- What a group has emitted, received and given out adds up. -/
structure Accounts (m : Miner) : Prop where
  serials : m.hist.emitted.map (·.serial) = List.range m.hist.emitted.length
  egress : ∃ got, m.hist.emitted = got ++ m.egress ∧ got.length = m.hist.received ∧
    got.Perm (m.hist.dropped ++ m.hist.enqueued.map (·.proof))
  enqueued : m.hist.enqueued = m.hist.handed ++ m.pendingQ

theorem Accounts.congr {m m' : Miner} (h : Accounts m) (hh : m'.hist = m.hist)
    (he : m'.egress = m.egress) (hq : m'.pendingQ = m.pendingQ) : Accounts m' := by
  refine ⟨?_, ?_, ?_⟩
  · rw [hh]; exact h.serials
  · rw [hh, he]; exact h.egress
  · rw [hh, hq]; exact h.enqueued

theorem Accounts.distinct {m : Miner} (h : Accounts m) : m.hist.emitted.Nodup :=
  List.Nodup.of_map _ (h.serials ▸ List.nodup_range)

/-- A call before its receive: the proofs `new` go into the egress. -/
structure Pushes (m m' : Miner) (new : List Proof) : Prop where
  egress : m'.egress = m.egress ++ new
  hist : m'.hist = { m.hist with emitted := m.hist.emitted ++ new }
  serials : new.map (·.serial) = List.range' m.hist.emitted.length new.length
  pendingQ : m'.pendingQ = m.pendingQ
  jobByReq : m'.jobByReq = m.jobByReq

theorem pushes_of_eq {m m' : Miner} (he : m'.egress = m.egress) (hh : m'.hist = m.hist)
    (hq : m'.pendingQ = m.pendingQ) (hj : m'.jobByReq = m.jobByReq) : Pushes m m' [] :=
  ⟨by rw [he, List.append_nil], by rw [hh, List.append_nil], rfl, hq, hj⟩

/-- Only the last part of a call pushes. -/
theorem Pushes.trans {m₁ m₂ m₃ : Miner} {new : List Proof} (h₁ : Pushes m₁ m₂ [])
    (h₂ : Pushes m₂ m₃ new) : Pushes m₁ m₃ new := by
  have hh := h₁.hist
  rw [List.append_nil] at hh
  refine ⟨?_, ?_, ?_, h₂.pendingQ.trans h₁.pendingQ, h₂.jobByReq.trans h₁.jobByReq⟩
  · rw [h₂.egress, h₁.egress, List.append_nil]
  · rw [h₂.hist, hh]
  · rw [h₂.serials, hh]

theorem Pushes.after {m₁ m₂ m₃ : Miner} {new : List Proof} (h₁ : Pushes m₁ m₂ new)
    (h₂ : Pushes m₂ m₃ []) : Pushes m₁ m₃ new := by
  have hh := h₂.hist
  rw [List.append_nil] at hh
  refine ⟨?_, hh.trans h₁.hist, h₁.serials, h₂.pendingQ.trans h₁.pendingQ,
    h₂.jobByReq.trans h₁.jobByReq⟩
  rw [h₂.egress, h₁.egress, List.append_nil]

theorem conclude_pushes (m : Miner) (seq : Nat) (o : CheckOutcome) :
    ∃ new, Pushes m (m.conclude seq o).1 new := by
  have hnone : Pushes m m [] := pushes_of_eq rfl rfl rfl rfl
  unfold conclude
  split
  · exact ⟨[], hnone⟩
  · exact ⟨[], hnone⟩
  · split
    · exact ⟨[], hnone⟩
    · split
      · exact ⟨[], hnone⟩
      · exact ⟨_, rfl, rfl, rfl, rfl, rfl⟩

theorem checkWindow_pushes (m : Miner) (seq : Nat) (o : StepOutcome) :
    ∃ new, Pushes m (m.checkWindow seq o).1 new := by
  have hc : Pushes m { m with coord := (m.coord.checkSolutions seq o.cooling).1 } [] :=
    pushes_of_eq rfl rfl rfl rfl
  unfold checkWindow
  dsimp only
  split
  · exact ⟨[], hc⟩
  · obtain ⟨new, hnew⟩ := conclude_pushes
      { m with coord := (m.coord.checkSolutions seq o.cooling).1 } seq o.check
    exact ⟨new, hc.trans hnew⟩

theorem accept_split (m : Miner) (seq : Nat) {token : Int} (htoken : 0 ≤ token) (steps : Nat)
    (sampled : Option (Nat × Option (List Int))) (o : StepOutcome) :
    ∃ m₁ new, Pushes m m₁ new ∧ (m.accept seq token steps sampled o).1 =
      m₁.drain ((m.accept seq token steps sampled o).2.receives o.recv) := by
  have hr : Pushes m (m.recordStep seq token) [] := pushes_of_eq rfl rfl rfl rfl
  have hret : ∀ r : Report, r.ret = token → r.receives o.recv = o.recv := fun r hr => by
    have hne : r.ret ≠ -1 := by omega
    simp [Report.receives, hne]
  unfold accept
  dsimp only
  split
  · rw [hret _ rfl]
    exact ⟨_, [], hr, rfl⟩
  · obtain ⟨new, hnew⟩ := checkWindow_pushes (m.recordStep seq token) seq o
    split
    · refine ⟨_, new, hr.trans hnew, ?_⟩
      simp [Report.receives, drain]
    · have ht : Pushes ((m.recordStep seq token).checkWindow seq o).1
          (((m.recordStep seq token).checkWindow seq o).1.retire seq) [] :=
        pushes_of_eq rfl rfl rfl rfl
      rw [hret _ rfl]
      exact ⟨_, new, (hr.trans hnew).after ht, rfl⟩

/-- **A call** pushes what its check emits, then makes its receive. -/
theorem onLogits_split (m : Miner) (seq nVocab : Nat) (context : List Int) (o : StepOutcome) :
    ∃ m₁ new, Pushes m m₁ new ∧ (m.onLogits seq nVocab context o).1 =
      m₁.drain ((m.onLogits seq nVocab context o).2.receives o.recv) := by
  have hrefused : ∀ (m' : Miner) sampled, Pushes m m' [] → ∃ m₁ new, Pushes m m₁ new ∧
      m' = m₁.drain (Report.receives { ret := -1, sampled } o.recv) := fun m' sampled h =>
    ⟨m', [], h, by simp [Report.receives, drain]⟩
  unfold onLogits
  split
  · exact hrefused m none (pushes_of_eq rfl rfl rfl rfl)
  · have he : Pushes m (m.enter seq context) [] := by
      unfold enter
      dsimp only
      split <;> exact pushes_of_eq rfl rfl rfl rfl
    have hb : Pushes m ((m.enter seq context).beginSample seq) [] :=
      he.trans (pushes_of_eq rfl rfl rfl rfl)
    unfold sample
    dsimp only
    split
    · split
      · exact hrefused _ _ (hb.trans (pushes_of_eq rfl rfl rfl rfl))
      · rename_i token _ _ hvocab
        obtain ⟨m₁, new, hnew, heq⟩ := accept_split ((m.enter seq context).beginSample seq) seq
          (show 0 ≤ token by omega) (context.length - (m.enter seq context).promptLen seq + 1)
          (some (_, ((m.enter seq context).beginSample seq).coord.promptTokens seq)) o
        exact ⟨m₁, new, hb.trans hnew, heq⟩
    · exact hrefused _ none hb

/-- A step of the group that gives out no share and offers the egress `d` receives. -/
structure Carries (d : Nat) (m m' : Miner) : Prop where
  accounts : Accounts m → Accounts m'
  handed : m'.hist.handed = m.hist.handed
  emits : m.hist.emitted.length ≤ m'.hist.emitted.length
  egress : m'.egress.length =
    m.egress.length + (m'.hist.emitted.length - m.hist.emitted.length) - d
  enqueues : m.hist.enqueued.length ≤ m'.hist.enqueued.length
  pending : m'.pendingQ.length =
    m.pendingQ.length + (m'.hist.enqueued.length - m.hist.enqueued.length)

theorem carries_of_eq {m m' : Miner} (hh : m'.hist = m.hist) (he : m'.egress = m.egress)
    (hq : m'.pendingQ = m.pendingQ) : Carries 0 m m' := by
  refine ⟨fun h => h.congr hh he hq, by rw [hh], by rw [hh], ?_, by rw [hh], ?_⟩
  · rw [hh, he]
    omega
  · rw [hh, hq]
    omega

theorem Carries.refl (m : Miner) : Carries 0 m m := carries_of_eq rfl rfl rfl

theorem Carries.trans {d : Nat} {m₁ m₂ m₃ : Miner} (h₁ : Carries 0 m₁ m₂) (h₂ : Carries d m₂ m₃) :
    Carries d m₁ m₃ := by
  refine ⟨h₂.accounts ∘ h₁.accounts, h₂.handed.trans h₁.handed, h₁.emits.trans h₂.emits, ?_,
    h₁.enqueues.trans h₂.enqueues, ?_⟩
  · have := h₁.emits
    have := h₂.emits
    rw [h₂.egress, h₁.egress]
    omega
  · have := h₁.enqueues
    have := h₂.enqueues
    rw [h₂.pending, h₁.pending]
    omega

theorem Pushes.carries {m m' : Miner} {new : List Proof} (h : Pushes m m' new) :
    Carries 0 m m' := by
  obtain ⟨he, hh, hser, hq, -⟩ := h
  refine ⟨fun ha => ⟨?_, ?_, ?_⟩, by rw [hh], by rw [hh]; simp, by rw [hh, he]; simp,
    by rw [hh], by rw [hh, hq]; simp⟩
  · rw [hh, List.map_append, ha.serials, hser, List.range_eq_range', List.range_eq_range',
      List.length_append, ← List.range'_append_1, Nat.zero_add]
  · obtain ⟨got, hgot, hlen, hp⟩ := ha.egress
    refine ⟨got, ?_, by rw [hh]; exact hlen, by rw [hh]; exact hp⟩
    rw [hh, he, ← List.append_assoc, ← hgot]
  · rw [hh, hq]
    exact ha.enqueued

/-- A message is received: dropped by a rule or queued. -/
theorem receive_carries (m : Miner) {pr : Proof} {rest : List Proof} (hpr : m.egress = pr :: rest) :
    Carries 1 m (m.drain true) := by
  have hlen : rest.length =
      m.egress.length + (m.hist.emitted.length - m.hist.emitted.length) - 1 := by
    rw [hpr, List.length_cons]
    omega
  have hgot : ∀ {dropped : List Proof} {enqueued : List PoiShare},
      (dropped ++ enqueued.map (·.proof)).Perm
        (pr :: (m.hist.dropped ++ m.hist.enqueued.map (·.proof))) →
      Accounts m → ∃ got, m.hist.emitted = got ++ rest ∧ got.length = m.hist.received + 1 ∧
        got.Perm (dropped ++ enqueued.map (·.proof)) := by
    intro dropped enqueued hperm h
    obtain ⟨got, he, hlen, hp⟩ := h.egress
    refine ⟨got ++ [pr], ?_, ?_, ?_⟩
    · rw [he, hpr, List.append_assoc]
      rfl
    · rw [List.length_append, hlen]
      rfl
    · exact ((List.perm_append_singleton pr got).trans (hp.cons pr)).trans hperm.symm
  have hdrop : (m.hist.dropped ++ [pr] ++ m.hist.enqueued.map (·.proof)).Perm
      (pr :: (m.hist.dropped ++ m.hist.enqueued.map (·.proof))) := by
    rw [List.append_assoc]
    exact List.perm_middle
  unfold drain
  rw [hpr]
  unfold receive
  dsimp only
  split
  · exact ⟨fun h => ⟨h.serials, hgot hdrop h, h.enqueued⟩, rfl, le_rfl, hlen, le_rfl, by simp⟩
  · split
    · exact ⟨fun h => ⟨h.serials, hgot hdrop h, h.enqueued⟩, rfl, le_rfl, hlen, le_rfl, by simp⟩
    · split
      · exact ⟨fun h => ⟨h.serials, hgot hdrop h, h.enqueued⟩, rfl, le_rfl, hlen, le_rfl, by simp⟩
      · refine ⟨fun h => ⟨h.serials, hgot ?_ h, ?_⟩, rfl, le_rfl, hlen, by simp, by simp⟩
        · rw [List.map_append, ← List.append_assoc]
          exact List.perm_append_singleton pr _
        · rw [← List.append_assoc, ← h.enqueued]

/-- The receive at the end of a call. -/
theorem drain_carries (m : Miner) (recv : Bool) :
    Carries recv.toNat m (m.drain recv) := by
  cases recv with
  | false => exact Carries.refl m
  | true =>
    cases hpr : m.egress with
    | nil =>
      -- a receive on an empty egress takes nothing
      have hd : m.drain true = m := by
        unfold drain
        rw [hpr]
      rw [hd]
      exact ⟨id, rfl, le_rfl, by rw [hpr]; simp, le_rfl, by omega⟩
    | cons pr rest => exact receive_carries m hpr

/-- **What a call adds to the books.** -/
theorem onLogits_carries (m : Miner) (seq nVocab : Nat) (context : List Int) (o : StepOutcome) :
    Carries ((m.onLogits seq nVocab context o).2.receives o.recv).toNat m
      (m.onLogits seq nVocab context o).1 := by
  obtain ⟨m₁, new, hnew, heq⟩ := onLogits_split m seq nVocab context o
  rw [heq]
  exact hnew.carries.trans (drain_carries m₁ _)

theorem setJob_same {m m' : Miner} {p : PoiJobParams} {o : JobOutcome} {ok : Bool}
    (h : m.setJob p o = some (m', ok)) :
    m'.hist = m.hist ∧ m'.egress = m.egress ∧ m'.pendingQ = m.pendingQ := by
  obtain ⟨hex, tick, parent, proved, hv⟩ :=
    updateVdf_eq { m with lastCtx := fun _ => none } p o.vdfProof
  unfold setJob at h
  dsimp only at h
  rw [hv] at h
  split at h
  · cases h; exact ⟨rfl, rfl, rfl⟩
  · split at h
    · cases h
    · split at h
      · cases h; exact ⟨rfl, rfl, rfl⟩
      · split at h
        · cases h; exact ⟨rfl, rfl, rfl⟩
        · split at h
          · cases h
          · cases h; exact ⟨rfl, rfl, rfl⟩

/-- Shares are given out in order. -/
theorem Accounts.give {m : Miner} (h : Accounts m) {given pending : List PoiShare}
    (hq : m.pendingQ = given ++ pending) : Accounts (m.give given pending) := by
  refine ⟨h.serials, h.egress, ?_⟩
  have he := h.enqueued
  rw [hq, ← List.append_assoc] at he
  exact he

end Miner

/-! ## The submit queue -/

/-- The shares of a list that come from a group. -/
def sentBy (id : GroupId) (l : List PendingShare) : List PoiShare :=
  (l.filter (·.source == id)).map (·.sh)

theorem sentBy_append (id : GroupId) (l l' : List PendingShare) :
    sentBy id (l ++ l') = sentBy id l ++ sentBy id l' := by
  simp [sentBy]

theorem sentBy_perm {l l' : List PendingShare} (h : l.Perm l') (id : GroupId) :
    (sentBy id l).Perm (sentBy id l') :=
  (h.filter _).map _

theorem sentBy_pool (w w' device : Nat) (b b' : Bool) (g : Nat) (l : List (Nat × PoiShare)) :
    sentBy ⟨w', b', g⟩
        (l.map fun e => { sh := e.2, device, source := ⟨w, b, e.1⟩ }) =
      if w' = w ∧ b' = b then SamplerPool.ofGroup g l else [] := by
  induction l with
  | nil =>
    unfold sentBy SamplerPool.ofGroup
    split <;> rfl
  | cons e l ih =>
    obtain ⟨k, s⟩ := e
    rw [SamplerPool.ofGroup_cons, List.map_cons]
    unfold sentBy at ih ⊢
    rw [List.filter_cons]
    by_cases hid : w' = w ∧ b' = b
    · obtain ⟨rfl, rfl⟩ := hid
      rw [if_pos (And.intro rfl rfl)] at ih
      by_cases hk : k = g <;> simp [hk, ih]
    · rw [if_neg hid] at ih ⊢
      rw [if_neg, ih]
      intro he
      have he' : (⟨w, b, k⟩ : GroupId) = ⟨w', b', g⟩ := by simpa using he
      cases he'
      exact hid ⟨rfl, rfl⟩

/-- What a hand-over sends of one group. -/
theorem sentBy_handOver (wk : Worker) (w w' device : Nat) (b : Bool) (g : Nat) :
    sentBy ⟨w', b, g⟩ (wk.handOver w device).1 =
      if w' = w then SamplerPool.ofGroup g (wk.pools b).takeShares.1 else [] := by
  unfold Worker.handOver
  dsimp only
  rw [sentBy_append, sentBy_pool, sentBy_pool]
  cases b with
  | false => by_cases hw : w' = w <;> simp [hw, Worker.pools]
  | true => by_cases hw : w' = w <;> simp [hw, Worker.pools]

/-! ## What a step does to one group -/

/-- The steps that act on a group: its calls, and the completed batches of its worker. -/
def MineEvent.ActsOn (id : GroupId) : MineEvent → Prop
  | .call i .. => i = id
  | .finish w n => w = id.worker ∧ 0 ≤ n
  | _ => False

/-- A step of the miner, seen from a group. -/
inductive GroupStep (id : GroupId) : MineEvent → Miner → Miner → Prop where
  | same {e : MineEvent} (h : ¬ e.ActsOn id) (m : Miner) : GroupStep id e m m
  | job {m m' : Miner} {p : PoiJobParams} {o : JobOutcome} {ok : Bool} (oa ob : List JobOutcome)
    (h : m.setJob p o = some (m', ok)) : GroupStep id (.prepare id.worker oa ob) m m'
  | call (seq nVocab : Nat) (context : List Int) (o : StepOutcome) (m : Miner) :
    GroupStep id (.call id seq nVocab context o) m (m.onLogits seq nVocab context o).1
  | handOver {n : Int} (h : 0 ≤ n) (m : Miner) :
    GroupStep id (.finish id.worker n) m (m.give m.pendingQ [])

namespace Mine

def group (s : Mine) (id : GroupId) : Option Miner :=
  ((s.workers id.worker).pools id.second)[id.group]?

theorem group_setWorker (s : Mine) (w : Nat) (wk : Worker) (id : GroupId) :
    (s.setWorker w wk).group id =
      if id.worker = w then (wk.pools id.second)[id.group]? else s.group id := by
  unfold group setWorker
  dsimp only
  rw [Function.update_apply]
  split <;> rfl

theorem rel_same {e : MineEvent} {id : GroupId} (h : ¬ e.ActsOn id) (om : Option Miner) :
    Option.Rel (GroupStep id e) om om := by
  cases om with
  | none => exact .none
  | some m => exact .some (.same h m)

/-- A step that leaves the groups of its worker alone. -/
theorem rel_setPhase {e : MineEvent} {id : GroupId} (h : ¬ e.ActsOn id) (s : Mine) (w : Nat)
    {wk : Worker} (hp : ∀ b, wk.pools b = (s.workers w).pools b) :
    Option.Rel (GroupStep id e) (s.group id) ((s.setWorker w wk).group id) := by
  rw [group_setWorker]
  split
  · rename_i hid
    rw [hp, ← hid]
    exact rel_same h _
  · exact rel_same h _

theorem fanOut_group {wk wk' : Worker} {p : PoiJobParams} {oa ob : List JobOutcome} {ok : Bool}
    (hf : wk.fanOut p oa ob = some (wk', ok)) (id : GroupId) (b : Bool) (g : Nat) :
    Option.Rel (GroupStep id (.prepare id.worker oa ob)) (wk.pools b)[g]? (wk'.pools b)[g]? := by
  have hact : ¬ MineEvent.ActsOn id (.prepare id.worker oa ob) := not_false
  have hpool : ∀ {pool pool' : SamplerPool} {os : List JobOutcome} {k : Nat} {ok : Bool},
      pool.setJob p os = some (pool', k, ok) →
      Option.Rel (GroupStep id (.prepare id.worker oa ob)) pool[g]? pool'[g]? :=
    fun h => SamplerPool.rel_of_length (SamplerPool.setJob_length h) fun _ hg =>
      SamplerPool.setJob_group (GroupStep.same hact) (fun _ _ _ _ hj => .job oa ob hj) h hg
  unfold Worker.fanOut at hf
  split at hf
  · cases hf
  · rename_i pool k hA
    cases hf
    cases b with
    | false => exact hpool hA
    | true => exact rel_same hact _
  · rename_i pool k hA
    split at hf
    · cases hf
    · rename_i poolB kB okB hB
      cases hf
      cases b with
      | false => exact hpool hA
      | true => exact hpool hB

theorem prepare_group {cfg : Config} {s s' : Mine} {w : Nat} {oa ob : List JobOutcome}
    (hs : s.prepare cfg w oa ob = some s') (id : GroupId) :
    Option.Rel (GroupStep id (.prepare w oa ob)) (s.group id) (s'.group id) := by
  have hact : ¬ MineEvent.ActsOn id (.prepare w oa ob) := not_false
  have hpools : ∀ {b : Bool} {ph : Phase} (wk : Worker),
      ({ wk with phase := ph } : Worker).pools b = wk.pools b := fun {b _} _ => by cases b <;> rfl
  have hkeep : ∀ ph, Option.Rel (GroupStep id (.prepare w oa ob)) (s.group id)
      ((s.setPhase w ph).group id) := fun ph => rel_setPhase hact s w fun b => hpools _
  unfold prepare at hs
  split at hs
  · rename_i j m hph
    split at hs
    · cases hs
      exact hkeep .test
    split at hs
    · cases hs
      exact hkeep .test
    split at hs
    · cases hs
      exact hkeep (.batch j m)
    have hfan : ∀ {wk : Worker} {ok : Bool} {ph : Phase},
        (s.workers w).fanOut (cfg.jobParams j m) oa ob = some (wk, ok) →
        Option.Rel (GroupStep id (.prepare w oa ob)) (s.group id)
          ((s.setWorker w { wk with phase := ph }).group id) := fun {wk ok ph} hf => by
      rw [group_setWorker]
      split
      · rename_i hid
        subst hid
        rw [hpools]
        exact fanOut_group hf id _ _
      · exact rel_same hact _
    split at hs
    · cases hs
    · rename_i wk hf
      cases hs
      exact hfan hf
    · rename_i wk hf
      cases hs
      exact hfan hf
  · cases hs

theorem call_group {s s' : Mine} {i : GroupId} {seq nVocab : Nat} {context : List Int}
    {o : StepOutcome} (hs : s.call i seq nVocab context o = some s') (id : GroupId) :
    Option.Rel (GroupStep id (.call i seq nVocab context o)) (s.group id) (s'.group id) := by
  unfold call at hs
  dsimp only at hs
  split at hs
  swap
  · cases hs
  rename_i m _ hm
  split at hs <;> cases hs
  have hlt := (List.getElem?_eq_some_iff.1 hm).1
  rw [group_setWorker]
  by_cases hid : i = id
  · subst hid
    have hself : (((s.workers i.worker).setPool i.second
        (((s.workers i.worker).pools i.second).set i.group
          (m.onLogits seq nVocab context o).1)).pools i.second)[i.group]? =
        some (m.onLogits seq nVocab context o).1 := by
      unfold Worker.setPool Worker.pools at *
      cases hsec : i.second <;> simp only [hsec] at hlt ⊢ <;> exact List.getElem?_set_self hlt
    rw [if_pos rfl, hself, group, hm]
    exact .some (.call seq nVocab context o m)
  · have hact : ¬ MineEvent.ActsOn id (.call i seq nVocab context o) := hid
    split
    · rename_i hw
      have hother : (((s.workers i.worker).setPool i.second
          (((s.workers i.worker).pools i.second).set i.group
            (m.onLogits seq nVocab context o).1)).pools id.second)[id.group]? = s.group id := by
        obtain ⟨w, b, g⟩ := i
        obtain ⟨w', b', g'⟩ := id
        obtain rfl : w' = w := hw
        have hne : b = b' → g ≠ g' := by
          rintro rfl rfl
          exact hid rfl
        cases b <;> cases b' <;> first | rfl | exact List.getElem?_set_ne (hne rfl)
      rw [hother]
      exact rel_same hact _
    · exact rel_same hact _

theorem handOver_group (cfg : Config) (s : Mine) (w : Nat) {n : Int} (hn : 0 ≤ n) (id : GroupId) :
    Option.Rel (GroupStep id (.finish w n)) (s.group id) ((s.handOver cfg w).group id) := by
  have hgroup : (s.handOver cfg w).group id = if id.worker = w then
      ((((s.workers w).handOver w (cfg.device w)).2).pools id.second)[id.group]?
      else s.group id := by
    refine (group_setWorker s w _ id).trans ?_
    cases id.second <;> rfl
  rw [hgroup]
  split
  · rename_i hid
    subst hid
    have hpool : ∀ pool : SamplerPool, Option.Rel (GroupStep id (.finish id.worker n))
        pool[id.group]? pool.takeShares.2[id.group]? := fun pool =>
      SamplerPool.rel_of_length (SamplerPool.takeShares_length pool) fun m' hg => by
        obtain ⟨m, hm, -, rfl⟩ := SamplerPool.takeShares_all hg
        exact ⟨m, hm, .handOver hn m⟩
    unfold group
    cases hb : id.second <;> exact hpool _
  · rename_i hid
    have hact : ¬ MineEvent.ActsOn id (.finish w n) := fun h => hid h.1.symm
    exact rel_same hact _

theorem finish_group {cfg : Config} {s s' : Mine} {w : Nat} {n : Int}
    (hs : s.finish cfg w n = some s') (id : GroupId) :
    Option.Rel (GroupStep id (.finish w n)) (s.group id) (s'.group id) := by
  have hact : n < 0 → ¬ MineEvent.ActsOn id (.finish w n) := fun hneg h =>
    absurd h.2 (by omega)
  unfold finish at hs
  dsimp only at hs
  split at hs
  swap
  · cases hs
  split at hs
  · rename_i hd
    cases hs
    exact rel_setPhase (hact (by omega)) s w fun b => by cases b <;> rfl
  split at hs
  · rename_i hneg
    cases hs
    exact rel_setPhase (hact hneg) s w fun b => by cases b <;> rfl
  · cases hs
    exact handOver_group cfg s w (by omega) id

/-- **What a step does to one group.** -/
theorem group_step {cfg : Config} {s s' : Mine} {e : MineEvent} (hs : s.step cfg e = some s')
    (id : GroupId) : Option.Rel (GroupStep id e) (s.group id) (s'.group id) := by
  cases e with
  | prepare w oa ob => exact prepare_group hs id
  | call i seq nVocab context o => exact call_group hs id
  | finish w n => exact finish_group hs id
  | loop w =>
    have hact : ¬ MineEvent.ActsOn id (.loop w) := not_false
    unfold step at hs
    dsimp only at hs
    split at hs <;> cases hs
    exact rel_setPhase hact s w fun b => by cases b <;> rfl
  | snapshot w =>
    have hact : ¬ MineEvent.ActsOn id (.snapshot w) := not_false
    unfold step at hs
    dsimp only at hs
    split at hs <;> cases hs
    exact rel_setPhase hact s w fun b => by cases b <;> rfl
  | setTarget | notify | setModel | stop | producersDone | pop | settle | gone | «return» =>
    have hgroup : s'.group id = s.group id := by
      unfold group
      rw [(Mine.step_quiet rfl hs).workers]
    rw [hgroup]
    exact rel_same (by exact not_false) _

end Mine

/-! ## The books of the miner -/

/-- **Each proof of a group is in exactly one place.** -/
structure Accounted (s : Mine) (id : GroupId) (m : Miner) : Prop where
  distinct : m.hist.emitted.Nodup
  places : m.hist.emitted.Perm
    (m.egress ++ m.hist.dropped ++ m.pendingQ.map (·.proof) ++
      (sentBy id s.submitQ).map (·.proof) ++ (sentBy id (s.hands.map (·.2))).map (·.proof) ++
      (sentBy id s.submitted).map (·.proof) ++ (sentBy id s.withheld).map (·.proof))

structure Books (s : Mine) : Prop where
  accounts : ∀ id m, s.group id = some m → m.Accounts
  handed : ∀ id m, s.group id = some m → m.hist.handed.Perm (sentBy id s.onward)

theorem Books.accounted {s : Mine} (h : Books s) {id : GroupId} {m : Miner}
    (hm : s.group id = some m) : Accounted s id m := by
  have ha := h.accounts id m hm
  refine ⟨ha.distinct, ?_⟩
  obtain ⟨got, he, -, hp⟩ := ha.egress
  have hh := (h.handed id m hm).map (·.proof)
  unfold Mine.onward at hh
  simp only [sentBy_append, List.map_append] at hh
  rw [he]
  rw [ha.enqueued, List.map_append] at hp
  refine (List.perm_append_comm.trans (hp.append_left m.egress)).trans ?_
  simp only [List.append_assoc] at hh ⊢
  refine List.Perm.append_left _ (List.Perm.append_left _ ?_)
  exact List.perm_append_comm.trans (hh.append_left _)

theorem GroupStep.accounts {id : GroupId} {e : MineEvent} {m m' : Miner} (h : GroupStep id e m m')
    (ha : m.Accounts) : m'.Accounts := by
  cases h with
  | same => exact ha
  | job oa ob hj =>
    obtain ⟨hh, he, hq⟩ := Miner.setJob_same hj
    exact ha.congr hh he hq
  | call seq nVocab context o => exact (Miner.onLogits_carries m seq nVocab context o).accounts ha
  | handOver => exact ha.give (List.append_nil _).symm

/-- Only a completed batch gives shares out. -/
theorem GroupStep.handed {id : GroupId} {e : MineEvent} {m m' : Miner} (h : GroupStep id e m m')
    (he : ∀ w n, e = .finish w n → n < 0) : m'.hist.handed = m.hist.handed := by
  cases h with
  | same => rfl
  | job oa ob hj => rw [(Miner.setJob_same hj).1]
  | call seq nVocab context o => exact (Miner.onLogits_carries m seq nVocab context o).handed
  | handOver hn => exact absurd (he _ _ rfl) (by omega)

/-- A completed batch gives out what it sends. -/
theorem handOver_handed {cfg : Config} {s : Mine} {w : Nat} {id : GroupId} {m m' : Miner}
    (hm : s.group id = some m) (hm' : (s.handOver cfg w).group id = some m') :
    m'.hist.handed =
      m.hist.handed ++ sentBy id ((s.workers w).handOver w (cfg.device w)).1 := by
  obtain ⟨w', b, g⟩ := id
  rw [sentBy_handOver]
  unfold Mine.handOver at hm'
  change (s.setWorker w _).group _ = some m' at hm'
  rw [Mine.group_setWorker] at hm'
  split
  · rename_i hid
    subst hid
    rw [if_pos rfl] at hm'
    have htake : ((s.workers w').pools b).takeShares.2[g]? = some m' := by
      cases b <;> exact hm'
    obtain ⟨m₀, hm₀, hq, rfl⟩ := SamplerPool.takeShares_all htake
    obtain rfl : m₀ = m := Option.some.inj (hm₀.symm.trans hm)
    exact congrArg (m₀.hist.handed ++ ·) hq
  · rename_i hid
    rw [if_neg hid, hm] at hm'
    cases hm'
    exact (List.append_nil _).symm

/-- Only a completed batch sends shares on. -/
theorem Mine.onward_step {cfg : Config} {s s' : Mine} {e : MineEvent}
    (hs : s.step cfg e = some s') (he : ∀ w n, e = .finish w n → n < 0) :
    s.onward.Perm s'.onward := by
  cases e with
  | prepare w oa ob =>
    change s.prepare cfg w oa ob = some s' at hs
    unfold prepare at hs
    split at hs
    · split at hs
      · cases hs; exact List.Perm.refl _
      split at hs
      · cases hs; exact List.Perm.refl _
      split at hs
      · cases hs; exact List.Perm.refl _
      split at hs <;> cases hs <;> exact List.Perm.refl _
    · cases hs
  | call id seq nVocab context o =>
    change s.call id seq nVocab context o = some s' at hs
    unfold call at hs
    dsimp only at hs
    split at hs
    · split at hs <;> cases hs
      exact List.Perm.refl _
    · cases hs
  | finish w n =>
    have hn := he w n rfl
    change s.finish cfg w n = some s' at hs
    unfold finish at hs
    dsimp only at hs
    split at hs
    · split at hs
      · cases hs; exact List.Perm.refl _
      · cases hs
        exact List.Perm.refl _
    · cases hs
  | loop | snapshot =>
    unfold step at hs
    dsimp only at hs
    split at hs <;> cases hs
    exact List.Perm.refl _
  | setTarget | notify | setModel | stop | producersDone | pop | settle | gone | «return» =>
    exact (Mine.step_quiet rfl hs).onward

theorem Mine.step_finish {cfg : Config} {s s' : Mine} {w : Nat} {n : Int} (hn : 0 ≤ n)
    (hs : s.step cfg (.finish w n) = some s') : s' = s.handOver cfg w := by
  change s.finish cfg w n = some s' at hs
  unfold finish at hs
  dsimp only at hs
  split at hs
  · rw [if_neg (by omega), if_neg (by omega)] at hs
    exact (Option.some.inj hs).symm
  · cases hs

/-- A group after a step and before it. -/
theorem Mine.group_before {cfg : Config} {s s' : Mine} {e : MineEvent}
    (hs : s.step cfg e = some s') {id : GroupId} {m' : Miner} (hm' : s'.group id = some m') :
    ∃ m, s.group id = some m ∧ GroupStep id e m m' := by
  have hrel := Mine.group_step hs id
  rw [hm'] at hrel
  cases hm : s.group id with
  | none => rw [hm] at hrel; cases hrel
  | some m =>
    rw [hm] at hrel
    cases hrel with
    | some hg => exact ⟨m, rfl, hg⟩

/-- **Every step keeps the books.** -/
theorem Books.step {cfg : Config} {s s' : Mine} {e : MineEvent} (h : Books s)
    (hs : s.step cfg e = some s') : Books s' := by
  refine ⟨fun id m' hm' => ?_, fun id m' hm' => ?_⟩
  · obtain ⟨m, hm, hg⟩ := Mine.group_before hs hm'
    exact hg.accounts (h.accounts id m hm)
  obtain ⟨m, hm, hg⟩ := Mine.group_before hs hm'
  by_cases hfin : ∃ w n, e = .finish w n ∧ 0 ≤ n
  · obtain ⟨w, n, rfl, hn⟩ := hfin
    obtain rfl := Mine.step_finish hn hs
    rw [handOver_handed hm hm']
    have hsent := (h.handed id m hm).append_right
      (sentBy id ((s.workers w).handOver w (cfg.device w)).1)
    rw [← sentBy_append] at hsent
    refine hsent.trans (sentBy_perm ?_ id)
    unfold Mine.onward Mine.handOver Mine.setWorker
    dsimp only
    simp only [List.append_assoc]
    refine List.Perm.append_left _ ?_
    have hc := @List.perm_append_comm _ (s.hands.map (·.2) ++ s.submitted ++ s.withheld)
      ((s.workers w).handOver w (cfg.device w)).1
    simpa only [List.append_assoc] using hc
  · have hneg : ∀ w n, e = .finish w n → n < 0 := fun w n he =>
      not_le.1 fun hn => hfin ⟨w, n, he, hn⟩
    rw [hg.handed hneg]
    exact (h.handed id m hm).trans (sentBy_perm (Mine.onward_step hs hneg) id)

/-! ## What is left at the end -/

namespace Miner

/-- The proofs a call emits, the receives it offers, the shares it drains. -/
def emits (m : Miner) (seq nVocab : Nat) (context : List Int) (o : StepOutcome) : Nat :=
  (m.onLogits seq nVocab context o).1.hist.emitted.length - m.hist.emitted.length

def offers (m : Miner) (seq nVocab : Nat) (context : List Int) (o : StepOutcome) : Nat :=
  ((m.onLogits seq nVocab context o).2.receives o.recv).toNat

def drains (m : Miner) (seq nVocab : Nat) (context : List Int) (o : StepOutcome) : Nat :=
  (m.onLogits seq nVocab context o).1.hist.enqueued.length - m.hist.enqueued.length

end Miner

/-- A count of the calls of group `id`. -/
def Mine.called (id : GroupId) (f : Miner → Nat → Nat → List Int → StepOutcome → Nat) (s : Mine) :
    MineEvent → Nat
  | .call i seq nVocab context o =>
    if i = id then ((s.group id).map fun m => f m seq nVocab context o).getD 0 else 0
  | _ => 0

/-- In every end segment of the run a message has arrived for as many calls of the group, each
reaching its receive, as its checks emit proofs. -/
def Arrive (cfg : Config) (es : List MineEvent) (id : GroupId) : Prop :=
  ∀ pre suf t, es = pre ++ suf → (mineMachine cfg).exec (mineMachine cfg).init pre = some t →
    (mineMachine cfg).total (Mine.called id Miner.emits) t suf ≤
      (mineMachine cfg).total (Mine.called id Miner.offers) t suf

/-- After each call of the group that drains a share its worker completes a batch. -/
def Completed (cfg : Config) (es : List MineEvent) (id : GroupId) : Prop :=
  ∀ pre e suf t, es = pre ++ e :: suf →
    (mineMachine cfg).exec (mineMachine cfg).init pre = some t →
    0 < Mine.called id Miner.drains t e → ∃ d ∈ suf, ∃ n, 0 ≤ n ∧ d = .finish id.worker n

/-- Nothing is left in an egress or a `pending_q`. -/
def NoneLeft (cfg : Config) (s : Mine) : Prop :=
  ∀ id m, id.worker < cfg.nWorkers → s.group id = some m → m.egress = [] ∧ m.pendingQ = []

/-- How much of a list of a group there is. -/
def Mine.held (s : Mine) (id : GroupId) {α : Type} (f : Miner → List α) : Nat :=
  ((s.group id).map fun m => (f m).length).getD 0

theorem called_of_not_actsOn {id : GroupId} {e : MineEvent} (h : ¬ e.ActsOn id)
    (f : Miner → Nat → Nat → List Int → StepOutcome → Nat) (s : Mine) : s.called id f e = 0 := by
  cases e with
  | call i seq nVocab context o => exact if_neg h
  | _ => rfl

theorem called_none {s : Mine} {id : GroupId} (h : s.group id = none)
    (f : Miner → Nat → Nat → List Int → StepOutcome → Nat) (e : MineEvent) :
    s.called id f e = 0 := by
  cases e with
  | call i seq nVocab context o => simp [Mine.called, h]
  | _ => rfl

theorem called_some {s : Mine} {id : GroupId} {m : Miner} (h : s.group id = some m)
    (f : Miner → Nat → Nat → List Int → StepOutcome → Nat) (seq nVocab : Nat)
    (context : List Int) (o : StepOutcome) :
    s.called id f (.call id seq nVocab context o) = f m seq nVocab context o := by
  simp [Mine.called, h]

/-- **The egress of a group** grows by what the calls emit and shrinks by what they receive. -/
theorem egress_step {cfg : Config} {s s' : Mine} {e : MineEvent} (id : GroupId)
    (hs : s.step cfg e = some s') : s'.held id (·.egress) =
      s.held id (·.egress) + s.called id Miner.emits e - s.called id Miner.offers e := by
  have hrel := Mine.group_step hs id
  unfold Mine.held
  cases hm : s.group id with
  | none =>
    rw [hm] at hrel
    cases hm' : s'.group id with
    | none => rw [called_none hm, called_none hm]; rfl
    | some m' => rw [hm'] at hrel; cases hrel
  | some m =>
    rw [hm] at hrel
    cases hm' : s'.group id with
    | none => rw [hm'] at hrel; cases hrel
    | some m' =>
      rw [hm'] at hrel
      cases hrel with
      | some hg =>
        change m'.egress.length = m.egress.length + _ - _
        cases hg with
        | same hact => rw [called_of_not_actsOn hact, called_of_not_actsOn hact]; rfl
        | job oa ob hj => rw [(Miner.setJob_same hj).2.1]; rfl
        | handOver => rfl
        | call seq nVocab context o =>
          rw [called_some hm, called_some hm]
          exact (Miner.onLogits_carries m seq nVocab context o).egress

/-- **The `pending_q` of a group** is empty after a completed batch, and stays empty until a call
drains a share. -/
theorem pending_step {cfg : Config} {s s' : Mine} {e : MineEvent} (id : GroupId)
    (hs : s.step cfg e = some s') : s'.held id (·.pendingQ) = 0 ↔
      (∃ n, 0 ≤ n ∧ e = .finish id.worker n) ∨
        s.held id (·.pendingQ) = 0 ∧ ¬ 0 < s.called id Miner.drains e := by
  have hrel := Mine.group_step hs id
  have hfin : (∃ n, 0 ≤ n ∧ e = .finish id.worker n) → e.ActsOn id := by
    rintro ⟨n, hn, rfl⟩
    exact ⟨rfl, hn⟩
  unfold Mine.held
  cases hm : s.group id with
  | none =>
    rw [hm] at hrel
    cases hm' : s'.group id with
    | none => rw [called_none hm]; exact iff_of_true rfl (.inr ⟨rfl, lt_irrefl 0⟩)
    | some m' => rw [hm'] at hrel; cases hrel
  | some m =>
    rw [hm] at hrel
    cases hm' : s'.group id with
    | none => rw [hm'] at hrel; cases hrel
    | some m' =>
      rw [hm'] at hrel
      cases hrel with
      | some hg =>
        change m'.pendingQ.length = 0 ↔ _ ∨ m.pendingQ.length = 0 ∧ _
        cases hg with
        | same hact =>
          rw [called_of_not_actsOn hact]
          refine ⟨fun h => .inr ⟨h, lt_irrefl 0⟩, fun h => ?_⟩
          exact (h.resolve_left fun hf => hact (hfin hf)).1
        | job oa ob hj =>
          rw [(Miner.setJob_same hj).2.2]
          simp [Mine.called]
        | handOver hn => exact iff_of_true rfl (.inl ⟨_, hn, rfl⟩)
        | call seq nVocab context o =>
          rw [called_some hm, (Miner.onLogits_carries m seq nVocab context o).pending]
          have hcall : ¬ ∃ n, 0 ≤ n ∧ MineEvent.call id seq nVocab context o =
              .finish id.worker n := by
            rintro ⟨n, -, h⟩
            cases h
          rw [or_iff_right hcall, Miner.drains]
          omega

/-! ## Runs -/

/-- The groups of a miner that has not begun are empty. -/
theorem init_group {cfg : Config} {id : GroupId} {m : Miner}
    (hm : (mineMachine cfg).init.group id = some m) :
    m.hist = {} ∧ m.egress = [] ∧ m.pendingQ = [] := by
  have hinit : ∀ m ∈ SamplerPool.init cfg.nStreams cfg.nGroups,
      m.hist = {} ∧ m.egress = [] ∧ m.pendingQ = [] := by
    intro m hm
    obtain ⟨cnt, -, rfl⟩ := List.mem_map.1 hm
    exact ⟨rfl, rfl, rfl⟩
  have hmem := List.mem_of_getElem? hm
  cases hb : id.second with
  | false =>
    rw [hb] at hmem
    exact hinit m hmem
  | true =>
    rw [hb] at hmem
    change m ∈ ite _ _ _ at hmem
    split at hmem
    · exact hinit m hmem
    · cases hmem

theorem init_books (cfg : Config) : Books (mineMachine cfg).init := by
  refine ⟨fun id m hm => ?_, fun id m hm => ?_⟩
  · obtain ⟨hh, he, hq⟩ := init_group hm
    exact ⟨by rw [hh]; rfl, ⟨[], by rw [hh, he]; rfl, by rw [hh]; rfl, by rw [hh]; rfl⟩,
      by rw [hh, hq]; rfl⟩
  · rw [(init_group hm).1]
    exact List.Perm.refl []

theorem init_held {cfg : Config} (id : GroupId) :
    (mineMachine cfg).init.held id (·.egress) = 0 ∧
      (mineMachine cfg).init.held id (·.pendingQ) = 0 := by
  unfold Mine.held
  cases hm : (mineMachine cfg).init.group id with
  | none => exact ⟨rfl, rfl⟩
  | some m =>
    obtain ⟨-, he, hq⟩ := init_group hm
    exact ⟨congrArg List.length he, congrArg List.length hq⟩

theorem noneLeft_iff_held {cfg : Config} {s : Mine} : NoneLeft cfg s ↔
    ∀ id : GroupId, id.worker < cfg.nWorkers →
      s.held id (·.egress) = 0 ∧ s.held id (·.pendingQ) = 0 := by
  unfold NoneLeft Mine.held
  refine forall_congr' fun id => ?_
  cases hm : s.group id with
  | none => simp
  | some m => simp

/-- **In every run each proof is in exactly one place, and nothing is left in an egress or a
`pending_q` at its end, `main`'s return as any other, if and only if every message emitted has
arrived at a receive and a batch was completed after each share drained.** -/
theorem proofs_accounted {cfg : Config} {es : List MineEvent} {s : Mine}
    (h : (mineMachine cfg).exec (mineMachine cfg).init es = some s) :
    (∀ id m, s.group id = some m → Accounted s id m) ∧
    (NoneLeft cfg s ↔
      ∀ id : GroupId, id.worker < cfg.nWorkers → Arrive cfg es id ∧ Completed cfg es id) := by
  have hbooks : Books s := (mineMachine cfg).exec_invariant (I := Books)
    (fun _ _ _ hI hs => hI.step hs) (init_books cfg) h
  refine ⟨fun id m hm => hbooks.accounted hm, noneLeft_iff_held.trans ?_⟩
  refine forall₂_congr fun id _ => and_congr ?_ ?_
  · exact (mineMachine cfg).queue_empty_iff (fun _ _ _ hs => egress_step id hs) (init_held id).1 h
  · have hexcl : ∀ (t : Mine) (e : MineEvent), 0 < Mine.called id Miner.drains t e →
        ¬ ∃ n, 0 ≤ n ∧ e = .finish id.worker n := by
      rintro t e hadd ⟨n, -, rfl⟩
      exact absurd hadd (lt_irrefl 0)
    exact (mineMachine cfg).cleared_iff hexcl (fun _ _ _ hs => pending_step id hs)
      (init_held id).2 h

/-- A batch of one stream that emits a proof with its last token, and the whole shutdown. -/
def lastBatch (recv : Bool) : List MineEvent :=
  [.setTarget [1], .setModel { name := [109] }, .notify (poolJob 48), .loop 0, .snapshot 0,
    .prepare 0 [{}] []] ++
  (List.range windowSize).map (fun i =>
    .call ⟨0, false, 0⟩ 0 10 ([1, 2] ++ List.replicate i 5)
      { draw := some 5, check := .emit [1] false, recv }) ++
  [.stop, .finish 0 1, .loop 0, .producersDone]

/-- The proof arrives at once and is submitted: the run meets the condition, and nothing is
left. -/
theorem proofs_accounted_submitted :
    ∃ s, (mineMachine {}).exec (mineMachine {}).init
        (lastBatch true ++ [.pop 0, .settle 0 .pass, .gone 0, .return]) = some s ∧
      s.submitted.length = 1 ∧ s.returned = true ∧
      (∀ id m, s.group id = some m → Accounted s id m) ∧ NoneLeft {} s ∧
      ∀ id : GroupId, id.worker < 1 →
        Arrive {} (lastBatch true ++ [.pop 0, .settle 0 .pass, .gone 0, .return]) id ∧
        Completed {} (lastBatch true ++ [.pop 0, .settle 0 .pass, .gone 0, .return]) id := by
  have hrun : ((mineMachine {}).exec (mineMachine {}).init
      (lastBatch true ++ [.pop 0, .settle 0 .pass, .gone 0, .return])).map
        (fun s => (s.submitted.length, s.returned,
          [false, true].all fun b => ((s.workers 0).pools b).all fun m =>
            m.egress.isEmpty && m.pendingQ.isEmpty)) = some (1, true, true) := by
    decide +kernel
  obtain ⟨s, hs, he⟩ := Option.map_eq_some_iff.1 hrun
  have hempty : ([false, true].all fun b => ((s.workers 0).pools b).all fun m =>
      m.egress.isEmpty && m.pendingQ.isEmpty) = true := congrArg (·.2.2) he
  have hnone : NoneLeft {} s := by
    rintro ⟨w, b, g⟩ m hw hm
    obtain rfl : w = 0 := by
      have hw : w < 1 := hw
      omega
    have hall := List.all_eq_true.1 (List.all_eq_true.1 hempty b (by cases b <;> decide)) m
      (List.mem_of_getElem? hm)
    simpa using hall
  obtain ⟨hplaces, hiff⟩ := proofs_accounted hs
  exact ⟨s, hs, congrArg Prod.fst he, congrArg (·.2.1) he, hplaces, hnone, hiff.1 hnone⟩

/-- The proof has not arrived when the batch ends: `main` returns without it. -/
theorem proof_left_behind :
    ¬ ∀ s, (mineMachine {}).exec (mineMachine {}).init (lastBatch false ++ [.gone 0, .return]) =
        some s → s.returned = true → NoneLeft {} s := by
  intro h
  have hrun : ((mineMachine {}).exec (mineMachine {}).init
      (lastBatch false ++ [.gone 0, .return])).map
        (fun s => (s.returned, (s.group ⟨0, false, 0⟩).map (·.egress.length))) =
          some (true, some 1) := by
    decide +kernel
  obtain ⟨s, hs, he⟩ := Option.map_eq_some_iff.1 hrun
  have hret : s.returned = true := congrArg Prod.fst he
  obtain ⟨m, hm, hlen⟩ := Option.map_eq_some_iff.1 (congrArg Prod.snd he)
  have hnil := (h s hs hret ⟨0, false, 0⟩ m (by decide) hm).1
  rw [hnil] at hlen
  exact absurd hlen (by decide)

end Poi
