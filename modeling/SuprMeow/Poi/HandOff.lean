import SuprMeow.Library.Runs
import SuprMeow.Poi.Mining

/-!
# From the workers to the pool

The queue between the workers of `mine_device` and the threads of `submit_loop`, step by step.  A
critical section under `submit_mx` is one event; a notification, a wake-up, a pre-check, each
counter and the call of `client.submit` are events of their own.  `submit_cv.wait` tests its
predicate, and goes to sleep in the same critical section when it does not hold; it tests again
after every wake-up, notified or spurious.

* `exactly_once` — every share pushed is taken by one submitter and submitted once, or dropped
  where the pre-check says so; a queued share never waits for submitters that all sleep; the
  counters agree when the submitters have left.
-/

set_option autoImplicit false

namespace Poi

variable {α : Type}

/-! ## The machine -/

/-- Where a submitter is in `submit_loop`. -/
inductive SubmitPc (α : Type) where
  /-- Before a critical section: at the loop's start or awake in `submit_cv.wait`. -/
  | enter
  /-- Asleep in `submit_cv.wait`. -/
  | asleep
  /-- With a share, before the pre-check, its counters, and the counter of drops. -/
  | check (ps : α)
  | checked (ps : α) (v : Verdict)
  | judged (ps : α) (v : Verdict)
  | dropping (ps : α) (v : Verdict)
  /-- Before `client.submit`, and between it and `++shares`. -/
  | submit (ps : α)
  | submitted
  | gone
  deriving DecidableEq

def SubmitPc.isAsleep : SubmitPc α → Bool
  | .asleep => true
  | _ => false

/-- Woken by `notify_all`. -/
def SubmitPc.woken : SubmitPc α → SubmitPc α
  | .asleep => .enter
  | pc => pc

/-- Where a worker is: mining, between its critical section and `notify_one`, or returned. -/
inductive WorkerPc where
  | mining
  | notify
  | returned
  deriving DecidableEq

/-- `taken`, `pushed`, `sent` and `dropped` are records. -/
structure HandOff (α : Type) where
  submitQ : List α := []
  producersDone : Bool := false
  /-- `main` has called `notify_all`. -/
  notified : Bool := false
  workers : List WorkerPc
  submitters : List (SubmitPc α)
  checked : Nat := 0
  passed : Nat := 0
  unavailable : Nat := 0
  rejected : Nat := 0
  droppedCount : Nat := 0
  shares : Nat := 0
  pushed : List α := []
  /-- With the submitter that took it. -/
  taken : List (Nat × α) := []
  /-- Calls of `client.submit`. -/
  sent : List α := []
  dropped : List (α × Verdict) := []

inductive HandOffEvent (α : Type) where
  /-- A worker's critical section. -/
  | push (w : Nat) (batch : List α)
  /-- `notify_one`: it wakes the given submitter, or nobody sleeps. -/
  | notifyOne (w : Nat) (k : Option Nat)
  | workerReturns (w : Nat)
  /-- The workers are joined; `main`'s critical section. -/
  | producersDone
  | notifyAll
  /-- A submitter's critical section. -/
  | lock (k : Nat)
  /-- A spurious wake-up. -/
  | wake (k : Nat)
  | evaluate (k : Nat) (v : Verdict)
  /-- The submitter's next counter. -/
  | count (k : Nat)
  | submit (k : Nat)

namespace HandOff

def setPc (s : HandOff α) (k : Nat) (pc : SubmitPc α) : HandOff α :=
  { s with submitters := s.submitters.set k pc }

def setWorker (s : HandOff α) (w : Nat) (pc : WorkerPc) : HandOff α :=
  { s with workers := s.workers.set w pc }

/-- The critical section of `submit_loop`, up to the end of the wait or of the pop. -/
def enter (cfg : Config) (s : HandOff α) (k : Nat) : HandOff α :=
  match s.submitQ with
  | ps :: rest =>
    { s.setPc k (if cfg.precheck = .off then .submit ps else .check ps) with
      submitQ := rest, taken := s.taken ++ [(k, ps)] }
  | [] => s.setPc k (if s.producersDone then .gone else .asleep)

/-- One counter.  After `rejected` a dropped share has one more to go. -/
def count (cfg : Config) (s : HandOff α) (k : Nat) : Option (HandOff α) :=
  match s.submitters[k]? with
  | some (.checked ps v) => some { s.setPc k (.judged ps v) with checked := s.checked + 1 }
  | some (.judged ps .reject) =>
    some { s.setPc k (if cfg.withholds .reject then .dropping ps .reject else .submit ps) with
      rejected := s.rejected + 1 }
  | some (.judged ps .unavailable) =>
    some { s.setPc k (.submit ps) with unavailable := s.unavailable + 1 }
  | some (.judged ps .pass) => some { s.setPc k (.submit ps) with passed := s.passed + 1 }
  | some (.dropping ps v) =>
    some { s.setPc k .enter with
      droppedCount := s.droppedCount + 1, dropped := s.dropped ++ [(ps, v)] }
  | some .submitted => some { s.setPc k .enter with shares := s.shares + 1 }
  | _ => none

def step (cfg : Config) (s : HandOff α) : HandOffEvent α → Option (HandOff α)
  | .push w batch =>
    if s.workers[w]? = some .mining then
      some { s.setWorker w .notify with
        submitQ := s.submitQ ++ batch, pushed := s.pushed ++ batch }
    else none
  | .notifyOne w k =>
    if s.workers[w]? = some .notify then
      match k with
      | some k =>
        match s.submitters[k]? with
        | some .asleep => some ((s.setWorker w .mining).setPc k .enter)
        | _ => none
      | none =>
        if ∀ pc ∈ s.submitters, pc.isAsleep = false then some (s.setWorker w .mining) else none
    else none
  | .workerReturns w =>
    if s.workers[w]? = some .mining then some (s.setWorker w .returned) else none
  | .producersDone =>
    if (∀ pc ∈ s.workers, pc = .returned) ∧ s.producersDone = false then
      some { s with producersDone := true }
    else none
  | .notifyAll =>
    if s.producersDone = true ∧ s.notified = false then
      some { s with notified := true, submitters := s.submitters.map SubmitPc.woken }
    else none
  | .lock k =>
    match s.submitters[k]? with
    | some .enter => some (s.enter cfg k)
    | _ => none
  | .wake k =>
    match s.submitters[k]? with
    | some .asleep => some (s.setPc k .enter)
    | _ => none
  | .evaluate k v =>
    match s.submitters[k]? with
    | some (.check ps) => some (s.setPc k (.checked ps v))
    | _ => none
  | .count k => s.count cfg k
  | .submit k =>
    match s.submitters[k]? with
    | some (.submit ps) => some { s.setPc k .submitted with sent := s.sent ++ [ps] }
    | _ => none

end HandOff

/-- `nWorkers` workers and `submitters` submitters, started. -/
def handOff (cfg : Config) (α : Type) : Runs.Machine (HandOff α) (HandOffEvent α) where
  init :=
    { workers := List.replicate cfg.nWorkers .mining
      submitters := List.replicate cfg.submitters .enter }
  step := HandOff.step cfg

/-! ## Specification -/

/-- The share a submitter has. -/
def SubmitPc.held : SubmitPc α → List α
  | .check ps | .checked ps _ | .judged ps _ | .dropping ps _ | .submit ps => [ps]
  | _ => []

def SubmitPc.isGone : SubmitPc α → Bool
  | .gone => true
  | _ => false

/-- What the submitters have in hand. -/
def HandOff.held (s : HandOff α) : List α := s.submitters.flatMap SubmitPc.held

/-- **Each share pushed is queued or was taken by one submitter; each share taken is in a
submitter's hands, was submitted, or was dropped as a reject with the pre-check on; no submitter
leaves before the queue is empty for good; and once all have left the counters agree.** -/
structure ExactlyOnce (cfg : Config) (s : HandOff α) : Prop where
  taken : s.pushed.Perm (s.submitQ ++ s.taken.map (·.2))
  fate : (s.taken.map (·.2)).Perm (s.held ++ s.sent ++ s.dropped.map (·.1))
  dropped : ∀ e ∈ s.dropped, cfg.precheck = .on ∧ e.2 = .reject
  exit : ∀ pc ∈ s.submitters, pc.isGone = true → s.submitQ = [] ∧ s.producersDone = true
  final : (∀ pc ∈ s.submitters, pc.isGone = true) →
    s.pushed.Perm (s.sent ++ s.dropped.map (·.1)) ∧
    s.shares = s.sent.length ∧
    s.checked = s.passed + s.unavailable + s.rejected ∧
    s.droppedCount = if cfg.precheck = .on then s.rejected else 0

/-- **A queued share does not wait for submitters that all sleep or have left, unless a notification
is due; after `notify_all` no one sleeps.** -/
structure NeverStuck (s : HandOff α) : Prop where
  awake : s.submitQ ≠ [] → (∃ pc ∈ s.submitters, pc.isAsleep = false ∧ pc.isGone = false) ∨
    .notify ∈ s.workers ∨ (s.producersDone = true ∧ s.notified = false)
  released : s.notified = true → ∀ pc ∈ s.submitters, pc.isAsleep = false

/-! ## Where the shares are -/

variable {cfg : Config} {s t : HandOff α}

/-- The first half of the specification, and that only rejects are on the way to being dropped. -/
structure Flow (cfg : Config) (s : HandOff α) : Prop where
  taken : s.pushed.Perm (s.submitQ ++ s.taken.map (·.2))
  fate : (s.taken.map (·.2)).Perm (s.held ++ s.sent ++ s.dropped.map (·.1))
  dropped : ∀ e ∈ s.dropped, cfg.precheck = .on ∧ e.2 = .reject
  dropping : ∀ ps v, .dropping ps v ∈ s.submitters → cfg.precheck = .on ∧ v = .reject

theorem held_setPc {k : Nat} {a : SubmitPc α} (h : s.submitters[k]? = some a) (b : SubmitPc α) :
    (a.held ++ (s.setPc k b).held).Perm (b.held ++ s.held) :=
  Threads.flatMap_set_perm h _ b

theorem mem_setPc {k : Nat} {b pc : SubmitPc α} (h : pc ∈ (s.setPc k b).submitters) :
    pc ∈ s.submitters ∨ pc = b :=
  List.mem_or_eq_of_mem_set h

/-- Steps in which no share changes hands. -/
theorem Flow.congr (h : Flow cfg s) (hp : t.pushed = s.pushed) (hq : t.submitQ = s.submitQ)
    (ht : t.taken = s.taken) (hs : t.sent = s.sent) (hd : t.dropped = s.dropped)
    (hh : t.held = s.held)
    (hdr : ∀ ps v, .dropping ps v ∈ t.submitters → .dropping ps v ∈ s.submitters) :
    Flow cfg t := by
  refine ⟨?_, ?_, ?_, fun ps v hm => h.dropping ps v (hdr ps v hm)⟩
  · rw [hp, hq, ht]; exact h.taken
  · rw [ht, hh, hs, hd]; exact h.fate
  · rw [hd]; exact h.dropped

/-- A submitter goes on with what it has. -/
theorem Flow.keep (h : Flow cfg s) {k : Nat} {a b : SubmitPc α} (hk : s.submitters[k]? = some a)
    (hab : b.held = a.held) (hb : ∀ ps v, b = .dropping ps v → cfg.precheck = .on ∧ v = .reject) :
    Flow cfg (s.setPc k b) := by
  refine ⟨h.taken, ?_, h.dropped, fun ps v hm => ?_⟩
  · have hp := held_setPc hk b
    rw [hab, List.perm_append_left_iff] at hp
    exact h.fate.trans ((hp.symm.append_right _).append_right _)
  · rcases mem_setPc hm with hm | hm
    · exact h.dropping ps v hm
    · exact hb ps v hm.symm

/-- A submitter gives the share it has to `client.submit`, or drops it. -/
theorem Flow.settle (h : Flow cfg s) {k : Nat} {a b : SubmitPc α} (hk : s.submitters[k]? = some a)
    {x : α} (ha : a.held = [x]) (hb : b.held = []) (hp : t.pushed = s.pushed)
    (hq : t.submitQ = s.submitQ) (ht : t.taken = s.taken)
    (hsub : t.submitters = s.submitters.set k b)
    (hout : (t.sent ++ t.dropped.map (·.1)).Perm ([x] ++ (s.sent ++ s.dropped.map (·.1))))
    (hd : ∀ e ∈ t.dropped, cfg.precheck = .on ∧ e.2 = .reject) : Flow cfg t := by
  have hheld : s.held.Perm ([x] ++ t.held) := by
    have := held_setPc hk b
    rw [ha, hb, List.nil_append] at this
    have hset : (s.setPc k b).held = t.held := by unfold HandOff.held HandOff.setPc; rw [hsub]
    rw [← hset]
    exact this.symm
  refine ⟨?_, ?_, hd, fun ps v hm => ?_⟩
  · rw [hp, hq, ht]; exact h.taken
  · rw [ht]
    refine h.fate.trans ?_
    rw [List.append_assoc, List.append_assoc]
    refine (hheld.append_right _).trans (List.Perm.trans ?_ (hout.symm.append_left _))
    have hswap : ([x] ++ t.held).Perm (t.held ++ [x]) := List.perm_append_comm
    have := hswap.append_right (s.sent ++ s.dropped.map (·.1))
    rwa [List.append_assoc t.held] at this
  · rw [hsub] at hm
    rcases List.mem_or_eq_of_mem_set hm with hm | rfl
    · exact h.dropping ps v hm
    · simp [SubmitPc.held] at hb

theorem Flow.enter (h : Flow cfg s) {k : Nat} (hk : s.submitters[k]? = some .enter) :
    Flow cfg (s.enter cfg k) := by
  unfold HandOff.enter
  split
  · rename_i ps rest hq
    have hb : ∀ b : SubmitPc α, b.held = [ps] → (s.setPc k b).held.Perm ([ps] ++ s.held) := by
      intro b hb
      have := held_setPc hk b
      rwa [hb] at this
    have hpc : (if cfg.precheck = .off then SubmitPc.submit ps else .check ps).held = [ps] := by
      split <;> rfl
    refine ⟨?_, ?_, h.dropped, fun ps' v hm => ?_⟩
    · refine h.taken.trans ?_
      rw [hq, List.map_append, List.cons_append, ← List.append_assoc]
      exact (List.perm_append_singleton ps _).symm
    · simp only [List.map_append, List.map_cons, List.map_nil]
      refine (List.perm_append_singleton ps _).trans ?_
      refine List.Perm.trans ?_ (((hb _ hpc).symm.append_right _).append_right _)
      exact h.fate.cons ps
    · rcases mem_setPc hm with hm | hm
      · exact h.dropping ps' v hm
      · split at hm <;> cases hm
  · refine h.keep hk ?_ ?_
    · split <;> rfl
    · intro ps v hb
      split at hb <;> cases hb

theorem Flow.count (h : Flow cfg s) {k : Nat} (hs : s.count cfg k = some t) : Flow cfg t := by
  unfold HandOff.count at hs
  split at hs
  · rename_i ps v hk
    cases hs
    exact (h.keep hk (b := .judged ps v) rfl nofun).congr rfl rfl rfl rfl rfl rfl fun _ _ => id
  · rename_i ps hk
    cases hs
    refine Flow.congr (h.keep hk (b := if cfg.withholds .reject then .dropping ps .reject
      else .submit ps) ?_ ?_) rfl rfl rfl rfl rfl rfl fun _ _ => id
    · split <;> rfl
    · intro ps' v hb
      split at hb
      · rename_i hw
        cases hb
        exact ⟨by simpa [Config.withholds] using hw, rfl⟩
      · cases hb
  · rename_i ps hk
    cases hs
    exact (h.keep hk (b := .submit ps) rfl nofun).congr rfl rfl rfl rfl rfl rfl fun _ _ => id
  · rename_i ps hk
    cases hs
    exact (h.keep hk (b := .submit ps) rfl nofun).congr rfl rfl rfl rfl rfl rfl fun _ _ => id
  · rename_i ps v hk
    cases hs
    refine h.settle hk (x := ps) (b := .enter) rfl rfl rfl rfl rfl rfl ?_ ?_
    · simp only [List.map_append, List.map_cons, List.map_nil]
      rw [← List.append_assoc]
      exact List.perm_append_singleton ps _
    · intro e he
      rcases List.mem_append.1 he with he | he
      · exact h.dropped e he
      · rw [List.mem_singleton.1 he]
        exact h.dropping ps v (List.mem_of_getElem? hk)
  · rename_i hk
    cases hs
    exact (h.keep hk (b := .enter) rfl nofun).congr rfl rfl rfl rfl rfl rfl fun _ _ => id
  · cases hs

theorem Flow.step {e : HandOffEvent α} (h : Flow cfg s) (hs : s.step cfg e = some t) :
    Flow cfg t := by
  unfold HandOff.step at hs
  cases e with
  | push w batch =>
    dsimp only at hs
    split at hs <;> cases hs
    refine ⟨?_, h.fate, h.dropped, h.dropping⟩
    refine (h.taken.append_right batch).trans ?_
    dsimp only [HandOff.setWorker]
    rw [List.append_assoc, List.append_assoc]
    exact List.perm_append_comm.append_left _
  | notifyOne w k =>
    dsimp only at hs
    split at hs
    · split at hs
      · split at hs
        · rename_i hk
          cases hs
          exact Flow.keep (s := s.setWorker w .mining)
            (h.congr rfl rfl rfl rfl rfl rfl fun _ _ => id) hk rfl nofun
        · cases hs
      · split at hs <;> cases hs
        exact h.congr rfl rfl rfl rfl rfl rfl fun _ _ => id
    · cases hs
  | workerReturns w =>
    dsimp only at hs
    split at hs <;> cases hs
    exact h.congr rfl rfl rfl rfl rfl rfl fun _ _ => id
  | producersDone =>
    dsimp only at hs
    split at hs <;> cases hs
    exact h.congr rfl rfl rfl rfl rfl rfl fun _ _ => id
  | notifyAll =>
    dsimp only at hs
    split at hs <;> cases hs
    refine h.congr rfl rfl rfl rfl rfl ?_ fun ps v hm => ?_
    · unfold HandOff.held
      rw [List.flatMap_map]
      refine List.flatMap_congr fun pc _ => ?_
      cases pc <;> rfl
    · obtain ⟨pc, hpc, he⟩ := List.mem_map.1 hm
      cases pc <;> cases he
      exact hpc
  | lock k =>
    dsimp only at hs
    split at hs <;> cases hs
    rename_i hk
    exact h.enter hk
  | wake k =>
    dsimp only at hs
    split at hs <;> cases hs
    rename_i hk
    exact h.keep hk rfl nofun
  | evaluate k v =>
    dsimp only at hs
    split at hs <;> cases hs
    rename_i ps hk
    exact h.keep hk rfl nofun
  | count k => exact h.count hs
  | submit k =>
    dsimp only at hs
    split at hs <;> cases hs
    rename_i ps hk
    refine h.settle hk (x := ps) (b := .submitted) rfl rfl rfl rfl rfl rfl ?_ h.dropped
    dsimp only [HandOff.setPc]
    rw [← List.append_assoc]
    exact List.perm_append_comm.append_right _

/-! ## The counters -/

def SubmitPc.isJudged : SubmitPc α → Bool
  | .judged .. => true
  | _ => false

def SubmitPc.isDropping : SubmitPc α → Bool
  | .dropping .. => true
  | _ => false

def SubmitPc.isSubmitted : SubmitPc α → Bool
  | .submitted => true
  | _ => false

/-- Each counter lags behind by the submitters that are about to bump it. -/
structure Counters (cfg : Config) (s : HandOff α) : Prop where
  judged : s.checked =
    s.passed + s.unavailable + s.rejected + s.submitters.countP SubmitPc.isJudged
  shares : s.shares + s.submitters.countP SubmitPc.isSubmitted = s.sent.length
  drops : s.droppedCount + s.submitters.countP SubmitPc.isDropping =
    if cfg.precheck = .on then s.rejected else 0

/-- A submitter's step, given what it adds to each equation. -/
theorem Counters.move (h : Counters cfg s) {k : Nat} {a b : SubmitPc α}
    (hk : s.submitters[k]? = some a) (hsub : t.submitters = s.submitters.set k b)
    (hj : t.checked + (s.passed + s.unavailable + s.rejected) + (if a.isJudged then 1 else 0) =
      s.checked + (t.passed + t.unavailable + t.rejected) + if b.isJudged then 1 else 0)
    (hs : t.shares + s.sent.length + (if b.isSubmitted then 1 else 0) =
      s.shares + t.sent.length + if a.isSubmitted then 1 else 0)
    (hd : t.droppedCount + (if b.isDropping then 1 else 0) +
        (if cfg.precheck = .on then s.rejected else 0) =
      s.droppedCount + (if a.isDropping then 1 else 0) +
        if cfg.precheck = .on then t.rejected else 0) : Counters cfg t := by
  have h₁ := h.judged
  have h₂ := h.shares
  have h₃ := h.drops
  have c₁ := Threads.countP_set hk SubmitPc.isJudged b
  have c₂ := Threads.countP_set hk SubmitPc.isSubmitted b
  have c₃ := Threads.countP_set hk SubmitPc.isDropping b
  rw [← hsub] at c₁ c₂ c₃
  exact ⟨by omega, by omega, by omega⟩

/-- A submitter's step between points no counter looks at. -/
theorem Counters.quiet (h : Counters cfg s) {k : Nat} {a b : SubmitPc α}
    (hk : s.submitters[k]? = some a) (hj : a.isJudged = b.isJudged)
    (hs : a.isSubmitted = b.isSubmitted) (hd : a.isDropping = b.isDropping) :
    Counters cfg (s.setPc k b) :=
  h.move hk rfl (by rw [hj]; rfl) (by rw [hs]; rfl) (by rw [hd]; rfl)

/-- Steps of other threads. -/
theorem Counters.congr (h : Counters cfg s) (hsub : t.submitters = s.submitters)
    (hc : t.checked = s.checked) (hp : t.passed = s.passed) (hu : t.unavailable = s.unavailable)
    (hr : t.rejected = s.rejected) (hd : t.droppedCount = s.droppedCount)
    (hs : t.shares = s.shares) (ht : t.sent = s.sent) : Counters cfg t := by
  refine ⟨?_, ?_, ?_⟩
  · rw [hsub, hc, hp, hu, hr]; exact h.judged
  · rw [hsub, hs, ht]; exact h.shares
  · rw [hsub, hd, hr]; exact h.drops

theorem Counters.count (h : Counters cfg s) {k : Nat} (hs : s.count cfg k = some t) :
    Counters cfg t := by
  unfold HandOff.count at hs
  split at hs
  · rename_i ps v hk
    cases hs
    refine h.move hk (b := .judged ps v) rfl ?_ rfl rfl
    simp only [SubmitPc.isJudged, HandOff.setPc]
    simp
    omega
  · rename_i ps hk
    cases hs
    have hb : (if cfg.withholds .reject then SubmitPc.dropping ps .reject
        else .submit ps).isJudged = false := by split <;> rfl
    refine h.move hk rfl ?_ ?_ ?_
    · rw [hb]
      simp only [SubmitPc.isJudged, HandOff.setPc]
      simp
      omega
    · dsimp only [HandOff.setPc]
      split <;> rfl
    · dsimp only [HandOff.setPc]
      cases hm : cfg.precheck <;> simp [Config.withholds, hm, SubmitPc.isDropping]
      omega
  · rename_i ps hk
    cases hs
    refine h.move hk (b := .submit ps) rfl ?_ rfl rfl
    simp only [SubmitPc.isJudged, HandOff.setPc]
    simp
    omega
  · rename_i ps hk
    cases hs
    refine h.move hk (b := .submit ps) rfl ?_ rfl rfl
    simp only [SubmitPc.isJudged, HandOff.setPc]
    simp
    omega
  · rename_i ps v hk
    cases hs
    refine h.move hk (b := .enter) rfl rfl rfl ?_
    simp only [SubmitPc.isDropping, HandOff.setPc]
    simp
  · rename_i hk
    cases hs
    refine h.move hk (b := .enter) rfl rfl ?_ rfl
    simp only [SubmitPc.isSubmitted, HandOff.setPc]
    simp
    omega
  · cases hs

theorem Counters.step {e : HandOffEvent α} (h : Counters cfg s) (hs : s.step cfg e = some t) :
    Counters cfg t := by
  unfold HandOff.step at hs
  cases e with
  | push | workerReturns | producersDone =>
    dsimp only at hs
    split at hs <;> cases hs
    exact h.congr rfl rfl rfl rfl rfl rfl rfl rfl
  | notifyOne w k =>
    dsimp only at hs
    split at hs
    · split at hs
      · split at hs
        · rename_i hk
          cases hs
          exact Counters.quiet (s := s.setWorker w .mining)
            (h.congr rfl rfl rfl rfl rfl rfl rfl rfl) hk rfl rfl rfl
        · cases hs
      · split at hs <;> cases hs
        exact h.congr rfl rfl rfl rfl rfl rfl rfl rfl
    · cases hs
  | notifyAll =>
    dsimp only at hs
    split at hs <;> cases hs
    have hcount : ∀ p : SubmitPc α → Bool, p .asleep = p .enter →
        (s.submitters.map SubmitPc.woken).countP p = s.submitters.countP p := by
      intro p hp
      rw [List.countP_map]
      refine List.countP_congr fun pc _ => ?_
      cases pc <;> simp [SubmitPc.woken, hp]
    refine ⟨?_, ?_, ?_⟩
    · rw [hcount _ rfl]; exact h.judged
    · rw [hcount _ rfl]; exact h.shares
    · rw [hcount _ rfl]; exact h.drops
  | lock k =>
    dsimp only at hs
    split at hs <;> cases hs
    rename_i hk
    unfold HandOff.enter
    split
    · refine h.move hk rfl ?_ ?_ ?_ <;> split <;> rfl
    · refine h.quiet hk ?_ ?_ ?_ <;> split <;> rfl
  | wake k =>
    dsimp only at hs
    split at hs <;> cases hs
    rename_i hk
    exact h.quiet hk rfl rfl rfl
  | evaluate k v =>
    dsimp only at hs
    split at hs <;> cases hs
    rename_i ps hk
    exact h.quiet hk rfl rfl rfl
  | count k => exact h.count hs
  | submit k =>
    dsimp only at hs
    split at hs <;> cases hs
    rename_i ps hk
    refine h.move hk (b := .submitted) rfl rfl ?_ rfl
    simp only [SubmitPc.isSubmitted, HandOff.setPc, List.length_append, List.length_singleton]
    simp
    omega

/-! ## Sleeping and leaving -/

/-- The rest of the specification, and the order of the shutdown. -/
structure Life (cfg : Config) (s : HandOff α) : Prop where
  size : s.submitters.length = cfg.submitters
  exit : ∀ pc ∈ s.submitters, pc.isGone = true → s.submitQ = [] ∧ s.producersDone = true
  returned : s.producersDone = true → ∀ pc ∈ s.workers, pc = .returned
  order : s.notified = true → s.producersDone = true
  awake : 0 < cfg.submitters → s.submitQ ≠ [] →
    (∃ pc ∈ s.submitters, pc.isAsleep = false ∧ pc.isGone = false) ∨
      .notify ∈ s.workers ∨ (s.producersDone = true ∧ s.notified = false)
  released : s.notified = true → ∀ pc ∈ s.submitters, pc.isAsleep = false

/-- A submitter's step after which it is awake. -/
theorem Life.active (h : Life cfg s) {k : Nat} {a b : SubmitPc α}
    (hk : s.submitters[k]? = some a) (hb : b.isAsleep = false) (hg : b.isGone = false)
    (hsub : t.submitters = s.submitters.set k b) (hq : t.submitQ = s.submitQ)
    (hw : t.workers = s.workers) (hd : t.producersDone = s.producersDone)
    (hn : t.notified = s.notified) : Life cfg t := by
  refine ⟨?_, ?_, ?_, ?_, fun _ _ => .inl ⟨b, ?_, hb, hg⟩, ?_⟩
  · rw [hsub, List.length_set]; exact h.size
  · intro pc hpc hgone
    rw [hsub] at hpc
    rw [hq, hd]
    rcases List.mem_or_eq_of_mem_set hpc with hpc | rfl
    · exact h.exit pc hpc hgone
    · rw [hg] at hgone; cases hgone
  · rw [hd, hw]; exact h.returned
  · rw [hn, hd]; exact h.order
  · rw [hsub]; exact Threads.mem_set_self hk b
  · intro hnot pc hpc
    rw [hsub] at hpc
    rcases List.mem_or_eq_of_mem_set hpc with hpc | rfl
    · exact h.released (hn ▸ hnot) pc hpc
    · exact hb

/-- Nobody has left while a share is queued. -/
theorem Life.staying (h : Life cfg s) (hq : s.submitQ ≠ []) :
    ∀ pc ∈ s.submitters, pc.isGone = false := by
  intro pc hpc
  cases hg : pc.isGone with
  | false => rfl
  | true => exact absurd (h.exit pc hpc hg).1 hq

theorem Life.enter (h : Life cfg s) {k : Nat} (hk : s.submitters[k]? = some .enter) :
    Life cfg (s.enter cfg k) := by
  unfold HandOff.enter
  split
  · rename_i ps rest hq
    have hgone := h.staying (by rw [hq]; simp)
    have hpc : (if cfg.precheck = .off then SubmitPc.submit ps else .check ps).isAsleep = false ∧
        (if cfg.precheck = .off then SubmitPc.submit ps else .check ps).isGone = false := by
      split <;> exact ⟨rfl, rfl⟩
    have hact := h.active hk hpc.1 hpc.2 (t := s.setPc k _) rfl rfl rfl rfl rfl
    refine ⟨hact.size, fun pc hm hg => ?_, hact.returned, hact.order, fun _ _ => .inl
      ⟨_, Threads.mem_set_self hk _, hpc⟩, hact.released⟩
    rcases mem_setPc hm with hm | rfl
    · rw [hgone pc hm] at hg; cases hg
    · rw [hpc.2] at hg; cases hg
  · rename_i hq
    refine ⟨?_, fun pc hm hg => ?_, h.returned, h.order, fun _ hne => absurd hq hne,
      fun hn pc hm => ?_⟩
    · simpa [HandOff.setPc] using h.size
    · rcases mem_setPc hm with hm | rfl
      · exact h.exit pc hm hg
      · split at hg
        · rename_i hd
          exact ⟨hq, hd⟩
        · cases hg
    · rcases mem_setPc hm with hm | rfl
      · exact h.released hn pc hm
      · rw [if_pos (h.order hn)]; rfl

theorem Life.count (h : Life cfg s) {k : Nat} (hs : s.count cfg k = some t) : Life cfg t := by
  unfold HandOff.count at hs
  split at hs
  case h_7 => cases hs
  case h_2 =>
    rename_i ps hk
    cases hs
    refine h.active hk ?_ ?_ rfl rfl rfl rfl rfl <;> split <;> rfl
  all_goals
    rename_i hk
    cases hs
    exact h.active hk rfl rfl rfl rfl rfl rfl rfl

theorem Life.step {e : HandOffEvent α} (h : Life cfg s) (hs : s.step cfg e = some t) :
    Life cfg t := by
  unfold HandOff.step at hs
  cases e with
  | push w batch =>
    dsimp only at hs
    split at hs <;> cases hs
    rename_i hw
    have hrun : s.producersDone = true → False := fun hd => by
      have := h.returned hd _ (List.mem_of_getElem? hw)
      cases this
    refine ⟨h.size, fun pc hm hg => (hrun (h.exit pc hm hg).2).elim, fun hd => (hrun hd).elim,
      h.order, fun _ _ => .inr (.inl (Threads.mem_set_self hw _)), h.released⟩
  | notifyOne w k =>
    dsimp only at hs
    split at hs
    · rename_i hw
      have hret : s.producersDone = true →
          ∀ pc ∈ (s.setWorker w .mining).workers, pc = .returned := by
        intro hd
        have := h.returned hd _ (List.mem_of_getElem? hw)
        cases this
      split at hs
      · split at hs
        · rename_i k' _ hk
          cases hs
          have hact := h.active hk rfl rfl (t := s.setPc k' .enter) rfl rfl rfl rfl rfl
          exact ⟨hact.size, hact.exit, hret, hact.order, fun _ _ => .inl
            ⟨_, Threads.mem_set_self hk _, rfl, rfl⟩, hact.released⟩
        · cases hs
      · split at hs <;> cases hs
        rename_i hall
        refine ⟨h.size, h.exit, hret, h.order, fun hpos hq => .inl ?_, h.released⟩
        -- Nobody sleeps and nobody has left.
        rw [← h.size] at hpos
        obtain ⟨pc, hpc⟩ := List.exists_mem_of_length_pos hpos
        exact ⟨pc, hpc, hall pc hpc, h.staying hq pc hpc⟩
    · cases hs
  | workerReturns w =>
    dsimp only at hs
    split at hs <;> cases hs
    rename_i hw
    refine ⟨h.size, h.exit, fun hd => ?_, h.order, fun hpos hq => ?_, h.released⟩
    · have := h.returned hd _ (List.mem_of_getElem? hw)
      cases this
    · rcases h.awake hpos hq with h₁ | h₁ | h₁
      · exact .inl h₁
      · exact .inr (.inl (Threads.mem_set_of_ne hw h₁ nofun))
      · exact .inr (.inr h₁)
  | producersDone =>
    dsimp only at hs
    split at hs <;> cases hs
    rename_i hc
    have hn : s.notified = false := by
      cases hn : s.notified with
      | false => rfl
      | true => rw [h.order hn] at hc; exact absurd hc.2 nofun
    refine ⟨h.size, fun pc hm hg => ⟨(h.exit pc hm hg).1, rfl⟩, fun _ => hc.1, fun _ => rfl,
      fun _ _ => .inr (.inr ⟨rfl, hn⟩), h.released⟩
  | notifyAll =>
    dsimp only at hs
    split at hs <;> cases hs
    rename_i hc
    have hmem : ∀ pc ∈ s.submitters.map SubmitPc.woken,
        pc.isAsleep = false ∧ (pc.isGone = true → pc ∈ s.submitters) := by
      intro pc hpc
      obtain ⟨pc', hpc', rfl⟩ := List.mem_map.1 hpc
      cases pc' <;> exact ⟨rfl, fun hg => by first | exact hpc' | cases hg⟩
    refine ⟨?_, fun pc hm hg => h.exit pc ((hmem pc hm).2 hg) hg, h.returned, fun _ => hc.1,
      fun hpos hq => .inl ?_, fun _ pc hm => (hmem pc hm).1⟩
    · rw [List.length_map]; exact h.size
    · obtain ⟨pc, hpc⟩ := List.exists_mem_of_length_pos
        (l := s.submitters.map SubmitPc.woken)
        (by rw [List.length_map, h.size]; exact hpos)
      refine ⟨pc, hpc, (hmem pc hpc).1, ?_⟩
      cases hg : pc.isGone with
      | false => rfl
      | true =>
        have := h.staying hq pc ((hmem pc hpc).2 hg)
        rw [hg] at this
        cases this
  | lock k =>
    dsimp only at hs
    split at hs <;> cases hs
    rename_i hk
    exact h.enter hk
  | wake k =>
    dsimp only at hs
    split at hs <;> cases hs
    rename_i hk
    exact h.active hk rfl rfl rfl rfl rfl rfl rfl
  | evaluate k v =>
    dsimp only at hs
    split at hs <;> cases hs
    rename_i ps hk
    exact h.active hk rfl rfl rfl rfl rfl rfl rfl
  | count k => exact h.count hs
  | submit k =>
    dsimp only at hs
    split at hs <;> cases hs
    rename_i ps hk
    exact h.active hk rfl rfl rfl rfl rfl rfl rfl

/-! ## Results -/

theorem countP_gone {l : List (SubmitPc α)} (h : ∀ pc ∈ l, pc.isGone = true)
    {p : SubmitPc α → Bool} (hp : p .gone = false) : l.countP p = 0 := by
  rw [List.countP_eq_zero]
  intro pc hpc
  have hg := h pc hpc
  cases pc <;> first | (simp [hp]; done) | cases hg

theorem held_gone (h : ∀ pc ∈ s.submitters, pc.isGone = true) : s.held = [] := by
  unfold HandOff.held
  rw [List.flatMap_eq_nil_iff]
  intro pc hpc
  have hg := h pc hpc
  cases pc <;> first | rfl | cases hg

theorem life_exec (cfg : Config) {es : List (HandOffEvent α)} {s : HandOff α}
    (h : (handOff cfg α).exec (handOff cfg α).init es = some s) : Life cfg s := by
  refine (handOff cfg α).exec_invariant (I := Life cfg) (fun _ _ _ => Life.step) ?_ h
  refine ⟨List.length_replicate, fun pc hm hg => ?_, nofun, nofun, fun _ hq => absurd rfl hq, nofun⟩
  rw [List.eq_of_mem_replicate hm] at hg
  cases hg

/-- **In every run every share goes through exactly one submitter, none is left behind, and the
counters agree at the end.** -/
theorem exactly_once (cfg : Config) (hpos : 0 < cfg.submitters) {es : List (HandOffEvent α)}
    {s : HandOff α} (h : (handOff cfg α).exec (handOff cfg α).init es = some s) :
    ExactlyOnce cfg s ∧ NeverStuck s := by
  have hflow : Flow cfg s := by
    refine (handOff cfg α).exec_invariant (I := Flow cfg) (fun _ _ _ => Flow.step) ?_ h
    refine ⟨List.Perm.refl _, ?_, nofun, fun ps v hm => ?_⟩
    · simp [HandOff.held, handOff, SubmitPc.held]
    · cases List.eq_of_mem_replicate hm
  have hcount : Counters cfg s := by
    refine (handOff cfg α).exec_invariant (I := Counters cfg) (fun _ _ _ => Counters.step) ?_ h
    have hz : ∀ p : SubmitPc α → Bool, p .enter = false →
        (List.replicate cfg.submitters SubmitPc.enter).countP p = 0 := by
      intro p hp
      simp [List.countP_replicate, hp]
    refine ⟨?_, ?_, ?_⟩
    · rw [show (handOff cfg α).init.submitters = List.replicate cfg.submitters .enter from rfl,
        hz _ rfl]; rfl
    · rw [show (handOff cfg α).init.submitters = List.replicate cfg.submitters .enter from rfl,
        hz _ rfl]; rfl
    · rw [show (handOff cfg α).init.submitters = List.replicate cfg.submitters .enter from rfl,
        hz _ rfl]
      split <;> rfl
  have hlife := life_exec cfg h
  refine ⟨⟨hflow.taken, hflow.fate, hflow.dropped, hlife.exit, fun hall => ?_⟩, hlife.awake hpos,
    hlife.released⟩
  obtain ⟨pc, hpc⟩ := List.exists_mem_of_length_pos (hlife.size ▸ hpos)
  have hq := (hlife.exit pc hpc (hall pc hpc)).1
  have h₁ := hcount.judged
  have h₂ := hcount.shares
  have h₃ := hcount.drops
  rw [countP_gone hall rfl] at h₁ h₂ h₃
  refine ⟨?_, h₂, h₁, h₃⟩
  have hp := hflow.taken.trans ((hflow.fate).append_left _)
  rwa [hq, held_gone hall, List.nil_append, List.nil_append] at hp

/-- Two submitters, two workers, the pre-check on.  The first submitter is asleep and wakes up for
nothing; three shares come in two batches with one notification lost on the second; one of them is
a reject; the shutdown lets both submitters leave. -/
def threeShares : List (HandOffEvent Nat) :=
  [.lock 0, .wake 0, .lock 0, .push 0 [10, 11], .notifyOne 0 (some 0), .lock 0, .push 1 [12],
    .lock 1, .evaluate 0 .reject, .count 0, .notifyOne 1 none, .count 0, .evaluate 1 .pass,
    .count 1, .count 1, .count 0, .lock 0, .submit 1, .evaluate 0 .unavailable, .count 1, .lock 1,
    .workerReturns 0, .count 0, .count 0, .workerReturns 1, .producersDone, .submit 0, .notifyAll,
    .lock 1, .count 0, .lock 0]

def threeSharesConfig : Config := { nWorkers := 2, submitters := 2, precheck := .on }

theorem exactly_once_three : ∃ s, (handOff threeSharesConfig Nat).exec
    (handOff threeSharesConfig Nat).init threeShares = some s ∧ ExactlyOnce threeSharesConfig s ∧
    s.sent = [11, 12] ∧ s.dropped = [(10, .reject)] := by
  have h : ((handOff threeSharesConfig Nat).exec (handOff threeSharesConfig Nat).init
      threeShares).map (fun s => (s.sent, s.dropped)) = some ([11, 12], [(10, .reject)]) := by
    decide +kernel
  obtain ⟨s, hs, hv⟩ := Option.map_eq_some_iff.1 h
  exact ⟨s, hs, (exactly_once threeSharesConfig (by decide) hs).1, congrArg Prod.fst hv,
    congrArg Prod.snd hv⟩

end Poi
