import SuprMeow.Library.Fallible
import SuprMeow.Vllm.Bridge

/-!
# Labels of the bridge's shares

`submit_proof` takes the job id from `job_by_req` under the proof's request id, with the current
job's id for want of one, and the tick from the current job, both when the proof is drained.  A
completion takes 256 tokens, so the pool may have notified other jobs by then.

* `bridge_shares_labelled` — when no job notified while a proof is under way has another tick,
  takes its request id over or loses its entry, every share carries the labels of its own job;
* `bridge_share_mislabelled` — a clean job that comes before the proof is drained.
-/

set_option autoImplicit false

namespace Vllm

/-- The labels of the job the proof was generated for, which is still known. -/
structure Submission.Labelled (sub : Submission) : Prop where
  jobId : sub.jobId = sub.proof.origin.jobId
  vdfTick : sub.vdfTick = sub.proof.origin.vdfTick
  known : sub.known = true

/-! ## The condition -/

/-- A key that falls to the eviction when `j` is entered. -/
def Bridge.evicts (b : Bridge) (j : Job) (k : Int) : Prop :=
  j.pow.requestId ∉ b.jobByReq.map (·.1) ∧ 32 ≤ b.jobByReq.length ∧
    k ∈ (b.jobByReq.take 16).map (·.1)

/-- The job `j` leaves the labels of a proof of `o` as they are. -/
structure Bridge.Spares (b : Bridge) (j : Job) (clean : Bool) (o : Job) : Prop where
  tick : j.vdfTick = o.vdfTick
  /-- A share whose own id is empty falls back to the current one. -/
  empty : o.jobId.truthy = true ∨ j.jobId.truthy = false
  taken : j.pow.requestId = o.pow.requestId → j.jobId = o.jobId
  kept : j.pow.requestId ≠ o.pow.requestId → clean = false ∧ ¬ b.evicts j o.pow.requestId

/-- The jobs of the requests in flight and of the proofs on their way. -/
def Service.underway (s : Service) : List Job := s.inFlight ++ s.proofs.map (·.origin)

/-- A job that is notified spares the proofs under way. -/
def KeepsLabels (args : Args) (s : Service) : ServiceEvent → Prop
  | .notify p => ∀ j clean, s.bridge.readNotify args p = .ok (some (j, clean)) →
      ∀ o ∈ s.underway, o.emits = true → s.bridge.Spares j clean o
  | _ => True

/-! ## The table -/

namespace Bridge

/-- The entry of `o` is there, and it is what a proof of `o` gets. -/
structure Serves (b : Bridge) (o : Job) : Prop where
  entry : b.jobByReq.lookup o.pow.requestId = some o.jobId
  current : ∃ j, b.job = some j ∧ j.vdfTick = o.vdfTick ∧
    (o.jobId.truthy = true ∨ j.jobId.truthy = false)

/-- The current job is served and the table is small. -/
structure Kept (b : Bridge) : Prop where
  small : b.jobByReq.length ≤ 32
  current : ∀ j, b.job = some j → b.Serves j

theorem Serves.congr {b b' : Bridge} {o : Job} (h : b.Serves o)
    (ht : b'.jobByReq = b.jobByReq) (hj : b'.job = b.job) : b'.Serves o :=
  ⟨by rw [ht]; exact h.entry, by rw [hj]; exact h.current⟩

theorem Kept.congr {b b' : Bridge} (h : b.Kept) (ht : b'.jobByReq = b.jobByReq)
    (hj : b'.job = b.job) : b'.Kept :=
  ⟨by rw [ht]; exact h.small, fun j hb => (h.current j (hj ▸ hb)).congr ht hj⟩

/-- A table overflows only when it was full and a new key comes. -/
theorem enter_overflows {b : Bridge} (hb : b.Kept) {j : Job} {clean : Bool}
    (h : 32 < (b.enter j clean).length) :
    j.pow.requestId ∉ b.jobByReq.map (·.1) ∧ 32 ≤ b.jobByReq.length ∧
      b.enter j clean = b.jobByReq ++ [(j.pow.requestId, j.jobId)] := by
  have hsmall := hb.small
  unfold enter at h ⊢
  rw [InsertionDict.length_assign] at h
  cases clean with
  | true => exact absurd h (by rw [if_pos rfl]; simp)
  | false =>
    rw [if_neg Bool.false_ne_true] at h ⊢
    split at h
    · omega
    · rename_i hnew
      exact ⟨hnew, by omega, InsertionDict.assign_of_new hnew _⟩

/-- The entries a job leaves: its own, and those that are neither cleared nor evicted. -/
theorem setJob_lookup {b : Bridge} (hb : b.Kept) (j : Job) (clean : Bool) {k : Int}
    (hk : j.pow.requestId ≠ k → clean = false ∧ ¬ b.evicts j k) :
    (b.setJob j clean).jobByReq.lookup k =
      if k = j.pow.requestId then some j.jobId else b.jobByReq.lookup k := by
  have henter : (b.enter j clean).lookup k =
      if k = j.pow.requestId then some j.jobId else b.jobByReq.lookup k := by
    unfold enter
    rw [InsertionDict.lookup_assign]
    split
    · rfl
    · rename_i hne
      rw [(hk fun h => hne h.symm).1, if_neg Bool.false_ne_true]
  unfold setJob
  dsimp only
  split
  · rename_i hfull
    obtain ⟨hnew, hlen, happ⟩ := enter_overflows hb hfull
    rw [InsertionDict.lookup_drop, henter]
    -- The new entry is the last one.
    rw [happ, List.take_append_of_le_length (by omega)]
    intro hmem
    by_cases hreq : j.pow.requestId = k
    · exact hnew (hreq ▸ List.map_subset _ (List.take_subset 16 b.jobByReq) hmem)
    · exact (hk hreq).2 ⟨hnew, hlen, hmem⟩
  · exact henter

theorem setJob_small {b : Bridge} (hb : b.Kept) (j : Job) (clean : Bool) :
    (b.setJob j clean).jobByReq.length ≤ 32 := by
  have hsmall := hb.small
  unfold setJob
  dsimp only
  split
  · rename_i hfull
    rw [(enter_overflows hb hfull).2.2, List.length_drop, List.length_append,
      List.length_singleton]
    omega
  · omega

/-- A job that is entered is served, and so are the others it spares. -/
theorem setJob_serves {b : Bridge} (hb : b.Kept) {j : Job} {clean : Bool} {o : Job}
    (ho : b.Serves o) (hs : b.Spares j clean o) : (b.setJob j clean).Serves o := by
  refine ⟨?_, j, rfl, hs.tick, hs.empty⟩
  rw [setJob_lookup hb j clean hs.kept]
  split
  · rename_i hk
    rw [hs.taken hk.symm]
  · exact ho.entry

theorem setJob_kept {b : Bridge} (hb : b.Kept) (j : Job) (clean : Bool) :
    (b.setJob j clean).Kept := by
  refine ⟨setJob_small hb j clean, fun j' hj' => ?_⟩
  obtain rfl : j = j' := Option.some.inj hj'
  refine ⟨?_, j, rfl, rfl, ?_⟩
  · rw [setJob_lookup hb j clean fun h => absurd rfl h, if_pos rfl]
  · cases j.jobId.truthy
    · exact .inr rfl
    · exact .inl rfl

/-! ## Submissions -/

/-- A proof of a job that is served gets that job's id, or none. -/
theorem Serves.jobIdFor {b : Bridge} {o : Job} {reqId : Nat} (h : b.Serves o)
    (hr : (reqId : Int) = o.pow.requestId) (ht : (b.jobIdFor reqId).truthy = true) :
    b.jobIdFor reqId = o.jobId := by
  obtain ⟨hentry, j, hj, -, hempty⟩ := h
  unfold Bridge.jobIdFor at ht ⊢
  rw [hr, hentry] at ht ⊢
  dsimp only at ht ⊢
  split
  · rfl
  · rename_i hfalsy
    rw [if_neg hfalsy, hj] at ht
    rcases hempty with he | he
    · exact absurd he hfalsy
    · exact absurd ht (by rw [Option.map_some, Option.getD_some, he]; exact nofun)

/-- What `submit_proof` sends, and that it leaves the jobs alone. -/
theorem submitProof_spec (args : Args) (b : Bridge) (m : Message) (written : Bool) :
    (b.submitProof args m written).1.job = b.job ∧
    (b.submitProof args m written).1.jobByReq = b.jobByReq ∧
    ∀ sub, (b.submitProof args m written).2 = some sub →
      (b.jobIdFor m.reqId).truthy = true ∧ sub.jobId = b.jobIdFor m.reqId ∧
        sub.vdfTick = b.tickNow ∧ sub.proof = m ∧
        sub.known = (b.jobByReq.lookup (m.reqId : Int)).isSome := by
  unfold Bridge.submitProof
  split
  · exact ⟨rfl, rfl, nofun⟩
  split
  · exact ⟨rfl, rfl, nofun⟩
  split
  · exact ⟨rfl, rfl, nofun⟩
  unfold Bridge.submitBlob
  dsimp only
  split
  · exact ⟨rfl, rfl, nofun⟩
  rename_i ht
  rw [Bool.not_eq_false] at ht
  unfold Bridge.send
  split
  · exact ⟨rfl, rfl, nofun⟩
  split
  · refine ⟨rfl, rfl, fun sub hsub => ?_⟩
    cases hsub
    exact ⟨ht, rfl, rfl, rfl, rfl⟩
  · exact ⟨rfl, rfl, nofun⟩

/-- **A proof of a job that is served is submitted with that job's labels, or not at all.** -/
theorem Serves.submission {args : Args} {b : Bridge} {m : Message} {written : Bool}
    {sub : Submission} (h : b.Serves m.origin) (hr : (m.reqId : Int) = m.origin.pow.requestId)
    (hsub : (b.submitProof args m written).2 = some sub) : sub.Labelled := by
  obtain ⟨ht, hid, htick, rfl, hknown⟩ := (submitProof_spec args b m written).2.2 sub hsub
  refine ⟨hid.trans (h.jobIdFor hr ht), ?_, ?_⟩
  · obtain ⟨-, j, hj, hjt, -⟩ := h
    rw [htick, Bridge.tickNow, hj]
    exact hjt
  · rw [hknown, hr, h.entry]
    rfl

end Bridge

/-! ## Runs -/

/-- **Every proof under way is of a job that is served.** -/
structure Service.Served (s : Service) : Prop where
  kept : s.bridge.Kept
  underway : ∀ o ∈ s.underway, o.emits = true → s.bridge.Serves o
  reqId : ∀ m ∈ s.proofs, m.origin.emits = true ∧ (m.reqId : Int) = m.origin.pow.requestId
  sent : ∀ sub ∈ s.sent, sub.Labelled

namespace Service.Served

variable {args : Args} {s s' : Service}

/-- A step that leaves the jobs alone and adds nothing that is under way. -/
theorem congr (h : s.Served) (hj : s'.bridge.job = s.bridge.job)
    (ht : s'.bridge.jobByReq = s.bridge.jobByReq) (hu : ∀ o ∈ s'.underway, o ∈ s.underway)
    (hp : ∀ m ∈ s'.proofs, m ∈ s.proofs) (hs : ∀ sub ∈ s'.sent, sub.Labelled) : s'.Served :=
  ⟨h.kept.congr ht hj, fun o ho he => (h.underway o (hu o ho) he).congr ht hj,
    fun m hm => h.reqId m (hp m hm), hs⟩

theorem notify (h : s.Served) {p : Value} (hok : KeepsLabels args s (.notify p))
    (hs : s.notify args p = some s') : s'.Served := by
  unfold Service.notify at hs
  split at hs <;> cases hs
  unfold Bridge.onNotify
  split
  · exact h.congr rfl rfl (fun _ => id) (fun _ => id) h.sent
  · exact h.congr rfl rfl (fun _ => id) (fun _ => id) h.sent
  · rename_i j clean hj
    exact ⟨Bridge.setJob_kept h.kept j clean,
      fun o ho he => Bridge.setJob_serves h.kept (h.underway o ho he) (hok j clean hj o ho he),
      h.reqId, h.sent⟩

theorem emit (h : s.Served) {i : Nat} {blob : Option Blob} (hs : s.emit i blob = some s') :
    s'.Served := by
  unfold Service.emit at hs
  split at hs
  · cases hs
  · rename_i j hj
    have hmem := List.mem_of_getElem? hj
    split at hs <;> cases hs
    · rename_i he
      refine ⟨h.kept, fun o ho => ?_, fun m hm => ?_, h.sent⟩
      · unfold Service.underway at ho
        rw [List.map_append, ← List.append_assoc] at ho
        rcases List.mem_append.1 ho with ho | ho
        · exact h.underway o ho
        · obtain rfl := List.mem_singleton.1 ho
          exact h.underway _ (List.mem_append_left _ hmem)
      · rcases List.mem_append.1 hm with hm | hm
        · exact h.reqId m hm
        · obtain rfl := List.mem_singleton.1 hm
          refine ⟨he, ?_⟩
          unfold Job.emits at he
          rw [Bool.and_eq_true, decide_eq_true_eq] at he
          exact Int.toNat_of_nonneg he.1
    · exact h

theorem drain (h : s.Served) {i : Nat} {written : Bool}
    (hs : s.drain args i written = some s') : s'.Served := by
  unfold Service.drain at hs
  split at hs
  · cases hs
  rename_i m hm
  have hmem := List.mem_of_getElem? hm
  obtain ⟨he, hr⟩ := h.reqId m hmem
  have hserves := h.underway m.origin
    (List.mem_append_right _ (List.mem_map_of_mem hmem)) he
  obtain ⟨hj, ht, -⟩ := Bridge.submitProof_spec args s.bridge m written
  cases hs
  have hsub : ∀ x ∈ s.proofs.eraseIdx i, x ∈ s.proofs :=
    fun x hx => (List.eraseIdx_sublist _ _).subset hx
  refine h.congr hj ht (fun o ho => ?_) hsub fun sub hs => ?_
  · rcases List.mem_append.1 ho with ho | ho
    · exact List.mem_append_left _ ho
    · exact List.mem_append_right _ (List.map_subset _ hsub ho)
  · rcases List.mem_append.1 hs with hs | hs
    · exact h.sent sub hs
    · exact hserves.submission hr (Option.mem_toList.1 hs)

theorem step (h : s.Served) {e : ServiceEvent} (hok : KeepsLabels args s e)
    (hs : s.step args e = some s') : s'.Served := by
  cases e with
  | notify p => exact h.notify hok hs
  | emit i blob => exact h.emit hs
  | drain i written => exact h.drain hs
  | dispatch =>
    obtain ⟨j, hj, rfl⟩ := Option.map_eq_some_iff.1 hs
    refine ⟨h.kept, fun o ho he => ?_, h.reqId, h.sent⟩
    unfold Service.underway at ho
    rcases List.mem_append.1 ho with ho | ho
    · rcases List.mem_append.1 ho with ho | ho
      · exact h.underway o (List.mem_append_left _ ho) he
      · obtain rfl := List.mem_singleton.1 ho
        exact h.kept.current o hj
    · exact h.underway o (List.mem_append_right _ ho) he
  | complete i =>
    unfold Service.step at hs
    dsimp only at hs
    split at hs <;> cases hs
    refine h.congr rfl rfl (fun o ho => ?_) (fun _ => id) h.sent
    rcases List.mem_append.1 ho with ho | ho
    · exact List.mem_append_left _ ((List.eraseIdx_sublist _ _).subset ho)
    · exact List.mem_append_right _ ho
  | connection | setTarget | setModel =>
    unfold Service.step at hs
    dsimp only at hs
    split at hs <;> cases hs
    exact h.congr rfl rfl (fun _ => id) (fun _ => id) h.sent

end Service.Served

/-- **In every run whose jobs spare the proofs under way, every share carries the job id and the
tick of the job its proof was generated from, which is still known.** -/
theorem bridge_shares_labelled {args : Args} {es : List ServiceEvent} {s : Service}
    (hok : (serviceMachine args).Guarded (KeepsLabels args) (serviceMachine args).init es)
    (h : (serviceMachine args).exec (serviceMachine args).init es = some s) :
    ∀ sub ∈ s.sent, sub.Labelled := by
  refine ((serviceMachine args).guarded_invariant (I := Service.Served)
    (fun _ _ _ hI hg hs => hI.step hg hs) ?_ hok h).sent
  exact ⟨⟨Nat.zero_le _, nofun⟩, nofun, nofun, nofun⟩

/-- The only header hashed below is all zeros; this is its hash. -/
def zeroArgs : Args where
  sha256d _ := [75, 231, 87, 14, 143, 112, 235, 9, 54, 64, 200, 70, 130, 116, 186, 117, 151, 69,
    167, 170, 43, 125, 37, 171, 30, 4, 33, 178, 89, 132, 80, 20]

def zeroBlob : Blob where
  headerPrefix := List.replicate 76 0
  hash := List.replicate 32 0
  belowFloor := false

/-- A job with its digit as id and request id, and a tick. -/
def jobParams (digit : Nat) (clean : Bool) (tick : Nat) : Value :=
  .list [.str [48 + digit], .str (List.replicate 152 48), .str (List.replicate 64 102), .int 0,
    .int 7, .int 0, .bool clean, .int digit, .none, .str (str "aa"), .int tick]

/-- Job 1 is dispatched; another job comes before its proof is drained. -/
def overtaken (clean : Bool) (tick : Nat) : List ServiceEvent :=
  [.connection true, .notify (jobParams 1 true 1000), .dispatch,
    .notify (jobParams 2 clean tick), .emit 0 (some zeroBlob), .drain 0 true]

/-- A job of the same tick that is not clean: the share is still of job 1. -/
theorem bridge_shares_labelled_overtaken :
    ∃ s, (serviceMachine zeroArgs).exec (serviceMachine zeroArgs).init (overtaken false 1000) =
        some s ∧ s.sent.length = 1 ∧ ∀ sub ∈ s.sent, sub.Labelled := by
  have hrun : ((serviceMachine zeroArgs).exec (serviceMachine zeroArgs).init
      (overtaken false 1000)).map (·.sent.length) = some 1 := by
    decide +kernel
  obtain ⟨s, hs, hlen⟩ := Option.map_eq_some_iff.1 hrun
  refine ⟨s, hs, hlen, bridge_shares_labelled ?_ hs⟩
  refine ⟨trivial, fun t ht => ?_⟩
  obtain rfl := Option.some.inj ht
  refine ⟨fun _ _ _ o ho => (nomatch ho), fun t ht => ?_⟩
  obtain rfl := Option.some.inj ht
  refine ⟨trivial, fun t ht => ?_⟩
  obtain rfl := Option.some.inj ht
  refine ⟨fun j clean hj o ho _ => ?_, fun t ht => ?_⟩
  · cases hj
    obtain rfl := List.mem_singleton.1 ho
    exact ⟨rfl, .inl rfl, fun h => absurd h (by decide),
      fun _ => ⟨rfl, fun h => absurd h.2.1 (by decide)⟩⟩
  obtain rfl := Option.some.inj ht
  exact ⟨trivial, fun t _ => ⟨trivial, fun _ _ => trivial⟩⟩

/-- A clean job of another tick: the proof of job 1 is submitted as a share of job 2. -/
theorem bridge_share_mislabelled :
    ¬ ∀ s, (serviceMachine zeroArgs).exec (serviceMachine zeroArgs).init (overtaken true 315000) =
      some s → ∀ sub ∈ s.sent, sub.Labelled := by
  intro h
  have hrun : ((serviceMachine zeroArgs).exec (serviceMachine zeroArgs).init
      (overtaken true 315000)).map (fun s => s.sent.map fun sub =>
        (sub.vdfTick, sub.proof.origin.vdfTick)) = some [(315000, 1000)] := by
    decide +kernel
  obtain ⟨s, hs, he⟩ := Option.map_eq_some_iff.1 hrun
  have hmem : ((315000 : Int), (1000 : Int)) ∈ s.sent.map fun sub =>
      (sub.vdfTick, sub.proof.origin.vdfTick) := by
    rw [he]
    exact List.mem_singleton_self _
  obtain ⟨sub, hsub, hlabel⟩ := List.mem_map.1 hmem
  have htick : sub.vdfTick = 315000 := congrArg Prod.fst hlabel
  have horigin : sub.proof.origin.vdfTick = 1000 := congrArg Prod.snd hlabel
  have hsame := (h s hs sub hsub).vdfTick
  rw [htick, horigin] at hsame
  exact absurd hsame (by decide)

end Vllm
