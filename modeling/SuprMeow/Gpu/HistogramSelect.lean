import SuprMeow.Gpu.Histogram

/-!
# The histogram path returns the first ranks of the full sort

* `Simulates` — each stream's slots and threads are an insertion run of `BucketSelect`;
* `selectStep_simulates`, `selectIds_simulates` — one step, and every schedule;
* `selectStep_work`, `exists_complete` — every schedule is finite, and one that cannot be
  continued is complete;
* `histogram_exact` — the result of `pow_gpu_histogram_device_k`.
-/

set_option autoImplicit false

open Binary32 RankInsertion

namespace PowHistogram

open PowGpu (Buffer)

/-! ## One stream is an insertion run -/

section Stream

variable (values : Buffer Pattern) (ranks : Buffer (Buffer Nat)) (n k s : Nat)

/-- The ranks `select_ids` reads for stream `s` are the true start ranks. -/
def RanksCorrect : Prop :=
  ∀ b < bins, ranks s b = BucketSelect.below (binOf values n s) n b

/-- Insertion state of the ids of stream `s`. -/
structure Simulates (st : SelectState) (a : State Nat) : Prop where
  cells : st.output = a.cell
  lane : ∀ t < stride, (st.thread t).i % stride = t
  current : ∀ t < stride, (st.thread t).i < n →
    (st.thread t).r = a.pos (st.thread t).i ∧ (st.thread t).candidate = a.cand (st.thread t).i ∧
      (st.thread t).fin = BucketSelect.last (binOf values n s) n k (st.thread t).i
  passed : ∀ i < n, i < (st.thread (i % stride)).i →
    ¬ Active UINT32_MAX (BucketSelect.last (binOf values n s) n k) a i
  waiting : ∀ i < n, (st.thread (i % stride)).i < i →
    a.pos i = BucketSelect.first (binOf values n s) n k i ∧ a.cand i = i

variable {values ranks n k s}

theorem binOf_lt (i : Nat) : binOf values n s i < bins := key_lt_bins _

/-- A thread that enters id `i` holds the id's first cell, last cell and itself. -/
theorem enter_eq (hk : k ≤ n) (hr : RanksCorrect values ranks n s) {i : Nat} (hi : i < n) :
    enter values ranks n k s i =
      ⟨i, BucketSelect.first (binOf values n s) n k i,
        BucketSelect.last (binOf values n s) n k i, i⟩ := by
  have hb := @binOf_lt values n s i
  have hfirst : min (ranks s (binOf values n s i)) k =
      BucketSelect.first (binOf values n s) n k i := by
    rw [hr _ hb, BucketSelect.first, if_pos hi]
  have hlast : (if binOf values n s i + 1 < bins then min (ranks s (binOf values n s i + 1)) k
      else k) = BucketSelect.last (binOf values n s) n k i := by
    rw [BucketSelect.last, if_pos hi]
    split
    case isTrue h => rw [hr _ h]
    case isFalse h =>
      -- the last bin ends at rank `n`
      have hall := @BucketSelect.below_all (binOf values n s) n (binOf values n s i + 1)
        fun j _ => by have := @binOf_lt values n s j; omega
      rw [hall, min_eq_right hk]
  rw [enter, if_pos hi]
  exact congrArg₂ (fun r f => Thread.mk i r f i) hfirst hlast

theorem enter_i (i : Nat) : (enter values ranks n k s i).i = i := by
  unfold enter
  split <;> rfl

theorem init_simulates (hk : k ≤ n) (hr : RanksCorrect values ranks n s) :
    Simulates values n k s (selectInit values ranks n k s)
      (State.init UINT32_MAX (BucketSelect.first (binOf values n s) n k)) where
  cells := rfl
  lane t ht := by
    rw [selectInit, enter_i]; exact Nat.mod_eq_of_lt ht
  current t _ hn := by
    simp only [selectInit, enter_i] at hn ⊢
    rw [enter_eq hk hr hn]
    exact ⟨rfl, rfl, rfl⟩
  passed i _ hlt := by
    simp only [selectInit, enter_i] at hlt
    exact absurd (Nat.mod_le i stride) (by omega)
  waiting _ _ _ := ⟨rfl, rfl⟩

theorem lane_eq {t t' i : Nat} {st : SelectState} {a : State Nat}
    (h : Simulates values n k s st a) (ht : t < stride) (ht' : t' < stride)
    (hi : (st.thread t).i = i) (hi' : (st.thread t').i = i) : t = t' := by
  rw [← h.lane t ht, ← h.lane t' ht', hi, hi']

/-- The atomic minimum of a thread is the insertion step of its id. -/
theorem atomicMin_simulates {st : SelectState} {a : State Nat} {t : Nat}
    (h : Simulates values n k s st a) (ht : t < stride) (hin : (st.thread t).i < n)
    {threads' : Buffer Thread} (hself : threads' t = { st.thread t with
      r := (st.thread t).r + 1
      candidate := max (st.output (st.thread t).r) (st.thread t).candidate })
    (hother : ∀ t', t' ≠ t → threads' t' = st.thread t') :
    Simulates values n k s
      ⟨Function.update st.output (st.thread t).r
        (min (st.output (st.thread t).r) (st.thread t).candidate), threads'⟩
      (a.advance (st.thread t).i) := by
  obtain ⟨hpos, hcand, hfin⟩ := h.current t ht hin
  have hi : ∀ t', (threads' t').i = (st.thread t').i := fun t' => by
    by_cases htt : t' = t
    · rw [htt, hself]
    · rw [hother t' htt]
  have hpassing : ∀ i, (st.thread (i % stride)).i ≠ i → i ≠ (st.thread t).i := fun i hne he => by
    rw [he, h.lane t ht] at hne
    exact hne rfl
  refine ⟨?_, ?_, ?_, ?_, ?_⟩
  · rw [h.cells, hpos, hcand]
    rfl
  · intro t' ht'
    exact (hi t').symm ▸ h.lane t' ht'
  · intro t' ht' hn'
    simp only [hi] at hn' ⊢
    by_cases htt : t' = t
    · subst htt
      rw [hself, advance_pos_self, advance_cand_self, h.cells]
      exact ⟨congrArg (· + 1) hpos, by rw [hpos, hcand], hfin⟩
    · have hne : (st.thread t').i ≠ (st.thread t).i := fun he =>
        htt (lane_eq h ht' ht he rfl)
      rw [hother t' htt, advance_pos_of_ne _ _ hne, advance_cand_of_ne _ _ hne]
      exact h.current t' ht' hn'
  · intro i hi' hlt
    simp only [hi] at hlt
    have hne := hpassing i (by omega)
    have hpas := h.passed i hi' hlt
    unfold Active at hpas ⊢
    rwa [advance_pos_of_ne _ _ hne, advance_cand_of_ne _ _ hne]
  · intro i hi' hlt
    simp only [hi] at hlt
    have hne := hpassing i (by omega)
    rw [advance_pos_of_ne _ _ hne, advance_cand_of_ne _ _ hne]
    exact h.waiting i hi' hlt

/-- No id of a thread lies strictly between one id and the next. -/
theorem next_of_lane {i c : Nat} (hlane : i % stride = c % stride) (hlt : i < c + stride)
    (hne : i ≠ c) : i < c := by
  have hi := Nat.div_add_mod i stride
  have hc := Nat.div_add_mod c stride
  by_contra hge
  have hq : c / stride < i / stride := by
    by_contra hq
    have := Nat.mul_le_mul_left stride (Nat.not_lt.1 hq)
    omega
  have := Nat.mul_le_mul_left stride (Nat.succ_le_of_lt hq)
  rw [Nat.mul_succ] at this
  omega

/-- A thread whose id has stopped moves on; the insertion state is unchanged. -/
theorem move_simulates (hk : k ≤ n) (hr : RanksCorrect values ranks n s) {st : SelectState}
    {a : State Nat} {t : Nat} (h : Simulates values n k s st a) (ht : t < stride)
    (hinactive : ¬ Active UINT32_MAX (BucketSelect.last (binOf values n s) n k) a
      (st.thread t).i) {threads' : Buffer Thread}
    (hself : threads' t = enter values ranks n k s ((st.thread t).i + stride))
    (hother : ∀ t', t' ≠ t → threads' t' = st.thread t') :
    Simulates values n k s ⟨st.output, threads'⟩ a := by
  have hi : (threads' t).i = (st.thread t).i + stride := by rw [hself, enter_i]
  have hpos : 0 < stride := by decide
  have hlane : ((st.thread t).i + stride) % stride = t := by
    rw [Nat.add_mod_right]; exact h.lane t ht
  refine ⟨h.cells, ?_, ?_, ?_, ?_⟩
  · intro t' ht'
    by_cases htt : t' = t
    · subst htt
      exact hi.symm ▸ hlane
    · dsimp only
      rw [hother t' htt]; exact h.lane t' ht'
  · intro t' ht' hn'
    dsimp only at hn' ⊢
    by_cases htt : t' = t
    · subst htt
      rw [hi] at hn'
      rw [hself, enter_eq hk hr hn']
      have hwait := h.waiting _ hn' (by rw [hlane]; omega)
      exact ⟨hwait.1.symm, hwait.2.symm, rfl⟩
    · rw [hother t' htt] at hn' ⊢
      exact h.current t' ht' hn'
  · intro i hi' hlt
    dsimp only at hlt
    by_cases htt : i % stride = t
    · rw [htt, hi] at hlt
      by_cases hcur : i = (st.thread t).i
      · rw [hcur]; exact hinactive
      · refine h.passed i hi' ?_
        rw [htt]
        exact next_of_lane (htt.trans (h.lane t ht).symm) hlt hcur
    · rw [hother _ htt] at hlt
      exact h.passed i hi' hlt
  · intro i hi' hlt
    dsimp only at hlt
    by_cases htt : i % stride = t
    · rw [htt, hi] at hlt
      exact h.waiting i hi' (by rw [htt]; omega)
    · rw [hother _ htt] at hlt
      exact h.waiting i hi' hlt

/-- **One step of a thread is one insertion step, or only moves the thread on.** -/
theorem selectStep_simulates (hk : k ≤ n) (hr : RanksCorrect values ranks n s)
    {st st' : SelectState} {a : State Nat} {t : Nat} (h : Simulates values n k s st a)
    (hstep : selectStep values ranks n k s st t = some st') :
    ∃ sched, Simulates values n k s st'
      (run UINT32_MAX (BucketSelect.last (binOf values n s) n k) a sched) := by
  simp only [selectStep] at hstep
  split at hstep
  case isFalse => cases hstep
  rename_i hen
  obtain ⟨ht, hin⟩ := hen
  obtain ⟨hpos, hcand, hfin⟩ := h.current t ht hin
  rw [hpos, hfin, hcand] at hstep
  split at hstep
  · rename_i hact
    cases hstep
    refine ⟨[(st.thread t).i], ?_⟩
    have hrun : run UINT32_MAX (BucketSelect.last (binOf values n s) n k) a [(st.thread t).i] =
        a.advance (st.thread t).i := if_pos hact
    rw [hrun, ← hpos, ← hcand]
    exact atomicMin_simulates h ht hin (by rw [Function.update_self, ← hfin])
      fun t' htt => Function.update_of_ne htt ..
  · rename_i hact
    cases hstep
    exact ⟨[], move_simulates hk hr h ht hact (Function.update_self ..)
      fun t' htt => Function.update_of_ne htt ..⟩

end Stream

/-! ## Every schedule -/

section Schedules

variable {values : Buffer Pattern} {ranks : Buffer (Buffer Nat)} {S n k : Nat}

theorem selectIds_step {σ σ' : Buffer SelectState} {e : Nat × Nat} :
    (selectIds values ranks S n k).step σ e = some σ' ↔
      e.1 < S ∧ ∃ st, selectStep values ranks n k e.1 (σ e.1) e.2 = some st ∧
        σ' = Function.update σ e.1 st := by
  simp only [selectIds]
  split
  case isFalse h => simp [h]
  case isTrue h => simp only [Option.map_eq_some_iff, h, true_and, eq_comm]

/-- Every stream is an insertion run. -/
def AllSimulated (values : Buffer Pattern) (S n k : Nat) (σ : Buffer SelectState) : Prop :=
  ∀ s < S, ∃ sched, Simulates values n k s (σ s)
    (run UINT32_MAX (BucketSelect.last (binOf values n s) n k)
      (State.init UINT32_MAX (BucketSelect.first (binOf values n s) n k)) sched)

variable (hk : k ≤ n) (hr : ∀ s < S, RanksCorrect values ranks n s)
include hk hr

theorem allSimulated_init : AllSimulated values S n k (selectIds values ranks S n k).init :=
  fun s hs => ⟨[], init_simulates hk (hr s hs)⟩

theorem allSimulated_step {σ σ' : Buffer SelectState} {e : Nat × Nat}
    (h : AllSimulated values S n k σ)
    (hstep : (selectIds values ranks S n k).step σ e = some σ') :
    AllSimulated values S n k σ' := by
  obtain ⟨heS, st, hst, rfl⟩ := selectIds_step.1 hstep
  intro s hs
  by_cases hse : s = e.1
  · subst hse
    obtain ⟨sched, hsim⟩ := h e.1 heS
    obtain ⟨more, hsim'⟩ := selectStep_simulates hk (hr e.1 heS) hsim hst
    refine ⟨sched ++ more, ?_⟩
    rw [Function.update_self, run, List.foldl_append]
    exact hsim'
  · rw [Function.update_of_ne hse]
    exact h s hs

/-- **Every schedule of all threads of all streams is an insertion run of every stream.** -/
theorem selectIds_simulates {sched : List (Nat × Nat)} {σ : Buffer SelectState}
    (hrun : (selectIds values ranks S n k).exec (selectIds values ranks S n k).init sched =
      some σ) :
    AllSimulated values S n k σ :=
  Runs.Machine.exec_invariant _ (fun _ _ _ h hs => allSimulated_step hk hr h hs)
    (allSimulated_init hk hr) hrun

/-! ## Schedules end -/

/-- Steps thread registers can still take. -/
def Thread.work (n k : Nat) (th : Thread) : Nat := (n - th.i) * (k + 1) + (k - th.r)

/-- Steps all threads can still take. -/
def work (S n k : Nat) (σ : Buffer SelectState) : Nat :=
  ∑ s ∈ Finset.range S, ∑ t ∈ Finset.range stride, ((σ s).thread t).work n k

omit hk hr in
theorem selectStep_work {s : Nat} {st st' : SelectState} {a : State Nat} {t : Nat}
    (h : Simulates values n k s st a) (hstep : selectStep values ranks n k s st t = some st') :
    t < stride ∧ (st'.thread t).work n k < (st.thread t).work n k ∧
      ∀ t', t' ≠ t → st'.thread t' = st.thread t' := by
  simp only [selectStep] at hstep
  split at hstep
  case isFalse => cases hstep
  rename_i hen
  obtain ⟨ht, hin⟩ := hen
  obtain ⟨-, -, hfin⟩ := h.current t ht hin
  have hle : BucketSelect.last (binOf values n s) n k (st.thread t).i ≤ k := by
    rw [BucketSelect.last, if_pos hin]
    exact min_le_right _ _
  split at hstep
  · rename_i hact
    cases hstep
    refine ⟨ht, ?_, fun t' htt => Function.update_of_ne htt ..⟩
    simp only [Function.update_self, Thread.work]
    omega
  · cases hstep
    refine ⟨ht, ?_, fun t' htt => Function.update_of_ne htt ..⟩
    simp only [Function.update_self, Thread.work, enter_i]
    have hpos : 0 < stride := by decide
    obtain ⟨m, hm⟩ : ∃ m, n - (st.thread t).i = m + 1 := ⟨n - (st.thread t).i - 1, by omega⟩
    have hlt : n - ((st.thread t).i + stride) ≤ m := by omega
    have := Nat.mul_le_mul_right (k + 1) hlt
    rw [hm, Nat.succ_mul]
    omega

omit hr hk in
/-- **Every step uses up work.** -/
theorem work_step {σ σ' : Buffer SelectState} {e : Nat × Nat} (h : AllSimulated values S n k σ)
    (hstep : (selectIds values ranks S n k).step σ e = some σ') : work S n k σ' < work S n k σ := by
  obtain ⟨heS, st, hst, rfl⟩ := selectIds_step.1 hstep
  obtain ⟨sched, hsim⟩ := h e.1 heS
  obtain ⟨ht, hlt, hrest⟩ := selectStep_work hsim hst
  refine Finset.sum_lt_sum (fun s _ => ?_) ⟨e.1, Finset.mem_range.2 heS, ?_⟩
  · by_cases hse : s = e.1
    · subst hse
      rw [Function.update_self]
      refine Finset.sum_le_sum fun t' _ => ?_
      by_cases htt : t' = e.2
      · subst htt; exact hlt.le
      · rw [hrest t' htt]
    · rw [Function.update_of_ne hse]
  · rw [Function.update_self]
    refine Finset.sum_lt_sum (fun t' _ => ?_) ⟨e.2, Finset.mem_range.2 ht, hlt⟩
    by_cases htt : t' = e.2
    · subst htt; exact hlt.le
    · rw [hrest t' htt]

theorem work_run {sched : List (Nat × Nat)} {σ σ' : Buffer SelectState}
    (h : AllSimulated values S n k σ)
    (hrun : (selectIds values ranks S n k).exec σ sched = some σ') :
    sched.length + work S n k σ' ≤ work S n k σ := by
  induction sched generalizing σ with
  | nil => cases hrun; simp
  | cons e sched ih =>
    obtain ⟨u, hu, hrest⟩ := (Runs.Machine.exec_cons _).1 hrun
    have := work_step h hu
    have := ih (allSimulated_step hk hr h hu) hrest
    rw [List.length_cons]
    omega

/-- **A run that is not complete can go on, until it is.** -/
theorem exists_complete {σ : Buffer SelectState} (h : AllSimulated values S n k σ) :
    ∃ sched σ', (selectIds values ranks S n k).exec σ sched = some σ' ∧ Complete S n σ' := by
  obtain ⟨w, hw⟩ : ∃ w, work S n k σ = w := ⟨_, rfl⟩
  induction w using Nat.strong_induction_on generalizing σ with
  | _ w ih =>
    by_cases hc : Complete S n σ
    · exact ⟨[], σ, rfl, hc⟩
    · unfold Complete at hc
      push Not at hc
      obtain ⟨s, hs, t, ht, hlt⟩ := hc
      have hen : ∃ st, selectStep values ranks n k s (σ s) t = some st := by
        simp only [selectStep]
        rw [if_pos ⟨ht, hlt⟩]
        split <;> exact ⟨_, rfl⟩
      obtain ⟨st, hst⟩ := hen
      have hstep : (selectIds values ranks S n k).step σ (s, t) =
          some (Function.update σ s st) := selectIds_step.2 ⟨hs, st, hst, rfl⟩
      obtain ⟨sched, σ', hrun, hdone⟩ :=
        ih _ (hw ▸ work_step h hstep) (allSimulated_step hk hr h hstep) rfl
      exact ⟨(s, t) :: sched, σ', (Runs.Machine.exec_cons _).2 ⟨_, hstep, hrun⟩, hdone⟩

end Schedules

/-! ## The returned head -/

/-- The rank order of the bins is the normative order of the snapped values. -/
theorem ranking_binOf (logits : Buffer Pattern) (n s : Nat) :
    Ranking.ranking (BucketSelect.lexKey (binOf logits n s)) (List.range n) =
      Ranking.ranking (PowGpu.rankKey fun i => snap (logits (s * n + i))) (List.range n) := by
  refine Ranking.ranking_congr (fun _ _ _ _ h => PowGpu.rankKey_injective _ h) fun i _ j _ => ?_
  rw [← not_lt, ← not_lt, BucketSelect.lexKey_lt_iff, PowGpu.rankKey_lt_iff, binOf, binOf,
    key_lt_iff, key_eq_iff]

/-- The slots of a complete schedule. -/
theorem complete_output {logits : Buffer Pattern} {ranks : Buffer (Buffer Nat)} {S n k : Nat}
    (hk : k ≤ n) (hn : n < 2 ^ 31) (hr : ∀ s < S, RanksCorrect logits ranks n s)
    (hfin : ∀ s < S, ∀ i < n, isFinite (snap (logits (s * n + i))) = true)
    {sched : List (Nat × Nat)} {σ : Buffer SelectState}
    (hrun : (selectIds logits ranks S n k).exec (selectIds logits ranks S n k).init sched = some σ)
    (hdone : Complete S n σ) {s : Nat} (hs : s < S) :
    (List.range k).map (σ s).output =
      (PowGpu.rankedIds (fun i => snap (logits (s * n + i))) n).take k := by
  obtain ⟨isched, hsim⟩ := selectIds_simulates hk hr hrun s hs
  have hpos : 0 < stride := by decide
  have hstop := fun i (hi : i < n) => hsim.passed i hi
    (lt_of_lt_of_le hi (hdone s hs _ (Nat.mod_lt i hpos)))
  rw [PowGpu.rankedIds_eq_ranking fun i hi => isNaN_of_isFinite (hfin s hs i hi),
    ← ranking_binOf, hsim.cells]
  exact BucketSelect.finished_prefix hk (fun i _ => binOf_lt i)
    (by unfold UINT32_MAX; omega) (fun b => BucketSelect.bucketInv isched b) hstop

/-- The first `k` ranks of every stream, the head and the probes. -/
structure Output.IsHead (out : Output) (logits : Buffer Pattern) (S n k : Nat) : Prop where
  ids : ∀ s < S, (List.range k).map (out.ids s) =
    (PowGpu.rankedIds (fun i => snap (logits (s * n + i))) n).take k
  set : ∀ s < S, ∀ r < k, out.ids s r < n
  distinct : ∀ s < S, ((List.range k).map (out.ids s)).Nodup
  values : ∀ s < S, ∀ r < k, out.values s r = snap (logits (s * n + out.ids s r))
  heads : ∀ s < S, out.heads s = out.values s 0
  probes : ∀ s < S, ∀ p < 20, out.probes s p = snap (logits (s * n + (n / 20) * p))

theorem gather_isHead {logits : Buffer Pattern} {S n k : Nat} {ids : Buffer (Buffer Nat)}
    (h : ∀ s < S, (List.range k).map (ids s) =
      (PowGpu.rankedIds (fun i => snap (logits (s * n + i))) n).take k) :
    (gather logits n ids).IsHead logits S n k := by
  have hset : ∀ s < S, ∀ r < k, ids s r < n := fun s hs r hr => by
    have hmem : ids s r ∈ (List.range k).map (ids s) :=
      List.mem_map.2 ⟨r, List.mem_range.2 hr, rfl⟩
    rw [h s hs] at hmem
    exact PowGpu.mem_rankedIds.1 (List.mem_of_mem_take hmem)
  refine ⟨h, hset, fun s hs => ?_, fun s hs r hr => if_pos (hset s hs r hr), fun _ _ => rfl,
    fun _ _ _ _ => rfl⟩
  change ((List.range k).map (ids s)).Nodup
  rw [h s hs]
  exact (List.take_sublist _ _).nodup
    ((PowGpu.rankedIds_perm _ n).nodup_iff.2 List.nodup_range)

/-- What the host function returns on a complete schedule. -/
theorem powGpuHistogramDeviceK_isHead (scan : BlockScan) {logits : Buffer Pattern} {S n k : Nat}
    (hS : 1 ≤ S) (hn : 20 ≤ n ∧ n < 2 ^ 31) (hk : 1 ≤ k ∧ k ≤ min 64 n)
    (hfin : ∀ s < S, ∀ i < n, isFinite (snap (logits (s * n + i))) = true)
    {order : Nat → List Nat} (horder : ∀ s < S, (order s).Perm (List.range n))
    {sched : List (Nat × Nat)} {σ : Buffer SelectState}
    (hrun : (selectIds logits (ranksOf scan order logits n) S n k).exec
      (selectIds logits (ranksOf scan order logits n) S n k).init sched = some σ)
    (hdone : Complete S n σ) :
    ∃ out, powGpuHistogramDeviceK scan ⟨order, sched, true⟩ logits S n k = some out ∧
      out.IsHead logits S n k := by
  have hkn : k ≤ n := hk.2.trans (min_le_right _ _)
  have hk64 : k ≤ 64 := hk.2.trans (min_le_left _ _)
  have hr : ∀ s < S, RanksCorrect logits (ranksOf scan order logits n) n s := fun s hs b hb =>
    ranksOf_eq scan logits (by omega) (horder s hs) hb
  refine ⟨_, ?_, gather_isHead fun s hs => complete_output hkn hn.2 hr hfin hrun hdone hs⟩
  rw [powGpuHistogramDeviceK, if_neg (by omega)]
  simp only [hrun, Option.bind_some, if_true]

/-- The first `k` ranks of the flat-key sort. -/
theorem IsHead.agrees_flatSort {out : Output} {logits : Buffer Pattern} {S n k : Nat}
    (h : out.IsHead logits S n k) {sorted : PowGpu.Ranked}
    (hs : sorted.HoldsRanks (fun i => snap (logits i)) S n) (hk : k ≤ n) :
    ∀ s < S, ∀ r < k, out.ids s r = (sorted.idx (s * n + r)).toNat ∧
      out.values s r = sorted.val (s * n + r) := by
  intro s hsS r hr
  obtain ⟨id, hid, hidx, hval⟩ := hs s hsS r (by omega)
  have hget := congrArg (fun l => l[r]?) (h.ids s hsS)
  simp only [List.getElem?_map, List.getElem?_range hr, Option.map_some,
    List.getElem?_take_of_lt hr] at hget
  have heq : out.ids s r = id := Option.some.inj (hget.trans hid)
  rw [h.values s hsS r hr, heq, hidx, hval]
  exact ⟨rfl, rfl⟩

/-- **The histogram path is the head of the full sort.**  Every schedule of the insertions is
finite and can be completed, and every complete schedule returns the first `k` ranks of each
stream, as the flat-key sort does on the inputs that sort accepts. -/
theorem histogram_exact (scan : BlockScan) {logits : Buffer Pattern} {S n k : Nat}
    (hS : 1 ≤ S) (hn : 20 ≤ n ∧ n < 2 ^ 31) (hk : 1 ≤ k ∧ k ≤ min 64 n)
    (hfin : ∀ s < S, ∀ i < n, isFinite (snap (logits (s * n + i))) = true)
    {order : Nat → List Nat} (horder : ∀ s < S, (order s).Perm (List.range n)) :
    (∀ sched σ, (selectIds logits (ranksOf scan order logits n) S n k).exec
        (selectIds logits (ranksOf scan order logits n) S n k).init sched = some σ →
      sched.length ≤
        work S n k (selectIds logits (ranksOf scan order logits n) S n k).init ∧
      ∃ more σ', (selectIds logits (ranksOf scan order logits n) S n k).exec σ more = some σ' ∧
        Complete S n σ') ∧
    (∀ sched σ, (selectIds logits (ranksOf scan order logits n) S n k).exec
        (selectIds logits (ranksOf scan order logits n) S n k).init sched = some σ →
      Complete S n σ →
      ∃ out, powGpuHistogramDeviceK scan ⟨order, sched, true⟩ logits S n k = some out ∧
        out.IsHead logits S n k ∧
        (S ≤ 64 → n ≤ 2 ^ 18 →
          ∀ (C : PowGpu.CubRadixSort 64) (b : PowGpu.SortScratch), ∀ s < S, ∀ r < k,
            out.ids s r = ((PowGpu.flatSortSnap C logits S n b).idx (s * n + r)).toNat ∧
            out.values s r = (PowGpu.flatSortSnap C logits S n b).val (s * n + r))) := by
  have hkn : k ≤ n := hk.2.trans (min_le_right _ _)
  have hr : ∀ s < S, RanksCorrect logits (ranksOf scan order logits n) n s := fun s hs b hb =>
    ranksOf_eq scan logits (by omega) (horder s hs) hb
  refine ⟨fun sched σ hrun => ⟨?_, exists_complete hkn hr (selectIds_simulates hkn hr hrun)⟩,
    fun sched σ hrun hdone => ?_⟩
  · have := work_run hkn hr (allSimulated_init hkn hr) hrun
    omega
  · obtain ⟨out, hout, hhead⟩ :=
      powGpuHistogramDeviceK_isHead scan hS hn hk hfin horder hrun hdone
    refine ⟨out, hout, hhead, fun hS64 hn18 C b => ?_⟩
    have hflat := PowGpu.flatSortSnap_rank C logits hS64 hn18
      (fun i hi => by
        have hpos : 0 < n := by omega
        have h := hfin (i / n) (Nat.div_lt_of_lt_mul (by rwa [Nat.mul_comm])) (i % n)
          (Nat.mod_lt i hpos)
        rw [Nat.mul_comm, Nat.div_add_mod] at h
        exact isNaN_of_isFinite h) b
    exact IsHead.agrees_flatSort hhead hflat hkn

/-- Twenty equal logits, one slot. -/
theorem histogram_exact_ties :
    ∃ sched out, powGpuHistogramDeviceK BlockScan.sequential
        ⟨fun _ => List.range 20, sched, true⟩ (fun _ => 0#32) 1 20 1 = some out ∧
      out.IsHead (fun _ => 0#32) 1 20 1 := by
  have h := @histogram_exact BlockScan.sequential (fun _ => 0#32) 1 20 1 (by decide)
    ⟨by decide, by decide⟩ ⟨by decide, by decide⟩ (by decide) (fun _ => List.range 20)
    (fun _ _ => List.Perm.refl _)
  obtain ⟨-, sched, σ, hrun, hdone⟩ := h.1 [] _ rfl
  obtain ⟨out, hout, hhead, -⟩ := h.2 sched σ hrun hdone
  exact ⟨sched, out, hout, hhead⟩

end PowHistogram
