import SuprMeow.Poi.VdfTriple

/-!
# The table of jobs

A proof is drained only after the next `set_job`, so `job_by_req` has to hold the job before the
current one.  Past 16 entries `set_job` evicts, in the order in which the map is iterated, entries
of other jobs until 8 are left.

* `evict_eq_filter`, `length_evict` — what the eviction takes, in any order;
* `table_kept_iff` — the calls that keep the table within bounds and both jobs in it, whatever the
  order;
* `job_table_kept_iff` — over whole runs;
* `job_table_broken` — the previous job evicted, and a table that grows.
-/

set_option autoImplicit false

open Stratum (Bytes)

namespace Poi

open KeyedList

/-! ## The property and the condition -/

/-- After a call that set `p`: at most 16 entries, the new job among them, and the job of the call
before under its own request id. -/
structure TableKept (m : Miner) (p : PoiJobParams) (last : Option PoiJobParams) : Prop where
  size : m.jobByReq.length ≤ 16
  new : (p.requestId, p) ∈ m.jobByReq
  previous : ∀ q, last = some q → q.requestId ≠ p.requestId → (q.requestId, q) ∈ m.jobByReq

/-- The entries a job has in the table once it is inserted. -/
def sameJob (jobs : List (Nat × PoiJobParams)) (jobId : Bytes) : Nat :=
  (jobs.filter fun e => e.2.jobId == jobId).length

/-- Nothing is evicted; or the job has at most 16 entries and the previous one is spared, because it
is the same job or the new one takes its request id. -/
def TableRoom (m : Miner) (p : PoiJobParams) (last : Option PoiJobParams) : Prop :=
  (Miner.insertJob m.jobByReq p).length ≤ 16 ∨
    sameJob (Miner.insertJob m.jobByReq p) p.jobId ≤ 16 ∧
      ∀ q, last = some q → q.requestId = p.requestId ∨ q.jobId = p.jobId

section Calls

variable (prove : Bytes → Nat → Bytes)

/-- A call that succeeds keeps the table, however the map is iterated. -/
def KeepsTable (s : Miner × Option PoiJobParams) : VdfEvent → Prop
  | .setJob p a => ∀ order perm m', Attempt.call prove { a with order, perm } s.1 p =
      some (m', true) → TableKept m' p s.2
  | .onLogits .. => True

/-- A call that succeeds has room. -/
def FindsRoom (s : Miner × Option PoiJobParams) : VdfEvent → Prop
  | .setJob p a => ∀ m', Attempt.call prove a s.1 p = some (m', true) → TableRoom s.1 p s.2
  | .onLogits .. => True

end Calls

/-! ## The eviction -/

/-- The keys of other jobs, in the order of the iteration. -/
def otherKeys (jobId : Bytes) (l : List (Nat × PoiJobParams)) (ks : List Nat) : List Nat :=
  ks.filter fun k => l.any fun e => e.1 == k && e.2.jobId != jobId

section Evict

variable {jobId : Bytes} {l : List (Nat × PoiJobParams)} {ks : List Nat}

theorem length_eraseP_key {k : Nat} (h : l.any fun e => e.1 == k && e.2.jobId != jobId) :
    (l.eraseP (·.1 == k)).length = l.length - 1 := by
  obtain ⟨e, he, hkey⟩ := List.any_eq_true.1 h
  exact List.length_eraseP_of_mem he (Bool.and_eq_true_iff.1 hkey).1

/-- Without the key just erased the others are as before. -/
theorem otherKeys_erase (hk : (l.map (·.1)).Nodup) {k : Nat} (hks : k ∉ ks) :
    otherKeys jobId (l.eraseP (·.1 == k)) ks = otherKeys jobId l ks := by
  unfold otherKeys
  apply List.filter_congr
  intro k' hk'
  have hne : k' ≠ k := by
    rintro rfl
    exact hks hk'
  rw [eraseP_eq_filter hk, Bool.eq_iff_iff, List.any_eq_true, List.any_eq_true]
  constructor
  · rintro ⟨e, he, hkey⟩
    exact ⟨e, List.mem_of_mem_filter he, hkey⟩
  · rintro ⟨e, he, hkey⟩
    have hkey' : e.1 = k' := beq_iff_eq.1 (Bool.and_eq_true_iff.1 hkey).1
    refine ⟨e, List.mem_filter.2 ⟨he, ?_⟩, hkey⟩
    rw [hkey']
    exact bne_iff_ne.2 hne

/-- **The eviction takes the first entries of other jobs, as many as the table has over 8.** -/
theorem evict_eq_filter (hk : (l.map (·.1)).Nodup) (hks : ks.Nodup) :
    Miner.evict jobId ks l =
      l.filter fun e => decide (e.1 ∉ (otherKeys jobId l ks).take (l.length - 8)) := by
  induction ks generalizing l with
  | nil => simp [Miner.evict, otherKeys]
  | cons k ks ih =>
    obtain ⟨hfresh, hrest⟩ := List.nodup_cons.1 hks
    unfold Miner.evict
    split
    · rename_i hsmall
      rw [Nat.sub_eq_zero_of_le hsmall]
      simp
    · rename_i hbig
      split
      · rename_i hother
        have hk' : ((l.eraseP (·.1 == k)).map (·.1)).Nodup :=
          hk.sublist (List.eraseP_sublist.map _)
        have hcount : l.length - 8 = (l.length - 1 - 8) + 1 := by omega
        have hothers : otherKeys jobId l (k :: ks) = k :: otherKeys jobId l ks :=
          List.filter_cons_of_pos hother
        rw [ih hk' hrest, otherKeys_erase hk hfresh, length_eraseP_key hother,
          eraseP_eq_filter hk, List.filter_filter, hothers, hcount, List.take_succ_cons]
        apply List.filter_congr
        intro e _
        by_cases heq : e.1 = k <;> simp [heq]
      · rename_i hsame
        have hothers : otherKeys jobId l (k :: ks) = otherKeys jobId l ks :=
          List.filter_cons_of_neg hsame
        rw [ih hk hrest, hothers]

theorem mem_otherKeys {k : Nat} : k ∈ otherKeys jobId l ks ↔
    k ∈ ks ∧ ∃ e ∈ l, e.1 = k ∧ e.2.jobId ≠ jobId := by
  unfold otherKeys
  rw [List.mem_filter, List.any_eq_true]
  simp

/-- The entries of the job itself are spared. -/
theorem mem_evict_same (hk : (l.map (·.1)).Nodup) (hks : ks.Nodup) {e : Nat × PoiJobParams}
    (he : e ∈ l) (hjob : e.2.jobId = jobId) : e ∈ Miner.evict jobId ks l := by
  rw [evict_eq_filter hk hks, List.mem_filter]
  refine ⟨he, ?_⟩
  apply decide_eq_true
  intro htaken
  obtain ⟨-, e', he', hkey, hother⟩ := mem_otherKeys.1 (List.mem_of_mem_take htaken)
  obtain rfl := List.inj_on_of_nodup_map hk he' he hkey
  exact hother hjob

/-- Iterating over all keys, as many keys are of other jobs as entries. -/
theorem length_otherKeys (hk : (l.map (·.1)).Nodup) (hks : ks.Perm (l.map (·.1))) :
    (otherKeys jobId l ks).length + sameJob l jobId = l.length := by
  have hperm : (otherKeys jobId l ks).Perm ((l.filter fun e => e.2.jobId != jobId).map (·.1)) := by
    have hnodup : (otherKeys jobId l ks).Nodup := (hks.nodup_iff.2 hk).filter _
    refine (List.perm_ext_iff_of_nodup hnodup (hk.sublist (List.filter_sublist.map _))).2 ?_
    intro k
    rw [mem_otherKeys, hks.mem_iff]
    constructor
    · rintro ⟨-, e, he, rfl, hother⟩
      exact List.mem_map.2 ⟨e, List.mem_filter.2 ⟨he, bne_iff_ne.2 hother⟩, rfl⟩
    · intro hmem
      obtain ⟨e, he, rfl⟩ := List.mem_map.1 hmem
      obtain ⟨he', hother⟩ := List.mem_filter.1 he
      exact ⟨List.mem_map.2 ⟨e, he', rfl⟩, e, he', rfl, bne_iff_ne.1 hother⟩
  have hsplit := List.length_eq_length_filter_add (l := l) fun e => e.2.jobId == jobId
  rw [hperm.length_eq, List.length_map]
  unfold sameJob
  rw [hsplit, Nat.add_comm]
  rfl

/-- **A table that is evicted keeps 8 entries, or those of the job when they are more.** -/
theorem length_evict (hk : (l.map (·.1)).Nodup) (hks : ks.Perm (l.map (·.1)))
    (hbig : 8 ≤ l.length) : (Miner.evict jobId ks l).length = max 8 (sameJob l jobId) := by
  have hnodup : ks.Nodup := hks.nodup_iff.2 hk
  have htaken : ((l.filter fun e =>
      decide (e.1 ∈ (otherKeys jobId l ks).take (l.length - 8))).map (·.1)).Perm
      ((otherKeys jobId l ks).take (l.length - 8)) := by
    have htake : ((otherKeys jobId l ks).take (l.length - 8)).Nodup :=
      (hnodup.filter _).sublist (List.take_sublist _ _)
    refine (List.perm_ext_iff_of_nodup (hk.sublist (List.filter_sublist.map _)) htake).2 ?_
    intro k
    constructor
    · intro hmem
      obtain ⟨e, he, rfl⟩ := List.mem_map.1 hmem
      exact of_decide_eq_true (List.mem_filter.1 he).2
    · intro hmem
      obtain ⟨-, e, he, rfl, -⟩ := mem_otherKeys.1 (List.mem_of_mem_take hmem)
      exact List.mem_map.2 ⟨e, List.mem_filter.2 ⟨he, decide_eq_true hmem⟩, rfl⟩
  have hlen := htaken.length_eq
  rw [List.length_map, List.length_take] at hlen
  have hsplit := List.length_eq_length_filter_add (l := l) fun e =>
    decide (e.1 ∈ (otherKeys jobId l ks).take (l.length - 8))
  have hothers : (otherKeys jobId l ks).length + sameJob l jobId = l.length :=
    length_otherKeys hk hks
  rw [evict_eq_filter hk hnodup]
  simp only [decide_not]
  omega

end Evict

/-! ## The table after a call -/

/-- The table that `set_job` leaves when the map is iterated in the order `ks`. -/
def tableAfter (jobs : List (Nat × PoiJobParams)) (p : PoiJobParams) (ks : List Nat) :
    List (Nat × PoiJobParams) :=
  if 16 < (Miner.insertJob jobs p).length then
    Miner.evict p.jobId ks (Miner.insertJob jobs p)
  else Miner.insertJob jobs p

section Table

variable {jobs : List (Nat × PoiJobParams)} {p : PoiJobParams} {ks : List Nat}

theorem mem_insertJob_new : (p.requestId, p) ∈ Miner.insertJob jobs p := by
  unfold Miner.insertJob
  simp

theorem mem_insertJob_old (hk : (jobs.map (·.1)).Nodup) {q : PoiJobParams}
    (hq : (q.requestId, q) ∈ jobs) (hne : q.requestId ≠ p.requestId) :
    (q.requestId, q) ∈ Miner.insertJob jobs p := by
  unfold Miner.insertJob
  rw [eraseP_eq_filter hk]
  apply List.mem_append_left
  exact List.mem_filter.2 ⟨hq, bne_iff_ne.2 hne⟩

theorem nodup_tableAfter (hk : (jobs.map (·.1)).Nodup) :
    ((tableAfter jobs p ks).map (·.1)).Nodup := by
  have hnodup := nodup_insertJob hk p
  unfold tableAfter
  split
  · exact hnodup.sublist ((evict_sublist _ _ _).map _)
  · exact hnodup

/-- The new job is in the table, evicted or not. -/
theorem mem_tableAfter (hk : (jobs.map (·.1)).Nodup) (hks : ks.Nodup) :
    (p.requestId, p) ∈ tableAfter jobs p ks := by
  unfold tableAfter
  split
  · exact mem_evict_same (nodup_insertJob hk p) hks mem_insertJob_new rfl
  · exact mem_insertJob_new

/-- Iterated first, an entry of another job goes. -/
theorem notMem_evict_first {jobId : Bytes} {l : List (Nat × PoiJobParams)}
    (hk : (l.map (·.1)).Nodup) {e : Nat × PoiJobParams} (he : e ∈ l) (hother : e.2.jobId ≠ jobId)
    (hks : (e.1 :: ks).Nodup) (hbig : 8 < l.length) : e ∉ Miner.evict jobId (e.1 :: ks) l := by
  rw [evict_eq_filter hk hks, List.mem_filter]
  rintro ⟨-, hspared⟩
  have hany : l.any fun e' => e'.1 == e.1 && e'.2.jobId != jobId := by
    apply List.any_eq_true.2
    refine ⟨e, he, ?_⟩
    simpa using hother
  have hothers : otherKeys jobId l (e.1 :: ks) = e.1 :: otherKeys jobId l ks :=
    List.filter_cons_of_pos hany
  obtain ⟨n, hn⟩ : ∃ n, l.length - 8 = n + 1 := ⟨l.length - 9, by omega⟩
  rw [hothers, hn, List.take_succ_cons] at hspared
  exact of_decide_eq_true hspared List.mem_cons_self

end Table

/-! ## One call -/

section Step

variable (prove : Bytes → Nat → Bytes) {m m' : Miner} {p : PoiJobParams} {a : Attempt}
  {last : Option PoiJobParams}

/-- A call leaves the table alone, or it succeeds whatever the order and leaves `tableAfter`. -/
theorem call_table {ok : Bool} (h : a.call prove m p = some (m', ok)) :
    ok = false ∧ m'.jobByReq = m.jobByReq ∨
      ok = true ∧ ∀ order perm, ∃ m₁, Attempt.call prove { a with order, perm } m p =
        some (m₁, true) ∧ m₁.jobByReq =
          tableAfter m.jobByReq p (order ((Miner.insertJob m.jobByReq p).map (·.1))) := by
  by_cases hbad : p.valid = false ∨ p.headerPrefix.length ≠ 152
  · -- refused
    have hcall : a.call prove m p = some ({ m with lastCtx := fun _ => none }, false) :=
      if_pos hbad
    obtain ⟨rfl, rfl⟩ := Prod.mk.inj (Option.some.inj (hcall.symm.trans h))
    exact .inl ⟨rfl, rfl⟩
  · have hvalid : p.valid = true ∧ p.headerPrefix.length = 152 :=
      ⟨eq_true_of_ne_false fun h => hbad (.inl h), Decidable.not_not.1 fun h => hbad (.inr h)⟩
    by_cases hhex : a.parentHex = true
    · obtain ⟨v, hv⟩ : ∃ v, Miner.updateVdf { m with lastCtx := fun _ => none } p
          (a.proof prove p) = v := ⟨_, rfl⟩
      have hjobs : v.1.jobByReq = m.jobByReq := by
        obtain ⟨hex, tick, parent, proved, he⟩ :=
          updateVdf_eq { m with lastCtx := fun _ => none } p (a.proof prove p)
        rw [← hv, he]
      have hcall := call_eq prove hvalid hhex hv hjobs
      split at hcall
      · obtain ⟨rfl, rfl⟩ := Prod.mk.inj (Option.some.inj (hcall.symm.trans h))
        exact .inl ⟨rfl, hjobs⟩
      · rename_i hproved
        split at hcall
        · obtain ⟨rfl, rfl⟩ := Prod.mk.inj (Option.some.inj (hcall.symm.trans h))
          exact .inl ⟨rfl, hjobs⟩
        · rename_i haccepted
          refine .inr ⟨?_, fun order perm => ?_⟩
          · exact (Prod.mk.inj (Option.some.inj (h.symm.trans hcall))).2
          · have hcall' := @call_eq prove m p { a with order, perm } v hvalid hhex hv hjobs
            rw [if_neg hproved, if_neg haccepted] at hcall'
            refine ⟨_, hcall', ?_⟩
            have htable : ∀ scan, (v.1.install p scan).jobByReq =
                tableAfter v.1.jobByReq p scan := fun _ => rfl
            rw [htable, hjobs]
            rfl
    · -- the exception
      have hcall : a.call prove m p = none := by
        unfold Attempt.call Miner.setJob
        rw [if_neg hbad]
        exact if_pos (eq_false_of_ne_true hhex)
      rw [hcall] at h
      cases h

/-- Request ids are unique in the table and the job of the last call is in it. -/
structure LastKept (m : Miner) (last : Option PoiJobParams) : Prop where
  keys : (m.jobByReq.map (·.1)).Nodup
  last : ∀ q, last = some q → (q.requestId, q) ∈ m.jobByReq

/-- A call keeps its own job. -/
theorem LastKept.setJob (hl : LastKept m last) {ok : Bool}
    (h : a.call prove m p = some (m', ok)) : LastKept m' (if ok then some p else last) := by
  rcases call_table prove h with ⟨rfl, htable⟩ | ⟨rfl, hafter⟩
  · constructor
    · rw [htable]
      exact hl.keys
    · rw [htable]
      exact hl.last
  · obtain ⟨m₁, hm₁, htable⟩ := hafter a.order a.perm
    obtain ⟨rfl, -⟩ := Prod.mk.inj (Option.some.inj (hm₁.symm.trans h))
    constructor
    · rw [htable]
      exact nodup_tableAfter hl.keys
    · rintro q ⟨⟩
      rw [htable]
      apply mem_tableAfter hl.keys
      exact (a.perm _).nodup_iff.2 (nodup_insertJob hl.keys p)

/-- With room the table is kept in every order. -/
theorem TableRoom.kept (hl : LastKept m last) (hroom : TableRoom m p last) {ks : List Nat}
    (hks : ks.Perm ((Miner.insertJob m.jobByReq p).map (·.1)))
    (htable : m'.jobByReq = tableAfter m.jobByReq p ks) : TableKept m' p last := by
  have hk := nodup_insertJob hl.keys p
  have hnodup : ks.Nodup := hks.nodup_iff.2 hk
  refine ⟨?_, htable ▸ mem_tableAfter hl.keys hnodup, fun q hq hne => ?_⟩
  · rw [htable]
    unfold tableAfter
    split
    · rename_i hbig
      rw [length_evict hk hks (by omega)]
      rcases hroom with hsmall | ⟨hsame, -⟩ <;> omega
    · omega
  · have hold := mem_insertJob_old hl.keys (hl.last q hq) hne
    rw [htable]
    unfold tableAfter
    split
    · rename_i hbig
      rcases hroom with hsmall | ⟨-, hspared⟩
      · omega
      · rcases hspared q hq with hreq | hjob
        · exact absurd hreq hne
        · exact mem_evict_same hk hnodup hold hjob
    · exact hold

/-- Kept in every order, it has room: the order that begins with the previous job decides. -/
theorem TableRoom.of_kept (hl : LastKept m last)
    (hkept : ∀ order : List Nat → List Nat, (∀ l, (order l).Perm l) → ∃ m' : Miner,
      m'.jobByReq = tableAfter m.jobByReq p (order ((Miner.insertJob m.jobByReq p).map (·.1))) ∧
        TableKept m' p last) : TableRoom m p last := by
  have hk := nodup_insertJob hl.keys p
  by_cases hsmall : (Miner.insertJob m.jobByReq p).length ≤ 16
  · exact .inl hsmall
  · have hbig : 16 < (Miner.insertJob m.jobByReq p).length := Nat.lt_of_not_le hsmall
    refine .inr ⟨?_, fun q hq => ?_⟩
    · obtain ⟨m', htable, hsize, -, -⟩ := hkept id List.Perm.refl
      unfold tableAfter at htable
      rw [if_pos hbig, id_eq] at htable
      rw [htable, length_evict hk (List.Perm.refl _) (by omega)] at hsize
      omega
    · by_cases hreq : q.requestId = p.requestId
      · exact .inl hreq
      · by_cases hjob : q.jobId = p.jobId
        · exact .inr hjob
        · have hold := mem_insertJob_old hl.keys (hl.last q hq) hreq
          have hfirst : ∀ l : List Nat, (if q.requestId ∈ l then
              q.requestId :: l.erase q.requestId else l).Perm l := by
            intro l
            split
            · rename_i hmem
              exact (List.perm_cons_erase hmem).symm
            · exact List.Perm.refl l
          obtain ⟨m', htable, -, -, hprevious⟩ := hkept _ hfirst
          have hmem : q.requestId ∈ (Miner.insertJob m.jobByReq p).map (·.1) :=
            List.mem_map.2 ⟨_, hold, rfl⟩
          have hnodup := (hfirst _).nodup_iff.2 hk
          have hthere := hprevious q hq hreq
          unfold tableAfter at htable
          rw [if_pos hbig, if_pos hmem] at htable
          rw [htable] at hthere
          rw [if_pos hmem] at hnodup
          exact absurd hthere (notMem_evict_first hk hold hjob hnodup (by omega))

/-- **A call keeps the table, in every order, exactly when there is room.** -/
theorem table_kept_iff (hl : LastKept m last) (e : VdfEvent) :
    KeepsTable prove (m, last) e ↔ FindsRoom prove (m, last) e := by
  cases e with
  | onLogits => exact Iff.rfl
  | setJob p a =>
    unfold KeepsTable FindsRoom
    constructor
    · intro hkept m' h
      rcases call_table prove h with ⟨hfalse, -⟩ | ⟨-, hafter⟩
      · exact absurd hfalse (by decide)
      · apply TableRoom.of_kept hl
        intro order perm
        obtain ⟨m₁, hm₁, htable⟩ := hafter order perm
        exact ⟨m₁, htable, hkept order perm m₁ hm₁⟩
    · intro hroom order perm m' h
      rcases call_table prove h with ⟨hfalse, -⟩ | ⟨-, hafter⟩
      · exact absurd hfalse (by decide)
      · obtain ⟨m₁, hm₁, -⟩ := hafter a.order a.perm
        obtain ⟨m₂, hm₂, htable⟩ := hafter order perm
        obtain ⟨rfl, -⟩ := Prod.mk.inj (Option.some.inj (hm₂.symm.trans h))
        exact (hroom m₁ hm₁).kept hl (perm _) htable

end Step

/-! ## Runs -/

/-- `on_logits` reads the table only. -/
theorem onLogits_jobByReq (m : Miner) (seq nVocab : Nat) (context : List Int) (o : StepOutcome) :
    (m.onLogits seq nVocab context o).1.jobByReq = m.jobByReq :=
  onLogits_frame Miner.jobByReq (fun _ _ _ _ _ _ _ _ _ _ => rfl) m seq nVocab context o

/-- **In every run each `set_job` keeps the table exactly when each finds room.** -/
theorem job_table_kept_iff (prove : Bytes → Nat → Bytes) (nStreams : Nat) (es : List VdfEvent) :
    (vdfMachine prove nStreams).Guarded (KeepsTable prove) (vdfMachine prove nStreams).init es ↔
      (vdfMachine prove nStreams).Guarded (FindsRoom prove) (vdfMachine prove nStreams).init
        es := by
  refine (vdfMachine prove nStreams).guarded_congr (I := fun s => LastKept s.1 s.2) ?_ ?_ ?_
  · intro s e t hl ht
    cases e with
    | setJob p a =>
      obtain ⟨⟨m', ok⟩, hr, rfl⟩ := Option.map_eq_some_iff.1 ht
      exact hl.setJob prove hr
    | onLogits seq nVocab context o =>
      cases ht
      have htable := onLogits_jobByReq s.1 seq nVocab context o
      constructor
      · rw [htable]
        exact hl.keys
      · rw [htable]
        exact hl.last
  · intro s e hl
    exact table_kept_iff prove hl e
  · exact ⟨List.nodup_nil, nofun⟩

/-- A job on a parent of zeros, with a pool-issued VDF. -/
def numberedJob (requestId jobId : Nat) : PoiJobParams :=
  { headerPrefix := List.replicate 152 48, poolVdf := [97, 97], valid := true, requestId
    jobId := [UInt8.ofNat jobId] }

/-- A map that iterates over the last entry first. -/
def newestFirst : Attempt := { order := List.reverse, perm := List.reverse_perm }

/-- One `set_job` for each request id below `n`, job `f i` under request id `i`. -/
def numberedCalls (f : Nat → Nat) (n : Nat) : List VdfEvent :=
  (List.range n).map fun i => .setJob (numberedJob i (f i)) newestFirst

/-- **Seventeen jobs: the previous one is evicted; seventeen request ids of one job: all stay.** -/
theorem job_table_broken :
    ¬ (vdfMachine (fun _ _ => []) 1).Guarded (KeepsTable fun _ _ => [])
        (vdfMachine (fun _ _ => []) 1).init
        (numberedCalls id 16 ++ [.setJob (numberedJob 16 16) newestFirst]) ∧
      ¬ (vdfMachine (fun _ _ => []) 1).Guarded (KeepsTable fun _ _ => [])
        (vdfMachine (fun _ _ => []) 1).init
        (numberedCalls (fun _ => 0) 16 ++ [.setJob (numberedJob 16 0) newestFirst]) := by
  constructor
  · intro hg
    have hrun : ((vdfMachine (fun _ _ => []) 1).exec (vdfMachine (fun _ _ => []) 1).init
        (numberedCalls id 16)).bind (fun s =>
          (newestFirst.call (fun _ _ => []) s.1 (numberedJob 16 16)).map fun r =>
            (s.2.map (·.requestId), r.1.jobByReq.map (·.1), r.2)) =
        some (some 15, [0, 1, 2, 3, 4, 5, 6, 16], true) := by decide +kernel
    obtain ⟨s, hs, hcall⟩ := Option.bind_eq_some_iff.1 hrun
    obtain ⟨⟨m', ok⟩, hr, heq⟩ := Option.map_eq_some_iff.1 hcall
    simp only [Prod.mk.injEq] at heq
    obtain ⟨hlast, hkeys, rfl⟩ := heq
    obtain ⟨q, hq, hid⟩ := Option.map_eq_some_iff.1 hlast
    have hkept := Runs.Machine.Guarded.last _ hg hs List.reverse List.reverse_perm m' hr
    have hmem : q.requestId ∈ m'.jobByReq.map (·.1) :=
      List.mem_map.2 ⟨_, hkept.previous q hq (by rw [hid]; decide), rfl⟩
    rw [hkeys, hid] at hmem
    exact absurd hmem (by decide)
  · intro hg
    have hrun : ((vdfMachine (fun _ _ => []) 1).exec (vdfMachine (fun _ _ => []) 1).init
        (numberedCalls (fun _ => 0) 16)).bind (fun s =>
          (newestFirst.call (fun _ _ => []) s.1 (numberedJob 16 0)).map fun r =>
            (r.1.jobByReq.length, r.2)) = some (17, true) := by decide +kernel
    obtain ⟨s, hs, hcall⟩ := Option.bind_eq_some_iff.1 hrun
    obtain ⟨⟨m', ok⟩, hr, heq⟩ := Option.map_eq_some_iff.1 hcall
    obtain ⟨hlen, rfl⟩ := Prod.mk.inj heq
    have hkept := Runs.Machine.Guarded.last _ hg hs List.reverse List.reverse_perm m' hr
    have hsize : m'.jobByReq.length ≤ 16 := hkept.size
    rw [hlen] at hsize
    exact absurd hsize (by decide)

end Poi
