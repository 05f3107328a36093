import SuprMeow.Poi.Windows

/-!
# Sampler pools

`SamplerPool` splits the streams of a batch over groups with a miner each; `set_job` goes to one
group after the other and stops at the first that refuses.

* `SamplerPool.setJob_accepted` — a fan-out that succeeds has accepted the job in every group;
* `SamplerPool.takeShares_all` — taking until nothing is left gives every pending share.
-/

set_option autoImplicit false

namespace Poi

/-! ## The pool -/

/-- The groups of a pool, in order. -/
abbrev SamplerPool := List Miner

namespace SamplerPool

/-- The contiguous, balanced split of `left` streams across groups. -/
def split : Nat → Nat → List Nat
  | _, 0 => []
  | left, groups + 1 => left / (groups + 1) :: split (left - left / (groups + 1)) groups

def init (nStreams groups : Nat) : SamplerPool :=
  (split nStreams (max 1 (min groups nStreams))).map fun cnt => { nStreams := max 1 cnt }

/-- `SamplerPool::set_job`: the pool, how many groups accepted, and the return value.  `none`: an
exception, or `os` does not give every group an outcome. -/
def setJob (p : PoiJobParams) : SamplerPool → List JobOutcome → Option (SamplerPool × Nat × Bool)
  | [], _ => some ([], 0, true)
  | _ :: _, [] => none
  | m :: ms, o :: os =>
    match m.setJob p o with
    | none => none
    | some (m', false) => some (m' :: ms, 0, false)
    | some (m', true) => (setJob p ms os).map fun r => (m' :: r.1, r.2.1 + 1, r.2.2)

def ready : SamplerPool → Bool
  | [] => false
  | m :: _ => m.ready

def jobId : SamplerPool → Stratum.Bytes
  | [] => []
  | m :: _ => m.jobId

/-- `SamplerPool::take_share`: the first group that has one; which group is a record. -/
def takeShare : SamplerPool → Option ((Nat × PoiShare) × SamplerPool)
  | [] => none
  | m :: ms =>
    match m.takeShare with
    | some (s, m') => some ((0, s), m' :: ms)
    | none => (takeShare ms).map fun r => ((r.1.1 + 1, r.1.2), m :: r.2)

def pendingCount (pool : SamplerPool) : Nat := (pool.map (·.pendingQ.length)).sum

/-- `while (auto sh = pool.take_share())`; the fuel is never short. -/
def takeAll : Nat → SamplerPool → List (Nat × PoiShare) × SamplerPool
  | 0, pool => ([], pool)
  | fuel + 1, pool =>
    match takeShare pool with
    | none => ([], pool)
    | some (s, pool') =>
      let r := takeAll fuel pool'
      (s :: r.1, r.2)

def takeShares (pool : SamplerPool) : List (Nat × PoiShare) × SamplerPool :=
  takeAll (pendingCount pool) pool

/-! ## Taking shares -/

/-- A share comes from one group, which gives up its first. -/
theorem takeShare_some {pool pool' : SamplerPool} {g : Nat} {s : PoiShare}
    (h : takeShare pool = some ((g, s), pool')) :
    ∃ m rest, pool[g]? = some m ∧ m.pendingQ = s :: rest ∧
      pool' = pool.set g (m.give [s] rest) := by
  induction pool generalizing g pool' with
  | nil => cases h
  | cons m ms ih =>
    unfold takeShare at h
    split at h
    · rename_i s' m' hm
      cases h
      unfold Miner.takeShare at hm
      split at hm
      · cases hm
      · rename_i s' rest hq
        cases hm
        exact ⟨m, rest, rfl, hq, rfl⟩
    · obtain ⟨⟨⟨g', s'⟩, ms'⟩, hms, he⟩ := Option.map_eq_some_iff.1 h
      cases he
      obtain ⟨m', rest, hg, hq, hset⟩ := ih hms
      exact ⟨m', rest, hg, hq, congrArg (m :: ·) hset⟩

/-- Nothing to take means nothing pending. -/
theorem takeShare_none {pool : SamplerPool} (h : takeShare pool = none) :
    ∀ m ∈ pool, m.pendingQ = [] := by
  induction pool with
  | nil => nofun
  | cons m ms ih =>
    unfold takeShare at h
    split at h
    · cases h
    · rename_i hm
      rw [Option.map_eq_none_iff] at h
      intro m' hm'
      rcases List.mem_cons.1 hm' with rfl | hm'
      · unfold Miner.takeShare at hm
        split at hm
        · rename_i hq
          exact hq
        · cases hm
      · exact ih h m' hm'

theorem takeShare_count {pool pool' : SamplerPool} {s : Nat × PoiShare}
    (h : takeShare pool = some (s, pool')) : pendingCount pool = pendingCount pool' + 1 := by
  obtain ⟨g, s⟩ := s
  induction pool generalizing g pool' with
  | nil => cases h
  | cons m ms ih =>
    unfold takeShare at h
    split at h
    · rename_i s' m' hm
      cases h
      unfold Miner.takeShare at hm
      split at hm
      · cases hm
      · rename_i s' rest hq
        cases hm
        simp only [pendingCount, List.map_cons, List.sum_cons, hq, List.length_cons,
          Miner.give_pendingQ]
        omega
    · obtain ⟨⟨⟨g', s'⟩, ms'⟩, hms, he⟩ := Option.map_eq_some_iff.1 h
      cases he
      have := ih g' hms
      simp only [pendingCount, List.map_cons, List.sum_cons] at this ⊢
      omega

/-- **The loop takes everything.** -/
theorem takeShares_pending (pool : SamplerPool) : ∀ m ∈ (takeShares pool).2, m.pendingQ = [] := by
  suffices h : ∀ fuel pool, pendingCount pool ≤ fuel →
      ∀ m ∈ (takeAll fuel pool).2, m.pendingQ = [] from h _ pool (Nat.le_refl _)
  intro fuel
  induction fuel with
  | zero =>
    intro pool hle
    cases hs : takeShare pool with
    | none => exact takeShare_none hs
    | some r =>
      have := takeShare_count hs
      omega
  | succ fuel ih =>
    intro pool hle
    unfold takeAll
    split
    · rename_i hn
      exact takeShare_none hn
    · rename_i s pool' hs
      have := takeShare_count hs
      exact ih pool' (by omega)

/-- The shares taken from group `g`. -/
def ofGroup (g : Nat) (l : List (Nat × PoiShare)) : List PoiShare :=
  (l.filter (·.1 == g)).map (·.2)

theorem ofGroup_cons (k g : Nat) (s : PoiShare) (l : List (Nat × PoiShare)) :
    ofGroup g ((k, s) :: l) = if k = g then s :: ofGroup g l else ofGroup g l := by
  unfold ofGroup
  by_cases hk : k = g <;> simp [hk]

/-- **What the loop does to one group.** -/
theorem takeShares_group {pool : SamplerPool} {g : Nat} {m' : Miner}
    (h : (takeShares pool).2[g]? = some m') :
    ∃ m pending, pool[g]? = some m ∧ m.pendingQ = ofGroup g (takeShares pool).1 ++ pending ∧
      m' = m.give (ofGroup g (takeShares pool).1) pending := by
  unfold takeShares at h ⊢
  generalize pendingCount pool = fuel at h ⊢
  have hnone : ∀ {pool : SamplerPool}, pool[g]? = some m' →
      ∃ m pending, pool[g]? = some m ∧ m.pendingQ = ofGroup g [] ++ pending ∧
        m' = m.give (ofGroup g []) pending :=
    fun h => ⟨m', m'.pendingQ, h, rfl, by simp [ofGroup, Miner.give]⟩
  induction fuel generalizing pool with
  | zero => exact hnone h
  | succ fuel ih =>
    unfold takeAll at h ⊢
    cases hs : takeShare pool with
    | none =>
      rw [hs] at h
      exact hnone h
    | some r =>
      obtain ⟨⟨k, s⟩, pool'⟩ := r
      rw [hs] at h
      obtain ⟨m, pending, hm, hq, rfl⟩ := ih h
      obtain ⟨n, rest, hn, hqn, rfl⟩ := takeShare_some hs
      by_cases hk : k = g
      · subst hk
        have hlt : k < pool.length := (List.getElem?_eq_some_iff.1 hn).1
        rw [List.getElem?_set_self hlt] at hm
        cases hm
        rw [Miner.give_pendingQ] at hq
        dsimp only
        rw [ofGroup_cons, if_pos rfl]
        refine ⟨n, pending, hn, ?_, by simp [Miner.give]⟩
        rw [hqn, List.cons_append, ← hq]
      · rw [List.getElem?_set_ne hk] at hm
        dsimp only
        rw [ofGroup_cons, if_neg hk]
        exact ⟨m, pending, hm, hq, rfl⟩

/-- **The loop takes every pending share of every group.** -/
theorem takeShares_all {pool : SamplerPool} {g : Nat} {m' : Miner}
    (h : (takeShares pool).2[g]? = some m') :
    ∃ m, pool[g]? = some m ∧ m.pendingQ = ofGroup g (takeShares pool).1 ∧
      m' = m.give m.pendingQ [] := by
  have hnone := takeShares_pending pool m' (List.mem_of_getElem? h)
  obtain ⟨m, pending, hm, hq, rfl⟩ := takeShares_group h
  rw [Miner.give_pendingQ] at hnone
  rw [hnone, List.append_nil] at hq
  exact ⟨m, hm, hq, by rw [hq, hnone]⟩

theorem takeShares_length (pool : SamplerPool) : (takeShares pool).2.length = pool.length := by
  unfold takeShares
  generalize pendingCount pool = fuel
  induction fuel generalizing pool with
  | zero => rfl
  | succ fuel ih =>
    unfold takeAll
    cases hs : takeShare pool with
    | none => rfl
    | some r =>
      obtain ⟨⟨g, s⟩, pool'⟩ := r
      obtain ⟨m, rest, -, -, rfl⟩ := takeShare_some hs
      exact (ih _).trans List.length_set

/-! ## The fan-out -/

/-- What holds of every miner that accepts a job holds of every group of a pool that does. -/
theorem setJob_accepted {p : PoiJobParams} {Q : Miner → Prop} {pool pool' : SamplerPool}
    {os : List JobOutcome} {k : Nat}
    (hQ : ∀ m ∈ pool, ∀ o m', m.setJob p o = some (m', true) → Q m')
    (h : setJob p pool os = some (pool', k, true)) : ∀ m ∈ pool', Q m := by
  induction pool generalizing pool' os k with
  | nil => cases h; nofun
  | cons m ms ih =>
    cases os with
    | nil => cases h
    | cons o os =>
      unfold setJob at h
      split at h
      · cases h
      · cases h
      · rename_i m' hm
        obtain ⟨⟨ms', k', ok⟩, hms, he⟩ := Option.map_eq_some_iff.1 h
        cases he
        intro n hn
        rcases List.mem_cons.1 hn with rfl | hn
        · exact hQ m List.mem_cons_self o _ hm
        · exact ih (fun n hn => hQ n (List.mem_cons_of_mem m hn)) hms n hn

/-- A fan-out that the first group refuses changes that group only, and it refused. -/
theorem setJob_refused {p : PoiJobParams} {Q : Miner → Prop} {pool pool' : SamplerPool}
    {os : List JobOutcome}
    (hQ : ∀ m o m', Q m → m.setJob p o = some (m', false) → Q m')
    (h : setJob p pool os = some (pool', 0, false)) (hp : ∀ m ∈ pool, Q m) :
    ∀ m ∈ pool', Q m := by
  cases pool with
  | nil => cases h
  | cons m ms =>
    cases os with
    | nil => cases h
    | cons o os =>
      unfold setJob at h
      split at h
      · cases h
      · rename_i m' hm
        cases h
        intro n hn
        rcases List.mem_cons.1 hn with rfl | hn
        · exact hQ m o _ (hp m List.mem_cons_self) hm
        · exact hp n (List.mem_cons_of_mem m hn)
      · obtain ⟨⟨ms', k', ok⟩, hms, he⟩ := Option.map_eq_some_iff.1 h
        cases he

/-- A property that every `set_job` keeps is kept by every fan-out, group by group. -/
theorem setJob_group {p : PoiJobParams} {R : Miner → Miner → Prop} {pool pool' : SamplerPool}
    {os : List JobOutcome} {k : Nat} {ok : Bool} (hrefl : ∀ m, R m m)
    (hR : ∀ m o m' ok, m.setJob p o = some (m', ok) → R m m')
    (h : setJob p pool os = some (pool', k, ok)) {g : Nat} {m' : Miner}
    (hg : pool'[g]? = some m') : ∃ m, pool[g]? = some m ∧ R m m' := by
  induction pool generalizing pool' os k g with
  | nil => cases h; cases hg
  | cons m ms ih =>
    cases os with
    | nil => cases h
    | cons o os =>
      unfold setJob at h
      split at h
      · cases h
      · rename_i n hn
        cases h
        cases g with
        | zero => cases hg; exact ⟨m, rfl, hR m o _ _ hn⟩
        | succ g => exact ⟨m', hg, hrefl m'⟩
      · rename_i n hn
        obtain ⟨⟨ms', k', ok'⟩, hms, he⟩ := Option.map_eq_some_iff.1 h
        cases he
        cases g with
        | zero => cases hg; exact ⟨m, rfl, hR m o _ _ hn⟩
        | succ g => exact ih hms hg

theorem setJob_length {p : PoiJobParams} {pool pool' : SamplerPool} {os : List JobOutcome} {k : Nat}
    {ok : Bool} (h : setJob p pool os = some (pool', k, ok)) : pool'.length = pool.length := by
  induction pool generalizing pool' os k with
  | nil => cases h; rfl
  | cons m ms ih =>
    cases os with
    | nil => cases h
    | cons o os =>
      unfold setJob at h
      split at h
      · cases h
      · cases h
        rfl
      · obtain ⟨⟨ms', k', ok'⟩, hms, he⟩ := Option.map_eq_some_iff.1 h
        cases he
        exact congrArg (· + 1) (ih hms)

/-- Pools with as many groups, related group by group. -/
theorem rel_of_length {R : Miner → Miner → Prop} {pool pool' : SamplerPool}
    (hlen : pool'.length = pool.length) {g : Nat}
    (h : ∀ m', pool'[g]? = some m' → ∃ m, pool[g]? = some m ∧ R m m') :
    Option.Rel R pool[g]? pool'[g]? := by
  cases hg : pool'[g]? with
  | none =>
    have hle := List.getElem?_eq_none_iff.1 hg
    rw [List.getElem?_eq_none (by omega)]
    exact .none
  | some m' =>
    obtain ⟨m, hm, hr⟩ := h m' hg
    rw [hm]
    exact .some hr

end SamplerPool

end Poi
