import SuprMeow.Poi.Pool

/-!
# One sampling step over all groups

`sample_step` publishes its arguments under a new generation number and waits until each group's
thread has reported it; a thread that finds a number other than the last it has seen samples its
slice of the streams.  A critical section under `mtx` is one event; a notification, a wake-up, the
sort of a slice and each call of `on_logits` are events of their own.  The arguments are pointers
into the caller's frame, so a thread in its slice reads and writes what the caller owns.

* `barrier_safe` — each group runs its slice once for each generation, between the publication and
  the return, and `sample_step` succeeds exactly when every stream got a token.
-/

set_option autoImplicit false

namespace Poi

variable {ι : Type}

/-! ## The machine -/

/-- What `init` was given, and whether arguments come with a device pointer. -/
structure BarrierConfig (ι : Type) where
  nStreams : Nat
  groups : Nat
  dev : ι → Bool

namespace BarrierConfig

variable (cfg : BarrierConfig ι)

/-- The number of groups. -/
def count : Nat := max 1 (min cfg.groups cfg.nStreams)

/-- `range[g].first`. -/
def lo (g : Nat) : Nat := ((SamplerPool.split cfg.nStreams cfg.count).take g).sum

/-- `range[g].second`. -/
def hi (g : Nat) : Nat := cfg.lo g + (SamplerPool.split cfg.nStreams cfg.count).getD g 0

end BarrierConfig

/-- Where the mining thread is.  `idle` carries what the last `sample_step` returned. -/
inductive MainPc where
  | idle (returned : Option Bool)
  /-- Before `notify_all`. -/
  | published
  /-- Before a critical section of `cv_done.wait`, and asleep in it. -/
  | waiting
  | asleep
  deriving DecidableEq

def MainPc.inCall : MainPc → Bool
  | .idle _ => false
  | _ => true

/-- Where a group's thread is.  From the snapshot to the report it carries the arguments it took
and, as a record, the call they belong to. -/
inductive GroupPc (ι : Type) where
  /-- Before a critical section of `cv_go.wait`, and asleep in it. -/
  | wait
  | asleep
  | sort (call : Nat) (args : ι)
  /-- Before stream `s`. -/
  | slice (call : Nat) (args : ι) (s : Nat)
  | failed (call : Nat) (args : ι)
  /-- Before `notify_one`. -/
  | notify

/-- What a thread reads from. -/
def GroupPc.snapshot : GroupPc ι → Option (Nat × ι)
  | .sort call args | .slice call args _ | .failed call args => some (call, args)
  | _ => none

/-- `outTokens` is the vector of the current or the last call, without what the caller left there;
`call`, `execs` and `computed` are records. -/
structure Barrier (ι : Type) where
  args : ι
  outTokens : Nat → Option Int := fun _ => none
  stepOk : Bool := true
  gen : Nat := 0
  done : Nat → Nat := fun _ => 0
  main : MainPc := .idle none
  group : Nat → GroupPc ι := fun _ => .wait
  seen : Nat → Nat := fun _ => 0
  /-- The number of publications. -/
  call : Nat := 0
  /-- Slices begun: the call and the group. -/
  execs : List (Nat × Nat) := []
  /-- Results of `on_logits` in this call: the group, the stream and the token. -/
  computed : List (Nat × Nat × Int) := []

inductive BarrierEvent (ι : Type) where
  /-- `sample_step` returns before it publishes. -/
  | refuse
  | publish (args : ι)
  | notifyAll
  /-- A critical section of `cv_done.wait`. -/
  | check
  /-- A spurious wake-up of the mining thread. -/
  | wakeMain
  /-- A group's critical section of `cv_go.wait`. -/
  | lock (g : Nat)
  | wake (g : Nat)
  | sort (g : Nat) (ok : Bool)
  | token (g : Nat) (tok : Int)
  | report (g : Nat)
  | notifyOne (g : Nat)

namespace Barrier

def setGroup (s : Barrier ι) (g : Nat) (pc : GroupPc ι) : Barrier ι :=
  { s with group := Function.update s.group g pc }

/-- The arguments go out under a new number. -/
def publish (s : Barrier ι) (args : ι) : Barrier ι :=
  { s with
    args
    outTokens := fun _ => none
    stepOk := true
    gen := (s.gen + 1) % 2 ^ 64
    main := .published
    call := s.call + 1
    computed := [] }

def refuse (s : Barrier ι) : Barrier ι :=
  { s with main := .idle (some false), outTokens := fun _ => none, computed := [] }

/-- `notify_all` on `cv_go`. -/
def notifyAll (s : Barrier ι) : Barrier ι :=
  { s with
    main := .waiting
    group := fun g => match s.group g with | .asleep => .wait | pc => pc }

/-- The predicate does not hold, or the arguments are taken. -/
def lock (s : Barrier ι) (g : Nat) : Barrier ι :=
  if s.gen = s.seen g then s.setGroup g .asleep
  else
    { s.setGroup g (.sort s.call s.args) with
      seen := Function.update s.seen g s.gen
      execs := s.execs ++ [(s.call, g)] }

/-- `on_logits` returned `tok` for stream `x`. -/
def token (s : Barrier ι) (g call : Nat) (args : ι) (x : Nat) (tok : Int) : Barrier ι :=
  if tok < 0 then
    { s.setGroup g (.failed call args) with computed := s.computed ++ [(g, x, tok)] }
  else
    { s.setGroup g (.slice call args (x + 1)) with
      computed := s.computed ++ [(g, x, tok)]
      outTokens := Function.update s.outTokens x (some tok) }

/-- The critical section that reports a slice. -/
def report (s : Barrier ι) (g : Nat) (ok : Bool) : Barrier ι :=
  { s.setGroup g .notify with
    stepOk := s.stepOk && ok
    done := Function.update s.done g (s.seen g) }

def step (cfg : BarrierConfig ι) (s : Barrier ι) : BarrierEvent ι → Option (Barrier ι)
  | .refuse => if s.main.inCall = false then some s.refuse else none
  | .publish args => if s.main.inCall = false then some (s.publish args) else none
  | .notifyAll => if s.main = .published then some s.notifyAll else none
  | .check =>
    if s.main = .waiting then
      some { s with
        main := if ∀ g < cfg.count, s.done g = s.gen then .idle (some s.stepOk) else .asleep }
    else none
  | .wakeMain => if s.main = .asleep then some { s with main := .waiting } else none
  | .lock g =>
    match s.group g with
    | .wait => if g < cfg.count then some (s.lock g) else none
    | _ => none
  | .wake g =>
    match s.group g with
    | .asleep => some (s.setGroup g .wait)
    | _ => none
  | .sort g ok =>
    match s.group g with
    | .sort call args =>
      -- Without the sorted slice there is nothing to sample from in device mode.
      some (s.setGroup g
        (if cfg.dev args = true ∧ ok = false then .failed call args
          else .slice call args (cfg.lo g)))
    | _ => none
  | .token g tok =>
    match s.group g with
    | .slice call args x => if x < cfg.hi g then some (s.token g call args x tok) else none
    | _ => none
  | .report g =>
    match s.group g with
    | .slice _ _ x => if x < cfg.hi g then none else some (s.report g true)
    | .failed _ _ => some (s.report g false)
    | _ => none
  | .notifyOne g =>
    match s.group g with
    | .notify =>
      some { s.setGroup g .wait with main := if s.main = .asleep then .waiting else s.main }
    | _ => none

end Barrier

/-- A pool of threads, started. -/
def barrier (cfg : BarrierConfig ι) (null : ι) : Runs.Machine (Barrier ι) (BarrierEvent ι) where
  init := { args := null }
  step := Barrier.step cfg

/-! ## Specification -/

/-- Stream `x` is in the slice of group `g`. -/
def BarrierConfig.InSlice (cfg : BarrierConfig ι) (g x : Nat) : Prop := cfg.lo g ≤ x ∧ x < cfg.hi g

/-- **The barrier.** -/
structure BarrierSafe (cfg : BarrierConfig ι) (s : Barrier ι) : Prop where
  /-- No group runs its slice twice for a generation, and none leaves one out. -/
  once : s.execs.Nodup
  complete : ∀ c, 1 ≤ c → c ≤ s.call → (c = s.call → s.main.inCall = false) →
    ∀ g < cfg.count, (c, g) ∈ s.execs
  /-- Between calls every group has reported the last generation. -/
  reported : s.main.inCall = false → ∀ g < cfg.count, s.done g = s.gen
  /-- Who reads the arguments or writes the tokens does so in the call that published them. -/
  live : ∀ g < cfg.count, ∀ call args, (s.group g).snapshot = some (call, args) →
    s.main.inCall = true ∧ call = s.call ∧ args = s.args
  /-- No stream is sampled twice in a call, and what is in `out_tokens` its own group computed. -/
  sampled : (s.computed.map (·.2.1)).Nodup
  tokens : ∀ x tok, s.outTokens x = some tok →
    0 ≤ tok ∧ ∃ g < cfg.count, cfg.InSlice g x ∧ (g, x, tok) ∈ s.computed
  /-- `sample_step` returns true if and only if every stream has a token. -/
  result : ∀ ok, s.main = .idle (some ok) →
    (ok = true ↔ ∀ x < cfg.nStreams, (s.outTokens x).isSome = true)
  /-- No wake-up is lost. -/
  goAwake : ∀ g < cfg.count, s.group g = .asleep → s.seen g ≠ s.gen → s.main = .published
  doneAwake : s.main = .asleep →
    (∃ g < cfg.count, s.done g ≠ s.gen) ∨ ∃ g < cfg.count, s.group g = .notify

/-! ## Slices -/

theorem SamplerPool.split_sum (n left : Nat) : (SamplerPool.split left (n + 1)).sum = left := by
  induction n generalizing left with
  | zero => simp [SamplerPool.split]
  | succ n ih =>
    rw [SamplerPool.split, List.sum_cons, ih]
    have := Nat.div_le_self left (n + 1 + 1)
    omega

theorem SamplerPool.split_length (n left : Nat) : (SamplerPool.split left n).length = n := by
  induction n generalizing left with
  | zero => rfl
  | succ n ih => rw [SamplerPool.split, List.length_cons, ih]

namespace BarrierConfig

variable (cfg : BarrierConfig ι)

/-- A slice starts where the one before it ends. -/
theorem lo_succ (g : Nat) : cfg.lo (g + 1) = cfg.hi g := by
  unfold hi lo
  rw [List.take_add_one, List.sum_append]
  congr 1
  rw [List.getD_eq_getElem?_getD]
  cases (SamplerPool.split cfg.nStreams cfg.count)[g]? <;> simp

theorem lo_le_hi (g : Nat) : cfg.lo g ≤ cfg.hi g := Nat.le_add_right _ _

theorem lo_mono {g g' : Nat} (h : g ≤ g') : cfg.lo g ≤ cfg.lo g' := by
  induction h with
  | refl => exact Nat.le_refl _
  | @step n _ ih =>
    have h₁ := cfg.lo_le_hi n
    rw [Nat.succ_eq_add_one, cfg.lo_succ]
    omega

theorem lo_count : cfg.lo cfg.count = cfg.nStreams := by
  have hpos : cfg.count ≠ 0 := by unfold count; omega
  obtain ⟨n, hn⟩ := Nat.exists_eq_succ_of_ne_zero hpos
  unfold lo
  rw [List.take_of_length_le (Nat.le_of_eq (SamplerPool.split_length _ _)), hn]
  exact SamplerPool.split_sum n cfg.nStreams

theorem inSlice_unique {g g' x : Nat} (h : cfg.InSlice g x) (h' : cfg.InSlice g' x) : g = g' := by
  have hbelow : ∀ {a b : Nat}, a < b → cfg.InSlice a x → ¬ cfg.InSlice b x := by
    intro a b hlt ha hb
    have h₁ := cfg.lo_mono (Nat.succ_le_of_lt hlt)
    rw [Nat.succ_eq_add_one, cfg.lo_succ] at h₁
    exact absurd hb.1 (Nat.not_le_of_lt (Nat.lt_of_lt_of_le ha.2 h₁))
  rcases Nat.lt_trichotomy g g' with hlt | heq | hlt
  · exact absurd h' (hbelow hlt h)
  · exact heq
  · exact absurd h (hbelow hlt h')

theorem inSlice_lt {g x : Nat} (hg : g < cfg.count) (h : cfg.InSlice g x) : x < cfg.nStreams := by
  have h₁ := cfg.lo_mono (Nat.succ_le_of_lt hg)
  rw [Nat.succ_eq_add_one, cfg.lo_succ, cfg.lo_count] at h₁
  exact Nat.lt_of_lt_of_le h.2 h₁

/-- Every stream is in a slice. -/
theorem inSlice_exists {x : Nat} (hx : x < cfg.nStreams) : ∃ g < cfg.count, cfg.InSlice g x := by
  have h : ∀ n, x < cfg.lo n → ∃ g < n, cfg.InSlice g x := by
    intro n
    induction n with
    | zero => intro h; simp [lo] at h
    | succ n ih =>
      intro h
      rw [cfg.lo_succ] at h
      rcases Nat.lt_or_ge x (cfg.lo n) with hlt | hge
      · obtain ⟨g, hg, hs⟩ := ih hlt
        exact ⟨g, by omega, hs⟩
      · exact ⟨n, by omega, hge, h⟩
  exact h cfg.count (by rw [cfg.lo_count]; exact hx)

theorem split_pos {n left : Nat} (h : n ≤ left) :
    ∀ c ∈ SamplerPool.split left n, 1 ≤ c := by
  induction n generalizing left with
  | zero => nofun
  | succ n ih =>
    have hq : 1 ≤ left / (n + 1) := (Nat.one_le_div_iff (Nat.succ_pos n)).2 h
    intro c hc
    rw [SamplerPool.split] at hc
    rcases List.mem_cons.1 hc with rfl | hc
    · exact hq
    · refine ih ?_ c hc
      -- Each of the other groups gets as many.
      have h₁ : left / (n + 1) * (n + 1) ≤ left := Nat.div_mul_le_self _ _
      have h₂ : n ≤ left / (n + 1) * n := Nat.le_mul_of_pos_left n hq
      rw [Nat.mul_add, Nat.mul_one] at h₁
      omega

/-- With a stream there are at most as many groups as streams, so no slice is empty. -/
theorem lo_lt_hi (hpos : 0 < cfg.nStreams) {g : Nat} (hg : g < cfg.count) :
    cfg.lo g < cfg.hi g := by
  have hle : cfg.count ≤ cfg.nStreams := by unfold count; omega
  have hlen : g < (SamplerPool.split cfg.nStreams cfg.count).length := by
    rw [SamplerPool.split_length]; exact hg
  have := split_pos hle _ (List.getElem_mem hlen)
  unfold hi
  rw [List.getD_eq_getElem?_getD, List.getElem?_eq_getElem hlen, Option.getD_some]
  omega

end BarrierConfig

/-! ## Generations -/

variable {cfg : BarrierConfig ι} {s t : Barrier ι}

/-- The generation before the current one. -/
def Barrier.old (s : Barrier ι) : Nat := (s.call - 1) % 2 ^ 64

/-- How far a group is with the current generation. -/
inductive Stage (s : Barrier ι) (g : Nat) : Prop where
  | fresh (hpc : (s.group g).snapshot = none) (hseen : s.seen g = s.old) (hdone : s.done g = s.old)
      (hexec : (s.call, g) ∉ s.execs)
  | running (hpc : (s.group g).snapshot = some (s.call, s.args)) (hseen : s.seen g = s.gen)
      (hdone : s.done g = s.old) (hexec : (s.call, g) ∈ s.execs)
  | reported (hpc : (s.group g).snapshot = none) (hseen : s.seen g = s.gen)
      (hdone : s.done g = s.gen) (hexec : (s.call, g) ∈ s.execs)

/-- The generation numbers and the record of slices. -/
structure Protocol (cfg : BarrierConfig ι) (s : Barrier ι) : Prop where
  gen : s.gen = s.call % 2 ^ 64
  pos : s.main.inCall = true → 1 ≤ s.call
  idle : s.main.inCall = false → ∀ g < cfg.count,
    (s.group g).snapshot = none ∧ s.seen g = s.gen ∧ s.done g = s.gen
  busy : s.main.inCall = true → ∀ g < cfg.count, Stage s g
  bound : ∀ e ∈ s.execs, e.1 ≤ s.call
  once : s.execs.Nodup
  complete : ∀ c, 1 ≤ c → c ≤ s.call → (c = s.call → s.main.inCall = false) →
    ∀ g < cfg.count, (c, g) ∈ s.execs

theorem Protocol.old_ne (h : Protocol cfg s) (hc : s.main.inCall = true) : s.old ≠ s.gen := by
  have hpos := h.pos hc
  rw [h.gen]
  unfold Barrier.old
  omega

/-- Steps that leave the numbers, the snapshots and the record alone. -/
theorem Protocol.congr (h : Protocol cfg s) (hpc : ∀ g, (t.group g).snapshot = (s.group g).snapshot)
    (hseen : t.seen = s.seen) (hdone : t.done = s.done) (hcall : t.call = s.call)
    (hgen : t.gen = s.gen) (hargs : t.args = s.args) (hexecs : t.execs = s.execs)
    (hmain : t.main.inCall = s.main.inCall) : Protocol cfg t := by
  have hold : t.old = s.old := by unfold Barrier.old; rw [hcall]
  refine ⟨?_, ?_, ?_, ?_, ?_, ?_, ?_⟩
  · rw [hgen, hcall]; exact h.gen
  · rw [hmain, hcall]; exact h.pos
  · rw [hmain, hgen, hseen, hdone]
    intro hi g hg
    rw [hpc]
    exact h.idle hi g hg
  · rw [hmain]
    intro hb g hg
    cases h.busy hb g hg with
    | fresh h₁ h₂ h₃ h₄ =>
      exact .fresh ((hpc g).trans h₁) (by rw [hseen, hold, h₂]) (by rw [hdone, hold, h₃])
        (by rw [hcall, hexecs]; exact h₄)
    | running h₁ h₂ h₃ h₄ =>
      exact .running (by rw [hpc, hcall, hargs, h₁]) (by rw [hseen, hgen, h₂])
        (by rw [hdone, hold, h₃]) (by rw [hcall, hexecs]; exact h₄)
    | reported h₁ h₂ h₃ h₄ =>
      exact .reported ((hpc g).trans h₁) (by rw [hseen, hgen, h₂]) (by rw [hdone, hgen, h₃])
        (by rw [hcall, hexecs]; exact h₄)
  · rw [hexecs, hcall]; exact h.bound
  · rw [hexecs]; exact h.once
  · rw [hexecs, hcall, hmain]; exact h.complete

/-- The program counter of one group changes, its snapshot does not. -/
theorem Protocol.setGroup (h : Protocol cfg s) {g : Nat} (pc : GroupPc ι)
    (hpc : pc.snapshot = (s.group g).snapshot) (hg : t.group = Function.update s.group g pc)
    (hseen : t.seen = s.seen) (hdone : t.done = s.done) (hcall : t.call = s.call)
    (hgen : t.gen = s.gen) (hargs : t.args = s.args) (hexecs : t.execs = s.execs)
    (hmain : t.main.inCall = s.main.inCall) : Protocol cfg t := by
  refine h.congr (fun g' => ?_) hseen hdone hcall hgen hargs hexecs hmain
  rw [hg]
  by_cases he : g' = g
  · subst he
    rw [Function.update_self, hpc]
  · rw [Function.update_of_ne he]

/-- What a group's step leaves of another group's stage. -/
theorem Stage.frame {g' : Nat} (h : Stage s g') (hpc : t.group g' = s.group g')
    (hseen : t.seen g' = s.seen g') (hdone : t.done g' = s.done g') (hcall : t.call = s.call)
    (hgen : t.gen = s.gen) (hargs : t.args = s.args)
    (hexec : (s.call, g') ∈ t.execs ↔ (s.call, g') ∈ s.execs) : Stage t g' := by
  have hold : t.old = s.old := by unfold Barrier.old; rw [hcall]
  cases h with
  | fresh h₁ h₂ h₃ h₄ =>
    exact .fresh (by rw [hpc, h₁]) (by rw [hseen, hold, h₂]) (by rw [hdone, hold, h₃])
      (by rw [hcall, hexec]; exact h₄)
  | running h₁ h₂ h₃ h₄ =>
    exact .running (by rw [hpc, hcall, hargs, h₁]) (by rw [hseen, hgen, h₂])
      (by rw [hdone, hold, h₃]) (by rw [hcall, hexec]; exact h₄)
  | reported h₁ h₂ h₃ h₄ =>
    exact .reported (by rw [hpc, h₁]) (by rw [hseen, hgen, h₂]) (by rw [hdone, hgen, h₃])
      (by rw [hcall, hexec]; exact h₄)

theorem Protocol.publish (h : Protocol cfg s) (hi : s.main.inCall = false) (args : ι) :
    Protocol cfg (s.publish args) := by
  refine ⟨?_, fun _ => Nat.le_add_left _ _, nofun, fun _ g hg => ?_, ?_, h.once, ?_⟩
  · have := h.gen
    dsimp only [Barrier.publish]
    omega
  · obtain ⟨hpc, hseen, hdone⟩ := h.idle hi g hg
    have hold : (s.publish args).old = s.gen := h.gen.symm
    refine .fresh hpc (hseen.trans hold.symm) (hdone.trans hold.symm) fun hm => ?_
    have := h.bound _ hm
    dsimp only [Barrier.publish] at this
    omega
  · intro e he
    exact Nat.le_succ_of_le (h.bound e he)
  · intro c h1 hc hne g hg
    dsimp only [Barrier.publish, MainPc.inCall] at hc hne
    by_cases hlast : c = s.call + 1
    · cases hne hlast
    · exact h.complete c h1 (by omega) (fun _ => hi) g hg

/-- **`sample_step` returns with every group at rest and reported.** -/
theorem Protocol.return (h : Protocol cfg s) (hc : s.main.inCall = true)
    (hall : ∀ g < cfg.count, s.done g = s.gen) (ok : Bool) :
    Protocol cfg { s with main := .idle (some ok) } := by
  have hrep : ∀ g < cfg.count, (s.group g).snapshot = none ∧ s.seen g = s.gen ∧
      (s.call, g) ∈ s.execs := by
    intro g hg
    cases h.busy hc g hg with
    | fresh _ _ hd _ => exact absurd (hd.symm.trans (hall g hg)) (h.old_ne hc)
    | running _ _ hd _ => exact absurd (hd.symm.trans (hall g hg)) (h.old_ne hc)
    | reported h₁ h₂ _ h₄ => exact ⟨h₁, h₂, h₄⟩
  refine ⟨h.gen, nofun, fun _ g hg => ⟨(hrep g hg).1, (hrep g hg).2.1, hall g hg⟩, nofun, h.bound,
    h.once, fun c h1 hle _ g hg => ?_⟩
  by_cases hlast : c = s.call
  · rw [hlast]; exact (hrep g hg).2.2
  · exact h.complete c h1 hle (fun he => absurd he hlast) g hg

/-- A group that finds a new number is in a call and has not run its slice. -/
theorem Protocol.behind (h : Protocol cfg s) {g : Nat} (hg : g < cfg.count)
    (hpc : (s.group g).snapshot = none) (hne : s.gen ≠ s.seen g) :
    s.main.inCall = true ∧ s.done g = s.old ∧ (s.call, g) ∉ s.execs := by
  cases hc : s.main.inCall with
  | false => exact absurd (h.idle hc g hg).2.1.symm hne
  | true =>
    cases h.busy hc g hg with
    | fresh _ _ h₃ h₄ => exact ⟨rfl, h₃, h₄⟩
    | running h₁ _ _ _ => rw [hpc] at h₁; cases h₁
    | reported _ h₂ _ _ => exact absurd h₂.symm hne

/-- A group in its slice is in the current call. -/
theorem Protocol.inside (h : Protocol cfg s) {g call : Nat} {args : ι} (hg : g < cfg.count)
    (hpc : (s.group g).snapshot = some (call, args)) :
    s.main.inCall = true ∧ call = s.call ∧ args = s.args ∧ s.seen g = s.gen ∧ s.done g = s.old ∧
      (s.call, g) ∈ s.execs := by
  cases hc : s.main.inCall with
  | false => rw [(h.idle hc g hg).1] at hpc; cases hpc
  | true =>
    cases h.busy hc g hg with
    | fresh h₁ _ _ _ => rw [hpc] at h₁; cases h₁
    | running h₁ h₂ h₃ h₄ =>
      rw [hpc] at h₁
      cases h₁
      exact ⟨rfl, rfl, rfl, h₂, h₃, h₄⟩
    | reported h₁ _ _ _ => rw [hpc] at h₁; cases h₁

theorem Protocol.lock (h : Protocol cfg s) {g : Nat} (hg : g < cfg.count)
    (hpc : s.group g = .wait) : Protocol cfg (s.lock g) := by
  unfold Barrier.lock
  split
  · exact h.setGroup .asleep (by rw [hpc]; rfl) rfl rfl rfl rfl rfl rfl rfl rfl
  · rename_i hne
    obtain ⟨hc, hdone, hexec⟩ := h.behind hg (by rw [hpc]; rfl) hne
    refine ⟨h.gen, h.pos, fun hi => ?_, fun _ g' hg' => ?_, ?_, ?_, ?_⟩
    · change s.main.inCall = false at hi
      rw [hc] at hi; cases hi
    · by_cases he : g' = g
      · subst he
        refine .running ?_ ?_ hdone (List.mem_append_right _ List.mem_cons_self)
        · dsimp only [Barrier.setGroup]
          rw [Function.update_self]; rfl
        · dsimp only
          rw [Function.update_self]; rfl
      · refine (h.busy hc g' hg').frame (Function.update_of_ne he _ _)
          (Function.update_of_ne he _ _) rfl rfl rfl rfl ?_
        simp [he]
    · intro e he
      rcases List.mem_append.1 he with he | he
      · exact h.bound e he
      · rw [List.mem_singleton.1 he]; exact Nat.le_refl _
    · refine List.nodup_append'.2 ⟨h.once, List.nodup_singleton _, ?_⟩
      intro e he he'
      rw [List.mem_singleton.1 he'] at he
      exact hexec he
    · intro c h1 hle hlast g' hg'
      exact List.mem_append_left _ (h.complete c h1 hle hlast g' hg')

theorem Protocol.report (h : Protocol cfg s) {g call : Nat} {args : ι} (hg : g < cfg.count)
    (hpc : (s.group g).snapshot = some (call, args)) (ok : Bool) :
    Protocol cfg (s.report g ok) := by
  obtain ⟨hc, -, -, hseen, -, hexec⟩ := h.inside hg hpc
  refine ⟨h.gen, h.pos, fun hi => ?_, fun _ g' hg' => ?_, h.bound, h.once, h.complete⟩
  · change s.main.inCall = false at hi
    rw [hc] at hi; cases hi
  · by_cases he : g' = g
    · subst he
      refine .reported ?_ hseen ?_ hexec
      · dsimp only [Barrier.report, Barrier.setGroup]
        rw [Function.update_self]; rfl
      · dsimp only [Barrier.report]
        rw [Function.update_self]; exact hseen
    · exact (h.busy hc g' hg').frame (Function.update_of_ne he _ _) rfl
        (Function.update_of_ne he _ _) rfl rfl rfl Iff.rfl

/-- There are no threads beyond the last group. -/
def Far (cfg : BarrierConfig ι) (s : Barrier ι) : Prop := ∀ g, cfg.count ≤ g → s.group g = .wait

theorem Far.near (h : Far cfg s) {g : Nat} {pc : GroupPc ι} (hpc : s.group g = pc)
    (hne : pc ≠ .wait) : g < cfg.count := by
  rcases Nat.lt_or_ge g cfg.count with hlt | hge
  · exact hlt
  · exact absurd (hpc.symm.trans (h g hge)) hne

theorem Far.update (h : Far cfg s) {g : Nat} {pc : GroupPc ι} (hg : g < cfg.count)
    (ht : t.group = Function.update s.group g pc) : Far cfg t := by
  intro g' hg'
  rw [ht, Function.update_of_ne (by omega)]
  exact h g' hg'

theorem Far.step {e : BarrierEvent ι} (h : Far cfg s) (hs : s.step cfg e = some t) :
    Far cfg t := by
  unfold Barrier.step at hs
  cases e with
  | refuse | publish | check | wakeMain =>
    dsimp only at hs
    split at hs <;> cases hs
    exact h
  | notifyAll =>
    dsimp only at hs
    split at hs <;> cases hs
    intro g hg
    dsimp only [Barrier.notifyAll]
    rw [h g hg]
  | lock g =>
    dsimp only at hs
    split at hs
    · split at hs <;> cases hs
      rename_i hg
      unfold Barrier.lock
      split
      · exact h.update hg rfl
      · exact h.update hg rfl
    · cases hs
  | wake g | sort g ok | notifyOne g =>
    dsimp only at hs
    split at hs <;> cases hs
    rename_i hpc
    exact h.update (h.near hpc nofun) rfl
  | token g tok =>
    dsimp only at hs
    split at hs
    · rename_i hpc
      split at hs <;> cases hs
      unfold Barrier.token
      split
      · exact h.update (h.near hpc nofun) rfl
      · exact h.update (h.near hpc nofun) rfl
    · cases hs
  | report g =>
    dsimp only at hs
    split at hs
    · rename_i hpc
      split at hs <;> cases hs
      exact h.update (h.near hpc nofun) rfl
    · rename_i hpc
      cases hs
      exact h.update (h.near hpc nofun) rfl
    · cases hs

theorem Protocol.step {e : BarrierEvent ι} (h : Protocol cfg s) (hfar : Far cfg s)
    (hs : s.step cfg e = some t) : Protocol cfg t := by
  unfold Barrier.step at hs
  cases e with
  | refuse =>
    dsimp only at hs
    split at hs <;> cases hs
    rename_i hi
    exact h.congr (fun _ => rfl) rfl rfl rfl rfl rfl rfl hi.symm
  | publish args =>
    dsimp only at hs
    split at hs <;> cases hs
    rename_i hi
    exact h.publish hi args
  | notifyAll =>
    dsimp only at hs
    split at hs <;> cases hs
    rename_i hm
    refine h.congr (fun g => ?_) rfl rfl rfl rfl rfl rfl (by rw [hm]; rfl)
    dsimp only [Barrier.notifyAll]
    split
    · rename_i hg
      rw [hg]; rfl
    · rfl
  | check =>
    dsimp only at hs
    split at hs <;> cases hs
    rename_i hm
    split
    · rename_i hall
      exact h.return (by rw [hm]; rfl) hall _
    · exact h.congr (fun _ => rfl) rfl rfl rfl rfl rfl rfl (by rw [hm]; rfl)
  | wakeMain =>
    dsimp only at hs
    split at hs <;> cases hs
    rename_i hm
    exact h.congr (fun _ => rfl) rfl rfl rfl rfl rfl rfl (by rw [hm]; rfl)
  | lock g =>
    dsimp only at hs
    split at hs
    · split at hs <;> cases hs
      rename_i hpc hg
      exact h.lock hg hpc
    · cases hs
  | wake g =>
    dsimp only at hs
    split at hs <;> cases hs
    rename_i hpc
    exact h.setGroup .wait (by rw [hpc]; rfl) rfl rfl rfl rfl rfl rfl rfl rfl
  | sort g ok =>
    dsimp only at hs
    split at hs <;> cases hs
    rename_i call args hpc
    refine h.setGroup _ ?_ rfl rfl rfl rfl rfl rfl rfl rfl
    rw [hpc]
    split <;> rfl
  | token g tok =>
    dsimp only at hs
    split at hs
    · rename_i call args x hpc
      split at hs <;> cases hs
      unfold Barrier.token
      split
      · exact h.setGroup (.failed call args) (by rw [hpc]; rfl) rfl rfl rfl rfl rfl rfl rfl rfl
      · exact h.setGroup (.slice call args (x + 1)) (by rw [hpc]; rfl) rfl rfl rfl rfl rfl rfl
          rfl rfl
    · cases hs
  | report g =>
    dsimp only at hs
    split at hs
    · rename_i call args x hpc
      split at hs <;> cases hs
      exact h.report (hfar.near hpc nofun) (by rw [hpc]; rfl) _
    · rename_i call args hpc
      cases hs
      exact h.report (hfar.near hpc nofun) (by rw [hpc]; rfl) _
    · cases hs
  | notifyOne g =>
    dsimp only at hs
    split at hs <;> cases hs
    rename_i hpc
    refine h.setGroup .wait (by rw [hpc]; rfl) rfl rfl rfl rfl rfl rfl rfl ?_
    split
    · rename_i hm
      rw [hm]; rfl
    · rfl

/-! ## Tokens -/

/-- Nothing of a slice has been sampled in this call. -/
structure Untouched (cfg : BarrierConfig ι) (s : Barrier ι) (g : Nat) : Prop where
  out : ∀ y, cfg.InSlice g y → s.outTokens y = none
  computed : ∀ e ∈ s.computed, e.1 ≠ g

/-- The streams of a slice below `x` have a token, the others have not been sampled. -/
structure SampledUpTo (cfg : BarrierConfig ι) (s : Barrier ι) (g x : Nat) : Prop where
  lo : cfg.lo g ≤ x
  hi : x ≤ cfg.hi g
  below : ∀ y, cfg.lo g ≤ y → y < x → s.outTokens y ≠ none
  above : ∀ y, x ≤ y → y < cfg.hi g → s.outTokens y = none
  computed : ∀ e ∈ s.computed, e.1 = g → e.2.1 < x

/-- How far a group is with the tokens of its slice. -/
def SliceOk (cfg : BarrierConfig ι) (s : Barrier ι) (g : Nat) : Prop :=
  match s.group g with
  | .sort _ _ => Untouched cfg s g
  | .slice _ _ x => SampledUpTo cfg s g x
  | .failed _ _ => ∃ y, cfg.InSlice g y ∧ s.outTokens y = none
  | _ => (s.done g ≠ s.gen → Untouched cfg s g) ∧
    (s.done g = s.gen → s.stepOk = true → ∀ y, cfg.InSlice g y → s.outTokens y ≠ none)

structure Slices (cfg : BarrierConfig ι) (s : Barrier ι) : Prop where
  busy : s.main.inCall = true → ∀ g < cfg.count, SliceOk cfg s g
  bad : s.main.inCall = true → s.stepOk = false →
    ∃ g < cfg.count, s.done g = s.gen ∧ ∃ y, cfg.InSlice g y ∧ s.outTokens y = none
  result : ∀ ok, s.main = .idle (some ok) →
    (ok = true ↔ ∀ x < cfg.nStreams, (s.outTokens x).isSome = true)
  tokens : ∀ x tok, s.outTokens x = some tok →
    0 ≤ tok ∧ ∃ g < cfg.count, cfg.InSlice g x ∧ (g, x, tok) ∈ s.computed
  owner : ∀ e ∈ s.computed, e.1 < cfg.count ∧ cfg.InSlice e.1 e.2.1
  sampled : (s.computed.map (·.2.1)).Nodup

/-- What a step of another group leaves of a slice. -/
theorem SliceOk.frame {g : Nat} (h : SliceOk cfg s g) (hpc : t.group g = s.group g)
    (hdone : t.done g = s.done g) (hgen : t.gen = s.gen)
    (hok : t.stepOk = true → s.stepOk = true)
    (hout : ∀ y, cfg.InSlice g y → t.outTokens y = s.outTokens y)
    (hcomp : ∀ e ∈ t.computed, e.1 = g → e ∈ s.computed) : SliceOk cfg t g := by
  have hun : Untouched cfg s g → Untouched cfg t g := fun hu =>
    ⟨fun y hy => (hout y hy).trans (hu.out y hy),
      fun e he heg => hu.computed e (hcomp e he heg) heg⟩
  unfold SliceOk at h ⊢
  rw [hpc]
  have hrest : (s.done g ≠ s.gen → Untouched cfg s g) ∧
      (s.done g = s.gen → s.stepOk = true → ∀ y, cfg.InSlice g y → s.outTokens y ≠ none) →
      (t.done g ≠ t.gen → Untouched cfg t g) ∧
      (t.done g = t.gen → t.stepOk = true → ∀ y, cfg.InSlice g y → t.outTokens y ≠ none) := by
    rw [hdone, hgen]
    rintro ⟨h₁, h₂⟩
    exact ⟨fun hne => hun (h₁ hne), fun he hk y hy => by rw [hout y hy]; exact h₂ he (hok hk) y hy⟩
  cases hg : s.group g with
  | sort call args => rw [hg] at h; exact hun h
  | slice call args x =>
    rw [hg] at h
    refine ⟨h.lo, h.hi, fun y hlo hy => ?_, fun y hy hhi => ?_, fun e he heg =>
      h.computed e (hcomp e he heg) heg⟩
    · rw [hout y ⟨hlo, Nat.lt_of_lt_of_le hy h.hi⟩]; exact h.below y hlo hy
    · rw [hout y ⟨Nat.le_trans h.lo hy, hhi⟩]; exact h.above y hy hhi
  | failed call args =>
    rw [hg] at h
    obtain ⟨y, hy, hn⟩ := h
    exact ⟨y, hy, (hout y hy).trans hn⟩
  | wait => rw [hg] at h; exact hrest h
  | asleep => rw [hg] at h; exact hrest h
  | notify => rw [hg] at h; exact hrest h

/-- At rest only the report counts. -/
theorem sliceOk_rest {g : Nat} (hpc : (s.group g).snapshot = none) : SliceOk cfg s g ↔
    (s.done g ≠ s.gen → Untouched cfg s g) ∧
    (s.done g = s.gen → s.stepOk = true → ∀ y, cfg.InSlice g y → s.outTokens y ≠ none) := by
  unfold SliceOk
  split
  · rename_i hg; rw [hg] at hpc; cases hpc
  · rename_i hg; rw [hg] at hpc; cases hpc
  · rename_i hg; rw [hg] at hpc; cases hpc
  · exact Iff.rfl

/-- Steps of one group that write no token and report nothing. -/
theorem Slices.setGroup (h : Slices cfg s) {g : Nat} (pc : GroupPc ι)
    (hg : t.group = Function.update s.group g pc) (hdone : t.done = s.done) (hgen : t.gen = s.gen)
    (hok : t.stepOk = s.stepOk) (hout : t.outTokens = s.outTokens)
    (hcomp : t.computed = s.computed) (hin : t.main.inCall = s.main.inCall)
    (hmain : ∀ ok, t.main = .idle (some ok) → s.main = .idle (some ok))
    (hself : s.main.inCall = true → g < cfg.count → SliceOk cfg t g) : Slices cfg t := by
  refine ⟨fun hc g' hg' => ?_, fun hc hb => ?_, fun ok hm => ?_, ?_, ?_, ?_⟩
  · rw [hin] at hc
    by_cases he : g' = g
    · subst he; exact hself hc hg'
    · exact (h.busy hc g' hg').frame (by rw [hg, Function.update_of_ne he]) (by rw [hdone]) hgen
        (by rw [hok]; exact id) (fun y _ => by rw [hout]) (fun e he _ => by rwa [← hcomp])
  · rw [hdone, hgen, hout]
    exact h.bad (hin ▸ hc) (hok ▸ hb)
  · rw [hout]; exact h.result ok (hmain ok hm)
  · rw [hout, hcomp]; exact h.tokens
  · rw [hcomp]; exact h.owner
  · rw [hcomp]; exact h.sampled

theorem Slices.publish (hp : Protocol cfg s) (hi : s.main.inCall = false) (args : ι) :
    Slices cfg (s.publish args) := by
  refine ⟨fun _ g hg => ?_, nofun, nofun, nofun, nofun, List.nodup_nil⟩
  obtain ⟨hpc, -, hdone⟩ := hp.idle hi g hg
  rw [sliceOk_rest (s := s.publish args) hpc]
  refine ⟨fun _ => ⟨fun _ _ => rfl, nofun⟩, fun he => ?_⟩
  -- The new number is not the one the group reported.
  have h₁ : s.gen = (s.gen + 1) % 2 ^ 64 := hdone.symm.trans he
  have h₂ := hp.gen
  omega

theorem Slices.refuse (hpos : 0 < cfg.nStreams) : Slices cfg s.refuse := by
  refine ⟨nofun, nofun, fun ok hm => ?_, nofun, nofun, List.nodup_nil⟩
  cases hm
  refine iff_of_false nofun fun h => ?_
  cases h 0 hpos

/-- **What `sample_step` returns.** -/
theorem Slices.return (h : Slices cfg s) (hp : Protocol cfg s) (hc : s.main.inCall = true)
    (hall : ∀ g < cfg.count, s.done g = s.gen) :
    Slices cfg { s with main := .idle (some s.stepOk) } := by
  refine ⟨nofun, nofun, fun ok hm => ?_, h.tokens, h.owner, h.sampled⟩
  obtain rfl : s.stepOk = ok := by cases hm; rfl
  constructor
  · intro hok x hx
    obtain ⟨g, hg, hs⟩ := cfg.inSlice_exists hx
    have hpc := ((hp.return hc hall s.stepOk).idle rfl g hg).1
    have := ((sliceOk_rest (s := s) hpc).1 (h.busy hc g hg)).2 (hall g hg) hok x hs
    exact Option.isSome_iff_ne_none.2 this
  · intro hsome
    cases hok : s.stepOk with
    | true => rfl
    | false =>
      obtain ⟨g, hg, -, y, hy, hn⟩ := h.bad hc hok
      have := hsome y (cfg.inSlice_lt hg hy)
      rw [show Barrier.outTokens _ = s.outTokens from rfl, hn] at this
      cases this

theorem Slices.token (h : Slices cfg s) (hp : Protocol cfg s) {g call : Nat} {args : ι} {x : Nat}
    (hg : g < cfg.count) (hpc : s.group g = .slice call args x) (hx : x < cfg.hi g) (tok : Int) :
    Slices cfg (s.token g call args x tok) := by
  obtain ⟨hc, -, -, -, hdone, -⟩ := hp.inside hg (by rw [hpc]; rfl)
  have hup : SampledUpTo cfg s g x := by
    have := h.busy hc g hg
    unfold SliceOk at this
    rwa [hpc] at this
  have hslice : cfg.InSlice g x := ⟨hup.lo, hx⟩
  have howner : ∀ e ∈ s.computed ++ [(g, x, tok)], e.1 < cfg.count ∧ cfg.InSlice e.1 e.2.1 := by
    intro e he
    rcases List.mem_append.1 he with he | he
    · exact h.owner e he
    · rw [List.mem_singleton.1 he]; exact ⟨hg, hslice⟩
  have hnew : ∀ e ∈ s.computed, e.2.1 ≠ x := by
    intro e he hex
    have hge : e.1 = g := cfg.inSlice_unique (hex ▸ (h.owner e he).2) hslice
    have := hup.computed e he hge
    omega
  have hsampled : ((s.computed ++ [(g, x, tok)]).map (·.2.1)).Nodup := by
    rw [List.map_append]
    refine List.nodup_append'.2 ⟨h.sampled, List.nodup_singleton _, ?_⟩
    intro y hy hy'
    obtain ⟨e, he, rfl⟩ := List.mem_map.1 hy
    exact hnew e he (List.mem_singleton.1 hy')
  have hother : ∀ g' ≠ g, ∀ e ∈ s.computed ++ [(g, x, tok)], e.1 = g' → e ∈ s.computed := by
    intro g' hne e he heg
    rcases List.mem_append.1 he with he | he
    · exact he
    · rw [List.mem_singleton.1 he] at heg
      exact absurd heg.symm hne
  have hkept : ∀ y tok', s.outTokens y = some tok' → 0 ≤ tok' ∧ ∃ g' < cfg.count,
      cfg.InSlice g' y ∧ (g', y, tok') ∈ s.computed ++ [(g, x, tok)] := by
    intro y tok' hy
    obtain ⟨h0, g', hg', hs, hm⟩ := h.tokens y tok' hy
    exact ⟨h0, g', hg', hs, List.mem_append_left _ hm⟩
  unfold Barrier.token
  split
  · refine ⟨fun _ g' hg' => ?_, h.bad, h.result, hkept, howner, hsampled⟩
    by_cases he : g' = g
    · subst he
      unfold SliceOk
      rw [show Barrier.group _ g' = .failed call args from Function.update_self _ _ _]
      exact ⟨x, hslice, hup.above x (Nat.le_refl _) hx⟩
    · exact (h.busy hc g' hg').frame (Function.update_of_ne he _ _) rfl rfl id (fun _ _ => rfl)
        (hother g' he)
  · rename_i htok
    refine ⟨fun _ g' hg' => ?_, fun _ hb => ?_, fun ok hm => ?_, ?_, howner, hsampled⟩
    · by_cases he : g' = g
      · subst he
        unfold SliceOk
        rw [show Barrier.group _ g' = .slice call args (x + 1) from Function.update_self _ _ _]
        refine ⟨Nat.le_succ_of_le hup.lo, hx, fun y hlo hy => ?_, fun y hy hhi => ?_,
          fun e he heg => ?_⟩
        · by_cases hyx : y = x
          · subst hyx
            dsimp only
            rw [Function.update_self]
            nofun
          · dsimp only
            rw [Function.update_of_ne hyx]
            exact hup.below y hlo (by omega)
        · dsimp only
          rw [Function.update_of_ne (by omega)]
          exact hup.above y (by omega) hhi
        · rcases List.mem_append.1 he with he | he
          · have := hup.computed e he heg
            omega
          · rw [List.mem_singleton.1 he]
            exact Nat.lt_succ_self x
      · refine (h.busy hc g' hg').frame (Function.update_of_ne he _ _) rfl rfl id (fun y hy => ?_)
          (hother g' he)
        refine Function.update_of_ne (fun hyx => he ?_) _ _
        exact cfg.inSlice_unique hy (hyx ▸ hslice)
    · obtain ⟨g', hg', hd, y, hy, hn⟩ := h.bad hc hb
      refine ⟨g', hg', hd, y, hy, ?_⟩
      -- The group that failed has reported, this one has not.
      have hne : y ≠ x := by
        rintro rfl
        obtain rfl := cfg.inSlice_unique hy hslice
        exact hp.old_ne hc (hdone.symm.trans hd)
      exact (Function.update_of_ne hne _ _).trans hn
    · change s.main = .idle (some ok) at hm
      rw [hm] at hc; cases hc
    · intro y tok' hy
      dsimp only at hy
      by_cases hyx : y = x
      · subst hyx
        rw [Function.update_self] at hy
        cases hy
        exact ⟨by omega, g, hg, hslice, List.mem_append_right _ List.mem_cons_self⟩
      · rw [Function.update_of_ne hyx] at hy
        exact hkept y tok' hy

theorem Slices.report (h : Slices cfg s) (hp : Protocol cfg s) {g call : Nat} {args : ι}
    (hg : g < cfg.count) (hpc : (s.group g).snapshot = some (call, args)) (ok : Bool)
    (hok : ok = true → ∀ y, cfg.InSlice g y → s.outTokens y ≠ none)
    (hbad : ok = false → ∃ y, cfg.InSlice g y ∧ s.outTokens y = none) :
    Slices cfg (s.report g ok) := by
  obtain ⟨hc, -, -, hseen, hdone, -⟩ := hp.inside hg hpc
  have hself : (s.report g ok).done g = (s.report g ok).gen := by
    unfold Barrier.report
    dsimp only
    rw [Function.update_self]; exact hseen
  have hstep : ∀ {b : Bool}, (s.stepOk && ok) = b → b = true → s.stepOk = true ∧ ok = true := by
    rintro b hb rfl
    simpa using hb
  refine ⟨fun _ g' hg' => ?_, fun _ hb => ?_, fun ok' hm => ?_, h.tokens, h.owner, h.sampled⟩
  · by_cases he : g' = g
    · subst he
      have hrest : ((s.report g' ok).group g').snapshot = none := by
        rw [show (s.report g' ok).group g' = .notify from Function.update_self _ _ _]; rfl
      rw [sliceOk_rest hrest]
      refine ⟨fun hne => absurd ?_ hne, fun _ hb y hy => ?_⟩
      · exact hself
      · exact hok (hstep rfl hb).2 y hy
    · exact (h.busy hc g' hg').frame (Function.update_of_ne he _ _) (Function.update_of_ne he _ _)
        rfl (fun hb => (hstep rfl hb).1) (fun _ _ => rfl) (fun _ he' _ => he')
  · by_cases hko : ok = false
    · obtain ⟨y, hy, hn⟩ := hbad hko
      exact ⟨g, hg, hself, y, hy, hn⟩
    · have hs : s.stepOk = false := by
        dsimp only [Barrier.report] at hb
        simpa [hko] using hb
      obtain ⟨g', hg', hd, y, hy, hn⟩ := h.bad hc hs
      have hne : g' ≠ g := by
        rintro rfl
        exact hp.old_ne hc (hdone.symm.trans hd)
      exact ⟨g', hg', (Function.update_of_ne hne _ _).trans hd, y, hy, hn⟩
  · rw [show (s.report g ok).main = s.main from rfl] at hm
    rw [hm] at hc; cases hc

/-- A group that stays at rest owes the same. -/
theorem Slices.rest {u : Barrier ι} {g : Nat} {pc : GroupPc ι} (h : Slices cfg s)
    (hpc : (s.group g).snapshot = none) (hpc' : pc.snapshot = none)
    (hg : u.group = Function.update s.group g pc) (hdone : u.done = s.done) (hgen : u.gen = s.gen)
    (hok : u.stepOk = s.stepOk) (hout : u.outTokens = s.outTokens)
    (hcomp : u.computed = s.computed) (hc : s.main.inCall = true) (hlt : g < cfg.count) :
    SliceOk cfg u g := by
  have hu : (u.group g).snapshot = none := by rw [hg, Function.update_self]; exact hpc'
  rw [sliceOk_rest hu, hdone, hgen, hok, hout]
  obtain ⟨h₁, h₂⟩ := (sliceOk_rest hpc).1 (h.busy hc g hlt)
  exact ⟨fun hne => ⟨by rw [hout]; exact (h₁ hne).out, by rw [hcomp]; exact (h₁ hne).computed⟩,
    h₂⟩

/-- The main thread moves within the call. -/
theorem Slices.setMain (h : Slices cfg s) {m : MainPc} (hc : s.main.inCall = true)
    (hm : ∀ ok, m ≠ .idle ok) : Slices cfg { s with main := m } :=
  ⟨fun _ g hg => (h.busy hc g hg).frame rfl rfl rfl id (fun _ _ => rfl) fun _ he _ => he,
    fun _ => h.bad hc, fun _ hok => absurd hok (hm _), h.tokens, h.owner, h.sampled⟩

theorem Slices.notifyAll (h : Slices cfg s) (hm : s.main = .published) :
    Slices cfg s.notifyAll := by
  have hc : s.main.inCall = true := by rw [hm]; rfl
  refine ⟨fun _ g hg => ?_, fun _ => h.bad hc, nofun, h.tokens, h.owner, h.sampled⟩
  by_cases hpc : s.group g = .asleep
  · have hset : s.notifyAll.group g = .wait := by
      dsimp only [Barrier.notifyAll]
      rw [hpc]
    have hu : SliceOk cfg (s.setGroup g .wait) g :=
      h.rest (by rw [hpc]; rfl) rfl rfl rfl rfl rfl rfl rfl hc hg
    have hset' : (s.setGroup g .wait).group g = .wait := Function.update_self _ _ _
    exact hu.frame (hset.trans hset'.symm) rfl rfl id (fun _ _ => rfl) fun _ he _ => he
  · refine (h.busy hc g hg).frame ?_ rfl rfl id (fun _ _ => rfl) fun _ he _ => he
    dsimp only [Barrier.notifyAll]
    split
    · contradiction
    · rfl

theorem Slices.lock (h : Slices cfg s) (hp : Protocol cfg s) {g : Nat}
    (hpc : s.group g = .wait) (hg : g < cfg.count) : Slices cfg (s.lock g) := by
  have hsnap : (s.group g).snapshot = none := by rw [hpc]; rfl
  unfold Barrier.lock
  split
  · exact h.setGroup .asleep rfl rfl rfl rfl rfl rfl rfl (fun _ => id)
      (h.rest hsnap rfl rfl rfl rfl rfl rfl rfl)
  · rename_i hne
    obtain ⟨hc, hdone, -⟩ := hp.behind hg hsnap hne
    refine h.setGroup (.sort s.call s.args) rfl rfl rfl rfl rfl rfl rfl (fun _ => id)
      fun _ _ => ?_
    have hun := ((sliceOk_rest hsnap).1 (h.busy hc g hg)).1 (by rw [hdone]; exact hp.old_ne hc)
    unfold SliceOk
    rw [show Barrier.group _ g = .sort s.call s.args from Function.update_self _ _ _]
    exact ⟨hun.out, hun.computed⟩

theorem Slices.sort (h : Slices cfg s) (hpos : 0 < cfg.nStreams) {g call : Nat} {args : ι}
    (hpc : s.group g = .sort call args) (ok : Bool) :
    Slices cfg (s.setGroup g
      (if cfg.dev args = true ∧ ok = false then .failed call args
        else .slice call args (cfg.lo g))) := by
  refine h.setGroup _ rfl rfl rfl rfl rfl rfl rfl (fun _ => id) fun hc hg => ?_
  have hun : Untouched cfg s g := by
    have := h.busy hc g hg
    unfold SliceOk at this
    rwa [hpc] at this
  have hlt := cfg.lo_lt_hi hpos hg
  unfold SliceOk
  dsimp only [Barrier.setGroup]
  rw [Function.update_self]
  by_cases hf : cfg.dev args = true ∧ ok = false
  · rw [if_pos hf]
    exact ⟨cfg.lo g, ⟨Nat.le_refl _, hlt⟩, hun.out _ ⟨Nat.le_refl _, hlt⟩⟩
  · rw [if_neg hf]
    exact ⟨Nat.le_refl _, Nat.le_of_lt hlt, fun y h₁ h₂ => absurd h₁ (Nat.not_le_of_lt h₂),
      fun y h₁ h₂ => hun.out y ⟨h₁, h₂⟩, fun e he heg => absurd heg (hun.computed e he)⟩

theorem Slices.notifyOne (h : Slices cfg s) {g : Nat} (hpc : s.group g = .notify) :
    Slices cfg
      { s.setGroup g .wait with main := if s.main = .asleep then .waiting else s.main } := by
  refine h.setGroup .wait rfl rfl rfl rfl rfl rfl ?_ (fun ok hm => ?_)
    (h.rest (by rw [hpc]; rfl) rfl rfl rfl rfl rfl rfl rfl)
  · dsimp only
    split
    · rename_i hm
      rw [hm]; rfl
    · rfl
  · dsimp only at hm
    split at hm
    · cases hm
    · exact hm

theorem Slices.step {e : BarrierEvent ι} (h : Slices cfg s) (hp : Protocol cfg s)
    (hfar : Far cfg s) (hpos : 0 < cfg.nStreams) (hs : s.step cfg e = some t) : Slices cfg t := by
  unfold Barrier.step at hs
  cases e with
  | refuse =>
    dsimp only at hs
    split at hs <;> cases hs
    exact Slices.refuse hpos
  | publish args =>
    dsimp only at hs
    split at hs <;> cases hs
    rename_i hi
    exact Slices.publish hp hi args
  | notifyAll =>
    dsimp only at hs
    split at hs <;> cases hs
    rename_i hm
    exact h.notifyAll hm
  | check =>
    dsimp only at hs
    split at hs <;> cases hs
    rename_i hm
    have hc : s.main.inCall = true := by rw [hm]; rfl
    split
    · rename_i hall
      exact h.return hp hc hall
    · exact h.setMain hc nofun
  | wakeMain =>
    dsimp only at hs
    split at hs <;> cases hs
    rename_i hm
    exact h.setMain (by rw [hm]; rfl) nofun
  | lock g =>
    dsimp only at hs
    split at hs
    · split at hs <;> cases hs
      rename_i hpc hg
      exact h.lock hp hpc hg
    · cases hs
  | wake g =>
    dsimp only at hs
    split at hs <;> cases hs
    rename_i hpc
    exact h.setGroup .wait rfl rfl rfl rfl rfl rfl rfl (fun _ => id)
      (h.rest (by rw [hpc]; rfl) rfl rfl rfl rfl rfl rfl rfl)
  | sort g ok =>
    dsimp only at hs
    split at hs <;> cases hs
    rename_i call args hpc
    exact h.sort hpos hpc ok
  | token g tok =>
    dsimp only at hs
    split at hs
    · rename_i call args x hpc
      split at hs <;> cases hs
      rename_i hx
      exact h.token hp (hfar.near hpc nofun) hpc hx tok
    · cases hs
  | report g =>
    dsimp only at hs
    split at hs
    · rename_i call args x hpc
      split at hs <;> cases hs
      rename_i hx
      have hg := hfar.near hpc nofun
      have hsnap : (s.group g).snapshot = some (call, args) := by rw [hpc]; rfl
      refine h.report hp hg hsnap true (fun _ y hy => ?_) nofun
      have hup := h.busy (hp.inside hg hsnap).1 g hg
      unfold SliceOk at hup
      rw [hpc] at hup
      exact hup.below y hy.1 (Nat.lt_of_lt_of_le hy.2 (Nat.le_of_not_lt hx))
    · rename_i call args hpc
      cases hs
      have hg := hfar.near hpc nofun
      have hsnap : (s.group g).snapshot = some (call, args) := by rw [hpc]; rfl
      refine h.report hp hg hsnap false nofun fun _ => ?_
      have hf := h.busy (hp.inside hg hsnap).1 g hg
      unfold SliceOk at hf
      rwa [hpc] at hf
    · cases hs
  | notifyOne g =>
    dsimp only at hs
    split at hs <;> cases hs
    rename_i hpc
    exact h.notifyOne hpc

/-! ## Wake-ups -/

structure Awake (cfg : BarrierConfig ι) (s : Barrier ι) : Prop where
  go : ∀ g < cfg.count, s.group g = .asleep → s.seen g ≠ s.gen → s.main = .published
  done : s.main = .asleep →
    (∃ g < cfg.count, s.done g ≠ s.gen) ∨ ∃ g < cfg.count, s.group g = .notify

/-- A group's step that is no notification, and after which a sleeping group has seen the number. -/
theorem Awake.setGroup (h : Awake cfg s) {g : Nat} {pc : GroupPc ι} (hne : s.group g ≠ .notify)
    (hg : t.group = Function.update s.group g pc) (hseen : ∀ g' ≠ g, t.seen g' = s.seen g')
    (hdone : ∀ g', t.done g' = s.done g' ∨ pc = .notify ∧ g' = g) (hgen : t.gen = s.gen)
    (hmain : t.main = s.main) (hpc : pc = .asleep → t.seen g = s.gen) : Awake cfg t := by
  refine ⟨fun g' hg' ha hs => ?_, fun hm => ?_⟩
  · rw [hg] at ha
    by_cases he : g' = g
    · subst he
      rw [Function.update_self] at ha
      exact absurd ((hpc ha).trans hgen.symm) hs
    · rw [Function.update_of_ne he] at ha
      rw [hseen g' he, hgen] at hs
      exact hmain.trans (h.go g' hg' ha hs)
  · rcases h.done (hmain ▸ hm) with ⟨g', hg', hd⟩ | ⟨g', hg', hn⟩
    · rcases hdone g' with he | ⟨rfl, rfl⟩
      · exact .inl ⟨g', hg', by rw [he, hgen]; exact hd⟩
      · exact .inr ⟨g', hg', by rw [hg, Function.update_self]⟩
    · refine .inr ⟨g', hg', ?_⟩
      rw [hg, Function.update_of_ne]
      · exact hn
      · rintro rfl
        exact hne hn

theorem Awake.step {e : BarrierEvent ι} (h : Awake cfg s) (hs : s.step cfg e = some t) :
    Awake cfg t := by
  unfold Barrier.step at hs
  cases e with
  | refuse =>
    dsimp only at hs
    split at hs <;> cases hs
    rename_i hi
    refine ⟨fun g hg ha hne => ?_, nofun⟩
    rw [h.go g hg ha hne] at hi
    cases hi
  | publish args =>
    dsimp only at hs
    split at hs <;> cases hs
    exact ⟨fun _ _ _ _ => rfl, nofun⟩
  | notifyAll =>
    dsimp only at hs
    split at hs <;> cases hs
    refine ⟨fun g hg ha => ?_, nofun⟩
    dsimp only [Barrier.notifyAll] at ha
    split at ha
    · cases ha
    · rename_i hn
      exact absurd ha hn
  | check =>
    dsimp only at hs
    split at hs <;> cases hs
    rename_i hm
    have hgo : ∀ g < cfg.count, s.group g = .asleep → s.seen g ≠ s.gen → False := by
      intro g hg ha hne
      rw [h.go g hg ha hne] at hm
      cases hm
    refine ⟨fun g hg ha hne => (hgo g hg ha hne).elim, fun ha => .inl ?_⟩
    dsimp only at ha
    split at ha
    · cases ha
    · rename_i hall
      simp only [not_forall] at hall
      obtain ⟨g, hg, hd⟩ := hall
      exact ⟨g, hg, hd⟩
  | wakeMain =>
    dsimp only at hs
    split at hs <;> cases hs
    rename_i hm
    refine ⟨fun g hg ha hne => ?_, nofun⟩
    rw [h.go g hg ha hne] at hm
    cases hm
  | lock g =>
    dsimp only at hs
    split at hs
    · split at hs <;> cases hs
      rename_i hpc hg
      unfold Barrier.lock
      split
      · rename_i he
        exact h.setGroup (by rw [hpc]; nofun) rfl (fun _ _ => rfl) (fun _ => .inl rfl) rfl rfl
          fun _ => he.symm
      · exact h.setGroup (by rw [hpc]; nofun) rfl (fun g' hne => Function.update_of_ne hne _ _)
          (fun _ => .inl rfl) rfl rfl nofun
    · cases hs
  | wake g =>
    dsimp only at hs
    split at hs <;> cases hs
    rename_i hpc
    exact h.setGroup (by rw [hpc]; nofun) rfl (fun _ _ => rfl) (fun _ => .inl rfl) rfl rfl nofun
  | sort g ok =>
    dsimp only at hs
    split at hs <;> cases hs
    rename_i hpc
    refine h.setGroup (by rw [hpc]; nofun) rfl (fun _ _ => rfl) (fun _ => .inl rfl) rfl rfl ?_
    split <;> nofun
  | token g tok =>
    dsimp only at hs
    split at hs
    · rename_i hpc
      split at hs <;> cases hs
      unfold Barrier.token
      split <;> exact h.setGroup (by rw [hpc]; nofun) rfl (fun _ _ => rfl) (fun _ => .inl rfl) rfl
        rfl nofun
    · cases hs
  | report g =>
    have hdone : ∀ (ok : Bool) (g' : Nat), (s.report g ok).done g' = s.done g' ∨
        (.notify : GroupPc ι) = .notify ∧ g' = g := by
      intro ok g'
      by_cases he : g' = g
      · exact .inr ⟨rfl, he⟩
      · exact .inl (Function.update_of_ne he _ _)
    dsimp only at hs
    split at hs
    · rename_i hpc
      split at hs <;> cases hs
      exact h.setGroup (by rw [hpc]; nofun) rfl (fun _ _ => rfl) (hdone _) rfl rfl nofun
    · rename_i hpc
      cases hs
      exact h.setGroup (by rw [hpc]; nofun) rfl (fun _ _ => rfl) (hdone _) rfl rfl nofun
    · cases hs
  | notifyOne g =>
    dsimp only at hs
    split at hs <;> cases hs
    rename_i hpc
    refine ⟨fun g' hg' ha hne => ?_, fun hm => ?_⟩
    · dsimp only [Barrier.setGroup] at ha
      by_cases he : g' = g
      · subst he
        rw [Function.update_self] at ha
        cases ha
      · rw [Function.update_of_ne he] at ha
        have hp := h.go g' hg' ha hne
        dsimp only
        rw [hp]; rfl
    · dsimp only at hm
      split at hm
      · cases hm
      · contradiction

/-! ## Results -/

/-- **The barrier is safe in every run.** -/
theorem barrier_safe (cfg : BarrierConfig ι) (null : ι) (hpos : 0 < cfg.nStreams)
    {es : List (BarrierEvent ι)} {s : Barrier ι}
    (h : (barrier cfg null).exec (barrier cfg null).init es = some s) : BarrierSafe cfg s := by
  have hinv : Far cfg s ∧ Protocol cfg s ∧ Slices cfg s ∧ Awake cfg s := by
    refine (barrier cfg null).exec_invariant
      (I := fun s => Far cfg s ∧ Protocol cfg s ∧ Slices cfg s ∧ Awake cfg s) ?_ ?_ h
    · rintro s e t ⟨h₁, h₂, h₃, h₄⟩ hs
      exact ⟨h₁.step hs, h₂.step h₁ hs, h₃.step h₂ h₁ hpos hs, h₄.step hs⟩
    · refine ⟨fun _ _ => rfl, ⟨rfl, nofun, fun _ _ _ => ⟨rfl, rfl, rfl⟩, nofun, nofun,
        List.nodup_nil, fun c h1 hc => ?_⟩, ⟨nofun, nofun, nofun, nofun, nofun, List.nodup_nil⟩,
        ⟨nofun, nofun⟩⟩
      have hc : c ≤ 0 := hc
      omega
  obtain ⟨-, hp, hsl, ha⟩ := hinv
  exact ⟨hp.once, hp.complete, fun hi g hg => (hp.idle hi g hg).2.2, fun g hg call args hsnap =>
    let ⟨h₁, h₂, h₃, _⟩ := hp.inside hg hsnap; ⟨h₁, h₂, h₃⟩, hsl.sampled, hsl.tokens, hsl.result,
    ha.go, ha.done⟩

/-- Two groups of one and two streams; the first call goes through, the second one fails on the
last stream, the third is refused. -/
def threeCalls : List (BarrierEvent Nat) :=
  [.lock 0, .wake 0, .lock 0, .publish 7, .lock 1, .notifyAll, .check, .lock 0, .sort 1 true,
    .sort 0 true, .token 1 5, .token 0 4, .report 0, .token 1 6, .wakeMain, .notifyOne 0, .check,
    .lock 0, .report 1, .notifyOne 1, .check, .publish 8, .notifyAll, .lock 0, .lock 1,
    .sort 1 true, .token 1 3, .token 1 (-1), .sort 0 true, .report 1, .token 0 2, .report 0, .check,
    .refuse]

def threeStreams : BarrierConfig Nat := { nStreams := 3, groups := 2, dev := fun _ => false }

theorem barrier_safe_calls :
    ((barrier threeStreams 0).exec (barrier threeStreams 0).init (threeCalls.take 21)).map
        (fun s => (s.main, [0, 1, 2].map s.outTokens)) =
          some (.idle (some true), [some 4, some 5, some 6]) ∧
      ((barrier threeStreams 0).exec (barrier threeStreams 0).init (threeCalls.take 33)).map
        (fun s => (s.main, [0, 1, 2].map s.outTokens)) =
          some (.idle (some false), [some 2, some 3, none]) ∧
      ∃ s, (barrier threeStreams 0).exec (barrier threeStreams 0).init threeCalls = some s ∧
        (s.main, s.call) = (.idle (some false), 2) ∧ BarrierSafe threeStreams s := by
  have hrun : ((barrier threeStreams 0).exec (barrier threeStreams 0).init threeCalls).map
      (fun s => (s.main, s.call)) = some (.idle (some false), 2) := by
    decide +kernel
  obtain ⟨s, hs, hend⟩ := Option.map_eq_some_iff.1 hrun
  exact ⟨by decide +kernel, by decide +kernel, s, hs, hend,
    barrier_safe threeStreams 0 (by decide) hs⟩

end Poi
