import Mathlib.Algebra.GroupWithZero.Nat
import Mathlib.Data.List.Nodup
import Mathlib.Logic.Function.Basic
import SuprMeow.Library.Decimal
import SuprMeow.Library.Runs

/-!
# The salted prompts

A worker of `mine_device` without a seed salts its prompts with a number drawn once for the
process, its own index, the batch, a 64-bit count of its windows and the stream.

* `prompt_inj` — a prompt tells its worker, batch, count and stream;
* `step_fresh` — an iteration that does not wrap the count around hands out new prompts only;
* `prompts_distinct` — no prompt is handed out twice while no count wraps around;
* `prompts_repeat` — after `2 ^ 64` windows a worker starts over.
-/

set_option autoImplicit false

namespace Poi

/-! ## Prompts -/

/-- What is fixed for the process. -/
structure PromptConfig where
  /-- `std::max(1, o.slots)`. -/
  nStreams : Nat := 1
  nStreams_pos : 0 < nStreams := by decide
  wantDouble : Bool := false
  promptSalt : Nat := 0
  /-- `POW_PROMPT_STYLE`. -/
  promptStyle : Int := 1

inductive BatchTag where
  | a
  | b
  | single
  deriving DecidableEq

/-- The argument of `make_prompts`. -/
def BatchTag.tag : BatchTag → String
  | .a => "A"
  | .b => "B"
  | .single => "-"

/-- What a prompt is salted with besides `prompt_salt`. -/
structure Salt where
  worker : Nat
  batch : BatchTag
  myWindows : Nat
  st : Nat
  deriving DecidableEq

variable (cfg : PromptConfig)

def salt (x : Salt) : String :=
  toString cfg.promptSalt ++ "-" ++ toString x.worker ++ x.batch.tag ++ toString x.myWindows ++
    "-" ++ toString x.st

def prompt (x : Salt) : String :=
  if cfg.promptStyle = 1 then
    "Invent a strange short tale that has never been told. " ++
      "Do not explain it. Begin abruptly. [" ++ salt cfg x ++ "]"
  else "Explain distributed consensus in detail. [" ++ salt cfg x ++ "]"

def makePrompts (worker : Nat) (batch : BatchTag) (myWindows : Nat) : List String :=
  (List.range cfg.nStreams).map fun st => prompt cfg { worker, batch, myWindows, st }

/-! ## The loop -/

/-- The locals of `mine_device`. -/
structure PromptWorker where
  myWindows : Nat := 0
  doubleOk : Bool
  deriving DecidableEq

namespace PromptWorker

variable (w : PromptWorker)

/-- The prompts of an iteration without a seed. -/
def batches (worker : Nat) : List String :=
  if w.doubleOk then makePrompts cfg worker .a w.myWindows ++ makePrompts cfg worker .b w.myWindows
  else makePrompts cfg worker .single w.myWindows

/-- What `generate_windows_double` and `generate_windows_stepwise` return: the number of prompts or
-1, and for two batches also -2. -/
def Returns (n : Int) : Prop :=
  if w.doubleOk then n = 2 * cfg.nStreams ∨ n = -1 ∨ n = -2 else n = cfg.nStreams ∨ n = -1

instance (n : Int) : Decidable (w.Returns cfg n) := by unfold Returns; infer_instance

/-- What an iteration adds to the count: on a failure the windows it tried. -/
def counted (n : Int) : Nat :=
  if n < 0 then cfg.nStreams * (if w.doubleOk then 2 else 1) else n.toNat

/-- The rest of the iteration; a fallback counts nothing. -/
def finish (n : Int) : PromptWorker :=
  if w.doubleOk = true ∧ n = -2 then { w with doubleOk := false }
  else { w with myWindows := (w.myWindows + w.counted cfg n) % 2 ^ 64 }

/-- The count does not wrap around. -/
def Fits (n : Int) : Prop :=
  (w.doubleOk = true ∧ n = -2) ∨ w.myWindows + w.counted cfg n < 2 ^ 64

instance (n : Int) : Decidable (w.Fits cfg n) := by unfold Fits; infer_instance

end PromptWorker

/-- An iteration of a worker whose batch returned `n`. -/
structure Iteration where
  worker : Nat
  /-- The job carries a seed, and the prompts are derived from it. -/
  seeded : Bool := false
  n : Int

structure Prompting where
  workers : Nat → PromptWorker
  /-- Record of the salted prompts given to the engine. -/
  given : List String := []

def Prompting.step (s : Prompting) (e : Iteration) : Option Prompting :=
  let w := s.workers e.worker
  if w.Returns cfg e.n then
    some
      { workers := Function.update s.workers e.worker (w.finish cfg e.n)
        given := s.given ++ if e.seeded then [] else w.batches cfg e.worker }
  else none

/-- The workers of the process; any of them may come next. -/
def prompting : Runs.Machine Prompting Iteration where
  init := { workers := fun _ => { doubleOk := cfg.wantDouble } }
  step := Prompting.step cfg

/-! ## A prompt tells its salt -/

variable {cfg}

theorem tag_eq (batch : BatchTag) : ∃ c : Char, batch.tag.toList = [c] ∧ c.isDigit = false := by
  cases batch with
  | a => exact ⟨'A', rfl, rfl⟩
  | b => exact ⟨'B', rfl, rfl⟩
  | single => exact ⟨'-', rfl, rfl⟩

theorem tag_inj {batch batch' : BatchTag} (h : batch.tag = batch'.tag) : batch = batch' := by
  revert h
  cases batch <;> cases batch' <;> decide

/-- The separators of a salt are no digits, so each number ends where the next separator stands. -/
theorem salt_inj {x y : Salt} (h : salt cfg x = salt cfg y) : x = y := by
  obtain ⟨worker, batch, myWindows, st⟩ := x
  obtain ⟨worker', batch', myWindows', st'⟩ := y
  obtain ⟨c, htag, hc⟩ := tag_eq batch
  obtain ⟨c', htag', hc'⟩ := tag_eq batch'
  have hlist := congrArg String.toList h
  simp only [salt, String.toList_append, List.append_assoc, htag, htag'] at hlist
  have hsalt := List.append_cancel_left (List.append_cancel_left hlist)
  obtain ⟨rfl, hsep, hrest⟩ := Decimal.toString_append_inj hc hc' hsalt
  obtain ⟨rfl, -, hst⟩ := Decimal.toString_append_inj rfl rfl hrest
  have hbatch : batch.tag.toList = batch'.tag.toList := by rw [htag, htag', hsep]
  rw [tag_inj (String.toList_inj.1 hbatch), Decimal.toList_toString_inj hst]

theorem prompt_inj {x y : Salt} (h : prompt cfg x = prompt cfg y) : x = y := by
  suffices h : salt cfg x = salt cfg y from salt_inj h
  unfold prompt at h
  split at h
  all_goals
    have hlist := congrArg String.toList h
    simp only [String.toList_append] at hlist
    exact String.toList_inj.1 (List.append_cancel_left (List.append_cancel_right hlist))

theorem mem_makePrompts {worker myWindows : Nat} {batch : BatchTag} {p : String} :
    p ∈ makePrompts cfg worker batch myWindows ↔
      ∃ st < cfg.nStreams, prompt cfg { worker, batch, myWindows, st } = p := by
  simp only [makePrompts, List.mem_map, List.mem_range]

theorem makePrompts_nodup (worker : Nat) (batch : BatchTag) (myWindows : Nat) :
    (makePrompts cfg worker batch myWindows).Nodup := by
  apply List.Nodup.map _ List.nodup_range
  intro st st' h
  exact congrArg Salt.st (prompt_inj h)

namespace PromptWorker

/-- The prompts of an iteration are those of its worker, of this count, and of a batch that goes
with the mode. -/
theorem mem_batches {w : PromptWorker} {worker : Nat} {p : String}
    (h : p ∈ w.batches cfg worker) : ∃ x : Salt, prompt cfg x = p ∧ x.worker = worker ∧
      x.myWindows = w.myWindows ∧ (x.batch = .single ↔ w.doubleOk = false) := by
  unfold batches at h
  split at h
  · rename_i hdouble
    rw [List.mem_append] at h
    obtain h | h := h
    all_goals
      obtain ⟨st, -, rfl⟩ := mem_makePrompts.1 h
      exact ⟨_, rfl, rfl, rfl, by simp [hdouble]⟩
  · rename_i hdouble
    obtain ⟨st, -, rfl⟩ := mem_makePrompts.1 h
    exact ⟨_, rfl, rfl, rfl, by simp [hdouble]⟩

theorem batches_nodup (w : PromptWorker) (worker : Nat) : (w.batches cfg worker).Nodup := by
  unfold batches
  split
  · apply (makePrompts_nodup worker .a _).append (makePrompts_nodup worker .b _)
    intro p ha hb
    obtain ⟨st, -, rfl⟩ := mem_makePrompts.1 ha
    obtain ⟨st', -, h⟩ := mem_makePrompts.1 hb
    cases congrArg Salt.batch (prompt_inj h)
  · exact makePrompts_nodup worker .single _

theorem counted_pos {w : PromptWorker} {n : Int} (hn : w.Returns cfg n) : 0 < w.counted cfg n := by
  have hpos := cfg.nStreams_pos
  unfold Returns at hn
  unfold counted
  split at hn
  · rename_i hdouble
    rw [if_pos hdouble]
    split <;> omega
  · rename_i hdouble
    rw [if_neg hdouble]
    split <;> omega

/-- A salt is spent: it has an earlier count, or this one in a double batch that fell back. -/
def Spent (w : PromptWorker) (x : Salt) : Prop :=
  x.myWindows < w.myWindows ∨
    x.myWindows = w.myWindows ∧ x.batch ≠ .single ∧ w.doubleOk = false

/-- An iteration spends the salts of its count, and those spent before stay spent. -/
theorem spent_finish {w : PromptWorker} {n : Int} {x : Salt} (hn : w.Returns cfg n)
    (hfits : w.Fits cfg n)
    (hx : w.Spent x ∨ x.myWindows = w.myWindows ∧ (x.batch = .single ↔ w.doubleOk = false)) :
    (w.finish cfg n).Spent x := by
  unfold finish
  split
  · rename_i hfall
    obtain (hlt | ⟨-, -, hdouble⟩) | ⟨heq, hbatch⟩ := hx
    · exact .inl hlt
    · rw [hfall.1] at hdouble
      cases hdouble
    · refine .inr ⟨heq, ?_, rfl⟩
      intro hsingle
      have hdouble := hbatch.1 hsingle
      rw [hfall.1] at hdouble
      cases hdouble
  · rename_i hfall
    have hlt := hfits.resolve_left hfall
    have hpos := counted_pos hn
    have hle : x.myWindows ≤ w.myWindows := by
      obtain (hlt | ⟨heq, -⟩) | ⟨heq, -⟩ := hx <;> omega
    refine .inl ?_
    dsimp only
    rw [Nat.mod_eq_of_lt hlt]
    omega

/-- What is handed out next is not spent. -/
theorem not_spent {w : PromptWorker} {x : Salt} (hx : x.myWindows = w.myWindows)
    (hbatch : x.batch = .single ↔ w.doubleOk = false) : ¬w.Spent x := by
  rintro (hlt | ⟨-, hsingle, hdouble⟩)
  · omega
  · exact hsingle (hbatch.2 hdouble)

end PromptWorker

/-! ## Runs -/

/-- The iteration does not wrap its worker's count around. -/
def Prompting.Fits (cfg : PromptConfig) (s : Prompting) (e : Iteration) : Prop :=
  (s.workers e.worker).Fits cfg e.n

instance (s : Prompting) (e : Iteration) : Decidable (s.Fits cfg e) :=
  inferInstanceAs (Decidable ((s.workers e.worker).Fits cfg e.n))

/-- No prompt was handed out twice, and all that were are spent. -/
structure Prompting.Fresh (cfg : PromptConfig) (s : Prompting) : Prop where
  nodup : s.given.Nodup
  spent : ∀ p ∈ s.given, ∃ x : Salt, prompt cfg x = p ∧ (s.workers x.worker).Spent x

theorem step_iff {s t : Prompting} {e : Iteration} :
    (prompting cfg).step s e = some t ↔ (s.workers e.worker).Returns cfg e.n ∧ t =
      { workers := Function.update s.workers e.worker ((s.workers e.worker).finish cfg e.n)
        given := s.given ++ if e.seeded then [] else (s.workers e.worker).batches cfg e.worker } :=
  Option.ite_none_right_eq_some.trans (and_congr_right fun _ => by rw [Option.some.injEq, eq_comm])

theorem step_fresh {s t : Prompting} {e : Iteration} (hs : s.Fresh cfg) (hfits : s.Fits cfg e)
    (h : (prompting cfg).step s e = some t) : t.Fresh cfg := by
  obtain ⟨hn, rfl⟩ := step_iff.1 h
  -- The worker's own salts stay spent or become so, those of the others are not touched.
  have hspent : ∀ x : Salt, (s.workers x.worker).Spent x ∨ (x.worker = e.worker ∧
      x.myWindows = (s.workers e.worker).myWindows ∧
      (x.batch = .single ↔ (s.workers e.worker).doubleOk = false)) →
      (Function.update s.workers e.worker ((s.workers e.worker).finish cfg e.n) x.worker).Spent
        x := by
    intro x hx
    by_cases hw : x.worker = e.worker
    · rw [hw, Function.update_self]
      rw [hw] at hx
      exact PromptWorker.spent_finish hn hfits (hx.imp_right And.right)
    · rw [Function.update_of_ne hw]
      exact hx.resolve_right fun h => hw h.1
  refine ⟨?_, ?_⟩
  · refine hs.nodup.append ?_ ?_
    · split
      · exact List.nodup_nil
      · exact PromptWorker.batches_nodup _ _
    · intro p hp hnew
      split at hnew
      · cases hnew
      obtain ⟨x, rfl, hx⟩ := hs.spent p hp
      obtain ⟨y, hy, hworker, hcount, hbatch⟩ := PromptWorker.mem_batches hnew
      cases prompt_inj hy
      rw [hworker] at hx
      exact PromptWorker.not_spent hcount hbatch hx
  · intro p hp
    rw [List.mem_append] at hp
    obtain hp | hp := hp
    · obtain ⟨x, rfl, hx⟩ := hs.spent p hp
      exact ⟨x, rfl, hspent x (.inl hx)⟩
    · split at hp
      · cases hp
      obtain ⟨x, rfl, hx⟩ := PromptWorker.mem_batches hp
      exact ⟨x, rfl, hspent x (.inr hx)⟩

/-- **No prompt is handed out twice while no worker's count wraps around**, whatever the batches
return and in whatever order the workers come. -/
theorem prompts_distinct {es : List Iteration} {s : Prompting}
    (hfits : (prompting cfg).Guarded (Prompting.Fits cfg) (prompting cfg).init es)
    (h : (prompting cfg).exec (prompting cfg).init es = some s) : s.given.Nodup := by
  have hinit : (prompting cfg).init.Fresh cfg := ⟨List.nodup_nil, fun p hp => by cases hp⟩
  exact ((prompting cfg).guarded_invariant (fun _ _ _ hs hok hstep => step_fresh hs hok hstep)
    hinit hfits h).nodup

/-- Two streams on two batches. -/
def twoStreams : PromptConfig := { nStreams := 2, wantDouble := true }

/-- Worker 0 finds no device logits at first. -/
def fallbackRun : List Iteration :=
  [{ worker := 0, n := -2 }, { worker := 1, n := 4 }, { worker := 0, n := -1 },
    { worker := 0, n := 2 }]

theorem prompts_distinct_fallback :
    ∃ s, (prompting twoStreams).exec (prompting twoStreams).init fallbackRun = some s ∧
      s.given.length = 12 ∧ s.given.Nodup := by
  have hfits : (prompting twoStreams).Guarded (Prompting.Fits twoStreams)
      (prompting twoStreams).init fallbackRun := by decide
  exact ⟨_, rfl, by decide, prompts_distinct hfits rfl⟩

/-- What `k` completed batches of one stream have handed out. -/
def firstPrompts (k : Nat) : List String :=
  (List.range k).map fun i =>
    prompt {} { worker := 0, batch := .single, myWindows := i % 2 ^ 64, st := 0 }

theorem exec_completed (k : Nat) : (prompting {}).exec (prompting {}).init
    (List.replicate k { worker := 0, n := 1 }) = some
      { workers := Function.update (prompting {}).init.workers 0
          { myWindows := k % 2 ^ 64, doubleOk := false }
        given := firstPrompts k } := by
  induction k with
  | zero =>
    rw [Nat.zero_mod]
    exact congrArg some (congrArg (Prompting.mk · []) (Function.update_eq_self 0 _).symm)
  | succ k ih =>
    rw [List.replicate_succ', Runs.Machine.exec_snoc]
    refine ⟨_, ih, step_iff.2 ⟨?_, ?_⟩⟩
    · exact .inl rfl
    · dsimp only
      rw [Function.update_self, Function.update_idem]
      congr 1
      · rw [PromptWorker.finish, if_neg fun h => Bool.false_ne_true h.1]
        congr 2
        change _ = (k % 2 ^ 64 + 1) % 2 ^ 64
        omega
      · rw [firstPrompts, List.range_succ, List.map_append]
        rfl

theorem exec_completed_repeats {k : Nat} (h : 2 ^ 64 < k) :
    ∃ s, (prompting {}).exec (prompting {}).init (List.replicate k { worker := 0, n := 1 }) =
      some s ∧ ¬s.given.Nodup := by
  refine ⟨_, exec_completed k, ?_⟩
  intro hnodup
  have hinj := List.inj_on_of_nodup_map hnodup (List.mem_range.2 (Nat.zero_lt_of_lt h))
    (List.mem_range.2 h) (by rw [Nat.mod_self, Nat.zero_mod])
  omega

/-- **After `2 ^ 64` windows a worker hands out its first prompt again.** -/
theorem prompts_repeat : ∃ s, (prompting {}).exec (prompting {}).init
    (List.replicate (2 ^ 64 + 1) { worker := 0, n := 1 }) = some s ∧ ¬s.given.Nodup :=
  exec_completed_repeats (by omega)

end Poi
