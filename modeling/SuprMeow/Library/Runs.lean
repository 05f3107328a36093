import Mathlib.Data.List.Basic
import Mathlib.Logic.Basic
import Mathlib.Tactic.Common

/-!
# Deterministic labelled machines and their runs

A machine takes one event at a time; an event that is not enabled has no successor.  Every
choice of the environment (the schedule, a failure, the value an outside call returned) is
part of the event, so a run is an event list and can be executed.

* `Machine.exec_append` — runs compose;
* `Machine.exec_invariant` — an invariant that holds initially and is kept by every step holds
  after every run;
* `Machine.guarded_invariant` — the same for the runs whose steps all meet a side condition on
  the state and the event;
* `Machine.guarded_congr`, `Machine.guarded_congr_of_kept` — under an invariant two side conditions
  that agree guard the same runs;
* `Machine.guarded_of_exec` — the way back, from what the end of a run shows;
* `Machine.throughout_iff` — what holds in every state of a run is what each of its steps keeps;
* `Machine.queue_empty_iff`, `Machine.cleared_iff` — when a queue that the steps fill and serve, or
  fill and clear, is empty at the end of a run;
* `Threads.flatMap_set_perm`, `Threads.countP_set` — where a state is a list of threads, what they
  hold together and how many are at a point, after a step of one of them.
-/

set_option autoImplicit false

namespace Runs

variable {σ τ ε : Type*}

/-- Initial state and transition function. -/
structure Machine (σ ε : Type*) where
  init : σ
  step : σ → ε → Option σ

namespace Machine

variable (M : Machine σ ε)

/-- Execute an event list; `none` if some event is not enabled. -/
def exec : σ → List ε → Option σ
  | s, [] => some s
  | s, e :: es =>
    match M.step s e with
    | some t => exec t es
    | none => none

/-- Every step taken by the run meets `ok`. -/
def Guarded (ok : σ → ε → Prop) : σ → List ε → Prop
  | _, [] => True
  | s, e :: es => ok s e ∧ ∀ t, M.step s e = some t → Guarded ok t es

instance decidableGuarded (ok : σ → ε → Prop) [∀ s e, Decidable (ok s e)] :
    ∀ s es, Decidable (M.Guarded ok s es)
  | _, [] => isTrue trivial
  | s, e :: es =>
    match h : M.step s e with
    | none => decidable_of_iff (ok s e) ⟨fun h₁ => ⟨h₁, fun t ht => by simp [h] at ht⟩, And.left⟩
    | some t =>
      have := decidableGuarded ok t es
      decidable_of_iff (ok s e ∧ M.Guarded ok t es)
        ⟨fun h₁ => ⟨h₁.1, fun u hu => by cases h.symm.trans hu; exact h₁.2⟩,
          fun h₁ => ⟨h₁.1, h₁.2 t h⟩⟩

@[simp] theorem exec_nil (s : σ) : M.exec s [] = some s := rfl

theorem exec_cons {s t : σ} {e : ε} {es : List ε} :
    M.exec s (e :: es) = some t ↔ ∃ u, M.step s e = some u ∧ M.exec u es = some t := by
  simp only [exec]
  cases M.step s e <;> simp

theorem exec_append {s t : σ} {es fs : List ε} :
    M.exec s (es ++ fs) = some t ↔ ∃ u, M.exec s es = some u ∧ M.exec u fs = some t := by
  induction es generalizing s with
  | nil => simp
  | cons e es ih =>
    simp only [List.cons_append, exec_cons, ih]
    constructor
    · rintro ⟨u, hu, v, hv, hw⟩; exact ⟨v, ⟨u, hu, hv⟩, hw⟩
    · rintro ⟨v, ⟨u, hu, hv⟩, hw⟩; exact ⟨u, hu, v, hv, hw⟩

theorem exec_snoc {s t : σ} {e : ε} {es : List ε} :
    M.exec s (es ++ [e]) = some t ↔ ∃ u, M.exec s es = some u ∧ M.step u e = some t := by
  simp [exec_append, exec_cons]

theorem Guarded.mono {ok ok' : σ → ε → Prop} (h : ∀ s e, ok s e → ok' s e) :
    ∀ {s : σ} {es : List ε}, M.Guarded ok s es → M.Guarded ok' s es
  | _, [], _ => trivial
  | _, _ :: _, ⟨h₁, h₂⟩ => ⟨h _ _ h₁, fun t ht => Guarded.mono h (h₂ t ht)⟩

/-- **Invariant rule for guarded runs.** -/
theorem guarded_invariant {ok : σ → ε → Prop} {I : σ → Prop}
    (hstep : ∀ s e t, I s → ok s e → M.step s e = some t → I t) :
    ∀ {es : List ε} {s t : σ}, I s → M.Guarded ok s es → M.exec s es = some t → I t := by
  intro es
  induction es with
  | nil =>
    intro s t hs _ he
    cases he; exact hs
  | cons e es ih =>
    intro s t hs hg he
    obtain ⟨u, hu, hrest⟩ := M.exec_cons.1 he
    exact ih (hstep s e u hs hg.1 hu) (hg.2 u hu) hrest

/-- **Side conditions that agree wherever an invariant holds guard the same runs.** -/
theorem guarded_congr {ok ok' : σ → ε → Prop} {I : σ → Prop}
    (hstep : ∀ s e t, I s → M.step s e = some t → I t)
    (hiff : ∀ s e, I s → (ok s e ↔ ok' s e)) :
    ∀ {es : List ε} {s : σ}, I s → (M.Guarded ok s es ↔ M.Guarded ok' s es) := by
  intro es
  induction es with
  | nil => intros; rfl
  | cons e es ih =>
    intro s hs
    exact and_congr (hiff s e hs)
      (forall_congr' fun t => imp_congr_right fun ht => ih (hstep s e t hs ht))

/-- **Side conditions that agree wherever an invariant holds guard the same runs**, when only the
steps that meet them keep the invariant. -/
theorem guarded_congr_of_kept {ok ok' : σ → ε → Prop} {I : σ → Prop}
    (hstep : ∀ s e t, I s → ok s e → M.step s e = some t → I t)
    (hiff : ∀ s e, I s → (ok s e ↔ ok' s e)) :
    ∀ {es : List ε} {s : σ}, I s → (M.Guarded ok s es ↔ M.Guarded ok' s es) := by
  intro es
  induction es with
  | nil => intros; rfl
  | cons e es ih =>
    intro s hs
    constructor
    · rintro ⟨h, hrest⟩
      exact ⟨(hiff s e hs).1 h, fun t ht => (ih (hstep s e t hs h ht)).1 (hrest t ht)⟩
    · rintro ⟨h, hrest⟩
      have hok := (hiff s e hs).2 h
      exact ⟨hok, fun t ht => (ih (hstep s e t hs hok ht)).2 (hrest t ht)⟩

/-- The last step of a guarded run meets the side condition. -/
theorem Guarded.last {ok : σ → ε → Prop} {e : ε} :
    ∀ {es : List ε} {s t : σ}, M.Guarded ok s (es ++ [e]) → M.exec s es = some t → ok t e := by
  intro es
  induction es with
  | nil =>
    intro s t hg he
    cases he
    exact hg.1
  | cons d es ih =>
    intro s t hg he
    obtain ⟨u, hu, hrest⟩ := M.exec_cons.1 he
    exact ih (hg.2 u hu) hrest

/-- A run meets a side condition when each of its steps does in view of how the run ends. -/
theorem guarded_of_exec {ok : σ → ε → Prop} {v : σ}
    (hok : ∀ s e t es, M.step s e = some t → M.exec t es = some v → ok s e) :
    ∀ {es : List ε} {s : σ}, M.exec s es = some v → M.Guarded ok s es := by
  intro es
  induction es with
  | nil => intros; trivial
  | cons e es ih =>
    intro s he
    obtain ⟨t, ht, hrest⟩ := M.exec_cons.1 he
    refine ⟨hok s e t es ht hrest, fun u hu => ?_⟩
    cases ht.symm.trans hu
    exact ih hrest

/-- **Invariant rule.** -/
theorem exec_invariant {I : σ → Prop}
    (hstep : ∀ s e t, I s → M.step s e = some t → I t)
    {es : List ε} {s t : σ} (hs : I s) (he : M.exec s es = some t) : I t := by
  induction es generalizing s with
  | nil => cases he; exact hs
  | cons e es ih =>
    obtain ⟨u, hu, hrest⟩ := M.exec_cons.1 he
    exact ih (hstep s e u hs hu) hrest

/-- **A property holds in every state of a run exactly when each step of the run leads to a state
with it.** -/
theorem throughout_iff {I : σ → Prop} :
    ∀ {es : List ε} {s : σ}, I s →
      ((∀ pre t, pre <+: es → M.exec s pre = some t → I t) ↔
        M.Guarded (fun s e => ∀ t, M.step s e = some t → I t) s es) := by
  intro es
  induction es with
  | nil =>
    intro s hs
    refine iff_of_true ?_ trivial
    intro pre t hpre ht
    obtain rfl := List.prefix_nil.1 hpre
    cases ht
    exact hs
  | cons e es ih =>
    intro s hs
    constructor
    · intro h
      have hstep : ∀ t, M.step s e = some t → I t := by
        intro t ht
        exact h [e] t (by simp) (M.exec_cons.2 ⟨t, ht, rfl⟩)
      refine ⟨hstep, fun t ht => (ih (hstep t ht)).1 ?_⟩
      intro pre u hpre hu
      exact h (e :: pre) u (List.cons_prefix_cons.2 ⟨rfl, hpre⟩) (M.exec_cons.2 ⟨t, ht, hu⟩)
    · rintro ⟨hstep, hrest⟩ pre u hpre hu
      cases pre with
      | nil =>
        cases hu
        exact hs
      | cons e' pre =>
        obtain ⟨rfl, hpre'⟩ := List.cons_prefix_cons.1 hpre
        obtain ⟨t, ht, hu⟩ := M.exec_cons.1 hu
        exact (ih (hstep t ht)).2 (hrest t ht) pre u hpre' hu

/-! ## Queues -/

/-- What the steps of a run add up to. -/
def total (f : σ → ε → ℕ) : σ → List ε → ℕ
  | _, [] => 0
  | s, e :: es => f s e + match M.step s e with
    | some t => total f t es
    | none => 0

theorem total_cons {f : σ → ε → ℕ} {s t : σ} {e : ε} (h : M.step s e = some t) (es : List ε) :
    M.total f s (e :: es) = f s e + M.total f t es := by
  rw [total, h]

/-- What holds of every end segment of a nonempty run holds of the run and of the end segments of
its rest. -/
theorem end_segments_cons {P : σ → List ε → Prop} {s t : σ} {e : ε} {es : List ε}
    (h : M.step s e = some t) :
    (∀ pre suf u, e :: es = pre ++ suf → M.exec s pre = some u → P u suf) ↔
      P s (e :: es) ∧ ∀ pre suf u, es = pre ++ suf → M.exec t pre = some u → P u suf := by
  constructor
  · intro hall
    refine ⟨hall [] _ s rfl rfl, fun pre suf u hsplit hu => ?_⟩
    exact hall (e :: pre) suf u (congrArg (e :: ·) hsplit) (M.exec_cons.2 ⟨t, h, hu⟩)
  · rintro ⟨hs, hrest⟩ pre suf u hsplit hu
    cases pre with
    | nil =>
      cases hu
      exact (show e :: es = suf from hsplit) ▸ hs
    | cons d pre =>
      obtain ⟨rfl, hes⟩ := List.cons_eq_cons.1 hsplit
      obtain ⟨v, hv, hu⟩ := M.exec_cons.1 hu
      cases h.symm.trans hv
      exact hrest pre suf u hes hu

/-- **A queue is empty at the end of a run** exactly when no end segment of the run fills it more
often than it offers to serve it. -/
theorem queue_empty_iff {L : σ → ℕ} {up down : σ → ε → ℕ}
    (hstep : ∀ s e t, M.step s e = some t → L t = L s + up s e - down s e) {es : List ε} {s v : σ}
    (hs : L s = 0) (h : M.exec s es = some v) :
    L v = 0 ↔ ∀ pre suf u, es = pre ++ suf → M.exec s pre = some u →
      M.total up u suf ≤ M.total down u suf := by
  -- what the queue holds at the start counts as filled by the first end segment only
  suffices hgen : ∀ {es : List ε} {s : σ}, M.exec s es = some v →
      ((∀ pre suf u, es = pre ++ suf → M.exec s pre = some u →
          M.total up u suf ≤ M.total down u suf) ∧
        L s + M.total up s es ≤ M.total down s es ↔ L v = 0) by
    refine (hgen h).symm.trans ⟨And.left, fun hall => ⟨hall, ?_⟩⟩
    have := hall [] es s rfl rfl
    omega
  intro es
  induction es with
  | nil =>
    intro s h
    cases h
    refine ⟨fun hle => Nat.le_zero.1 hle.2, fun hv => ⟨fun pre suf u hsplit _ => ?_, ?_⟩⟩
    · rw [(List.append_eq_nil_iff.1 hsplit.symm).2]
      exact Nat.le_refl 0
    · exact Nat.le_of_eq hv
  | cons e es ih =>
    intro s h
    obtain ⟨t, ht, hrest⟩ := M.exec_cons.1 h
    have hL := hstep s e t ht
    rw [← ih hrest, M.end_segments_cons (P := fun u suf => M.total up u suf ≤ M.total down u suf)
      ht, M.total_cons ht, M.total_cons ht]
    constructor
    · rintro ⟨⟨-, htail⟩, hle⟩
      have hself := htail [] es t rfl rfl
      exact ⟨htail, by omega⟩
    · rintro ⟨htail, hle⟩
      exact ⟨⟨by omega, htail⟩, by omega⟩

/-- **A store is empty at the end of a run** exactly when a clearing step follows every step that
put something in. -/
theorem cleared_iff {E : σ → Prop} {adds : σ → ε → Prop} {clears : ε → Prop}
    (hexcl : ∀ s e, adds s e → ¬ clears e)
    (hstep : ∀ s e t, M.step s e = some t → (E t ↔ clears e ∨ E s ∧ ¬ adds s e))
    {es : List ε} {s v : σ} (hs : E s) (h : M.exec s es = some v) :
    E v ↔ ∀ pre e suf u, es = pre ++ e :: suf → M.exec s pre = some u → adds u e →
      ∃ d ∈ suf, clears d := by
  suffices hgen : ∀ {es : List ε} {s : σ}, M.exec s es = some v →
      ((E s ∨ ∃ d ∈ es, clears d) ∧ (∀ pre suf u, es = pre ++ suf → M.exec s pre = some u →
        ∀ e rest, suf = e :: rest → adds u e → ∃ d ∈ rest, clears d) ↔ E v) by
    rw [← hgen h]
    constructor
    · rintro ⟨-, hall⟩ pre e suf u hsplit hu hadd
      exact hall pre (e :: suf) u hsplit hu e suf rfl hadd
    · intro hall
      refine ⟨.inl hs, ?_⟩
      rintro pre suf u hsplit hu e rest rfl hadd
      exact hall pre e rest u hsplit hu hadd
  intro es
  induction es with
  | nil =>
    intro s h
    cases h
    refine ⟨fun hE => hE.1.resolve_right (by simp), fun hE => ⟨.inl hE, ?_⟩⟩
    rintro pre suf u hsplit - e rest rfl
    simp at hsplit
  | cons e es ih =>
    intro s h
    obtain ⟨t, ht, hrest⟩ := M.exec_cons.1 h
    rw [← ih hrest, M.end_segments_cons (P := fun u suf =>
      ∀ e rest, suf = e :: rest → adds u e → ∃ d ∈ rest, clears d) ht, hstep s e t ht]
    have hhead : (∀ d rest, e :: es = d :: rest → adds s d → ∃ c ∈ rest, clears c) ↔
        (adds s e → ∃ d ∈ es, clears d) := by
      constructor
      · intro hall
        exact hall e es rfl
      · rintro hall d rest hcons hadd
        obtain ⟨rfl, rfl⟩ := List.cons_eq_cons.1 hcons
        exact hall hadd
    have hcons : (∃ d ∈ e :: es, clears d) ↔ clears e ∨ ∃ d ∈ es, clears d := by simp
    rw [hhead, hcons]
    -- a later clearing step settles both sides; without one this step decides
    by_cases hlater : ∃ d ∈ es, clears d
    · simp only [hlater, or_true, true_and, implies_true]
    · have := hexcl s e
      simp only [hlater, or_false]
      tauto

end Machine

end Runs

/-! ## Threads as a list -/

namespace Threads

variable {α β : Type*}

theorem set_split {l : List α} {k : Nat} {a : α} (h : l[k]? = some a) :
    ∃ pre post, l = pre ++ a :: post ∧ ∀ b, l.set k b = pre ++ b :: post := by
  obtain ⟨hk, rfl⟩ := List.getElem?_eq_some_iff.1 h
  refine ⟨l.take k, l.drop (k + 1), ?_, fun b => ?_⟩
  · rw [← List.drop_eq_getElem_cons hk, List.take_append_drop]
  · exact List.set_eq_take_append_cons_drop.trans (by rw [if_pos hk])

theorem flatMap_set_perm {l : List α} {k : Nat} {a : α} (h : l[k]? = some a) (f : α → List β)
    (b : α) : (f a ++ (l.set k b).flatMap f).Perm (f b ++ l.flatMap f) := by
  obtain ⟨pre, post, hl, hset⟩ := set_split h
  rw [hset, hl]
  simp only [List.flatMap_append, List.flatMap_cons, ← List.append_assoc]
  refine List.Perm.append_right _ ?_
  rw [List.append_assoc, List.append_assoc]
  refine (List.perm_append_comm).trans ?_
  rw [List.append_assoc]
  refine List.perm_append_comm.trans ?_
  rw [List.append_assoc]
  exact List.Perm.append_left _ List.perm_append_comm

theorem countP_set {l : List α} {k : Nat} {a : α} (h : l[k]? = some a) (p : α → Bool) (b : α) :
    (l.set k b).countP p + (if p a then 1 else 0) = l.countP p + (if p b then 1 else 0) := by
  obtain ⟨pre, post, hl, hset⟩ := set_split h
  rw [hset, hl]
  simp only [List.countP_append, List.countP_cons]
  omega

/-- A thread at a point is still there after a step of another. -/
theorem mem_set_of_ne {l : List α} {k : Nat} {a b x : α} (h : l[k]? = some a) (hx : x ∈ l)
    (hne : x ≠ a) : x ∈ l.set k b := by
  obtain ⟨pre, post, hl, hset⟩ := set_split h
  rw [hset]
  rw [hl] at hx
  simp only [List.mem_append, List.mem_cons] at hx ⊢
  rcases hx with hx | rfl | hx
  · exact .inl hx
  · exact absurd rfl hne
  · exact .inr (.inr hx)

theorem mem_set_self {l : List α} {k : Nat} {a : α} (h : l[k]? = some a) (b : α) :
    b ∈ l.set k b := by
  obtain ⟨pre, post, -, hset⟩ := set_split h
  rw [hset]
  simp

end Threads
