import Mathlib.Data.List.Basic
import Mathlib.Data.List.Induction
import Mathlib.Logic.Function.Basic

/-!
# Loops that may fail

A loop whose body may fail, in `Except`: what its body keeps holds when the loop succeeds, and
when its body never fails neither does the loop.

* `seq_ok` — a sequence of two steps succeeds when both do;
* `loop_ok`, `loop_succeeds` — the invariant rules of a counted loop, for partial and for total
  correctness;
* `foldlM_ok`, `foldlM_succeeds` — those of a loop over a list;
* `foldlM_related` — what two loops over one list keep between them;
* `Ends` — what holds on every way out, with the rules of a sequence and of the loops;
* `loop_error_iff` — a loop fails in the first step that does;
* `assign` — updates of a state in order, where those before a failure stay;
* `Overwrites` — updates that set some fields and leave the others alone: making them twice is
  making them once.
-/

set_option autoImplicit false

namespace Fallible

variable {ε α β : Type}

theorem seq_ok {x : Except ε α} {k : α → Except ε β} {b : β} :
    (do let a ← x; k a) = .ok b ↔ ∃ a, x = .ok a ∧ k a = .ok b := by
  cases x with
  | error e => exact ⟨nofun, nofun⟩
  | ok a => exact ⟨fun h => ⟨a, rfl, h⟩, by rintro ⟨_, ⟨⟩, h⟩; exact h⟩

theorem toOption_eq_some {x : Except ε α} {a : α} : x.toOption = some a ↔ x = .ok a := by
  cases x <;> simp [Except.toOption]

theorem map_ok {x : Except ε α} {f : α → β} {b : β} :
    x.map f = .ok b ↔ ∃ a, x = .ok a ∧ f a = b := by
  cases x <;> simp [Except.map]

/-- `body i` for every `i < n`, in order, up to the first failure. -/
def loop (body : Nat → α → Except ε α) : Nat → α → Except ε α
  | 0, a => .ok a
  | n + 1, a => do body n (← loop body n a)

theorem loop_succ_ok {body : Nat → α → Except ε α} {n : Nat} {a c : α} :
    loop body (n + 1) a = .ok c ↔ ∃ b, loop body n a = .ok b ∧ body n b = .ok c :=
  seq_ok

/-- **An invariant of the body holds of what a successful loop returns.** -/
theorem loop_ok {body : Nat → α → Except ε α} {I : Nat → α → Prop} {n : Nat} {a b : α}
    (h0 : I 0 a) (hstep : ∀ i < n, ∀ x y, I i x → body i x = .ok y → I (i + 1) y)
    (h : loop body n a = .ok b) : I n b := by
  induction n generalizing b with
  | zero => cases h; exact h0
  | succ n ih =>
    obtain ⟨c, hc, hb⟩ := loop_succ_ok.1 h
    exact hstep n (Nat.lt_succ_self n) c b (ih (fun i hi => hstep i (by omega)) hc) hb

/-- **A loop whose body succeeds under its invariant succeeds.** -/
theorem loop_succeeds {body : Nat → α → Except ε α} {I : Nat → α → Prop} {n : Nat} {a : α}
    (h0 : I 0 a) (hstep : ∀ i < n, ∀ x, I i x → ∃ y, body i x = .ok y ∧ I (i + 1) y) :
    ∃ b, loop body n a = .ok b ∧ I n b := by
  induction n with
  | zero => exact ⟨a, rfl, h0⟩
  | succ n ih =>
    obtain ⟨c, hc, hinv⟩ := ih fun i hi => hstep i (by omega)
    obtain ⟨b, hb, hb'⟩ := hstep n (Nat.lt_succ_self n) c hinv
    exact ⟨b, loop_succ_ok.2 ⟨c, hc, hb⟩, hb'⟩

variable {γ : Type}

/-- The invariant of a loop over a list is about the part of the list that is done. -/
theorem foldlM_ok {f : α → γ → Except ε α} {I : List γ → α → Prop} {l : List γ} {a b : α}
    (h0 : I [] a)
    (hstep : ∀ done x, done ++ [x] <+: l → ∀ a b, I done a → f a x = .ok b →
      I (done ++ [x]) b)
    (h : l.foldlM f a = .ok b) : I l b := by
  induction l using List.reverseRecOn generalizing b with
  | nil => cases h; exact h0
  | append_singleton l x ih =>
    rw [List.foldlM_append] at h
    obtain ⟨c, hc, hb⟩ := seq_ok.1 h
    obtain ⟨_, hx, ⟨⟩⟩ := seq_ok.1 hb
    refine hstep l x (List.prefix_refl _) c _ (ih (fun done y hy => ?_) hc) hx
    exact hstep done y (hy.trans (List.prefix_append l [x]))

theorem foldlM_succeeds {f : α → γ → Except ε α} {I : List γ → α → Prop} {l : List γ}
    {a : α} (h0 : I [] a)
    (hstep : ∀ done x, done ++ [x] <+: l → ∀ a, I done a → ∃ b, f a x = .ok b ∧
      I (done ++ [x]) b) :
    ∃ b, l.foldlM f a = .ok b ∧ I l b := by
  induction l using List.reverseRecOn with
  | nil => exact ⟨a, rfl, h0⟩
  | append_singleton l x ih =>
    obtain ⟨c, hc, hinv⟩ := ih fun done y hy => hstep done y (hy.trans (List.prefix_append l [x]))
    obtain ⟨b, hb, hb'⟩ := hstep l x (List.prefix_refl _) c hinv
    refine ⟨b, ?_, hb'⟩
    rw [List.foldlM_append]
    exact seq_ok.2 ⟨c, hc, seq_ok.2 ⟨b, hb, rfl⟩⟩

/-- **A relation two bodies keep is one their loops keep**, where both succeed. -/
theorem foldlM_related {f : α → γ → Except ε α} {g : β → γ → Except ε β} {R : α → β → Prop}
    {l : List γ} {a a' : α} {b b' : β} (h0 : R a b)
    (hstep : ∀ x a b a' b', R a b → f a x = .ok a' → g b x = .ok b' → R a' b')
    (hf : l.foldlM f a = .ok a') (hg : l.foldlM g b = .ok b') : R a' b' := by
  induction l generalizing a b with
  | nil => cases hf; cases hg; exact h0
  | cons x l ih =>
    obtain ⟨c, hc, hf⟩ := seq_ok.1 hf
    obtain ⟨d, hd, hg⟩ := seq_ok.1 hg
    exact ih (hstep x a b c d h0 hc hd) hf hg

/-! ## Every way out -/

/-- `x` leaves `Q` when it succeeds and `R` when it fails. -/
def Ends (x : Except ε α) (Q : α → Prop) (R : ε → Prop) : Prop :=
  match x with
  | .ok a => Q a
  | .error e => R e

section Ends

variable {ε' : Type} {Q : α → Prop} {R : ε → Prop} {x : Except ε α}

theorem Ends.of_ok (h : Ends x Q R) {a : α} (hx : x = .ok a) : Q a := by
  subst hx
  exact h

theorem Ends.of_error (h : Ends x Q R) {e : ε} (hx : x = .error e) : R e := by
  subst hx
  exact h

theorem Ends.mono {Q' : α → Prop} {R' : ε → Prop} (h : Ends x Q R) (hQ : ∀ a, Q a → Q' a)
    (hR : ∀ e, R e → R' e) : Ends x Q' R' := by
  cases x with
  | ok a => exact hQ a h
  | error e => exact hR e h

/-- **The rule of a sequence.** -/
theorem Ends.seq {k : α → Except ε β} {P : β → Prop} (h : Ends x Q R)
    (hk : ∀ a, Q a → Ends (k a) P R) : Ends (do let a ← x; k a) P R := by
  cases x with
  | ok a => exact hk a h
  | error e => exact h

theorem Ends.mapError {f : ε → ε'} {R' : ε' → Prop} (h : Ends x Q R) (hf : ∀ e, R e → R' (f e)) :
    Ends (x.mapError f) Q R' := by
  cases x with
  | ok a => exact h
  | error e => exact hf e h

/-- **The rule of a counted loop.** -/
theorem Ends.loop {body : Nat → α → Except ε α} {I : Nat → α → Prop} {n : Nat} {a : α} (h0 : I 0 a)
    (hstep : ∀ i < n, ∀ b, I i b → Ends (body i b) (I (i + 1)) R) :
    Ends (Fallible.loop body n a) (I n) R := by
  induction n with
  | zero => exact h0
  | succ n ih =>
    apply Ends.seq (ih fun i hi => hstep i (by omega))
    intro b hb
    exact hstep n (Nat.lt_succ_self n) b hb

/-- **The rule of a loop over a list.** -/
theorem Ends.foldlM {f : α → γ → Except ε α} {I : List γ → α → Prop} {l : List γ} {a : α}
    (h0 : I [] a)
    (hstep : ∀ done y, done ++ [y] <+: l → ∀ b, I done b → Ends (f b y) (I (done ++ [y])) R) :
    Ends (l.foldlM f a) (I l) R := by
  induction l using List.reverseRecOn with
  | nil => exact h0
  | append_singleton l y ih =>
    have hinit : Ends (l.foldlM f a) (I l) R :=
      ih fun done z hz => hstep done z (hz.trans (List.prefix_append l [y]))
    rw [List.foldlM_append]
    apply Ends.seq hinit
    intro b hb
    have hlast := hstep l y (List.prefix_refl _) b hb
    rw [List.foldlM_cons]
    apply Ends.seq hlast
    intro c hc
    exact hc

end Ends

/-- **A loop fails in the first step that does.** -/
theorem loop_error_iff {body : Nat → α → Except ε α} {n : Nat} {a : α} {e : ε} :
    loop body n a = .error e ↔ ∃ i < n, ∃ b, loop body i a = .ok b ∧ body i b = .error e := by
  induction n with
  | zero => exact ⟨nofun, by rintro ⟨i, hi, -⟩; omega⟩
  | succ n ih =>
    have hunfold : loop body (n + 1) a = (do body n (← loop body n a)) := rfl
    rw [hunfold]
    cases hn : loop body n a with
    | error e' =>
      have hpass : ((do body n (← (.error e' : Except ε α))) = .error e) ↔ e' = e :=
        ⟨fun h => Except.error.inj h, fun h => congrArg _ h⟩
      rw [hpass]
      rw [hn] at ih
      constructor
      · rintro rfl
        obtain ⟨i, hi, b, hb, hfail⟩ := ih.1 rfl
        exact ⟨i, by omega, b, hb, hfail⟩
      · rintro ⟨i, hi, b, hb, hfail⟩
        rcases Nat.lt_succ_iff_lt_or_eq.1 hi with hlt | rfl
        · exact Except.error.inj (ih.2 ⟨i, hlt, b, hb, hfail⟩)
        · cases hn.symm.trans hb
    | ok c =>
      rw [hn] at ih
      constructor
      · intro h
        exact ⟨n, Nat.lt_succ_self n, c, hn, h⟩
      · rintro ⟨i, hi, b, hb, hfail⟩
        rcases Nat.lt_succ_iff_lt_or_eq.1 hi with hlt | rfl
        · cases ih.2 ⟨i, hlt, b, hb, hfail⟩
        · cases hn.symm.trans hb
          exact hfail

/-! ## Updates -/

/-- The state after the updates, and whether all of them were made. -/
def assign : List (Option (α → α)) → α → α × Bool
  | [], a => (a, true)
  | none :: _, a => (a, false)
  | some u :: us, a => assign us (u a)

theorem assign_snd (us : List (Option (α → α))) :
    ∀ a : α, (assign us a).2 = us.all Option.isSome := by
  induction us with
  | nil => exact fun _ => rfl
  | cons u us ih =>
    cases u with
    | none => exact fun _ => rfl
    | some u => exact fun a => ih (u a)

section Overwrites

variable {ι : Type} {V : ι → Type}

/-- The update sets a field to one value, whatever the state, or leaves the field alone. -/
def Overwrites (u : (∀ i, V i) → ∀ i, V i) : Prop :=
  ∀ i, (∀ h, u h i = h i) ∨ ∃ v, ∀ h, u h i = v

theorem overwrites_id : Overwrites (id : (∀ i, V i) → ∀ i, V i) := fun _ => .inl fun _ => rfl

theorem overwrites_update [DecidableEq ι] (i : ι) (v : V i) :
    Overwrites fun h : ∀ i, V i => Function.update h i v := by
  intro j
  by_cases hj : j = i
  · subst hj
    exact .inr ⟨v, fun h => Function.update_self j v h⟩
  · exact .inl fun h => Function.update_of_ne hj v h

theorem Overwrites.comp {u w : (∀ i, V i) → ∀ i, V i} (hw : Overwrites w) (hu : Overwrites u) :
    Overwrites fun h => w (u h) := by
  intro i
  rcases hw i with hkeep | ⟨v, hset⟩
  · rcases hu i with hkeep' | ⟨v, hset⟩
    · exact .inl fun h => (hkeep (u h)).trans (hkeep' h)
    · exact .inr ⟨v, fun h => (hkeep (u h)).trans (hset h)⟩
  · exact .inr ⟨v, fun h => hset (u h)⟩

/-- **Made twice is made once.** -/
theorem Overwrites.idem {u : (∀ i, V i) → ∀ i, V i} (hu : Overwrites u) (h : ∀ i, V i) :
    u (u h) = u h := by
  funext i
  rcases hu i with hkeep | ⟨v, hset⟩
  · exact hkeep (u h)
  · exact (hset (u h)).trans (hset h).symm

/-- Also when a failure cuts the updates short. -/
theorem Overwrites.assign {us : List (Option ((∀ i, V i) → ∀ i, V i))}
    (hus : ∀ u ∈ us, ∀ w, u = some w → Overwrites w) :
    Overwrites fun h => (Fallible.assign us h).1 := by
  induction us with
  | nil => exact overwrites_id
  | cons u us ih =>
    have htail := ih fun w hw => hus w (List.mem_cons_of_mem u hw)
    cases u with
    | none => exact overwrites_id
    | some u => exact htail.comp (hus (some u) List.mem_cons_self u rfl)

end Overwrites

end Fallible
