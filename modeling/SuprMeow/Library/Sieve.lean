import Mathlib.Data.List.Basic

/-!
# A row of gates

Gates are asked one after the other: the first that rejects decides, a gate that abstains lets
the next one speak, and the whole abstains if nobody rejected and somebody abstained.  What a
gate says does not depend on the others, so the verdict over a part of the row is made of the
verdicts of its single gates.

* `settle_eq_reject`, `settle_of_no_reject` — when each verdict is reached;
* `settle_singleton` — a single gate speaks for itself;
* `settle_filter` — a part of the row is the row with the other gates silent.
-/

set_option autoImplicit false

namespace Sieve

variable {γ ρ : Type}

inductive Decision (ρ : Type) where
  | pass
  | abstain
  | reject (r : ρ)

inductive Verdict (γ ρ : Type) where
  | pass
  | abstain
  | reject (g : γ) (r : ρ)

/-- The verdict of a gate on its own. -/
def Decision.alone : Decision ρ → γ → Verdict γ ρ
  | .pass, _ => .pass
  | .abstain, _ => .abstain
  | .reject r, g => .reject g r

/-- The verdict behind a gate that abstained. -/
def Verdict.orAbstain : Verdict γ ρ → Verdict γ ρ
  | .pass => .abstain
  | .abstain => .abstain
  | .reject g r => .reject g r

def settle (d : γ → Decision ρ) : List γ → Verdict γ ρ
  | [] => .pass
  | g :: rest =>
    match d g with
    | .reject r => .reject g r
    | .pass => settle d rest
    | .abstain => (settle d rest).orAbstain

/-- What the gates of a part of the row say. -/
def masked (p : γ → Bool) (d : γ → Decision ρ) (g : γ) : Decision ρ := if p g then d g else .pass

theorem settle_singleton (d : γ → Decision ρ) (g : γ) : settle d [g] = (d g).alone g := by
  unfold settle
  split <;> rename_i h <;> rw [h] <;> rfl

theorem masked_eq_reject {p : γ → Bool} {d : γ → Decision ρ} {g : γ} {r : ρ} :
    masked p d g = .reject r ↔ p g = true ∧ d g = .reject r := by
  unfold masked
  split
  · rename_i h; exact (and_iff_right h).symm
  · rename_i h; exact ⟨nofun, fun h' => absurd h'.1 h⟩

theorem masked_eq_abstain {p : γ → Bool} {d : γ → Decision ρ} {g : γ} :
    masked p d g = .abstain ↔ p g = true ∧ d g = .abstain := by
  unfold masked
  split
  · rename_i h; exact (and_iff_right h).symm
  · rename_i h; exact ⟨nofun, fun h' => absurd h'.1 h⟩

theorem orAbstain_eq_reject {v : Verdict γ ρ} {g : γ} {r : ρ} :
    v.orAbstain = .reject g r ↔ v = .reject g r := by
  cases v with
  | pass => exact ⟨nofun, nofun⟩
  | abstain => exact ⟨nofun, nofun⟩
  | reject => exact Iff.rfl

theorem orAbstain_idem (v : Verdict γ ρ) : v.orAbstain.orAbstain = v.orAbstain := by
  cases v <;> rfl

theorem settle_filter (p : γ → Bool) (d : γ → Decision ρ) (row : List γ) :
    settle d (row.filter p) = settle (masked p d) row := by
  induction row with
  | nil => rfl
  | cons g rest ih =>
    by_cases hp : p g = true
    · rw [List.filter_cons_of_pos hp]
      unfold settle
      rw [ih, masked, if_pos hp]
    · rw [List.filter_cons_of_neg hp, ih]
      conv => rhs; unfold settle
      rw [masked, if_neg hp]

/-- **The first gate that rejects decides.** -/
theorem settle_eq_reject {d : γ → Decision ρ} {row : List γ} {g : γ} {r : ρ} :
    settle d row = .reject g r ↔
      ∃ pre post, row = pre ++ g :: post ∧ d g = .reject r ∧ ∀ h ∈ pre, ∀ r', d h ≠ .reject r' := by
  induction row with
  | nil => exact ⟨nofun, by rintro ⟨pre, post, h, -⟩; cases pre <;> cases h⟩
  | cons h rest ih =>
    have hlater (hh : ∀ r', d h ≠ .reject r') :
        (∃ pre post, h :: rest = pre ++ g :: post ∧ d g = .reject r ∧
          ∀ k ∈ pre, ∀ r', d k ≠ .reject r') ↔ settle d rest = .reject g r := by
      rw [ih]
      constructor
      · rintro ⟨pre, post, hrow, hg, hpre⟩
        cases pre with
        | nil => cases hrow; exact absurd hg (hh r)
        | cons k pre =>
          cases hrow
          exact ⟨pre, post, rfl, hg, fun k hk => hpre k (List.mem_cons_of_mem _ hk)⟩
      · rintro ⟨pre, post, rfl, hg, hpre⟩
        exact ⟨h :: pre, post, rfl, hg, List.forall_mem_cons.2 ⟨hh, hpre⟩⟩
    unfold settle
    split
    · rename_i r' hd
      constructor
      · intro he
        cases he
        exact ⟨[], rest, rfl, hd, nofun⟩
      · rintro ⟨pre, post, hrow, hg, hpre⟩
        cases pre with
        | nil => cases hrow; rw [hd] at hg; cases hg; rfl
        | cons k pre => cases hrow; exact absurd hd (hpre _ List.mem_cons_self r')
    · rename_i hd
      exact (hlater fun r' hr => by rw [hd] at hr; cases hr).symm
    · rename_i hd
      rw [hlater fun r' hr => by rw [hd] at hr; cases hr]
      exact orAbstain_eq_reject

/-- If nobody rejects, it is abstained exactly when somebody does. -/
theorem settle_of_no_reject {d : γ → Decision ρ} {row : List γ}
    (h : ∀ g ∈ row, ∀ r, d g ≠ .reject r) :
    (settle d row = .abstain ∧ ∃ g ∈ row, d g = .abstain) ∨
      (settle d row = .pass ∧ ∀ g ∈ row, d g = .pass) := by
  induction row with
  | nil => exact .inr ⟨rfl, nofun⟩
  | cons g rest ih =>
    obtain ⟨hg, hrest⟩ := List.forall_mem_cons.1 h
    unfold settle
    split
    · rename_i r hd
      exact absurd hd (hg r)
    · rename_i hd
      rcases ih hrest with ⟨hs, k, hk, hdk⟩ | ⟨hs, hall⟩
      · exact .inl ⟨hs, k, List.mem_cons_of_mem _ hk, hdk⟩
      · exact .inr ⟨hs, List.forall_mem_cons.2 ⟨hd, hall⟩⟩
    · rename_i hd
      refine .inl ⟨?_, g, List.mem_cons_self, hd⟩
      rcases ih hrest with ⟨hs, -⟩ | ⟨hs, -⟩ <;> rw [hs] <;> rfl

/-- Gates that all abstain leave it open. -/
theorem settle_of_abstain {p : γ → Bool} {d : γ → Decision ρ} {row : List γ}
    (h : ∀ g ∈ row, p g = true → d g = .abstain) (hp : ∃ g ∈ row, p g = true) :
    settle (masked p d) row = .abstain := by
  have hmasked (g : γ) (hg : g ∈ row) : masked p d g = if p g then .abstain else .pass := by
    unfold masked
    split
    · rename_i hpg; exact h g hg hpg
    · rfl
  rcases settle_of_no_reject (d := masked p d) fun g (hg : g ∈ row) r => by
    rw [hmasked g hg]; split <;> exact nofun with ⟨hs, -⟩ | ⟨-, hall⟩
  · exact hs
  · obtain ⟨g, hg, hpg⟩ := hp
    have := hall g hg
    rw [hmasked g hg, if_pos hpg] at this
    cases this

end Sieve
