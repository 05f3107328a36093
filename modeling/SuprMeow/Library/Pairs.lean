import Mathlib.Data.List.Basic

/-!
# Lists read two at a time

A loop that takes two elements at each step and may find one left over at the end.

* `All` — a relation on every pair, a predicate on the one left over;
* `traverse` — a step that may fail, on every pair in order; `traverse_isSome_iff` says when it
  does not;
* `map` — a step that does not; `traverse_eq_map` connects the two.
-/

set_option autoImplicit false

namespace Pairs

variable {α β : Type}

def All (r : α → α → Prop) (q : α → Prop) : List α → Prop
  | [] => True
  | [a] => q a
  | a :: b :: l => r a b ∧ All r q l

def traverse (f : α → α → Option β) (last : α → Option (List β)) : List α → Option (List β)
  | [] => some []
  | [a] => last a
  | a :: b :: l => (f a b).bind fun v => (traverse f last l).map (v :: ·)

/-- The one left over is dropped. -/
def map (f : α → α → β) : List α → List β
  | [] => []
  | [_] => []
  | a :: b :: l => f a b :: map f l

instance decidableAll {r : α → α → Prop} {q : α → Prop} [∀ a b, Decidable (r a b)]
    [DecidablePred q] : ∀ l, Decidable (All r q l)
  | [] => isTrue trivial
  | [a] => inferInstanceAs (Decidable (q a))
  | a :: b :: l =>
    have : Decidable (All r q l) := decidableAll l
    inferInstanceAs (Decidable (r a b ∧ All r q l))

/-! ## Every pair -/

section

variable {r r' : α → α → Prop} {q q' : α → Prop}

theorem All.congr (hr : ∀ a b, r a b ↔ r' a b) (hq : ∀ a, q a ↔ q' a) :
    ∀ l : List α, All r q l ↔ All r' q' l
  | [] => Iff.rfl
  | [a] => hq a
  | a :: b :: l => and_congr (hr a b) (All.congr hr hq l)

theorem all_of_mem {P : α → Prop} (hr : ∀ a b, P a → P b → r a b) (hq : ∀ a, P a → q a) :
    ∀ l : List α, (∀ a ∈ l, P a) → All r q l
  | [], _ => trivial
  | [a], h => hq a (h a (List.mem_singleton.2 rfl))
  | a :: b :: l, h =>
    ⟨hr a b (h a (by simp)) (h b (by simp)),
      all_of_mem hr hq l fun c hc => h c (by simp [hc])⟩

/-- Any prefix of even length of a list, and what is left of it, keep the property. -/
theorem All.drop : ∀ (n : Nat) {l : List α}, All r q l → All r q (l.drop (2 * n))
  | 0, _, h => h
  | _ + 1, [], _ => by simp [All]
  | _ + 1, [_], _ => by simp [Nat.mul_add, All]
  | n + 1, _ :: _ :: _, h => All.drop n h.2

theorem All.take : ∀ (n : Nat) {l : List α}, All r q l → All r q (l.take (2 * n))
  | 0, _, _ => trivial
  | _ + 1, [], _ => trivial
  | _ + 1, [_], h => h
  | n + 1, _ :: _ :: _, h => ⟨h.1, All.take n h.2⟩

end

/-! ## The two loops -/

variable {f : α → α → Option β} {last : α → Option (List β)} {g : α → α → β}

theorem traverse_isSome_iff : ∀ l : List α, (traverse f last l).isSome ↔
    All (fun a b => (f a b).isSome) (fun a => (last a).isSome) l
  | [] => iff_of_true rfl trivial
  | [_] => Iff.rfl
  | a :: b :: l => by
    have ih := traverse_isSome_iff l
    unfold traverse All
    cases f a b with
    | none => simp
    | some v => simpa using ih

/-- What the last step does shows on lists of odd length only. -/
theorem traverse_even (last' : α → Option (List β)) : ∀ {l : List α}, l.length % 2 = 0 →
    traverse f last l = traverse f last' l
  | [], _ => rfl
  | [_], hlen => by simp at hlen
  | a :: b :: l, hlen => by
    have ih := traverse_even last' (l := l) (Nat.add_mod_right l.length 2 ▸ hlen)
    simp only [traverse, ih]

theorem traverse_eq_map : ∀ {l : List α}, l.length % 2 = 0 →
    All (fun a b => f a b = some (g a b)) (fun _ => True) l → traverse f last l = some (map g l)
  | [], _, _ => rfl
  | [_], hlen, _ => by simp at hlen
  | a :: b :: l, hlen, h => by
    have ih := traverse_eq_map (l := l) (Nat.add_mod_right l.length 2 ▸ hlen) h.2
    unfold traverse map
    rw [h.1, ih]
    rfl

theorem length_map : ∀ {l : List α}, l.length % 2 = 0 → 2 * (map g l).length = l.length
  | [], _ => rfl
  | [_], hlen => by simp at hlen
  | a :: b :: l, hlen => by
    have ih := length_map (l := l) (Nat.add_mod_right l.length 2 ▸ hlen)
    simp only [map, List.length_cons]
    omega

theorem length_traverse : ∀ {l : List α} {out : List β}, l.length % 2 = 0 →
    traverse f last l = some out → 2 * out.length = l.length
  | [], _, _, h => by
    cases h
    rfl
  | [_], _, hlen, _ => by simp at hlen
  | a :: b :: l, out, hlen, h => by
    obtain ⟨v, -, hrest⟩ := Option.bind_eq_some_iff.1 h
    obtain ⟨rest, hl, rfl⟩ := Option.map_eq_some_iff.1 hrest
    have ih := length_traverse (Nat.add_mod_right l.length 2 ▸ hlen) hl
    simp only [List.length_cons]
    omega

theorem map_drop : ∀ (n : Nat) (l : List α), map g (l.drop (2 * n)) = (map g l).drop n
  | 0, _ => rfl
  | _ + 1, [] => rfl
  | _ + 1, [_] => by simp [Nat.mul_add, map]
  | n + 1, _ :: _ :: l => map_drop n l

theorem map_take : ∀ (n : Nat) (l : List α), map g (l.take (2 * n)) = (map g l).take n
  | 0, _ => by simp [map]
  | _ + 1, [] => rfl
  | _ + 1, [_] => rfl
  | n + 1, a :: b :: l => congrArg (g a b :: ·) (map_take n l)

end Pairs
