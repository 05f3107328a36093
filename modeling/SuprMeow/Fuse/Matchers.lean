import SuprMeow.Fuse.Graph

/-!
# The matchers (`llama-bf16-chain-fuse.patch`, `ggml-cuda.cu`)

Which windows of the node list the patch runs as one kernel.

* `meowRt` — two casts, to bf16 and back;
* `meowNormChain`, `meowAddChain`, `meowSwigluChain`, `meowBf16RoundtripFusable` — the windows;
* `IsNormChain`, `IsAddChain`, `IsSwigluChain` — what an accepted window is.
-/

set_option autoImplicit false

namespace Fuse

open ByteMemory Strided

/-! ## The code -/

section Overlap

variable {T : Type} (x y : Tensor T)

def meowSameOrDisjoint : Bool :=
  x.data == y.data || decide (x.data + x.nbytes ≤ y.data) || decide (y.data + y.nbytes ≤ x.data)

def meowDisjoint : Bool :=
  decide (x.data + x.nbytes ≤ y.data) || decide (y.data + y.nbytes ≤ x.data)

end Overlap

/-- `MEOW_BF16_FUSE` -/
abbrev FuseLevel := Fin 3

namespace Cgraph

variable {T : Type} [DecidableEq T] (g : Cgraph T)

/-- A node whose result the fused kernel never materializes. -/
def meowInternal (i uses : Nat) : Bool :=
  match g.nodes[i]? with
  | none => false
  | some n =>
    !(g.tensor n).output && (g.tensor n).viewSrc.isNone && (g.tensor n).compute &&
      g.useCount n == uses

/-- `n[i]->src[0]` -/
def nodeSrc0 (i : Nat) : Option T := do (g.tensor (← g.nodes[i]?)).src 0

/-- `ggml_cast(ggml_cast(x, BF16), F32)` at nodes `i`, `i + 1`. -/
def meowRt (i : Nat) : Bool :=
  match g.nodes[i]?, g.nodes[i + 1]? with
  | some a, some b =>
    let α := g.tensor a
    let β := g.tensor b
    α.op == .cpy && β.op == .cpy && α.src 1 == some a && β.src 1 == some b && β.src 0 == some a &&
      match (α.src 0).map g.tensor with
      | none => false
      | some x =>
        x.type == .f32 && α.type == .bf16 && β.type == .f32 && β.compute && g.meowInternal i 2 &&
          x.isContiguous && β.isContiguous && x.nelements == β.nelements
  | _, _ => false

def meowBf16RoundtripFusable (level : FuseLevel) (i : Nat) : Bool :=
  decide (1 ≤ level.val) && g.meowRt i &&
    match g.nodeSrc0 i, g.nodes[i + 1]? with
    | some x, some b => meowSameOrDisjoint (g.tensor x) (g.tensor b)
    | _, _ => false

/-- The operand of a node that is not `n`. -/
def otherOperand (τ : Tensor T) (n : T) : Option T :=
  if τ.src 0 = some n then τ.src 1 else if τ.src 1 = some n then τ.src 0 else none

/-- `RMS_NORM`, rt, `MUL(w)`, rt; returns `w`. -/
def meowNormChain (level : FuseLevel) (i : Nat) : Option T := do
  let rms ← g.nodes[i]?
  let r ← g.nodes[i + 2]?
  let mul ← g.nodes[i + 3]?
  let out ← g.nodes[i + 5]?
  guard (2 ≤ level.val)
  guard ((g.tensor rms).op = .rmsNorm ∧ (g.tensor mul).op = .mul ∧ (g.tensor rms).type = .f32)
  guard (g.meowRt (i + 1) ∧ g.nodeSrc0 (i + 1) = some rms ∧ g.meowRt (i + 4) ∧
    g.nodeSrc0 (i + 4) = some mul)
  let w ← otherOperand (g.tensor mul) r
  let x ← (g.tensor rms).src 0
  guard ((g.tensor w).type = .f32 ∧ (g.tensor w).nb.d0 = 4 ∧ (g.tensor x).nb.d0 = 4)
  guard (g.meowInternal i 1 ∧ g.meowInternal (i + 2) 2 ∧ g.meowInternal (i + 3) 1)
  guard (areSameShape (g.tensor rms) (g.tensor mul) ∧ areSameShape (g.tensor rms) (g.tensor out) ∧
    (g.tensor out).isContiguous)
  -- each row is fully read (reduction) before it is written, so an identical buffer is safe
  guard (meowSameOrDisjoint (g.tensor x) (g.tensor out) ∧ meowDisjoint (g.tensor w) (g.tensor out))
  return w

/-- rt(m), `ADD(., other)`, rt; returns `other`. -/
def meowAddChain (level : FuseLevel) (i : Nat) : Option T := do
  let r ← g.nodes[i + 1]?
  let add ← g.nodes[i + 2]?
  let out ← g.nodes[i + 4]?
  guard (2 ≤ level.val)
  guard ((g.tensor add).op = .add ∧ g.meowRt i ∧ g.meowRt (i + 3) ∧
    g.nodeSrc0 (i + 3) = some add)
  let other ← otherOperand (g.tensor add) r
  guard ((g.tensor other).type = .f32 ∧ (g.tensor other).isContiguous ∧
    areSameShape (g.tensor other) (g.tensor add))
  guard (g.meowInternal (i + 1) 2 ∧ g.meowInternal (i + 2) 1)
  let m ← g.nodeSrc0 i
  guard (meowSameOrDisjoint (g.tensor m) (g.tensor out) ∧
    meowSameOrDisjoint (g.tensor other) (g.tensor out))
  return other

/-- The sources of a tensor up to the first null pointer. -/
def leadingSrcs (τ : Tensor T) : List (Option T) :=
  ((List.finRange ggmlMaxSrc).map τ.src).takeWhile Option.isSome

/-- rt(g), `SILU`, rt, `MUL_MAT(up)`, rt(u), `MUL`, rt; returns the `MUL_MAT(up)` node. -/
def meowSwigluChain (level : FuseLevel) (i : Nat) : Option T := do
  let r ← g.nodes[i + 1]?
  let silu ← g.nodes[i + 2]?
  let s ← g.nodes[i + 4]?
  let up ← g.nodes[i + 5]?
  let u ← g.nodes[i + 7]?
  let mul ← g.nodes[i + 8]?
  let out ← g.nodes[i + 10]?
  guard (2 ≤ level.val)
  guard ((g.tensor silu).op = .unary .silu ∧ (g.tensor silu).src 0 = some r)
  guard ((g.tensor up).op = .mulMat ∧ (g.tensor up).type = .f32 ∧ (g.tensor up).compute ∧
    (g.tensor mul).op = .mul)
  guard (g.meowRt i ∧ g.meowRt (i + 3) ∧ g.nodeSrc0 (i + 3) = some silu ∧ g.meowRt (i + 6) ∧
    g.nodeSrc0 (i + 6) = some up ∧ g.meowRt (i + 9) ∧ g.nodeSrc0 (i + 9) = some mul)
  guard (((g.tensor mul).src 0 = some s ∧ (g.tensor mul).src 1 = some u) ∨
    ((g.tensor mul).src 0 = some u ∧ (g.tensor mul).src 1 = some s))
  -- MUL_MAT(up) is run ahead of the SILU branch: it must not read any node it skips
  guard (∀ v ∈ leadingSrcs (g.tensor up), ∀ j ∈ List.range 5, v ≠ g.nodes[i + j]?)
  guard (g.meowInternal (i + 1) 2 ∧ g.meowInternal (i + 2) 1 ∧ g.meowInternal (i + 4) 2 ∧
    g.meowInternal (i + 7) 2 ∧ g.meowInternal (i + 8) 1)
  let x ← g.nodeSrc0 i
  guard (areSameShape (g.tensor x) (g.tensor up) ∧ (g.tensor up).isContiguous ∧
    areSameShape (g.tensor mul) (g.tensor out))
  -- the allocator may have reused g's buffer (dead after node i in graph order) for up
  guard (meowDisjoint (g.tensor up) (g.tensor x) ∧
    meowSameOrDisjoint (g.tensor x) (g.tensor out) ∧
    meowSameOrDisjoint (g.tensor up) (g.tensor out))
  return up

/-! ## What an accepted window is -/

structure IsInternal (t : T) (uses : Nat) : Prop where
  output : (g.tensor t).output = false
  viewSrc : (g.tensor t).viewSrc = none
  compute : (g.tensor t).compute = true
  useCount : g.useCount t = uses

structure IsRoundTrip (i : Nat) (x a b : T) : Prop where
  fst : g.nodes[i]? = some a
  snd : g.nodes[i + 1]? = some b
  op_fst : (g.tensor a).op = .cpy
  op_snd : (g.tensor b).op = .cpy
  self_fst : (g.tensor a).src 1 = some a
  self_snd : (g.tensor b).src 1 = some b
  src_fst : (g.tensor a).src 0 = some x
  src_snd : (g.tensor b).src 0 = some a
  type_src : (g.tensor x).type = .f32
  type_fst : (g.tensor a).type = .bf16
  type_snd : (g.tensor b).type = .f32
  compute : (g.tensor b).compute = true
  internal : g.IsInternal a 2
  contiguous_src : (g.tensor x).isContiguous = true
  contiguous : (g.tensor b).isContiguous = true
  nelements : (g.tensor x).nelements = (g.tensor b).nelements

/-- A node has these two operands, in either order. -/
def HasOperands (t a b : T) : Prop :=
  ((g.tensor t).src 0 = some a ∧ (g.tensor t).src 1 = some b) ∨
    ((g.tensor t).src 0 = some b ∧ (g.tensor t).src 1 = some a)

structure IsNormChain (i : Nat) (x w rms a r mul b out : T) : Prop where
  at_rms : g.nodes[i]? = some rms
  rt₁ : g.IsRoundTrip (i + 1) rms a r
  at_mul : g.nodes[i + 3]? = some mul
  rt₂ : g.IsRoundTrip (i + 4) mul b out
  op_rms : (g.tensor rms).op = .rmsNorm
  op_mul : (g.tensor mul).op = .mul
  src_rms : (g.tensor rms).src 0 = some x
  operands : g.HasOperands mul r w
  type_w : (g.tensor w).type = .f32
  nb_w : (g.tensor w).nb.d0 = 4
  nb_x : (g.tensor x).nb.d0 = 4
  internal_rms : g.IsInternal rms 1
  internal_r : g.IsInternal r 2
  internal_mul : g.IsInternal mul 1
  shape_mul : (g.tensor rms).ne = (g.tensor mul).ne
  shape_out : (g.tensor rms).ne = (g.tensor out).ne
  x_out : meowSameOrDisjoint (g.tensor x) (g.tensor out) = true
  w_out : meowDisjoint (g.tensor w) (g.tensor out) = true

structure IsAddChain (i : Nat) (m other a r add b out : T) : Prop where
  rt₁ : g.IsRoundTrip i m a r
  at_add : g.nodes[i + 2]? = some add
  rt₂ : g.IsRoundTrip (i + 3) add b out
  op_add : (g.tensor add).op = .add
  operands : g.HasOperands add r other
  type_other : (g.tensor other).type = .f32
  contiguous_other : (g.tensor other).isContiguous = true
  shape_other : (g.tensor other).ne = (g.tensor add).ne
  internal_r : g.IsInternal r 2
  internal_add : g.IsInternal add 1
  m_out : meowSameOrDisjoint (g.tensor m) (g.tensor out) = true
  other_out : meowSameOrDisjoint (g.tensor other) (g.tensor out) = true

structure IsSwigluChain (i : Nat) (x a r silu b s up c u mul d out : T) : Prop where
  rt₁ : g.IsRoundTrip i x a r
  at_silu : g.nodes[i + 2]? = some silu
  rt₂ : g.IsRoundTrip (i + 3) silu b s
  at_up : g.nodes[i + 5]? = some up
  rt₃ : g.IsRoundTrip (i + 6) up c u
  at_mul : g.nodes[i + 8]? = some mul
  rt₄ : g.IsRoundTrip (i + 9) mul d out
  op_silu : (g.tensor silu).op = .unary .silu
  src_silu : (g.tensor silu).src 0 = some r
  op_up : (g.tensor up).op = .mulMat
  compute_up : (g.tensor up).compute = true
  op_mul : (g.tensor mul).op = .mul
  operands : g.HasOperands mul s u
  internal_r : g.IsInternal r 2
  internal_silu : g.IsInternal silu 1
  internal_s : g.IsInternal s 2
  internal_u : g.IsInternal u 2
  internal_mul : g.IsInternal mul 1
  shape_up : (g.tensor x).ne = (g.tensor up).ne
  shape_out : (g.tensor mul).ne = (g.tensor out).ne
  up_x : meowDisjoint (g.tensor up) (g.tensor x) = true
  x_out : meowSameOrDisjoint (g.tensor x) (g.tensor out) = true
  up_out : meowSameOrDisjoint (g.tensor up) (g.tensor out) = true

variable {g} {i : Nat} {level : FuseLevel}

theorem isInternal_of {uses : Nat} {t : T} (h : g.meowInternal i uses = true)
    (ht : g.nodes[i]? = some t) : g.IsInternal t uses := by
  simp only [meowInternal, ht, Bool.and_eq_true, Bool.not_eq_true', Option.isNone_iff_eq_none,
    beq_iff_eq] at h
  obtain ⟨⟨⟨h₁, h₂⟩, h₃⟩, h₄⟩ := h
  exact ⟨h₁, h₂, h₃, h₄⟩

theorem isRoundTrip_of_meowRt (h : g.meowRt i = true) : ∃ x a b, g.IsRoundTrip i x a b := by
  unfold meowRt at h
  split at h
  · rename_i a b ha hb
    simp only [Bool.and_eq_true, beq_iff_eq] at h
    obtain ⟨⟨⟨⟨⟨h₁, h₂⟩, h₃⟩, h₄⟩, h₅⟩, h⟩ := h
    split at h
    · cases h
    · rename_i ξ hx
      obtain ⟨x, hsx, rfl⟩ := Option.map_eq_some_iff.1 hx
      simp only [Bool.and_eq_true, beq_iff_eq] at h
      obtain ⟨⟨⟨⟨⟨⟨⟨h₆, h₇⟩, h₈⟩, h₉⟩, h₁₀⟩, h₁₁⟩, h₁₂⟩, h₁₃⟩ := h
      exact ⟨x, a, b, ha, hb, h₁, h₂, h₃, h₄, hsx, h₅, h₆, h₇, h₈, h₉, isInternal_of h₁₀ ha,
        h₁₁, h₁₂, h₁₃⟩
  · cases h

omit [DecidableEq T] in
theorem nodeSrc0_eq {t : T} (ht : g.nodes[i]? = some t) : g.nodeSrc0 i = (g.tensor t).src 0 := by
  simp [nodeSrc0, ht]

/-- A round trip whose first source is known. -/
theorem isRoundTrip_of_src {x : T} (h : g.meowRt i = true) (hx : g.nodeSrc0 i = some x) :
    ∃ a b, g.IsRoundTrip i x a b := by
  obtain ⟨x', a, b, hrt⟩ := isRoundTrip_of_meowRt h
  rw [nodeSrc0_eq hrt.fst, hrt.src_fst] at hx
  cases hx
  exact ⟨a, b, hrt⟩

theorem hasOperands_of {t a b : T} (h : otherOperand (g.tensor t) a = some b) :
    g.HasOperands t a b := by
  unfold otherOperand at h
  split at h
  · rename_i ha
    exact .inl ⟨ha, h⟩
  · split at h
    · rename_i ha
      exact .inr ⟨h, ha⟩
    · cases h

theorem guard_eq_some {p : Prop} [Decidable p] {u : Unit} :
    (guard p : Option Unit) = some u ↔ p := by
  unfold guard
  split <;> simp_all

theorem isNormChain_of {w : T} (h : g.meowNormChain level i = some w) :
    ∃ x rms a r mul b out, g.IsNormChain i x w rms a r mul b out := by
  simp only [meowNormChain, Option.bind_eq_bind, Option.bind_eq_some_iff, guard_eq_some,
    Option.pure_def, Option.some.injEq, exists_const] at h
  obtain ⟨rms, hrms, r, hr, mul, hmul, out, hout, -, ⟨h₁, h₂, -⟩, ⟨h₄, h₅, h₆, h₇⟩, w', h₈, x, hx,
    ⟨h₉, h₁₀, h₁₁⟩, ⟨h₁₂, h₁₃, h₁₄⟩, ⟨h₁₅, h₁₆, -⟩, ⟨h₁₇, h₁₈⟩, rfl⟩ := h
  obtain ⟨a, r', hrt₁⟩ := isRoundTrip_of_src h₄ h₅
  obtain ⟨b, out', hrt₂⟩ := isRoundTrip_of_src h₆ h₇
  cases hr.symm.trans hrt₁.snd
  cases hout.symm.trans hrt₂.snd
  simp only [areSameShape, beq_iff_eq] at h₁₅ h₁₆
  exact ⟨x, rms, a, r, mul, b, out, hrms, hrt₁, hmul, hrt₂, h₁, h₂, hx, hasOperands_of h₈, h₉, h₁₀,
    h₁₁, isInternal_of h₁₂ hrms, isInternal_of h₁₃ hr, isInternal_of h₁₄ hmul, h₁₅, h₁₆, h₁₇, h₁₈⟩

theorem isAddChain_of {other : T} (h : g.meowAddChain level i = some other) :
    ∃ m a r add b out, g.IsAddChain i m other a r add b out := by
  simp only [meowAddChain, Option.bind_eq_bind, Option.bind_eq_some_iff, guard_eq_some,
    Option.pure_def, Option.some.injEq, exists_const] at h
  obtain ⟨r, hr, add, hadd, out, hout, -, ⟨h₁, h₂, h₃, h₄⟩, o, h₅, ⟨h₆, h₇, h₈⟩, ⟨h₉, h₁₀⟩, m, hm,
    ⟨h₁₁, h₁₂⟩, rfl⟩ := h
  obtain ⟨a, r', hrt₁⟩ := isRoundTrip_of_src h₂ hm
  obtain ⟨b, out', hrt₂⟩ := isRoundTrip_of_src h₃ h₄
  cases hr.symm.trans hrt₁.snd
  cases hout.symm.trans hrt₂.snd
  simp only [areSameShape, beq_iff_eq] at h₈
  exact ⟨m, a, r, add, b, out, hrt₁, hadd, hrt₂, h₁, hasOperands_of h₅, h₆, h₇, h₈,
    isInternal_of h₉ hr, isInternal_of h₁₀ hadd, h₁₁, h₁₂⟩

theorem isSwigluChain_of {up : T} (h : g.meowSwigluChain level i = some up) :
    ∃ x a r silu b s c u mul d out, g.IsSwigluChain i x a r silu b s up c u mul d out := by
  simp only [meowSwigluChain, Option.bind_eq_bind, Option.bind_eq_some_iff, guard_eq_some,
    Option.pure_def, Option.some.injEq, exists_const] at h
  obtain ⟨r, hr, silu, hsilu, s, hs, up', hup, u, hu, mul, hmul, out, hout, -, ⟨h₁, h₂⟩,
    ⟨h₃, -, h₅, h₆⟩, ⟨h₇, h₈, h₉, h₁₀, h₁₁, h₁₂, h₁₃⟩, h₁₄, -, ⟨h₁₆, h₁₇, h₁₈, h₁₉, h₂₀⟩, x, hx,
    ⟨h₂₁, -, h₂₃⟩, ⟨h₂₄, h₂₅, h₂₆⟩, rfl⟩ := h
  obtain ⟨a, r', hrt₁⟩ := isRoundTrip_of_src h₇ hx
  obtain ⟨b, s', hrt₂⟩ := isRoundTrip_of_src h₈ h₉
  obtain ⟨c, u', hrt₃⟩ := isRoundTrip_of_src h₁₀ h₁₁
  obtain ⟨d, out', hrt₄⟩ := isRoundTrip_of_src h₁₂ h₁₃
  cases hr.symm.trans hrt₁.snd
  cases hs.symm.trans hrt₂.snd
  cases hu.symm.trans hrt₃.snd
  cases hout.symm.trans hrt₄.snd
  simp only [areSameShape, beq_iff_eq] at h₂₁ h₂₃
  exact ⟨x, a, r, silu, b, s, c, u, mul, d, out, hrt₁, hsilu, hrt₂, hup, hrt₃, hmul, hrt₄, h₁, h₂,
    h₃, h₅, h₆, h₁₄, isInternal_of h₁₆ hr, isInternal_of h₁₇ hsilu, isInternal_of h₁₈ hs,
    isInternal_of h₁₉ hu, isInternal_of h₂₀ hmul, h₂₁, h₂₃, h₂₄, h₂₅, h₂₆⟩

end Cgraph

end Fuse
