import Mathlib.Data.Fintype.Fin
import SuprMeow.Fuse.Windows

/-!
# The patched loop against the unfused graph

Every launch of the loop leads from memories that agree on what still matters to memories that
agree on it, apart from two kinds of windows the matchers accept.  A residual chain may have a
rounded operand that the addition repeats; its kernel asserts equal sizes.  A norm chain may have an
input that starts where the output does with longer strides; an element written early then lies over
one still to be read.

* `Safe` — the launch is neither;
* `fusion_preserves` — runs whose launches are all safe;
* `safe_of_plain` — inputs that are contiguous or apart, operands that are not repeated;
* `evaluation_completes` — the loop reaches the end of the graph;
* `fusion_differs` — a graph of each kind.
-/

set_option autoImplicit false

namespace Fuse

open ByteMemory Strided Runs

namespace Cgraph

variable {T : Type} [DecidableEq T] {g : Cgraph T} {B : Backend T} {level : FuseLevel} {i : Nat}
  {M N : Mem}

/-! ## What the loop launches -/

theorem normLaunch_cases {l : Launch T} (h : g.normLaunch level i = some l) :
    ∃ x w rms a r mul b out, g.IsNormChain i x w rms a r mul b out ∧ l = .norm rms x w out := by
  simp only [normLaunch, Option.bind_eq_bind, Option.bind_eq_some_iff, Option.pure_def,
    Option.some.injEq] at h
  obtain ⟨w, hw, rms, hrms, x, hx, out, hout, rfl⟩ := h
  obtain ⟨x', rms', a, r, mul, b, out', hchain⟩ := isNormChain_of hw
  rw [nodeSrc0_eq hrms] at hx
  cases hrms.symm.trans hchain.at_rms
  cases hx.symm.trans hchain.src_rms
  cases hout.symm.trans hchain.rt₂.snd
  exact ⟨x, w, rms, a, r, mul, b, out, hchain, rfl⟩

theorem swigluLaunch_cases {l : Launch T} (h : g.swigluLaunch level i = some l) :
    ∃ x a r silu b s up c u mul d out, g.IsSwigluChain i x a r silu b s up c u mul d out ∧
      l = .swiglu x up out := by
  simp only [swigluLaunch, Option.bind_eq_bind, Option.bind_eq_some_iff, Option.pure_def,
    Option.some.injEq] at h
  obtain ⟨up, hup, x, hx, out, hout, rfl⟩ := h
  obtain ⟨x', a, r, silu, b, s, c, u, mul, d, out', hchain⟩ := isSwigluChain_of hup
  rw [nodeSrc0_eq hchain.rt₁.fst] at hx
  cases hx.symm.trans hchain.rt₁.src_fst
  cases hout.symm.trans hchain.rt₄.snd
  exact ⟨x, a, r, silu, b, s, up, c, u, mul, d, out, hchain, rfl⟩

theorem addLaunch_cases {l : Launch T} (h : g.addLaunch level i = some l) :
    ∃ m other a r add b out, g.IsAddChain i m other a r add b out ∧ l = .add m other out := by
  simp only [addLaunch, Option.bind_eq_bind, Option.bind_eq_some_iff, Option.pure_def,
    Option.some.injEq] at h
  obtain ⟨other, hother, m, hm, out, hout, rfl⟩ := h
  obtain ⟨m', a, r, add, b, out', hchain⟩ := isAddChain_of hother
  rw [nodeSrc0_eq hchain.rt₁.fst] at hm
  cases hm.symm.trans hchain.rt₁.src_fst
  cases hout.symm.trans hchain.rt₂.snd
  exact ⟨m, other, a, r, add, b, out, hchain, rfl⟩

theorem castLaunch_cases {l : Launch T} (h : g.castLaunch level i = some l) :
    ∃ x a b, g.IsRoundTrip i x a b ∧ meowSameOrDisjoint (g.tensor x) (g.tensor b) = true ∧
      l = .cast x b := by
  simp only [castLaunch, Option.bind_eq_bind, Option.bind_eq_some_iff, Option.pure_def,
    Option.some.injEq, guard_eq_some, exists_const, meowBf16RoundtripFusable,
    Bool.and_eq_true] at h
  obtain ⟨⟨⟨-, hrt⟩, hdisj⟩, x, hx, b, hb, rfl⟩ := h
  rw [hx, hb] at hdisj
  obtain ⟨a, b', hrt⟩ := isRoundTrip_of_src hrt hx
  cases hb.symm.trans hrt.snd
  exact ⟨x, a, b, hrt, hdisj, rfl⟩

/-- What the loop finds at a node. -/
inductive Dispatched (g : Cgraph T) (i : Nat) (node : T) : Launch T → Prop
  | skip (h : g.skipped node = true) : Dispatched g i node .skip
  | forward (h : g.skipped node = false) : Dispatched g i node (.forward node)
  | norm {x w rms a r mul b out : T} (h : g.skipped node = false)
      (hchain : g.IsNormChain i x w rms a r mul b out) : Dispatched g i node (.norm rms x w out)
  | swiglu {x a r silu b s up c u mul d out : T} (h : g.skipped node = false)
      (hchain : g.IsSwigluChain i x a r silu b s up c u mul d out) :
      Dispatched g i node (.swiglu x up out)
  | add {m other a r add b out : T} (h : g.skipped node = false)
      (hchain : g.IsAddChain i m other a r add b out) : Dispatched g i node (.add m other out)
  | cast {x a b : T} (h : g.skipped node = false) (hrt : g.IsRoundTrip i x a b)
      (hdisj : meowSameOrDisjoint (g.tensor x) (g.tensor b) = true) :
      Dispatched g i node (.cast x b)

theorem dispatched {node : T} (hnode : g.nodes[i]? = some node) :
    g.Dispatched i node (g.dispatch level i) := by
  simp only [dispatch, hnode]
  split
  · rename_i h
    exact .skip h
  · rename_i h
    rw [Bool.not_eq_true] at h
    cases hnorm : g.normLaunch level i with
    | some l =>
      obtain ⟨x, w, rms, a, r, mul, b, out, hchain, rfl⟩ := normLaunch_cases hnorm
      exact .norm h hchain
    | none =>
    cases hswiglu : g.swigluLaunch level i with
    | some l =>
      obtain ⟨x, a, r, silu, b, s, up, c, u, mul, d, out, hchain, rfl⟩ := swigluLaunch_cases hswiglu
      exact .swiglu h hchain
    | none =>
    cases hadd : g.addLaunch level i with
    | some l =>
      obtain ⟨m, other, a, r, add, b, out, hchain, rfl⟩ := addLaunch_cases hadd
      exact .add h hchain
    | none =>
    cases hcast : g.castLaunch level i with
    | some l =>
      obtain ⟨x, a, b, hrt, hdisj, rfl⟩ := castLaunch_cases hcast
      exact .cast h hrt hdisj
    | none => exact .forward h

/-! ## Safe launches -/

/-- The rounded operand of a residual chain is not repeated. -/
def SizesMatch (g : Cgraph T) : Launch T → Prop
  | .add m _ out => (g.tensor m).nelements = (g.tensor out).nelements
  | _ => True

/-- No operand is repeated, and a norm chain writes no element over another one it reads. -/
def Safe (g : Cgraph T) (l : Launch T) : Prop :=
  g.SizesMatch l ∧ ∀ rms x w out, l = .norm rms x w out →
    ElementsApart (g.tensor x) (g.tensor out)

omit [DecidableEq T] in
theorem pos_of_not_skipped {t : T} (h : g.skipped t = false) : 0 < (g.tensor t).nelements := by
  by_contra hzero
  have hempty : (g.tensor t).isEmpty = true := Tensor.isEmpty_iff.2 (by omega)
  simp [skipped, hempty] at h

/-- **A safe launch keeps the agreement.** -/
theorem launch_step (hwf : g.WellFormed B) (hvalid : g.AllocationValid) {node : T} {l : Launch T}
    (hnode : g.nodes[i]? = some node) (h : g.Dispatched i node l) (hsafe : g.Safe l)
    (hagree : g.AgreeLive i (g.unfused B M i) N) (ord : Schedule) :
    ∃ N', g.run B ord N l = some N' ∧
      g.AgreeLive (i + l.width) (g.unfused B M (i + l.width)) N' := by
  have hplain := agreeLive_evaluate hwf hnode hagree
  rw [← unfused_succ hnode] at hplain
  cases h with
  | skip h =>
    rw [evaluate, if_pos h] at hplain
    exact ⟨N, rfl, hplain⟩
  | forward h =>
    rw [evaluate, h] at hplain
    exact ⟨_, rfl, hplain⟩
  | norm h hchain =>
    cases hnode.symm.trans hchain.at_rms
    exact norm_step hwf hvalid hchain (hsafe.2 _ _ _ _ rfl) hagree ord
  | swiglu h hchain =>
    cases hnode.symm.trans hchain.rt₁.fst
    have hpos := pos_of_not_skipped h
    rw [Tensor.nelements, hchain.rt₁.ne_fst hwf] at hpos
    exact swiglu_step hwf hvalid hchain hpos hagree ord
  | add h hchain =>
    cases hnode.symm.trans hchain.rt₁.fst
    have hpos := pos_of_not_skipped h
    rw [Tensor.nelements, hchain.rt₁.ne_fst hwf] at hpos
    exact add_step hwf hvalid hchain hpos hsafe.1 hagree ord
  | cast h hrt hdisj => exact cast_step hwf hvalid hrt hdisj hagree ord

/-- **The assertions of a launch hold exactly when no rounded operand is repeated.** -/
theorem run_isSome_iff (hwf : g.WellFormed B) {node : T} {l : Launch T}
    (h : g.Dispatched i node l) (ord : Schedule) :
    (g.run B ord N l).isSome = true ↔ g.SizesMatch l := by
  cases h with
  | skip => exact iff_of_true rfl trivial
  | forward => exact iff_of_true rfl trivial
  | norm _ hchain =>
    rw [hchain.run hwf ord]
    exact iff_of_true rfl trivial
  | swiglu _ hchain =>
    rw [hchain.run hwf ord]
    exact iff_of_true rfl trivial
  | add _ hchain =>
    rw [hchain.run ord]
    simp [SizesMatch]
  | cast _ hrt _ =>
    rw [hrt.run ord]
    exact iff_of_true rfl trivial

theorem evaluation_step (hwf : g.WellFormed B) (hvalid : g.AllocationValid) {s : Evaluation}
    (hlt : s.pos < g.nodes.length) (hsafe : g.Safe (g.dispatch level s.pos))
    (hagree : g.AgreeLive s.pos (g.unfused B M s.pos) s.mem) (ord : Schedule) :
    ∃ s', (g.evaluation B level M).step s ord = some s' ∧
      g.AgreeLive s'.pos (g.unfused B M s'.pos) s'.mem := by
  have hnode : g.nodes[s.pos]? = some g.nodes[s.pos] := List.getElem?_eq_getElem hlt
  obtain ⟨N', hrun, hnext⟩ := launch_step hwf hvalid hnode (dispatched hnode) hsafe hagree ord
  exact ⟨⟨_, N'⟩, by simp [evaluation, hlt, hrun], hnext⟩

/-- Agreement on what still matters shows in every visible tensor. -/
theorem preserved_of_agreeLive (hwf : g.WellFormed B) {s : Evaluation}
    (h : g.AgreeLive s.pos (g.unfused B M s.pos) s.mem) : g.Preserved B M s := by
  rintro t ⟨hready, hread⟩
  obtain ⟨hr, hwithin⟩ := hwf.root_owner t
  exact ((h _ hr hready ⟨t, rfl, hread⟩).within hwithin).symm

theorem step_isSome_iff (hwf : g.WellFormed B) {s : Evaluation} (hlt : s.pos < g.nodes.length)
    (ord : Schedule) : ((g.evaluation B level M).step s ord).isSome = true ↔
      g.SizesMatch (g.dispatch level s.pos) := by
  have hnode : g.nodes[s.pos]? = some g.nodes[s.pos] := List.getElem?_eq_getElem hlt
  rw [← run_isSome_iff (N := s.mem) hwf (dispatched hnode) ord]
  simp only [evaluation, hlt, if_true]
  cases g.run B ord s.mem (g.dispatch level s.pos) <;> rfl

/-- **In every state of a run whose launches are all safe, each visible tensor has the value of the
unfused execution, and the assertions of the next launch hold exactly when it repeats no rounded
operand.** -/
theorem fusion_preserves (hwf : g.WellFormed B) (hvalid : g.AllocationValid) {ords : List Schedule}
    {s : Evaluation}
    (hsafe : (g.evaluation B level M).Guarded (fun s _ => g.Safe (g.dispatch level s.pos)) ⟨0, M⟩
      ords)
    (hrun : (g.evaluation B level M).exec ⟨0, M⟩ ords = some s) :
    g.Preserved B M s ∧ (s.pos < g.nodes.length → ∀ ord,
      (((g.evaluation B level M).step s ord).isSome = true ↔
        g.SizesMatch (g.dispatch level s.pos))) := by
  have hagree : g.AgreeLive s.pos (g.unfused B M s.pos) s.mem := by
    refine Machine.guarded_invariant _ (I := fun s =>
      g.AgreeLive s.pos (g.unfused B M s.pos) s.mem) ?_ (fun r _ _ _ => AgreeOn.refl _ _) hsafe hrun
    intro s ord s' hs hok hstep
    have hlt : s.pos < g.nodes.length := by
      by_contra hge
      simp [evaluation, hge] at hstep
    obtain ⟨t, ht, hnext⟩ := evaluation_step hwf hvalid hlt hok hs ord
    cases hstep.symm.trans ht
    exact hnext
  exact ⟨preserved_of_agreeLive hwf hagree, fun hlt ord => step_isSome_iff hwf hlt ord⟩

/-- A launch stays within the graph and takes at least one node. -/
theorem Dispatched.width {node : T} {l : Launch T} (h : g.Dispatched i node l)
    (hi : i < g.nodes.length) : 0 < l.width ∧ i + l.width ≤ g.nodes.length := by
  have hlast : ∀ {p t}, g.nodes[p]? = some t → p < g.nodes.length := fun ht =>
    (List.getElem?_eq_some_iff.1 ht).1
  cases h with
  | skip => exact ⟨Nat.one_pos, hi⟩
  | forward => exact ⟨Nat.one_pos, hi⟩
  | norm _ hchain => exact ⟨Nat.succ_pos _, hlast hchain.rt₂.snd⟩
  | swiglu _ hchain => exact ⟨Nat.succ_pos _, hlast hchain.rt₄.snd⟩
  | add _ hchain => exact ⟨Nat.succ_pos _, hlast hchain.rt₂.snd⟩
  | cast _ hrt => exact ⟨Nat.succ_pos _, hlast hrt.snd⟩

/-- **The loop reaches the end of the graph** with at most one launch a node, when no launch repeats
a rounded operand. -/
theorem evaluation_completes (hwf : g.WellFormed B)
    (hsizes : ∀ p < g.nodes.length, g.SizesMatch (g.dispatch level p)) :
    ∀ (ords : List Schedule) (s : Evaluation), s.pos ≤ g.nodes.length →
      g.nodes.length ≤ s.pos + ords.length →
        ∃ pre s', pre <+: ords ∧ (g.evaluation B level M).exec s pre = some s' ∧
          s'.pos = g.nodes.length := by
  intro ords
  induction ords with
  | nil => exact fun s hle hge => ⟨[], s, List.nil_prefix, rfl, Nat.le_antisymm hle hge⟩
  | cons ord ords ih =>
    intro s hle hge
    rcases Nat.lt_or_ge s.pos g.nodes.length with hlt | hend
    swap
    · exact ⟨[], s, List.nil_prefix, rfl, Nat.le_antisymm hle hend⟩
    have hnode : g.nodes[s.pos]? = some g.nodes[s.pos] := List.getElem?_eq_getElem hlt
    have hlaunch : g.Dispatched s.pos g.nodes[s.pos] (g.dispatch level s.pos) := dispatched hnode
    obtain ⟨hpos, hwidth⟩ := hlaunch.width hlt
    obtain ⟨N, hN⟩ := Option.isSome_iff_exists.1
      ((run_isSome_iff (N := s.mem) hwf hlaunch ord).2 (hsizes s.pos hlt))
    have hstep : (g.evaluation B level M).step s ord =
        some ⟨s.pos + (g.dispatch level s.pos).width, N⟩ := by
      simp [evaluation, hlt, hN]
    rw [List.length_cons] at hge
    obtain ⟨pre, s', hpre, hrun, hdone⟩ :=
      ih ⟨s.pos + (g.dispatch level s.pos).width, N⟩ hwidth (by simp only []; omega)
    exact ⟨ord :: pre, s', List.cons_prefix_cons.2 ⟨rfl, hpre⟩,
      (Machine.exec_cons _).2 ⟨_, hstep, hrun⟩, hdone⟩

/-- A chain that repeats no operand, and whose input is apart from its output or has its layout. -/
theorem safe_of_plain (hwf : g.WellFormed B) {node : T} {l : Launch T}
    (h : g.Dispatched i node l) (hsizes : g.SizesMatch l)
    (hx : ∀ rms x w out, l = .norm rms x w out →
      (g.tensor x).data = (g.tensor out).data → (g.tensor x).isContiguous = true) :
    g.Safe l := by
  refine ⟨hsizes, ?_⟩
  rintro rms x w out rfl
  cases h with
  | norm _ hchain =>
    obtain ⟨hxt, hxne, -, -⟩ := hchain.shapes hwf
    have hne := hxne.trans hchain.shape_out
    rcases sameOrDisjoint_iff.1 hchain.x_out with hsame | hdisj
    · exact elementsApart_of_same hxt (hx _ _ _ _ rfl hsame) hchain.rt₂.type_snd
        hchain.rt₂.contiguous hne hsame
    · exact elementsApart_of_disjoint hxt hchain.rt₂.type_snd hne (by simpa [meowDisjoint] using hdisj)

/-! ## Where the matchers accept too much -/

/-- A contiguous tensor of `d0` by `d1` elements. -/
def plainTensor {T : Type} (op : GgmlOp) (type : GgmlType) (d0 d1 : Nat) (src : List T)
    (data : Nat) : Tensor T where
  op := op
  type := type
  ne := ⟨d0, d1, 1, 1⟩
  nb := ⟨type.typeSize, type.typeSize * d0, type.typeSize * d0 * d1, type.typeSize * d0 * d1⟩
  eps := fun _ => 0
  output := false
  compute := true
  viewSrc := none
  src := fun k => src[k.val]?
  data := data

/-- Arithmetic on the bytes. -/
def bytewise (T : Type) : Backend T where
  bf16 x := fun k => x (k.castLE (by decide))
  f32 y := fun k => if h : k.val < 2 then y ⟨k.val, h⟩ else 0
  silu x := x
  mul x y := fun k => x k + y k
  add x y := fun k => x k + y k
  scale _ _ := fun _ => 0
  nonneg _ := true
  other _ _ _ := 0
  mul_comm x y := funext fun k => UInt8.add_comm (x k) (y k)
  add_comm x y := funext fun k => UInt8.add_comm (x k) (y k)

/-- The sum of two numbers and of `n` rounded ones, rounded. -/
def residualGraph (n : Nat) : Cgraph (Fin 7) where
  nodes := [2, 3, 4, 5, 6]
  tensor
    | 0 => plainTensor .none .f32 n 1 [] 0
    | 1 => plainTensor .none .f32 2 1 [] 16
    | 2 => plainTensor .cpy .bf16 n 1 [0, 2] 32
    | 3 => plainTensor .cpy .f32 n 1 [2, 3] 48
    | 4 => plainTensor .add .f32 2 1 [1, 3] 64
    | 5 => plainTensor .cpy .bf16 2 1 [4, 5] 80
    | 6 => { plainTensor .cpy .f32 2 1 [5, 6] 96 with output := true }

/-- A norm of the first column of three rows of two, put over the rows. -/
def columnGraph : Cgraph (Fin 9) where
  nodes := [2, 3, 4, 5, 6, 7, 8]
  tensor
    | 0 => plainTensor .none .f32 2 3 [] 0
    | 1 => plainTensor .none .f32 1 1 [] 24
    | 2 => { plainTensor .view .f32 1 3 [0] 0 with nb := ⟨4, 8, 24, 24⟩, viewSrc := some 0 }
    | 3 => plainTensor .rmsNorm .f32 1 3 [2] 32
    | 4 => plainTensor .cpy .bf16 1 3 [3, 4] 48
    | 5 => plainTensor .cpy .f32 1 3 [4, 5] 64
    | 6 => plainTensor .mul .f32 1 3 [5, 1] 80
    | 7 => plainTensor .cpy .bf16 1 3 [6, 7] 96
    | 8 => { plainTensor .cpy .f32 1 3 [7, 8] 0 with output := true }

theorem residual_wellFormed {n : Nat} (h : n = 1 ∨ n = 2) :
    (residualGraph n).WellFormed (bytewise _) ∧ (residualGraph n).AllocationValid := by
  rcases h with rfl | rfl
  all_goals
    exact ⟨⟨by decide, by decide, by decide, by decide, by decide, by decide, by decide, by decide,
      by decide, by decide, by decide, by decide, by decide⟩, by unfold AllocationValid; decide⟩

theorem column_wellFormed :
    columnGraph.WellFormed (bytewise _) ∧ columnGraph.AllocationValid :=
  ⟨⟨by decide, by decide, by decide, by decide, by decide, by decide, by decide, by decide,
    by decide, by decide, by decide, by decide, by decide⟩, by unfold AllocationValid; decide⟩

/-- One block or row after another. -/
def inTurn (ord : Order) : Schedule := ⟨ord, rowsInTurn ord⟩

def ascending : Schedule := inTurn fun n => ⟨List.range n, List.Perm.refl _⟩

/-- The other way round. -/
def descending : Schedule := inTurn fun n => ⟨(List.range n).reverse, List.reverse_perm _⟩

/-- A memory whose first bytes tell the rows of a column apart. -/
def counting : Mem := fun b => if b < 24 then UInt8.ofNat b else 0

/-- **The matchers accept a residual chain whose kernel fails, and a norm chain whose rows overwrite
each other.** -/
theorem fusion_differs :
    ((residualGraph 1).WellFormed (bytewise _) ∧ (residualGraph 1).AllocationValid ∧
      ¬ (residualGraph 1).FusionPreserves (bytewise _) 2) ∧
    (columnGraph.WellFormed (bytewise _) ∧ columnGraph.AllocationValid ∧
      ¬ columnGraph.FusionPreserves (bytewise _) 2) := by
  obtain ⟨hwf₁, hvalid₁⟩ := residual_wellFormed (.inl rfl)
  obtain ⟨hwf₂, hvalid₂⟩ := column_wellFormed
  refine ⟨⟨hwf₁, hvalid₁, fun h => ?_⟩, hwf₂, hvalid₂, fun h => ?_⟩
  · -- one rounded number, added to each of the two
    have hstep := (h (fun _ => 0) [] ⟨0, fun _ => 0⟩ rfl).2 (by decide) ascending
    exact absurd hstep (by decide)
  · -- the last row is written over the second before that is read
    have hvisible : columnGraph.Visible 7 8 := ⟨by decide, .inl rfl⟩
    have hout := (h counting [descending, descending] _ rfl).1 8 hvisible 4 (by decide)
    exact absurd hout (by decide)

/-- Two rounded numbers, added to two. -/
theorem fusion_preserves_residual : ∃ N,
    ((residualGraph 2).evaluation (bytewise _) 2 counting).exec ⟨0, counting⟩ [ascending] =
      some ⟨5, N⟩ ∧ (residualGraph 2).Preserved (bytewise _) counting ⟨5, N⟩ := by
  obtain ⟨hwf, hvalid⟩ := residual_wellFormed (.inr rfl)
  have hdispatch : (residualGraph 2).dispatch 2 0 = .add 0 1 6 := by decide
  have hlaunch : (residualGraph 2).Safe ((residualGraph 2).dispatch 2 0) := by
    refine safe_of_plain hwf (dispatched rfl) ?_ fun rms x w out h => ?_
    · rw [hdispatch]
      exact rfl
    · rw [hdispatch] at h
      cases h
  have hsafe : ((residualGraph 2).evaluation (bytewise _) 2 counting).Guarded
      (fun s _ => (residualGraph 2).Safe ((residualGraph 2).dispatch 2 s.pos)) ⟨0, counting⟩
      [ascending] := ⟨hlaunch, fun _ _ => trivial⟩
  exact ⟨_, rfl, (fusion_preserves hwf hvalid hsafe rfl).1⟩

end Cgraph

end Fuse
