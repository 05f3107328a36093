import Mathlib.Data.Fintype.Basic
import SuprMeow.Library.ByteMemory
import SuprMeow.Library.Strided

/-!
# Compute graphs and the unfused execution

The part of ggml that `llama-bf16-chain-fuse.patch` rests on: tensors with extents, strides and a
byte address, a graph as a list of nodes, use counts, and the execution of the nodes one after
another on byte memory.

The operations that occur in a fused chain are written out over abstract arithmetic; every other
operation is an arbitrary function of the bytes it reads.  A node replaces the bytes of its own
tensor at once, also where the allocator has put it over one of its sources.

* `Cgraph.WellFormed` — what the constructors of ggml guarantee;
* `Cgraph.AllocationValid` — a node's buffer overlaps only tensors without a later use;
* `result_congr` — a node computes the same bytes from memories that agree on what it reads.
-/

set_option autoImplicit false

namespace Fuse

open ByteMemory Strided

abbrev F32 := Word 4
abbrev Bf16 := Word 2

inductive GgmlType where
  | f32
  | bf16
  | other (typeSize blckSize : Nat)
  deriving DecidableEq

def GgmlType.typeSize : GgmlType → Nat
  | .f32 => 4
  | .bf16 => 2
  | .other s _ => s

def GgmlType.blckSize : GgmlType → Nat
  | .f32 => 1
  | .bf16 => 1
  | .other _ b => b

inductive UnaryOp where
  | silu
  | other (op : Nat)
  deriving DecidableEq

inductive GgmlOp where
  | none
  | reshape
  | view
  | permute
  | transpose
  | cpy
  | rmsNorm
  | mul
  | add
  | unary (op : UnaryOp)
  | mulMat
  | other (op : Nat)
  deriving DecidableEq

def GgmlOp.isUnary : GgmlOp → Bool
  | .unary _ => true
  | _ => false

/-- `GGML_MAX_SRC` -/
abbrev ggmlMaxSrc : Nat := 10

instance : NeZero ggmlMaxSrc := ⟨by decide⟩

/-- `ggml_tensor`; `T` stands for the pointers. -/
structure Tensor (T : Type) where
  op : GgmlOp
  type : GgmlType
  ne : Dims
  nb : Dims
  eps : F32  -- `op_params` of an `RMS_NORM`
  output : Bool
  compute : Bool
  viewSrc : Option T
  src : Fin ggmlMaxSrc → Option T
  data : Nat

namespace Tensor

variable {T : Type} (τ : Tensor T)

def nelements : Nat := τ.ne.count

def isEmpty : Bool := τ.nelements == 0

/-- `ggml_nbytes` -/
def nbytes : Nat :=
  if τ.nelements = 0 then 0
  else if τ.type.blckSize = 1 then τ.type.typeSize + τ.ne.last τ.nb
  else τ.ne.d0 * τ.nb.d0 / τ.type.blckSize + (τ.ne.d1 - 1) * τ.nb.d1 + (τ.ne.d2 - 1) * τ.nb.d2 +
    (τ.ne.d3 - 1) * τ.nb.d3

/-- `ggml_is_contiguous` -/
def isContiguous : Bool :=
  let next1 := τ.type.typeSize * (τ.ne.d0 / τ.type.blckSize)
  let next2 := next1 * τ.ne.d1
  let next3 := next2 * τ.ne.d2
  (τ.ne.d0 == τ.type.blckSize || τ.nb.d0 == τ.type.typeSize) &&
    (τ.ne.d1 == 1 || τ.nb.d1 == next1) && (τ.ne.d2 == 1 || τ.nb.d2 == next2) &&
    (τ.ne.d3 == 1 || τ.nb.d3 == next3)

/-- The bytes from the first to the last element. -/
def region : Region := ⟨τ.data, τ.nbytes⟩

def addr (i : Dims) : Nat := τ.data + i.dot τ.nb

/-- Element `e`, of `k` bytes, in the order of the extents. -/
def elem (k : Nat) (M : Mem) (e : Nat) : Word k := load k M (τ.addr (τ.ne.unravel e))

/-- The element an operand repeated over an array of extents `ne` has there as element `e`. -/
def elemRepeated (k : Nat) (M : Mem) (ne : Dims) (e : Nat) : Word k :=
  load k M (τ.addr ((ne.unravel e).wrap τ.ne))

def row (M : Mem) (r : Nat) : List F32 :=
  (List.range τ.ne.d0).map fun c => τ.elem 4 M (τ.ne.d0 * r + c)

def content (M : Mem) : List UInt8 := (List.range τ.nbytes).map fun j => M (τ.data + j)

end Tensor

/-- `ggml_are_same_shape` -/
def areSameShape {T : Type} (x y : Tensor T) : Bool := x.ne == y.ne

/-- `ggml_can_repeat` -/
def canRepeat {T : Type} (x y : Tensor T) : Bool :=
  if x.isEmpty then y.isEmpty
  else y.ne.d0 % x.ne.d0 == 0 && y.ne.d1 % x.ne.d1 == 0 && y.ne.d2 % x.ne.d2 == 0 &&
    y.ne.d3 % x.ne.d3 == 0

/-! ## Elements -/

namespace Tensor

variable {T : Type} {τ : Tensor T} {M N : Mem} {k e : Nat}

theorem isEmpty_iff : τ.isEmpty = true ↔ τ.nelements = 0 := by
  simp [isEmpty]

theorem rowMajor (h : τ.isContiguous = true) (hb : τ.type.blckSize = 1) :
    Dims.RowMajor τ.type.typeSize τ.ne τ.nb := by
  simp only [isContiguous, hb, Nat.div_one, Bool.and_eq_true, Bool.or_eq_true, beq_iff_eq] at h
  obtain ⟨⟨⟨h0, h1⟩, h2⟩, h3⟩ := h
  exact ⟨h0.resolve_left, h1.resolve_left, fun hn => by rw [h2.resolve_left hn, Nat.mul_assoc],
    fun hn => by rw [h3.resolve_left hn]; simp only [Nat.mul_assoc]⟩

theorem nbytes_of_pos (hb : τ.type.blckSize = 1) (hpos : 0 < τ.nelements) :
    τ.nbytes = τ.type.typeSize + τ.ne.last τ.nb := by
  rw [nbytes, if_neg (Nat.pos_iff_ne_zero.1 hpos), if_pos hb]

theorem nbytes_of_contiguous (h : τ.isContiguous = true) (hb : τ.type.blckSize = 1) :
    τ.nbytes = τ.type.typeSize * τ.nelements := by
  by_cases hpos : τ.nelements = 0
  · rw [nbytes, if_pos hpos, hpos, Nat.mul_zero]
  · rw [nbytes_of_pos hb (Nat.pos_of_ne_zero hpos), nelements,
      (rowMajor h hb).last_eq (Nat.pos_of_ne_zero hpos)]

theorem region_of_contiguous (h : τ.isContiguous = true) (hb : τ.type.blckSize = 1) :
    τ.region = ⟨τ.data, τ.type.typeSize * τ.nelements⟩ := by
  rw [region, nbytes_of_contiguous h hb]

theorem addr_of_contiguous (h : τ.isContiguous = true) (hb : τ.type.blckSize = 1)
    (he : e < τ.nelements) : τ.addr (τ.ne.unravel e) = τ.data + τ.type.typeSize * e := by
  rw [addr, (rowMajor h hb).dot_unravel he]

/-- An element lies between the first byte and the last. -/
theorem elem_within (hb : τ.type.blckSize = 1) (hpos : 0 < τ.nelements) {i : Dims}
    (hi : i.Below τ.ne) : (⟨τ.addr i, τ.type.typeSize⟩ : Region).Within τ.region := by
  have hlast := Dims.dot_le_last hi τ.nb
  have hbytes := nbytes_of_pos hb hpos
  constructor
  · exact Nat.le_add_right ..
  · simp only [region, addr, hbytes]
    omega

theorem elem_congr (hb : τ.type.blckSize = 1) (hk : τ.type.typeSize = k) (he : e < τ.nelements)
    (h : AgreeOn τ.region M N) : τ.elem k M e = τ.elem k N e := by
  subst hk
  exact load_congr (h.within
    (elem_within hb (Nat.zero_lt_of_lt he) (Dims.unravel_below he)))

/-- The extents of an operand that can be repeated over a nonempty array are positive. -/
theorem repeat_below {y : Tensor T} (h : canRepeat τ y = true) (he : e < y.nelements) :
    0 < τ.nelements ∧ ((y.ne.unravel e).wrap τ.ne).Below τ.ne := by
  have hpos : 0 < τ.nelements := by
    by_contra hzero
    have hx : τ.isEmpty = true := isEmpty_iff.2 (by omega)
    rw [canRepeat, if_pos hx, isEmpty_iff] at h
    omega
  exact ⟨hpos, Dims.wrap_below (Dims.unravel_below hpos) _⟩

theorem elemRepeated_congr {y : Tensor T} (hb : τ.type.blckSize = 1) (hk : τ.type.typeSize = k)
    (hr : canRepeat τ y = true) (he : e < y.nelements) (h : AgreeOn τ.region M N) :
    τ.elemRepeated k M y.ne e = τ.elemRepeated k N y.ne e := by
  subst hk
  obtain ⟨hpos, hbelow⟩ := repeat_below hr he
  exact load_congr (h.within (elem_within hb hpos hbelow))

theorem canRepeat_congr {y z : Tensor T} (h : y.ne = z.ne) : canRepeat τ y = canRepeat τ z := by
  unfold canRepeat isEmpty nelements
  rw [h]

/-- An operand that can be repeated and has as many elements is of the same shape. -/
theorem ne_of_canRepeat {y : Tensor T} (h : canRepeat τ y = true)
    (hn : τ.nelements = y.nelements) (hpos : 0 < y.nelements) : τ.ne = y.ne := by
  have hx : τ.isEmpty = false := by
    rw [← Bool.not_eq_true, isEmpty_iff]
    omega
  simp only [canRepeat, hx, Bool.false_eq_true, if_false, Bool.and_eq_true, beq_iff_eq] at h
  obtain ⟨⟨⟨h0, h1⟩, h2⟩, h3⟩ := h
  obtain ⟨q0, h0⟩ := Nat.dvd_of_mod_eq_zero h0
  obtain ⟨q1, h1⟩ := Nat.dvd_of_mod_eq_zero h1
  obtain ⟨q2, h2⟩ := Nat.dvd_of_mod_eq_zero h2
  obtain ⟨q3, h3⟩ := Nat.dvd_of_mod_eq_zero h3
  have hprod : y.nelements = τ.nelements * (q0 * q1 * q2 * q3) := by
    simp only [nelements, Dims.count, h0, h1, h2, h3]
    ring
  have hone : q0 * q1 * q2 * q3 = 1 := by
    rw [hn] at hprod
    exact Nat.eq_of_mul_eq_mul_left hpos (by rw [← hprod, Nat.mul_one])
  have hq3 := Nat.eq_one_of_mul_eq_one_left hone
  have h012 := Nat.eq_one_of_mul_eq_one_right hone
  have hq2 := Nat.eq_one_of_mul_eq_one_left h012
  have h01 := Nat.eq_one_of_mul_eq_one_right h012
  have hq1 := Nat.eq_one_of_mul_eq_one_left h01
  have hq0 := Nat.eq_one_of_mul_eq_one_right h01
  cases hτ : τ.ne
  cases hy : y.ne
  simp_all

/-- An operand of the same extents is not repeated. -/
theorem elemRepeated_of_same {ne : Dims} (h : τ.ne = ne) (he : e < τ.nelements) :
    τ.elemRepeated k M ne e = τ.elem k M e := by
  subst h
  rw [elemRepeated, elem, Dims.wrap_of_below (Dims.unravel_below he)]

theorem row_lt {r c : Nat} (hr : r < τ.ne.rows) (hc : c < τ.ne.d0) :
    τ.ne.d0 * r + c < τ.nelements := by
  rw [nelements, Dims.count_eq]
  calc τ.ne.d0 * r + c < τ.ne.d0 * r + τ.ne.d0 := Nat.add_lt_add_left hc _
    _ = τ.ne.d0 * (r + 1) := by rw [Nat.mul_add, Nat.mul_one]
    _ ≤ τ.ne.d0 * τ.ne.rows := Nat.mul_le_mul_left _ hr

theorem row_of_lt (he : e < τ.nelements) : e / τ.ne.d0 < τ.ne.rows := by
  rw [nelements, Dims.count_eq] at he
  exact Nat.div_lt_of_lt_mul he

section F32

/-! Elements of `f32` are words of four bytes. -/

theorem elem_congr_f32 (ht : τ.type = .f32) (he : e < τ.nelements) (h : AgreeOn τ.region M N) :
    τ.elem 4 M e = τ.elem 4 N e :=
  elem_congr (by rw [ht]; rfl) (by rw [ht]; rfl) he h

theorem elemRepeated_congr_f32 {y : Tensor T} (ht : τ.type = .f32) (hr : canRepeat τ y = true)
    (he : e < y.nelements) (h : AgreeOn τ.region M N) :
    τ.elemRepeated 4 M y.ne e = τ.elemRepeated 4 N y.ne e :=
  elemRepeated_congr (by rw [ht]; rfl) (by rw [ht]; rfl) hr he h

theorem row_congr {r : Nat} (ht : τ.type = .f32) (hr : r < τ.ne.rows)
    (h : AgreeOn τ.region M N) : τ.row M r = τ.row N r :=
  List.map_congr_left fun _ hc => elem_congr_f32 ht (row_lt hr (List.mem_range.1 hc)) h

theorem region_f32 (ht : τ.type = .f32) (hc : τ.isContiguous = true) :
    τ.region = ⟨τ.data, 4 * τ.nelements⟩ := by
  rw [region_of_contiguous hc (by rw [ht]; rfl), ht]
  rfl

theorem nbytes_f32 (ht : τ.type = .f32) (hc : τ.isContiguous = true) :
    τ.nbytes = 4 * τ.nelements := by
  rw [nbytes_of_contiguous hc (by rw [ht]; rfl), ht]
  rfl

theorem elem_f32 (ht : τ.type = .f32) (hc : τ.isContiguous = true) (he : e < τ.nelements) :
    τ.elem 4 M e = load 4 M (τ.data + 4 * e) := by
  rw [elem, addr_of_contiguous hc (by rw [ht]; rfl) he, ht]
  rfl

end F32

theorem content_congr (h : AgreeOn τ.region M N) : τ.content M = τ.content N :=
  List.map_congr_left fun _ hj => h _ ⟨Nat.le_add_right ..,
    Nat.add_lt_add_left (List.mem_range.1 hj) _⟩

end Tensor

/-- `ggml_cgraph` -/
structure Cgraph (T : Type) where
  tensor : T → Tensor T
  nodes : List T

/-- The arithmetic of the backend.  `other` is what every other operation computes: the bytes of a
node from those it reads. -/
structure Backend (T : Type) where
  bf16 : F32 → Bf16
  f32 : Bf16 → F32
  silu : F32 → F32
  mul : F32 → F32 → F32
  add : F32 → F32 → F32
  scale : F32 → List F32 → F32  -- of a row, with its epsilon
  nonneg : F32 → Bool
  other : T → List (List UInt8) → Nat → UInt8
  mul_comm : ∀ a b, mul a b = mul b a
  add_comm : ∀ a b, add a b = add b a

namespace Cgraph

variable {T : Type} [DecidableEq T] (g : Cgraph T)

/-- Every place where a node names `t` as a source. -/
def references (t : T) : List (T × Fin ggmlMaxSrc) :=
  g.nodes.flatMap fun n =>
    ((List.finRange ggmlMaxSrc).filter fun k => (g.tensor n).src k = some t).map (n, ·)

/-- `ggml_node_get_use_count` -/
def useCount (t : T) : Nat := (g.references t).length

/-- The owner of the buffer a tensor lies in. -/
def root (t : T) : T := (g.tensor t).viewSrc.getD t

/-! ## Execution -/

/-- What a node reads besides itself, and itself where it writes through a view. -/
def reads (t : T) : List T :=
  ((List.finRange ggmlMaxSrc).filterMap (g.tensor t).src).filter (· ≠ t) ++
    if (g.tensor t).viewSrc.isSome then [t] else []

/-- The operations that occur in a chain, on operands of the types that occur there; on any others
the node is one of the backend's `other` ones. -/
def chainOp (B : Backend T) (t : T) : Option (Mem → Nat → UInt8) :=
  let τ := g.tensor t
  match τ.op, (τ.src 0).map g.tensor, (τ.src 1).map g.tensor with
  | .cpy, some x, _ =>
    if x.type = .f32 ∧ τ.type = .bf16 then
      some fun M => words 2 fun e => B.bf16 (x.elem 4 M e)
    else if x.type = .bf16 ∧ τ.type = .f32 then
      some fun M => words 4 fun e => B.f32 (x.elem 2 M e)
    else none
  | .rmsNorm, some x, _ =>
    if x.type = .f32 ∧ τ.type = .f32 then
      some fun M => words 4 fun e =>
        B.mul (B.scale τ.eps (x.row M (e / x.ne.d0))) (x.elem 4 M e)
    else none
  | .unary .silu, some x, _ =>
    if x.type = .f32 ∧ τ.type = .f32 then
      some fun M => words 4 fun e => B.silu (x.elem 4 M e)
    else none
  | .mul, some a, some b =>
    if a.type = .f32 ∧ b.type = .f32 ∧ τ.type = .f32 then
      some fun M => words 4 fun e => B.mul (a.elem 4 M e) (b.elemRepeated 4 M a.ne e)
    else none
  | .add, some a, some b =>
    if a.type = .f32 ∧ b.type = .f32 ∧ τ.type = .f32 then
      some fun M => words 4 fun e => B.add (a.elem 4 M e) (b.elemRepeated 4 M a.ne e)
    else none
  | _, _, _ => none

/-- The bytes a node writes. -/
def result (B : Backend T) (t : T) (M : Mem) : Nat → UInt8 :=
  match if (g.tensor t).isContiguous then g.chainOp B t else none with
  | some f => f M
  | none => B.other t ((g.reads t).map fun u => (g.tensor u).content M)

/-- `ggml_cuda_compute_forward` -/
def computeForward (B : Backend T) (t : T) (M : Mem) : Mem :=
  write (g.tensor t).region (g.result B t M) M

/-- Nodes the evaluation loop passes over. -/
def skipped (t : T) : Bool :=
  let τ := g.tensor t
  τ.isEmpty || τ.op == .reshape || τ.op == .transpose || τ.op == .view || τ.op == .permute ||
    τ.op == .none || !τ.compute

def evaluate (B : Backend T) (M : Mem) (t : T) : Mem :=
  if g.skipped t then M else g.computeForward B t M

/-- The memory after the first `p` nodes of the unfused graph. -/
def unfused (B : Backend T) (M : Mem) (p : Nat) : Mem := (g.nodes.take p).foldl (g.evaluate B) M

/-! ## Graphs and allocations ggml produces -/

/-- When node `p` runs, the buffer has its contents: a leaf's or a parameter's from the start, a
node's once the node has run. -/
def Ready (p : Nat) (r : T) : Prop :=
  r ∉ g.nodes ∨ (g.tensor r).op = .none ∨ ((g.tensor r).compute = true ∧ r ∈ g.nodes.take p)

/-- Some tensor in the buffer is an output or is read by node `p` or a later one. -/
def LiveFrom (p : Nat) (r : T) : Prop :=
  ∃ u, g.root u = r ∧ ((g.tensor u).output = true ∨
    ∃ t ∈ g.nodes.drop p, (g.tensor t).compute = true ∧ ∃ k, (g.tensor t).src k = some u)

instance (p : Nat) (r : T) : Decidable (g.Ready p r) := inferInstanceAs (Decidable (_ ∨ _))

instance [Fintype T] (p : Nat) (r : T) : Decidable (g.LiveFrom p r) :=
  inferInstanceAs (Decidable (∃ _, _ ∧ _))

/-- What the constructors and the graph builder of ggml guarantee. -/
structure WellFormed (B : Backend T) : Prop where
  nodup : g.nodes.Nodup
  /-- The sources of a computed node come before it and are computed. -/
  sources : ∀ p : Fin g.nodes.length, (g.tensor (g.nodes.get p)).compute = true →
    ∀ k s, (g.tensor (g.nodes.get p)).src k = some s → s ≠ g.nodes.get p → g.Ready p (g.root s)
  /-- Only `ggml_cast` names the new tensor as a source of its own. -/
  selfSource : ∀ t ∈ g.nodes, ∀ k, (g.tensor t).src k = some t → (g.tensor t).op = .cpy ∧ k = 1
  /-- A view lies in its owner's buffer; a view of a node is a node. -/
  views : ∀ t r, (g.tensor t).viewSrc = some r →
    (g.tensor r).viewSrc = none ∧ (g.tensor t).region.Within (g.tensor r).region ∧
      (r ∈ g.nodes → t ∈ g.nodes)
  /-- It is made from an earlier tensor in the same buffer. -/
  viewSource : ∀ p : Fin g.nodes.length, ∀ r, (g.tensor (g.nodes.get p)).viewSrc = some r →
    ∃ k s, (g.tensor (g.nodes.get p)).src k = some s ∧ g.root s = r ∧ s ≠ g.nodes.get p ∧
      (s ∈ g.nodes → s ∈ g.nodes.take p)
  layout : ∀ t ∈ g.nodes, (g.tensor t).op = .reshape ∨ (g.tensor t).op = .view ∨
    (g.tensor t).op = .permute ∨ (g.tensor t).op = .transpose → (g.tensor t).viewSrc ≠ none
  /-- `ggml_new_tensor` -/
  contiguous : ∀ t ∈ g.nodes, (g.tensor t).viewSrc = none → (g.tensor t).isContiguous = true
  /-- The operators take the strides of `f32` tensors in elements. -/
  strides : ∀ t, (g.tensor t).type = .f32 →
    4 ∣ (g.tensor t).nb.d1 ∧ 4 ∣ (g.tensor t).nb.d2 ∧ 4 ∣ (g.tensor t).nb.d3
  /-- `ggml_cpy`, `ggml_cast` -/
  cpy : ∀ t ∈ g.nodes, (g.tensor t).op = .cpy → ∃ x, (g.tensor t).src 0 = some x ∧
    (g.tensor t).nelements = (g.tensor x).nelements ∧
      ((g.tensor t).src 1 = some t →
        (g.tensor t).viewSrc = none ∧ (g.tensor t).ne = (g.tensor x).ne)
  /-- `ggml_rms_norm`; the unfused operator asserts the sign of its epsilon too. -/
  rmsNorm : ∀ t ∈ g.nodes, (g.tensor t).op = .rmsNorm → ∃ x, (g.tensor t).src 0 = some x ∧
    (g.tensor t).ne = (g.tensor x).ne ∧ (g.tensor t).type = (g.tensor x).type ∧
      B.nonneg (g.tensor t).eps = true
  binary : ∀ t ∈ g.nodes, (g.tensor t).op = .mul ∨ (g.tensor t).op = .add →
    ∃ a b, (g.tensor t).src 0 = some a ∧ (g.tensor t).src 1 = some b ∧
      (g.tensor t).ne = (g.tensor a).ne ∧ canRepeat (g.tensor b) (g.tensor a) = true
  unary : ∀ t ∈ g.nodes, (g.tensor t).op.isUnary = true →
    ∃ x, (g.tensor t).src 0 = some x ∧ (g.tensor t).ne = (g.tensor x).ne
  mulMat : ∀ t ∈ g.nodes, (g.tensor t).op = .mulMat → (g.tensor t).viewSrc = none

/-- A node's buffer overlaps only buffers without a later use. -/
def AllocationValid : Prop :=
  ∀ p : Fin g.nodes.length, (g.tensor (g.nodes.get p)).compute = true →
    (g.tensor (g.nodes.get p)).viewSrc = none →
      ∀ r, (g.tensor r).viewSrc = none → r ≠ g.nodes.get p → g.Ready p r →
        (g.tensor (g.nodes.get p)).region.Overlaps (g.tensor r).region → ¬ g.LiveFrom (p + 1) r

/-! ## What a node computes depends on what it reads -/

variable {g} {B : Backend T} {t : T} {M N : Mem}

theorem mem_reads {k : Fin ggmlMaxSrc} {s : T} (h : (g.tensor t).src k = some s) (hne : s ≠ t) :
    s ∈ g.reads t := by
  refine List.mem_append_left _ (List.mem_filter.2 ⟨?_, by simpa using hne⟩)
  exact List.mem_filterMap.2 ⟨k, List.mem_finRange k, h⟩

omit [DecidableEq T] in
theorem WellFormed.src_ne (hwf : g.WellFormed B) (ht : t ∈ g.nodes) {k : Fin ggmlMaxSrc} {s : T}
    (hs : (g.tensor t).src k = some s) (hk : (g.tensor t).op ≠ .cpy ∨ k ≠ 1) : s ≠ t := by
  rintro rfl
  obtain ⟨hop, h1⟩ := hwf.selfSource _ ht k hs
  exact hk.elim (· hop) (· h1)

omit [DecidableEq T] in
theorem binary_congr (hwf : g.WellFormed B) (ht : t ∈ g.nodes)
    (hc : (g.tensor t).isContiguous = true)
    (hop : (g.tensor t).op = .mul ∨ (g.tensor t).op = .add) {a b : T}
    (ha : (g.tensor t).src 0 = some a) (hb : (g.tensor t).src 1 = some b)
    (hty : (g.tensor a).type = .f32 ∧ (g.tensor b).type = .f32 ∧ (g.tensor t).type = .f32)
    (hread : ∀ {k s}, (g.tensor t).src k = some s → ((g.tensor t).op ≠ .cpy ∨ k ≠ 1) →
      AgreeOn (g.tensor s).region M N) (op : F32 → F32 → F32) {j : Nat}
    (hj : j < (g.tensor t).nbytes) :
    words 4 (fun e => op ((g.tensor a).elem 4 M e)
        ((g.tensor b).elemRepeated 4 M (g.tensor a).ne e)) j =
      words 4 (fun e => op ((g.tensor a).elem 4 N e)
        ((g.tensor b).elemRepeated 4 N (g.tensor a).ne e)) j := by
  obtain ⟨a', b', ha', hb', hne, hrep⟩ := hwf.binary t ht hop
  cases ha.symm.trans ha'
  cases hb.symm.trans hb'
  have hcpy : (g.tensor t).op ≠ .cpy := by rcases hop with hop | hop <;> simp [hop]
  rw [Tensor.nbytes_of_contiguous hc (by rw [hty.2.2]; rfl), hty.2.2, Tensor.nelements, hne] at hj
  refine words_congr (fun e he => ?_) hj
  rw [Tensor.elem_congr_f32 hty.1 he (hread ha (.inl hcpy)),
    Tensor.elemRepeated_congr_f32 hty.2.1 hrep he
      (hread hb (.inl hcpy))]

theorem chainOp_congr (hwf : g.WellFormed B) (ht : t ∈ g.nodes)
    (h : ∀ u ∈ g.reads t, AgreeOn (g.tensor u).region M N)
    (hc : (g.tensor t).isContiguous = true) {f : Mem → Nat → UInt8} (hf : g.chainOp B t = some f)
    {j : Nat} (hj : j < (g.tensor t).nbytes) : f M j = f N j := by
  -- each operand is read within its own bytes
  have hread : ∀ {k s}, (g.tensor t).src k = some s → ((g.tensor t).op ≠ .cpy ∨ k ≠ 1) →
      AgreeOn (g.tensor s).region M N :=
    fun hs hk => h _ (mem_reads hs (hwf.src_ne ht hs hk))
  unfold chainOp at hf
  simp only at hf
  split at hf
  · rename_i x hop hx
    obtain ⟨s, hs, rfl⟩ := Option.map_eq_some_iff.1 hx
    obtain ⟨s', hs', hn, -⟩ := hwf.cpy t ht hop
    cases hs.symm.trans hs'
    have hagree := hread hs (.inr (by decide))
    split at hf
    · rename_i hty
      cases hf
      rw [Tensor.nbytes_of_contiguous hc (by rw [hty.2]; rfl), hty.2, hn] at hj
      refine words_congr (fun e he => ?_) hj
      rw [Tensor.elem_congr_f32 hty.1 he hagree]
    · split at hf
      · rename_i hty
        cases hf
        rw [Tensor.nbytes_of_contiguous hc (by rw [hty.2]; rfl), hty.2, hn] at hj
        refine words_congr (fun e he => ?_) hj
        rw [Tensor.elem_congr (by rw [hty.1]; rfl) (by rw [hty.1]; rfl) he hagree]
      · cases hf
  · rename_i x hop hx
    obtain ⟨s, hs, rfl⟩ := Option.map_eq_some_iff.1 hx
    obtain ⟨s', hs', hne, -⟩ := hwf.rmsNorm t ht hop
    cases hs.symm.trans hs'
    have hagree := hread hs (.inr (by decide))
    split at hf
    · rename_i hty
      cases hf
      rw [Tensor.nbytes_of_contiguous hc (by rw [hty.2]; rfl), hty.2, Tensor.nelements, hne] at hj
      refine words_congr (fun e he => ?_) hj
      rw [Tensor.elem_congr_f32 hty.1 he hagree,
        Tensor.row_congr hty.1 (Tensor.row_of_lt he) hagree]
    · cases hf
  · rename_i x hop hx
    obtain ⟨s, hs, rfl⟩ := Option.map_eq_some_iff.1 hx
    obtain ⟨s', hs', hne⟩ := hwf.unary t ht (by rw [hop]; rfl)
    cases hs.symm.trans hs'
    have hagree := hread hs (.inr (by decide))
    split at hf
    · rename_i hty
      cases hf
      rw [Tensor.nbytes_of_contiguous hc (by rw [hty.2]; rfl), hty.2, Tensor.nelements, hne] at hj
      refine words_congr (fun e he => ?_) hj
      rw [Tensor.elem_congr_f32 hty.1 he hagree]
    · cases hf
  · rename_i xa xb hop ha hb
    obtain ⟨a, hsa, rfl⟩ := Option.map_eq_some_iff.1 ha
    obtain ⟨b, hsb, rfl⟩ := Option.map_eq_some_iff.1 hb
    split at hf
    · rename_i hty
      cases hf
      exact binary_congr hwf ht hc (.inl hop) hsa hsb hty hread B.mul hj
    · cases hf
  · rename_i xa xb hop ha hb
    obtain ⟨a, hsa, rfl⟩ := Option.map_eq_some_iff.1 ha
    obtain ⟨b, hsb, rfl⟩ := Option.map_eq_some_iff.1 hb
    split at hf
    · rename_i hty
      cases hf
      exact binary_congr hwf ht hc (.inr hop) hsa hsb hty hread B.add hj
    · cases hf
  · cases hf

/-- **A node computes the same bytes from memories that agree on what it reads.** -/
theorem result_congr (hwf : g.WellFormed B) (ht : t ∈ g.nodes)
    (h : ∀ u ∈ g.reads t, AgreeOn (g.tensor u).region M N) {j : Nat}
    (hj : j < (g.tensor t).nbytes) : g.result B t M j = g.result B t N j := by
  have hother : (g.reads t).map (fun u => (g.tensor u).content M) =
      (g.reads t).map fun u => (g.tensor u).content N :=
    List.map_congr_left fun u hu => Tensor.content_congr (h u hu)
  by_cases hc : (g.tensor t).isContiguous = true
  · cases hf : g.chainOp B t with
    | none => simp only [result, hc, hf, if_true, hother]
    | some f =>
      simp only [result, hc, hf, if_true]
      exact chainOp_congr hwf ht h hc hf hj
  · simp only [result, if_neg hc, hother]

end Cgraph

end Fuse
