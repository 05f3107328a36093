import SuprMeow.Fuse.Liveness

/-!
# What the kernels and the nodes compute

A fused kernel whose blocks are independent is one write of its destination, whatever the order.
Beside it, the elements of the nodes it stands for, each from the elements of its operands.

* `elementwise_eq` — the elementwise kernels;
* `norm_eq` — the row kernel, where no element of the output lies over another one of the input;
* `elementsApart_of_same`, `elementsApart_of_disjoint` — when that is so;
* `IsRoundTrip.elem`, `binary_elem` — the nodes.
-/

set_option autoImplicit false

namespace Fuse

open ByteMemory Strided Runs

section Kernels

variable {T : Type} {B : Backend T}

/-- The blocks of an elementwise kernel over buffers that are the destination or apart from it. -/
theorem elementwise_independent {q n a b d : Nat} (f : F32 → F32 → F32)
    (ha : a = d ∨ a + 4 * (q * n) ≤ d ∨ d + 4 * (q * n) ≤ a)
    (hb : b = d ∨ b + 4 * (q * n) ≤ d ∨ d + 4 * (q * n) ≤ b) :
    Independent n q d fun M e => f (load 4 M (a + 4 * e)) (load 4 M (b + 4 * e)) := by
  intro u hu v hv huv bytes M e he
  simp only []
  rw [load_blockRegion hu hv huv he ha, load_blockRegion hu hv huv he hb]

/-- The buffer starts where the other does, or lies apart from it. -/
theorem sameOrDisjoint_iff {x y : Tensor T} : meowSameOrDisjoint x y = true ↔
    x.data = y.data ∨ x.data + x.nbytes ≤ y.data ∨ y.data + y.nbytes ≤ x.data := by
  simp [meowSameOrDisjoint, or_assoc]

theorem not_overlaps_of_disjoint {x y : Tensor T} (h : meowDisjoint x y = true) :
    ¬ x.region.Overlaps y.region :=
  Region.not_overlaps_of_le (by simpa [meowDisjoint, Tensor.region] using h)

/-- Contiguous tensors of `f32` with the same number of elements. -/
structure Alike (a dst : Tensor T) : Prop where
  type_src : a.type = .f32
  type : dst.type = .f32
  contiguous_src : a.isContiguous = true
  contiguous : dst.isContiguous = true
  nelements : a.nelements = dst.nelements

/-- **An elementwise kernel is one write, in every order.** -/
theorem elementwise_eq {a b dst : Tensor T} (f : F32 → F32 → F32) (ha : Alike a dst)
    (hb : Alike b dst) (hda : meowSameOrDisjoint a dst = true)
    (hdb : meowSameOrDisjoint b dst = true) (ord : Order) (M : Mem) :
    elementwise f a b dst ord M =
      write dst.region (words 4 fun e => f (a.elem 4 M e) (b.elem 4 M e)) M := by
  have hbytes := Tensor.nbytes_f32 ha.type ha.contiguous
  rw [sameOrDisjoint_iff, Tensor.nbytes_f32 ha.type_src ha.contiguous_src, hbytes,
    ha.nelements] at hda
  rw [sameOrDisjoint_iff, Tensor.nbytes_f32 hb.type_src hb.contiguous_src, hbytes,
    hb.nelements] at hdb
  have hval : write ⟨dst.data, 4 * dst.nelements⟩
      (words 4 fun e => f (load 4 M (a.data + 4 * e)) (load 4 M (b.data + 4 * e))) M =
      write ⟨dst.data, 4 * dst.nelements⟩ (words 4 fun e => f (a.elem 4 M e) (b.elem 4 M e)) M := by
    refine write_congr (fun j hj => words_congr (fun e he => ?_) hj) M
    rw [Tensor.elem_f32 ha.type_src ha.contiguous_src (ha.nelements ▸ he),
      Tensor.elem_f32 hb.type_src hb.contiguous_src (hb.nelements ▸ he)]
  rw [Tensor.region_f32 ha.type ha.contiguous, ← hval]
  unfold elementwise
  simp only []
  split
  · rename_i hzero
    rw [write_empty (by rw [hzero])]
  · split
    · rename_i hvec
      have hn : 4 * (dst.nelements / 4) = dst.nelements := Nat.mul_div_cancel' (by omega)
      rw [launch_eq_write (by decide)
        (elementwise_independent f (by rwa [hn]) (by rwa [hn])), hn]
    · rw [launch_eq_write Nat.one_pos
        (elementwise_independent f (by rwa [Nat.one_mul]) (by rwa [Nat.one_mul])), Nat.one_mul]

/-! ## The row kernel -/

/-- Where element `e` lies, in a tensor with elements of four bytes. -/
def Tensor.elemRegion (τ : Tensor T) (e : Nat) : Region := ⟨τ.addr (τ.ne.unravel e), 4⟩

/-- No element of the output lies over another element of the input. -/
def ElementsApart (x out : Tensor T) : Prop :=
  ∀ e < x.nelements, ∀ v < x.nelements, e ≠ v → ¬ (out.elemRegion v).Overlaps (x.elemRegion e)

instance (x out : Tensor T) : Decidable (ElementsApart x out) :=
  inferInstanceAs (Decidable (∀ e < _, ∀ v < _, _ → _))

section Norm

variable {x w out : Tensor T}

/-- What the kernel stores, in terms of the elements of its operands. -/
def normValue (B : Backend T) (x w : Tensor T) (eps : F32) (M : Mem) (e : Nat) : F32 :=
  meowBf16 B (B.mul (meowBf16 B (B.mul (B.scale eps (x.row M (e / x.ne.d0))) (x.elem 4 M e)))
    (w.elemRepeated 4 M x.ne e))

/-- Adjacent elements and strides of whole words. -/
structure WordStrides (τ : Tensor T) : Prop where
  d0 : τ.nb.d0 = 4
  d1 : 4 ∣ τ.nb.d1
  d2 : 4 ∣ τ.nb.d2
  d3 : 4 ∣ τ.nb.d3

theorem WordStrides.addr {τ : Tensor T} (h : WordStrides τ) (i : Dims) :
    τ.addr i = τ.data + 4 * (i.d3 * (τ.nb.d3 / 4) + i.d2 * (τ.nb.d2 / 4) + i.d1 * (τ.nb.d1 / 4)) +
      4 * i.d0 := by
  have hterm : ∀ {j b : Nat}, 4 ∣ b → j * b = 4 * (j * (b / 4)) := fun {j b} hb => by
    rw [Nat.mul_left_comm, Nat.mul_div_cancel' hb]
  rw [Tensor.addr, Dims.dot, h.d0, hterm h.d1, hterm h.d2, hterm h.d3]
  omega

/-- The elements of a row follow its start. -/
theorem WordStrides.elem (h : WordStrides x) {r c : Nat} (hc : c < x.ne.d0) (M : Mem) :
    load 4 M (rmsRow x r + 4 * c) = x.elem 4 M (x.ne.d0 * r + c) := by
  rw [Tensor.elem, Dims.unravel_row hc, h.addr]
  rfl

theorem rmsScale_eq (hx : WordStrides x) (eps : F32) (M : Mem) (r : Nat) :
    rmsScale B x eps M r = B.scale eps (x.row M r) := by
  rw [rmsScale, Tensor.row]
  congr 1
  exact List.map_congr_left fun c hc => hx.elem (List.mem_range.1 hc) M

theorem rmsNormF32_eq (hx : WordStrides x) (hw : WordStrides w) (scale : F32) (M : Mem) {e : Nat}
    (he : e < x.nelements) : rmsNormF32 B x w scale M e =
      meowBf16 B (B.mul (meowBf16 B (B.mul scale (x.elem 4 M e))) (w.elemRepeated 4 M x.ne e)) := by
  obtain ⟨hd0, -⟩ := Dims.pos_of_lt_count he
  have helem := hx.elem (r := e / x.ne.d0) (Nat.mod_lt e hd0) M
  have hmul : w.elemRepeated 4 M x.ne e = load 4 M (w.data + 4 *
      (e / x.ne.d0 / x.ne.d1 / x.ne.d2 % w.ne.d3 * (w.nb.d3 / 4) +
        e / x.ne.d0 / x.ne.d1 % x.ne.d2 % w.ne.d2 * (w.nb.d2 / 4) +
        e / x.ne.d0 % x.ne.d1 % w.ne.d1 * (w.nb.d1 / 4)) + 4 * (e % x.ne.d0 % w.ne.d0)) := by
    rw [Tensor.elemRepeated, hw.addr]
    rfl
  rw [Nat.div_add_mod] at helem
  simp only [rmsNormF32, helem, hmul]

theorem elemRegion_of_contiguous (ht : x.type = .f32) (hc : x.isContiguous = true) {e : Nat}
    (he : e < x.nelements) : x.elemRegion e = ⟨x.data + 4 * e, 4⟩ := by
  rw [Tensor.elemRegion, Tensor.addr_of_contiguous hc (by rw [ht]; rfl) he, ht]
  rfl

theorem elemRegion_within (ht : x.type = .f32) {e : Nat} (he : e < x.nelements) :
    (x.elemRegion e).Within x.region := by
  have h := Tensor.elem_within (by rw [ht]; rfl) (Nat.zero_lt_of_lt he) (Dims.unravel_below he)
  rwa [ht] at h

/-- No thread reads a word that is stored for another element. -/
theorem norm_independent (hx : WordStrides x) (hw : WordStrides w) (hwt : w.type = .f32)
    (hrep : canRepeat w x = true) (hout : out.type = .f32) (hc : out.isContiguous = true)
    (hne : x.ne = out.ne) (hapart : ElementsApart x out) (hwout : meowDisjoint w out = true)
    (eps : F32) : RowsIndependent x.ne.rows x.ne.d0 out.data (rmsScale B x eps)
      (rmsNormF32 B x w) := by
  have hcount : x.ne.d0 * x.ne.rows = x.nelements := (Dims.count_eq x.ne).symm
  have hword : ∀ v < x.nelements, out.elemRegion v = ⟨out.data + 4 * v, 4⟩ := fun v hv =>
    elemRegion_of_contiguous hout hc (by rwa [Tensor.nelements, ← hne])
  have helem : ∀ e < x.nelements, ∀ v < x.nelements, e ≠ v → ∀ bytes N,
      x.elem 4 (write ⟨out.data + 4 * v, 4⟩ bytes N) e = x.elem 4 N e := by
    intro e he v hv hev bytes N
    rw [← hword v hv]
    exact load_congr (write_agree (hapart e he v hv hev) bytes N)
  rw [← hcount] at helem hword
  constructor
  · intro u hu v hv hvu bytes N
    rw [rmsScale_eq hx, rmsScale_eq hx]
    congr 1
    refine List.map_congr_left fun c hc => helem _ (word_lt hu (List.mem_range.1 hc)) v hv ?_ _ _
    rintro rfl
    refine hvu ?_
    rw [Nat.mul_add_div (Nat.zero_lt_of_lt (List.mem_range.1 hc)),
      Nat.div_eq_of_lt (List.mem_range.1 hc), Nat.add_zero]
  · intro e he v hv hev r bytes N
    have hlt : e < x.nelements := hcount ▸ he
    have hv' : v < out.nelements := by rwa [Tensor.nelements, ← hne, Dims.count_eq]
    rw [rmsNormF32_eq hx hw r _ hlt, rmsNormF32_eq hx hw r _ hlt, helem e he v hv hev]
    have hagree : AgreeOn w.region (write ⟨out.data + 4 * v, 4⟩ bytes N) N := by
      rw [← hword v hv]
      refine write_agree (fun hov => ?_) bytes N
      exact not_overlaps_of_disjoint hwout
        (hov.within (elemRegion_within hout hv') (Region.Within.refl _)).symm
    rw [Tensor.elemRepeated_congr_f32 hwt hrep hlt hagree]

/-- **The row kernel is one write, in every order, when its elements are apart.** -/
theorem norm_eq (hx : WordStrides x) (hw : WordStrides w) (hwt : w.type = .f32)
    (hrep : canRepeat w x = true) (hout : out.type = .f32) (hc : out.isContiguous = true)
    (hne : x.ne = out.ne) (hapart : ElementsApart x out) (hwout : meowDisjoint w out = true)
    (eps : F32) (ord : RowOrder) (M : Mem) :
    launchRows ord (x.ne.d1 * x.ne.d2 * x.ne.d3) x.ne.d0 out.data (rmsScale B x eps)
      (rmsNormF32 B x w) M = write out.region (words 4 (normValue B x w eps M)) M := by
  have hregion : out.region = ⟨out.data, 4 * (x.ne.d0 * x.ne.rows)⟩ := by
    rw [Tensor.region_f32 hout hc, Tensor.nelements, ← hne, Dims.count_eq]
  rw [hregion]
  refine (launchRows_eq_write
    (norm_independent (B := B) hx hw hwt hrep hout hc hne hapart hwout eps) ord M).trans ?_
  refine write_congr (fun j hj => words_congr (fun e he => ?_) hj) M
  rw [← Dims.count_eq] at he
  rw [rmsScale_eq hx, rmsNormF32_eq hx hw _ M he, normValue]

/-- An input apart from the output. -/
theorem elementsApart_of_disjoint (hxt : x.type = .f32) (hout : out.type = .f32)
    (hne : x.ne = out.ne) (h : meowDisjoint x out = true) : ElementsApart x out := by
  intro e he v hv _ hov
  have hv' : v < out.nelements := by rwa [Tensor.nelements, ← hne]
  exact not_overlaps_of_disjoint h
    (hov.within (elemRegion_within hout hv') (elemRegion_within hxt he)).symm

/-- An input that is the output's buffer with the output's layout. -/
theorem elementsApart_of_same (hxt : x.type = .f32) (hxc : x.isContiguous = true)
    (hout : out.type = .f32) (hc : out.isContiguous = true) (hne : x.ne = out.ne)
    (hdata : x.data = out.data) : ElementsApart x out := by
  intro e he v hv hev
  have hv' : v < out.nelements := by rwa [Tensor.nelements, ← hne]
  rw [elemRegion_of_contiguous hxt hxc he, elemRegion_of_contiguous hout hc hv', hdata]
  refine Region.not_overlaps_of_le ?_
  simp only []
  omega

end Norm

end Kernels

/-! ## The nodes -/

namespace Cgraph

variable {T : Type} [DecidableEq T] {g : Cgraph T} {B : Backend T} {M : Mem} {e : Nat}

/-- A node of a chain: it is computed, is no layout operation and has a buffer of its own. -/
structure Computes (g : Cgraph T) (t : T) : Prop extends Owner g t where
  mem : t ∈ g.nodes
  layout : (g.tensor t).op ≠ .reshape ∧ (g.tensor t).op ≠ .transpose ∧ (g.tensor t).op ≠ .view ∧
    (g.tensor t).op ≠ .permute

theorem Computes.evaluate {t : T} (h : g.Computes t) (hpos : 0 < (g.tensor t).nelements) :
    g.evaluate B M t = g.computeForward B t M := by
  obtain ⟨h₁, h₂, h₃, h₄⟩ := h.layout
  have hskip : g.skipped t = false := by
    simp [skipped, h.compute, h₁, h₂, h₃, h₄, h.op, Tensor.isEmpty, Nat.pos_iff_ne_zero.1 hpos]
  rw [Cgraph.evaluate, hskip]
  rfl

/-- An element of a node just evaluated. -/
theorem Computes.elem {k : Nat} [NeZero k] {t : T} (h : g.Computes t) (hwf : g.WellFormed B)
    (hb : (g.tensor t).type.blckSize = 1) (hk : (g.tensor t).type.typeSize = k)
    {v : Mem → Nat → Word k} (hop : g.chainOp B t = some fun M => words k (v M))
    (he : e < (g.tensor t).nelements) : (g.tensor t).elem k (g.evaluate B M t) e = v M e := by
  have hc := hwf.contiguous t h.mem h.viewSrc
  have hresult : g.result B t M = words k (v M) := by
    simp only [result, hc, if_true, hop]
  rw [h.evaluate (Nat.zero_lt_of_lt he), computeForward, hresult, Tensor.elem,
    Tensor.region_of_contiguous hc hb, Tensor.addr_of_contiguous hc hb he, hk,
    load_write_words he]

omit [DecidableEq T] in
theorem computes_cpy {t : T} (ht : t ∈ g.nodes) (hop : (g.tensor t).op = .cpy)
    (hc : (g.tensor t).compute = true) (hv : (g.tensor t).viewSrc = none) : g.Computes t :=
  ⟨⟨hc, hv, by simp [hop]⟩, ht, by simp [hop]⟩

section RoundTrip

variable {i : Nat} {x a b : T}

theorem IsRoundTrip.computes_fst (h : g.IsRoundTrip i x a b) : g.Computes a :=
  computes_cpy (List.mem_of_getElem? h.fst) h.op_fst h.internal.compute h.internal.viewSrc

theorem IsRoundTrip.ne_fst (h : g.IsRoundTrip i x a b) (hwf : g.WellFormed B) :
    (g.tensor a).ne = (g.tensor x).ne := by
  obtain ⟨x', hx, -, hself⟩ := hwf.cpy a (List.mem_of_getElem? h.fst) h.op_fst
  cases h.src_fst.symm.trans hx
  exact (hself h.self_fst).2

theorem IsRoundTrip.cast_snd (h : g.IsRoundTrip i x a b) (hwf : g.WellFormed B) :
    (g.tensor b).viewSrc = none ∧ (g.tensor b).ne = (g.tensor a).ne := by
  obtain ⟨a', ha, -, hself⟩ := hwf.cpy b (List.mem_of_getElem? h.snd) h.op_snd
  cases h.src_snd.symm.trans ha
  exact hself h.self_snd

theorem IsRoundTrip.ne (h : g.IsRoundTrip i x a b) (hwf : g.WellFormed B) :
    (g.tensor b).ne = (g.tensor x).ne := (h.cast_snd hwf).2.trans (h.ne_fst hwf)

theorem IsRoundTrip.computes_snd (h : g.IsRoundTrip i x a b) (hwf : g.WellFormed B) :
    g.Computes b :=
  computes_cpy (List.mem_of_getElem? h.snd) h.op_snd h.compute (h.cast_snd hwf).1

theorem IsRoundTrip.alike (h : g.IsRoundTrip i x a b) : Alike (g.tensor x) (g.tensor b) :=
  ⟨h.type_src, h.type_snd, h.contiguous_src, h.contiguous, h.nelements⟩

/-- **Two casts round every element.** -/
theorem IsRoundTrip.elem (h : g.IsRoundTrip i x a b) (hwf : g.WellFormed B)
    (he : e < (g.tensor b).nelements) :
    (g.tensor b).elem 4 (g.evaluate B (g.evaluate B M a) b) e =
      meowBf16 B ((g.tensor x).elem 4 M e) := by
  have hfst : g.chainOp B a = some fun M => words 2 fun e => B.bf16 ((g.tensor x).elem 4 M e) := by
    simp [chainOp, h.op_fst, h.src_fst, h.type_src, h.type_fst]
  have hsnd : g.chainOp B b = some fun M => words 4 fun e => B.f32 ((g.tensor a).elem 2 M e) := by
    simp [chainOp, h.op_snd, h.src_snd, h.type_fst, h.type_snd]
  have hea : e < (g.tensor a).nelements := by
    rwa [Tensor.nelements, ← (h.cast_snd hwf).2]
  rw [(h.computes_snd hwf).elem hwf (by rw [h.type_snd]; rfl) (by rw [h.type_snd]; rfl) hsnd he,
    h.computes_fst.elem hwf (by rw [h.type_fst]; rfl) (by rw [h.type_fst]; rfl) hfst hea]
  rfl

end RoundTrip

section Operations

variable {t x a b : T}

theorem rms_elem (hwf : g.WellFormed B) (h : g.Computes t) (hop : (g.tensor t).op = .rmsNorm)
    (hx : (g.tensor t).src 0 = some x) (hxt : (g.tensor x).type = .f32)
    (ht : (g.tensor t).type = .f32) (he : e < (g.tensor t).nelements) :
    (g.tensor t).elem 4 (g.evaluate B M t) e =
      B.mul (B.scale (g.tensor t).eps ((g.tensor x).row M (e / (g.tensor x).ne.d0)))
        ((g.tensor x).elem 4 M e) := by
  have hchain : g.chainOp B t = some fun M => words 4 fun e =>
      B.mul (B.scale (g.tensor t).eps ((g.tensor x).row M (e / (g.tensor x).ne.d0)))
        ((g.tensor x).elem 4 M e) := by
    simp [chainOp, hop, hx, hxt, ht]
  rw [h.elem hwf (by rw [ht]; rfl) (by rw [ht]; rfl) hchain he]

theorem silu_elem (hwf : g.WellFormed B) (h : g.Computes t) (hop : (g.tensor t).op = .unary .silu)
    (hx : (g.tensor t).src 0 = some x) (hxt : (g.tensor x).type = .f32)
    (ht : (g.tensor t).type = .f32) (he : e < (g.tensor t).nelements) :
    (g.tensor t).elem 4 (g.evaluate B M t) e = B.silu ((g.tensor x).elem 4 M e) := by
  have hchain : g.chainOp B t = some fun M => words 4 fun e =>
      B.silu ((g.tensor x).elem 4 M e) := by
    simp [chainOp, hop, hx, hxt, ht]
  rw [h.elem hwf (by rw [ht]; rfl) (by rw [ht]; rfl) hchain he]

/-- The two operations on two operands, both commutative. -/
inductive IsBinary (B : Backend T) (op : GgmlOp) (f : F32 → F32 → F32) : Prop
  | mul (h : op = .mul) (hf : f = B.mul)
  | add (h : op = .add) (hf : f = B.add)

omit [DecidableEq T] in
theorem IsBinary.op {op : GgmlOp} {f : F32 → F32 → F32} (h : IsBinary B op f) :
    op = .mul ∨ op = .add := by
  cases h with
  | mul h => exact .inl h
  | add h => exact .inr h

omit [DecidableEq T] in
theorem IsBinary.comm {op : GgmlOp} {f : F32 → F32 → F32} (h : IsBinary B op f) (x y : F32) :
    f x y = f y x := by
  cases h with
  | mul _ hf => rw [hf, B.mul_comm]
  | add _ hf => rw [hf, B.add_comm]

omit [DecidableEq T] in
theorem binary_chainOp {f : F32 → F32 → F32} (hop : IsBinary B (g.tensor t).op f)
    (ha : (g.tensor t).src 0 = some a) (hb : (g.tensor t).src 1 = some b)
    (hat : (g.tensor a).type = .f32) (hbt : (g.tensor b).type = .f32)
    (ht : (g.tensor t).type = .f32) : g.chainOp B t = some fun M => words 4 fun e =>
      f ((g.tensor a).elem 4 M e) ((g.tensor b).elemRepeated 4 M (g.tensor a).ne e) := by
  cases hop with
  | mul h hf => simp [chainOp, h, ha, hb, hat, hbt, ht, hf]
  | add h hf => simp [chainOp, h, ha, hb, hat, hbt, ht, hf]

/-- An operand with the shape of the result, and one that may be repeated, in either order. -/
theorem binary_elem {f : F32 → F32 → F32} (hwf : g.WellFormed B) (h : g.Computes t)
    (hop : IsBinary B (g.tensor t).op f) (hab : g.HasOperands t a b)
    (hat : (g.tensor a).type = .f32) (hbt : (g.tensor b).type = .f32)
    (ht : (g.tensor t).type = .f32) (hne : (g.tensor a).ne = (g.tensor t).ne)
    (he : e < (g.tensor t).nelements) : (g.tensor t).elem 4 (g.evaluate B M t) e =
      f ((g.tensor a).elem 4 M e) ((g.tensor b).elemRepeated 4 M (g.tensor t).ne e) := by
  have hb : (g.tensor t).type.blckSize = 1 := by rw [ht]; rfl
  have hk : (g.tensor t).type.typeSize = 4 := by rw [ht]; rfl
  rcases hab with ⟨ha, hb'⟩ | ⟨hb', ha⟩
  · rw [h.elem hwf hb hk (binary_chainOp hop ha hb' hat hbt ht) he, hne]
  · obtain ⟨b'', a'', h₁, h₂, hshape, -⟩ := hwf.binary t h.mem hop.op
    cases hb'.symm.trans h₁
    have hea : e < (g.tensor a).nelements := by rwa [Tensor.nelements, hne]
    have heb : e < (g.tensor b).nelements := by rwa [Tensor.nelements, ← hshape]
    rw [h.elem hwf hb hk (binary_chainOp hop hb' ha hbt hat ht) he, hop.comm,
      Tensor.elemRepeated_of_same (hne.trans hshape) hea,
      Tensor.elemRepeated_of_same hshape.symm heb]

omit [DecidableEq T] in
/-- Either operand can be repeated over the result. -/
theorem HasOperands.canRepeat (hwf : g.WellFormed B) (h : g.Computes t)
    (hop : (g.tensor t).op = .mul ∨ (g.tensor t).op = .add) (hab : g.HasOperands t a b) :
    canRepeat (g.tensor b) (g.tensor t) = true := by
  obtain ⟨a', b', h₁, h₂, hshape, hrep⟩ := hwf.binary t h.mem hop
  rcases hab with ⟨ha, hb⟩ | ⟨hb, ha⟩
  · cases ha.symm.trans h₁
    cases hb.symm.trans h₂
    simpa [Fuse.canRepeat, Tensor.isEmpty, Tensor.nelements, hshape] using hrep
  · cases hb.symm.trans h₁
    simp only [Fuse.canRepeat, Tensor.isEmpty, Tensor.nelements, hshape, Nat.mod_self]
    split <;> simp_all

omit [DecidableEq T] in
/-- An operand with as many elements as the result has its shape. -/
theorem HasOperands.shape (hwf : g.WellFormed B) (h : g.Computes t)
    (hop : (g.tensor t).op = .mul ∨ (g.tensor t).op = .add) (hab : g.HasOperands t a b)
    (hn : (g.tensor a).nelements = (g.tensor t).nelements) (hpos : 0 < (g.tensor t).nelements) :
    (g.tensor a).ne = (g.tensor t).ne := by
  have hba : g.HasOperands t b a := Or.symm hab
  exact Tensor.ne_of_canRepeat (hba.canRepeat hwf h hop) hn hpos

end Operations

end Cgraph

end Fuse
