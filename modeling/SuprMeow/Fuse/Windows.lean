import SuprMeow.Fuse.Values

/-!
# A fused window against its nodes

From memories that agree before a window, its launch and its nodes lead to memories that agree
behind it.

* `window_agree` — what has to be shown of the last node of a window and of those in between;
* `norm_step`, `add_step`, `swiglu_step`, `cast_step` — the four windows.
-/

set_option autoImplicit false

namespace Fuse

open ByteMemory Strided Runs

namespace Cgraph

variable {T : Type} [DecidableEq T] {g : Cgraph T} {B : Backend T} {i : Nat} {M N : Mem}

/-! ## Windows in general -/

/-- The buffer of a node behind which nothing reads it is no concern; the others must agree. -/
theorem window_agree (hwf : g.WellFormed B) (hvalid : g.AllocationValid) {ts : List T}
    (hwin : g.Window i ts) (hagree : g.AgreeLive i (g.unfused B M i) N) {N' : Mem}
    (hnodes : ∀ t ∈ ts, g.LiveFrom (i + ts.length) t →
      AgreeOn (g.tensor t).region (g.unfused B M (i + ts.length)) N')
    (hframe : ∀ r, (g.tensor r).viewSrc = none → g.Ready i r → g.LiveFrom (i + ts.length) r →
      AgreeOn (g.tensor r).region N' N) :
    g.AgreeLive (i + ts.length) (g.unfused B M (i + ts.length)) N' := by
  intro r hr hready hlive
  by_cases hmem : r ∈ ts
  · exact hnodes r hmem hlive
  · have hready' : g.Ready i r := hwin.ready (Nat.le_refl _) (by rwa [List.take_length]) hready
    have hlive' : g.LiveFrom i r := hlive.mono (Nat.le_add_right ..)
    exact ((unfused_frame hwf hvalid hwin hr hready' M (Nat.le_refl _) hlive).trans
      (hagree r hr hready' hlive')).trans (hframe r hr hready' hlive).symm

/-- A source from outside the window is untouched until the node reads it. -/
theorem window_source (hwf : g.WellFormed B) (hvalid : g.AllocationValid) {ts : List T}
    (hwin : g.Window i ts) (hagree : g.AgreeLive i (g.unfused B M i) N) {k : Nat} {t s : T}
    {n : Fin ggmlMaxSrc} (ht : ts[k]? = some t) (hs : (g.tensor t).src n = some s) (hne : s ≠ t)
    (hout : g.root s ∉ ts.take k) :
    AgreeOn (g.tensor s).region (g.unfused B M (i + k)) N := by
  obtain ⟨hk, -⟩ := List.getElem?_eq_some_iff.1 ht
  obtain ⟨hready, hlive⟩ := hwf.source_live (hwin.get ht)
    (hwin.owners t (List.mem_of_getElem? ht)).compute hs hne
  obtain ⟨hr, hwithin⟩ := hwf.root_owner s
  have hready' : g.Ready i (g.root s) := hwin.ready (Nat.le_of_lt hk) hout hready
  exact ((unfused_frame hwf hvalid hwin hr hready' M (Nat.le_of_lt hk) hlive).trans
    (hagree _ hr hready' (hlive.mono (Nat.le_add_right ..)))).within hwithin

omit [DecidableEq T] in
/-- Writing a node of a window keeps what is used behind the window and not written by it. -/
theorem write_frame (hwf : g.WellFormed B) (hvalid : g.AllocationValid) {ts : List T}
    (hwin : g.Window i ts) {k : Nat} {t r : T} (ht : ts[k]? = some t)
    (hr : (g.tensor r).viewSrc = none) (hready : g.Ready (i + k) r)
    (hlive : g.LiveFrom (i + k + 1) r) (bytes : Nat → UInt8) :
    AgreeOn (g.tensor r).region (write (g.tensor t).region bytes N) N := by
  have hown := hwin.owners t (List.mem_of_getElem? ht)
  have hne := hready.ne hwf (hwin.get ht) hown.op (Nat.le_refl _)
  exact write_agree (hvalid.not_overlaps (hwin.get ht) hown hr hne hready hlive) bytes N

omit [DecidableEq T] in
/-- A buffer holds the words a kernel has written when it holds them as elements. -/
theorem agreeOn_written {t : T} (ht : (g.tensor t).type = .f32)
    (hc : (g.tensor t).isContiguous = true) {v : Nat → F32}
    (hv : ∀ e < (g.tensor t).nelements, (g.tensor t).elem 4 M e = v e) (N : Mem) :
    AgreeOn (g.tensor t).region M (write (g.tensor t).region (words 4 v) N) := by
  rw [Tensor.region_f32 ht hc]
  refine agreeOn_of_load fun e he => ?_
  rw [load_write_words he, ← hv e he, Tensor.elem_f32 ht hc he]

theorem owner_of_internal {t : T} {uses : Nat} (h : g.IsInternal t uses)
    (hop : (g.tensor t).op ≠ .none) : g.Owner t := ⟨h.compute, h.viewSrc, hop⟩

/-- The bf16 node of a round trip has no other use. -/
theorem IsRoundTrip.sealed {x a b : T} (h : g.IsRoundTrip i x a b) (hwf : g.WellFormed B) :
    g.Sealed a [(a, 1), (b, 0)] := by
  refine IsInternal.sealed hwf h.internal (List.mem_of_getElem? h.fst) (by simp) ?_
  intro v k hvk
  simp only [List.mem_cons, Prod.mk.injEq, List.not_mem_nil, or_false] at hvk
  rcases hvk with ⟨rfl, rfl⟩ | ⟨rfl, rfl⟩
  · exact ⟨List.mem_of_getElem? h.fst, h.self_fst, h.internal.viewSrc⟩
  · exact ⟨List.mem_of_getElem? h.snd, h.src_snd, (h.cast_snd hwf).1⟩

/-- The source of a round trip, when that is its one use. -/
theorem IsRoundTrip.sealed_src {x a b : T} (h : g.IsRoundTrip i x a b) (hwf : g.WellFormed B)
    (hx : g.IsInternal x 1) (hmem : x ∈ g.nodes) : g.Sealed x [(a, 0)] := by
  refine IsInternal.sealed hwf hx hmem (by simp) ?_
  intro v k hvk
  obtain ⟨rfl, rfl⟩ : v = a ∧ k = 0 := by simpa using hvk
  exact ⟨List.mem_of_getElem? h.fst, h.src_fst, h.internal.viewSrc⟩

/-- The rounded node, when its one other use is as a source of `t`. -/
theorem IsRoundTrip.sealed_snd {x a b t : T} {k : Fin ggmlMaxSrc} (h : g.IsRoundTrip i x a b)
    (hwf : g.WellFormed B) (hb : g.IsInternal b 2) (ht : t ∈ g.nodes) (hne : t ≠ b)
    (hv : (g.tensor t).viewSrc = none) (hk : (g.tensor t).src k = some b) :
    g.Sealed b [(b, 1), (t, k)] := by
  refine IsInternal.sealed hwf hb (List.mem_of_getElem? h.snd) ?_ ?_
  · simp [Ne.symm hne]
  · intro v k' hvk
    simp only [List.mem_cons, Prod.mk.injEq, List.not_mem_nil, or_false] at hvk
    rcases hvk with ⟨rfl, rfl⟩ | ⟨rfl, rfl⟩
    · exact ⟨List.mem_of_getElem? h.snd, h.self_snd, hb.viewSrc⟩
    · exact ⟨ht, hk, hv⟩

/-! ## A round trip alone -/

theorem IsRoundTrip.run {x a b : T} (h : g.IsRoundTrip i x a b) (ord : Schedule) :
    g.run B ord N (.cast x b) = some (elementwise (fun y _ => meowBf16 B y) (g.tensor x)
      (g.tensor x) (g.tensor b) ord.blocks N) := by
  simp only [Cgraph.run, ggmlCudaBf16Roundtrip, h.type_src, h.type_snd, h.contiguous_src,
    h.contiguous, h.nelements, guard, and_self, if_true]
  rfl

theorem cast_step (hwf : g.WellFormed B) (hvalid : g.AllocationValid) {x a b : T}
    (h : g.IsRoundTrip i x a b) (hxb : meowSameOrDisjoint (g.tensor x) (g.tensor b) = true)
    (hagree : g.AgreeLive i (g.unfused B M i) N) (ord : Schedule) :
    ∃ N', g.run B ord N (.cast x b) = some N' ∧
      g.AgreeLive (i + 2) (g.unfused B M (i + 2)) N' := by
  have hwin : g.Window i [a, b] :=
    .cons h.fst h.computes_fst.toOwner (.cons h.snd (h.computes_snd hwf).toOwner (.nil _))
  have hsrc : AgreeOn (g.tensor x).region (g.unfused B M i) N := by
    have hne : x ≠ a := hwf.src_ne (List.mem_of_getElem? h.fst) h.src_fst (.inr (by decide))
    exact window_source (k := 0) hwf hvalid hwin hagree rfl h.src_fst hne (by simp)
  refine ⟨_, h.run ord, window_agree hwf hvalid hwin hagree ?_ ?_⟩
  · simp only [List.forall_mem_cons, List.not_mem_nil, false_implies, implies_true, and_true]
    refine ⟨fun hlive => absurd hlive (hwin.dead hwf (h.sealed hwf) (by simp)), fun _ => ?_⟩
    rw [elementwise_eq _ h.alike h.alike hxb hxb]
    refine agreeOn_written h.type_snd h.contiguous (fun e he => ?_) N
    rw [show i + [a, b].length = i + 1 + 1 from rfl, unfused_succ h.snd, unfused_succ h.fst,
      h.elem hwf he, Tensor.elem_congr_f32 h.type_src (h.nelements ▸ he) hsrc]
  · intro r hr hready hlive
    rw [elementwise_eq _ h.alike h.alike hxb hxb]
    exact write_frame (k := 1) hwf hvalid hwin rfl hr (hready.mono (Nat.le_succ i)) hlive _

/-! ## The norm chain -/

omit [DecidableEq T] in
theorem HasOperands.sources {t a b : T} (h : g.HasOperands t a b) :
    ∃ ka kb, ka ≠ kb ∧ (g.tensor t).src ka = some a ∧ (g.tensor t).src kb = some b := by
  rcases h with ⟨ha, hb⟩ | ⟨hb, ha⟩
  · exact ⟨0, 1, by decide, ha, hb⟩
  · exact ⟨1, 0, by decide, ha, hb⟩

omit [DecidableEq T] in
theorem ne_of_op {s t : T} (h : (g.tensor s).op ≠ (g.tensor t).op) : s ≠ t := by
  rintro rfl
  exact h rfl

omit [DecidableEq T] in
theorem wordStrides (hwf : g.WellFormed B) {t : T} (ht : (g.tensor t).type = .f32)
    (h : (g.tensor t).nb.d0 = 4) : WordStrides (g.tensor t) :=
  ⟨h, (hwf.strides t ht).1, (hwf.strides t ht).2.1, (hwf.strides t ht).2.2⟩

section Norm

variable {x w rms a r mul b out : T}

theorem IsNormChain.computes_rms (h : g.IsNormChain i x w rms a r mul b out) : g.Computes rms :=
  ⟨owner_of_internal h.internal_rms (by simp [h.op_rms]), List.mem_of_getElem? h.at_rms,
    by simp [h.op_rms]⟩

theorem IsNormChain.computes_mul (h : g.IsNormChain i x w rms a r mul b out) : g.Computes mul :=
  ⟨owner_of_internal h.internal_mul (by simp [h.op_mul]), List.mem_of_getElem? h.at_mul,
    by simp [h.op_mul]⟩

theorem IsNormChain.window (h : g.IsNormChain i x w rms a r mul b out) (hwf : g.WellFormed B) :
    g.Window i [rms, a, r, mul, b, out] :=
  .cons h.at_rms h.computes_rms.toOwner <|
    .cons h.rt₁.fst h.rt₁.computes_fst.toOwner <|
    .cons h.rt₁.snd (h.rt₁.computes_snd hwf).toOwner <|
    .cons h.at_mul h.computes_mul.toOwner <|
    .cons h.rt₂.fst h.rt₂.computes_fst.toOwner <|
    .cons h.rt₂.snd (h.rt₂.computes_snd hwf).toOwner <| .nil _

/-- The shape of a norm chain. -/
theorem IsNormChain.shapes (h : g.IsNormChain i x w rms a r mul b out) (hwf : g.WellFormed B) :
    (g.tensor x).type = .f32 ∧ (g.tensor x).ne = (g.tensor rms).ne ∧
      (g.tensor r).ne = (g.tensor mul).ne ∧ B.nonneg (g.tensor rms).eps = true := by
  obtain ⟨x', hx', hne, hty, heps⟩ := hwf.rmsNorm rms h.computes_rms.mem h.op_rms
  cases h.src_rms.symm.trans hx'
  exact ⟨hty.symm.trans h.rt₁.type_src, hne.symm, (h.rt₁.ne hwf).trans h.shape_mul, heps⟩

/-- The nodes of a norm chain compute what the kernel computes. -/
theorem IsNormChain.elem (h : g.IsNormChain i x w rms a r mul b out) (hwf : g.WellFormed B)
    (hx : AgreeOn (g.tensor x).region (g.unfused B M i) N)
    (hw : AgreeOn (g.tensor w).region (g.unfused B M (i + 3)) N) {e : Nat}
    (he : e < (g.tensor out).nelements) :
    (g.tensor out).elem 4 (g.unfused B M (i + 6)) e =
      normValue B (g.tensor x) (g.tensor w) (g.tensor rms).eps N e := by
  obtain ⟨hxt, hxne, hrne, -⟩ := h.shapes hwf
  have hmult : (g.tensor mul).type = .f32 := h.rt₂.type_src
  have hen : ∀ t : T, (g.tensor t).ne = (g.tensor rms).ne → e < (g.tensor t).nelements := by
    intro t ht
    rwa [Tensor.nelements, ht, h.shape_out]
  have hrms : e < (g.tensor rms).nelements := hen rms rfl
  have hmul : e < (g.tensor mul).nelements := hen mul h.shape_mul.symm
  have hr : e < (g.tensor r).nelements := hen r (hrne.trans h.shape_mul.symm)
  have hex : e < (g.tensor x).nelements := hen x hxne
  have hrep : canRepeat (g.tensor w) (g.tensor mul) = true :=
    h.operands.canRepeat hwf h.computes_mul (.inl h.op_mul)
  have hrow : (g.tensor x).row (g.unfused B M i) (e / (g.tensor x).ne.d0) =
      (g.tensor x).row N (e / (g.tensor x).ne.d0) :=
    Tensor.row_congr hxt (Tensor.row_of_lt hex) hx
  calc (g.tensor out).elem 4 (g.unfused B M (i + 6)) e
      = meowBf16 B ((g.tensor mul).elem 4 (g.unfused B M (i + 4)) e) := by
        rw [unfused_succ h.rt₂.snd, unfused_succ h.rt₂.fst, h.rt₂.elem hwf he]
    _ = meowBf16 B (B.mul ((g.tensor r).elem 4 (g.unfused B M (i + 3)) e)
          ((g.tensor w).elemRepeated 4 (g.unfused B M (i + 3)) (g.tensor mul).ne e)) := by
        rw [unfused_succ h.at_mul, binary_elem hwf h.computes_mul (.mul h.op_mul rfl) h.operands
          h.rt₁.type_snd h.type_w hmult hrne hmul]
    _ = meowBf16 B (B.mul (meowBf16 B ((g.tensor rms).elem 4 (g.unfused B M (i + 1)) e))
          ((g.tensor w).elemRepeated 4 N (g.tensor mul).ne e)) := by
        rw [Tensor.elemRepeated_congr_f32 h.type_w hrep hmul hw, unfused_succ h.rt₁.snd,
          unfused_succ h.rt₁.fst, h.rt₁.elem hwf hr]
    _ = normValue B (g.tensor x) (g.tensor w) (g.tensor rms).eps N e := by
        rw [unfused_succ h.at_rms, rms_elem hwf h.computes_rms h.op_rms h.src_rms hxt
          h.rt₁.type_src hrms, hrow,
          Tensor.elem_congr_f32 hxt hex hx, normValue, hxne, h.shape_mul]

theorem IsNormChain.run (h : g.IsNormChain i x w rms a r mul b out) (hwf : g.WellFormed B)
    (ord : Schedule) : g.run B ord N (.norm rms x w out) =
      some (launchRows ord.rows ((g.tensor x).ne.d1 * (g.tensor x).ne.d2 * (g.tensor x).ne.d3)
        (g.tensor x).ne.d0 (g.tensor out).data (rmsScale B (g.tensor x) (g.tensor rms).eps)
        (rmsNormF32 B (g.tensor x) (g.tensor w)) N) := by
  obtain ⟨hxt, -, -, heps⟩ := h.shapes hwf
  simp only [Cgraph.run, ggmlCudaMeowRmsNormMulBf16, hxt, h.type_w, h.rt₂.type_snd, heps, h.nb_x,
    h.nb_w, h.rt₂.contiguous, guard, and_self, if_true]
  rfl

theorem norm_step (hwf : g.WellFormed B) (hvalid : g.AllocationValid)
    (h : g.IsNormChain i x w rms a r mul b out)
    (hapart : ElementsApart (g.tensor x) (g.tensor out))
    (hagree : g.AgreeLive i (g.unfused B M i) N) (ord : Schedule) :
    ∃ N', g.run B ord N (.norm rms x w out) = some N' ∧
      g.AgreeLive (i + 6) (g.unfused B M (i + 6)) N' := by
  have hwin := h.window hwf
  obtain ⟨hxt, hxne, -, -⟩ := h.shapes hwf
  obtain ⟨kr, kw, hkne, hkr, hkw⟩ := h.operands.sources
  have hma : mul ≠ a := ne_of_op (g := g) (by simp [h.op_mul, h.rt₁.op_fst])
  have hmr : mul ≠ r := ne_of_op (g := g) (by simp [h.op_mul, h.rt₁.op_snd])
  have hdead₁ := h.rt₁.sealed_src hwf h.internal_rms h.computes_rms.mem
  have hdead₂ := h.rt₁.sealed hwf
  have hdead₃ := h.rt₁.sealed_snd hwf h.internal_r h.computes_mul.mem hmr h.internal_mul.viewSrc hkr
  have hdead₄ := h.rt₂.sealed_src hwf h.internal_mul h.computes_mul.mem
  have hdead₅ := h.rt₂.sealed hwf
  -- the two operands from outside
  have hx : AgreeOn (g.tensor x).region (g.unfused B M i) N := by
    have hne : x ≠ rms := hwf.src_ne h.computes_rms.mem h.src_rms (.inl (by simp [h.op_rms]))
    exact window_source (k := 0) hwf hvalid hwin hagree rfl h.src_rms hne (by simp)
  have hw : AgreeOn (g.tensor w).region (g.unfused B M (i + 3)) N := by
    have hne : w ≠ mul := hwf.src_ne h.computes_mul.mem hkw (.inl (by simp [h.op_mul]))
    refine window_source (k := 3) hwf hvalid hwin hagree rfl hkw hne ?_
    have h₁ := hdead₁.root_ne h.computes_mul.mem hkw (by simp [hma])
    have h₂ := hdead₂.root_ne h.computes_mul.mem hkw (by simp [hma, hmr])
    have h₃ := hdead₃.root_ne h.computes_mul.mem hkw (by simp [hmr, Ne.symm hkne])
    simp [h₁, h₂, h₃]
  have hrep : canRepeat (g.tensor w) (g.tensor x) = true := by
    rw [Tensor.canRepeat_congr (hxne.trans h.shape_mul)]
    exact h.operands.canRepeat hwf h.computes_mul (.inl h.op_mul)
  have hwrite := norm_eq (wordStrides hwf hxt h.nb_x) (wordStrides hwf h.type_w h.nb_w) h.type_w
    hrep h.rt₂.type_snd h.rt₂.contiguous (hxne.trans h.shape_out) hapart h.w_out
    (B := B) (g.tensor rms).eps ord.rows N
  refine ⟨_, h.run hwf ord, ?_⟩
  rw [hwrite]
  refine window_agree hwf hvalid hwin hagree ?_ ?_
  · simp only [List.forall_mem_cons, List.not_mem_nil, false_implies, implies_true, and_true]
    refine ⟨fun hl => absurd hl (hwin.dead hwf hdead₁ (by simp)),
      fun hl => absurd hl (hwin.dead hwf hdead₂ (by simp)),
      fun hl => absurd hl (hwin.dead hwf hdead₃ (by simp)),
      fun hl => absurd hl (hwin.dead hwf hdead₄ (by simp)),
      fun hl => absurd hl (hwin.dead hwf hdead₅ (by simp)), fun _ => ?_⟩
    exact agreeOn_written h.rt₂.type_snd h.rt₂.contiguous (fun e he => h.elem hwf hx hw he) N
  · intro r' hr hready hlive
    exact write_frame (k := 5) hwf hvalid hwin rfl hr (hready.mono (Nat.le_add_right i 5)) hlive _

end Norm

/-! ## The residual chain -/

section Add

variable {m other a r add b out : T}

theorem IsAddChain.computes_add (h : g.IsAddChain i m other a r add b out) : g.Computes add :=
  ⟨owner_of_internal h.internal_add (by simp [h.op_add]), List.mem_of_getElem? h.at_add,
    by simp [h.op_add]⟩

theorem IsAddChain.window (h : g.IsAddChain i m other a r add b out) (hwf : g.WellFormed B) :
    g.Window i [a, r, add, b, out] :=
  .cons h.rt₁.fst h.rt₁.computes_fst.toOwner <|
    .cons h.rt₁.snd (h.rt₁.computes_snd hwf).toOwner <|
    .cons h.at_add h.computes_add.toOwner <|
    .cons h.rt₂.fst h.rt₂.computes_fst.toOwner <|
    .cons h.rt₂.snd (h.rt₂.computes_snd hwf).toOwner <| .nil _

/-- The nodes of a residual chain compute what the kernel computes, when the rounded operand is not
repeated. -/
theorem IsAddChain.elem (h : g.IsAddChain i m other a r add b out) (hwf : g.WellFormed B)
    (hne : (g.tensor r).ne = (g.tensor add).ne)
    (hm : AgreeOn (g.tensor m).region (g.unfused B M i) N)
    (ho : AgreeOn (g.tensor other).region (g.unfused B M (i + 2)) N) {e : Nat}
    (he : e < (g.tensor out).nelements) :
    (g.tensor out).elem 4 (g.unfused B M (i + 5)) e =
      meowAddOne B ((g.tensor m).elem 4 N e) ((g.tensor other).elem 4 N e) := by
  have hadd : e < (g.tensor add).nelements := by rwa [h.rt₂.nelements]
  have hr : e < (g.tensor r).nelements := by rwa [Tensor.nelements, hne]
  have hem : e < (g.tensor m).nelements := by rwa [h.rt₁.nelements]
  have heo : e < (g.tensor other).nelements := by rwa [Tensor.nelements, h.shape_other]
  calc (g.tensor out).elem 4 (g.unfused B M (i + 5)) e
      = meowBf16 B ((g.tensor add).elem 4 (g.unfused B M (i + 3)) e) := by
        rw [unfused_succ h.rt₂.snd, unfused_succ h.rt₂.fst, h.rt₂.elem hwf he]
    _ = meowBf16 B (B.add ((g.tensor r).elem 4 (g.unfused B M (i + 2)) e)
          ((g.tensor other).elem 4 (g.unfused B M (i + 2)) e)) := by
        rw [unfused_succ h.at_add, binary_elem hwf h.computes_add (.add h.op_add rfl) h.operands
          h.rt₁.type_snd h.type_other h.rt₂.type_src hne hadd,
          Tensor.elemRepeated_of_same h.shape_other heo]
    _ = meowAddOne B ((g.tensor m).elem 4 N e) ((g.tensor other).elem 4 N e) := by
        rw [Tensor.elem_congr_f32 h.type_other heo ho, unfused_succ h.rt₁.snd,
          unfused_succ h.rt₁.fst, h.rt₁.elem hwf hr,
          Tensor.elem_congr_f32 h.rt₁.type_src hem hm]
        rfl

theorem IsAddChain.nelements_other (h : g.IsAddChain i m other a r add b out) :
    (g.tensor other).nelements = (g.tensor out).nelements := by
  rw [Tensor.nelements, h.shape_other]
  exact h.rt₂.nelements

/-- The kernel asserts that the rounded operand has as many elements as the sum. -/
theorem IsAddChain.run (h : g.IsAddChain i m other a r add b out) (ord : Schedule) :
    g.run B ord N (.add m other out) =
      if (g.tensor m).nelements = (g.tensor out).nelements then
        some (elementwise (meowAddOne B) (g.tensor m) (g.tensor other) (g.tensor out)
          ord.blocks N)
      else none := by
  simp only [Cgraph.run, ggmlCudaMeowAddBf16, meowChain, h.rt₁.type_src, h.type_other,
    h.rt₂.type_snd, h.rt₁.contiguous_src, h.contiguous_other, h.rt₂.contiguous, h.nelements_other,
    guard, and_self, and_true, if_true]
  split <;> rfl

theorem add_step (hwf : g.WellFormed B) (hvalid : g.AllocationValid)
    (h : g.IsAddChain i m other a r add b out) (hpos : 0 < (g.tensor m).nelements)
    (hn : (g.tensor m).nelements = (g.tensor out).nelements)
    (hagree : g.AgreeLive i (g.unfused B M i) N) (ord : Schedule) :
    ∃ N', g.run B ord N (.add m other out) = some N' ∧
      g.AgreeLive (i + 5) (g.unfused B M (i + 5)) N' := by
  have hwin := h.window hwf
  obtain ⟨kr, ko, hkne, hkr, hko⟩ := h.operands.sources
  have haa : add ≠ a := ne_of_op (g := g) (by simp [h.op_add, h.rt₁.op_fst])
  have har : add ≠ r := ne_of_op (g := g) (by simp [h.op_add, h.rt₁.op_snd])
  have hdead₁ := h.rt₁.sealed hwf
  have hdead₂ := h.rt₁.sealed_snd hwf h.internal_r h.computes_add.mem har h.internal_add.viewSrc hkr
  have hdead₃ := h.rt₂.sealed_src hwf h.internal_add h.computes_add.mem
  have hdead₄ := h.rt₂.sealed hwf
  have hnr : (g.tensor r).nelements = (g.tensor add).nelements :=
    calc (g.tensor r).nelements = (g.tensor m).nelements := h.rt₁.nelements.symm
      _ = (g.tensor out).nelements := hn
      _ = (g.tensor add).nelements := h.rt₂.nelements.symm
  have hne : (g.tensor r).ne = (g.tensor add).ne :=
    h.operands.shape hwf h.computes_add (.inr h.op_add) hnr (by rwa [← hnr, ← h.rt₁.nelements])
  -- the two operands from outside
  have hm : AgreeOn (g.tensor m).region (g.unfused B M i) N := by
    have hne : m ≠ a := hwf.src_ne h.rt₁.computes_fst.mem h.rt₁.src_fst (.inr (by decide))
    exact window_source (k := 0) hwf hvalid hwin hagree rfl h.rt₁.src_fst hne (by simp)
  have ho : AgreeOn (g.tensor other).region (g.unfused B M (i + 2)) N := by
    have hne : other ≠ add := hwf.src_ne h.computes_add.mem hko (.inl (by simp [h.op_add]))
    refine window_source (k := 2) hwf hvalid hwin hagree rfl hko hne ?_
    have h₁ := hdead₁.root_ne h.computes_add.mem hko (by simp [haa, har])
    have h₂ := hdead₂.root_ne h.computes_add.mem hko (by simp [har, Ne.symm hkne])
    simp [h₁, h₂]
  have hrun := h.run (B := B) (N := N) ord
  rw [if_pos hn, elementwise_eq (meowAddOne B) (⟨h.rt₁.type_src, h.rt₂.type_snd,
    h.rt₁.contiguous_src, h.rt₂.contiguous, hn⟩ : Alike (g.tensor m) (g.tensor out))
    ⟨h.type_other, h.rt₂.type_snd, h.contiguous_other, h.rt₂.contiguous, h.nelements_other⟩ h.m_out
    h.other_out] at hrun
  refine ⟨_, hrun, window_agree hwf hvalid hwin hagree ?_ ?_⟩
  · simp only [List.forall_mem_cons, List.not_mem_nil, false_implies, implies_true, and_true]
    refine ⟨fun hl => absurd hl (hwin.dead hwf hdead₁ (by simp)),
      fun hl => absurd hl (hwin.dead hwf hdead₂ (by simp)),
      fun hl => absurd hl (hwin.dead hwf hdead₃ (by simp)),
      fun hl => absurd hl (hwin.dead hwf hdead₄ (by simp)), fun _ => ?_⟩
    exact agreeOn_written h.rt₂.type_snd h.rt₂.contiguous (fun e he => h.elem hwf hne hm ho he) N
  · intro r' hr hready hlive
    exact write_frame (k := 4) hwf hvalid hwin rfl hr (hready.mono (Nat.le_add_right i 4)) hlive _

end Add

/-! ## The SwiGLU chain -/

section Swiglu

variable {x a r silu b s up c u mul d out : T}

theorem IsSwigluChain.computes_silu (h : g.IsSwigluChain i x a r silu b s up c u mul d out) :
    g.Computes silu :=
  ⟨owner_of_internal h.internal_silu (by simp [h.op_silu]), List.mem_of_getElem? h.at_silu,
    by simp [h.op_silu]⟩

theorem IsSwigluChain.computes_mul (h : g.IsSwigluChain i x a r silu b s up c u mul d out) :
    g.Computes mul :=
  ⟨owner_of_internal h.internal_mul (by simp [h.op_mul]), List.mem_of_getElem? h.at_mul,
    by simp [h.op_mul]⟩

theorem IsSwigluChain.computes_up (h : g.IsSwigluChain i x a r silu b s up c u mul d out)
    (hwf : g.WellFormed B) : g.Computes up :=
  have hmem := List.mem_of_getElem? h.at_up
  ⟨⟨h.compute_up, hwf.mulMat up hmem h.op_up, by simp [h.op_up]⟩, hmem, by simp [h.op_up]⟩

theorem IsSwigluChain.window (h : g.IsSwigluChain i x a r silu b s up c u mul d out)
    (hwf : g.WellFormed B) : g.Window i [a, r, silu, b, s, up, c, u, mul, d, out] :=
  .cons h.rt₁.fst h.rt₁.computes_fst.toOwner <|
    .cons h.rt₁.snd (h.rt₁.computes_snd hwf).toOwner <|
    .cons h.at_silu h.computes_silu.toOwner <|
    .cons h.rt₂.fst h.rt₂.computes_fst.toOwner <|
    .cons h.rt₂.snd (h.rt₂.computes_snd hwf).toOwner <|
    .cons h.at_up (h.computes_up hwf).toOwner <|
    .cons h.rt₃.fst h.rt₃.computes_fst.toOwner <|
    .cons h.rt₃.snd (h.rt₃.computes_snd hwf).toOwner <|
    .cons h.at_mul h.computes_mul.toOwner <|
    .cons h.rt₄.fst h.rt₄.computes_fst.toOwner <|
    .cons h.rt₄.snd (h.rt₄.computes_snd hwf).toOwner <| .nil _

/-- Every node of a SwiGLU chain has the shape of the gate. -/
theorem IsSwigluChain.shapes (h : g.IsSwigluChain i x a r silu b s up c u mul d out)
    (hwf : g.WellFormed B) : (g.tensor r).ne = (g.tensor x).ne ∧
      (g.tensor silu).ne = (g.tensor x).ne ∧ (g.tensor s).ne = (g.tensor x).ne ∧
      (g.tensor u).ne = (g.tensor x).ne ∧ (g.tensor mul).ne = (g.tensor x).ne ∧
      (g.tensor out).ne = (g.tensor x).ne := by
  obtain ⟨r', hr', hsilu⟩ := hwf.unary silu h.computes_silu.mem (by rw [h.op_silu]; rfl)
  cases h.src_silu.symm.trans hr'
  have hs : (g.tensor s).ne = (g.tensor x).ne := ((h.rt₂.ne hwf).trans hsilu).trans (h.rt₁.ne hwf)
  have hu : (g.tensor u).ne = (g.tensor x).ne := (h.rt₃.ne hwf).trans h.shape_up.symm
  have hmul : (g.tensor mul).ne = (g.tensor x).ne := by
    obtain ⟨p, q, hp, -, hne, -⟩ := hwf.binary mul h.computes_mul.mem (.inl h.op_mul)
    rcases h.operands with ⟨h₀, -⟩ | ⟨h₀, -⟩
    · cases h₀.symm.trans hp
      exact hne.trans hs
    · cases h₀.symm.trans hp
      exact hne.trans hu
  exact ⟨h.rt₁.ne hwf, hsilu.trans (h.rt₁.ne hwf), hs, hu, hmul, h.shape_out.symm.trans hmul⟩

/-- The nodes of a SwiGLU chain compute what the kernel computes, when the rounded gate survives the
nodes of the up projection. -/
theorem IsSwigluChain.elem (h : g.IsSwigluChain i x a r silu b s up c u mul d out)
    (hwf : g.WellFormed B) (hx : AgreeOn (g.tensor x).region (g.unfused B M i) N)
    (hup : AgreeOn (g.tensor up).region (g.unfused B M (i + 6)) N)
    (hs : AgreeOn (g.tensor s).region (g.unfused B M (i + 8)) (g.unfused B M (i + 5))) {e : Nat}
    (he : e < (g.tensor out).nelements) :
    (g.tensor out).elem 4 (g.unfused B M (i + 11)) e =
      meowSwigluOne B ((g.tensor x).elem 4 N e) ((g.tensor up).elem 4 N e) := by
  obtain ⟨hrne, hsilune, hsne, hune, hmulne, houtne⟩ := h.shapes hwf
  have hen : ∀ t : T, (g.tensor t).ne = (g.tensor x).ne → e < (g.tensor t).nelements := by
    intro t ht
    rwa [Tensor.nelements, ht, ← houtne]
  have hst : (g.tensor s).type = .f32 := h.rt₂.type_snd
  have hupt : (g.tensor up).type = .f32 := h.rt₃.type_src
  calc (g.tensor out).elem 4 (g.unfused B M (i + 11)) e
      = meowBf16 B ((g.tensor mul).elem 4 (g.unfused B M (i + 9)) e) := by
        rw [unfused_succ h.rt₄.snd, unfused_succ h.rt₄.fst, h.rt₄.elem hwf he]
    _ = meowBf16 B (B.mul ((g.tensor s).elem 4 (g.unfused B M (i + 8)) e)
          ((g.tensor u).elem 4 (g.unfused B M (i + 8)) e)) := by
        rw [unfused_succ h.at_mul, binary_elem hwf h.computes_mul (.mul h.op_mul rfl) h.operands
          hst h.rt₃.type_snd h.rt₄.type_src (hsne.trans hmulne.symm) (hen mul hmulne),
          Tensor.elemRepeated_of_same (hune.trans hmulne.symm) (hen u hune)]
    _ = meowBf16 B (B.mul ((g.tensor s).elem 4 (g.unfused B M (i + 5)) e)
          (meowBf16 B ((g.tensor up).elem 4 N e))) := by
        rw [Tensor.elem_congr_f32 hst (hen s hsne) hs, unfused_succ h.rt₃.snd,
          unfused_succ h.rt₃.fst, h.rt₃.elem hwf (hen u hune),
          Tensor.elem_congr_f32 hupt (hen up h.shape_up.symm) hup]
    _ = meowBf16 B (B.mul (meowBf16 B (B.silu ((g.tensor r).elem 4 (g.unfused B M (i + 2)) e)))
          (meowBf16 B ((g.tensor up).elem 4 N e))) := by
        rw [unfused_succ h.rt₂.snd, unfused_succ h.rt₂.fst, h.rt₂.elem hwf (hen s hsne),
          unfused_succ h.at_silu, silu_elem hwf h.computes_silu h.op_silu h.src_silu
            h.rt₁.type_snd h.rt₂.type_src (hen silu hsilune)]
    _ = meowSwigluOne B ((g.tensor x).elem 4 N e) ((g.tensor up).elem 4 N e) := by
        rw [unfused_succ h.rt₁.snd, unfused_succ h.rt₁.fst, h.rt₁.elem hwf (hen r hrne),
          Tensor.elem_congr_f32 h.rt₁.type_src (hen x rfl) hx]
        rfl

theorem IsSwigluChain.alike (h : g.IsSwigluChain i x a r silu b s up c u mul d out)
    (hwf : g.WellFormed B) : Alike (g.tensor x) (g.tensor out) ∧
      Alike (g.tensor up) (g.tensor out) := by
  obtain ⟨-, -, -, -, -, houtne⟩ := h.shapes hwf
  have hx : (g.tensor x).nelements = (g.tensor out).nelements := by
    rw [Tensor.nelements, ← houtne]
    rfl
  have hup : (g.tensor up).nelements = (g.tensor out).nelements := by
    rw [Tensor.nelements, ← h.shape_up]
    exact hx
  exact ⟨⟨h.rt₁.type_src, h.rt₄.type_snd, h.rt₁.contiguous_src, h.rt₄.contiguous, hx⟩,
    h.rt₃.type_src, h.rt₄.type_snd, h.rt₃.contiguous_src, h.rt₄.contiguous, hup⟩

theorem IsSwigluChain.run (h : g.IsSwigluChain i x a r silu b s up c u mul d out)
    (hwf : g.WellFormed B) (ord : Schedule) : g.run B ord N (.swiglu x up out) =
      some (elementwise (meowSwigluOne B) (g.tensor x) (g.tensor up) (g.tensor out) ord.blocks
        (g.computeForward B up N)) := by
  obtain ⟨hx, hup⟩ := h.alike hwf
  simp only [Cgraph.run, ggmlCudaMeowSwigluBf16, meowChain, hx.type_src, hup.type_src, hx.type,
    hx.contiguous_src, hup.contiguous_src, hx.contiguous, hx.nelements, hup.nelements, guard,
    and_self, if_true]
  rfl

/-- The up projection, run ahead of the gate, computes what it computes in its place. -/
theorem up_early (hwf : g.WellFormed B) (hup : g.Computes up) (hat : g.nodes[i]? = some up)
    (hpos : 0 < (g.tensor up).nelements)
    (hreads : ∀ k v, (g.tensor up).src k = some v → v ≠ up →
      AgreeOn (g.tensor v).region (g.unfused B M i) N) :
    AgreeOn (g.tensor up).region (g.unfused B M (i + 1)) (g.computeForward B up N) := by
  rw [unfused_succ hat, hup.evaluate hpos]
  intro z hz
  rw [computeForward, computeForward, write_of_mem hz, write_of_mem hz]
  refine result_congr hwf hup.mem (fun v hv => ?_) ?_
  · simp only [reads, hup.viewSrc, Option.isSome_none, Bool.false_eq_true, if_false,
      List.append_nil, List.mem_filter, List.mem_filterMap, decide_not, Bool.not_eq_true',
      decide_eq_false_iff_not] at hv
    obtain ⟨⟨k, -, hk⟩, hne⟩ := hv
    exact hreads k v hk hne
  · have h₁ := hz.1
    have h₂ := hz.2
    simp only [Tensor.region] at h₁ h₂ ⊢
    omega

theorem swiglu_step (hwf : g.WellFormed B) (hvalid : g.AllocationValid)
    (h : g.IsSwigluChain i x a r silu b s up c u mul d out) (hpos : 0 < (g.tensor x).nelements)
    (hagree : g.AgreeLive i (g.unfused B M i) N) (ord : Schedule) :
    ∃ N', g.run B ord N (.swiglu x up out) = some N' ∧
      g.AgreeLive (i + 11) (g.unfused B M (i + 11)) N' := by
  have hwin := h.window hwf
  obtain ⟨ks, ku, -, hks, hku⟩ := h.operands.sources
  have hsilu_r : silu ≠ r := ne_of_op (g := g) (by simp [h.op_silu, h.rt₁.op_snd])
  have hmul_s : mul ≠ s := ne_of_op (g := g) (by simp [h.op_mul, h.rt₂.op_snd])
  have hmul_u : mul ≠ u := ne_of_op (g := g) (by simp [h.op_mul, h.rt₃.op_snd])
  have hdead_a := h.rt₁.sealed hwf
  have hdead_r := h.rt₁.sealed_snd hwf h.internal_r h.computes_silu.mem hsilu_r
    h.internal_silu.viewSrc h.src_silu
  have hdead_silu := h.rt₂.sealed_src hwf h.internal_silu h.computes_silu.mem
  have hdead_b := h.rt₂.sealed hwf
  have hdead_s := h.rt₂.sealed_snd hwf h.internal_s h.computes_mul.mem hmul_s
    h.internal_mul.viewSrc hks
  have hdead_c := h.rt₃.sealed hwf
  have hdead_u := h.rt₃.sealed_snd hwf h.internal_u h.computes_mul.mem hmul_u
    h.internal_mul.viewSrc hku
  have hdead_mul := h.rt₄.sealed_src hwf h.internal_mul h.computes_mul.mem
  have hdead_d := h.rt₄.sealed hwf
  have hupc := h.computes_up hwf
  have hposup : 0 < (g.tensor up).nelements := by rwa [Tensor.nelements, ← h.shape_up]
  -- the up projection is none of the references to the nodes it is run ahead of
  have hup_a : up ≠ a := ne_of_op (g := g) (by simp [h.op_up, h.rt₁.op_fst])
  have hup_r : up ≠ r := ne_of_op (g := g) (by simp [h.op_up, h.rt₁.op_snd])
  have hup_silu : up ≠ silu := ne_of_op (g := g) (by simp [h.op_up, h.op_silu])
  have hup_b : up ≠ b := ne_of_op (g := g) (by simp [h.op_up, h.rt₂.op_fst])
  have hup_s : up ≠ s := ne_of_op (g := g) (by simp [h.op_up, h.rt₂.op_snd])
  have hup_mul : up ≠ mul := ne_of_op (g := g) (by simp [h.op_up, h.op_mul])
  have hreads : ∀ k v, (g.tensor up).src k = some v → v ≠ up →
      AgreeOn (g.tensor v).region (g.unfused B M (i + 5)) N := by
    intro k v hk hne
    refine window_source (k := 5) hwf hvalid hwin hagree rfl hk hne ?_
    have h₁ := hdead_a.root_ne hupc.mem hk (by simp [hup_a, hup_r])
    have h₂ := hdead_r.root_ne hupc.mem hk (by simp [hup_r, hup_silu])
    have h₃ := hdead_silu.root_ne hupc.mem hk (by simp [hup_b])
    have h₄ := hdead_b.root_ne hupc.mem hk (by simp [hup_b, hup_s])
    have h₅ := hdead_s.root_ne hupc.mem hk (by simp [hup_s, hup_mul])
    simp [h₁, h₂, h₃, h₄, h₅]
  have hup := up_early hwf hupc h.at_up hposup hreads
  obtain ⟨N₁, hN₁⟩ : ∃ N₁, N₁ = g.computeForward B up N := ⟨_, rfl⟩
  rw [← hN₁] at hup
  have hx : AgreeOn (g.tensor x).region (g.unfused B M i) N₁ := by
    have hne : x ≠ a := hwf.src_ne h.rt₁.computes_fst.mem h.rt₁.src_fst (.inr (by decide))
    have hx₀ := window_source (k := 0) hwf hvalid hwin hagree rfl h.rt₁.src_fst hne (by simp)
    rw [hN₁]
    exact hx₀.trans (write_agree (not_overlaps_of_disjoint h.up_x) _ N).symm
  -- the rounded gate is read by the product, so nothing in between is put over it
  have hs : AgreeOn (g.tensor s).region (g.unfused B M (i + 8)) (g.unfused B M (i + 5)) := by
    have hready : g.Ready (i + 5) s :=
      .inr (.inr ⟨h.internal_s.compute, mem_take_of_lt h.rt₂.snd (Nat.lt_succ_self _)⟩)
    have hlive : g.LiveFrom (i + 5 + 3) s :=
      ⟨s, root_of_owner h.internal_s.viewSrc, .inr ⟨mul, mem_drop_of_le h.at_mul (Nat.le_refl _),
        h.internal_mul.compute, ks, hks⟩⟩
    exact unfused_frame hwf hvalid (hwin.drop 5) h.internal_s.viewSrc hready M (by simp) hlive
  obtain ⟨halikex, halikeup⟩ := h.alike hwf
  have hrun := h.run hwf (N := N) ord
  rw [← hN₁, elementwise_eq (meowSwigluOne B) halikex halikeup h.x_out h.up_out] at hrun
  refine ⟨_, hrun, window_agree hwf hvalid hwin hagree ?_ ?_⟩
  · simp only [List.forall_mem_cons, List.not_mem_nil, false_implies, implies_true, and_true]
    refine ⟨fun hl => absurd hl (hwin.dead hwf hdead_a (by simp)),
      fun hl => absurd hl (hwin.dead hwf hdead_r (by simp)),
      fun hl => absurd hl (hwin.dead hwf hdead_silu (by simp)),
      fun hl => absurd hl (hwin.dead hwf hdead_b (by simp)),
      fun hl => absurd hl (hwin.dead hwf hdead_s (by simp)), fun hlive => ?_,
      fun hl => absurd hl (hwin.dead hwf hdead_c (by simp)),
      fun hl => absurd hl (hwin.dead hwf hdead_u (by simp)),
      fun hl => absurd hl (hwin.dead hwf hdead_mul (by simp)),
      fun hl => absurd hl (hwin.dead hwf hdead_d (by simp)), fun _ => ?_⟩
    · -- the up projection itself may have further readers
      have hready : g.Ready (i + 6) up :=
        .inr (.inr ⟨h.compute_up, mem_take_of_lt h.at_up (Nat.lt_succ_self _)⟩)
      have hbehind := unfused_frame hwf hvalid (hwin.drop 6) hupc.viewSrc hready M
        (k := 5) (by simp) hlive
      exact (hbehind.trans hup).trans (write_frame (k := 10) hwf hvalid hwin rfl hupc.viewSrc
        (hready.mono (Nat.le_add_right _ 4)) hlive _).symm
    · exact agreeOn_written h.rt₄.type_snd h.rt₄.contiguous
        (fun e he => h.elem hwf hx hup hs he) N₁
  · intro r' hr hready hlive
    have hout := write_frame (N := N₁) (k := 10) hwf hvalid hwin rfl hr
      (hready.mono (Nat.le_add_right i 10)) hlive
    have hearly := write_frame (N := N) (k := 5) hwf hvalid hwin rfl hr
      (hready.mono (Nat.le_add_right i 5)) (hlive.mono (Nat.le_add_right _ 5))
    refine (hout _).trans ?_
    rw [hN₁]
    exact hearly _

end Swiglu

end Cgraph

end Fuse
