import SuprMeow.Fuse.Kernels

/-!
# Which bytes still matter

Two memories agree before node `p` when they agree on every buffer that has its contents and a
later use.  An ordinary node keeps this.  A node in front of a later use does not touch the buffer
(the allocation is valid), and an internal node of a window has no use behind it (its use count).

* `Sealed` — every reference to a node is known, and none is a view;
* `Sealed.not_live` — behind its references such a node is dead;
* `unfused_frame` — a window of nodes leaves alone what is used behind it;
* `agreeLive_evaluate` — an ordinary node.
-/

set_option autoImplicit false

namespace Fuse

open ByteMemory Strided Runs

namespace Cgraph

variable {T : Type} {g : Cgraph T} {B : Backend T}

/-! ## Positions -/

theorem mem_take_of_lt {p q : Nat} {t : T} (h : g.nodes[q]? = some t) (hq : q < p) :
    t ∈ g.nodes.take p := by
  refine List.mem_of_getElem? (i := q) ?_
  rw [List.getElem?_take_of_lt hq, h]

theorem mem_drop_of_le {p q : Nat} {t : T} (h : g.nodes[q]? = some t) (hq : p ≤ q) :
    t ∈ g.nodes.drop p := by
  refine List.mem_of_getElem? (i := q - p) ?_
  rw [List.getElem?_drop, Nat.add_sub_cancel' hq, h]

theorem WellFormed.not_mem_drop (hwf : g.WellFormed B) {p : Nat} {t : T}
    (h : t ∈ g.nodes.take p) : t ∉ g.nodes.drop p :=
  fun h' => List.disjoint_take_drop hwf.nodup (Nat.le_refl p) h h'

theorem WellFormed.ne_of_take (hwf : g.WellFormed B) {p q : Nat} {r t : T}
    (h : r ∈ g.nodes.take p) (ht : g.nodes[q]? = some t) (hq : p ≤ q) : r ≠ t := by
  rintro rfl
  exact hwf.not_mem_drop h (mem_drop_of_le ht hq)

theorem LiveFrom.mono {p q : Nat} {r : T} (h : g.LiveFrom q r) (hpq : p ≤ q) : g.LiveFrom p r := by
  obtain ⟨u, hu, h⟩ := h
  refine ⟨u, hu, h.imp_right ?_⟩
  rintro ⟨t, ht, hread⟩
  exact ⟨t, (List.drop_subset_drop_left _ hpq) ht, hread⟩

theorem Ready.mono {p q : Nat} {r : T} (h : g.Ready p r) (hpq : p ≤ q) : g.Ready q r :=
  h.imp_right <| Or.imp_right <| And.imp_right fun hr => List.take_subset_take_left _ hpq hr

theorem Ready.of_succ {p : Nat} {r t : T} (h : g.Ready (p + 1) r) (ht : g.nodes[p]? = some t)
    (hne : r ≠ t) : g.Ready p r := by
  refine h.imp_right <| Or.imp_right <| And.imp_right fun hr => ?_
  rw [List.take_add_one, ht, List.mem_append] at hr
  refine hr.resolve_right ?_
  simpa using hne

/-- What is ready at a position is none of the computed nodes behind it. -/
theorem Ready.ne (hwf : g.WellFormed B) {p q : Nat} {r t : T} (h : g.Ready p r)
    (ht : g.nodes[q]? = some t) (hop : (g.tensor t).op ≠ .none) (hq : p ≤ q) : r ≠ t := by
  rcases h with h | h | ⟨-, h⟩
  · rintro rfl
    exact h (List.mem_of_getElem? ht)
  · rintro rfl
    exact hop h
  · exact hwf.ne_of_take h ht hq

theorem take_succ {p : Nat} {t : T} (ht : g.nodes[p]? = some t) :
    g.nodes.take (p + 1) = g.nodes.take p ++ [t] := by
  rw [List.take_add_one, ht]
  rfl

/-! ## Buffers -/

theorem root_eq_iff {u r : T} :
    g.root u = r ↔ (g.tensor u).viewSrc = some r ∨ ((g.tensor u).viewSrc = none ∧ u = r) := by
  unfold root
  cases (g.tensor u).viewSrc <;> simp

theorem root_of_owner {r : T} (h : (g.tensor r).viewSrc = none) : g.root r = r :=
  root_eq_iff.2 (.inr ⟨h, rfl⟩)

theorem WellFormed.root_owner (hwf : g.WellFormed B) (u : T) :
    (g.tensor (g.root u)).viewSrc = none ∧
      (g.tensor u).region.Within (g.tensor (g.root u)).region := by
  cases h : (g.tensor u).viewSrc with
  | none =>
    rw [root_of_owner h]
    exact ⟨h, Region.Within.refl _⟩
  | some r =>
    have hroot : g.root u = r := root_eq_iff.2 (.inl h)
    rw [hroot]
    exact ⟨(hwf.views u r h).1, (hwf.views u r h).2.1⟩

/-- A source is in a buffer that is ready and live when the node runs. -/
theorem WellFormed.source_live (hwf : g.WellFormed B) {p : Nat} {t s : T} {k : Fin ggmlMaxSrc}
    (ht : g.nodes[p]? = some t) (hc : (g.tensor t).compute = true)
    (hs : (g.tensor t).src k = some s) (hne : s ≠ t) :
    g.Ready p (g.root s) ∧ g.LiveFrom p (g.root s) := by
  obtain ⟨hp, rfl⟩ := List.getElem?_eq_some_iff.1 ht
  exact ⟨hwf.sources ⟨p, hp⟩ hc k s hs hne,
    s, rfl, .inr ⟨_, mem_drop_of_le ht (Nat.le_refl p), hc, k, hs⟩⟩

/-- A computed node with a buffer of its own. -/
structure Owner (g : Cgraph T) (t : T) : Prop where
  compute : (g.tensor t).compute = true
  viewSrc : (g.tensor t).viewSrc = none
  op : (g.tensor t).op ≠ .none

theorem AllocationValid.not_overlaps (hvalid : g.AllocationValid) {p : Nat} {t r : T}
    (ht : g.nodes[p]? = some t) (hown : g.Owner t) (hr : (g.tensor r).viewSrc = none)
    (hne : r ≠ t) (hready : g.Ready p r) (hlive : g.LiveFrom (p + 1) r) :
    ¬ (g.tensor t).region.Overlaps (g.tensor r).region := by
  obtain ⟨hp, rfl⟩ := List.getElem?_eq_some_iff.1 ht
  exact fun h => hvalid ⟨p, hp⟩ hown.compute hown.viewSrc r hr hne hready h hlive

/-! ## Nodes without other references -/

/-- A view of a node goes back to a view that names the node as a source. -/
theorem WellFormed.view_reference (hwf : g.WellFormed B) {r : T} (hr : r ∈ g.nodes) :
    ∀ (p : Nat) (u : T), g.nodes[p]? = some u → (g.tensor u).viewSrc = some r →
      ∃ v k, v ∈ g.nodes ∧ (g.tensor v).viewSrc = some r ∧ (g.tensor v).src k = some r := by
  intro p
  induction p using Nat.strong_induction_on with
  | _ p ih =>
    intro u hu hview
    obtain ⟨hp, rfl⟩ := List.getElem?_eq_some_iff.1 hu
    obtain ⟨k, s, hs, hroot, -, hearlier⟩ := hwf.viewSource ⟨p, hp⟩ r hview
    by_cases hsr : s = r
    · exact ⟨_, k, List.mem_of_getElem? hu, hview, hsr ▸ hs⟩
    · have hsview : (g.tensor s).viewSrc = some r :=
        (root_eq_iff.1 hroot).resolve_right fun h => hsr h.2
      have htake : s ∈ g.nodes.take p := hearlier ((hwf.views s r hsview).2.2 hr)
      obtain ⟨q, hq⟩ := List.mem_iff_getElem?.1 htake
      obtain ⟨hlt, -⟩ := List.getElem?_eq_some_iff.1 hq
      rw [List.length_take] at hlt
      exact ih q (by omega) s (by rwa [List.getElem?_take_of_lt (by omega)] at hq) hsview

/-- A node that is no output, and of which all references are known and none is a view. -/
structure Sealed (g : Cgraph T) (t : T) (L : List (T × Fin ggmlMaxSrc)) : Prop where
  output : (g.tensor t).output = false
  noView : ∀ u, (g.tensor u).viewSrc ≠ some t
  refs : ∀ v ∈ g.nodes, ∀ k, (g.tensor v).src k = some t → (v, k) ∈ L

section Sealed

variable {t : T} {L : List (T × Fin ggmlMaxSrc)}

/-- A source that is not among the references lies in another buffer. -/
theorem Sealed.root_ne (h : g.Sealed t L) {v u : T} {k : Fin ggmlMaxSrc} (hv : v ∈ g.nodes)
    (hk : (g.tensor v).src k = some u) (hL : (v, k) ∉ L) : g.root u ≠ t := by
  intro hroot
  rcases root_eq_iff.1 hroot with hview | ⟨-, rfl⟩
  · exact h.noView u hview
  · exact hL (h.refs v hv k hk)

/-- **Behind its references a sealed node is dead.** -/
theorem Sealed.not_live (h : g.Sealed t L) (hwf : g.WellFormed B) {p : Nat}
    (hL : ∀ v k, (v, k) ∈ L → v ∈ g.nodes.take p) : ¬ g.LiveFrom p t := by
  rintro ⟨u, hroot, hu⟩
  rcases root_eq_iff.1 hroot with hview | ⟨-, rfl⟩
  · exact h.noView u hview
  rcases hu with hout | ⟨v, hv, -, k, hk⟩
  · rw [h.output] at hout
    cases hout
  · exact hwf.not_mem_drop (hL v k (h.refs v (List.mem_of_mem_drop hv) k hk)) hv

end Sealed

variable [DecidableEq T]

theorem mem_references {t v : T} {k : Fin ggmlMaxSrc} :
    (v, k) ∈ g.references t ↔ v ∈ g.nodes ∧ (g.tensor v).src k = some t := by
  simp [references]

/-- As many known references as the use count are all of them. -/
theorem mem_of_useCount {t : T} {L : List (T × Fin ggmlMaxSrc)} (hL : L.Nodup)
    (hsub : ∀ x ∈ L, x ∈ g.references t) (hlen : g.useCount t = L.length)
    {x : T × Fin ggmlMaxSrc} (hx : x ∈ g.references t) : x ∈ L := by
  have hperm : L.Perm (g.references t) :=
    (List.subperm_of_subset hL hsub).perm_of_length_le (Nat.le_of_eq hlen)
  exact hperm.mem_iff.2 hx

theorem IsInternal.sealed (hwf : g.WellFormed B) {t : T} {L : List (T × Fin ggmlMaxSrc)}
    (h : g.IsInternal t L.length) (ht : t ∈ g.nodes) (hL : L.Nodup)
    (href : ∀ v k, (v, k) ∈ L → v ∈ g.nodes ∧ (g.tensor v).src k = some t ∧
      (g.tensor v).viewSrc = none) : g.Sealed t L := by
  have hrefs : ∀ v ∈ g.nodes, ∀ k, (g.tensor v).src k = some t → (v, k) ∈ L := by
    intro v hv k hk
    refine mem_of_useCount hL ?_ h.useCount (mem_references.2 ⟨hv, hk⟩)
    rintro ⟨v, k⟩ hvk
    obtain ⟨h₁, h₂, -⟩ := href v k hvk
    exact mem_references.2 ⟨h₁, h₂⟩
  refine ⟨h.output, fun u hu => ?_, hrefs⟩
  -- the first view would be a reference, and no reference is a view
  obtain ⟨p, hp⟩ := List.mem_iff_getElem?.1 ((hwf.views u t hu).2.2 ht)
  obtain ⟨v, k, hv, hview, hk⟩ := hwf.view_reference ht p u hp hu
  rw [(href v k (hrefs v hv k hk)).2.2] at hview
  cases hview

/-! ## Frames -/

theorem evaluate_agree {t : T} {R : Region} (h : ¬ (g.tensor t).region.Overlaps R) (M : Mem) :
    AgreeOn R (g.evaluate B M t) M := by
  unfold evaluate
  split
  · exact AgreeOn.refl R M
  · exact write_agree h _ M

theorem unfused_succ {p : Nat} {t : T} (ht : g.nodes[p]? = some t) (M : Mem) :
    g.unfused B M (p + 1) = g.evaluate B (g.unfused B M p) t := by
  rw [unfused, take_succ ht, List.foldl_append]
  rfl

/-- Consecutive nodes from node `i` on, each computed into a buffer of its own. -/
structure Window (g : Cgraph T) (i : Nat) (ts : List T) : Prop where
  nodes : ∀ j < ts.length, g.nodes[i + j]? = ts[j]?
  owners : ∀ t ∈ ts, g.Owner t

namespace Window

variable {i : Nat} {ts : List T}

omit [DecidableEq T] in
theorem nil (i : Nat) : g.Window i [] := ⟨by simp, by simp⟩

omit [DecidableEq T] in
theorem cons {t : T} (ht : g.nodes[i]? = some t) (hown : g.Owner t) (h : g.Window (i + 1) ts) :
    g.Window i (t :: ts) := by
  refine ⟨fun j hj => ?_, List.forall_mem_cons.2 ⟨hown, h.owners⟩⟩
  cases j with
  | zero => exact ht
  | succ j =>
    rw [← Nat.add_assoc, Nat.add_right_comm, h.nodes j (Nat.lt_of_succ_lt_succ hj)]
    rfl

omit [DecidableEq T] in
theorem get (h : g.Window i ts) {j : Nat} {t : T} (ht : ts[j]? = some t) :
    g.nodes[i + j]? = some t := by
  obtain ⟨hj, -⟩ := List.getElem?_eq_some_iff.1 ht
  rw [h.nodes j hj, ht]

omit [DecidableEq T] in
theorem drop (h : g.Window i ts) (d : Nat) : g.Window (i + d) (ts.drop d) := by
  refine ⟨fun j hj => ?_, fun t ht => h.owners t (List.mem_of_mem_drop ht)⟩
  rw [List.length_drop] at hj
  rw [List.getElem?_drop, Nat.add_assoc, h.nodes (d + j) (by omega)]

omit [DecidableEq T] in
/-- A node with all its references in the window is dead behind it. -/
theorem dead (h : g.Window i ts) (hwf : g.WellFormed B) {t : T} {L : List (T × Fin ggmlMaxSrc)}
    (ht : g.Sealed t L) (hL : ∀ x ∈ L, x.1 ∈ ts) : ¬ g.LiveFrom (i + ts.length) t := by
  refine ht.not_live hwf fun v k hvk => ?_
  obtain ⟨j, hj⟩ := List.mem_iff_getElem?.1 (hL (v, k) hvk)
  obtain ⟨hlt, -⟩ := List.getElem?_eq_some_iff.1 hj
  exact mem_take_of_lt (h.get hj) (Nat.add_lt_add_left hlt i)

omit [DecidableEq T] in
/-- What is ready behind some nodes of a window, and is none of them, was ready in front. -/
theorem ready (h : g.Window i ts) {r : T} :
    ∀ {k : Nat}, k ≤ ts.length → r ∉ ts.take k → g.Ready (i + k) r → g.Ready i r := by
  intro k
  induction k with
  | zero => exact fun _ _ hr => hr
  | succ k ih =>
    intro hk hmem hr
    have hget : ts[k]? = some ts[k] := List.getElem?_eq_getElem hk
    rw [List.take_add_one, hget, List.mem_append, not_or] at hmem
    refine ih (Nat.le_of_succ_le hk) hmem.1 ?_
    exact hr.of_succ (h.get hget) fun heq => hmem.2 (by simp [heq])

end Window

/-- **A window of nodes leaves alone what is used behind it.** -/
theorem unfused_frame (hwf : g.WellFormed B) (hvalid : g.AllocationValid) {i : Nat} {ts : List T}
    (hwin : g.Window i ts) {r : T} (hr : (g.tensor r).viewSrc = none) (hready : g.Ready i r)
    (M : Mem) : ∀ {k : Nat}, k ≤ ts.length → g.LiveFrom (i + k) r →
      AgreeOn (g.tensor r).region (g.unfused B M (i + k)) (g.unfused B M i) := by
  intro k
  induction k with
  | zero => exact fun _ _ => AgreeOn.refl _ _
  | succ k ih =>
    intro hk hlive
    have hget : ts[k]? = some ts[k] := List.getElem?_eq_getElem hk
    have hown := hwin.owners _ (List.mem_of_getElem? hget)
    have hne : r ≠ ts[k] := hready.ne hwf (hwin.get hget) hown.op (Nat.le_add_right i k)
    have hstep := hvalid.not_overlaps (hwin.get hget) hown hr hne
      (hready.mono (Nat.le_add_right i k)) hlive
    rw [← Nat.add_assoc, unfused_succ (hwin.get hget)]
    exact (evaluate_agree hstep _).trans (ih (Nat.le_of_succ_le hk) (hlive.mono (Nat.le_succ _)))

/-! ## Agreement on live buffers -/

/-- The memories agree on every buffer that has its contents before node `p` and a use from then
on. -/
def AgreeLive (g : Cgraph T) (p : Nat) (M N : Mem) : Prop :=
  ∀ r, (g.tensor r).viewSrc = none → g.Ready p r → g.LiveFrom p r → AgreeOn (g.tensor r).region M N

/-- Memories that agree before a node agree on what it reads. -/
theorem AgreeLive.reads {p : Nat} {M N : Mem} (h : g.AgreeLive p M N) (hwf : g.WellFormed B)
    {t : T} (ht : g.nodes[p]? = some t) (hc : (g.tensor t).compute = true) {u : T}
    (hu : u ∈ g.reads t) : AgreeOn (g.tensor u).region M N := by
  have hsrc : ∀ {k s}, (g.tensor t).src k = some s → s ≠ t →
      AgreeOn (g.tensor (g.root s)).region M N := by
    intro k s hs hne
    obtain ⟨hready, hlive⟩ := hwf.source_live ht hc hs hne
    exact h _ (hwf.root_owner s).1 hready hlive
  unfold Cgraph.reads at hu
  rcases List.mem_append.1 hu with hu | hu
  · obtain ⟨hu, hne⟩ := List.mem_filter.1 hu
    obtain ⟨k, -, hk⟩ := List.mem_filterMap.1 hu
    exact (hsrc hk (by simpa using hne)).within (hwf.root_owner u).2
  · -- the node writes through a view of a buffer one of its sources lies in
    split at hu
    swap
    · cases hu
    rename_i hview
    rw [List.mem_singleton] at hu
    subst hu
    obtain ⟨r, hr⟩ := Option.isSome_iff_exists.1 hview
    obtain ⟨hp, rfl⟩ := List.getElem?_eq_some_iff.1 ht
    obtain ⟨k, s, hs, hroot, hne, -⟩ := hwf.viewSource ⟨p, hp⟩ r hr
    have hagree := hsrc hs hne
    rw [hroot] at hagree
    exact hagree.within (hwf.views _ r hr).2.1

/-- **An ordinary node keeps the agreement.** -/
theorem agreeLive_evaluate (hwf : g.WellFormed B) {p : Nat} {t : T} (ht : g.nodes[p]? = some t)
    {M N : Mem} (h : g.AgreeLive p M N) :
    g.AgreeLive (p + 1) (g.evaluate B M t) (g.evaluate B N t) := by
  intro r hr hready hlive
  have hold : r ≠ t → AgreeOn (g.tensor r).region M N := fun hne =>
    h r hr (hready.of_succ ht hne) (hlive.mono (Nat.le_succ p))
  have hmem := List.mem_of_getElem? ht
  unfold evaluate
  split
  · -- nothing is written: an empty node, or one that is no computation
    rename_i hskip
    by_cases hne : r = t
    swap
    · exact hold hne
    subst hne
    by_cases hop : (g.tensor r).op = .none
    · exact h r hr (.inr (.inl hop)) (hlive.mono (Nat.le_succ p))
    have hc : (g.tensor r).compute = true := by
      rcases hready with hr' | hop' | ⟨hc, -⟩
      · exact absurd hmem hr'
      · exact absurd hop' hop
      · exact hc
    have hempty : (g.tensor r).nelements = 0 := by
      have hlayout := hwf.layout r hmem
      simp only [skipped, Bool.or_eq_true, beq_iff_eq, Bool.not_eq_true', hc, hop, or_false,
        Bool.true_eq_false] at hskip
      rcases hskip with (((he | hl) | hl) | hl) | hl
      · exact Tensor.isEmpty_iff.1 he
      all_goals exact absurd hr (hlayout (by tauto))
    rintro b ⟨h₁, h₂⟩
    simp only [Tensor.region, Tensor.nbytes, if_pos hempty] at h₁ h₂
    omega
  · rename_i hskip
    have hc : (g.tensor t).compute = true := by
      simp only [skipped, Bool.or_eq_true, not_or, Bool.not_eq_true', Bool.not_eq_true] at hskip
      simpa using hskip.2
    intro b hb
    unfold computeForward write
    split
    · rename_i hbt
      refine result_congr hwf hmem (fun u hu => h.reads hwf ht hc hu) ?_
      have h₁ := hbt.1
      have h₂ := hbt.2
      simp only [Tensor.region] at h₁ h₂ ⊢
      omega
    · rename_i hbt
      exact hold (fun hne => hbt (hne ▸ hb)) b hb

end Cgraph

end Fuse
