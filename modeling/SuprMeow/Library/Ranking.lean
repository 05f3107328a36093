import Mathlib.Data.List.Basic
import Mathlib.Data.List.Nodup
import Mathlib.Data.List.Sort
import Mathlib.Data.Prod.Lex
import Mathlib.Tactic.Common

/-!
# Ranking a list by a key

`ranking key l` lists the members of `l` by ascending key.  When the key separates the members,
a list is the ranking as soon as it is a rearrangement of `l` in ascending order, and a prefix of
the ranking as soon as it ascends and every other member comes after it.

* `eq_ranking`, `take_ranking` — recognise the ranking, or a prefix of it;
* `getElem?_ranking_iff`, `mem_take_ranking_iff` — the member of a given rank, and the first ranks;
* `take_eq_map_take_iff` — when the first ranks of one list are the images of another's;
* `eq_ranking_of_stable` — a stable sort breaks ties by the order of its input;
* `mergeSort_eq_ranking` — a comparison that agrees with the keys sorts to the ranking;
* `perm_flatMap_block`, `pairwise_flatMap_block` — lists cut into consecutive blocks.
-/

set_option autoImplicit false

namespace Ranking

variable {α β κ : Type*} [LinearOrder κ]

/-- The members of `l` by ascending key. -/
def ranking (key : α → κ) (l : List α) : List α := l.mergeSort (fun a b => decide (key a ≤ key b))

theorem ranking_perm (key : α → κ) (l : List α) : (ranking key l).Perm l := List.mergeSort_perm _ _

theorem ranking_pairwise (key : α → κ) (l : List α) :
    (ranking key l).Pairwise (fun a b => key a ≤ key b) := by
  have h := @List.pairwise_mergeSort _ (fun a b => decide (key a ≤ key b))
    (fun a b c => by simpa using le_trans) (fun a b => by simpa using le_total _ _) l
  simpa [ranking] using h

@[simp] theorem length_ranking (key : α → κ) (l : List α) : (ranking key l).length = l.length :=
  (ranking_perm key l).length_eq

@[simp] theorem mem_ranking {key : α → κ} {l : List α} {a : α} : a ∈ ranking key l ↔ a ∈ l :=
  (ranking_perm key l).mem_iff

/-- The key tells the members of `l` apart. -/
def Separates (key : α → κ) (l : List α) : Prop := ∀ a ∈ l, ∀ b ∈ l, key a = key b → a = b

/-- **A rearrangement in ascending order is the ranking.** -/
theorem eq_ranking {key : α → κ} {l l' : List α} (hsep : Separates key l) (hp : l'.Perm l)
    (hs : l'.Pairwise (fun a b => key a ≤ key b)) : l' = ranking key l := by
  refine @List.Perm.eq_of_pairwise _ (fun a b => key a ≤ key b) _ _ ?_ hs (ranking_pairwise key l)
    (hp.trans (ranking_perm key l).symm)
  intro a b ha hb hab hba
  exact hsep a (hp.mem_iff.1 ha) b (mem_ranking.1 hb) (le_antisymm hab hba)

/-- **An ascending list that every other member comes after is a prefix of the ranking.** -/
theorem take_ranking {key : α → κ} {l l' : List α} (hsep : Separates key l) (hnd : l.Nodup)
    (hsub : ∀ a ∈ l', a ∈ l) (hs : l'.Pairwise (fun a b => key a < key b))
    (hrest : ∀ x ∈ l, x ∉ l' → ∀ y ∈ l', key y < key x) :
    l' = (ranking key l).take l'.length := by
  classical
  have hnd' : l'.Nodup := hs.imp fun {a b} hab => fun h => hab.ne (h ▸ rfl)
  have hperm : (l' ++ l.filter (· ∉ l')).Perm l := by
    rw [List.perm_ext_iff_of_nodup _ hnd]
    · intro x
      by_cases hx : x ∈ l'
      · simp [hx, hsub x hx]
      · simp [hx]
    · refine List.nodup_append.2 ⟨hnd', hnd.filter _, fun a ha b hb hab => ?_⟩
      subst hab
      simp at hb
      exact hb.2 ha
  have hall : l' ++ ranking key (l.filter (· ∉ l')) = ranking key l := by
    refine eq_ranking hsep ((List.Perm.append_left _ (ranking_perm _ _)).trans hperm) ?_
    refine List.pairwise_append.2 ⟨hs.imp le_of_lt, ranking_pairwise _ _, fun y hy x hx => ?_⟩
    rw [mem_ranking] at hx
    simp only [List.mem_filter, decide_eq_true_eq] at hx
    exact (hrest x hx.1 hx.2 y hy).le
  rw [← hall, List.take_left' rfl]

/-- **A comparison that agrees with the keys on the members sorts to the ranking.** -/
theorem mergeSort_eq_ranking {key : α → κ} {l : List α} (hsep : Separates key l)
    {le : α → α → Bool} (hle : ∀ a ∈ l, ∀ b ∈ l, le a b = decide (key a ≤ key b)) :
    l.mergeSort le = ranking key l := by
  have hmap := List.map_mergeSort (l := l.attach) (f := Subtype.val) (s := le)
    (r := fun a b => decide (key a.1 ≤ key b.1)) (fun a _ b _ => (hle a.1 a.2 b.1 b.2).symm)
  rw [List.attach_map_subtype_val] at hmap
  rw [← hmap]
  refine eq_ranking hsep ?_ ?_
  · rw [hmap]; exact List.mergeSort_perm _ _
  · exact List.pairwise_map.2 (ranking_pairwise (fun a : { x // x ∈ l } => key a.1) l.attach)

/-- Keys that order the members alike give one ranking. -/
theorem ranking_congr {κ' : Type*} [LinearOrder κ'] {key : α → κ} {key' : α → κ'} {l : List α}
    (hsep : Separates key' l) (h : ∀ a ∈ l, ∀ b ∈ l, key a ≤ key b ↔ key' a ≤ key' b) :
    ranking key l = ranking key' l :=
  mergeSort_eq_ranking hsep fun a ha b hb => decide_eq_decide.2 (h a ha b hb)

theorem countP_lt_of_getElem? {key : α → κ} {l : List α} (hs : l.Pairwise fun a b => key a < key b)
    {r : ℕ} {a : α} (h : l[r]? = some a) : l.countP (fun b => decide (key b < key a)) = r := by
  obtain ⟨hr, rfl⟩ := List.getElem?_eq_some_iff.1 h
  have hsplit : l = l.take r ++ l[r] :: l.drop (r + 1) := by
    rw [List.getElem_cons_drop, List.take_append_drop]
  have hp := hs
  rw [hsplit, List.pairwise_append, List.pairwise_cons] at hp
  obtain ⟨-, ⟨hafter, -⟩, hbefore⟩ := hp
  have hlow : (l.take r).countP (fun b => decide (key b < key l[r])) = r := by
    rw [List.countP_eq_length.2 fun b hb => decide_eq_true (hbefore b hb _ List.mem_cons_self),
      List.length_take]
    omega
  have hhigh : (l[r] :: l.drop (r + 1)).countP (fun b => decide (key b < key l[r])) = 0 := by
    refine List.countP_eq_zero.2 fun b hb => ?_
    rw [decide_eq_true_eq, not_lt]
    rcases List.mem_cons.1 hb with rfl | hb
    · exact le_rfl
    · exact (hafter b hb).le
  calc l.countP (fun b => decide (key b < key l[r]))
      = (l.take r ++ l[r] :: l.drop (r + 1)).countP (fun b => decide (key b < key l[r])) := by
        rw [← hsplit]
    _ = r := by rw [List.countP_append, hlow, hhigh, Nat.add_zero]

theorem ranking_pairwise_lt {key : α → κ} {l : List α} (hsep : Separates key l) (hnd : l.Nodup) :
    (ranking key l).Pairwise fun a b => key a < key b := by
  have hnd' : (ranking key l).Pairwise (· ≠ ·) := (ranking_perm key l).nodup_iff.2 hnd
  refine ((ranking_pairwise key l).and hnd').imp_of_mem fun {a b} ha hb hab => ?_
  exact lt_of_le_of_ne hab.1 fun he => hab.2 (hsep a (mem_ranking.1 ha) b (mem_ranking.1 hb) he)

/-- **The member of rank `r` is the one with `r` members before it.** -/
theorem getElem?_ranking_iff {key : α → κ} {l : List α} (hsep : Separates key l) (hnd : l.Nodup)
    {r : ℕ} {a : α} : (ranking key l)[r]? = some a ↔
      a ∈ l ∧ l.countP (fun b => decide (key b < key a)) = r := by
  have hcount : ∀ {r : ℕ} {a : α}, (ranking key l)[r]? = some a →
      l.countP (fun b => decide (key b < key a)) = r := fun h => by
    rw [← (ranking_perm key l).countP_eq]
    exact countP_lt_of_getElem? (ranking_pairwise_lt hsep hnd) h
  constructor
  · intro h
    exact ⟨mem_ranking.1 (List.mem_of_getElem? h), hcount h⟩
  · rintro ⟨ha, hr⟩
    obtain ⟨r', hr'⟩ := List.mem_iff_getElem?.1 ((ranking_perm key l).mem_iff.2 ha)
    rw [← hr, hcount hr', hr']

/-- **The first ranks are the members with few members before them.** -/
theorem mem_take_ranking_iff {key : α → κ} {l : List α} (hsep : Separates key l) (hnd : l.Nodup)
    {K : ℕ} {a : α} : a ∈ (ranking key l).take K ↔
      a ∈ l ∧ l.countP (fun b => decide (key b < key a)) < K := by
  rw [List.mem_take_iff_getElem]
  constructor
  · rintro ⟨r, hr, rfl⟩
    have hlen : r < (ranking key l).length := by omega
    have h := (getElem?_ranking_iff hsep hnd).1 (List.getElem?_eq_getElem hlen)
    exact ⟨h.1, by omega⟩
  · rintro ⟨ha, hlt⟩
    have h := (getElem?_ranking_iff hsep hnd).2 ⟨ha, rfl⟩
    obtain ⟨hr, hget⟩ := List.getElem?_eq_some_iff.1 h
    exact ⟨_, by omega, hget⟩

section StandIns

variable {β κ' : Type*} [LinearOrder κ'] {key : α → κ} {l : List α} {key' : β → κ'} {l' : List β}
  {f : β → α} {K : ℕ}

/-- **The first ranks of `l` are the images of the first ranks of `l'`** exactly when the former
have stand-ins in `l'` that keep their order and come before every other member of `l'`. -/
theorem take_eq_map_take_iff (hsep : Separates key l) (hnd : l.Nodup)
    (hsep' : Separates key' l') (hnd' : l'.Nodup) (hK : K ≤ l.length)
    [Nonempty β] :
    (ranking key l).take K = ((ranking key' l').take K).map f ↔
      ∃ a : α → β,
        (∀ x ∈ (ranking key l).take K, a x ∈ l' ∧ f (a x) = x) ∧
        (∀ x ∈ (ranking key l).take K, ∀ y ∈ (ranking key l).take K, key x < key y →
          key' (a x) < key' (a y)) ∧
        ∀ x ∈ (ranking key l).take K, ∀ z ∈ l', (∀ y ∈ (ranking key l).take K, z ≠ a y) →
          key' (a x) < key' z := by
  classical
  have hlen : ((ranking key l).take K).length = K := by
    rw [List.length_take, length_ranking, min_eq_left hK]
  have hsorted := (ranking_pairwise_lt hsep hnd).sublist (List.take_sublist K _)
  have hsorted' := ranking_pairwise_lt hsep' hnd'
  constructor
  · intro h
    have hndk : (((ranking key' l').take K).map f).Nodup :=
      h ▸ hsorted.imp fun {x y} hxy => fun he => hxy.ne (he ▸ rfl)
    -- the stand-in of a member is the one of its rank
    have hex : ∀ x, ∃ z, x ∈ (ranking key l).take K → z ∈ (ranking key' l').take K ∧ f z = x := by
      intro x
      by_cases hx : x ∈ (ranking key l).take K
      · rw [h] at hx
        obtain ⟨z, hz, hfz⟩ := List.mem_map.1 hx
        exact ⟨z, fun _ => ⟨hz, hfz⟩⟩
      · exact ⟨Classical.arbitrary β, fun hx' => absurd hx' hx⟩
    choose a ha using hex
    have hinv : ∀ z ∈ (ranking key' l').take K, a (f z) = z := by
      intro z hz
      have hfz : f z ∈ (ranking key l).take K := h ▸ List.mem_map_of_mem hz
      exact List.inj_on_of_nodup_map hndk (ha _ hfz).1 hz (ha _ hfz).2
    have hmap : ((ranking key l).take K).map a = (ranking key' l').take K := by
      rw [h, List.map_map]
      exact (List.map_congr_left fun z hz => hinv z hz).trans (List.map_id _)
    have hpair : ((ranking key l).take K).Pairwise fun x y => key' (a x) < key' (a y) := by
      rw [← List.pairwise_map (f := a) (R := fun z w => key' z < key' w), hmap]
      exact hsorted'.sublist (List.take_sublist K _)
    refine ⟨a, fun x hx => ⟨mem_ranking.1 (List.mem_of_mem_take (ha x hx).1), (ha x hx).2⟩,
      fun x hx y hy hxy => ?_, fun x hx z hz hne => ?_⟩
    · have hstep : ((ranking key l).take K).Pairwise fun x y =>
          key x < key y → key' (a x) < key' (a y) := hpair.imp fun {_ _} h => fun _ => h
      exact hstep.forall_of_forall_of_flip (fun _ _ h => absurd h (lt_irrefl _))
        (hsorted.imp fun h h' => absurd h h'.asymm) hx hy hxy
    · -- a member of the first `K` stands for its own image
      have hz' : z ∈ (ranking key' l').drop K := by
        rcases List.mem_append.1 ((List.take_append_drop K (ranking key' l')).symm ▸
          mem_ranking.2 hz) with hin | hin
        · exact absurd (hinv z hin).symm (hne _ (h ▸ List.mem_map_of_mem hin))
        · exact hin
      have hcut := hsorted'
      rw [← List.take_append_drop K (ranking key' l'), List.pairwise_append] at hcut
      exact hcut.2.2 _ (ha x hx).1 _ hz'
  · rintro ⟨a, hmem, hmono, hfirst⟩
    have himage : ∀ z ∈ ((ranking key l).take K).map a, z ∈ l' := by
      intro z hz
      obtain ⟨x, hx, rfl⟩ := List.mem_map.1 hz
      exact (hmem x hx).1
    have htake := take_ranking hsep' hnd' himage
      (List.pairwise_map.2 (hsorted.imp_of_mem fun {x y} hx hy hxy => hmono x hx y hy hxy))
      (fun z hz hnot w hw => by
        obtain ⟨x, hx, rfl⟩ := List.mem_map.1 hw
        exact hfirst x hx z hz fun y hy he => hnot (List.mem_map.2 ⟨y, hy, he.symm⟩))
    rw [List.length_map, hlen] at htake
    rw [← htake, List.map_map]
    exact ((List.map_congr_left fun x hx => (hmem x hx).2).trans (List.map_id _)).symm

end StandIns

/-- Of two members that a stable sort ties, the one that comes first in the input comes first. -/
theorem pairwise_lex_of_stable {ι : Type*} [LinearOrder ι] {key : α → κ} {tie : α → ι} {l : List α}
    (hs : l.Pairwise fun a b => key a ≤ key b)
    (htie : ∀ d, (l.filter fun x => decide (key x = d)).Pairwise fun a b => tie a < tie b) :
    l.Pairwise fun a b => toLex (key a, tie a) ≤ toLex (key b, tie b) := by
  induction l with
  | nil => exact List.Pairwise.nil
  | cons x l ih =>
    rw [List.pairwise_cons] at hs ⊢
    refine ⟨fun y hy => ?_, ih hs.2 fun d => ?_⟩
    · rw [Prod.Lex.toLex_le_toLex]
      rcases lt_or_eq_of_le (hs.1 y hy) with hlt | heq
      · exact .inl hlt
      · -- both are in the class of `key x`, which keeps its order
        have hx := htie (key x)
        rw [List.filter_cons_of_pos (by simp), List.pairwise_cons] at hx
        exact .inr ⟨heq, (hx.1 y (List.mem_filter.2 ⟨hy, by simp [heq]⟩)).le⟩
    · refine (htie d).sublist (List.Sublist.filter _ ?_)
      exact List.sublist_cons_self x l

/-- A merge sort is stable. -/
theorem filter_mergeSort (key : α → κ) (l : List α) (d : κ) :
    (l.mergeSort fun a b => decide (key a ≤ key b)).filter (fun x => decide (key x = d)) =
      l.filter fun x => decide (key x = d) := by
  have hperm := List.mergeSort_perm l fun a b => decide (key a ≤ key b)
  have hsub : (l.filter fun x => decide (key x = d)).Sublist
      (l.mergeSort fun a b => decide (key a ≤ key b)) := by
    refine List.sublist_mergeSort (fun a b c => by simpa using le_trans)
      (fun a b => by simpa using le_total _ _) ?_ List.filter_sublist
    refine List.pairwise_of_forall_mem_list fun a ha b hb => ?_
    rw [List.mem_filter, decide_eq_true_eq] at ha hb
    rw [decide_eq_true_eq, ha.2, hb.2]
  have h := hsub.filter fun x => decide (key x = d)
  simp only [List.filter_filter, Bool.and_self] at h
  exact (h.eq_of_length (hperm.filter _).length_eq.symm).symm

/-- **A stable sort of a list that ascends in a second key sorts by both.** -/
theorem eq_ranking_of_stable {ι : Type*} [LinearOrder ι] {key : α → κ} {tie : α → ι}
    {l l' : List α} (hsep : Separates tie l) (hp : l'.Perm l)
    (hs : l'.Pairwise fun a b => key a ≤ key b)
    (hstable : ∀ d, (l'.filter fun x => decide (key x = d)) = l.filter fun x => decide (key x = d))
    (htie : l.Pairwise fun a b => tie a < tie b) :
    l' = ranking (fun a => toLex (key a, tie a)) l := by
  refine eq_ranking (fun a ha b hb h => hsep a ha b hb (congrArg (fun k => (ofLex k).2) h)) hp ?_
  refine pairwise_lex_of_stable hs fun d => ?_
  rw [hstable d]
  exact htie.sublist List.filter_sublist

/-! ## Lists cut into blocks -/

theorem range_mul (S n : ℕ) :
    (List.range S).flatMap (fun s => (List.range n).map (fun i => s * n + i)) =
      List.range (S * n) := by
  induction S with
  | zero => simp
  | succ S ih =>
    rw [List.range_succ, List.flatMap_append, ih, List.flatMap_singleton, Nat.succ_mul,
      List.range_add]

theorem perm_flatMap_block {S : ℕ} {f g : ℕ → List α} (h : ∀ s < S, (f s).Perm (g s)) :
    ((List.range S).flatMap f).Perm ((List.range S).flatMap g) := by
  induction S with
  | zero => simp
  | succ S ih =>
    rw [List.range_succ, List.flatMap_append, List.flatMap_append, List.flatMap_singleton,
      List.flatMap_singleton]
    exact (ih fun s hs => h s (by omega)).append (h S (by omega))

theorem pairwise_flatMap_block {S : ℕ} {f : ℕ → List α} {R : α → α → Prop}
    (hin : ∀ s < S, (f s).Pairwise R)
    (hout : ∀ s t, s < t → t < S → ∀ a ∈ f s, ∀ b ∈ f t, R a b) :
    ((List.range S).flatMap f).Pairwise R := by
  induction S with
  | zero => simp
  | succ S ih =>
    rw [List.range_succ, List.flatMap_append, List.flatMap_singleton]
    refine List.pairwise_append.2 ⟨ih (fun s hs => hin s (by omega))
      (fun s t hst ht => hout s t hst (by omega)), hin S (by omega), fun a ha b hb => ?_⟩
    obtain ⟨s, hs, ha⟩ := List.mem_flatMap.1 ha
    exact hout s S (List.mem_range.1 hs) (by omega) a ha b hb

/-- The element at position `s * n + r` of `S` blocks of length `n`. -/
theorem getElem?_flatMap_block {S n : ℕ} {f : ℕ → List α} (hlen : ∀ s < S, (f s).length = n)
    {s r : ℕ} (hs : s < S) (hr : r < n) :
    ((List.range S).flatMap f)[s * n + r]? = (f s)[r]? := by
  induction S with
  | zero => omega
  | succ S ih =>
    have hpre : ∀ k ≤ S, ((List.range k).flatMap f).length = k * n := fun k hk => by
      induction k with
      | zero => simp
      | succ k ihk =>
        rw [List.range_succ, List.flatMap_append, List.length_append, ihk (by omega),
          List.flatMap_singleton, hlen k (by omega), Nat.succ_mul]
    rw [List.range_succ, List.flatMap_append, List.flatMap_singleton]
    by_cases hsS : s = S
    · subst hsS
      rw [List.getElem?_append_right (by rw [hpre s le_rfl]; omega), hpre s le_rfl,
        Nat.add_sub_cancel_left]
    · have hlt : s * n + r < S * n := by
        have := Nat.mul_le_mul_right n (show s + 1 ≤ S by omega)
        rw [Nat.succ_mul] at this; omega
      rw [List.getElem?_append_left (by rw [hpre S le_rfl]; exact hlt)]
      exact ih (fun s hs => hlen s (by omega)) (by omega)

end Ranking
