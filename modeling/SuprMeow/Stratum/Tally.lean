import SuprMeow.Stratum.SubmitIds

/-!
# Submitted shares and counted results

The client run beside a tally of its `submit` calls and of those that were answered.  A reply whose
id is that of an unanswered submit of the session answers it; any other is unsolicited.

* `accounted_iff` — the counters agree with the tally exactly in the runs without an unsolicited
  reply that is counted;
* `stray_counted` — a run with one.
-/

set_option autoImplicit false

namespace Stratum

/-! ## The tally -/

/-- `submits` are the calls that took an id, `answered` those whose answer was counted. -/
structure Tally where
  sys : Sys
  submits : List Submit := []
  answered : List Submit := []
  deriving DecidableEq

/-- A reply that is an answer after all: its id is that of an unanswered submit of the session. -/
def Event.misread (s : Sys) : Event → Bool
  | .reply id _ => s.hist.tickets.any fun t => t.place == .session && t.sub.id == id
  | _ => false

/-- A reply that no submit expects and that is not for `subscribe` or `authorize`. -/
def Event.stray : Event → Bool
  | .reply id _ => id != 1 && id != 2
  | _ => false

/-- What an event adds to the tally; `handle_line` does not count a reply with id 1 or 2. -/
def Tally.record (t : Tally) : Event → Tally
  | .take jobId nonce proofB64 achievedHex vdfTick tag =>
    { t with submits := t.submits ++
        [(t.sys.client.takeId jobId nonce proofB64 achievedHex vdfTick tag).2] }
  | .answer k _ =>
    match t.sys.hist.tickets[k]? with
    | some tk =>
      if tk.sub.id = 1 ∨ tk.sub.id = 2 then t else { t with answered := t.answered ++ [tk.sub] }
    | none => t
  | _ => t

def Tally.step (t : Tally) (e : Event) : Option Tally :=
  if e.misread t.sys then none else (t.sys.step e).map fun s => { t.record e with sys := s }

def tally (user pass ua : Bytes) : Runs.Machine Tally Event where
  init := { sys := (machine user pass ua).init }
  step := Tally.step

/-! ## Specification -/

/-- `accepted + rejected + stale`. -/
def Stats.counted (st : Stats) : Nat := st.accepted + st.rejected + st.stale

/-- **Never more results than submits; each result answers a submit of its own; when there are as
many, every submit is answered.** -/
structure Accounted (t : Tally) : Prop where
  bound : t.sys.client.stats.counted ≤ t.sys.client.stats.submitted
  counted : t.sys.client.stats.counted = t.answered.length
  distinct : t.answered.Subperm t.submits
  complete : t.sys.client.stats.submitted ≤ t.sys.client.stats.counted →
    t.answered.Perm t.submits

/-! ## Steps -/

/-- The submits that wait for an answer. -/
def Sys.awaited (s : Sys) : List Submit := s.hist.tickets.map (·.sub)

/-- What a step that is neither a `submit` nor a reply does to the books. -/
structure Even (s t : Sys) : Prop where
  awaited : t.awaited.Sublist s.awaited
  counted : t.client.stats.counted = s.client.stats.counted
  submitted : t.client.stats.submitted = s.client.stats.submitted

theorem map_sub {f : Ticket → Ticket} (hf : ∀ t, (f t).sub = t.sub) (l : List Ticket) :
    (l.map f).map (·.sub) = l.map (·.sub) := by
  rw [List.map_map]
  exact List.map_congr_left fun t _ => hf t

theorem sub_written (m : Submit) (t : Ticket) : (Ticket.written m t).sub = t.sub := by
  unfold Ticket.written
  split <;> rfl

theorem sub_endSession (t : Ticket) : t.endSession.sub = t.sub := by
  unfold Ticket.endSession
  split <;> rfl

theorem Even.of_eq {s t : Sys} (h : t.awaited = s.awaited) (hs : t.client.stats = s.client.stats) :
    Even s t :=
  ⟨by rw [h], by rw [hs], by rw [hs]⟩

theorem Even.sendLine {s t : Sys} {r : Request} {outs : List Int}
    (h : s.sendLine r outs = some t) : Even s t := by
  rcases sendLine_cases h with ⟨-, w, tn, rfl⟩ | ⟨-, rfl⟩
  · refine .of_eq ?_ rfl
    unfold Sys.awaited
    dsimp only
    cases r.submit? with
    | none => rfl
    | some m => exact map_sub (sub_written m) _
  · exact .of_eq rfl rfl

theorem Even.closeSocket (s : Sys) : Even s s.closeSocket :=
  .of_eq (map_sub sub_endSession _) rfl

theorem Even.netStep {s t : Sys} {outs : List Int} (h : s.netStep outs = some t) : Even s t := by
  unfold Sys.netStep at h
  split at h
  case h_1 | h_2 =>
    obtain ⟨u, hu, rfl⟩ := Option.map_eq_some_iff.1 h
    have hu := Even.sendLine hu
    exact ⟨hu.awaited, hu.counted, hu.submitted⟩
  case h_3 =>
    split at h
    · cases h
      exact ⟨List.filter_sublist.map _, rfl, rfl⟩
    · cases h
  case h_4 | h_5 =>
    split at h
    · cases h; exact .of_eq rfl rfl
    · cases h
  case h_6 =>
    obtain ⟨u, hu, rfl⟩ := Option.map_eq_some_iff.1 h
    have hu := Even.sendLine hu
    exact ⟨hu.awaited, hu.counted, hu.submitted⟩
  case h_7 => cases h

/-- Every share result moves one counter by one. -/
theorem shareResult_counted (c : Client) (id : Nat) (err : Option PoolError) :
    (c.shareResult id err).1.stats.counted = c.stats.counted + 1 ∧
      (c.shareResult id err).1.stats.submitted = c.stats.submitted := by
  unfold Client.shareResult Stats.counted
  dsimp only
  split
  · exact ⟨by dsimp only; omega, rfl⟩
  · split
    · exact ⟨by dsimp only; omega, rfl⟩
    · exact ⟨by dsimp only; omega, rfl⟩

theorem handleReply_counted (c : Client) (id : Nat) (err : Option PoolError) :
    (c.handleReply id err).1.stats.counted =
        c.stats.counted + (if id = 1 ∨ id = 2 then 0 else 1) ∧
      (c.handleReply id err).1.stats.submitted = c.stats.submitted := by
  unfold Client.handleReply
  split
  · exact ⟨rfl, rfl⟩
  · exact shareResult_counted c id err

/-- Holds along every run. -/
structure TallyInv (t : Tally) : Prop where
  submitted : t.submits.length = t.sys.client.stats.submitted
  places : (t.answered ++ t.sys.awaited).Subperm t.submits

theorem TallyInv.even {t : Tally} {s : Sys} (h : TallyInv t) (he : Even t.sys s) :
    TallyInv { t with sys := s } :=
  ⟨h.submitted.trans he.submitted.symm, (he.awaited.append_left _).subperm.trans h.places⟩

/-- How many results a step counts that answer no submit. -/
def Event.strays (e : Event) : Nat := if e.stray then 1 else 0

theorem stray_reply (id : Nat) (err : Option PoolError) :
    (Event.reply id err).stray = true ↔ ¬ (id = 1 ∨ id = 2) := by
  change (id != 1 && id != 2) = true ↔ _
  simp

theorem strays_reply (id : Nat) (err : Option PoolError) :
    (Event.reply id err).strays = if id = 1 ∨ id = 2 then 0 else 1 := by
  unfold Event.strays
  simp only [stray_reply, ite_not]

/-- **One step of the tally.** -/
theorem TallyInv.step {t u : Tally} {e : Event} (h : TallyInv t) (hs : t.step e = some u) :
    TallyInv u ∧ u.sys.client.stats.counted + t.answered.length =
      t.sys.client.stats.counted + u.answered.length + e.strays := by
  unfold Tally.step at hs
  split at hs
  · cases hs
  · obtain ⟨s, hstep, rfl⟩ := Option.map_eq_some_iff.1 hs
    clear hs
    cases e with
    | take jobId nonce proofB64 achievedHex vdfTick tag =>
      cases hstep
      refine ⟨⟨?_, ?_⟩, ?_⟩
      · simp only [Tally.record, List.length_append, List.length_singleton, h.submitted]; rfl
      · simp only [Tally.record, Sys.awaited, Sys.take, crowd_map Ticket.sub (fun _ _ => rfl),
          List.map_append, List.map_cons, List.map_nil, ← List.append_assoc]
        exact (List.subperm_append_right _).2 h.places
      · simp only [Tally.record, Event.strays, Event.stray]; rfl
    | answer k err =>
      simp only [Sys.step] at hstep
      split at hstep
      · rename_i tk htk
        split at hstep
        · cases hstep
          obtain ⟨hc, hsub⟩ := handleReply_counted t.sys.client tk.sub.id err
          obtain ⟨hk, rfl⟩ := List.getElem?_eq_some_iff.1 htk
          have hperm : (t.sys.hist.tickets[k].sub ::
              (t.sys.hist.tickets.eraseIdx k).map (·.sub)).Perm t.sys.awaited :=
            (List.getElem_cons_eraseIdx_perm hk).map _
          simp only [Tally.record, htk, Event.strays, Event.stray]
          split
          · rename_i h12
            rw [if_pos h12] at hc
            refine ⟨⟨?_, ?_⟩, ?_⟩
            · exact h.submitted.trans hsub.symm
            · refine List.Subperm.trans ?_ h.places
              refine (List.subperm_append_left _).2 ?_
              exact (List.sublist_cons_self _ _).subperm.trans hperm.subperm
            · simp only [Sys.answer, hc]; simp
          · rename_i h12
            rw [if_neg h12] at hc
            refine ⟨⟨?_, ?_⟩, ?_⟩
            · exact h.submitted.trans hsub.symm
            · refine List.Subperm.trans ?_ h.places
              rw [List.append_assoc]
              exact (hperm.append_left _).subperm
            · simp only [Sys.answer, hc, List.length_append, List.length_singleton]
              simp
              omega
        · cases hstep
      · cases hstep
    | reply id err =>
      simp only [Sys.step] at hstep
      split at hstep
      · cases hstep
        obtain ⟨hc, hsub⟩ := handleReply_counted t.sys.client id err
        refine ⟨⟨h.submitted.trans hsub.symm, h.places⟩, ?_⟩
        rw [strays_reply]
        simp only [Tally.record, hc]
        omega
      · cases hstep
    | net outs =>
      have he := Even.netStep hstep
      exact ⟨h.even he, by simp only [Tally.record, he.counted, Event.strays, Event.stray]; rfl⟩
    | ping id outs =>
      simp only [Sys.step] at hstep
      split at hstep
      · have he := Even.sendLine hstep
        exact ⟨h.even ⟨he.awaited, he.counted, he.submitted⟩,
          by simp only [Tally.record, he.counted, Event.strays, Event.stray]; rfl⟩
      · cases hstep
    | send k outs =>
      simp only [Sys.step] at hstep
      split at hstep
      · have he := Even.sendLine hstep
        exact ⟨h.even ⟨he.awaited, he.counted, he.submitted⟩,
          by simp only [Tally.record, he.counted, Event.strays, Event.stray]; rfl⟩
      · cases hstep
    | leave =>
      simp only [Sys.step] at hstep
      split at hstep
      · cases hstep
        refine ⟨h.even ⟨(Even.closeSocket t.sys).awaited, ?_, ?_⟩, ?_⟩
        · rfl
        · rfl
        · rfl
      · cases hstep
    | close =>
      simp only [Sys.step] at hstep
      split at hstep
      · cases hstep
      · cases hstep
        exact ⟨h.even (Even.closeSocket t.sys), rfl⟩
    | halt => cases hstep; exact ⟨h.even ⟨List.Sublist.refl _, rfl, rfl⟩, rfl⟩
    | dial | refused | connect =>
      simp only [Sys.step] at hstep
      split at hstep
      · cases hstep; exact ⟨h.even ⟨List.Sublist.refl _, rfl, rfl⟩, rfl⟩
      · cases hstep

/-! ## Results -/

variable (user pass ua : Bytes)

/-- What the counters say and what the tally says drift apart by the unsolicited replies. -/
theorem tally_exec {es : List Event} {t u : Tally} (h : TallyInv t)
    (he : (tally user pass ua).exec t es = some u) :
    TallyInv u ∧ u.sys.client.stats.counted + t.answered.length =
      t.sys.client.stats.counted + u.answered.length + (es.map Event.strays).sum := by
  induction es generalizing t with
  | nil => cases he; exact ⟨h, by simp⟩
  | cons e es ih =>
    obtain ⟨v, hv, hrest⟩ := (tally user pass ua).exec_cons.1 he
    obtain ⟨hinv, h₁⟩ := h.step hv
    obtain ⟨hinv, h₂⟩ := ih hinv hrest
    refine ⟨hinv, ?_⟩
    simp only [List.map_cons, List.sum_cons]
    omega

theorem strays_sum {es : List Event} :
    (es.map Event.strays).sum = 0 ↔ ∀ e ∈ es, e.stray = false := by
  simp [List.sum_eq_zero_iff_forall_eq_nat, Event.strays]

/-- The tally's half of the specification needs nothing from the pool. -/
theorem TallyInv.accounted {t : Tally} (h : TallyInv t)
    (hc : t.sys.client.stats.counted = t.answered.length) : Accounted t := by
  have hsub : t.answered.Subperm t.submits :=
    (List.sublist_append_left _ _).subperm.trans h.places
  have hle := hsub.length_le
  have hlen := h.submitted
  exact ⟨by omega, hc, hsub, fun hge => hsub.perm_of_length_le (by omega)⟩

/-- **The counters are right exactly in the runs in which every counted reply answers a submit.** -/
theorem accounted_iff {es : List Event} {t : Tally}
    (h : (tally user pass ua).exec (tally user pass ua).init es = some t) :
    Accounted t ↔ ∀ e ∈ es, e.stray = false := by
  obtain ⟨hinv, hc⟩ := tally_exec user pass ua ⟨rfl, List.Subperm.refl _⟩ h
  have h0 : (tally user pass ua).init.answered.length = 0 := rfl
  have h0' : (tally user pass ua).init.sys.client.stats.counted = 0 := rfl
  rw [← strays_sum]
  constructor
  · intro ha
    have := ha.counted
    omega
  · intro hs
    exact hinv.accounted (by omega)

/-- Connect and shake hands; a submit is sent and answered, with the two replies to the handshake
in between; a second one goes unanswered. -/
def answeredOnce : List Event :=
  let line (id : Nat) := (Request.submit { id, user := [], jobId := [], nonce := 7
                                           proofB64 := text "AA==", achievedHex := []
                                           vdfTick := 0, tag := 0 }).line.length
  [.dial, .connect, .net [(Request.subscribe []).line.length],
    .net [(Request.authorize [] []).line.length], .net [], .net [], .net [],
    .take [] 7 (text "AA==") [] 0 0, .reply 1 none, .send 0 [line 3], .reply 2 none,
    .answer 0 (some (.object (some 21) none)), .take [] 7 (text "AA==") [] 0 0, .send 0 [line 4]]

theorem accounted_answered :
    ∃ t, (tally [] [] []).exec (tally [] [] []).init answeredOnce = some t ∧ Accounted t := by
  have h : ((tally [] [] []).exec (tally [] [] []).init answeredOnce).isSome := by decide +kernel
  obtain ⟨t, ht⟩ := Option.isSome_iff_exists.1 h
  exact ⟨t, ht, (accounted_iff [] [] [] ht).2 (by decide)⟩

/-- The pool repeats its answer to a submit while another one waits. -/
def repeatedReply : List Event := answeredOnce ++ [.reply 3 none]

/-- **Two results for two submits, one of which was never answered.** -/
theorem stray_counted : ∃ t, (tally [] [] []).exec (tally [] [] []).init repeatedReply = some t ∧
    t.sys.client.stats.submitted ≤ t.sys.client.stats.counted ∧
      t.answered.length < t.submits.length ∧ ¬ Accounted t := by
  have h : ((tally [] [] []).exec (tally [] [] []).init repeatedReply).map (fun t =>
      (t.sys.client.stats.submitted, t.sys.client.stats.counted, t.answered.length,
        t.submits.length)) = some (2, 2, 1, 2) := by decide +kernel
  obtain ⟨t, ht, hv⟩ := Option.map_eq_some_iff.1 h
  simp only [Prod.mk.injEq] at hv
  obtain ⟨hs, hc, ha, hl⟩ := hv
  refine ⟨t, ht, by omega, by omega, fun hacc => ?_⟩
  have := hacc.counted
  omega

end Stratum
