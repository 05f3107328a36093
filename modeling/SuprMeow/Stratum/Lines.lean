import Mathlib.Data.List.Forall2
import SuprMeow.Stratum.Client

/-!
# Lines on the wire

What the client owes to every line passed to `send_line`: it goes whole onto one session, or it
is still queued; and a session carries nothing but whole lines.

* `lines_safe_iff` — a run meets this exactly when no `net::send` in it failed;
* `lines_lost` — a run in which one did, and does not.
-/

set_option autoImplicit false

namespace Stratum

/-! ## Specification -/

/-- The bytes of a list of lines. -/
def encode (l : List Request) : Bytes := l.flatMap Request.line

/-- An ended session carries whole lines, the last one possibly cut. -/
def Framed (l : List Request) (w : Bytes) : Prop :=
  ∃ cut : Bytes, w = encode l ++ cut ∧
    (cut = [] ∨ ∃ r : Request, cut <+: r.line ∧ cut.length < r.line.length)

/-- Lines waiting in `outq_` or in the network thread's flush. -/
def Sys.queued (s : Sys) : List Request := s.client.outq ++ s.phase.flushing

/-- **Every session is whole lines; every line passed is on one session, once, or queued.** -/
def LinesSafe (s : Sys) : Prop :=
  ∃ (done : List (List Request)) (cur : List Request),
    List.Forall₂ Framed done s.hist.past ∧ s.hist.wire = encode cur ∧
      s.hist.passed.Perm (done.flatten ++ cur ++ s.queued)

/-- The number of bytes of a list of lines. -/
def size (l : List Request) : Nat := (encode l).length

/-- The bytes of the lines given up on that were not written. -/
def missing (l : List (Request × Nat)) : Nat := (l.map fun e => e.1.line.length - e.2).sum

/-- What holds whatever `net::send` returns: bytes are accounted for, and lines too until one is
given up on. -/
structure LineInv (s : Sys) : Prop where
  bytes : size s.hist.passed =
    s.hist.past.flatten.length + s.hist.wire.length + size s.queued + missing s.hist.torn
  short : ∀ e ∈ s.hist.torn, e.2 < e.1.line.length
  safe : s.hist.torn = [] → LinesSafe s

@[simp] theorem encode_nil : encode [] = [] := rfl

@[simp] theorem encode_append (l l' : List Request) : encode (l ++ l') = encode l ++ encode l' :=
  List.flatMap_append

@[simp] theorem encode_singleton (r : Request) : encode [r] = r.line := by simp [encode]

@[simp] theorem size_nil : size [] = 0 := rfl

@[simp] theorem size_append (l l' : List Request) : size (l ++ l') = size l + size l' := by
  simp [size]

@[simp] theorem size_singleton (r : Request) : size [r] = r.line.length := by simp [size]

theorem size_perm {l l' : List Request} (h : l.Perm l') : size l = size l' := by
  unfold size encode
  exact (h.flatMap_right _).length_eq

@[simp] theorem missing_nil : missing [] = 0 := rfl

@[simp] theorem missing_append (l l' : List (Request × Nat)) :
    missing (l ++ l') = missing l + missing l' := by
  simp [missing]

@[simp] theorem missing_singleton (r : Request) (n : Nat) :
    missing [(r, n)] = r.line.length - n := by
  simp [missing]

theorem missing_pos {l : List (Request × Nat)} (hne : l ≠ [])
    (h : ∀ e ∈ l, e.2 < e.1.line.length) : 0 < missing l := by
  cases l with
  | nil => exact absurd rfl hne
  | cons e l =>
    have he := h e List.mem_cons_self
    simp only [missing, List.map_cons, List.sum_cons]
    omega

/-! ## Steps -/

@[simp] theorem handleReply_outq (c : Client) (id : Nat) (err : Option PoolError) :
    (c.handleReply id err).1.outq = c.outq := by
  unfold Client.handleReply
  split <;> rfl

/-- What `send_line` does to the record and to `outq_`. -/
inductive Sent (h h' : History) (q q' : List Request) (r : Request) : Prop where
  | queued (hw : h' = h) (hq : q' = q ++ [r])
  | written (hw : h'.wire = h.wire ++ r.line) (ht : h'.torn = h.torn) (hp : h'.past = h.past)
      (hc : h'.passed = h.passed) (hq : q' = q)
  | torn (w : Bytes) (hl : w.length < r.line.length) (hw : h'.wire = h.wire ++ w)
      (ht : h'.torn = h.torn ++ [(r, w.length)]) (hp : h'.past = h.past)
      (hc : h'.passed = h.passed) (hq : q' = q)

theorem sendLine_sent {s t : Sys} {r : Request} {outs : List Int}
    (h : s.sendLine r outs = some t) :
    Sent s.hist t.hist s.client.outq t.client.outq r ∧ t.phase = s.phase := by
  unfold Sys.sendLine Client.sendLine at h
  cases ho : s.client.open_ with
  | true =>
    simp only [ho, if_true, Option.map_map, Option.map_eq_some_iff, Function.comp] at h
    obtain ⟨⟨w, ok⟩, hw, rfl⟩ := h
    cases ok with
    | true =>
      obtain rfl := writeAll_true hw
      exact ⟨.written rfl rfl rfl rfl rfl, rfl⟩
    | false => exact ⟨.torn w (writeAll_false hw) rfl rfl rfl rfl rfl, rfl⟩
  | false =>
    simp only [ho, Bool.false_eq_true, if_false, Option.map_eq_some_iff] at h
    obtain ⟨⟨c, w⟩, hw, rfl⟩ := h
    split at hw
    · cases hw; exact ⟨.queued rfl rfl, rfl⟩
    · cases hw

/-- A line on its way into `send_line`: `l` stands for what stays queued around it. -/
structure Passing (s : Sys) (r : Request) : Prop where
  bytes : size s.hist.passed = s.hist.past.flatten.length + s.hist.wire.length +
    (size s.queued + r.line.length) + missing s.hist.torn
  short : ∀ e ∈ s.hist.torn, e.2 < e.1.line.length
  safe : s.hist.torn = [] → ∃ (done : List (List Request)) (cur : List Request),
    List.Forall₂ Framed done s.hist.past ∧ s.hist.wire = encode cur ∧
      s.hist.passed.Perm (done.flatten ++ cur ++ (s.queued ++ [r]))

theorem LineInv.passing {s : Sys} (h : LineInv s) (r : Request) :
    Passing { s with hist := { s.hist with passed := s.hist.passed ++ [r] } } r := by
  refine ⟨?_, h.short, fun ht => ?_⟩
  · have := h.bytes
    simp only [Sys.queued, size_append, size_singleton] at this ⊢
    omega
  · obtain ⟨done, cur, hf, hw, hp⟩ := h.safe ht
    refine ⟨done, cur, hf, hw, ?_⟩
    have := hp.append_right [r]
    rwa [List.append_assoc] at this

/-- The flush takes the next line of its list. -/
theorem LineInv.passing_flush {s : Sys} (h : LineInv s) {r : Request} {q : List Request}
    (hq : s.phase = .flush (r :: q)) : Passing { s with phase := .flush q } r := by
  have hperm : s.queued.Perm ((s.client.outq ++ q) ++ [r]) := by
    simp only [Sys.queued, hq, Phase.flushing]
    rw [List.append_assoc]
    exact List.Perm.append_left _ (List.perm_append_singleton r q).symm
  refine ⟨?_, h.short, fun ht => ?_⟩
  · have := h.bytes
    rw [size_perm hperm] at this
    simpa [Sys.queued, Phase.flushing, Nat.add_assoc] using this
  · obtain ⟨done, cur, hf, hw, hp⟩ := h.safe ht
    exact ⟨done, cur, hf, hw, hp.trans (hperm.append_left _)⟩

/-- **Once `send_line` returns the books balance again.** -/
theorem Passing.sent {s t : Sys} {r : Request} (h : Passing s r)
    (hs : Sent s.hist t.hist s.client.outq t.client.outq r)
    (hph : t.phase.flushing = s.phase.flushing) : LineInv t := by
  have hb := h.bytes
  simp only [Sys.queued, size_append] at hb
  cases hs with
  | queued hw hq =>
    refine ⟨?_, by rw [hw]; exact h.short, fun ht => ?_⟩
    · simp only [Sys.queued, hw, hq, hph, size_append, size_singleton]
      omega
    · obtain ⟨done, cur, hf, hwc, hp⟩ := h.safe (by rw [← hw]; exact ht)
      refine ⟨done, cur, by rw [hw]; exact hf, by rw [hw]; exact hwc, ?_⟩
      rw [hw]
      refine hp.trans (List.Perm.append_left _ ?_)
      simp only [Sys.queued, hq, hph, List.append_assoc]
      exact List.Perm.append_left _ List.perm_append_comm
  | written hw ht hp hc hq =>
    refine ⟨?_, by rw [ht]; exact h.short, fun hn => ?_⟩
    · simp only [Sys.queued, hw, hp, hc, ht, hq, hph, size_append, List.length_append]
      omega
    · obtain ⟨done, cur, hf, hwc, hpm⟩ := h.safe (by rw [← ht]; exact hn)
      refine ⟨done, cur ++ [r], by rw [hp]; exact hf, by simp [hw, hwc], ?_⟩
      rw [hc]
      refine hpm.trans ?_
      simp only [Sys.queued, hq, hph, List.append_assoc]
      refine List.Perm.append_left _ (List.Perm.append_left _ ?_)
      rw [← List.append_assoc]
      exact List.perm_append_comm
  | torn w hl hw ht hp hc hq =>
    refine ⟨?_, ?_, fun hn => ?_⟩
    · simp only [Sys.queued, hw, hp, hc, ht, hq, hph, size_append, List.length_append,
        missing_append, missing_singleton]
      omega
    · intro e he
      rw [ht, List.mem_append, List.mem_singleton] at he
      rcases he with he | rfl
      · exact h.short e he
      · exact hl
    · rw [ht] at hn
      simp at hn

theorem LineInv.pass {s t : Sys} {r : Request} {outs : List Int} (h : LineInv s)
    (ht : s.pass r outs = some t) : LineInv t := by
  obtain ⟨hs, hp⟩ := sendLine_sent ht
  exact (h.passing r).sent hs (by rw [hp])

/-- Steps that leave the lines alone. -/
theorem LineInv.congr {s t : Sys} (h : LineInv s) (hp : t.hist.past = s.hist.past)
    (hw : t.hist.wire = s.hist.wire) (hc : t.hist.passed = s.hist.passed)
    (ht : t.hist.torn = s.hist.torn) (hq : t.queued = s.queued) : LineInv t := by
  refine ⟨?_, ?_, fun hn => ?_⟩
  · rw [hp, hw, hc, ht, hq]; exact h.bytes
  · rw [ht]; exact h.short
  · obtain ⟨done, cur, hf, hwc, hpm⟩ := h.safe (by rw [← ht]; exact hn)
    exact ⟨done, cur, by rw [hp]; exact hf, by rw [hw]; exact hwc, by rw [hc, hq]; exact hpm⟩

theorem LineInv.closeSocket {s : Sys} (h : LineInv s) : LineInv s.closeSocket := by
  refine ⟨?_, h.short, fun hn => ?_⟩
  · have := h.bytes
    simp only [Sys.closeSocket, Client.closeSocket, Sys.queued, List.flatten_append,
      List.flatten_cons, List.flatten_nil, List.append_nil, List.length_append,
      List.length_nil] at this ⊢
    omega
  · obtain ⟨done, cur, hf, hw, hp⟩ := h.safe hn
    refine ⟨done ++ [cur], [], ?_, rfl, ?_⟩
    · exact List.rel_append hf (.cons ⟨[], by simpa using hw, .inl rfl⟩ .nil)
    · simpa [Sys.closeSocket, Client.closeSocket, Sys.queued] using hp

theorem LineInv.netStep {s t : Sys} {outs : List Int} (h : LineInv s)
    (ht : s.netStep outs = some t) : LineInv t := by
  unfold Sys.netStep at ht
  split at ht
  · rename_i hph
    obtain ⟨u, hu, rfl⟩ := Option.map_eq_some_iff.1 ht
    obtain ⟨-, hp⟩ := sendLine_sent hu
    refine (h.pass hu).congr rfl rfl rfl rfl ?_
    simp only [Sys.queued, hp, hph]; rfl
  · rename_i hph
    obtain ⟨u, hu, rfl⟩ := Option.map_eq_some_iff.1 ht
    obtain ⟨-, hp⟩ := sendLine_sent hu
    refine (h.pass hu).congr rfl rfl rfl rfl ?_
    simp only [Sys.queued, hp, hph]; rfl
  · rename_i hph
    split at ht
    · cases ht
      exact h.congr rfl rfl rfl rfl (by simp only [Sys.queued, hph]; rfl)
    · cases ht
  · rename_i hph
    split at ht
    · cases ht
      refine h.congr rfl rfl rfl rfl ?_
      simp only [Sys.queued, hph, Phase.flushing, List.nil_append, List.append_nil]
    · cases ht
  · rename_i hph
    split at ht
    · cases ht
      exact h.congr rfl rfl rfl rfl (by simp only [Sys.queued, hph]; rfl)
    · cases ht
  · rename_i r q hph
    obtain ⟨u, hu, rfl⟩ := Option.map_eq_some_iff.1 ht
    exact (h.passing_flush hph).sent (sendLine_sent hu).1 rfl
  · cases ht

theorem LineInv.step {s t : Sys} {e : Event} (h : LineInv s) (ht : s.step e = some t) :
    LineInv t := by
  cases e with
  | dial =>
    simp only [Sys.step] at ht
    split at ht
    · rename_i hph
      cases ht
      exact h.congr rfl rfl rfl rfl (by simp only [Sys.queued, hph.1]; rfl)
    · cases ht
  | refused =>
    simp only [Sys.step] at ht
    split at ht
    · rename_i hph
      cases ht
      exact h.congr rfl rfl rfl rfl (by simp only [Sys.queued, hph]; rfl)
    · cases ht
  | connect =>
    simp only [Sys.step] at ht
    split at ht
    · rename_i hph
      cases ht
      exact h.congr rfl rfl rfl rfl (by simp only [Sys.queued, hph]; rfl)
    · cases ht
  | net outs => exact h.netStep ht
  | answer k err =>
    simp only [Sys.step] at ht
    split at ht
    · split at ht
      · cases ht
        refine h.congr rfl rfl rfl rfl ?_
        simp only [Sys.queued, Sys.answer, handleReply_outq]
      · cases ht
    · cases ht
  | reply id err =>
    simp only [Sys.step] at ht
    split at ht
    · cases ht
      exact h.congr rfl rfl rfl rfl (by simp only [Sys.queued, handleReply_outq])
    · cases ht
  | ping id outs =>
    simp only [Sys.step] at ht
    split at ht
    · exact h.pass ht
    · cases ht
  | leave =>
    simp only [Sys.step] at ht
    split at ht
    · rename_i hph
      cases ht
      refine LineInv.congr (s := s.closeSocket) h.closeSocket rfl rfl rfl rfl ?_
      simp only [Sys.queued, Sys.closeSocket, hph]; rfl
    · cases ht
  | halt => cases ht; exact h.congr rfl rfl rfl rfl rfl
  | close =>
    simp only [Sys.step] at ht
    split at ht
    · cases ht
    · cases ht; exact h.closeSocket
  | take jobId nonce proofB64 achievedHex vdfTick tag =>
    cases ht; exact h.congr rfl rfl rfl rfl rfl
  | send k outs =>
    simp only [Sys.step] at ht
    split at ht
    · exact LineInv.pass (s := { s with inflight := s.inflight.eraseIdx k })
        (h.congr rfl rfl rfl rfl rfl) ht
    · cases ht

/-! ## Failures -/

theorem sendLine_torn {s t : Sys} {r : Request} {outs : List Int}
    (h : s.sendLine r outs = some t) :
    t.hist.torn = [] ↔ s.hist.torn = [] ∧ ∀ n ∈ outs, 0 < n := by
  unfold Sys.sendLine Client.sendLine at h
  cases ho : s.client.open_ with
  | true =>
    simp only [ho, if_true, Option.map_map, Option.map_eq_some_iff, Function.comp] at h
    obtain ⟨⟨w, ok⟩, hw, rfl⟩ := h
    rw [← writeAll_ok_iff hw]
    cases ok <;> simp
  | false =>
    simp only [ho, Bool.false_eq_true, if_false, Option.map_eq_some_iff] at h
    obtain ⟨⟨c, w⟩, hw, rfl⟩ := h
    split at hw
    · rename_i hn
      subst hn
      simp
    · cases hw

theorem pass_torn {s t : Sys} {r : Request} {outs : List Int} (h : s.pass r outs = some t) :
    t.hist.torn = [] ↔ s.hist.torn = [] ∧ ∀ n ∈ outs, 0 < n :=
  sendLine_torn (s := { s with hist := { s.hist with passed := s.hist.passed ++ [r] } }) h

theorem netStep_torn {s t : Sys} {outs : List Int} (h : s.netStep outs = some t) :
    t.hist.torn = [] ↔ s.hist.torn = [] ∧ ∀ n ∈ outs, 0 < n := by
  unfold Sys.netStep at h
  split at h
  case h_1 | h_2 =>
    obtain ⟨u, hu, rfl⟩ := Option.map_eq_some_iff.1 h
    exact pass_torn (t := u) hu
  case h_6 =>
    obtain ⟨u, hu, rfl⟩ := Option.map_eq_some_iff.1 h
    exact sendLine_torn (t := u) hu
  case h_3 | h_4 | h_5 =>
    split at h
    · rename_i hn
      cases h
      simp [hn]
    · cases h
  case h_7 => cases h

/-- A line is given up on in a step exactly when one of its `net::send` calls fails. -/
theorem step_torn {s t : Sys} {e : Event} (h : s.step e = some t) :
    t.hist.torn = [] ↔ s.hist.torn = [] ∧ ∀ n ∈ e.outcomes, 0 < n := by
  cases e with
  | net outs => exact netStep_torn h
  | ping id outs =>
    simp only [Sys.step] at h
    split at h
    · exact pass_torn h
    · cases h
  | send k outs =>
    simp only [Sys.step] at h
    split at h
    · exact pass_torn (s := { s with inflight := s.inflight.eraseIdx k }) h
    · cases h
  | answer k err =>
    simp only [Sys.step] at h
    split at h
    · split at h
      · cases h; simp [Sys.answer, Event.outcomes]
      · cases h
    · cases h
  | halt | take => cases h; simp [Sys.take, Event.outcomes]
  | dial | refused | connect | reply | leave | close =>
    simp only [Sys.step] at h
    split at h <;> first | (cases h; simp [Sys.closeSocket, Event.outcomes]) | cases h

/-! ## Results -/

variable (user pass ua : Bytes)

theorem lineInv_exec {es : List Event} {s : Sys}
    (h : (machine user pass ua).exec (machine user pass ua).init es = some s) : LineInv s := by
  refine (machine user pass ua).exec_invariant (I := LineInv) (fun _ _ _ => LineInv.step) ?_ h
  exact ⟨rfl, by simp [machine], fun _ => ⟨[], [], .nil, rfl, by simp [machine, Sys.queued,
    Phase.flushing]⟩⟩

theorem torn_exec {es : List Event} {s t : Sys}
    (h : (machine user pass ua).exec s es = some t) :
    t.hist.torn = [] ↔ s.hist.torn = [] ∧ ∀ e ∈ es, ∀ n ∈ e.outcomes, 0 < n := by
  induction es generalizing s with
  | nil => cases h; simp
  | cons e es ih =>
    obtain ⟨u, hu, hrest⟩ := (machine user pass ua).exec_cons.1 h
    rw [ih hrest, step_torn hu, List.forall_mem_cons, and_assoc]

theorem framed_size {done : List (List Request)} {past : List Bytes}
    (h : List.Forall₂ Framed done past) : size done.flatten ≤ past.flatten.length := by
  induction h with
  | nil => simp
  | cons hf _ ih =>
    obtain ⟨cut, rfl, -⟩ := hf
    simp only [List.flatten_cons, List.length_append, size, encode_append] at ih ⊢
    omega

/-- A line that was given up on is on no session and in no queue. -/
theorem LineInv.torn_nil {s : Sys} (h : LineInv s) (hs : LinesSafe s) : s.hist.torn = [] := by
  obtain ⟨done, cur, hf, hw, hp⟩ := hs
  by_contra hne
  have hpos := missing_pos hne h.short
  have hsize := framed_size hf
  have hb := h.bytes
  rw [size_perm hp, hw] at hb
  simp only [size_append] at hb
  have hcur : size cur = (encode cur).length := rfl
  omega

/-- **Lines stay whole and none is lost exactly in the runs in which no `net::send` fails.** -/
theorem lines_safe_iff {es : List Event} {s : Sys}
    (h : (machine user pass ua).exec (machine user pass ua).init es = some s) :
    LinesSafe s ↔ ∀ e ∈ es, ∀ n ∈ e.outcomes, 0 < n := by
  have hinv := lineInv_exec user pass ua h
  have htorn := torn_exec user pass ua h
  constructor
  · intro hs
    exact (htorn.1 (hinv.torn_nil hs)).2
  · intro hok
    exact hinv.safe (htorn.2 ⟨rfl, hok⟩)

/-- A submit made before the first connection: queued, then flushed in two writes. -/
def queuedThenSent : List Event :=
  let m : Submit := { id := 1, user := [], jobId := [], nonce := 7, proofB64 := text "AA=="
                      achievedHex := [], vdfTick := 0, tag := 0 }
  [.take m.jobId m.nonce m.proofB64 m.achievedHex m.vdfTick m.tag, .send 0 [], .dial, .connect,
    .net [(Request.subscribe []).line.length], .net [(Request.authorize [] []).line.length],
    .net [], .net [], .net [40, (Request.submit m).line.length - 40]]

theorem lines_safe_flushed :
    ∃ s, (machine [] [] []).exec (machine [] [] []).init queuedThenSent = some s ∧
      LinesSafe s := by
  have h : ((machine [] [] []).exec (machine [] [] []).init queuedThenSent).isSome := by
    decide +kernel
  obtain ⟨s, hs⟩ := Option.isSome_iff_exists.1 h
  exact ⟨s, hs, (lines_safe_iff [] [] [] hs).2 (by decide +kernel)⟩

/-- Connected, the handshake's first line gets one byte out, then the socket fails. -/
def tornHandshake : List Event := [.dial, .connect, .net [1, -1]]

/-- **The line is on no session and in no queue.** -/
theorem lines_lost : ∃ s, (machine [] [] []).exec (machine [] [] []).init tornHandshake = some s ∧
    ¬ LinesSafe s := by
  have h : ((machine [] [] []).exec (machine [] [] []).init tornHandshake).map
      (fun s => s.hist.torn.map (·.2)) = some [1] := by decide +kernel
  obtain ⟨s, hs, ht⟩ := Option.map_eq_some_iff.1 h
  refine ⟨s, hs, fun hsafe => ?_⟩
  rw [(lineInv_exec [] [] [] hs).torn_nil hsafe] at ht
  cases ht

end Stratum
