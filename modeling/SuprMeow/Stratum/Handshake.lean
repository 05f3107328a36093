import SuprMeow.Stratum.Client

/-!
# The handshake comes first

What the pool may expect of a session: the line of `mining.subscribe`, then the line of
`mining.authorize`, and only then anything else.  `connect_once` publishes the socket before
`handshake` has written either line, and the two lines are two critical sections, so a mining
thread's `send_line` can come before or between them.

* `handshake_first` — every session starts with the two lines, as long as no other line gets in
  their way and none of the two is cut;
* `submit_before_subscribe` — a run in which a submit gets in their way.
-/

set_option autoImplicit false

namespace Stratum

/-! ## Specification -/

/-- The two lines `handshake` writes. -/
def greeting (user pass ua : Bytes) : Bytes :=
  (Request.subscribe ua).line ++ (Request.authorize user pass).line

/-- A session that starts with `g`, or has not got through `g` yet. -/
def StartsWith (g w : Bytes) : Prop := w <+: g ∨ g <+: w

/-- **Every session, ended or current, starts with the two lines.** -/
def HandshakeFirst (user pass ua : Bytes) (s : Sys) : Prop :=
  ∀ w ∈ s.hist.past ++ [s.hist.wire], StartsWith (greeting user pass ua) w

/-- What has to be on the session before the network thread's next line. -/
def Sys.due (s : Sys) : Bytes :=
  match s.phase with
  | .idle | .dialing | .subscribe => []
  | .authorize => (Request.subscribe s.client.ua).line
  | _ => greeting s.client.user s.client.pass s.client.ua

/-- A mining thread's `send_line` between `connect_once` and the end of the two lines. -/
def Event.early (s : Sys) : Event → Prop
  | .send _ _ => s.phase = .subscribe ∨ s.phase = .authorize
  | _ => False

/-- No byte is written out of turn: not by a mining thread before the two lines are through, and
not by anyone after one of them was cut. -/
def InOrder (s : Sys) (e : Event) : Prop :=
  s.client.open_ = true → e.early s ∨ ¬ s.due <+: s.hist.wire → ∀ n ∈ e.outcomes, n ≤ 0

instance (s : Sys) : ∀ e : Event, Decidable (e.early s)
  | .send _ _ => inferInstanceAs (Decidable (_ ∨ _))
  | .dial | .refused | .connect | .net _ | .answer _ _ | .reply _ _ | .ping _ _ | .leave
  | .halt | .close | .take .. => isFalse id

instance (s : Sys) (e : Event) : Decidable (InOrder s e) :=
  inferInstanceAs (Decidable (_ = _ → _ ∨ ¬ _ → ∀ n ∈ _, n ≤ 0))

/-! ## Prefixes -/

theorem startsWith_nil (g : Bytes) : StartsWith g [] := .inl (List.nil_prefix)

theorem subscribe_isPrefix_greeting (user pass ua : Bytes) :
    (Request.subscribe ua).line <+: greeting user pass ua :=
  List.prefix_append _ _

theorem writeAll_isPrefix {b w : Bytes} {ok : Bool} {outs : List Int}
    (h : writeAll b outs = some (w, ok)) : w <+: b := by
  induction outs generalizing b w ok with
  | nil => cases b <;> simp_all [writeAll]
  | cons n outs ih =>
    cases b with
    | nil => simp [writeAll] at h
    | cons x rest =>
      unfold writeAll at h
      split at h
      · split at h
        · cases h; exact List.nil_prefix
        · cases h
      · split at h
        · cases h
        · obtain ⟨⟨v, ok'⟩, hv, he⟩ := Option.map_eq_some_iff.1 h
          obtain rfl : List.take n.toNat (x :: rest) ++ v = w := congrArg Prod.fst he
          have := ih hv
          rw [← List.prefix_append_right_inj (List.take n.toNat (x :: rest)),
            List.take_append_drop] at this
          exact this

/-- A line whose first `net::send` fails leaves nothing on the wire. -/
theorem writeAll_failed {b w : Bytes} {ok : Bool} {outs : List Int}
    (h : writeAll b outs = some (w, ok)) (hb : 0 < b.length) (hf : ∀ n ∈ outs, n ≤ 0) : w = [] := by
  cases outs with
  | nil => cases b <;> simp_all [writeAll]
  | cons n outs =>
    cases b with
    | nil => simp at hb
    | cons x rest =>
      unfold writeAll at h
      rw [if_pos (hf n List.mem_cons_self)] at h
      split at h
      · cases h; rfl
      · cases h

/-! ## Steps -/

/-- What a `send_line` leaves behind: `w` is what it wrote. -/
structure Wrote (s t : Sys) (r : Request) (outs : List Int) (w : Bytes) : Prop where
  wire : t.hist.wire = s.hist.wire ++ w
  ofLine : w <+: r.line
  closed : s.client.open_ = false → w = []
  failed : (∀ n ∈ outs, n ≤ 0) → w = []
  past : t.hist.past = s.hist.past
  phase : t.phase = s.phase
  sameOpen : t.client.open_ = s.client.open_
  user : t.client.user = s.client.user
  pass : t.client.pass = s.client.pass
  ua : t.client.ua = s.client.ua

theorem sendLine_wrote {s t : Sys} {r : Request} {outs : List Int}
    (h : s.sendLine r outs = some t) : ∃ w, Wrote s t r outs w := by
  unfold Sys.sendLine Client.sendLine at h
  cases ho : s.client.open_ with
  | true =>
    simp only [ho, if_true, Option.map_map, Option.map_eq_some_iff, Function.comp] at h
    obtain ⟨⟨w, ok⟩, hw, rfl⟩ := h
    exact ⟨w, rfl, writeAll_isPrefix hw, by simp [ho], writeAll_failed hw r.line_pos,
      rfl, rfl, rfl, rfl, rfl, rfl⟩
  | false =>
    simp only [ho, Bool.false_eq_true, if_false, Option.map_eq_some_iff] at h
    obtain ⟨⟨c, w⟩, hw, rfl⟩ := h
    split at hw
    · cases hw
      exact ⟨[], by simp, List.nil_prefix, fun _ => rfl, fun _ => rfl, rfl, rfl, ho.symm, rfl, rfl,
        rfl⟩
    · cases hw

theorem pass_wrote {s t : Sys} {r : Request} {outs : List Int} (h : s.pass r outs = some t) :
    ∃ w, Wrote s t r outs w := by
  obtain ⟨w, hw⟩ := sendLine_wrote h
  exact ⟨w, hw.wire, hw.ofLine, hw.closed, hw.failed, hw.past, hw.phase, hw.sameOpen, hw.user,
    hw.pass, hw.ua⟩

/-- What the current session carries at each point of `run`. -/
def Sys.Greeted (s : Sys) : Prop :=
  match s.phase with
  | .idle | .dialing | .subscribe => s.hist.wire = []
  | .authorize => s.hist.wire <+: (Request.subscribe s.client.ua).line
  | _ => StartsWith (greeting s.client.user s.client.pass s.client.ua) s.hist.wire

/-- Holds along every run whose writes are in order. -/
structure Ordered (user pass ua : Bytes) (s : Sys) : Prop where
  sameUser : s.client.user = user
  samePass : s.client.pass = pass
  sameUa : s.client.ua = ua
  past : ∀ w ∈ s.hist.past, StartsWith (greeting user pass ua) w
  closed : s.client.open_ = false → s.hist.wire = []
  offline : s.phase = .idle ∨ s.phase = .dialing → s.client.open_ = false
  greeted : s.Greeted

variable {user pass ua : Bytes}

/-- The current session is fine at every point. -/
theorem Ordered.startsWith {s : Sys} (h : Ordered user pass ua s) :
    StartsWith (greeting user pass ua) s.hist.wire := by
  have hg := h.greeted
  unfold Sys.Greeted at hg
  rw [h.sameUser, h.samePass, h.sameUa] at hg
  split at hg
  · rw [hg]; exact startsWith_nil _
  · rw [hg]; exact startsWith_nil _
  · rw [hg]; exact startsWith_nil _
  · exact .inl (hg.trans (subscribe_isPrefix_greeting user pass ua))
  · exact hg

theorem Ordered.handshakeFirst {s : Sys} (h : Ordered user pass ua s) :
    HandshakeFirst user pass ua s := by
  intro w hw
  rcases List.mem_append.1 hw with hw | hw
  · exact h.past w hw
  · rw [List.mem_singleton.1 hw]; exact h.startsWith

theorem greeted_of_nil {s : Sys} (h : s.hist.wire = []) : s.Greeted := by
  unfold Sys.Greeted
  split
  · exact h
  · exact h
  · exact h
  · rw [h]; exact List.nil_prefix
  · rw [h]; exact startsWith_nil _

/-- A step that leaves the sessions and the account alone. -/
theorem Ordered.congr {s t : Sys} (h : Ordered user pass ua s) (hh : t.hist.wire = s.hist.wire)
    (hp : t.hist.past = s.hist.past) (ho : t.client.open_ = s.client.open_)
    (hu : t.client.user = s.client.user) (hpw : t.client.pass = s.client.pass)
    (ha : t.client.ua = s.client.ua)
    (hoff : t.phase = .idle ∨ t.phase = .dialing → s.client.open_ = false)
    (hg : t.Greeted) : Ordered user pass ua t := by
  refine ⟨hu.trans h.sameUser, hpw.trans h.samePass, ha.trans h.sameUa, ?_, ?_, ?_, hg⟩
  · rw [hp]; exact h.past
  · rw [ho, hh]; exact h.closed
  · rw [ho]; exact hoff

/-- The same for a step that stays in its phase. -/
theorem Ordered.still {s t : Sys} (h : Ordered user pass ua s) (hh : t.hist.wire = s.hist.wire)
    (hp : t.hist.past = s.hist.past) (ho : t.client.open_ = s.client.open_)
    (hu : t.client.user = s.client.user) (hpw : t.client.pass = s.client.pass)
    (ha : t.client.ua = s.client.ua) (hph : t.phase = s.phase) : Ordered user pass ua t := by
  refine h.congr hh hp ho hu hpw ha (by rw [hph]; exact h.offline) ?_
  have hg := h.greeted
  unfold Sys.Greeted at hg ⊢
  rw [hph, hh, hu, hpw, ha]
  exact hg

/-- A write, after which the network thread may be in another phase. -/
theorem Ordered.wrote {s t : Sys} {r : Request} {outs : List Int} {w : Bytes}
    (h : Ordered user pass ua s) (hw : Wrote s t r outs w) (p : Phase)
    (hoff : p = .idle ∨ p = .dialing → s.client.open_ = false)
    (hg : Sys.Greeted { t with phase := p }) : Ordered user pass ua { t with phase := p } := by
  refine ⟨hw.user.trans h.sameUser, hw.pass.trans h.samePass, hw.ua.trans h.sameUa, ?_, ?_, ?_, hg⟩
  · rw [show Sys.hist { t with phase := p } = t.hist from rfl, hw.past]; exact h.past
  · intro hc
    rw [show Sys.hist { t with phase := p } = t.hist from rfl, hw.wire]
    rw [show Sys.client { t with phase := p } = t.client from rfl, hw.sameOpen] at hc
    rw [h.closed hc, hw.closed hc, List.nil_append]
  · intro hp
    rw [show Sys.client { t with phase := p } = t.client from rfl, hw.sameOpen]
    exact hoff hp

/-- Either a write leaves nothing behind, or it comes when it is due. -/
theorem InOrder.cases {s t : Sys} {e : Event} {r : Request} {w : Bytes} (hok : InOrder s e)
    (hw : Wrote s t r e.outcomes w) :
    w = [] ∨ s.client.open_ = true ∧ ¬ e.early s ∧ s.due <+: s.hist.wire := by
  cases ho : s.client.open_ with
  | false => exact .inl (hw.closed ho)
  | true =>
    by_cases hb : e.early s ∨ ¬ s.due <+: s.hist.wire
    · exact .inl (hw.failed (hok ho hb))
    · rw [not_or, not_not] at hb
      exact .inr ⟨rfl, hb⟩

/-- **A line written after the greeting does not spoil it.** -/
theorem Ordered.append {s t : Sys} {r : Request} {outs : List Int} {w : Bytes}
    (h : Ordered user pass ua s) (hw : Wrote s t r outs w)
    (hdue : w = [] ∨ s.phase ≠ .subscribe ∧ s.phase ≠ .authorize ∧ s.client.open_ = true ∧
      s.due <+: s.hist.wire) : t.Greeted := by
  have hg := h.greeted
  unfold Sys.Greeted at hg ⊢
  rw [hw.phase, hw.wire, hw.user, hw.pass, hw.ua]
  rcases hdue with rfl | ⟨hs, ha, ho, hdue⟩
  · rw [List.append_nil]; exact hg
  · unfold Sys.due at hdue
    split
    · rename_i hph
      rw [h.offline (.inl hph)] at ho; cases ho
    · rename_i hph
      rw [h.offline (.inr hph)] at ho; cases ho
    · rename_i hph; exact absurd hph hs
    · rename_i hph; exact absurd hph ha
    · split at hdue
      · contradiction
      · contradiction
      · contradiction
      · contradiction
      · exact .inr (hdue.trans (List.prefix_append _ _))

theorem Ordered.closeSocket {s : Sys} (h : Ordered user pass ua s) :
    Ordered user pass ua s.closeSocket := by
  refine ⟨h.sameUser, h.samePass, h.sameUa, ?_, fun _ => rfl, fun _ => rfl, greeted_of_nil rfl⟩
  exact h.handshakeFirst

theorem Ordered.netStep {s t : Sys} {outs : List Int} (h : Ordered user pass ua s)
    (hok : InOrder s (.net outs)) (ht : s.netStep outs = some t) : Ordered user pass ua t := by
  have hg := h.greeted
  unfold Sys.netStep at ht
  split at ht
  · rename_i hph
    obtain ⟨u, hu, rfl⟩ := Option.map_eq_some_iff.1 ht
    obtain ⟨w, hw⟩ := pass_wrote hu
    refine h.wrote hw _ (by simp) ?_
    simp only [Sys.Greeted, hph] at hg ⊢
    rw [hw.wire, hg, hw.ua]
    exact hw.ofLine
  · rename_i hph
    obtain ⟨u, hu, rfl⟩ := Option.map_eq_some_iff.1 ht
    obtain ⟨w, hw⟩ := pass_wrote hu
    refine h.wrote hw _ (by simp) ?_
    simp only [Sys.Greeted, hph] at hg ⊢
    rw [hw.wire, hw.ua, hw.user, hw.pass]
    rcases hok.cases (e := .net outs) hw with rfl | ⟨-, -, hdue⟩
    · rw [List.append_nil]
      exact .inl (hg.trans (subscribe_isPrefix_greeting _ _ _))
    · simp only [Sys.due, hph] at hdue
      rw [hg.eq_of_length_le hdue.length_le]
      exact .inl ((List.prefix_append_right_inj _).2 hw.ofLine)
  · rename_i hph
    split at ht
    · cases ht
      refine h.congr rfl rfl rfl rfl rfl rfl (by simp) ?_
      simpa only [Sys.Greeted, hph] using hg
    · cases ht
  · rename_i hph
    split at ht
    · cases ht
      refine h.congr rfl rfl rfl rfl rfl rfl (by simp) ?_
      simpa only [Sys.Greeted, hph] using hg
    · cases ht
  · rename_i hph
    split at ht
    · cases ht
      refine h.congr rfl rfl rfl rfl rfl rfl (by simp) ?_
      simpa only [Sys.Greeted, hph] using hg
    · cases ht
  · rename_i r q hph
    obtain ⟨u, hu, rfl⟩ := Option.map_eq_some_iff.1 ht
    obtain ⟨w, hw⟩ := sendLine_wrote hu
    refine h.wrote hw _ (by simp) ?_
    have hgu : u.Greeted := by
      refine h.append hw ?_
      rcases hok.cases (e := .net outs) hw with rfl | ⟨ho, -, hdue⟩
      · exact .inl rfl
      · exact .inr ⟨by simp [hph], by simp [hph], ho, hdue⟩
    simpa only [Sys.Greeted, hw.phase, hph] using hgu
  · cases ht

theorem Ordered.passed {s u t : Sys} {e : Event} {r : Request} (h : Ordered user pass ua s)
    (hok : InOrder s e) (hs : u.hist = s.hist) (hc : u.client = s.client)
    (hp : u.phase = s.phase) (hearly : s.phase = .subscribe ∨ s.phase = .authorize → e.early s)
    (ht : u.pass r e.outcomes = some t) : Ordered user pass ua t := by
  obtain ⟨w, hw'⟩ := pass_wrote ht
  have hw : Wrote s t r e.outcomes w :=
    ⟨by rw [hw'.wire, hs], hw'.ofLine, by rw [← hc]; exact hw'.closed, hw'.failed,
      by rw [hw'.past, hs], hw'.phase.trans hp, by rw [hw'.sameOpen, hc], by rw [hw'.user, hc],
      by rw [hw'.pass, hc], by rw [hw'.ua, hc]⟩
  refine h.wrote (t := t) hw t.phase (by rw [hw.phase]; exact h.offline) (h.append hw ?_)
  rcases hok.cases hw with rfl | ⟨ho, hne, hdue⟩
  · exact .inl rfl
  · exact .inr ⟨fun hs => hne (hearly (.inl hs)), fun hs => hne (hearly (.inr hs)), ho, hdue⟩

theorem Ordered.step {s t : Sys} {e : Event} (h : Ordered user pass ua s) (hok : InOrder s e)
    (ht : s.step e = some t) : Ordered user pass ua t := by
  cases e with
  | dial | refused =>
    simp only [Sys.step] at ht
    split at ht
    · rename_i hph
      cases ht
      have hc : s.client.open_ = false := h.offline (by simp [hph])
      exact h.congr rfl rfl rfl rfl rfl rfl (fun _ => hc) (greeted_of_nil (h.closed hc))
    · cases ht
  | connect =>
    simp only [Sys.step] at ht
    split at ht
    · rename_i hph
      cases ht
      have hw : s.hist.wire = [] := h.closed (h.offline (.inr hph))
      exact ⟨h.sameUser, h.samePass, h.sameUa, h.past, fun _ => hw, by simp, greeted_of_nil hw⟩
    · cases ht
  | net outs => exact h.netStep hok ht
  | answer k err =>
    simp only [Sys.step] at ht
    split at ht
    · split at ht
      · cases ht
        refine h.still rfl rfl ?_ ?_ ?_ ?_ rfl <;>
          simp only [Sys.answer, Client.handleReply] <;> split <;> rfl
      · cases ht
    · cases ht
  | reply id err =>
    simp only [Sys.step] at ht
    split at ht
    · cases ht
      refine h.still rfl rfl ?_ ?_ ?_ ?_ rfl <;>
        simp only [Client.handleReply] <;> split <;> rfl
    · cases ht
  | ping id outs =>
    simp only [Sys.step] at ht
    split at ht
    · rename_i hph
      exact h.passed hok rfl rfl rfl (by simp [hph]) ht
    · cases ht
  | leave =>
    simp only [Sys.step] at ht
    split at ht
    · cases ht
      have := h.closeSocket
      exact ⟨this.sameUser, this.samePass, this.sameUa, this.past, fun _ => rfl, fun _ => rfl, rfl⟩
    · cases ht
  | halt => cases ht; exact h.still rfl rfl rfl rfl rfl rfl rfl
  | close =>
    simp only [Sys.step] at ht
    split at ht
    · cases ht
    · cases ht; exact h.closeSocket
  | take jobId nonce proofB64 achievedHex vdfTick tag =>
    cases ht; exact h.still rfl rfl rfl rfl rfl rfl rfl
  | send k outs =>
    simp only [Sys.step] at ht
    split at ht
    · exact h.passed (u := { s with inflight := s.inflight.eraseIdx k }) hok rfl rfl rfl id ht
    · cases ht

/-! ## Results -/

/-- **In every run whose writes are in order, every session starts with `mining.subscribe` and
`mining.authorize`.** -/
theorem handshake_first (user pass ua : Bytes) {es : List Event} {s : Sys}
    (h : (machine user pass ua).exec (machine user pass ua).init es = some s)
    (hok : (machine user pass ua).Guarded InOrder (machine user pass ua).init es) :
    HandshakeFirst user pass ua s := by
  refine Ordered.handshakeFirst ?_
  refine (machine user pass ua).guarded_invariant (I := Ordered user pass ua)
    (fun _ _ _ => Ordered.step) ?_ hok h
  exact ⟨rfl, rfl, rfl, by simp [machine], fun _ => rfl, fun _ => rfl, rfl⟩

/-- A submit waits in `outq_` for the first session; another one is sent on the second. -/
def twoSessions : List Event :=
  let sub := (Request.subscribe []).line.length
  let auth := (Request.authorize [] []).line.length
  let m (id : Nat) : Submit := { id, user := [], jobId := [], nonce := 7, proofB64 := text "AA=="
                                 achievedHex := [], vdfTick := 0, tag := 0 }
  [.take [] 7 (text "AA==") [] 0 0, .send 0 [], .dial, .connect, .net [9, sub - 9], .net [auth],
    .net [], .net [], .net [(Request.submit (m 1)).line.length], .net [], .leave, .dial, .connect,
    .net [sub], .take [] 7 (text "AA==") [] 0 0, .net [auth], .net [],
    .send 0 [(Request.submit (m 3)).line.length]]

theorem handshake_first_twice :
    ∃ s, (machine [] [] []).exec (machine [] [] []).init twoSessions = some s ∧
      HandshakeFirst [] [] [] s := by
  have h : ((machine [] [] []).exec (machine [] [] []).init twoSessions).isSome := by
    decide +kernel
  obtain ⟨s, hs⟩ := Option.isSome_iff_exists.1 h
  exact ⟨s, hs, handshake_first [] [] [] hs (by decide +kernel)⟩

/-- The mining thread holds a submit when `connect_once` publishes the socket. -/
def submitFirst : List Event :=
  let m : Submit := { id := 1, user := [], jobId := [], nonce := 7, proofB64 := text "AA=="
                      achievedHex := [], vdfTick := 0, tag := 0 }
  [.take m.jobId m.nonce m.proofB64 m.achievedHex m.vdfTick m.tag, .dial, .connect,
    .send 0 [(Request.submit m).line.length]]

/-- **The session starts with `mining.submit`.** -/
theorem submit_before_subscribe :
    ∃ s, (machine [] [] []).exec (machine [] [] []).init submitFirst = some s ∧
      ¬ HandshakeFirst [] [] [] s := by
  have h : ((machine [] [] []).exec (machine [] [] []).init submitFirst).map
      (fun s => decide (s.hist.wire <+: greeting [] [] [] ∨ greeting [] [] [] <+: s.hist.wire)) =
      some false := by decide +kernel
  obtain ⟨s, hs, hw⟩ := Option.map_eq_some_iff.1 h
  exact ⟨s, hs, fun hf => of_decide_eq_false hw (hf _ (by simp))⟩

end Stratum
