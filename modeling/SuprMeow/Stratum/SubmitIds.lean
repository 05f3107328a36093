import SuprMeow.Library.KeyedList
import SuprMeow.Stratum.Client

/-!
# Submit ids and tags

Requests on one session have distinct ids, and a reply finds the tag of its submit.  The
handshake numbers from 3 again on every session, so both rest on no older id being alive then.

* `Handshake` — where the handshake's own two requests can be, in any run;
* `IdInv` — ids, pending tags and unanswered submits, in a run that keeps the numbering;
* `submits_attributed` — such runs give distinct ids and the right tags;
* `submit_misattributed` — a reconnect with an unanswered submit gives neither.
-/

set_option autoImplicit false

namespace Stratum

open KeyedList

/-! ## Specification -/

/-- **Distinct ids on each session; a reply is passed on with the tag of its submit.** -/
structure Attributed (s : Sys) : Prop where
  ids : ∀ l ∈ s.hist.asked :: s.hist.pastAsked, (l.filterMap Request.id?).Nodup
  tags : ∀ a ∈ s.hist.answers, a.crowded = false → a.passed = a.given

/-- The submits among some lines. -/
def submits (l : List Request) : List Submit := l.filterMap Request.submit?

/-- The lines not yet on a socket: queued, in the flush, with a thread, or in `hand`. -/
def Sys.unsent (s : Sys) (hand : List Request) : List Request :=
  s.client.outq ++ s.phase.flushing ++ s.inflight.map .submit ++ hand

/-- The submits whose id is in use: not yet on a socket or on the current session. -/
def Sys.live (s : Sys) (hand : List Request) : List Submit :=
  submits (s.unsent hand ++ s.hist.asked)

/-- No submit takes an id before the first handshake has set the counter or after the counter
ran out, the counter is set again only when no id is in use, and the pool replies to nothing
but what it was sent. -/
def NumberingKept (s : Sys) : Event → Prop
  | .take .. => 3 ≤ s.client.nextId ∧ s.client.nextId + 1 < 2 ^ 64
  | .net _ => s.phase = .reset → s.live [] = [] ∧ s.client.pendingTags = []
  | .reply id _ => id = 1 ∨ id = 2 ∨ ∀ e ∈ s.client.pendingTags, e.1 ≠ id
  | _ => True

instance : ∀ s e, Decidable (NumberingKept s e)
  | _, .take .. => inferInstanceAs (Decidable (_ ∧ _))
  | _, .net _ => inferInstanceAs (Decidable (_ → _))
  | _, .reply .. => inferInstanceAs (Decidable (_ ∨ _))
  | _, .dial | _, .refused | _, .connect | _, .answer .. | _, .ping .. | _, .leave | _, .halt
  | _, .close | _, .send .. => inferInstanceAs (Decidable True)

/-! ## Sending -/

theorem sendLine_cases {s t : Sys} {r : Request} {outs : List Int}
    (h : s.sendLine r outs = some t) :
    (s.client.open_ = true ∧ ∃ wire torn, t = { s with
      hist := { s.hist with
        wire
        torn
        asked := s.hist.asked ++ [r]
        tickets := match r.submit? with
          | some m => s.hist.tickets.map (Ticket.written m)
          | none => s.hist.tickets } }) ∨
    (s.client.open_ = false ∧ t = { s with
      client := { s.client with outq := s.client.outq ++ [r] } }) := by
  unfold Sys.sendLine at h
  obtain ⟨w, hw, rfl⟩ := Option.map_eq_some_iff.1 h
  unfold Client.sendLine at hw
  split at hw
  · rename_i ho
    obtain ⟨v, -, rfl⟩ := Option.map_eq_some_iff.1 hw
    refine .inl ⟨ho, s.hist.wire ++ v.1,
      if v.2 then s.hist.torn else s.hist.torn ++ [(r, v.1.length)], ?_⟩
    exact congrArg (fun hist => ({ s with hist } : Sys)) (if_pos ho)
  · rename_i ho
    split at hw
    · cases hw
      exact .inr ⟨by simpa using ho, by rw [if_neg ho]⟩
    · cases hw

theorem sendLine_phase {s t : Sys} {r : Request} {outs : List Int}
    (h : s.sendLine r outs = some t) : t.phase = s.phase := by
  rcases sendLine_cases h with ⟨-, w, tn, rfl⟩ | ⟨-, rfl⟩ <;> rfl

/-- `send_line` does not look at the phase. -/
theorem sendLine_with_phase {s t : Sys} {r : Request} {outs : List Int}
    (h : s.sendLine r outs = some t) (p : Phase) :
    ({ s with phase := p } : Sys).sendLine r outs = some { t with phase := p } := by
  unfold Sys.sendLine at h ⊢
  obtain ⟨w, hw, rfl⟩ := Option.map_eq_some_iff.1 h
  exact Option.map_eq_some_iff.2 ⟨w, hw, rfl⟩

/-! ## The handshake -/

/-- The id of a handshake request. -/
def Request.control? : Request → Option Nat
  | .subscribe _ => some 1
  | .authorize _ _ => some 2
  | _ => none

/-- The ids of the handshake requests among some lines. -/
def controls (l : List Request) : List Nat := l.filterMap Request.control?

/-- The handshake's requests go out at most once on a session; they are queued only after `stop`
closed the socket, and then never leave. -/
structure Handshake (s : Sys) : Prop where
  nodup : (controls s.hist.asked).Nodup
  first : s.phase = .subscribe → controls s.hist.asked = []
  second : s.phase = .authorize → 2 ∉ controls s.hist.asked
  early : s.phase = .idle ∨ s.phase = .dialing → s.client.open_ = false
  closed : s.client.open_ = false → s.hist.asked = []
  stopped : s.client.open_ = false → s.phase ≠ .idle → s.phase ≠ .dialing →
    s.client.running = false
  queued : controls (s.client.outq ++ s.phase.flushing) ≠ [] →
    s.client.running = false ∧ s.client.open_ = false ∧ s.phase ≠ .dialing

@[simp] theorem controls_nil : controls [] = [] := rfl

@[simp] theorem controls_append (l l' : List Request) :
    controls (l ++ l') = controls l ++ controls l' := List.filterMap_append

@[simp] theorem controls_subscribe (ua : Bytes) : controls [.subscribe ua] = [1] := rfl

@[simp] theorem controls_authorize (user pass : Bytes) :
    controls [.authorize user pass] = [2] := rfl

@[simp] theorem controls_submit (m : Submit) : controls [.submit m] = [] := rfl

@[simp] theorem controls_pong (id : Bytes) : controls [.pong id] = [] := rfl

theorem controls_cons (r : Request) (l : List Request) :
    controls (r :: l) = controls [r] ++ controls l := controls_append [r] l

@[simp] theorem handleReply_open (c : Client) (id : Nat) (err : Option PoolError) :
    (c.handleReply id err).1.open_ = c.open_ := by
  unfold Client.handleReply
  split <;> rfl

@[simp] theorem handleReply_running (c : Client) (id : Nat) (err : Option PoolError) :
    (c.handleReply id err).1.running = c.running := by
  unfold Client.handleReply
  split <;> rfl

@[simp] theorem handleReply_queue (c : Client) (id : Nat) (err : Option PoolError) :
    (c.handleReply id err).1.outq = c.outq := by
  unfold Client.handleReply
  split <;> rfl

@[simp] theorem handleReply_nextId (c : Client) (id : Nat) (err : Option PoolError) :
    (c.handleReply id err).1.nextId = c.nextId := by
  unfold Client.handleReply
  split <;> rfl

/-- Past the handshake: the network thread serves or flushes. -/
def Phase.after : Phase → Prop
  | .idle | .dialing | .subscribe | .authorize => False
  | _ => True

/-- Steps that write nothing and change the phase only past the handshake. -/
theorem Handshake.congr {s t : Sys} (h : Handshake s) (hasked : t.hist.asked = s.hist.asked)
    (ho : t.client.open_ = s.client.open_)
    (hrun : s.client.running = false → t.client.running = false)
    (hq : t.client.outq ++ t.phase.flushing = s.client.outq ++ s.phase.flushing)
    (hph : t.phase = s.phase ∨ s.phase ≠ .idle ∧ s.phase ≠ .dialing ∧ t.phase.after) :
    Handshake t := by
  rcases hph with hph | ⟨hi, hd, hph⟩
  · refine ⟨?_, ?_, ?_, ?_, ?_, ?_, ?_⟩
    · rw [hasked]; exact h.nodup
    · rw [hasked, hph]; exact h.first
    · rw [hasked, hph]; exact h.second
    · rw [ho, hph]; exact h.early
    · rw [ho, hasked]; exact h.closed
    · rw [ho, hph]; exact fun h1 h2 h3 => hrun (h.stopped h1 h2 h3)
    · rw [hq, ho, hph]; exact fun hne => (h.queued hne).imp_left hrun
  · refine ⟨?_, ?_, ?_, ?_, ?_, ?_, ?_⟩
    · rw [hasked]; exact h.nodup
    · exact fun hn => absurd hph (by simp [hn, Phase.after])
    · exact fun hn => absurd hph (by simp [hn, Phase.after])
    · rintro (hn | hn) <;> exact absurd hph (by simp [hn, Phase.after])
    · rw [ho, hasked]; exact h.closed
    · rw [ho]; exact fun h1 _ _ => hrun (h.stopped h1 hi hd)
    · rw [hq, ho]
      refine fun hne => ⟨hrun (h.queued hne).1, (h.queued hne).2.1, fun hn => ?_⟩
      exact absurd hph (by simp [hn, Phase.after])

/-- Sending a line that is no handshake request. -/
theorem Handshake.sendLine {s t : Sys} {r : Request} {outs : List Int} (h : Handshake s)
    (hr : controls [r] = []) (ht : s.sendLine r outs = some t) : Handshake t := by
  rcases sendLine_cases ht with ⟨ho, w, tn, rfl⟩ | ⟨ho, rfl⟩
  · refine ⟨?_, ?_, ?_, h.early, fun hc => ?_, h.stopped, h.queued⟩
    · simpa [hr] using h.nodup
    · simpa [hr] using h.first
    · simpa [hr] using h.second
    · rw [ho] at hc; cases hc
  · refine ⟨h.nodup, h.first, h.second, h.early, h.closed, h.stopped, fun hq => h.queued ?_⟩
    simpa only [controls_append, hr, List.append_nil] using hq

theorem Handshake.pass {s t : Sys} {r : Request} {outs : List Int} (h : Handshake s)
    (hr : controls [r] = []) (ht : s.pass r outs = some t) : Handshake t :=
  Handshake.sendLine (s := { s with hist := { s.hist with passed := s.hist.passed ++ [r] } })
    ⟨h.nodup, h.first, h.second, h.early, h.closed, h.stopped, h.queued⟩ hr ht

/-- Sending a handshake request: `next` is the phase after it. -/
theorem Handshake.control {s t : Sys} {r : Request} {outs : List Int} {next : Phase}
    (h : Handshake s) (hr : (controls [r]).Nodup) (hph : s.phase.flushing = [])
    (hrun : s.phase ≠ .idle ∧ s.phase ≠ .dialing) (hnext : next = .authorize ∨ next = .reset)
    (hnew : ∀ c ∈ controls [r], c ∉ controls s.hist.asked)
    (hsecond : next = .authorize → 2 ∉ controls s.hist.asked ++ controls [r])
    (ht : s.pass r outs = some t) : Handshake { t with phase := next } := by
  have hfl : next.flushing = [] := by rcases hnext with rfl | rfl <;> rfl
  have hne : next ≠ .idle ∧ next ≠ .dialing ∧ next ≠ .subscribe := by
    rcases hnext with rfl | rfl <;> simp
  rcases sendLine_cases ht with ⟨ho, w, tn, rfl⟩ | ⟨ho, rfl⟩
  · refine ⟨?_, fun hn => absurd hn hne.2.2, ?_, ?_, fun hc => ?_, fun hc => ?_, fun hq => ?_⟩
    · simp only [controls_append, List.nodup_append]
      exact ⟨h.nodup, hr, fun a ha b hb hab => hnew b hb (hab ▸ ha)⟩
    · simpa only [controls_append] using hsecond
    · rintro (hn | hn)
      · exact absurd hn hne.1
      · exact absurd hn hne.2.1
    · exact absurd (hc.symm.trans ho) (by simp)
    · exact absurd (hc.symm.trans ho) (by simp)
    · have := (h.queued (by simpa only [hph, hfl] using hq)).2.1
      exact absurd (this.symm.trans ho) (by simp)
  · have hstop := h.stopped ho hrun.1 hrun.2
    refine ⟨h.nodup, fun hn => absurd hn hne.2.2, fun hn => ?_, ?_, h.closed, fun _ _ _ => hstop,
      fun _ => ⟨hstop, ho, hne.2.1⟩⟩
    · exact fun h2 => hsecond hn (List.mem_append_left _ h2)
    · exact fun _ => ho

theorem Handshake.netStep {s t : Sys} {outs : List Int} (h : Handshake s)
    (ht : s.netStep outs = some t) : Handshake t := by
  unfold Sys.netStep at ht
  split at ht
  · rename_i hph
    obtain ⟨u, hu, rfl⟩ := Option.map_eq_some_iff.1 ht
    have hasked := h.first hph
    refine h.control (by simp) (by rw [hph]; rfl) (by simp [hph]) (.inl rfl) ?_ ?_ hu
    · simp [hasked]
    · simp [hasked]
  · rename_i hph
    obtain ⟨u, hu, rfl⟩ := Option.map_eq_some_iff.1 ht
    have hasked := h.second hph
    refine h.control (by simp) (by rw [hph]; rfl) (by simp [hph]) (.inr rfl) ?_ nofun hu
    simpa using hasked
  · rename_i hph
    split at ht
    · cases ht
      exact h.congr rfl rfl id (by rw [hph]; rfl) (.inr (by simp [hph, Phase.after]))
    · cases ht
  · rename_i hph
    split at ht
    · cases ht
      exact h.congr rfl rfl id (by simp [hph, Phase.flushing]) (.inr (by simp [hph, Phase.after]))
    · cases ht
  · rename_i hph
    split at ht
    · cases ht
      exact h.congr rfl rfl id (by rw [hph]; rfl) (.inr (by simp [hph, Phase.after]))
    · cases ht
  · rename_i r q hph
    obtain ⟨u, hu, rfl⟩ := Option.map_eq_some_iff.1 ht
    rcases sendLine_cases hu with ⟨ho, w, tn, rfl⟩ | ⟨ho, rfl⟩
    · -- The socket is open, so nothing of the handshake is in the queues.
      have hnone : controls (s.client.outq ++ r :: q) = [] := by
        by_contra hne
        have := (h.queued (by rw [hph]; exact hne)).2.1
        exact absurd (this.symm.trans ho) (by simp)
      rw [controls_append, controls_cons, List.append_eq_nil_iff, List.append_eq_nil_iff] at hnone
      obtain ⟨hout, hr, hq⟩ := hnone
      refine ⟨?_, nofun, nofun, ?_, fun hc => absurd (hc.symm.trans ho) (by simp),
        fun hc => absurd (hc.symm.trans ho) (by simp), fun hne => absurd ?_ hne⟩
      · simpa [hr] using h.nodup
      · rintro (hn | hn) <;> cases hn
      · simp only [Phase.flushing, controls_append, hout, hq, List.append_nil]
    · exact h.congr rfl rfl id (by simp [hph, Phase.flushing]) (.inr (by simp [hph, Phase.after]))
  · cases ht

theorem Handshake.closeSocket {s : Sys} (h : Handshake s)
    (hrun : s.phase ≠ .idle → s.phase ≠ .dialing → s.client.running = false) :
    Handshake s.closeSocket := by
  refine ⟨.nil, fun _ => rfl, fun _ => nofun, fun _ => rfl, fun _ => rfl, fun _ => hrun,
    fun hq => ?_⟩
  obtain ⟨h1, -, h3⟩ := h.queued hq
  exact ⟨h1, rfl, h3⟩

theorem Handshake.step {s t : Sys} {e : Event} (h : Handshake s) (ht : s.step e = some t) :
    Handshake t := by
  cases e with
  | dial =>
    simp only [Sys.step] at ht
    split at ht
    · rename_i hc
      cases ht
      obtain ⟨hph, hrun⟩ := hc
      have ho := h.early (.inl hph)
      refine ⟨h.nodup, nofun, nofun, fun _ => ho, h.closed, fun _ _ hn => absurd rfl hn,
        fun hq => ?_⟩
      have := (h.queued (by simpa [hph, Phase.flushing] using hq)).1
      exact absurd (this.symm.trans hrun) (by simp)
    · cases ht
  | refused =>
    simp only [Sys.step] at ht
    split at ht
    · rename_i hph
      cases ht
      refine ⟨h.nodup, nofun, nofun, fun _ => h.early (.inr hph), h.closed,
        fun _ hn => absurd rfl hn, fun hq => ?_⟩
      exact absurd hph (h.queued (by simpa [hph, Phase.flushing] using hq)).2.2
    · cases ht
  | connect =>
    simp only [Sys.step] at ht
    split at ht
    · rename_i hph
      cases ht
      have hasked := h.closed (h.early (.inr hph))
      refine ⟨h.nodup, fun _ => by simp [hasked], nofun, ?_, nofun, nofun, fun hq => ?_⟩
      · rintro (hn | hn) <;> cases hn
      · have hq' : controls (s.client.outq ++ s.phase.flushing) ≠ [] := by rw [hph]; exact hq
        exact absurd hph (h.queued hq').2.2
    · cases ht
  | net outs => exact h.netStep ht
  | answer k err =>
    simp only [Sys.step] at ht
    split at ht
    · split at ht
      · cases ht
        refine h.congr rfl ?_ ?_ ?_ (.inl rfl) <;> simp [Sys.answer]
      · cases ht
    · cases ht
  | reply id err =>
    simp only [Sys.step] at ht
    split at ht
    · cases ht
      refine h.congr rfl ?_ ?_ ?_ (.inl rfl) <;> simp
    · cases ht
  | ping id outs =>
    simp only [Sys.step] at ht
    split at ht
    · exact h.pass rfl ht
    · cases ht
  | leave =>
    simp only [Sys.step] at ht
    split at ht
    · rename_i hph
      cases ht
      refine ⟨.nil, nofun, nofun, fun _ => rfl, fun _ => rfl, fun _ hn => absurd rfl hn,
        fun hq => ?_⟩
      have hq' : controls (s.client.outq ++ s.phase.flushing) ≠ [] := by rw [hph]; exact hq
      exact ⟨(h.queued hq').1, rfl, nofun⟩
    · cases ht
  | halt => cases ht; exact h.congr rfl rfl (fun _ => rfl) rfl (.inl rfl)
  | close =>
    simp only [Sys.step] at ht
    split at ht
    · cases ht
    · rename_i hrun
      cases ht
      exact h.closeSocket fun _ _ => by simpa using hrun
  | take jobId nonce proofB64 achievedHex vdfTick tag =>
    cases ht; exact h.congr rfl rfl id rfl (.inl rfl)
  | send k outs =>
    simp only [Sys.step] at ht
    split at ht
    · exact Handshake.pass (s := { s with inflight := s.inflight.eraseIdx k })
        (h.congr rfl rfl id rfl (.inl rfl)) rfl ht
    · cases ht

/-! ## Pending tags -/

theorem crowd_map {β : Type} (f : Ticket → β) (hf : ∀ t b, f { t with crowded := b } = f t)
    (l : List Ticket) : (crowd l).map f = l.map f := by
  induction l with
  | nil => rfl
  | cons t l ih => simp only [crowd, List.map_cons, ih, hf]

/-- A ticket that is not crowded was not before and has fewer than 2048 behind it. -/
theorem crowd_mem {l : List Ticket} {t : Ticket} (ht : t ∈ crowd l) :
    ∃ u a b, l = a ++ u :: b ∧ t.sub = u.sub ∧ t.place = u.place ∧
      (t.crowded = false → u.crowded = false ∧ b.length < 2048) := by
  induction l with
  | nil => cases ht
  | cons v l ih =>
    rw [crowd, List.mem_cons] at ht
    rcases ht with rfl | ht
    · exact ⟨v, [], l, rfl, rfl, rfl, by simp⟩
    · obtain ⟨u, a, b, rfl, h⟩ := ih ht
      exact ⟨u, v :: a, b, rfl, h⟩

/-- The table against the unanswered submits, oldest first in both. -/
structure Pending (tags : List (Nat × Int)) (tickets : List Ticket) : Prop where
  nodup : (tickets.map (·.sub.id)).Nodup
  sublist : tags.Sublist (tickets.map Ticket.key)
  kept : ∀ t ∈ tickets, t.crowded = false → t.key ∈ tags

theorem Pending.tags_nodup {tags : List (Nat × Int)} {tickets : List Ticket}
    (h : Pending tags tickets) : (tags.map (·.1)).Nodup := by
  have := h.sublist.map (·.1)
  rw [List.map_map] at this
  exact this.nodup h.nodup

/-- A new submit; the table drops its oldest 2048 entries when it is over 4096. -/
theorem Pending.take {tags : List (Nat × Int)} {tickets : List Ticket} (h : Pending tags tickets)
    {m : Submit} (hm : m.id ∉ tickets.map (·.sub.id)) :
    Pending (boundTags (tags ++ [(m.id, m.tag)])) (crowd (tickets ++ [{ sub := m }])) := by
  have hnodup : ((tickets ++ [({ sub := m } : Ticket)]).map (·.sub.id)).Nodup := by
    rw [List.map_append, List.nodup_append]
    refine ⟨h.nodup, by simp, fun a ha b hb hab => hm ?_⟩
    obtain rfl : b = m.id := by simpa using hb
    exact hab ▸ ha
  have hsub : (tags ++ [(m.id, m.tag)]).Sublist
      ((tickets ++ [({ sub := m } : Ticket)]).map Ticket.key) := by
    rw [List.map_append]
    exact h.sublist.append (List.Sublist.refl _)
  refine ⟨?_, ?_, fun t ht hc => ?_⟩
  · rw [crowd_map _ (fun _ _ => rfl)]; exact hnodup
  · rw [crowd_map _ (fun _ _ => rfl)]
    refine List.Sublist.trans ?_ hsub
    unfold boundTags
    split
    · exact List.drop_sublist _ _
    · exact List.Sublist.refl _
  · obtain ⟨u, a, b, hl, hs, -, hu⟩ := crowd_mem ht
    obtain ⟨huc, hb⟩ := hu hc
    have hkey : t.key = u.key := by simp only [Ticket.key, hs]
    have hmem : u.key ∈ tags ++ [(m.id, m.tag)] := by
      have hul : u ∈ tickets ++ [({ sub := m } : Ticket)] := by rw [hl]; simp
      rcases List.mem_append.1 hul with hu | hu
      · exact List.mem_append_left _ (h.kept u hu huc)
      · obtain rfl := List.mem_singleton.1 hu
        exact List.mem_append_right _ (List.mem_singleton.2 rfl)
    rw [hkey]
    unfold boundTags
    split
    · rename_i hlen
      rw [← List.take_append_drop 2048 (tags ++ [(m.id, m.tag)]), List.mem_append] at hmem
      rcases hmem with hmem | hmem
      · -- Dropping it would leave more than 2048 behind it.
        obtain ⟨c, d, hcd⟩ := List.append_of_mem hmem
        have hsplit : tags ++ [(m.id, m.tag)] =
            c ++ u.key :: (d ++ (tags ++ [(m.id, m.tag)]).drop 2048) := by
          conv_lhs => rw [← List.take_append_drop 2048 (tags ++ [(m.id, m.tag)]), hcd]
          simp
        rw [hsplit, hl, List.map_append, List.map_cons] at hsub
        have hnot : u.key ∉ a.map Ticket.key := by
          intro hin
          obtain ⟨v, hv, hvk⟩ := List.mem_map.1 hin
          rw [hl, List.map_append, List.map_cons, List.nodup_append] at hnodup
          refine hnodup.2.2 v.sub.id (List.mem_map_of_mem hv) u.sub.id List.mem_cons_self ?_
          exact congrArg Prod.fst hvk
        have hle := (sublist_after hsub hnot).length_le
        rw [List.length_append, List.length_drop, List.length_map] at hle
        omega
      · exact hmem
    · exact hmem

/-- The reply to a submit finds its tag, if the submit was never crowded. -/
theorem Pending.find {tags : List (Nat × Int)} {tickets : List Ticket} (h : Pending tags tickets)
    {t : Ticket} (ht : t ∈ tickets) (hc : t.crowded = false) :
    tags.find? (·.1 == t.sub.id) = some t.key :=
  find?_key (f := Prod.fst) h.tags_nodup (h.kept t ht hc)

theorem Pending.answer {tags : List (Nat × Int)} {tickets : List Ticket} (h : Pending tags tickets)
    {k : Nat} {t : Ticket} (hk : tickets[k]? = some t) :
    Pending (tags.eraseP (·.1 == t.sub.id)) (tickets.eraseIdx k) := by
  rw [eraseP_eq_filter h.tags_nodup, eraseIdx_eq_filter (f := (·.sub.id)) h.nodup hk]
  refine ⟨?_, ?_, fun u hu hc => ?_⟩
  · exact (List.filter_sublist.map _).nodup h.nodup
  · have := h.sublist.filter (·.1 != t.sub.id)
    rwa [List.filter_map] at this
  · rw [List.mem_filter] at hu
    exact List.mem_filter.2 ⟨h.kept u hu.1 hc, hu.2⟩

/-- Moving tickets about. -/
theorem Pending.move {tags : List (Nat × Int)} {tickets : List Ticket} (h : Pending tags tickets)
    {f : Ticket → Ticket} (hf : ∀ t, (f t).sub = t.sub ∧ (f t).crowded = t.crowded) :
    Pending tags (tickets.map f) := by
  have hkey : (tickets.map f).map Ticket.key = tickets.map Ticket.key := by
    rw [List.map_map]
    exact List.map_congr_left fun t _ => by simp [Ticket.key, hf]
  refine ⟨?_, by rw [hkey]; exact h.sublist, fun t ht hc => ?_⟩
  · rw [List.map_map]
    have : (fun t => (f t).sub.id) = fun t : Ticket => t.sub.id := by funext t; rw [(hf t).1]
    simpa only [Function.comp_def, this] using h.nodup
  · obtain ⟨u, hu, rfl⟩ := List.mem_map.1 ht
    have : (f u).key = u.key := by simp [Ticket.key, hf]
    rw [this]
    exact h.kept u hu ((hf u).2 ▸ hc)

/-! ## Ids in use -/

@[simp] theorem submits_nil : submits [] = [] := rfl

@[simp] theorem submits_append (l l' : List Request) :
    submits (l ++ l') = submits l ++ submits l' := List.filterMap_append

@[simp] theorem submits_submit (m : Submit) : submits [.submit m] = [m] := rfl

theorem submits_cons (r : Request) (l : List Request) :
    submits (r :: l) = submits [r] ++ submits l := submits_append [r] l

@[simp] theorem submits_map_submit (l : List Submit) : submits (l.map .submit) = l := by
  induction l with
  | nil => rfl
  | cons m l ih => rw [List.map_cons, submits_cons, submits_submit, ih]; rfl

theorem mem_ids {l : List Request} {x : Nat} :
    x ∈ l.filterMap Request.id? ↔ x ∈ controls l ∨ x ∈ (submits l).map (·.id) := by
  induction l with
  | nil => simp
  | cons r l ih =>
    cases r with
    | subscribe ua =>
      change x ∈ 1 :: l.filterMap Request.id? ↔ x ∈ 1 :: controls l ∨ x ∈ (submits l).map (·.id)
      rw [List.mem_cons, List.mem_cons, ih, or_assoc]
    | authorize user pass =>
      change x ∈ 2 :: l.filterMap Request.id? ↔ x ∈ 2 :: controls l ∨ x ∈ (submits l).map (·.id)
      rw [List.mem_cons, List.mem_cons, ih, or_assoc]
    | submit m =>
      change x ∈ m.id :: l.filterMap Request.id? ↔
        x ∈ controls l ∨ x ∈ m.id :: (submits l).map (·.id)
      rw [List.mem_cons, List.mem_cons, ih, or_left_comm]
    | pong id => exact ih

/-- The ids on a session, from its handshake requests and its submits. -/
theorem ids_nodup {l : List Request} (hc : (controls l).Nodup)
    (hs : ((submits l).map (·.id)).Nodup) (h3 : ∀ m ∈ submits l, 3 ≤ m.id) :
    (l.filterMap Request.id?).Nodup := by
  induction l with
  | nil => exact .nil
  | cons r l ih =>
    rw [controls_cons, List.nodup_append] at hc
    rw [submits_cons, List.map_append, List.nodup_append] at hs
    rw [submits_cons, List.forall_mem_append] at h3
    have ih := ih hc.2.1 hs.2.1 h3.2
    have hlow : ∀ {x : Nat}, x < 3 → x ∉ controls l → x ∉ l.filterMap Request.id? := by
      intro x hx hxc hmem
      rcases mem_ids.1 hmem with h | h
      · exact hxc h
      · obtain ⟨m, hm, rfl⟩ := List.mem_map.1 h
        have := h3.2 m hm
        omega
    cases r with
    | subscribe ua =>
      exact List.nodup_cons.2 ⟨hlow (by decide) fun h => hc.2.2 1 (by simp) 1 h rfl, ih⟩
    | authorize user pass =>
      exact List.nodup_cons.2 ⟨hlow (by decide) fun h => hc.2.2 2 (by simp) 2 h rfl, ih⟩
    | submit m =>
      refine List.nodup_cons.2 ⟨fun hmem => ?_, ih⟩
      have hm3 := h3.1 m (by simp)
      rcases mem_ids.1 hmem with h | h
      · obtain ⟨r, -, hr⟩ := List.mem_filterMap.1 h
        cases r <;> simp [Request.control?] at hr <;> omega
      · exact hs.2.2 m.id (by simp) m.id h rfl
    | pong id => exact ih

@[simp] theorem Ticket.written_sub (m : Submit) (t : Ticket) : (t.written m).sub = t.sub := by
  unfold Ticket.written
  split <;> rfl

/-- Ids, tags and tickets while the numbering is kept.  `hand` is a line on its way into
`send_line`. -/
structure IdInv (hand : List Request) (s : Sys) : Prop where
  nodup : ((s.live hand).map (·.id)).Nodup
  bound : ∀ m ∈ s.live hand, 3 ≤ m.id ∧ m.id < s.client.nextId
  past : ∀ l ∈ s.hist.pastAsked, (l.filterMap Request.id?).Nodup
  pending : Pending s.client.pendingTags s.hist.tickets
  numbered : ∀ t ∈ s.hist.tickets, 3 ≤ t.sub.id ∧ t.sub.id < s.client.nextId
  waiting : ∀ t ∈ s.hist.tickets, t.place = .waiting → t.sub ∈ submits (s.unsent hand)
  session : ∀ t ∈ s.hist.tickets, t.place = .session → t.sub ∈ submits s.hist.asked
  answers : ∀ a ∈ s.hist.answers, a.crowded = false → a.passed = a.given

/-- Steps that only move unsent lines about. -/
theorem IdInv.congr {hand hand' : List Request} {s t : Sys} (h : IdInv hand s)
    (hu : (submits (s.unsent hand)).Perm (submits (t.unsent hand')))
    (hasked : t.hist.asked = s.hist.asked) (hnext : t.client.nextId = s.client.nextId)
    (htags : t.client.pendingTags = s.client.pendingTags)
    (htick : t.hist.tickets = s.hist.tickets) (hpast : t.hist.pastAsked = s.hist.pastAsked)
    (hans : t.hist.answers = s.hist.answers) : IdInv hand' t := by
  have hlive : (s.live hand).Perm (t.live hand') := by
    simp only [Sys.live, submits_append, hasked]
    exact hu.append_right _
  refine ⟨(hlive.map _).nodup h.nodup, fun m hm => ?_, ?_, ?_, ?_, ?_, ?_, ?_⟩
  · rw [hnext]; exact h.bound m (hlive.symm.subset hm)
  · rw [hpast]; exact h.past
  · rw [htags, htick]; exact h.pending
  · rw [htick, hnext]; exact h.numbered
  · rw [htick]; exact fun u hu' hw => hu.subset (h.waiting u hu' hw)
  · rw [htick, hasked]; exact h.session
  · rw [hans]; exact h.answers

/-- **`send_line` keeps the ids**, whether it queues the line or writes it. -/
theorem IdInv.sendLine {s t : Sys} {r : Request} {outs : List Int} (h : IdInv [r] s)
    (ht : s.sendLine r outs = some t) : IdInv [] t := by
  rcases sendLine_cases ht with ⟨-, w, tn, rfl⟩ | ⟨-, rfl⟩
  · have hun : submits (s.unsent [r]) = submits (s.unsent []) ++ submits [r] := by
      simp only [Sys.unsent, submits_append, List.append_nil]
    have hlive : (s.live [r]).Perm (submits (s.unsent [] ++ (s.hist.asked ++ [r]))) := by
      simp only [Sys.live, submits_append, hun, List.append_assoc]
      exact List.Perm.append_left _ List.perm_append_comm
    refine ⟨(hlive.map _).nodup h.nodup, fun m hm => h.bound m (hlive.symm.subset hm), h.past,
      ?_, ?_, ?_, ?_, h.answers⟩
    · dsimp only
      split
      · exact h.pending.move fun u => by unfold Ticket.written; split <;> exact ⟨rfl, rfl⟩
      · exact h.pending
    · dsimp only
      split
      · intro u hu
        obtain ⟨v, hv, rfl⟩ := List.mem_map.1 hu
        rw [Ticket.written_sub]; exact h.numbered v hv
      · exact h.numbered
    · intro u hu hw
      cases hr : r.submit? with
      | none =>
        simp only [hr] at hu
        have hmem := h.waiting u hu hw
        rw [hun, show submits [r] = [] by simp [submits, hr], List.append_nil] at hmem
        exact hmem
      | some m =>
        simp only [hr] at hu
        obtain ⟨v, hv, rfl⟩ := List.mem_map.1 hu
        unfold Ticket.written at hw ⊢
        split at hw
        · cases hw
        · rename_i hne
          rw [if_neg hne]
          have := h.waiting v hv hw
          rw [hun, List.mem_append] at this
          rcases this with hm | hm
          · exact hm
          · have hvm : v.sub = m := by simpa [submits, hr] using hm
            exact absurd ⟨hvm, hw⟩ hne
    · intro u hu hs
      cases hr : r.submit? with
      | none =>
        simp only [hr] at hu
        simp only [submits_append]
        exact List.mem_append_left _ (h.session u hu hs)
      | some m =>
        simp only [hr] at hu
        obtain ⟨v, hv, rfl⟩ := List.mem_map.1 hu
        simp only [submits_append, List.mem_append]
        unfold Ticket.written at hs ⊢
        split at hs
        · rename_i hc
          rw [if_pos hc]
          exact .inr (by simp [submits, hr, hc.1])
        · rename_i hne
          rw [if_neg hne]
          exact .inl (h.session v hv hs)
  · refine h.congr ?_ rfl rfl rfl rfl rfl rfl
    simp only [Sys.unsent, submits_append, List.append_nil, List.append_assoc]
    refine List.Perm.append_left _ ?_
    rw [← List.append_assoc]
    exact List.perm_append_comm

theorem IdInv.pass {s t : Sys} {r : Request} {outs : List Int} (h : IdInv [r] s)
    (ht : s.pass r outs = some t) : IdInv [] t := by
  refine IdInv.sendLine (s := { s with hist := { s.hist with passed := s.hist.passed ++ [r] } })
    ?_ ht
  exact h.congr (List.Perm.refl _) rfl rfl rfl rfl rfl rfl

/-- A session ends. -/
theorem IdInv.closeSocket {s : Sys} (h : IdInv [] s) (hs : Handshake s) :
    IdInv [] s.closeSocket := by
  have hun : s.closeSocket.unsent [] = s.unsent [] := rfl
  have hlive : s.closeSocket.live [] = submits (s.unsent []) := by
    simp only [Sys.live, hun, submits_append]
    exact List.append_nil _
  have hsub : s.live [] = submits (s.unsent []) ++ submits s.hist.asked := submits_append _ _
  have hend : ∀ t : Ticket, t.endSession.sub = t.sub ∧ t.endSession.crowded = t.crowded := by
    intro t
    unfold Ticket.endSession
    split <;> exact ⟨rfl, rfl⟩
  have hnd := h.nodup
  rw [hsub, List.map_append, List.nodup_append] at hnd
  refine ⟨?_, fun m hm => ?_, ?_, h.pending.move hend, ?_, ?_, ?_, h.answers⟩
  · rw [hlive]; exact hnd.1
  · rw [hlive] at hm
    exact h.bound m (hsub ▸ List.mem_append_left _ hm)
  · intro l hl
    rcases List.mem_append.1 hl with hl | hl
    · exact h.past l hl
    · obtain rfl := List.mem_singleton.1 hl
      exact ids_nodup hs.nodup hnd.2.1 fun m hm => (h.bound m (hsub ▸ List.mem_append_right _ hm)).1
  · intro t ht
    obtain ⟨u, hu, rfl⟩ := List.mem_map.1 ht
    rw [(hend u).1]; exact h.numbered u hu
  · intro t ht hw
    obtain ⟨u, hu, rfl⟩ := List.mem_map.1 ht
    rw [(hend u).1, hun]
    refine h.waiting u hu ?_
    unfold Ticket.endSession at hw
    split at hw
    · cases hw
    · exact hw
  · intro t ht hsess
    obtain ⟨u, hu, rfl⟩ := List.mem_map.1 ht
    unfold Ticket.endSession at hsess
    split at hsess
    · cases hsess
    · rename_i hne
      exact absurd hsess hne

/-- The counter starts again at 3 with no id in use. -/
theorem IdInv.reset {s : Sys} (h : IdInv [] s) (hph : s.phase = .reset)
    (hlive : s.live [] = []) (htags : s.client.pendingTags = []) :
    IdInv [] { s with
      client := { s.client with nextId := 3 }
      phase := .swap
      hist := { s.hist with tickets := s.hist.tickets.filter (·.place != .ended) } } := by
  have hsub : s.live [] = submits (s.unsent []) ++ submits s.hist.asked := submits_append _ _
  rw [hsub, List.append_eq_nil_iff] at hlive
  have hnone : s.hist.tickets.filter (·.place != .ended) = [] := by
    refine List.filter_eq_nil_iff.2 fun t ht hne => ?_
    cases hp : t.place with
    | waiting => have := h.waiting t ht hp; rw [hlive.1] at this; cases this
    | session => have := h.session t ht hp; rw [hlive.2] at this; cases this
    | ended => simp [hp] at hne
  rw [hnone]
  have hl : (s.unsent []).filterMap Request.submit? = [] := hlive.1
  have hlive' : Sys.live { s with
      client := { s.client with nextId := 3 }
      phase := .swap
      hist := { s.hist with tickets := [] } } [] = [] := by
    simp only [Sys.live, submits_append, hlive.2, List.append_nil]
    simp only [Sys.unsent, hph] at hl ⊢
    exact hl
  refine ⟨?_, fun m hm => ?_, h.past, ⟨.nil, ?_, nofun⟩, nofun, nofun, nofun, h.answers⟩
  · rw [hlive']; exact .nil
  · rw [hlive'] at hm; cases hm
  · dsimp only
    rw [htags]
    exact List.Sublist.refl _

theorem IdInv.netStep {s t : Sys} {outs : List Int} (h : IdInv [] s)
    (hk : s.phase = .reset → s.live [] = [] ∧ s.client.pendingTags = [])
    (ht : s.netStep outs = some t) : IdInv [] t := by
  unfold Sys.netStep at ht
  split at ht
  · rename_i hph
    obtain ⟨u, hu, rfl⟩ := Option.map_eq_some_iff.1 ht
    have hp := sendLine_phase hu
    have hu' : IdInv [] u := IdInv.pass (h.congr ?_ rfl rfl rfl rfl rfl rfl) hu
    · refine hu'.congr ?_ rfl rfl rfl rfl rfl rfl
      simp only [Sys.unsent, hp, hph]; exact List.Perm.refl _
    · simp only [Sys.unsent, submits_append]; exact List.Perm.refl _
  · rename_i hph
    obtain ⟨u, hu, rfl⟩ := Option.map_eq_some_iff.1 ht
    have hp := sendLine_phase hu
    have hu' : IdInv [] u := IdInv.pass (h.congr ?_ rfl rfl rfl rfl rfl rfl) hu
    · refine hu'.congr ?_ rfl rfl rfl rfl rfl rfl
      simp only [Sys.unsent, hp, hph]; exact List.Perm.refl _
    · simp only [Sys.unsent, submits_append]; exact List.Perm.refl _
  · rename_i hph
    split at ht
    · cases ht
      obtain ⟨hlive, htags⟩ := hk hph
      exact h.reset hph hlive htags
    · cases ht
  · rename_i hph
    split at ht
    · cases ht
      refine h.congr ?_ rfl rfl rfl rfl rfl rfl
      simp [Sys.unsent, hph, Phase.flushing]
    · cases ht
  · rename_i hph
    split at ht
    · cases ht
      refine h.congr ?_ rfl rfl rfl rfl rfl rfl
      simp [Sys.unsent, hph, Phase.flushing]
    · cases ht
  · rename_i r q hph
    obtain ⟨u, hu, rfl⟩ := Option.map_eq_some_iff.1 ht
    refine IdInv.sendLine (s := { s with phase := .flush q }) (r := r)
      (h.congr ?_ rfl rfl rfl rfl rfl rfl)
      (sendLine_with_phase hu (.flush q))
    -- The line moves from the flush into the hand.
    simp only [Sys.unsent, hph, Phase.flushing, submits_append, submits_cons r q,
      List.append_assoc, List.append_nil]
    refine List.Perm.append_left _ ?_
    rw [← List.append_assoc (submits q)]
    exact List.perm_append_comm
  · cases ht

theorem IdInv.take {s : Sys} (h : IdInv [] s) (h3 : 3 ≤ s.client.nextId)
    (hmax : s.client.nextId + 1 < 2 ^ 64) (jobId : Bytes) (nonce : Nat)
    (proofB64 achievedHex : Bytes) (vdfTick : Nat) (tag : Int) :
    IdInv [] (s.take jobId nonce proofB64 achievedHex vdfTick tag) := by
  set m := (s.client.takeId jobId nonce proofB64 achievedHex vdfTick tag).2 with hm
  have hid : m.id = s.client.nextId := rfl
  have hnext : (s.take jobId nonce proofB64 achievedHex vdfTick tag).client.nextId =
      s.client.nextId + 1 := Nat.mod_eq_of_lt hmax
  have hun : submits ((s.take jobId nonce proofB64 achievedHex vdfTick tag).unsent []) =
      submits (s.unsent []) ++ [m] := by
    simp only [Sys.take, Sys.unsent, submits_append, submits_map_submit, List.append_nil,
      List.append_assoc]
    rfl
  have hlive : ((s.take jobId nonce proofB64 achievedHex vdfTick tag).live []).Perm
      (m :: s.live []) := by
    simp only [Sys.live, submits_append, hun]
    rw [List.append_assoc, List.singleton_append]
    exact List.perm_middle
  refine ⟨?_, fun k hk => ?_, h.past, ?_, fun t ht => ?_, fun t ht hw => ?_, fun t ht hs => ?_,
    h.answers⟩
  · rw [(hlive.map _).nodup_iff, List.map_cons, List.nodup_cons]
    refine ⟨fun hin => ?_, h.nodup⟩
    obtain ⟨k, hk, hkm⟩ := List.mem_map.1 hin
    have := (h.bound k hk).2
    omega
  · rw [hnext]
    rcases List.mem_cons.1 (hlive.subset hk) with rfl | hk
    · omega
    · have := h.bound k hk
      omega
  · refine h.pending.take (m := m) fun hin => ?_
    obtain ⟨t, ht, htm⟩ := List.mem_map.1 hin
    have := (h.numbered t ht).2
    omega
  · rw [hnext]
    obtain ⟨u, a, b, hl, hsub, -, -⟩ := crowd_mem ht
    rw [hsub]
    have hu : u ∈ s.hist.tickets ++ [{ sub := m }] := by rw [hl]; simp
    rcases List.mem_append.1 hu with hu | hu
    · have := h.numbered u hu
      omega
    · obtain rfl := List.mem_singleton.1 hu
      dsimp only
      omega
  · obtain ⟨u, a, b, hl, hsub, hp, -⟩ := crowd_mem ht
    rw [hsub, hun]
    have hu : u ∈ s.hist.tickets ++ [{ sub := m }] := by rw [hl]; simp
    rcases List.mem_append.1 hu with hu | hu
    · exact List.mem_append_left _ (h.waiting u hu (hp ▸ hw))
    · obtain rfl := List.mem_singleton.1 hu
      exact List.mem_append_right _ (List.mem_singleton.2 rfl)
  · obtain ⟨u, a, b, hl, hsub, hp, -⟩ := crowd_mem ht
    rw [hsub]
    have hu : u ∈ s.hist.tickets ++ [{ sub := m }] := by rw [hl]; simp
    rcases List.mem_append.1 hu with hu | hu
    · exact h.session u hu (hp ▸ hs)
    · obtain rfl := List.mem_singleton.1 hu
      rw [hp] at hs
      cases hs

/-- The reply to a submit. -/
theorem IdInv.answer {s : Sys} (h : IdInv [] s) {k : Nat} {t : Ticket}
    (hk : s.hist.tickets[k]? = some t) (err : Option PoolError) : IdInv [] (s.answer k t err) := by
  have ht : t ∈ s.hist.tickets := List.mem_of_getElem? hk
  have h3 := (h.numbered t ht).1
  have hreply : s.client.handleReply t.sub.id err = ((s.client.shareResult t.sub.id err).1,
      some (s.client.shareResult t.sub.id err).2) := by
    unfold Client.handleReply
    rw [if_neg (by omega)]
  have hsub : ∀ u ∈ s.hist.tickets.eraseIdx k, u ∈ s.hist.tickets :=
    fun u hu => (List.eraseIdx_sublist _ _).subset hu
  unfold Sys.answer
  rw [hreply]
  refine ⟨h.nodup, h.bound, h.past, h.pending.answer hk, fun u hu => h.numbered u (hsub u hu),
    fun u hu => h.waiting u (hsub u hu), fun u hu => h.session u (hsub u hu), ?_⟩
  intro a ha
  rcases List.mem_append.1 ha with ha | ha
  · exact h.answers a ha
  · obtain rfl := List.mem_singleton.1 ha
    intro hc
    have hfind := h.pending.find ht hc
    simp only [Client.shareResult, hfind, Option.map_some, Option.getD_some, Ticket.key]

/-- A reply to the handshake, or to nothing. -/
theorem IdInv.reply {s : Sys} (h : IdInv [] s) {id : Nat} (err : Option PoolError)
    (hid : id = 1 ∨ id = 2 ∨ ∀ e ∈ s.client.pendingTags, e.1 ≠ id) :
    IdInv [] { s with client := (s.client.handleReply id err).1 } := by
  have htags : (s.client.handleReply id err).1.pendingTags = s.client.pendingTags := by
    unfold Client.handleReply
    split
    · rfl
    · rename_i hne
      push Not at hne
      refine List.eraseP_of_forall_not fun e he => ?_
      rcases hid with h1 | h2 | hid
      · exact absurd h1 hne.1
      · exact absurd h2 hne.2
      · simpa using hid e he
  refine h.congr ?_ rfl (by simp) htags rfl rfl rfl
  simp only [Sys.unsent, handleReply_queue]
  exact List.Perm.refl _

theorem IdInv.step {s t : Sys} {e : Event} (h : IdInv [] s) (hs : Handshake s)
    (hk : NumberingKept s e) (ht : s.step e = some t) : IdInv [] t := by
  cases e with
  | dial =>
    simp only [Sys.step] at ht
    split at ht
    · rename_i hph
      cases ht
      exact h.congr (by simp only [Sys.unsent, hph.1]; exact List.Perm.refl _)
        rfl rfl rfl rfl rfl rfl
    · cases ht
  | refused | connect =>
    simp only [Sys.step] at ht
    split at ht
    · rename_i hph
      cases ht
      exact h.congr (by simp only [Sys.unsent, hph]; exact List.Perm.refl _)
        rfl rfl rfl rfl rfl rfl
    · cases ht
  | net outs => exact h.netStep hk ht
  | answer k err =>
    simp only [Sys.step] at ht
    split at ht
    · rename_i u hu
      split at ht
      · cases ht
        exact h.answer hu err
      · cases ht
    · cases ht
  | reply id err =>
    simp only [Sys.step] at ht
    split at ht
    · cases ht
      exact h.reply err hk
    · cases ht
  | ping id outs =>
    simp only [Sys.step] at ht
    split at ht
    · refine IdInv.pass (h.congr ?_ rfl rfl rfl rfl rfl rfl) ht
      simp only [Sys.unsent, submits_append]; exact List.Perm.refl _
    · cases ht
  | leave =>
    simp only [Sys.step] at ht
    split at ht
    · rename_i hph
      cases ht
      refine (h.closeSocket hs).congr ?_ rfl rfl rfl rfl rfl rfl
      simp only [Sys.unsent, Sys.closeSocket, hph]
      exact List.Perm.refl _
    · cases ht
  | halt => cases ht; exact h.congr (List.Perm.refl _) rfl rfl rfl rfl rfl rfl
  | close =>
    simp only [Sys.step] at ht
    split at ht
    · cases ht
    · cases ht; exact h.closeSocket hs
  | take jobId nonce proofB64 achievedHex vdfTick tag =>
    cases ht
    exact h.take hk.1 hk.2 jobId nonce proofB64 achievedHex vdfTick tag
  | send k outs =>
    simp only [Sys.step] at ht
    split at ht
    · rename_i m hm
      refine IdInv.pass (s := { s with inflight := s.inflight.eraseIdx k })
        (h.congr ?_ rfl rfl rfl rfl rfl rfl) ht
      simp only [Sys.unsent, submits_append, submits_map_submit, submits_submit,
        List.append_nil, List.append_assoc]
      refine List.Perm.append_left _ (List.Perm.append_left _ ?_)
      exact (perm_cons_eraseIdx hm).trans (List.perm_append_singleton m _).symm
    · cases ht

/-! ## Results -/

variable (user pass ua : Bytes)

theorem handshake_init : Handshake (machine user pass ua).init :=
  ⟨.nil, nofun, nofun, fun _ => rfl, fun _ => rfl, fun _ h => absurd rfl h,
    fun h => absurd rfl h⟩

theorem idInv_init : IdInv [] (machine user pass ua).init :=
  ⟨.nil, nofun, nofun, ⟨.nil, List.Sublist.refl _, nofun⟩, nofun, nofun, nofun, nofun⟩

/-- **In every run that keeps the numbering, the ids on each session are distinct and every
reply is passed on with the tag of its submit.** -/
theorem submits_attributed {es : List Event} {s : Sys}
    (hok : (machine user pass ua).Guarded NumberingKept (machine user pass ua).init es)
    (h : (machine user pass ua).exec (machine user pass ua).init es = some s) : Attributed s := by
  obtain ⟨hs, hi⟩ := (machine user pass ua).guarded_invariant
    (I := fun s => Handshake s ∧ IdInv [] s)
    (fun s e t hI hk ht => ⟨hI.1.step ht, hI.2.step hI.1 hk ht⟩)
    ⟨handshake_init user pass ua, idInv_init user pass ua⟩ hok h
  refine ⟨?_, hi.answers⟩
  intro l hl
  rcases List.mem_cons.1 hl with rfl | hl
  · have hsub : s.live [] = submits (s.unsent []) ++ submits s.hist.asked := submits_append _ _
    have hnd := hi.nodup
    rw [hsub, List.map_append, List.nodup_append] at hnd
    exact ids_nodup hs.nodup hnd.2.1 fun m hm =>
      (hi.bound m (hsub ▸ List.mem_append_right _ hm)).1
  · exact hi.past l hl


/-- Connect and shake hands, every line written at once; `q` is flushed. -/
def session (q : List Request) : List Event :=
  [.dial, .connect, .net [(Request.subscribe []).line.length],
    .net [(Request.authorize [] []).line.length], .net [], .net []] ++
  q.map (fun r => .net [(r.line.length : Int)]) ++ [.net []]

/-- The submit with id `id` and tag `tag`. -/
def plainSubmit (id : Nat) (tag : Int) : Submit :=
  { id, user := [], jobId := [], nonce := 7, proofB64 := text "AA==", achievedHex := []
    vdfTick := 0, tag }

/-- `submit` while connected. -/
def submitNow (id : Nat) (tag : Int) : List Event :=
  [.take [] 7 (text "AA==") [] 0 tag,
    .send 0 [((Request.submit (plainSubmit id tag)).line.length : Int)]]

/-- One session, two submits, the replies in the other order. -/
theorem submits_attributed_swapped :
    ∃ s, (machine [] [] []).exec (machine [] [] []).init
      (session [] ++ submitNow 3 7 ++ submitNow 4 9 ++ [.answer 1 none, .answer 0 none]) = some s ∧
      Attributed s := by
  have h : ((machine [] [] []).exec (machine [] [] []).init
      (session [] ++ submitNow 3 7 ++ submitNow 4 9 ++
        [.answer 1 none, .answer 0 none])).isSome := by decide +kernel
  obtain ⟨s, hs⟩ := Option.isSome_iff_exists.1 h
  exact ⟨s, hs, submits_attributed [] [] [] (by decide +kernel) hs⟩

/-- **The handshake numbers from 3 again.**  A submit from before the first connection shares id
1 with `subscribe`; a submit left unanswered by one session lends its tag to the next one's. -/
theorem submit_misattributed :
    (∃ s, (machine [] [] []).exec (machine [] [] []).init
      ([.take [] 7 (text "AA==") [] 0 5, .send 0 []] ++ session [.submit (plainSubmit 1 5)]) =
        some s ∧ ¬ (s.hist.asked.filterMap Request.id?).Nodup ∧ ¬ Attributed s) ∧
    (∃ s, (machine [] [] []).exec (machine [] [] []).init
      (session [] ++ submitNow 3 7 ++ [.leave] ++ session [] ++ submitNow 3 9 ++
        [.answer 0 none]) = some s ∧ s.hist.answers = [⟨9, 7, false⟩] ∧ ¬ Attributed s) := by
  constructor
  · have h : ((machine [] [] []).exec (machine [] [] []).init
        ([.take [] 7 (text "AA==") [] 0 5, .send 0 []] ++ session [.submit (plainSubmit 1 5)])).map
        (·.hist.asked.filterMap Request.id?) = some [1, 2, 1] := by decide +kernel
    obtain ⟨s, hs, hids⟩ := Option.map_eq_some_iff.1 h
    have hnd : ¬ (s.hist.asked.filterMap Request.id?).Nodup := by rw [hids]; decide
    exact ⟨s, hs, hnd, fun ha => hnd (ha.ids _ List.mem_cons_self)⟩
  · have h : ((machine [] [] []).exec (machine [] [] []).init
        (session [] ++ submitNow 3 7 ++ [.leave] ++ session [] ++ submitNow 3 9 ++
          [.answer 0 none])).map (·.hist.answers) = some [⟨9, 7, false⟩] := by decide +kernel
    obtain ⟨s, hs, hans⟩ := Option.map_eq_some_iff.1 h
    refine ⟨s, hs, hans, fun ha => ?_⟩
    have := ha.tags ⟨9, 7, false⟩ (by rw [hans]; exact List.mem_cons_self) rfl
    cases this

end Stratum
