import Mathlib.Data.List.Infix
import SuprMeow.Library.Runs
import SuprMeow.Library.Segments
import SuprMeow.Stratum.Messages

/-!
# Lines from the socket

The receive loop of `run`.  `recv` cuts the stream of a session where it likes; each chunk is
appended to `rxbuf_`, the whole lines are taken out and passed to `handle_line`, and what comes
after the last newline is put back.  Only the network thread uses `rxbuf_`; the other threads
change the client in between.

* `lines_framed` — the lines a session passes to `handle_line` and what it leaves in `rxbuf_`
  depend on the bytes received alone;
* `cut_anywhere` — two ways of cutting one stream.
-/

set_option autoImplicit false

namespace Stratum

open Runs Segments

/-! ## The loop -/

/-- `'\n'`. -/
def newline : UInt8 := 10

/-- The bound on `rxbuf_`. -/
def maxBuffered : Nat := 4 * 1024 * 1024

/-- `std::string::find`. -/
def find (s : Bytes) (c : UInt8) (pos : Nat) : Option Nat :=
  ((s.drop pos).idxOf? c).map (pos + ·)

/-- `std::string::substr`. -/
def substr (s : Bytes) (pos n : Nat) : Bytes := (s.drop pos).take n

/-- The network thread in its loop.  `client` is what `handle_line` works on, `open_` says that
the session is being served. -/
structure Receiver (σ : Type) where
  client : σ
  rxbuf : Bytes := []
  open_ : Bool := false
  /-- Cleared when an exception leaves `handle_line`; no one catches it. -/
  alive : Bool := true
  /-- The lines passed to `handle_line` on this session. -/
  handled : List Bytes := []

theorem find_lt {s : Bytes} {c : UInt8} {pos nl : Nat} (h : find s c pos = some nl) :
    pos ≤ nl ∧ nl < s.length := by
  obtain ⟨i, hi, rfl⟩ := Option.map_eq_some_iff.1 h
  have := (List.findIdx?_eq_some_iff_findIdx_eq.1 hi).1
  rw [List.length_drop] at this
  omega

namespace Receiver

variable {σ : Type} (handleLine : σ → Bytes → Option σ)

/-- `handle_line`, called. -/
def passLine (r : Receiver σ) (line : Bytes) : Receiver σ :=
  match handleLine r.client line with
  | some c => { r with client := c, handled := r.handled ++ [line] }
  | none => { r with alive := false, handled := r.handled ++ [line] }

/-- The loop over the lines of `work`, and where it stopped. -/
def handleLines (work : Bytes) (start : Nat) (r : Receiver σ) : Receiver σ × Nat :=
  if r.alive then
    match h : find work newline start with
    | some nl =>
      let line := substr work start (nl - start)
      handleLines work (nl + 1) (if line ≠ [] then r.passLine handleLine line else r)
    | none => (r, start)
  else (r, start)
termination_by work.length - start
decreasing_by
  have := find_lt h
  omega

/-- A chunk from `recv`. -/
def recv (r : Receiver σ) (chunk : Bytes) : Receiver σ :=
  let buffered := r.rxbuf ++ chunk
  if maxBuffered < buffered.length then { r with rxbuf := [], open_ := false }
  else
    let o := handleLines handleLine buffered 0 { r with rxbuf := [] }
    if o.1.alive ∧ o.2 < buffered.length then
      { o.1 with rxbuf := buffered.drop o.2 ++ o.1.rxbuf }
    else o.1

/-- `connect_once`, when it succeeds. -/
def connectOnce (r : Receiver σ) : Receiver σ :=
  { r with rxbuf := [], open_ := true, handled := [] }

end Receiver

/-- What happens to the network thread: it connects, `recv` returns a chunk, the session drops for
any other reason, or another thread changes the client. -/
inductive NetEvent (σ : Type) where
  | connect
  | recv (chunk : Bytes)
  | leave
  | other (c : σ)

/-- The receive loop over the sessions. -/
def receiver {σ : Type} (handleLine : σ → Bytes → Option σ) (c : σ) :
    Machine (Receiver σ) (NetEvent σ) where
  init := { client := c }
  step r e :=
    if r.alive then
      match e with
      | .connect => if r.open_ then none else some r.connectOnce
      | .recv chunk => if r.open_ ∧ chunk ≠ [] then some (r.recv handleLine chunk) else none
      | .leave => if r.open_ then some { r with open_ := false } else none
      | .other c => some { r with client := c }
    else none

/-! ## Specification -/

/-- The bytes `recv` returned. -/
def received {σ : Type} (es : List (NetEvent σ)) : Bytes :=
  es.flatMap fun e => match e with
    | .recv chunk => chunk
    | _ => []

/-- The nonempty lines of a stream. -/
def linesOf (stream : Bytes) : List Bytes := (terminated newline stream).filter (· ≠ [])

/-- No more than 4 MiB is buffered. -/
def Fits {σ : Type} (r : Receiver σ) : NetEvent σ → Prop
  | .recv chunk => (r.rxbuf ++ chunk).length ≤ maxBuffered
  | _ => True

instance {σ : Type} (r : Receiver σ) : ∀ e, Decidable (Fits r e)
  | .recv chunk => inferInstanceAs (Decidable ((r.rxbuf ++ chunk).length ≤ maxBuffered))
  | .connect | .leave | .other _ => isTrue trivial

/-! ## One chunk -/

theorem find_none {s : Bytes} {c : UInt8} {pos : Nat} (h : find s c pos = none) :
    c ∉ s.drop pos := by
  intro hmem
  simp only [find, Option.map_eq_none_iff, List.idxOf?_eq_none_iff] at h
  exact h hmem

theorem find_some {s : Bytes} {c : UInt8} {pos nl : Nat} (h : find s c pos = some nl) :
    c ∉ substr s pos (nl - pos) ∧ s.drop pos = substr s pos (nl - pos) ++ c :: s.drop (nl + 1) := by
  obtain ⟨i, hi, rfl⟩ := Option.map_eq_some_iff.1 h
  obtain ⟨hlt, hc, hbefore⟩ := List.findIdx?_eq_some_iff_getElem.1 hi
  rw [Nat.add_sub_cancel_left]
  constructor
  · intro hmem
    obtain ⟨j, hj, hcj⟩ := List.mem_iff_getElem.1 hmem
    simp only [substr, List.length_take] at hj
    apply hbefore j (by omega)
    simpa [substr] using hcj
  · have hcut := List.take_append_drop i (s.drop pos)
    rw [List.drop_eq_getElem_cons hlt, beq_iff_eq.1 hc, List.drop_drop] at hcut
    exact hcut.symm

namespace Receiver

variable {σ : Type} (handleLine : σ → Bytes → Option σ) {r : Receiver σ}

/-- `handle_line` on one line after the other, for as long as the process lives. -/
def passAll (r : Receiver σ) (ls : List Bytes) : Receiver σ :=
  ls.foldl (fun r l => if r.alive then r.passLine handleLine l else r) r

theorem passAll_dead (h : r.alive = false) (ls : List Bytes) : r.passAll handleLine ls = r := by
  induction ls with
  | nil => rfl
  | cons l ls ih => simpa [passAll, h] using ih

theorem passAll_cons (h : r.alive = true) (l : Bytes) (ls : List Bytes) :
    r.passAll handleLine (l :: ls) = (r.passLine handleLine l).passAll handleLine ls := by
  simp [passAll, h]

theorem passLine_cases (r : Receiver σ) (l : Bytes) :
    (∃ c, handleLine r.client l = some c ∧
      r.passLine handleLine l = { r with client := c, handled := r.handled ++ [l] }) ∨
    r.passLine handleLine l = { r with alive := false, handled := r.handled ++ [l] } := by
  unfold passLine
  split
  · rename_i c hc
    exact .inl ⟨c, hc, rfl⟩
  · exact .inr rfl

/-- What passing lines on does: it touches neither the buffer nor the session. -/
structure Passed (r t : Receiver σ) (ls : List Bytes) : Prop where
  rxbuf : t.rxbuf = r.rxbuf
  open_ : t.open_ = r.open_
  calls : ∃ done, done <+: ls ∧ t.handled = r.handled ++ done ∧ (t.alive = true → done = ls)

theorem passAll_passed (h : r.alive = true) (ls : List Bytes) :
    Passed r (r.passAll handleLine ls) ls := by
  induction ls generalizing r with
  | nil => exact ⟨rfl, rfl, [], List.prefix_rfl, by simp [passAll], fun _ => rfl⟩
  | cons l ls ih =>
    rw [passAll_cons handleLine h]
    obtain ⟨c, -, hl⟩ | hl := passLine_cases handleLine r l
    · rw [hl]
      have hrest : r.alive = true := h
      obtain ⟨hbuf, hopen, done, hpre, hdone, hall⟩ :=
        @ih { r with client := c, handled := r.handled ++ [l] } hrest
      refine ⟨hbuf, hopen, l :: done, ?_, ?_, ?_⟩
      · simpa using hpre
      · simpa using hdone
      · intro ha
        rw [hall ha]
    · rw [hl, passAll_dead handleLine rfl]
      exact ⟨rfl, rfl, [l], by simp, rfl, fun ha => by cases ha⟩

theorem handleLines_spec (work : Bytes) (start : Nat) (r : Receiver σ) (h : start ≤ work.length) :
    (handleLines handleLine work start r).1 =
        r.passAll handleLine (linesOf (work.drop start)) ∧
      (handleLines handleLine work start r).2 ≤ work.length ∧
      ((handleLines handleLine work start r).1.alive = true →
        work.drop (handleLines handleLine work start r).2 =
          unfinished newline (work.drop start)) := by
  fun_induction handleLines handleLine work start r with
  | case1 start r ha nl hnl line ih =>
    obtain ⟨hline, hdrop⟩ := find_some hnl
    have hlt := (find_lt hnl).2
    simp only [dite_eq_ite] at ih
    obtain ⟨h1, h2, h3⟩ := ih hlt
    have hpass : r.passAll handleLine (linesOf (work.drop start)) =
        (if line ≠ [] then r.passLine handleLine line else r).passAll handleLine
          (linesOf (work.drop (nl + 1))) := by
      rw [hdrop, linesOf, terminated_of_mem _ hline, List.filter_cons]
      by_cases he : line = []
      · rw [if_neg (by simpa using he), if_neg (by simpa using he)]
        rfl
      · rw [if_pos (by simpa using he), if_pos he, passAll_cons handleLine ha]
        rfl
    refine ⟨h1.trans hpass.symm, h2, ?_⟩
    intro halive
    rw [h3 halive, hdrop, unfinished_of_mem _ hline]
  | case2 start r ha hnl =>
    have hno := find_none hnl
    refine ⟨?_, h, ?_⟩
    · rw [linesOf, terminated_of_not_mem hno]
      rfl
    · intro _
      rw [unfinished_of_not_mem hno]
  | case3 start r ha =>
    rw [passAll_dead handleLine (by simpa using ha)]
    exact ⟨rfl, h, fun halive => absurd halive ha⟩

end Receiver

/-! ## A session -/

theorem linesOf_append (xs ys : Bytes) :
    linesOf (xs ++ ys) = linesOf xs ++ linesOf (unfinished newline xs ++ ys) := by
  simp only [linesOf, terminated_append xs ys, List.filter_append]

section

variable {σ : Type} {handleLine : σ → Bytes → Option σ} {r t : Receiver σ}

variable (handleLine) in
theorem Receiver.recv_spec {chunk : Bytes} (ha : r.alive = true)
    (hfit : (r.rxbuf ++ chunk).length ≤ maxBuffered) :
    (∃ done, done <+: linesOf (r.rxbuf ++ chunk) ∧
      (r.recv handleLine chunk).handled = r.handled ++ done ∧
      ((r.recv handleLine chunk).alive = true → done = linesOf (r.rxbuf ++ chunk))) ∧
    ((r.recv handleLine chunk).alive = true →
      (r.recv handleLine chunk).rxbuf = unfinished newline (r.rxbuf ++ chunk)) := by
  have hempty : ({ r with rxbuf := [] } : Receiver σ).alive = true := ha
  obtain ⟨hpass, hle, hrest⟩ := Receiver.handleLines_spec handleLine
    (r.rxbuf ++ chunk) 0 { r with rxbuf := [] } (Nat.zero_le _)
  have hp := Receiver.passAll_passed handleLine hempty (linesOf (r.rxbuf ++ chunk))
  rw [List.drop_zero] at hpass hrest
  rw [← hpass] at hp
  unfold Receiver.recv
  rw [if_neg (by omega)]
  simp only
  split
  · rename_i h
    refine ⟨hp.calls, fun hal => ?_⟩
    simp only [hp.rxbuf, List.append_nil]
    exact hrest h.1
  · rename_i h
    refine ⟨hp.calls, fun hal => ?_⟩
    -- Nothing is put back when the loop stopped at the end.
    have hend : (r.rxbuf ++ chunk).length ≤
        (handleLines handleLine (r.rxbuf ++ chunk) 0 { r with rxbuf := [] }).2 := by
      by_contra hlt
      exact h ⟨hal, by omega⟩
    rw [hp.rxbuf, ← hrest hal, List.drop_eq_nil_of_le hend]

/-- What holds on a session that has received `stream`. -/
structure Session (stream : Bytes) (r : Receiver σ) : Prop where
  handled : r.handled <+: linesOf stream
  alive : r.alive = true → r.handled = linesOf stream ∧ r.rxbuf = unfinished newline stream

theorem Session.step {stream : Bytes} {e : NetEvent σ} {c : σ} (h : Session stream r)
    (hnew : e ≠ .connect) (hfit : Fits r e)
    (hstep : (receiver handleLine c).step r e = some t) :
    Session (stream ++ received [e]) t := by
  simp only [receiver] at hstep
  split at hstep
  · rename_i ha
    obtain ⟨hdone, hbuf⟩ := h.alive ha
    cases e with
    | connect => exact absurd rfl hnew
    | recv chunk =>
      obtain ⟨-, hstep⟩ := Option.ite_none_right_eq_some.1 hstep
      cases hstep
      obtain ⟨⟨done, hpre, hcalls, hall⟩, hrest⟩ :=
        Receiver.recv_spec handleLine ha hfit
      have hstream : received [(.recv chunk : NetEvent σ)] = chunk := by simp [received]
      rw [hstream]
      rw [hbuf] at hpre hall hrest
      rw [hdone] at hcalls
      refine ⟨?_, fun hal => ⟨?_, ?_⟩⟩
      · rw [hcalls, linesOf_append]
        exact (List.prefix_append_right_inj _).2 hpre
      · rw [hcalls, linesOf_append, hall hal]
      · exact (hrest hal).trans (unfinished_append _ _).symm
    | leave =>
      obtain ⟨-, hstep⟩ := Option.ite_none_right_eq_some.1 hstep
      cases hstep
      simpa [received] using (⟨h.handled, h.alive⟩ : Session stream { r with open_ := false })
    | other c' =>
      cases hstep
      simpa [received] using (⟨h.handled, h.alive⟩ : Session stream { r with client := c' })
  · cases hstep

theorem Session.run {c : σ} {es : List (NetEvent σ)} :
    ∀ {stream : Bytes} {r : Receiver σ}, Session stream r → (∀ e ∈ es, e ≠ .connect) →
      (receiver handleLine c).Guarded Fits r es →
      (receiver handleLine c).exec r es = some t → Session (stream ++ received es) t := by
  induction es with
  | nil =>
    intro stream r h _ _ hrun
    cases hrun
    simpa [received] using h
  | cons e es ih =>
    intro stream r h hnew hfit hrun
    obtain ⟨u, hu, hrest⟩ := (Machine.exec_cons _).1 hrun
    have hstep := h.step (hnew e (by simp)) hfit.1 hu
    have := ih hstep (fun e' he' => hnew e' (by simp [he'])) (hfit.2 u hu) hrest
    simpa [received] using this

/-- A session starts with nothing, whatever the one before it left. -/
theorem session_of_run {c : σ} {es : List (NetEvent σ)} (hnew : ∀ e ∈ es, e ≠ .connect)
    (hfit : (receiver handleLine c).Guarded Fits r (.connect :: es))
    (hrun : (receiver handleLine c).exec r (.connect :: es) = some t) :
    Session (received es) t := by
  obtain ⟨u, hu, hrest⟩ := (Machine.exec_cons _).1 hrun
  have hstart : Session [] u := by
    simp only [receiver] at hu
    split at hu
    · obtain ⟨-, hu⟩ := Option.ite_none_left_eq_some.1 hu
      cases hu
      exact ⟨List.prefix_rfl, fun _ => ⟨rfl, by simp [Receiver.connectOnce]⟩⟩
    · cases hu
  simpa using hstart.run hnew (hfit.2 u hu) hrest

/-! ## Results -/

/-- **Where `recv` cuts the stream changes nothing.** -/
theorem cut_anywhere {c c' : σ} {r' t' : Receiver σ} {es es' : List (NetEvent σ)}
    (hnew : ∀ e ∈ es, e ≠ .connect) (hnew' : ∀ e ∈ es', e ≠ .connect)
    (hfit : (receiver handleLine c).Guarded Fits r (.connect :: es))
    (hfit' : (receiver handleLine c').Guarded Fits r' (.connect :: es'))
    (hrun : (receiver handleLine c).exec r (.connect :: es) = some t)
    (hrun' : (receiver handleLine c').exec r' (.connect :: es') = some t')
    (hsame : received es = received es') (ha : t.alive = true) (ha' : t'.alive = true) :
    t.handled = t'.handled ∧ t.rxbuf = t'.rxbuf := by
  obtain ⟨h1, h2⟩ := (session_of_run hnew hfit hrun).alive ha
  obtain ⟨h1', h2'⟩ := (session_of_run hnew' hfit' hrun').alive ha'
  rw [hsame] at h1 h2
  exact ⟨h1.trans h1'.symm, h2.trans h2'.symm⟩

/-- **A session passes on the nonempty lines of what it received, in order and each once, and
keeps the bytes after the last newline**, however the stream was cut and whatever the session
before it left behind.  If one of the lines ends the process, those before it were passed on. -/
theorem lines_framed {c : σ} {es : List (NetEvent σ)} (hnew : ∀ e ∈ es, e ≠ .connect)
    (hfit : (receiver handleLine c).Guarded Fits r (.connect :: es))
    (hrun : (receiver handleLine c).exec r (.connect :: es) = some t) :
    t.handled <+: linesOf (received es) ∧
      (t.alive = true →
        t.handled = linesOf (received es) ∧ t.rxbuf = unfinished newline (received es)) := by
  have h := session_of_run hnew hfit hrun
  exact ⟨h.handled, h.alive⟩

end

/-- `handle_line`, as far as the loop sees it. -/
def readLine (parse : Bytes → Except Bytes Json) (c : Reader) (line : Bytes) : Option Reader :=
  match c.handleLine parse line with
  | .ok o => some o.reader
  | .error _ => none

/-- The client of a miner that has just started. -/
def idleReader : Reader := { client := { user := [], pass := [], ua := [] } }

/-- Two lines, an empty one between them, and the start of a third, cut inside the first line and
before a newline. -/
def cutSample : List (NetEvent Reader) :=
  [.recv (text "\x7b"), .recv (text "\x7d\n\n\x7b\x7d"), .recv (text "\n\x7b\"id\"")]

theorem lines_framed_cut :
    ∃ t, (receiver (readLine parseSample) idleReader).exec
        { client := idleReader, rxbuf := text "\x7b\"method\"" } (.connect :: cutSample) = some t ∧
      t.handled = [text "\x7b\x7d", text "\x7b\x7d"] ∧ t.rxbuf = text "\x7b\"id\"" := by
  have halive : ((receiver (readLine parseSample) idleReader).exec
      { client := idleReader, rxbuf := text "\x7b\"method\"" } (.connect :: cutSample)).any
        (·.alive) = true := by
    decide +kernel
  obtain ⟨t, ht, ha⟩ := (Option.any_eq_true _ _).1 halive
  have h := lines_framed (by simp [cutSample]) (by decide +kernel) ht
  obtain ⟨hlines, hrest⟩ := h.2 ha
  refine ⟨t, ht, ?_, ?_⟩
  · rw [hlines]
    decide +kernel
  · rw [hrest]
    decide +kernel

end Stratum
