import Mathlib.Algebra.Order.Ring.Int
import SuprMeow.Library.Runs

/-!
# The Stratum client

`StratumClient` as a machine.  The network thread runs `run`: connect, handshake, flush what was
queued while disconnected, then serve the socket until it drops.  Mining threads call `submit`.
`mtx_` makes each critical section one step: a `send_line`, the block of `submit` that takes an
id, the counter reset that ends `handshake`, the `swap` that starts the flush, `close_socket`.
What `net::send` returned, call by call, is part of the event.

Lines are kept as requests and dumped when they are written.  `History` records what the
theorems speak about and no code path reads it.
-/

set_option autoImplicit false

namespace Stratum

/-! ## JSON lines -/

/-- `std::string`. -/
abbrev Bytes := List UInt8

/-- An ASCII literal. -/
def text (s : String) : Bytes := s.toByteArray.data.toList

/-- A hexadecimal digit. -/
def hexDigit (n : Nat) : UInt8 := UInt8.ofNat (if n < 10 then 48 + n else 87 + n)

/-- One byte of a dumped string. -/
def escapeByte (b : UInt8) : Bytes :=
  match b.toNat with
  | 8 => text "\\b"
  | 9 => text "\\t"
  | 10 => text "\\n"
  | 12 => text "\\f"
  | 13 => text "\\r"
  | 34 => text "\\\""
  | 92 => text "\\\\"
  | n => if n < 32 then text "\\u00" ++ [hexDigit (n / 16), hexDigit (n % 16)] else [b]

/-- A dumped string. -/
def quoted (s : Bytes) : Bytes := text "\"" ++ s.flatMap escapeByte ++ text "\""

/-- A dumped unsigned integer. -/
def number (n : Nat) : Bytes := text (toString n)

/-- One call of `submit`: its arguments and the id it took.  `tag` is not sent. -/
structure Submit where
  id : Nat
  user : Bytes
  jobId : Bytes
  nonce : Nat
  proofB64 : Bytes
  achievedHex : Bytes
  vdfTick : Nat
  tag : Int
  deriving DecidableEq

/-- What the client writes.  `pong` echoes the text of the ping's id. -/
inductive Request where
  | subscribe (ua : Bytes)
  | authorize (user pass : Bytes)
  | submit (m : Submit)
  | pong (id : Bytes)
  deriving DecidableEq

/-- `json::dump`; object keys come out in alphabetical order. -/
def Request.dump : Request → Bytes
  | .subscribe ua =>
    text "\x7b\"id\":1,\"method\":\"mining.subscribe\",\"params\":[" ++ quoted ua ++
      text ",null,\x7b\"pool_vdf\":true,\"prompt_seed\":true,\"protocol\":\"tsc/1.0\"\x7d]\x7d"
  | .authorize user pass =>
    text "\x7b\"id\":2,\"method\":\"mining.authorize\",\"params\":[" ++ quoted user ++ text "," ++
      quoted pass ++ text "]\x7d"
  | .submit m =>
    text "\x7b\"id\":" ++ number m.id ++ text ",\"method\":\"mining.submit\",\"params\":[" ++
      quoted m.user ++ text "," ++ quoted m.jobId ++ text "," ++ number m.nonce ++ text "," ++
      quoted m.proofB64 ++ text "," ++ quoted m.achievedHex ++ text "," ++ number m.vdfTick ++
      text "]\x7d"
  | .pong id => text "\x7b\"id\":" ++ id ++ text ",\"method\":\"mining.pong\",\"params\":[]\x7d"

/-- `s + "\n"`. -/
def Request.line (r : Request) : Bytes := r.dump ++ text "\n"

/-- The id of a request that expects a reply. -/
def Request.id? : Request → Option Nat
  | .subscribe _ => some 1
  | .authorize _ _ => some 2
  | .submit m => some m.id
  | .pong _ => none

/-- The call a line belongs to. -/
def Request.submit? : Request → Option Submit
  | .submit m => some m
  | _ => none

/-! ## The client -/

structure Stats where
  accepted : Nat := 0
  rejected : Nat := 0
  stale : Nat := 0
  submitted : Nat := 0
  reconnects : Nat := 0
  deriving DecidableEq

/-- The fields of `StratumClient`; `open_` is `fd_ != net::invalid`. -/
structure Client where
  user : Bytes
  pass : Bytes
  ua : Bytes
  open_ : Bool := false
  running : Bool := true
  nextId : Nat := 1
  outq : List Request := []
  pendingTags : List (Nat × Int) := []
  stats : Stats := {}
  deriving DecidableEq

/-- The write loop of `send_line` on what is left of a line.  The results of `net::send` are
given and used up exactly; the loop answers with what was written and whether it got through. -/
def writeAll : Bytes → List Int → Option (Bytes × Bool)
  | [], [] => some ([], true)
  | [], _ :: _ => none
  | _ :: _, [] => none
  | b :: rest, n :: outs =>
    if n ≤ 0 then (if outs = [] then some ([], false) else none)
    else if (b :: rest).length < n.toNat then none
    else (writeAll ((b :: rest).drop n.toNat) outs).map fun r =>
      ((b :: rest).take n.toNat ++ r.1, r.2)

/-- `send_line`: the client, the bytes written and the return value. -/
def Client.sendLine (c : Client) (r : Request) (outs : List Int) : Option (Client × Bytes × Bool) :=
  if c.open_ then (writeAll r.line outs).map fun w => (c, w.1, w.2)
  else if outs = [] then some ({ c with outq := c.outq ++ [r] }, [], false) else none

/-- `connect_once`, when it succeeds. -/
def Client.connectOnce (c : Client) : Client := { c with open_ := true }

/-- `close_socket`. -/
def Client.closeSocket (c : Client) : Client := { c with open_ := false }

/-- A pool that never answers must not grow the table forever. -/
def boundTags (l : List (Nat × Int)) : List (Nat × Int) :=
  if 4096 < l.length then l.drop 2048 else l

/-- The critical section of `submit`. -/
def Client.takeId (c : Client) (jobId : Bytes) (nonce : Nat) (proofB64 achievedHex : Bytes)
    (vdfTick : Nat) (tag : Int) : Client × Submit :=
  ({ c with
      nextId := (c.nextId + 1) % 2 ^ 64
      stats := { c.stats with submitted := c.stats.submitted + 1 }
      pendingTags := boundTags (c.pendingTags ++ [(c.nextId, tag)]) },
    { id := c.nextId, user := c.user, jobId, nonce, proofB64, achievedHex, vdfTick, tag })

/-- The `error` member of a reply. -/
inductive PoolError where
  | object (code : Option Int) (message : Option Bytes)
  | array (code : Int) (message : Bytes)
  | other
  deriving DecidableEq

/-- The code and message `handle_line` reads off an error. -/
def PoolError.read : PoolError → Int × Bytes
  | .object code message => (code.getD 20, message.getD [])
  | .array code message => (code, message)
  | .other => (0, [])

/-- The arguments of `on_submit_result`. -/
structure SubmitResult where
  ok : Bool
  code : Int
  message : Bytes
  tag : Int
  deriving DecidableEq

/-- `handle_line` on a reply that is not for `subscribe` or `authorize`. -/
def Client.shareResult (c : Client) (id : Nat) (err : Option PoolError) : Client × SubmitResult :=
  let e := (err.map PoolError.read).getD (0, [])
  let stats :=
    if err = none then { c.stats with accepted := c.stats.accepted + 1 }
    else if e.1 = 21 then { c.stats with stale := c.stats.stale + 1 }
    else { c.stats with rejected := c.stats.rejected + 1 }
  ({ c with stats, pendingTags := c.pendingTags.eraseP (·.1 == id) },
    { ok := err.isNone, code := e.1, message := e.2,
      tag := ((c.pendingTags.find? (·.1 == id)).map (·.2)).getD 0 })

/-- `handle_line` on a reply; the replies to `subscribe` and `authorize` are only logged. -/
def Client.handleReply (c : Client) (id : Nat) (err : Option PoolError) :
    Client × Option SubmitResult :=
  if id = 1 ∨ id = 2 then (c, none)
  else ((c.shareResult id err).1, some (c.shareResult id err).2)

/-! ## The threads -/

/-- Where the network thread is in `run`. -/
inductive Phase where
  | idle
  | dialing
  | subscribe
  | authorize
  | reset
  | swap
  | flush (q : List Request)
  | loop
  deriving DecidableEq

/-- Lines the network thread took from `outq_` and has not passed to `send_line` again. -/
def Phase.flushing : Phase → List Request
  | .flush q => q
  | _ => []

/-- Where the line of a submit is: not yet on a socket, on the current session, on an earlier
one. -/
inductive Place where
  | waiting
  | session
  | ended
  deriving DecidableEq

/-- An unanswered submit.  `crowded` once 2048 later ones were unanswered at the same time. -/
structure Ticket where
  sub : Submit
  place : Place := .waiting
  crowded : Bool := false
  deriving DecidableEq

/-- The entry of `pending_tags_` that belongs to a ticket. -/
def Ticket.key (t : Ticket) : Nat × Int := (t.sub.id, t.sub.tag)

def Ticket.endSession (t : Ticket) : Ticket :=
  if t.place = .session then { t with place := .ended } else t

def Ticket.written (m : Submit) (t : Ticket) : Ticket :=
  if t.sub = m ∧ t.place = .waiting then { t with place := .session } else t

/-- Mark the tickets with 2048 or more behind them. -/
def crowd : List Ticket → List Ticket
  | [] => []
  | t :: ts => { t with crowded := t.crowded || decide (2048 ≤ ts.length) } :: crowd ts

/-- A reply to a submit: the tag it was given, the tag passed on, and whether it was crowded. -/
structure Answer where
  given : Int
  passed : Int
  crowded : Bool
  deriving DecidableEq

/-- What has happened so far. -/
structure History where
  /-- Bytes of the current session and of the ended ones. -/
  wire : Bytes := []
  past : List Bytes := []
  /-- Requests whose line went to the current session, and to the ended ones. -/
  asked : List Request := []
  pastAsked : List (List Request) := []
  /-- Lines passed to `send_line` by the handshake, `submit` and the ping reply. -/
  passed : List Request := []
  /-- Lines `send_line` gave up on, with the number of bytes written. -/
  torn : List (Request × Nat) := []
  tickets : List Ticket := []
  answers : List Answer := []
  deriving DecidableEq

/-- `inflight` are the submits that took an id and have not called `send_line` yet. -/
structure Sys where
  client : Client
  phase : Phase := .idle
  inflight : List Submit := []
  hist : History := {}
  deriving DecidableEq

namespace Sys

/-- `send_line`, recorded. -/
def sendLine (s : Sys) (r : Request) (outs : List Int) : Option Sys :=
  (s.client.sendLine r outs).map fun w =>
    { s with
      client := w.1
      hist :=
        if s.client.open_ then
          { s.hist with
            wire := s.hist.wire ++ w.2.1
            asked := s.hist.asked ++ [r]
            torn := if w.2.2 then s.hist.torn else s.hist.torn ++ [(r, w.2.1.length)]
            tickets := match r.submit? with
              | some m => s.hist.tickets.map (Ticket.written m)
              | none => s.hist.tickets }
        else s.hist }

/-- A first `send_line` for a line. -/
def pass (s : Sys) (r : Request) (outs : List Int) : Option Sys :=
  { s with hist := { s.hist with passed := s.hist.passed ++ [r] } }.sendLine r outs

/-- `close_socket`, recorded. -/
def closeSocket (s : Sys) : Sys :=
  { s with
    client := s.client.closeSocket
    hist :=
      { s.hist with
        past := s.hist.past ++ [s.hist.wire]
        wire := []
        pastAsked := s.hist.pastAsked ++ [s.hist.asked]
        asked := []
        tickets := s.hist.tickets.map Ticket.endSession } }

end Sys

inductive Event where
  /-- `run` tries to connect; it fails or succeeds. -/
  | dial
  | refused
  | connect
  /-- The network thread's next critical section up to the end of the flush. -/
  | net (outs : List Int)
  /-- The pool's reply to the `k`-th unanswered submit. -/
  | answer (k : Nat) (err : Option PoolError)
  /-- Any other reply. -/
  | reply (id : Nat) (err : Option PoolError)
  | ping (id : Bytes) (outs : List Int)
  /-- The inner loop of `run` ends. -/
  | leave
  /-- The two halves of `stop`. -/
  | halt
  | close
  /-- The two halves of `submit`. -/
  | take (jobId : Bytes) (nonce : Nat) (proofB64 achievedHex : Bytes) (vdfTick : Nat) (tag : Int)
  | send (k : Nat) (outs : List Int)
  deriving DecidableEq

/-- What the `net::send` calls of a step returned. -/
def Event.outcomes : Event → List Int
  | .net outs => outs
  | .ping _ outs => outs
  | .send _ outs => outs
  | _ => []

namespace Sys

/-- The network thread up to the serving loop: `handshake`, then the flush. -/
def netStep (s : Sys) (outs : List Int) : Option Sys :=
  match s.phase with
  | .subscribe => (s.pass (.subscribe s.client.ua) outs).map ({ · with phase := .authorize })
  | .authorize =>
    (s.pass (.authorize s.client.user s.client.pass) outs).map ({ · with phase := .reset })
  | .reset =>
    if outs = [] then
      -- A ticket of an ended session can no longer be answered.
      some { s with
        client := { s.client with nextId := 3 }
        phase := .swap
        hist := { s.hist with tickets := s.hist.tickets.filter (·.place != .ended) } }
    else none
  | .swap =>
    if outs = [] then
      some { s with client := { s.client with outq := [] }, phase := .flush s.client.outq }
    else none
  | .flush [] => if outs = [] then some { s with phase := .loop } else none
  | .flush (r :: q) => (s.sendLine r outs).map ({ · with phase := .flush q })
  | _ => none

/-- The reply to the submit of ticket `t`, the `k`-th. -/
def answer (s : Sys) (k : Nat) (t : Ticket) (err : Option PoolError) : Sys :=
  let r := s.client.handleReply t.sub.id err
  { s with
    client := r.1
    hist :=
      { s.hist with
        tickets := s.hist.tickets.eraseIdx k
        answers := match r.2 with
          | some res => s.hist.answers ++ [⟨t.sub.tag, res.tag, t.crowded⟩]
          | none => s.hist.answers } }

/-- `submit` up to the end of its critical section. -/
def take (s : Sys) (jobId : Bytes) (nonce : Nat) (proofB64 achievedHex : Bytes) (vdfTick : Nat)
    (tag : Int) : Sys :=
  let r := s.client.takeId jobId nonce proofB64 achievedHex vdfTick tag
  { s with
    client := r.1
    inflight := s.inflight ++ [r.2]
    hist := { s.hist with tickets := crowd (s.hist.tickets ++ [{ sub := r.2 }]) } }

def step (s : Sys) : Event → Option Sys
  | .dial => if s.phase = .idle ∧ s.client.running then some { s with phase := .dialing } else none
  | .refused => if s.phase = .dialing then some { s with phase := .idle } else none
  | .connect =>
    if s.phase = .dialing then
      some { s with client := s.client.connectOnce, phase := .subscribe }
    else none
  | .net outs => s.netStep outs
  | .answer k err =>
    match s.hist.tickets[k]? with
    | some t => if s.phase = .loop ∧ t.place = .session then some (s.answer k t err) else none
    | none => none
  | .reply id err =>
    if s.phase = .loop then some { s with client := (s.client.handleReply id err).1 } else none
  | .ping id outs => if s.phase = .loop then s.pass (.pong id) outs else none
  | .leave =>
    if s.phase = .loop then
      let c := s.client
      let reconnects := if c.running then c.stats.reconnects + 1 else c.stats.reconnects
      some { { s with client := { c with stats := { c.stats with reconnects } } }.closeSocket with
        phase := .idle }
    else none
  | .halt => some { s with client := { s.client with running := false } }
  | .close => if s.client.running then none else some s.closeSocket
  | .take jobId nonce proofB64 achievedHex vdfTick tag =>
    some (s.take jobId nonce proofB64 achievedHex vdfTick tag)
  | .send k outs =>
    match s.inflight[k]? with
    | some m => ({ s with inflight := s.inflight.eraseIdx k }).pass (.submit m) outs
    | none => none

end Sys

/-- The client of user `user`, started and not yet connected. -/
def machine (user pass ua : Bytes) : Runs.Machine Sys Event where
  init := { client := { user, pass, ua } }
  step := Sys.step

/-! ## Small lemmas -/

theorem Request.line_pos (r : Request) : 0 < r.line.length := by
  unfold Request.line
  simp only [List.length_append]
  have h : (text "\n").length = 1 := by decide
  omega

theorem writeAll_true {b w : Bytes} {outs : List Int} (h : writeAll b outs = some (w, true)) :
    w = b := by
  induction outs generalizing b w with
  | nil => cases b <;> simp_all [writeAll]
  | cons n outs ih =>
    cases b with
    | nil => simp [writeAll] at h
    | cons x rest =>
      unfold writeAll at h
      split at h
      · split at h <;> simp at h
      · split at h
        · cases h
        · simp only [Option.map_eq_some_iff] at h
          obtain ⟨⟨v, ok⟩, hv, he⟩ := h
          simp only [Prod.mk.injEq] at he
          obtain ⟨rfl, rfl⟩ := he
          rw [ih hv, List.take_append_drop]

theorem writeAll_false {b w : Bytes} {outs : List Int} (h : writeAll b outs = some (w, false)) :
    w.length < b.length := by
  induction outs generalizing b w with
  | nil => cases b <;> simp [writeAll] at h
  | cons n outs ih =>
    cases b with
    | nil => simp [writeAll] at h
    | cons x rest =>
      unfold writeAll at h
      split at h
      · split at h
        · cases h; simp
        · cases h
      · split at h
        · cases h
        · rename_i hn
          simp only [Option.map_eq_some_iff] at h
          obtain ⟨⟨v, ok⟩, hv, he⟩ := h
          simp only [Prod.mk.injEq] at he
          obtain ⟨rfl, rfl⟩ := he
          have := ih hv
          simp only [List.length_append, List.length_take, List.length_drop] at this ⊢
          omega

/-- The loop gets through exactly when no call fails. -/
theorem writeAll_ok_iff {b w : Bytes} {ok : Bool} {outs : List Int}
    (h : writeAll b outs = some (w, ok)) : ok = true ↔ ∀ n ∈ outs, 0 < n := by
  induction outs generalizing b w with
  | nil => cases b <;> simp_all [writeAll]
  | cons n outs ih =>
    cases b with
    | nil => simp [writeAll] at h
    | cons x rest =>
      unfold writeAll at h
      split at h
      · rename_i hn
        split at h
        · cases h
          simp only [Bool.false_eq_true, List.mem_cons, forall_eq_or_imp, false_iff, not_and]
          omega
        · cases h
      · rename_i hn
        split at h
        · cases h
        · simp only [Option.map_eq_some_iff] at h
          obtain ⟨⟨v, ok'⟩, hv, he⟩ := h
          simp only [Prod.mk.injEq] at he
          obtain ⟨-, rfl⟩ := he
          rw [ih hv]
          simp only [List.mem_cons, forall_eq_or_imp]
          exact ⟨fun h => ⟨by omega, h⟩, And.right⟩

end Stratum
