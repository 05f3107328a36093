import SuprMeow.Vllm.Shares

/-!
# The messages of the bridge's pool

`reader` decodes a line and hands the value to `on_message`, which takes members, subscripts,
compares and converts whatever the pool put there.  Only the decoding and `OSError` are guarded:
any other exception ends the supervisor thread, and with it reading and reconnecting.  `loads`
stands for `json.loads`, whose failures are all caught, and `Python` for tables of the interpreter.

* `onMessage` — the message handler, with what it raises;
* `listenerMachine` — lines in any order with the steps of the other threads;
* `WellFormed` — the messages the protocol knows;
* `bridge_lines_safe_iff` — nothing is raised, and nothing ill-formed has an effect, exactly in the
  runs whose lines are all `Tolerated`.
-/

set_option autoImplicit false

namespace Vllm

/-! ## Operations on values -/

/-- The decimal digits and the white space of Unicode, and `repr`. -/
structure Python where
  digit : Nat → Option Nat
  space : Nat → Bool
  repr : Value → Str

/-- Digits, with single underscores between them. -/
def Python.digits (py : Python) : Str → Option (List Nat)
  | [] => none
  | [c] => (py.digit c).map ([·])
  | c :: u :: s =>
    (py.digit c).bind fun d =>
      (if u = 95 then py.digits s else py.digits (u :: s)).map (d :: ·)

/-- `int(s)`: white space around, a sign, at most 4300 digits. -/
def Python.intOfStr (py : Python) (s : Str) : Option Int :=
  let s := ((s.dropWhile py.space).reverse.dropWhile py.space).reverse
  let r : Bool × Str :=
    match s with
    | c :: t => if c = 45 then (true, t) else if c = 43 then (false, t) else (false, s)
    | [] => (false, [])
  (py.digits r.2).bind fun ds =>
    if 4300 < ds.length then none
    else
      let n : Int := ds.foldl (fun n d => 10 * n + d) 0
      some (if r.1 then -n else n)

namespace Value

/-- `int(v)`. -/
def asInt (py : Python) (v : Value) : Except Raised Int := do
  match ← v.toInt, v with
  | some z, _ => return z
  | .none, .str s =>
    match py.intOfStr s with
    | some z => return z
    | .none => throw .valueError
  | .none, _ => throw .typeError

/-- `f"{v}"`. -/
def format (py : Python) : Value → Str
  | .str s => s
  | v => py.repr v

/-- `v >= n`. -/
def ge (n : Nat) : Value → Except Raised Bool
  | .bool b => .ok (decide (n ≤ b.toNat))
  | .int z => .ok (decide ((n : Int) ≤ z))
  | .float (.finite q) => .ok (decide ((n : Rat) ≤ q))
  | .float (.infinite negative) => .ok (!negative)
  | .float .nan => .ok false
  | _ => .error .typeError

/-- `v == n`. -/
def eqNat (n : Nat) : Value → Bool
  | .bool b => b.toNat == n
  | .int z => z == n
  | .float (.finite q) => q == n
  | _ => false

/-- `v == s`. -/
def eqStr (s : String) : Value → Bool
  | .str t => t == Vllm.str s
  | _ => false

/-- `str(v)[:n]`, as far as printing it goes: what `repr` gives can be printed. -/
def head (n : Nat) : Value → Value
  | .str s => .str (s.take n)
  | v => v

end Value

/-! ## `on_message` -/

/-- The members of a message. -/
abbrev Members := List (Str × Value)

/-- `m.get(key)`. -/
def field (o : Members) (key : String) : Value := (o.lookup (str key)).getD .none

/-- `key in m`. -/
def hasField (o : Members) (key : String) : Bool := (o.lookup (str key)).isSome

structure Counters where
  accepted : Nat := 0
  rejected : Nat := 0
  stale : Nat := 0
  dbgResp : Nat := 0
  deriving DecidableEq

/-- What a message did, and what it raised. -/
structure Heard where
  bridge : Bridge
  counters : Counters
  raised : Option Raised := none

/-- `code` of a refusal. -/
def errorCode : Value → Value
  | .list (v :: _) => v
  | .dict o => (o.lookup (str "code")).getD (.int 20)
  | _ => .int 20

namespace Counters

/-- The first three replies are shown. -/
def debug (c : Counters) : Counters :=
  if c.dbgResp < 3 then { c with dbgResp := c.dbgResp + 1 } else c

/-- The reply to a submission. -/
def submitReply (c : Counters) (o : Members) : Counters × Option Raised :=
  let c := c.debug
  match field o "error" with
  | .none => ({ c with accepted := c.accepted + 1 }, none)
  | err =>
    if (errorCode err).eqNat 21 then ({ c with stale := c.stale + 1 }, none)
    else
      -- The line that reports it shows the code and the error.
      ({ c with rejected := c.rejected + 1 },
        if (errorCode err).printable && err.printable then none else some .unicodeEncodeError)

/-- What is printed of a reply to the handshake. -/
def printed (v : Value) : Option Raised := if v.printable then none else some .unicodeEncodeError

/-- The last three branches of `on_message`. -/
def onReply (c : Counters) (o : Members) : Counters × Option Raised :=
  match ((o.lookup (str "id")).getD (.int 0)).ge 3 with
  | .error e => (c, some e)
  | .ok high =>
    if high && (hasField o "result" || hasField o "error") then c.submitReply o
    else if (field o "id").eqNat 1 then (c, printed ((field o "result").head 80))
    else if (field o "id").eqNat 2 then (c, printed (field o "result"))
    else (c, none)

end Counters

namespace Bridge

/-- The branch of `mining.set_target`. -/
def onSetTarget (b : Bridge) (params : Value) : Bridge × Option Raised :=
  match params.item 0 with
  | .error e => (b, some e)
  | .ok v => ({ b with shareTarget := v }, none)

/-- The branch of `mining.set_model`: the model id is set before the difficulty is read. -/
def onSetModel (py : Python) (b : Bridge) (params : Value) : Bridge × Option Raised :=
  match params.item 0 with
  | .error e => (b, some e)
  | .ok v =>
    match v with
    | .dict o =>
      let modelId := (field o "name").format py ++ str "@" ++ (field o "commit").format py
      let b := { b with modelId }
      match ((o.lookup (str "difficulty")).getD (.int b.difficulty)).asInt py with
      | .error e => (b, some e)
      | .ok difficulty => ({ b with difficulty }, none)
    | _ => (b, some .attributeError)

/-- `on_message` on an object. -/
def onMembers (args : Args) (py : Python) (b : Bridge) (c : Counters) (o : Members)
    (written : Bool) : Heard :=
  let method := field o "method"
  if method.eqStr "mining.notify" then
    match o.lookup (str "params") with
    | none => ⟨b, c, some .keyError⟩
    | some p => ⟨(b.onNotify args p).1, c, (b.onNotify args p).2⟩
  else if method.eqStr "mining.set_target" && (field o "params").truthy then
    ⟨(b.onSetTarget (field o "params")).1, c, (b.onSetTarget (field o "params")).2⟩
  else if method.eqStr "mining.set_model" && (field o "params").truthy then
    ⟨(b.onSetModel py (field o "params")).1, c, (b.onSetModel py (field o "params")).2⟩
  else if method.eqStr "mining.ping" then ⟨(b.send (field o "id") written).1, c, none⟩
  else ⟨b, (c.onReply o).1, (c.onReply o).2⟩

/-- `on_message`; `written` says whether the socket takes a pong. -/
def onMessage (args : Args) (py : Python) (b : Bridge) (c : Counters) (m : Value)
    (written : Bool) : Heard :=
  match m with
  | .dict o => b.onMembers args py c o written
  | _ => ⟨b, c, some .attributeError⟩

end Bridge

/-! ## The threads -/

/-- The threads, and the counters of the replies. -/
structure Listener where
  service : Service := {}
  counters : Counters := {}

inductive ListenerEvent where
  /-- The reader comes to a line. -/
  | line (l : List UInt8) (written : Bool)
  /-- Another step: of the connection, of a dispatch thread, the worker or the drain thread. -/
  | other (e : ServiceEvent)

/-- The messages of the pool come in lines. -/
def ServiceEvent.isMessage : ServiceEvent → Bool
  | .notify _ | .setTarget _ | .setModel _ _ => true
  | _ => false

section Machine

variable (args : Args) (py : Python) (loads : List UInt8 → Option Value)

namespace Listener

/-- A line of `reader`; what escapes `on_message` ends the supervisor. -/
def readLine (s : Listener) (l : List UInt8) (written : Bool) : Option Listener :=
  if s.service.alive = false then none
  else
    match loads l with
    | none => some s
    | some m =>
      let h := s.service.bridge.onMessage args py s.counters m written
      some {
        service := { s.service with bridge := h.bridge, alive := h.raised.isNone }
        counters := h.counters }

def step (s : Listener) : ListenerEvent → Option Listener
  | .line l written => s.readLine args py loads l written
  | .other e =>
    if e.isMessage then none
    else (s.service.step args e).map fun v => { s with service := v }

end Listener

def listenerMachine : Runs.Machine Listener ListenerEvent where
  init := {}
  step := Listener.step args py loads

end Machine

/-! ## Specification -/

/-- `n` hexadecimal digits. -/
def IsHex (n : Nat) (v : Value) : Prop :=
  ∃ s, v = .str s ∧ s.length = n ∧
    ∀ c ∈ s, 48 ≤ c ∧ c ≤ 57 ∨ 97 ≤ c ∧ c ≤ 102 ∨ 65 ≤ c ∧ c ≤ 70

/-- A JSON number. -/
def IsNumber : Value → Prop
  | .int _ => True
  | .float (.finite _) => True
  | _ => False

/-- The job id, the header and the target of a `mining.notify`. -/
structure JobFields (jobId headerPrefix target : Value) : Prop where
  jobId : ∃ s, jobId = .str s
  headerPrefix : IsHex 152 headerPrefix
  target : IsHex 64 target

/-- The parameters of a `mining.notify`.  What `on_notify` does not read, or reads at any type, is
left open. -/
def JobForm : List Value → Prop
  | jobId :: headerPrefix :: target :: rest => 4 ≤ rest.length ∧ JobFields jobId headerPrefix target
  | _ => False

/-- A model; `on_message` has a default for the difficulty only. -/
structure ModelForm (o : Members) : Prop where
  name : ∃ s, field o "name" = .str s
  commit : ∃ s, field o "commit" = .str s
  difficulty : ∀ v, o.lookup (str "difficulty") = some v → IsNumber v

/-- An error: an object with a code and a message, or the two in an array. -/
def ErrorForm : Value → Prop
  | .dict o => (∀ v, o.lookup (str "code") = some v → IsNumber v) ∧
      ∀ v, o.lookup (str "message") = some v → ∃ s, v = .str s
  | .list (code :: message :: _) => IsNumber code ∧ ∃ s, message = .str s
  | _ => False

/-- A reply names the request and carries an error or a result. -/
structure ReplyForm (o : Members) : Prop where
  id : IsNumber (field o "id")
  error : field o "error" = .none ∨ ErrorForm (field o "error")
  result : field o "error" = .none → hasField o "result" = true

/-- A well-formed notification of a known method; one without an effect on the miner is no reply. -/
def NotificationForm (o : Members) (method : Str) : Prop :=
  (method = str "mining.notify" ∧ ∃ l, o.lookup (str "params") = some (.list l) ∧ JobForm l) ∨
  (method = str "mining.set_target" ∧
    ∃ v l, o.lookup (str "params") = some (.list (v :: l)) ∧ IsHex 64 v) ∨
  (method = str "mining.set_model" ∧
    ∃ p l, o.lookup (str "params") = some (.list (.dict p :: l)) ∧ ModelForm p) ∨
  method = str "mining.ping" ∨
  ((method = str "mining.pong" ∨ method = str "mining.set_extranonce") ∧
    hasField o "result" = false ∧ hasField o "error" = false)

/-- A message the protocol knows: a reply, or a notification. -/
def WellFormed (m : Value) : Prop :=
  ∃ o, m = .dict o ∧
    ((field o "method" = .none ∧ ReplyForm o) ∨
      ∃ method, field o "method" = .str method ∧ NotificationForm o method)

/-- What an ill-formed message must leave alone. -/
structure Unmoved (b : Bridge) (c : Counters) (b' : Bridge) (c' : Counters) : Prop where
  job : b'.job = b.job
  jobByReq : b'.jobByReq = b.jobByReq
  difficulty : b'.difficulty = b.difficulty
  shareTarget : b'.shareTarget = b.shareTarget
  submitted : b'.submitted = b.submitted
  belowFloor : b'.belowFloor = b.belowFloor
  nonce : b'.nonce = b.nonce
  nextId : b'.nextId = b.nextId
  counters : c' = c

/-- Nothing is raised, and without the form nothing moves. -/
def HeardSafe (b : Bridge) (c : Counters) (h : Heard) (form : Prop) : Prop :=
  h.raised = none ∧ (¬ form → Unmoved b c h.bridge h.counters)

/-- **The supervisor goes on, and only a well-formed message has an effect.** -/
def LineSafe (args : Args) (py : Python) (loads : List UInt8 → Option Value) (s : Listener) :
    ListenerEvent → Prop
  | .line l written => ∃ s', s.readLine args py loads l written = some s' ∧
      s'.service.alive = true ∧
      (¬ (∃ m, loads l = some m ∧ WellFormed m) →
        Unmoved s.service.bridge s.counters s'.service.bridge s'.counters)
  | .other _ => True

/-! ## The lines that are safe -/

/-- A number at `i`, if any, converts. -/
def IntReadable (l : List Value) (i : Nat) : Prop :=
  ∀ x, l[i]? = some (.float x) → ∃ q, x = .finite q

/-- Fewer than seven parameters, or a job whose numbers convert and whose report prints. -/
def NotifyTolerated (p : Value) : Prop :=
  (∃ n, p.len = .ok n ∧ n < 7) ∨
  ∃ l, p = .list l ∧ JobForm l ∧ IntReadable l 7 ∧ IntReadable l 10 ∧ Bridge.printsJob p = true

/-- A target, or what is in place already. -/
def TargetTolerated (b : Bridge) (p : Value) : Prop :=
  ∃ v, p.item 0 = .ok v ∧ (IsHex 64 v ∨ v = b.shareTarget)

/-- An object whose difficulty converts: a model, or the difficulty is the one in place. -/
def ModelTolerated (py : Python) (b : Bridge) (p : Value) : Prop :=
  ∃ o z, p.item 0 = .ok (.dict o) ∧
    ((o.lookup (str "difficulty")).getD (.int b.difficulty)).asInt py = .ok z ∧
    (ModelForm o ∨ z = b.difficulty)

/-- An id that compares with a number; a reply to a submission is one, and what is printed of the
other two prints. -/
structure ReplyTolerated (o : Members) : Prop where
  id : ∃ high, ((o.lookup (str "id")).getD (.int 0)).ge 3 = .ok high
  submission : ((o.lookup (str "id")).getD (.int 0)).ge 3 = .ok true →
    (hasField o "result" || hasField o "error") = true → field o "method" = .none ∧ ReplyForm o
  subscribed : (field o "id").eqNat 1 = true → ((field o "result").head 80).printable = true
  authorized : (field o "id").eqNat 2 = true → (field o "result").printable = true

/-- An object; for each method whose parameters are read, they can be, and are as they should be. -/
def Tolerated (py : Python) (b : Bridge) (m : Value) : Prop :=
  ∃ o, m = .dict o ∧
    if (field o "method").eqStr "mining.notify" then
      ∃ p, o.lookup (str "params") = some p ∧ NotifyTolerated p
    else if (field o "method").eqStr "mining.set_target" && (field o "params").truthy then
      TargetTolerated b (field o "params")
    else if (field o "method").eqStr "mining.set_model" && (field o "params").truthy then
      ModelTolerated py b (field o "params")
    else (field o "method").eqStr "mining.ping" = true ∨ ReplyTolerated o

def LineTolerated (py : Python) (loads : List UInt8 → Option Value) (s : Listener) :
    ListenerEvent → Prop
  | .line l _ => ∀ m, loads l = some m → Tolerated py s.service.bridge m
  | .other _ => True

/-! ## Reading a job -/

theorem Value.eqStr_iff {v : Value} {s : String} : v.eqStr s = true ↔ v = .str (Vllm.str s) := by
  cases v <;> simp [Value.eqStr]

theorem Value.item_list_iff {l : List Value} {i : Nat} {v : Value} :
    (Value.list l).item i = .ok v ↔ l[i]? = some v := by
  unfold Value.item
  dsimp only
  cases l[i]? with
  | none => exact iff_of_false nofun nofun
  | some w => simp only [Except.ok.injEq, Option.some.injEq]

section Notify

variable {args : Args} {b : Bridge}

theorem readNotify_of_len {p : Value} {n : Nat} (hn : p.len = .ok n) :
    b.readNotify args p =
      if n < 7 then .ok none
      else do
        let headerPrefix ← p.item 1
        let target ← p.item 2
        let requestId ← intAt p 7 0
        let vdf ← strAt p 9 args.placeholderVdf
        let tick ← intAt p 10 args.placeholderTick
        let jobId ← p.item 0
        let blockHash ← headerPrefix.slice 8 72
        let pow : PowPayload := {
          blockHash, vdf, tick, requestId, target, headerPrefix
          shareTarget := if b.shareTarget.truthy then b.shareTarget else easyTarget
          difficulty := b.difficulty
          modelIdentifier := b.modelId }
        let clean ← p.item 6
        return some ({ jobId, pow, vdfTick := tick }, clean.truthy) := by
  unfold Bridge.readNotify
  rw [hn]
  rfl

theorem readNotify_error_of_len {p : Value} {e : Raised} (he : p.len = .error e) :
    b.readNotify args p = .error e := by
  unfold Bridge.readNotify
  rw [he]
  rfl

/-- What a job was read from. -/
theorem readNotify_some {p : Value} {j : Job} {clean : Bool}
    (h : b.readNotify args p = .ok (some (j, clean))) :
    (∃ n, p.len = .ok n ∧ 7 ≤ n) ∧
      (p.item 0 = .ok j.jobId ∧ p.item 1 = .ok j.pow.headerPrefix ∧ p.item 2 = .ok j.pow.target) ∧
      (∃ z, intAt p 7 0 = .ok z) ∧ ∃ z, intAt p 10 args.placeholderTick = .ok z := by
  cases hn : p.len with
  | error e =>
    rw [readNotify_error_of_len hn] at h
    cases h
  | ok n =>
    rw [readNotify_of_len hn] at h
    split at h
    · cases h
    · rename_i h7
      obtain ⟨hp, h1, h⟩ := Fallible.seq_ok.1 h
      obtain ⟨t, h2, h⟩ := Fallible.seq_ok.1 h
      obtain ⟨r, hr, h⟩ := Fallible.seq_ok.1 h
      obtain ⟨v, -, h⟩ := Fallible.seq_ok.1 h
      obtain ⟨k, hk, h⟩ := Fallible.seq_ok.1 h
      obtain ⟨i, h0, h⟩ := Fallible.seq_ok.1 h
      obtain ⟨bh, -, h⟩ := Fallible.seq_ok.1 h
      obtain ⟨cl, -, h⟩ := Fallible.seq_ok.1 h
      cases h
      exact ⟨⟨n, rfl, by omega⟩, ⟨h0, h1, h2⟩, ⟨r, hr⟩, k, hk⟩

theorem readNotify_none_iff {p : Value} :
    b.readNotify args p = .ok none ↔ ∃ n, p.len = .ok n ∧ n < 7 := by
  cases hn : p.len with
  | error e =>
    rw [readNotify_error_of_len hn]
    exact iff_of_false nofun (by rintro ⟨_, ⟨⟩, -⟩)
  | ok n =>
    rw [readNotify_of_len hn]
    split
    · rename_i h7
      exact iff_of_true rfl ⟨n, rfl, h7⟩
    · rename_i h7
      refine iff_of_false (fun h => ?_) (by rintro ⟨_, ⟨⟩, h⟩; exact h7 h)
      iterate 8 obtain ⟨_, -, h⟩ := Fallible.seq_ok.1 h
      cases h

theorem intAt_list_iff {l : List Value} {i : Nat} {dflt : Int} :
    (∃ z, intAt (.list l) i dflt = .ok z) ↔ IntReadable l i := by
  unfold intAt IntReadable
  by_cases hi : l.length ≤ i
  · have hnone : l[i]? = none := List.getElem?_eq_none hi
    refine iff_of_true ⟨dflt, ?_⟩ fun x hx => ?_
    · exact if_pos hi
    · rw [hnone] at hx
      cases hx
  · obtain ⟨v, hv⟩ : ∃ v, l[i]? = some v := ⟨_, List.getElem?_eq_getElem (by omega)⟩
    have hitem := Value.item_list_iff.2 hv
    have heq : (do
        let n ← (Value.list l).len
        if n ≤ i then return dflt
        let v ← (Value.list l).item i
        return (← v.toInt).getD dflt) = (do return (← v.toInt).getD dflt : Except Raised Int) := by
      rw [hitem]
      exact if_neg hi
    rw [heq, hv]
    cases v with
    | float x =>
      cases x with
      | finite q => exact iff_of_true ⟨_, rfl⟩ fun x hx => by cases hx; exact ⟨q, rfl⟩
      | infinite negative =>
        refine iff_of_false (by rintro ⟨z, ⟨⟩⟩) fun h => ?_
        obtain ⟨q, hq⟩ := h _ rfl
        cases hq
      | nan =>
        refine iff_of_false (by rintro ⟨z, ⟨⟩⟩) fun h => ?_
        obtain ⟨q, hq⟩ := h _ rfl
        cases hq
    | none | bool | int | str | list | dict => exact iff_of_true ⟨_, rfl⟩ fun x hx => by cases hx

theorem strAt_list (l : List Value) (i : Nat) (dflt : Str) :
    ∃ s, strAt (.list l) i dflt = .ok s := by
  unfold strAt
  by_cases hi : l.length ≤ i
  · exact ⟨dflt, if_pos hi⟩
  · obtain ⟨v, hv⟩ : ∃ v, l[i]? = some v := ⟨_, List.getElem?_eq_getElem (by omega)⟩
    refine ⟨v.text?.getD dflt, ?_⟩
    rw [Value.item_list_iff.2 hv]
    exact if_neg hi

/-- A job of the right form is read when its numbers convert. -/
theorem readNotify_list {l : List Value} (hl : JobForm l) (h7 : IntReadable l 7)
    (h10 : IntReadable l 10) : ∃ r, b.readNotify args (.list l) = .ok (some r) := by
  obtain ⟨r, hr⟩ := (@intAt_list_iff l 7 0).2 h7
  obtain ⟨k, hk⟩ := (@intAt_list_iff l 10 args.placeholderTick).2 h10
  obtain ⟨v, hv⟩ := strAt_list l 9 args.placeholderVdf
  obtain ⟨jobId, hp, target, rest, rfl⟩ :
      ∃ jobId hp target rest, l = jobId :: hp :: target :: rest := by
    rcases l with _ | ⟨a, _ | ⟨b, _ | ⟨c, rest⟩⟩⟩
    · exact hl.elim
    · exact hl.elim
    · exact hl.elim
    · exact ⟨a, b, c, rest, rfl⟩
  obtain ⟨hlen, hfields⟩ := hl
  obtain ⟨s, rfl, -⟩ := hfields.headerPrefix
  obtain ⟨w, hw⟩ : ∃ w, rest[3]? = some w := ⟨_, List.getElem?_eq_getElem (by omega)⟩
  have h6 : (Value.list (jobId :: .str s :: target :: rest)).item 6 = .ok w :=
    Value.item_list_iff.2 hw
  rw [readNotify_of_len rfl, if_neg (by simp only [List.length_cons]; omega), hr, hk, hv, h6]
  exact ⟨_, rfl⟩

theorem list_of_item_hex {p v : Value} {i n : Nat} (hi : p.item i = .ok v) (hv : IsHex n v)
    (hn : n ≠ 1) : ∃ l, p = .list l ∧ l[i]? = some v := by
  cases p with
  | list l => exact ⟨l, rfl, Value.item_list_iff.1 hi⟩
  | str s =>
    obtain ⟨t, rfl, hlen, -⟩ := hv
    unfold Value.item at hi
    dsimp only at hi
    split at hi
    · cases hi
      exact absurd hlen.symm hn
    · cases hi
  | none | bool | int | float | dict => cases hi

theorem jobForm_iff {l : List Value} {jobId headerPrefix target : Value}
    (h0 : l[0]? = some jobId) (h1 : l[1]? = some headerPrefix) (h2 : l[2]? = some target) :
    JobForm l ↔ 7 ≤ l.length ∧ JobFields jobId headerPrefix target := by
  rcases l with _ | ⟨v0, _ | ⟨v1, _ | ⟨v2, rest⟩⟩⟩
  · cases h0
  · cases h1
  · cases h2
  · cases h0
    cases h1
    cases h2
    unfold JobForm
    simp only [List.length_cons]
    exact and_congr_left fun _ => by omega

/-- The form shows in the job that is read. -/
theorem form_of_readNotify {p : Value} {j : Job} {clean : Bool}
    (h : b.readNotify args p = .ok (some (j, clean)))
    (hj : JobFields j.jobId j.pow.headerPrefix j.pow.target) : ∃ l, p = .list l ∧ JobForm l := by
  obtain ⟨⟨n, hn, h7⟩, ⟨h0, h1, h2⟩, -⟩ := readNotify_some h
  obtain ⟨l, rfl, -⟩ := list_of_item_hex h1 hj.headerPrefix (by decide)
  have h0 := Value.item_list_iff.1 h0
  have h1 := Value.item_list_iff.1 h1
  have h2 := Value.item_list_iff.1 h2
  cases hn
  exact ⟨l, rfl, (jobForm_iff h0 h1 h2).2 ⟨h7, hj⟩⟩

/-- The job in place has the form. -/
def Bridge.Sane (b : Bridge) : Prop :=
  ∀ j, b.job = some j → JobFields j.jobId j.pow.headerPrefix j.pow.target

theorem onNotify_safe_iff (hb : b.Sane) {c : Counters} {p : Value} :
    HeardSafe b c ⟨(b.onNotify args p).1, c, (b.onNotify args p).2⟩
      (∃ l, p = .list l ∧ JobForm l) ↔ NotifyTolerated p := by
  unfold Bridge.onNotify
  cases hr : b.readNotify args p with
  | error e =>
    refine iff_of_false (fun h => by cases h.1) ?_
    rintro (hn | ⟨l, rfl, hl, h7, h10, -⟩)
    · rw [readNotify_none_iff.2 hn] at hr
      cases hr
    · obtain ⟨r, hok⟩ := @readNotify_list args b _ hl h7 h10
      rw [hok] at hr
      cases hr
  | ok r =>
    cases r with
    | none =>
      refine iff_of_true ⟨rfl, fun _ => ?_⟩ (.inl (readNotify_none_iff.1 hr))
      exact ⟨rfl, rfl, rfl, rfl, rfl, rfl, rfl, rfl, rfl⟩
    | some r =>
      obtain ⟨j, clean⟩ := r
      obtain ⟨⟨n, hn, h7⟩, -, hi7, hi10⟩ := readNotify_some hr
      constructor
      · rintro ⟨hraised, hmoved⟩
        -- An ill-formed job differs from the one in place.
        obtain ⟨l, rfl, hl⟩ : ∃ l, p = .list l ∧ JobForm l := by
          by_contra hf
          have hjob : b.job = some j := (hmoved hf).job.symm
          exact hf (form_of_readNotify hr (hb j hjob))
        refine .inr ⟨l, rfl, hl, intAt_list_iff.1 hi7, intAt_list_iff.1 hi10, ?_⟩
        by_contra hp
        dsimp only at hraised
        rw [if_neg hp] at hraised
        cases hraised
      · rintro (⟨n', hn', h7'⟩ | ⟨l, rfl, hl, -, -, hp⟩)
        · rw [hn] at hn'
          cases hn'
          omega
        · exact ⟨if_pos hp, fun hf => absurd ⟨l, rfl, hl⟩ hf⟩

/-- What `on_notify` leaves is sane when the job it reads has the form. -/
theorem onNotify_sane (hb : b.Sane) {p : Value} (hp : NotifyTolerated p) :
    (b.onNotify args p).1.Sane := by
  unfold Bridge.onNotify
  split
  · exact hb
  · exact hb
  · rename_i j clean hr
    obtain ⟨⟨n, hn, h7⟩, ⟨h0, h1, h2⟩, -⟩ := readNotify_some hr
    rcases hp with ⟨n', hn', h7'⟩ | ⟨l, rfl, hl, -⟩
    · rw [hn] at hn'
      cases hn'
      omega
    · have h0 := Value.item_list_iff.1 h0
      have h1 := Value.item_list_iff.1 h1
      have h2 := Value.item_list_iff.1 h2
      rintro _ ⟨⟩
      exact ((jobForm_iff h0 h1 h2).1 hl).2

end Notify

/-! ## The other branches -/

section Branches

variable {py : Python} {b : Bridge} {c : Counters}

theorem onSetTarget_safe_iff {p : Value} :
    HeardSafe b c ⟨(b.onSetTarget p).1, c, (b.onSetTarget p).2⟩
      (∃ v l, p = .list (v :: l) ∧ IsHex 64 v) ↔ TargetTolerated b p := by
  unfold Bridge.onSetTarget TargetTolerated
  cases hi : p.item 0 with
  | error e => exact iff_of_false (fun h => by cases h.1) (by rintro ⟨_, ⟨⟩, -⟩)
  | ok v =>
    constructor
    · rintro ⟨-, hmoved⟩
      refine ⟨v, rfl, ?_⟩
      by_cases hf : ∃ v l, p = .list (v :: l) ∧ IsHex 64 v
      · obtain ⟨w, l, rfl, hw⟩ := hf
        cases hi
        exact .inl hw
      · exact .inr (hmoved hf).shareTarget
    · rintro ⟨_, ⟨⟩, hv⟩
      refine ⟨rfl, fun hf => ?_⟩
      rcases hv with hv | hv
      · obtain ⟨l, rfl, hl⟩ := list_of_item_hex hi hv (by decide)
        cases l with
        | nil => cases hl
        | cons w l =>
          cases hl
          exact absurd ⟨v, l, rfl, hv⟩ hf
      · exact ⟨rfl, rfl, rfl, hv, rfl, rfl, rfl, rfl, rfl⟩

theorem Value.item_zero_dict {p : Value} {o : Members} (h : p.item 0 = .ok (.dict o)) :
    ∃ l, p = .list (.dict o :: l) := by
  cases p with
  | list l =>
    cases l with
    | nil => cases h
    | cons v l =>
      cases h
      exact ⟨l, rfl⟩
  | str s => cases s <;> cases h
  | none | bool | int | float | dict => cases h

theorem onSetModel_safe_iff {p : Value} :
    HeardSafe b c ⟨(b.onSetModel py p).1, c, (b.onSetModel py p).2⟩
      (∃ o l, p = .list (.dict o :: l) ∧ ModelForm o) ↔ ModelTolerated py b p := by
  unfold Bridge.onSetModel ModelTolerated
  cases hi : p.item 0 with
  | error e => exact iff_of_false (fun h => by cases h.1) (by rintro ⟨_, _, ⟨⟩, -⟩)
  | ok v =>
    cases v with
    | dict o =>
      obtain ⟨l, rfl⟩ := Value.item_zero_dict hi
      dsimp only
      cases hd : ((o.lookup (str "difficulty")).getD (.int b.difficulty)).asInt py with
      | error e =>
        refine iff_of_false (fun h => by cases h.1) ?_
        rintro ⟨_, z, ⟨⟩, hz, -⟩
        rw [hd] at hz
        cases hz
      | ok z =>
        constructor
        · rintro ⟨-, hmoved⟩
          refine ⟨o, z, rfl, hd, ?_⟩
          by_cases hf : ModelForm o
          · exact .inl hf
          · refine .inr (hmoved ?_).difficulty
            rintro ⟨_, _, ⟨⟩, hm⟩
            exact hf hm
        · rintro ⟨_, z', ⟨⟩, hz, hform⟩
          rw [hd] at hz
          cases hz
          refine ⟨rfl, fun hf => ?_⟩
          rcases hform with hm | hz
          · exact absurd ⟨o, l, rfl, hm⟩ hf
          · exact ⟨rfl, rfl, hz, rfl, rfl, rfl, rfl, rfl, rfl⟩
    | none | bool | int | float | str | list =>
      refine iff_of_false (fun h => by cases h.1) ?_
      rintro ⟨_, _, ⟨⟩, -⟩

theorem debug_total (c : Counters) :
    c.debug.accepted + c.debug.rejected + c.debug.stale = c.accepted + c.rejected + c.stale := by
  unfold Counters.debug
  split <;> rfl

/-- A reply to a submission is counted, whatever it says. -/
theorem submitReply_total (c : Counters) (o : Members) :
    (c.submitReply o).1.accepted + (c.submitReply o).1.rejected + (c.submitReply o).1.stale =
      c.accepted + c.rejected + c.stale + 1 := by
  have htotal := debug_total c
  unfold Counters.submitReply
  dsimp only
  split
  · dsimp only
    omega
  · split
    · dsimp only
      omega
    · dsimp only
      omega

theorem submitReply_ne (c : Counters) (o : Members) : (c.submitReply o).1 ≠ c := by
  intro heq
  have htotal := submitReply_total c o
  rw [heq] at htotal
  omega

theorem Value.printable_of_number {v : Value} (h : IsNumber v) : v.printable = true := by
  cases v with
  | str s => exact h.elim
  | none | bool | int | float | list | dict => rfl

/-- The code of a well-formed error prints, and so does the error. -/
theorem printable_of_errorForm {v : Value} (h : ErrorForm v) :
    (errorCode v).printable = true ∧ v.printable = true := by
  cases v with
  | dict o =>
    refine ⟨?_, rfl⟩
    unfold errorCode
    dsimp only
    cases hc : o.lookup (str "code") with
    | none => rfl
    | some w => exact Value.printable_of_number (h.1 w hc)
  | list l =>
    rcases l with _ | ⟨code, _ | ⟨message, l⟩⟩
    · exact h.elim
    · exact h.elim
    · exact ⟨Value.printable_of_number h.1, rfl⟩
  | none | bool | int | float | str => exact h.elim

theorem submitReply_returns {o : Members} (h : ReplyForm o) : (c.submitReply o).2 = none := by
  unfold Counters.submitReply
  dsimp only
  split
  · rfl
  · rename_i herr
    obtain ⟨hcode, hprint⟩ := printable_of_errorForm (h.error.resolve_left herr)
    split
    · rfl
    · rw [hcode, hprint]
      rfl

/-- The id of a submission is none of the handshake's. -/
theorem Value.eqNat_of_ge {v : Value} {n : Nat} (h : v.ge 3 = .ok true) (hn : n < 3) :
    v.eqNat n = false := by
  apply eq_false_of_ne_true
  intro heq
  cases v with
  | bool b =>
    cases b <;> cases h
  | int z =>
    have hz : (3 : Int) ≤ z := of_decide_eq_true (Except.ok.inj h)
    have hzn : z = n := beq_iff_eq.1 heq
    omega
  | float x =>
    cases x with
    | finite q =>
      have hq : ((3 : Nat) : Rat) ≤ q := of_decide_eq_true (Except.ok.inj h)
      have hqn : q = n := beq_iff_eq.1 heq
      rw [hqn] at hq
      have hle : 3 ≤ n := by exact_mod_cast hq
      omega
    | infinite negative => cases heq
    | nan => cases heq
  | none | str | list | dict => cases h

theorem Value.eqNat_unique {v : Value} {m n : Nat} (hm : v.eqNat m = true)
    (hn : v.eqNat n = true) : m = n := by
  cases v with
  | bool b => exact (beq_iff_eq.1 hm).symm.trans (beq_iff_eq.1 hn)
  | int z => exact Int.natCast_inj.1 ((beq_iff_eq.1 hm).symm.trans (beq_iff_eq.1 hn))
  | float x =>
    cases x with
    | finite q =>
      have hq : (m : Rat) = n := (beq_iff_eq.1 hm).symm.trans (beq_iff_eq.1 hn)
      exact_mod_cast hq
    | infinite | nan => cases hm
  | none | str | list | dict => cases hm

theorem printed_none_iff {v : Value} : Counters.printed v = none ↔ v.printable = true := by
  unfold Counters.printed
  split
  · rename_i h
    exact iff_of_true rfl h
  · rename_i h
    exact iff_of_false nofun h

theorem unmoved_refl (b : Bridge) (c : Counters) : Unmoved b c b c :=
  ⟨rfl, rfl, rfl, rfl, rfl, rfl, rfl, rfl, rfl⟩

theorem field_id_of_ge {o : Members}
    (h : ((o.lookup (str "id")).getD (.int 0)).ge 3 = .ok true) :
    field o "id" = (o.lookup (str "id")).getD (.int 0) := by
  unfold field
  cases hid : o.lookup (str "id") with
  | none =>
    rw [hid] at h
    cases h
  | some v => rfl

/-- The two replies of the handshake raise nothing when what is printed of them prints. -/
theorem handshake_returns_iff {o : Members} :
    (if (field o "id").eqNat 1 then (c, Counters.printed ((field o "result").head 80))
      else if (field o "id").eqNat 2 then (c, Counters.printed (field o "result"))
      else (c, none)).2 = none ↔
      ((field o "id").eqNat 1 = true → ((field o "result").head 80).printable = true) ∧
        ((field o "id").eqNat 2 = true → (field o "result").printable = true) := by
  have hdisjoint : (field o "id").eqNat 1 = true → (field o "id").eqNat 2 = false := fun h1 =>
    eq_false_of_ne_true fun h2 => absurd (Value.eqNat_unique h1 h2) (by decide)
  split
  · rename_i h1
    rw [printed_none_iff, imp_iff_right h1, hdisjoint h1]
    exact (and_iff_left nofun).symm
  · rename_i h1
    split
    · rename_i h2
      rw [printed_none_iff, imp_iff_right h2]
      exact (and_iff_right fun h => absurd h h1).symm
    · rename_i h2
      exact iff_of_true rfl ⟨fun h => absurd h h1, fun h => absurd h h2⟩

/-- The reply branches are safe when a message they count is a reply. -/
theorem onReply_safe_iff {o : Members} {form : Prop}
    (hform : (hasField o "result" || hasField o "error") = true →
      (form ↔ field o "method" = .none ∧ ReplyForm o)) :
    HeardSafe b c ⟨b, (c.onReply o).1, (c.onReply o).2⟩ form ↔ ReplyTolerated o := by
  unfold Counters.onReply
  cases hid : ((o.lookup (str "id")).getD (.int 0)).ge 3 with
  | error e =>
    refine iff_of_false (fun h => by cases h.1) fun h => ?_
    obtain ⟨high, hhigh⟩ := h.id
    rw [hid] at hhigh
    cases hhigh
  | ok high =>
    dsimp only
    by_cases hcount : (high && (hasField o "result" || hasField o "error")) = true
    · obtain ⟨rfl, hhas⟩ := Bool.and_eq_true_iff.1 hcount
      have hfield := field_id_of_ge hid
      rw [if_pos hcount]
      constructor
      · rintro ⟨-, hmoved⟩
        have hf : form := by
          by_contra hf
          exact submitReply_ne c o (hmoved hf).counters
        refine ⟨⟨true, hid⟩, fun _ _ => (hform hhas).1 hf, fun h1 => ?_, fun h2 => ?_⟩
        · rw [hfield, Value.eqNat_of_ge hid (by decide)] at h1
          cases h1
        · rw [hfield, Value.eqNat_of_ge hid (by decide)] at h2
          cases h2
      · intro h
        have hreply := h.submission hid hhas
        exact ⟨submitReply_returns hreply.2, fun hf => absurd ((hform hhas).2 hreply) hf⟩
    · rw [if_neg hcount]
      have hsame : ∀ {x y : Option Raised}, (if (field o "id").eqNat 1 then (c, x)
          else if (field o "id").eqNat 2 then (c, y) else (c, none)).1 = c := by
        intro x y
        split
        · rfl
        · split <;> rfl
      constructor
      · rintro ⟨hraised, -⟩
        obtain ⟨h1, h2⟩ := handshake_returns_iff.1 hraised
        refine ⟨⟨high, hid⟩, fun hge hhas => ?_, h1, h2⟩
        rw [hid] at hge
        cases hge
        exact absurd (by rw [hhas]; rfl) hcount
      · intro h
        refine ⟨handshake_returns_iff.2 ⟨h.subscribed, h.authorized⟩, fun _ => ?_⟩
        dsimp only
        rw [hsame]
        exact unmoved_refl b c

end Branches

/-! ## The handler -/

theorem lookup_list_iff {o : Members} {key : String} {l : List Value} :
    o.lookup (str key) = some (.list l) ↔ field o key = .list l := by
  unfold field
  cases o.lookup (str key) with
  | none => exact iff_of_false nofun nofun
  | some w => exact ⟨fun h => by cases h; rfl, fun h => by cases h; rfl⟩

theorem wellFormed_iff {o : Members} {method : Str} (hm : field o "method" = .str method) :
    WellFormed (.dict o) ↔ NotificationForm o method := by
  constructor
  · rintro ⟨_, ⟨⟩, ⟨hnone, -⟩ | ⟨m', hm', h⟩⟩
    · rw [hm] at hnone
      cases hnone
    · rw [hm] at hm'
      cases hm'
      exact h
  · exact fun h => ⟨o, rfl, .inr ⟨method, hm, h⟩⟩

theorem form_notify {o : Members} {p : Value} (hp : o.lookup (str "params") = some p) :
    NotificationForm o (str "mining.notify") ↔ ∃ l, p = .list l ∧ JobForm l := by
  constructor
  · rintro (⟨-, l, hl, h⟩ | ⟨h, -⟩ | ⟨h, -⟩ | h | ⟨h | h, -⟩)
    · rw [hp] at hl
      cases hl
      exact ⟨l, rfl, h⟩
    all_goals exact absurd h (by decide)
  · rintro ⟨l, rfl, h⟩
    exact .inl ⟨rfl, l, hp, h⟩

theorem form_setTarget {o : Members} : NotificationForm o (str "mining.set_target") ↔
    ∃ v l, field o "params" = .list (v :: l) ∧ IsHex 64 v := by
  constructor
  · rintro (⟨h, -⟩ | ⟨-, v, l, hl, h⟩ | ⟨h, -⟩ | h | ⟨h | h, -⟩)
    · exact absurd h (by decide)
    · exact ⟨v, l, lookup_list_iff.1 hl, h⟩
    all_goals exact absurd h (by decide)
  · rintro ⟨v, l, hl, h⟩
    exact .inr (.inl ⟨rfl, v, l, lookup_list_iff.2 hl, h⟩)

theorem form_setModel {o : Members} : NotificationForm o (str "mining.set_model") ↔
    ∃ p l, field o "params" = .list (.dict p :: l) ∧ ModelForm p := by
  constructor
  · rintro (⟨h, -⟩ | ⟨h, -⟩ | ⟨-, p, l, hl, h⟩ | h | ⟨h | h, -⟩)
    · exact absurd h (by decide)
    · exact absurd h (by decide)
    · exact ⟨p, l, lookup_list_iff.1 hl, h⟩
    all_goals exact absurd h (by decide)
  · rintro ⟨p, l, hl, h⟩
    exact .inr (.inr (.inl ⟨rfl, p, l, lookup_list_iff.2 hl, h⟩))

/-- What reaches the last branches and is counted is well-formed as a reply only. -/
theorem wellFormed_reply_iff {o : Members}
    (hnotify : ¬ (field o "method").eqStr "mining.notify" = true)
    (htarget : ¬ ((field o "method").eqStr "mining.set_target" && (field o "params").truthy) = true)
    (hmodel : ¬ ((field o "method").eqStr "mining.set_model" && (field o "params").truthy) = true)
    (hping : ¬ (field o "method").eqStr "mining.ping" = true)
    (hhas : (hasField o "result" || hasField o "error") = true) :
    WellFormed (.dict o) ↔ field o "method" = .none ∧ ReplyForm o := by
  constructor
  · rintro ⟨_, ⟨⟩, h | ⟨method, hm, h⟩⟩
    · exact h
    · exfalso
      rcases h with ⟨rfl, -⟩ | ⟨rfl, v, l, hl, -⟩ | ⟨rfl, p, l, hl, -⟩ | rfl | ⟨-, hr, he⟩
      · exact hnotify (Value.eqStr_iff.2 hm)
      · refine htarget ?_
        rw [Value.eqStr_iff.2 hm, lookup_list_iff.1 hl]
        rfl
      · refine hmodel ?_
        rw [Value.eqStr_iff.2 hm, lookup_list_iff.1 hl]
        rfl
      · exact hping (Value.eqStr_iff.2 hm)
      · rw [hr, he] at hhas
        cases hhas
  · exact fun h => ⟨o, rfl, .inl h⟩

/-- **A message raises nothing, and has no effect unless it is well-formed, exactly when it is
tolerated.** -/
theorem onMessage_safe_iff {args : Args} {py : Python} {b : Bridge} {c : Counters} {m : Value}
    {written : Bool} (hb : b.Sane) :
    HeardSafe b c (b.onMessage args py c m written) (WellFormed m) ↔ Tolerated py b m := by
  cases m with
  | dict o =>
    unfold Bridge.onMessage Bridge.onMembers Tolerated
    dsimp only
    simp only [Value.dict.injEq, exists_eq_left']
    split
    · rename_i hm
      have hmethod := Value.eqStr_iff.1 hm
      cases hp : o.lookup (str "params") with
      | none => exact iff_of_false (fun h => by cases h.1) (by rintro ⟨_, ⟨⟩, -⟩)
      | some p =>
        simp only [Option.some.injEq, exists_eq_left']
        rw [wellFormed_iff hmethod, form_notify hp]
        exact onNotify_safe_iff hb
    rename_i hnotify
    split
    · rename_i hm
      have hmethod := Value.eqStr_iff.1 (Bool.and_eq_true_iff.1 hm).1
      rw [wellFormed_iff hmethod, form_setTarget]
      exact onSetTarget_safe_iff
    rename_i htarget
    split
    · rename_i hm
      have hmethod := Value.eqStr_iff.1 (Bool.and_eq_true_iff.1 hm).1
      rw [wellFormed_iff hmethod, form_setModel]
      exact onSetModel_safe_iff
    rename_i hmodel
    split
    · rename_i hping
      have hmethod := Value.eqStr_iff.1 hping
      refine iff_of_true ⟨rfl, fun hf => absurd ?_ hf⟩ (.inl hping)
      exact (wellFormed_iff hmethod).2 (.inr (.inr (.inr (.inl rfl))))
    · rename_i hping
      rw [or_iff_right hping]
      exact onReply_safe_iff (wellFormed_reply_iff hnotify htarget hmodel hping)
  | none | bool | int | float | str | list =>
    exact iff_of_false (fun h => by cases h.1) (by rintro ⟨_, ⟨⟩, -⟩)

/-- No branch but that of a job touches the job. -/
theorem onMessage_sane {args : Args} {py : Python} {b : Bridge} {c : Counters} {m : Value}
    {written : Bool} (hb : b.Sane) (hm : Tolerated py b m) :
    (b.onMessage args py c m written).bridge.Sane := by
  obtain ⟨o, rfl, hm⟩ := hm
  unfold Bridge.onMessage Bridge.onMembers
  dsimp only
  split
  · rename_i hnotify
    rw [if_pos hnotify] at hm
    obtain ⟨p, hp, hp'⟩ := hm
    rw [hp]
    exact onNotify_sane hb hp'
  split
  · unfold Bridge.onSetTarget
    split <;> exact hb
  split
  · unfold Bridge.onSetModel
    dsimp only
    split
    · exact hb
    · split
      · split <;> exact hb
      · exact hb
  split
  · unfold Bridge.send
    split
    · exact hb
    · split <;> exact hb
  · exact hb

/-! ## Runs -/

section Runs

variable {args : Args} {py : Python} {loads : List UInt8 → Option Value}

/-- The supervisor runs, and the job in place has the form. -/
structure Listener.Sane (s : Listener) : Prop where
  alive : s.service.alive = true
  bridge : s.service.bridge.Sane

/-- What `reader` makes of a line. -/
theorem readLine_eq {s : Listener} (hs : s.Sane) {l : List UInt8} {m : Value} {written : Bool}
    (hm : loads l = some m) :
    s.readLine args py loads l written =
      some {
        service := { s.service with
          bridge := (s.service.bridge.onMessage args py s.counters m written).bridge
          alive := (s.service.bridge.onMessage args py s.counters m written).raised.isNone }
        counters := (s.service.bridge.onMessage args py s.counters m written).counters } := by
  unfold Listener.readLine
  rw [if_neg (by rw [hs.alive]; decide), hm]

theorem readLine_skips {s : Listener} (hs : s.Sane) {l : List UInt8} {written : Bool}
    (hm : loads l = none) : s.readLine args py loads l written = some s := by
  unfold Listener.readLine
  rw [if_neg (by rw [hs.alive]; decide), hm]

theorem reader_safe_iff {s : Listener} (hs : s.Sane) {e : ListenerEvent} :
    LineSafe args py loads s e ↔ LineTolerated py loads s e := by
  cases e with
  | other e => exact Iff.rfl
  | line l written =>
    unfold LineSafe LineTolerated
    dsimp only
    cases hm : loads l with
    | none =>
      rw [readLine_skips hs hm]
      refine iff_of_true ⟨s, rfl, hs.alive, fun _ => ?_⟩ nofun
      exact unmoved_refl _ _
    | some m =>
      rw [readLine_eq hs hm]
      simp only [Option.some.injEq, exists_eq_left', forall_eq']
      rw [← @onMessage_safe_iff args py _ s.counters m written hs.bridge]
      unfold HeardSafe
      rw [Option.isNone_iff_eq_none]

theorem other_keeps {v v' : Service} {e : ServiceEvent} (he : e.isMessage = false)
    (h : v.step args e = some v') : v'.alive = v.alive ∧ v'.bridge.job = v.bridge.job := by
  cases e with
  | notify | setTarget | setModel => cases he
  | connection up =>
    unfold Service.step at h
    dsimp only at h
    split at h <;> cases h
    exact ⟨rfl, rfl⟩
  | dispatch =>
    obtain ⟨j, -, rfl⟩ := Option.map_eq_some_iff.1 h
    exact ⟨rfl, rfl⟩
  | emit i blob =>
    unfold Service.step Service.emit at h
    dsimp only at h
    split at h
    · cases h
    · split at h <;> cases h <;> exact ⟨rfl, rfl⟩
  | complete i =>
    unfold Service.step at h
    dsimp only at h
    split at h <;> cases h
    exact ⟨rfl, rfl⟩
  | drain i written =>
    unfold Service.step Service.drain at h
    dsimp only at h
    split at h <;> cases h
    exact ⟨rfl, (Bridge.submitProof_spec args v.bridge _ written).1⟩

theorem step_sane {s s' : Listener} {e : ListenerEvent} (hs : s.Sane)
    (he : LineSafe args py loads s e) (h : s.step args py loads e = some s') : s'.Sane := by
  cases e with
  | line l written =>
    have htol := (reader_safe_iff hs).1 he
    obtain ⟨t, ht, halive, -⟩ := he
    obtain rfl : t = s' := Option.some.inj (ht.symm.trans h)
    refine ⟨halive, ?_⟩
    cases hm : loads l with
    | none =>
      rw [readLine_skips hs hm] at ht
      cases ht
      exact hs.bridge
    | some m =>
      rw [readLine_eq hs hm] at ht
      cases ht
      exact onMessage_sane hs.bridge (htol m hm)
  | other e =>
    unfold Listener.step at h
    dsimp only at h
    split at h
    · cases h
    rename_i hmsg
    obtain ⟨v, hv, rfl⟩ := Option.map_eq_some_iff.1 h
    -- The other threads leave the job and the supervisor alone.
    have hkeep := other_keeps (eq_false_of_ne_true hmsg) hv
    refine ⟨hkeep.1.trans hs.alive, ?_⟩
    intro j hj
    exact hs.bridge j (hkeep.2 ▸ hj)

/-- **Exactly in the runs whose lines are all tolerated does every line leave the supervisor
running, and every ill-formed one the jobs, the targets and the counters as they are.** -/
theorem bridge_lines_safe_iff (args : Args) (py : Python) (loads : List UInt8 → Option Value)
    (es : List ListenerEvent) :
    (listenerMachine args py loads).Guarded (LineSafe args py loads)
        (listenerMachine args py loads).init es ↔
      (listenerMachine args py loads).Guarded (LineTolerated py loads)
        (listenerMachine args py loads).init es :=
  (listenerMachine args py loads).guarded_congr_of_kept (fun _ _ _ hs he h => step_sane hs he h)
    (fun _ _ hs => reader_safe_iff hs) ⟨rfl, nofun⟩

end Runs

/-- A notification with the id that some pools send, `null`. -/
def nullId : Value :=
  .dict [(str "id", .none), (str "method", .str (str "mining.set_extranonce")),
    (str "params", .list [.str (str "a1b2c3d5"), .int 4])]

/-- A job without a header. -/
def emptyJob : Value :=
  .dict [(str "method", .str (str "mining.notify")),
    (str "params", .list (.str (str "job-1") :: List.replicate 6 (.str [])))]

theorem emptyJob_ill_formed : ¬ WellFormed emptyJob := by
  unfold emptyJob
  rw [wellFormed_iff rfl, form_notify rfl]
  rintro ⟨l, ⟨⟩, -, hfields⟩
  obtain ⟨s, ⟨⟩, hlen, -⟩ := hfields.headerPrefix
  exact absurd hlen (by decide)

def plainArgs : Args where
  sha256d := id

def plainPython : Python where
  digit c := if 48 ≤ c ∧ c ≤ 57 then some (c - 48) else none
  space c := c = 32 || (9 ≤ c && c ≤ 13)
  repr _ := []

/-- An ASCII literal, as bytes. -/
def ascii (s : String) : List UInt8 := (str s).map UInt8.ofNat

def nullIdLine : List UInt8 :=
  ascii ("\x7b\"id\":null,\"method\":\"mining.set_extranonce\"," ++
    "\"params\":[\"a1b2c3d5\",4]\x7d\n")

def emptyJobLine : List UInt8 :=
  ascii ("\x7b\"method\":\"mining.notify\"," ++
    "\"params\":[\"job-1\",\"\",\"\",\"\",\"\",\"\",\"\"]\x7d\n")

/-- `json.loads` on these lines. -/
def loadsLine (l : List UInt8) : Option Value :=
  if l = nullIdLine then some nullId else if l = emptyJobLine then some emptyJob else none

/-- The first line ends the supervisor, the second replaces the job. -/
theorem bridge_lines_unsafe :
    ¬ (listenerMachine plainArgs plainPython loadsLine).Guarded
        (LineSafe plainArgs plainPython loadsLine) {} [.line nullIdLine true] ∧
      ¬ (listenerMachine plainArgs plainPython loadsLine).Guarded
        (LineSafe plainArgs plainPython loadsLine) {} [.line emptyJobLine true] := by
  have hnull : loadsLine nullIdLine = some nullId := if_pos rfl
  have hempty : loadsLine emptyJobLine = some emptyJob := by
    have hne : emptyJobLine ≠ nullIdLine := by decide +kernel
    unfold loadsLine
    rw [if_neg hne, if_pos rfl]
  have hsane : Listener.Sane {} := ⟨rfl, nofun⟩
  constructor
  · rintro ⟨⟨s', hs, halive, -⟩, -⟩
    rw [readLine_eq hsane hnull] at hs
    cases hs
    exact absurd halive (by decide)
  · rintro ⟨⟨s', hs, -, hmoved⟩, -⟩
    rw [readLine_eq hsane hempty] at hs
    cases hs
    have hill : ¬ ∃ m, loadsLine emptyJobLine = some m ∧ WellFormed m := by
      rintro ⟨m, hm, hformed⟩
      rw [hempty] at hm
      cases hm
      exact emptyJob_ill_formed hformed
    cases (hmoved hill).job

end Vllm
