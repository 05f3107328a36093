import SuprMeow.Stratum.Json

/-!
# What the pool sends

`handle_line` on any line.  Only the call of `json::parse` stands in a `try`; whatever a later
access throws leaves `run`, and no one catches it there.  The parser is a parameter: it either
builds a value or throws a text.  The callbacks do not throw.

* `line_safe_iff` — the lines that are safe to receive, by the shape of the parsed value;
* `line_kills` — two lines that are not.
-/

set_option autoImplicit false

namespace Stratum

open Json (entry toU32 toU64)

/-! ## Data -/

structure PoolJob where
  jobId : Bytes := []
  headerPrefix : Bytes := []
  blockTarget : Bytes := []
  shareTarget : Bytes := []
  nbits : Nat := 0
  height : Nat := 0
  expiresAt : Nat := 0
  requestId : Nat := 0
  promptSeed : Bytes := []
  poolVdf : Bytes := []
  poolVdfTick : Nat := 0
  clean : Bool := false
  valid : Bool := false
  deriving DecidableEq

structure PoolModel where
  name : Bytes := []
  commit : Bytes := []
  modelHash : Bytes := []
  precision : Bytes := []
  difficulty : Nat := 0
  normalizer : Nat := 1000000
  valid : Bool := false
  deriving DecidableEq

/-- `StratumCallbacks`, called. -/
inductive Callback where
  | onModel (md : PoolModel)
  | onTarget (t : Bytes)
  | onJob (j : PoolJob)
  | onSubmitResult (r : SubmitResult)
  | onLog (msg : Bytes)
  deriving DecidableEq

def Callback.isLog : Callback → Bool
  | .onLog _ => true
  | _ => false

/-- The client and `share_target_`. -/
structure Reader where
  client : Client
  shareTarget : Bytes := []
  deriving DecidableEq

/-- What `handle_line` did: the fields after it, the callbacks it made, the line it sent. -/
structure Handled where
  reader : Reader
  calls : List Callback := []
  send : Option Request := none
  deriving DecidableEq

/-! ## Notifications -/

def isHexDigit (b : UInt8) : Bool :=
  (48 ≤ b && b ≤ 57) || (97 ≤ b && b ≤ 102) || (65 ≤ b && b ≤ 70)

/-- A pool-issued VDF; a malformed one is treated as absent. -/
def vdfOrAbsent (v : Bytes) : Bytes :=
  if v ≠ [] ∧ v.length % 2 = 0 ∧ v.all isHexDigit then v else []

/-- A prompt seed; one of another length is treated as absent. -/
def seedOrAbsent (s : Bytes) : Bytes := if s.length = 64 then s else []

/-- The fields of a `mining.notify` with at least seven parameters. -/
def readJob (shareTarget : Bytes) (p : List Json) : Except TypeError PoolJob :=
  match (entry p 0).getString, (entry p 1).getString, (entry p 2).getString with
  | .ok jobId, .ok headerPrefix, .ok blockTarget =>
    .ok {
      jobId, headerPrefix, blockTarget, shareTarget
      nbits := ((entry p 3).number?.map toU32).getD 0
      height := ((entry p 4).number?.map toU64).getD 0
      expiresAt := ((entry p 5).number?.map toU64).getD 0
      clean := (entry p 6).boolean?.getD true
      requestId := if 7 < p.length then ((entry p 7).number?.map toU64).getD 0 else 0
      promptSeed := if 8 < p.length then ((entry p 8).string?.map seedOrAbsent).getD [] else []
      poolVdf := if 9 < p.length then ((entry p 9).string?.map vdfOrAbsent).getD [] else []
      poolVdfTick := if 10 < p.length then (entry p 10).unsigned?.getD 0 else 0 }
  | .error e, _, _ => .error e
  | _, .error e, _ => .error e
  | _, _, .error e => .error e

def readModel (o : Json) : Except TypeError PoolModel := do
  let name ← o.value Json.getString (text "name") []
  let commit ← o.value Json.getString (text "commit") []
  let modelHash ← o.value Json.getString (text "model_hash") []
  let precision ← o.value Json.getString (text "precision") (text "bf16")
  let difficulty ← o.value Json.getU64 (text "difficulty") 0
  let normalizer ← o.value Json.getU64 (text "normalizer") 1000000
  return { name, commit, modelHash, precision, difficulty, normalizer, valid := name != [] }

/-- `p`.  Every use of it asks first for an array that is not empty. -/
def paramsOf (m : Json) : List Json := ((m.member? (text "params")).bind Json.elements?).getD []

namespace Reader

def handleNotify (c : Reader) (p : List Json) : Except TypeError Handled :=
  (readJob c.shareTarget p).map fun j =>
    if j.headerPrefix.length ≠ 152 then
      { reader := c
        calls := [.onLog (text
          "pool sent a malformed job (header_prefix must be 152 hex chars) — ignoring")] }
    else { reader := c, calls := [.onJob { j with valid := true }] }

def handleSetTarget (c : Reader) (p : List Json) : Except TypeError Handled :=
  (entry p 0).getString.map fun t =>
    { reader := { c with shareTarget := t }, calls := [.onTarget t] }

def handleSetModel (c : Reader) (p : List Json) : Except TypeError Handled :=
  (readModel (entry p 0)).map fun md => { reader := c, calls := [.onModel md] }

def handleNotification (c : Reader) (m : Json) (method : Bytes) : Except TypeError Handled :=
  let p := paramsOf m
  if method = text "mining.notify" ∧ 7 ≤ p.length then c.handleNotify p
  else if method = text "mining.set_target" ∧ p ≠ [] then c.handleSetTarget p
  else if method = text "mining.set_model" ∧ p ≠ [] ∧ (entry p 0).isObject then c.handleSetModel p
  else if method = text "mining.ping" then
    .ok { reader := c, send := some (.pong ((m.member? (text "id")).getD .null).dump) }
  else if method = text "mining.set_extranonce" ∨ method = text "mining.pong" then
    .ok { reader := c }
  else .ok { reader := c, calls := [.onLog (text "unhandled notification: " ++ method)] }

end Reader

/-! ## Replies -/

/-- The `error` member as `handle_line` reads it. -/
def readError (e : Json) : Except TypeError PoolError :=
  if e.isObject then do
    let code ← e.value Json.getInt (text "code") 20
    let message ← e.value Json.getString (text "message") []
    return .object code message
  else
    match e.elements? with
    | some l =>
      if 2 ≤ l.length then do
        let code ← (entry l 0).getInt
        let message ← (entry l 1).getString
        return .array code message
      else .ok .other
    | none => .ok .other

/-- `authorize` failed, as far as the reply says. -/
def refusal (m : Json) : Bool :=
  (m.present? (text "error")).isSome ||
    ((m.member? (text "result")).bind Json.boolean?) == some false

namespace Reader

/-- A reply to a submit. -/
def handleShare (c : Reader) (id : Nat) (err : Option PoolError) : Handled :=
  let r := c.client.shareResult id err
  { reader := { c with client := r.1 }, calls := [.onSubmitResult r.2] }

def handleResponse (c : Reader) (m : Json) : Except TypeError Handled :=
  match m.value Json.getU64 (text "id") 0 with
  | .error e => .error e
  | .ok id =>
    if id = 1 then
      .ok { reader := c
            calls := [.onLog (if (m.present? (text "error")).isSome then
              text "subscribe rejected by pool" else text "subscribed")] }
    else if id = 2 then
      .ok { reader := c
            calls := [.onLog (if refusal m then
              text "AUTHORIZATION FAILED — check -u (wallet address)"
              else text "authorized as " ++ c.client.user)] }
    else
      match m.present? (text "error") with
      | none => .ok (c.handleShare id none)
      | some e => (readError e).map fun err => c.handleShare id (some err)

def handleMessage (c : Reader) (m : Json) : Except TypeError Handled :=
  match m.present? (text "method") with
  | some v =>
    match v.getString with
    | .ok method => c.handleNotification m method
    | .error e => .error e
  | none => c.handleResponse m

/-- `handle_line`. -/
def handleLine (parse : Bytes → Except Bytes Json) (c : Reader) (line : Bytes) :
    Except TypeError Handled :=
  match parse line with
  | .error what =>
    .ok { reader := c, calls := [.onLog (text "bad JSON from pool: " ++ what)] }
  | .ok m => c.handleMessage m

end Reader

/-! ## Specification -/

/-- `n` hexadecimal digits. -/
def IsHex (n : Nat) (j : Json) : Prop :=
  ∃ s, j = .string s ∧ s.length = n ∧ s.all isHexDigit = true

/-- The parameters of a `mining.notify`; those after the third have a default in `handle_line`. -/
structure JobForm (p : List Json) : Prop where
  size : 7 ≤ p.length
  jobId : ∃ s, entry p 0 = .string s
  headerPrefix : IsHex 152 (entry p 1)
  blockTarget : IsHex 64 (entry p 2)

/-- The parameters of a `mining.set_target`. -/
structure TargetForm (p : List Json) : Prop where
  size : p ≠ []
  target : IsHex 64 (entry p 0)

/-- The members of a model; each has a default in `handle_line`. -/
structure ModelForm (o : Json) : Prop where
  object : o.isObject = true
  strings : ∀ key ∈ [text "name", text "commit", text "model_hash", text "precision"],
    ∀ v, o.member? key = some v → ∃ s, v = .string s
  numbers : ∀ key ∈ [text "difficulty", text "normalizer"],
    ∀ v, o.member? key = some v → ∃ z, v.number? = some z

/-- An error: an object with a code and a message, or the two in an array. -/
def ErrorForm (e : Json) : Prop :=
  (e.isObject = true ∧ (∀ v, e.member? (text "code") = some v → ∃ z, v.number? = some z) ∧
    ∀ v, e.member? (text "message") = some v → ∃ s, v = .string s) ∨
  ∃ l, e = .array l ∧ 2 ≤ l.length ∧ (∃ z, (entry l 0).number? = some z) ∧
    ∃ s, entry l 1 = .string s

/-- A reply names the request and carries an error or a result. -/
structure ReplyForm (m : Json) : Prop where
  id : ∃ v z, m.member? (text "id") = some v ∧ v.number? = some z
  error : ∀ e, m.present? (text "error") = some e → ErrorForm e
  result : m.present? (text "error") = none → ∃ r, m.member? (text "result") = some r

/-- A well-formed notification of a known method. -/
def NotificationForm (p : List Json) (method : Bytes) : Prop :=
  (method = text "mining.notify" ∧ JobForm p) ∨
  (method = text "mining.set_target" ∧ TargetForm p) ∨
  (method = text "mining.set_model" ∧ p ≠ [] ∧ ModelForm (entry p 0)) ∨
  method = text "mining.ping" ∨ method = text "mining.set_extranonce" ∨ method = text "mining.pong"

/-- A message the protocol knows. -/
def WellFormed (m : Json) : Prop :=
  match m.present? (text "method") with
  | some v => ∃ method, v = .string method ∧ NotificationForm (paramsOf m) method
  | none => ReplyForm m

/-- Nothing but a log line came of it. -/
structure Untouched (c : Reader) (o : Handled) : Prop where
  stats : o.reader.client.stats = c.client.stats
  shareTarget : o.reader.shareTarget = c.shareTarget
  pendingTags : o.reader.client.pendingTags = c.client.pendingTags
  calls : ∀ call ∈ o.calls, call.isLog = true

/-- The handler returns, and does nothing unless the message is as it should be. -/
def Safe (c : Reader) (r : Except TypeError Handled) (form : Prop) : Prop :=
  ∃ o, r = .ok o ∧ (¬ form → Untouched c o)

/-- **`handle_line` returns, and only a well-formed message has an effect.** -/
def LineSafe (parse : Bytes → Except Bytes Json) (c : Reader) (line : Bytes) : Prop :=
  Safe c (c.handleLine parse line) (∃ m, parse line = .ok m ∧ WellFormed m)

/-! ## The lines that are safe -/

/-- Three strings, and with a header of 152 characters the header and the target are hexadecimal. -/
structure JobTolerated (p : List Json) : Prop where
  strings : ∀ i < 3, ∃ s, entry p i = .string s
  header : ∀ s, entry p 1 = .string s → s.length = 152 →
    IsHex 152 (entry p 1) ∧ IsHex 64 (entry p 2)

/-- The id is a number, and unless it is 1 or 2 the reply is well-formed. -/
def ReplyTolerated (m : Json) : Prop :=
  ∃ v z, m.member? (text "id") = some v ∧ v.number? = some z ∧
    (toU64 z = 1 ∨ toU64 z = 2 ∨ ReplyForm m)

/-- For each method whose parameters are read, they are of the right type. -/
structure NotificationTolerated (p : List Json) (method : Bytes) : Prop where
  notify : method = text "mining.notify" → 7 ≤ p.length → JobTolerated p
  setTarget : method = text "mining.set_target" → p ≠ [] → IsHex 64 (entry p 0)
  setModel : method = text "mining.set_model" → p ≠ [] → (entry p 0).isObject = true →
    ModelForm (entry p 0)

/-- An object whose method, if any, is a string, and whose other members are of the type they are
read as. -/
def Tolerated (m : Json) : Prop :=
  m.isObject = true ∧
  match m.present? (text "method") with
  | some v => ∃ method, v = .string method ∧ NotificationTolerated (paramsOf m) method
  | none => ReplyTolerated m

/-! ## Handlers -/

theorem safe_error {c : Reader} {e : TypeError} {form : Prop} : ¬ Safe c (.error e) form := by
  rintro ⟨o, ho, -⟩
  cases ho

theorem safe_ok {c : Reader} {o : Handled} {form : Prop} :
    Safe c (.ok o) form ↔ (¬ form → Untouched c o) := by
  constructor
  · rintro ⟨o', ho, h⟩
    cases ho
    exact h
  · exact fun h => ⟨o, rfl, h⟩

theorem untouched_log (c : Reader) (msg : Bytes) :
    Untouched c { reader := c, calls := [.onLog msg] } :=
  ⟨rfl, rfl, rfl, by simp [Callback.isLog]⟩

theorem readJob_strings {t : Bytes} {p : List Json} {j : PoolJob} (h : readJob t p = .ok j) :
    (∃ s, entry p 0 = .string s) ∧ entry p 1 = .string j.headerPrefix ∧
      ∃ s, entry p 2 = .string s := by
  unfold readJob at h
  split at h
  · rename_i s0 s1 s2 h0 h1 h2
    cases h
    exact ⟨⟨s0, Json.getString_eq_ok.1 h0⟩, Json.getString_eq_ok.1 h1, s2,
      Json.getString_eq_ok.1 h2⟩
  · cases h
  · cases h
  · cases h

theorem readJob_returns {t s0 s1 s2 : Bytes} {p : List Json} (h0 : entry p 0 = .string s0)
    (h1 : entry p 1 = .string s1) (h2 : entry p 2 = .string s2) :
    ∃ j, readJob t p = .ok j ∧ j.headerPrefix = s1 := by
  unfold readJob
  rw [Json.getString_eq_ok.2 h0, Json.getString_eq_ok.2 h1, Json.getString_eq_ok.2 h2]
  exact ⟨_, rfl, rfl⟩

theorem handleNotify_safe_iff {c : Reader} {p : List Json} (hp : 7 ≤ p.length) :
    Safe c (c.handleNotify p) (JobForm p) ↔ JobTolerated p := by
  unfold Reader.handleNotify
  constructor
  · rintro ⟨o, ho, hu⟩
    obtain ⟨j, hj, rfl⟩ := Fallible.map_ok.1 ho
    obtain ⟨h0, h1, h2⟩ := readJob_strings hj
    refine ⟨fun i hi => ?_, fun s hs hlen => ?_⟩
    · obtain rfl | rfl | rfl : i = 0 ∨ i = 1 ∨ i = 2 := by omega
      · exact h0
      · exact ⟨_, h1⟩
      · exact h2
    · have hs' : j.headerPrefix = s := by rw [h1] at hs; exact Json.string.inj hs
      by_cases hf : JobForm p
      · exact ⟨hf.headerPrefix, hf.blockTarget⟩
      · have := (hu hf).calls (.onJob { j with valid := true })
        simp [hs', hlen, Callback.isLog] at this
  · rintro ⟨hstr, hhex⟩
    obtain ⟨s0, h0⟩ := hstr 0 (by omega)
    obtain ⟨s1, h1⟩ := hstr 1 (by omega)
    obtain ⟨s2, h2⟩ := hstr 2 (by omega)
    obtain ⟨j, hj, hjp⟩ := readJob_returns (t := c.shareTarget) h0 h1 h2
    refine ⟨_, Fallible.map_ok.2 ⟨j, hj, rfl⟩, fun hf => ?_⟩
    rw [hjp]
    split
    · exact untouched_log c _
    · rename_i hlen
      obtain ⟨ha, hb⟩ := hhex s1 h1 (by omega)
      exact absurd ⟨hp, ⟨s0, h0⟩, ha, hb⟩ hf

theorem handleSetTarget_safe_iff {c : Reader} {p : List Json} (hp : p ≠ []) :
    Safe c (c.handleSetTarget p) (TargetForm p) ↔ IsHex 64 (entry p 0) := by
  unfold Reader.handleSetTarget
  constructor
  · rintro ⟨o, ho, hu⟩
    obtain ⟨t, ht, rfl⟩ := Fallible.map_ok.1 ho
    by_contra hf
    have := (hu fun h => hf h.target).calls (.onTarget t)
    simp [Callback.isLog] at this
  · rintro ⟨s, hs, hlen, hall⟩
    refine ⟨_, Fallible.map_ok.2 ⟨s, Json.getString_eq_ok.2 hs, rfl⟩, fun hf => ?_⟩
    exact absurd ⟨hp, s, hs, hlen, hall⟩ hf

theorem readModel_returns_iff {o : Json} : (∃ md, readModel o = .ok md) ↔ ModelForm o := by
  have hs : ∀ v : Json, (∃ a, v.getString = .ok a) ↔ ∃ s, v = .string s :=
    fun v => exists_congr fun s => Json.getString_eq_ok
  have hn : ∀ v : Json, (∃ a, v.getU64 = .ok a) ↔ ∃ z, v.number? = some z := by
    intro v
    simp only [Json.getU64_eq_ok]
    exact ⟨fun ⟨_, z, hz, _⟩ => ⟨z, hz⟩, fun ⟨z, hz⟩ => ⟨_, z, hz, rfl⟩⟩
  constructor
  · rintro ⟨md, h⟩
    unfold readModel at h
    simp only [Fallible.seq_ok] at h
    obtain ⟨n, h₁, c, h₂, mh, h₃, pr, h₄, d, h₅, nm, h₆, -⟩ := h
    have h₁ := Json.value_returns_iff.1 ⟨n, h₁⟩
    have h₂ := Json.value_returns_iff.1 ⟨c, h₂⟩
    have h₃ := Json.value_returns_iff.1 ⟨mh, h₃⟩
    have h₄ := Json.value_returns_iff.1 ⟨pr, h₄⟩
    have h₅ := Json.value_returns_iff.1 ⟨d, h₅⟩
    have h₆ := Json.value_returns_iff.1 ⟨nm, h₆⟩
    simp only [hs] at h₁ h₂ h₃ h₄
    simp only [hn] at h₅ h₆
    refine ⟨h₁.1, ?_, ?_⟩
    · simp only [List.forall_mem_cons]
      exact ⟨h₁.2, h₂.2, h₃.2, h₄.2, by simp⟩
    · simp only [List.forall_mem_cons]
      exact ⟨h₅.2, h₆.2, by simp⟩
  · rintro ⟨ho, hstr, hnum⟩
    simp only [List.forall_mem_cons] at hstr hnum
    obtain ⟨h₁, h₂, h₃, h₄, -⟩ := hstr
    obtain ⟨h₅, h₆, -⟩ := hnum
    simp only [← hs] at h₁ h₂ h₃ h₄
    simp only [← hn] at h₅ h₆
    obtain ⟨n, h₁⟩ := Json.value_returns_iff.2 ⟨ho, h₁⟩
    obtain ⟨c, h₂⟩ := Json.value_returns_iff.2 ⟨ho, h₂⟩
    obtain ⟨mh, h₃⟩ := Json.value_returns_iff.2 ⟨ho, h₃⟩
    obtain ⟨pr, h₄⟩ := Json.value_returns_iff.2 ⟨ho, h₄⟩
    obtain ⟨d, h₅⟩ := Json.value_returns_iff.2 ⟨ho, h₅⟩
    obtain ⟨nm, h₆⟩ := Json.value_returns_iff.2 ⟨ho, h₆⟩
    unfold readModel
    simp only [Fallible.seq_ok]
    exact ⟨_, n, h₁, c, h₂, mh, h₃, pr, h₄, d, h₅, nm, h₆, rfl⟩

theorem handleSetModel_safe_iff {c : Reader} {p : List Json} (hp : p ≠ []) :
    Safe c (c.handleSetModel p) (p ≠ [] ∧ ModelForm (entry p 0)) ↔ ModelForm (entry p 0) := by
  unfold Reader.handleSetModel
  constructor
  · rintro ⟨o, ho, -⟩
    obtain ⟨md, hmd, -⟩ := Fallible.map_ok.1 ho
    exact readModel_returns_iff.1 ⟨md, hmd⟩
  · intro hf
    obtain ⟨md, hmd⟩ := readModel_returns_iff.2 hf
    exact ⟨_, Fallible.map_ok.2 ⟨md, hmd, rfl⟩, fun h => absurd ⟨hp, hf⟩ h⟩

theorem form_notify {p : List Json} : NotificationForm p (text "mining.notify") ↔ JobForm p := by
  constructor
  · rintro (⟨-, h⟩ | ⟨h, -⟩ | ⟨h, -⟩ | h | h | h)
    · exact h
    all_goals exact absurd h (by decide)
  · exact fun h => .inl ⟨rfl, h⟩

theorem form_setTarget {p : List Json} :
    NotificationForm p (text "mining.set_target") ↔ TargetForm p := by
  constructor
  · rintro (⟨h, -⟩ | ⟨-, h⟩ | ⟨h, -⟩ | h | h | h)
    · exact absurd h (by decide)
    · exact h
    all_goals exact absurd h (by decide)
  · exact fun h => .inr (.inl ⟨rfl, h⟩)

theorem form_setModel {p : List Json} :
    NotificationForm p (text "mining.set_model") ↔ p ≠ [] ∧ ModelForm (entry p 0) := by
  constructor
  · rintro (⟨h, -⟩ | ⟨h, -⟩ | ⟨-, h⟩ | h | h | h)
    · exact absurd h (by decide)
    · exact absurd h (by decide)
    · exact h
    all_goals exact absurd h (by decide)
  · exact fun h => .inr (.inr (.inl ⟨rfl, h⟩))

theorem handleNotification_safe_iff {c : Reader} {m : Json} {method : Bytes} :
    Safe c (c.handleNotification m method) (NotificationForm (paramsOf m) method) ↔
      NotificationTolerated (paramsOf m) method := by
  unfold Reader.handleNotification
  dsimp only
  split
  · rename_i h
    obtain ⟨rfl, hp⟩ := h
    rw [form_notify, handleNotify_safe_iff hp]
    exact ⟨fun h => ⟨fun _ _ => h, fun h => absurd h (by decide), fun h => absurd h (by decide)⟩,
      fun h => h.notify rfl hp⟩
  · rename_i hnotify
    split
    · rename_i h
      obtain ⟨rfl, hp⟩ := h
      rw [form_setTarget, handleSetTarget_safe_iff hp]
      exact ⟨fun h => ⟨fun h => absurd h (by decide), fun _ _ => h, fun h => absurd h (by decide)⟩,
        fun h => h.setTarget rfl hp⟩
    · rename_i htarget
      split
      · rename_i h
        obtain ⟨rfl, hp, ho⟩ := h
        rw [form_setModel, handleSetModel_safe_iff hp]
        exact ⟨fun h => ⟨fun h => absurd h (by decide), fun h => absurd h (by decide),
          fun _ _ _ => h⟩, fun h => h.setModel rfl hp ho⟩
      · rename_i hmodel
        -- Neither a job nor a target nor a model is read.
        have htol : NotificationTolerated (paramsOf m) method :=
          ⟨fun h hp => absurd ⟨h, hp⟩ hnotify, fun h hp => absurd ⟨h, hp⟩ htarget,
            fun h hp ho => absurd ⟨h, hp, ho⟩ hmodel⟩
        simp only [htol, iff_true]
        split
        · rename_i h
          exact safe_ok.2 fun hf => absurd (.inr (.inr (.inr (.inl h)))) hf
        · split
          · rename_i h
            exact safe_ok.2 fun hf => absurd (.inr (.inr (.inr (.inr h)))) hf
          · exact safe_ok.2 fun _ => untouched_log c _

/-- A share result always counts. -/
theorem shareResult_stats (c : Client) (id : Nat) (err : Option PoolError) :
    (c.shareResult id err).1.stats ≠ c.stats := by
  intro h
  have ha := congrArg Stats.accepted h
  have hr := congrArg Stats.rejected h
  have hs := congrArg Stats.stale h
  unfold Client.shareResult at ha hr hs
  dsimp only at ha hr hs
  split at ha
  · simp at ha
  · rename_i he
    simp only [if_neg he] at hr hs
    split at hs
    · simp at hs
    · rename_i hcode
      simp [if_neg hcode] at hr

theorem handleShare_safe_iff {c : Reader} {id : Nat} {err : Option PoolError} {form : Prop} :
    Safe c (.ok (c.handleShare id err)) form ↔ form := by
  rw [safe_ok]
  constructor
  · intro h
    by_contra hf
    exact shareResult_stats _ _ _ (h hf).stats
  · exact fun hf h => absurd hf h

theorem readError_returns {e : Json} (h : ErrorForm e) : ∃ err, readError e = .ok err := by
  unfold readError
  rcases h with ⟨ho, hc, hm⟩ | ⟨l, rfl, hlen, ⟨z, hz⟩, s, hs⟩
  · rw [if_pos ho]
    have hcode : ∃ code, e.value Json.getInt (text "code") 20 = .ok code := by
      refine Json.value_returns_iff.2 ⟨ho, fun v hv => ?_⟩
      obtain ⟨z, hz⟩ := hc v hv
      exact ⟨_, Json.getInt_eq_ok.2 (.inl ⟨z, hz, rfl⟩)⟩
    have hmessage : ∃ message, e.value Json.getString (text "message") [] = .ok message := by
      refine Json.value_returns_iff.2 ⟨ho, fun v hv => ?_⟩
      obtain ⟨s, hs⟩ := hm v hv
      exact ⟨s, Json.getString_eq_ok.2 hs⟩
    obtain ⟨code, hcode⟩ := hcode
    obtain ⟨message, hmessage⟩ := hmessage
    exact ⟨_, Fallible.seq_ok.2 ⟨code, hcode, Fallible.seq_ok.2 ⟨message, hmessage, rfl⟩⟩⟩
  · rw [if_neg (by simp [Json.isObject])]
    dsimp only [Json.elements?]
    rw [if_pos hlen]
    exact ⟨_, Fallible.seq_ok.2 ⟨_, Json.getInt_eq_ok.2 (.inl ⟨z, hz, rfl⟩),
      Fallible.seq_ok.2 ⟨s, Json.getString_eq_ok.2 hs, rfl⟩⟩⟩

theorem handleResponse_safe_iff {c : Reader} {m : Json} :
    Safe c (c.handleResponse m) (ReplyForm m) ↔ m.isObject = true ∧ ReplyTolerated m := by
  unfold Reader.handleResponse
  split
  · rename_i e he
    refine iff_of_false safe_error ?_
    rintro ⟨ho, v, z, hv, hz, -⟩
    have : (∃ n, m.value Json.getU64 (text "id") 0 = .ok n) := by
      refine Json.value_returns_iff.2 ⟨ho, fun w hw => ?_⟩
      cases hv.symm.trans hw
      exact ⟨_, Json.getU64_eq_ok.2 ⟨z, hz, rfl⟩⟩
    rw [he] at this
    simp at this
  · rename_i id hid
    obtain ⟨ho, hid⟩ := Json.value_eq_ok.1 hid
    -- Without an id the reply counts, and is not well-formed.
    have hnum : ∀ v z, m.member? (text "id") = some v → v.number? = some z → id = toU64 z := by
      intro v z hv hz
      rcases hid with ⟨hn, -⟩ | ⟨w, hw, hget⟩
      · rw [hn] at hv; cases hv
      · cases hw.symm.trans hv
        obtain ⟨y, hy, rfl⟩ := Json.getU64_eq_ok.1 hget
        cases hy.symm.trans hz
        rfl
    have hquiet : id = 1 ∨ id = 2 → ReplyTolerated m := by
      intro h12
      rcases hid with ⟨-, h0⟩ | ⟨w, hw, hget⟩
      · omega
      · obtain ⟨z, hz, hzid⟩ := Json.getU64_eq_ok.1 hget
        rw [← hzid] at h12
        exact ⟨w, z, hw, hz, h12.elim .inl fun h => .inr (.inl h)⟩
    split
    · rename_i h1
      exact iff_of_true (safe_ok.2 fun _ => untouched_log c _) ⟨ho, hquiet (.inl h1)⟩
    · rename_i h1
      split
      · rename_i h2
        exact iff_of_true (safe_ok.2 fun _ => untouched_log c _) ⟨ho, hquiet (.inr h2)⟩
      · rename_i h2
        have htol : m.isObject = true ∧ ReplyTolerated m ↔ ReplyForm m := by
          constructor
          · rintro ⟨-, v, z, hv, hz, h | h | h⟩
            · exact absurd ((hnum v z hv hz).trans h) h1
            · exact absurd ((hnum v z hv hz).trans h) h2
            · exact h
          · intro h
            obtain ⟨v, z, hv, hz⟩ := h.id
            exact ⟨ho, v, z, hv, hz, .inr (.inr h)⟩
        rw [htol]
        split
        · exact handleShare_safe_iff
        · rename_i e he
          constructor
          · rintro ⟨o, hr, hu⟩
            obtain ⟨err, -, rfl⟩ := Fallible.map_ok.1 hr
            exact handleShare_safe_iff.1 ⟨_, rfl, hu⟩
          · intro hf
            obtain ⟨err, herr⟩ := readError_returns (hf.error e he)
            exact ⟨_, Fallible.map_ok.2 ⟨err, herr, rfl⟩, fun h => absurd hf h⟩

theorem handleMessage_safe_iff {c : Reader} {m : Json} :
    Safe c (c.handleMessage m) (WellFormed m) ↔ Tolerated m := by
  unfold Reader.handleMessage WellFormed Tolerated
  cases hm : m.present? (text "method") with
  | none => exact handleResponse_safe_iff
  | some v =>
    have ho : m.isObject = true := by
      cases m <;> simp_all [Json.present?, Json.member?, Json.isObject]
    simp only [ho, true_and]
    cases hs : v.getString with
    | error e =>
      refine iff_of_false safe_error ?_
      rintro ⟨method, rfl, -⟩
      cases hs
    | ok method =>
      obtain rfl := Json.getString_eq_ok.1 hs
      have hinj : ∀ q : Bytes → Prop,
          (∃ method', Json.string method = .string method' ∧ q method') ↔ q method := by
        intro q
        exact ⟨fun ⟨_, he, h⟩ => Json.string.inj he ▸ h, fun h => ⟨method, rfl, h⟩⟩
      rw [hinj, hinj]
      exact handleNotification_safe_iff

/-! ## Results -/

/-- **A line is safe to receive exactly when it does not parse or what it parses to is
tolerated.** -/
theorem line_safe_iff (parse : Bytes → Except Bytes Json) (c : Reader) (line : Bytes) :
    LineSafe parse c line ↔ ∀ m, parse line = .ok m → Tolerated m := by
  unfold LineSafe Reader.handleLine
  cases parse line with
  | error what =>
    refine iff_of_true (safe_ok.2 fun _ => untouched_log c _) ?_
    intro m hm
    cases hm
  | ok m =>
    have hok : ∀ q : Json → Prop, (∃ m', (.ok m : Except Bytes Json) = .ok m' ∧ q m') ↔ q m :=
      fun q => ⟨fun ⟨_, he, h⟩ => Except.ok.inj he ▸ h, fun h => ⟨m, rfl, h⟩⟩
    rw [hok]
    simp only [Except.ok.injEq, forall_eq']
    exact handleMessage_safe_iff

/-- The reply to a request the pool could not read. -/
def nullReply : Bytes := text "\x7b\"id\":null,\"error\":\x7b\"code\":20\x7d,\"result\":null\x7d"

/-- What the parser makes of three lines. -/
def parseSample (line : Bytes) : Except Bytes Json :=
  if line = nullReply then .ok (.object [(text "error", .object [(text "code", .unsigned 20)]),
    (text "id", .null), (text "result", .null)])
  else if line = text "5" then .ok (.unsigned 5)
  else if line = text "\x7b\x7d" then .ok (.object [])
  else .error []

/-- **The first two lines kill the miner, the third counts an accepted share.** -/
theorem line_kills :
    let c : Reader := { client := { user := [], pass := [], ua := [] } }
    ¬ LineSafe parseSample c nullReply ∧ ¬ LineSafe parseSample c (text "5") ∧
      ¬ LineSafe parseSample c (text "\x7b\x7d") := by
  refine ⟨?_, ?_, ?_⟩ <;> rintro ⟨o, ho, hu⟩
  · cases ho
  · cases ho
  · cases ho
    have := (hu ?_).stats
    · cases this
    · rintro ⟨m, hm, hf⟩
      cases hm
      obtain ⟨v, z, hv, -⟩ := ReplyForm.id hf
      cases hv

end Stratum
