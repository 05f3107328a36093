import SuprMeow.Library.InsertionDict
import SuprMeow.Library.Runs
import SuprMeow.Vllm.Value

/-!
# The vLLM bridge

`Bridge` takes jobs from the pool, sends their PoW payload along with completion requests to the
local vLLM, pulls the finished proofs and submits them.  The supervisor thread runs the reader,
each dispatch thread waits for its completion, the drain thread submits; what stands under
`self.lock` is one step.

* `Bridge.onNotify`, `Bridge.submitProof` — the two functions over the job and its table;
* `serviceMachine` — the threads, with the requests in flight and the proofs on their way.
-/

set_option autoImplicit false

namespace Vllm

/-! ## Jobs -/

/-- `pow_payload`. -/
structure PowPayload where
  blockHash : Value
  vdf : Str
  tick : Int
  requestId : Int
  target : Value
  shareTarget : Value
  difficulty : Int
  headerPrefix : Value
  modelIdentifier : Str
  computePrecision : Str := str "bf16"
  proofVersion : Nat := 3

/-- `self.job`. -/
structure Job where
  jobId : Value
  pow : PowPayload
  vdfTick : Int

/-- The arguments; `sha256d` is the hash of a header. -/
structure Args where
  user : Str := str "tc1qdebugonly.vllmbridge"
  placeholderVdf : Str := List.replicate 200 48
  placeholderTick : Int := 315000
  sha256d : List Nat → List Nat

def modelIdDefault : Str := str "Qwen/Qwen3-8B@9c925d64d72725edaf899c6cb9c377fd0709d9c5"

/-- `"0" * 2 + "f" * 62`. -/
def easyTarget : Value := .str (List.replicate 2 48 ++ List.replicate 62 102)

structure Bridge where
  job : Option Job := none
  /-- `job_by_req`, in insertion order. -/
  jobByReq : List (Int × Value) := []
  difficulty : Int := 1000000
  shareTarget : Value := .none
  modelId : Str := modelIdDefault
  /-- What the two counters give next. -/
  nonce : Nat := 1
  nextId : Nat := 3
  submitted : Nat := 0
  belowFloor : Nat := 0
  /-- `wfile` is not `None`. -/
  wfile : Bool := false

/-! ## `on_notify` -/

/-- `int(p[i])` if there is such a number, else the default. -/
def intAt (p : Value) (i : Nat) (dflt : Int) : Except Raised Int := do
  let n ← p.len
  if n ≤ i then return dflt
  let v ← p.item i
  return (← v.toInt).getD dflt

/-- `p[i]` if it is a nonempty string, else the default. -/
def strAt (p : Value) (i : Nat) (dflt : Str) : Except Raised Str := do
  let n ← p.len
  if n ≤ i then return dflt
  let v ← p.item i
  return v.text?.getD dflt

namespace Bridge

/-- The job of a `mining.notify` and whether it is clean; nothing for fewer than seven
parameters. -/
def readNotify (args : Args) (b : Bridge) (p : Value) : Except Raised (Option (Job × Bool)) := do
  let n ← p.len
  if n < 7 then return none
  let headerPrefix ← p.item 1
  let target ← p.item 2
  let requestId ← intAt p 7 0
  let vdf ← strAt p 9 args.placeholderVdf
  let tick ← intAt p 10 args.placeholderTick
  let jobId ← p.item 0
  let blockHash ← headerPrefix.slice 8 72
  let pow : PowPayload := {
    blockHash, vdf, tick, requestId, target, headerPrefix
    shareTarget := if b.shareTarget.truthy then b.shareTarget else easyTarget
    difficulty := b.difficulty
    modelIdentifier := b.modelId }
  let clean ← p.item 6
  return some ({ jobId, pow, vdfTick := tick }, clean.truthy)

/-- `job_by_req` with the entry of a job, emptied before if it is clean. -/
def enter (b : Bridge) (j : Job) (clean : Bool) : List (Int × Value) :=
  InsertionDict.assign (if clean then [] else b.jobByReq) j.pow.requestId j.jobId

/-- The block under the lock: of more than 32 entries the oldest 16 go. -/
def setJob (b : Bridge) (j : Job) (clean : Bool) : Bridge :=
  let table := b.enter j clean
  { b with job := some j, jobByReq := if 32 < table.length then table.drop 16 else table }

/-- The line `on_notify` prints can be encoded. -/
def printsJob (p : Value) : Bool :=
  match p.item 0, p.item 4 with
  | .ok jobId, .ok height => jobId.printable && height.printable
  | _, _ => false

/-- `on_notify`, with what it raises. -/
def onNotify (args : Args) (b : Bridge) (p : Value) : Bridge × Option Raised :=
  match b.readNotify args p with
  | .error e => (b, some e)
  | .ok none => (b, none)
  | .ok (some (j, clean)) =>
    (b.setJob j clean, if printsJob p then none else some .unicodeEncodeError)

end Bridge

/-! ## `submit_proof` -/

/-- The `pow_blob` of a message; `belowFloor` says its summed surprisal is below `--b-floor`. -/
structure Blob where
  headerPrefix : List Nat
  hash : List Nat
  belowFloor : Bool

/-- A `MiningResponse` of the worker.  `origin`, the job whose payload its request carried, is a
record. -/
structure Message where
  reqId : Nat
  blob : Option Blob
  origin : Job

/-- The parameters of a `mining.submit`; `proof` stands for its base64.  `known` is a record:
`job_by_req` had the request id. -/
structure Submission where
  id : Nat
  user : Str
  jobId : Value
  nonce : Nat
  proof : Message
  achieved : List Nat
  vdfTick : Int
  known : Bool

namespace Bridge

/-- `send`: what is written, if the socket takes it. -/
def send {α : Type} (b : Bridge) (line : α) (written : Bool) : Bridge × Option α :=
  if b.wfile = false then (b, none)
  else if written then (b, some line)
  else ({ b with wfile := false }, none)

/-- `self.job_by_req.get(req_id) or (self.job["job_id"] if self.job else None)`. -/
def jobIdFor (b : Bridge) (reqId : Nat) : Value :=
  match b.jobByReq.lookup (reqId : Int) with
  | some v => if v.truthy then v else (b.job.map (·.jobId)).getD .none
  | none => (b.job.map (·.jobId)).getD .none

/-- `self.job["vdf_tick"] if self.job else 315000`. -/
def tickNow (b : Bridge) : Int := (b.job.map (·.vdfTick)).getD 315000

/-- The share of a proof that passed the checks. -/
def submitBlob (args : Args) (b : Bridge) (m : Message) (blob : Blob) (written : Bool) :
    Bridge × Option Submission :=
  let jobId := b.jobIdFor m.reqId
  if jobId.truthy = false then (b, none)
  else
    let line : Submission :=
      { id := b.nextId, user := args.user, jobId, nonce := b.nonce, proof := m
        -- The nonce of the header is the start of the digest; the hash is shown reversed.
        achieved := (args.sha256d (blob.headerPrefix ++ blob.hash.take 4)).reverse
        vdfTick := b.tickNow
        known := (b.jobByReq.lookup (m.reqId : Int)).isSome }
    let r := { b with nonce := b.nonce + 1, nextId := b.nextId + 1 }.send line written
    ({ r.1 with submitted := r.1.submitted + 1 }, r.2)

def submitProof (args : Args) (b : Bridge) (m : Message) (written : Bool) :
    Bridge × Option Submission :=
  match m.blob with
  | none => (b, none)
  | some blob =>
    if blob.headerPrefix.length ≠ 76 ∨ blob.hash.length ≠ 32 then (b, none)
    else if blob.belowFloor then ({ b with belowFloor := b.belowFloor + 1 }, none)
    else b.submitBlob args m blob written

end Bridge

/-! ## The threads -/

structure Service where
  bridge : Bridge := {}
  /-- The supervisor runs: nothing was raised in it. -/
  alive : Bool := true
  /-- The requests vLLM works on, by the job they carry. -/
  inFlight : List Job := []
  /-- Proofs between the worker and the drain thread. -/
  proofs : List Message := []
  /-- Record of the lines written. -/
  sent : List Submission := []

inductive ServiceEvent where
  /-- A connection is made, or lost. -/
  | connection (up : Bool)
  | notify (p : Value)
  | setTarget (t : Value)
  | setModel (modelId : Str) (difficulty : Int)
  | dispatch
  /-- The worker finishes a window of request `i`. -/
  | emit (i : Nat) (blob : Option Blob)
  /-- Request `i` returns. -/
  | complete (i : Nat)
  /-- The drain thread takes proof `i`. -/
  | drain (i : Nat) (written : Bool)

/-- A request id that fits the `uint32` of a `MiningResponse`; another makes the writer raise. -/
def Job.emits (j : Job) : Bool := 0 ≤ j.pow.requestId && j.pow.requestId < 2 ^ 32

namespace Service

def notify (args : Args) (s : Service) (p : Value) : Option Service :=
  if s.alive then
    let r := s.bridge.onNotify args p
    some { s with bridge := r.1, alive := r.2.isNone }
  else none

def emit (s : Service) (i : Nat) (blob : Option Blob) : Option Service :=
  match s.inFlight[i]? with
  | none => none
  | some j =>
    if j.emits then
      some { s with
        proofs := s.proofs ++ [{ reqId := j.pow.requestId.toNat, blob, origin := j }] }
    else some s

def drain (args : Args) (s : Service) (i : Nat) (written : Bool) : Option Service :=
  match s.proofs[i]? with
  | none => none
  | some m =>
    let r := s.bridge.submitProof args m written
    some { s with bridge := r.1, proofs := s.proofs.eraseIdx i, sent := s.sent ++ r.2.toList }

def step (args : Args) (s : Service) : ServiceEvent → Option Service
  | .connection up =>
    if s.alive then some { s with bridge := { s.bridge with wfile := up } } else none
  | .notify p => s.notify args p
  | .setTarget t =>
    if s.alive then some { s with bridge := { s.bridge with shareTarget := t } } else none
  | .setModel modelId difficulty =>
    if s.alive then some { s with bridge := { s.bridge with modelId, difficulty } } else none
  | .dispatch => s.bridge.job.map fun j => { s with inFlight := s.inFlight ++ [j] }
  | .emit i blob => s.emit i blob
  | .complete i =>
    if i < s.inFlight.length then some { s with inFlight := s.inFlight.eraseIdx i } else none
  | .drain i written => s.drain args i written

end Service

def serviceMachine (args : Args) : Runs.Machine Service ServiceEvent where
  init := {}
  step := Service.step args

end Vllm
