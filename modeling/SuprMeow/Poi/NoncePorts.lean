import SuprMeow.Poi.JobTable

/-!
# Ports and nonces

`PoiMiner::init` binds the first free port of 512, and derives from it the variable that the
coordinator's writer reads and the upper half of the nonces.  The host is a machine: instances in
any number of processes, whose calls of `init` interleave bind by bind, with jobs, drained messages
and destructions in between.  That a successful bind is exclusive is the one assumption.

* `Instance.Sound` — what an instance's nonces are, act by act;
* `Host.Exclusive` — no port has two holders;
* `share_nonces_distinct` — for whole runs;
* `main_unraced` — the way `main` constructs its pools keeps the variable in agreement;
* `nonces_collide` — a proof that is dropped draws a nonce too, and two calls of `init` in one
  process may race.
-/

set_option autoImplicit false

open Stratum (Bytes)

namespace Poi

/-! ## Instances -/

/-- `kPortScan`. -/
def portScan : Nat := 512

/-- The arguments of an `init`; `sockets` says that ZeroMQ gave a context and a socket. -/
structure InitCall where
  process : Nat
  windowTokens : Int := 256
  nStreams : Int := 1
  egressPort : Int := 47021
  sockets : Bool := true
  deriving DecidableEq

/-- Where an instance is: before an attempt to bind, bound, with the variable set, initialised,
given up, destroyed. -/
inductive InitPhase where
  | scanning (off : Nat)
  | bound
  | published
  | ready
  | failed
  | closed
  deriving DecidableEq

/-- A `PoiMiner`; `pushPort` is its writer's destination, `drawn` a record of the nonces drawn. -/
structure Instance where
  process : Nat
  egressPort : Int
  phase : InitPhase
  boundPort : Option Int := none
  pushPort : Option Int := none
  miner : Miner
  drawn : Nat := 0

/-- The constructor, and `init` up to the first bind. -/
def InitCall.start (c : InitCall) : Instance where
  process := c.process
  egressPort := c.egressPort
  phase := if c.windowTokens = 256 ∧ c.sockets = true then .scanning 0 else .failed
  miner := { nStreams := (max 1 c.nStreams).toNat }

/-- What happens to an instance.  `on_logits` and `take_share` matter to the nonce only by the
message drained, which may be any. -/
inductive Act where
  | bind (ok : Bool)
  | publish
  | initCoordinator (ok : Bool)
  | setJob (p : PoiJobParams) (o : JobOutcome)
  | receive (pr : Proof)
  | close
  deriving DecidableEq

namespace Instance

/-- `static_cast<uint64_t>(bound_port) << 32`. -/
def nonceSeed (port : Int) : Nat := port.toNat * 2 ^ 32 % 2 ^ 64

/-- One attempt of the scan. -/
def bind (a : Instance) (off : Nat) (ok : Bool) : Instance :=
  let port := a.egressPort + off
  if ok = true then
    { a with boundPort := some port, phase := if port < 0 then .failed else .bound }
  else { a with phase := if off + 1 < portScan then .scanning (off + 1) else .failed }

/-- `setenv` and the seed. -/
def publish (a : Instance) (port : Int) : Instance :=
  { a with phase := .published, miner := { a.miner with nonceSeq := nonceSeed port } }

/-- `coord.initialize`, which reads the variable. -/
def initCoordinator (a : Instance) (env : Option Int) (ok : Bool) : Instance :=
  { a with pushPort := some (env.getD 7002), phase := if ok = true then .ready else .failed }

/-- The job a proof names is in the table. -/
def knows (a : Instance) (pr : Proof) : Bool :=
  (a.miner.jobByReq.find? (·.1 == pr.reqId)).isSome

/-- A drained message. -/
def receive (a : Instance) (pr : Proof) : Instance :=
  { a with miner := a.miner.receive pr, drawn := if a.knows pr then a.drawn + 1 else a.drawn }

/-- The shares emitted so far. -/
def shares (a : Instance) : List PoiShare := a.miner.hist.enqueued

def Alive (a : Instance) : Prop := a.phase ≠ .closed

instance (a : Instance) : Decidable a.Alive := inferInstanceAs (Decidable (_ ≠ _))

/-- The PULL socket is on `port`. -/
def Holds (a : Instance) (port : Int) : Prop := a.Alive ∧ a.boundPort = some port

instance (a : Instance) (port : Int) : Decidable (a.Holds port) :=
  inferInstanceAs (Decidable (_ ∧ _))

/-- One act, when its process has `env` for ZMQ_PUSH_PORT.  A bind of a port that is held does not
succeed; one of any port may fail. -/
def act (env : Option Int) (held : Int → Bool) (a : Instance) : Act → Option Instance
  | .bind ok =>
    match a.phase with
    | .scanning off =>
      if ok = true ∧ held (a.egressPort + off) = true then none else some (a.bind off ok)
    | _ => none
  | .publish =>
    match a.phase, a.boundPort with
    | .bound, some port => some (a.publish port)
    | _, _ => none
  | .initCoordinator ok => if a.phase = .published then some (a.initCoordinator env ok) else none
  | .setJob p o =>
    if a.phase = .ready then (a.miner.setJob p o).map fun r => { a with miner := r.1 } else none
  | .receive pr => if a.phase = .ready then some (a.receive pr) else none
  | .close => if a.Alive then some { a with phase := .closed } else none

end Instance

/-! ## The host -/

structure Host where
  env : Nat → Option Int := fun _ => none
  instances : List Instance := []

inductive HostEvent where
  | create (c : InitCall)
  | act (i : Nat) (x : Act)
  deriving DecidableEq

namespace Host

def held (h : Host) (port : Int) : Bool := h.instances.any fun a => decide (a.Holds port)

/-- The variable of each process after an act of one of its instances. -/
def envAfter (h : Host) (a : Instance) : Act → Nat → Option Int
  | .publish => Function.update h.env a.process a.boundPort
  | _ => h.env

end Host

/-- A port argument is an `int`. -/
def hostMachine : Runs.Machine Host HostEvent where
  init := {}
  step h
    | .create c =>
      if -2 ^ 31 ≤ c.egressPort ∧ c.egressPort < 2 ^ 31 then
        some { h with instances := h.instances ++ [c.start] }
      else none
    | .act i x =>
      h.instances[i]?.bind fun a => (a.act (h.env a.process) h.held x).map fun a' =>
        { env := h.envAfter a x, instances := h.instances.set i a' }

/-- No instance sets the variable between another of its process setting it and reading it. -/
def Unraced (h : Host) : HostEvent → Prop
  | .act i .publish => ∀ a, h.instances[i]? = some a → a.phase = .bound →
    ∀ j b, h.instances[j]? = some b → j ≠ i → b.process = a.process → b.phase ≠ .published
  | _ => True

/-! ## One act -/

namespace Instance

/-- The acts, case by case. -/
inductive Acts (env : Option Int) (held : Int → Bool) (a : Instance) : Act → Instance → Prop
  | bound {off : Nat} (hphase : a.phase = .scanning off)
      (hfree : held (a.egressPort + off) = false) : Acts env held a (.bind true) (a.bind off true)
  | busy {off : Nat} (hphase : a.phase = .scanning off) :
      Acts env held a (.bind false) (a.bind off false)
  | publish {port : Int} (hphase : a.phase = .bound) (hport : a.boundPort = some port) :
      Acts env held a .publish (a.publish port)
  | initCoordinator {ok : Bool} (hphase : a.phase = .published) :
      Acts env held a (.initCoordinator ok) (a.initCoordinator env ok)
  | setJob {p : PoiJobParams} {o : JobOutcome} {m : Miner} {ok : Bool} (hphase : a.phase = .ready)
      (hcall : a.miner.setJob p o = some (m, ok)) :
      Acts env held a (.setJob p o) { a with miner := m }
  | receive {pr : Proof} (hphase : a.phase = .ready) : Acts env held a (.receive pr) (a.receive pr)
  | close (halive : a.Alive) : Acts env held a .close { a with phase := .closed }

variable {env : Option Int} {held : Int → Bool} {a a' : Instance} {x : Act}

theorem acts_of_act (h : a.act env held x = some a') : Acts env held a x a' := by
  unfold act at h
  split at h
  · rename_i ok
    split at h
    · rename_i off hphase
      split at h
      · cases h
      · rename_i hfree
        cases h
        cases ok with
        | true => exact .bound hphase (by simpa using hfree)
        | false => exact .busy hphase
    · cases h
  · split at h
    · rename_i port hphase hport
      cases h
      exact .publish hphase hport
    · cases h
  · split at h
    · rename_i hphase
      cases h
      exact .initCoordinator hphase
    · cases h
  · split at h
    · rename_i hphase
      obtain ⟨⟨m, ok⟩, hcall, rfl⟩ := Option.map_eq_some_iff.1 h
      exact .setJob hphase hcall
    · cases h
  · split at h
    · rename_i hphase
      cases h
      exact .receive hphase
    · cases h
  · split at h
    · rename_i halive
      cases h
      exact .close halive
    · cases h

theorem bind_ne_published (off : Nat) (ok : Bool) : (a.bind off ok).phase ≠ .published := by
  unfold bind
  dsimp only
  split
  · dsimp only
    split <;> nofun
  · dsimp only
    split <;> nofun

theorem Acts.process (h : Acts env held a x a') : a'.process = a.process := by
  cases h with
  | bound | busy =>
    unfold bind
    dsimp only
    split <;> rfl
  | _ => rfl

/-- A port once bound stays. -/
theorem Acts.keeps_port (h : Acts env held a x a')
    (hscan : ∀ off, a.phase = .scanning off → a.boundPort = none) {port : Int}
    (hport : a.boundPort = some port) : a'.boundPort = some port := by
  cases h with
  | bound hphase | busy hphase =>
    rw [hscan _ hphase] at hport
    cases hport
  | _ => exact hport

/-- A port newly held was free. -/
theorem Acts.holds (h : Acts env held a x a') {port : Int} (hold : a'.Holds port) :
    a.Holds port ∨ held port = false := by
  obtain ⟨halive', hport⟩ := hold
  cases h with
  | @bound off hphase hfree =>
    obtain rfl : a.egressPort + off = port := Option.some.inj hport
    exact .inr hfree
  | busy hphase =>
    refine .inl ⟨?_, hport⟩
    unfold Alive
    rw [hphase]
    nofun
  | publish hphase | initCoordinator hphase | setJob hphase | receive hphase =>
    refine .inl ⟨?_, hport⟩
    unfold Alive
    rw [hphase]
    nofun
  | close halive => exact absurd rfl halive'

/-! ## What an instance's nonces are -/

/-- The nonce of draw `k`. -/
def nonceAt (port : Option Int) (k : Nat) : Nat := ((port.getD 0).toNat * 2 ^ 32 + k) % 2 ^ 64

theorem nonceAt_zero (port : Int) : nonceAt (some port) 0 = nonceSeed port := by
  unfold nonceAt nonceSeed
  rw [Option.getD_some, Nat.add_zero]

theorem nonceAt_succ (port : Option Int) (k : Nat) :
    (nonceAt port k + 1) % 2 ^ 64 = nonceAt port (k + 1) := by
  unfold nonceAt
  omega

/-- Fewer than 2^32 draws stay in the port's partition. -/
theorem nonceAt_eq {port : Int} (h₀ : 0 ≤ port) (hlt : port < 2 ^ 32) {k : Nat} (hk : k < 2 ^ 32) :
    nonceAt (some port) k = port.toNat * 2 ^ 32 + k := by
  have hport : port.toNat < 2 ^ 32 := by omega
  unfold nonceAt
  rw [Option.getD_some]
  omega

/-- `init` is past the bind. -/
def InitPhase.Open (ph : InitPhase) : Prop := ph = .bound ∨ ph = .published ∨ ph = .ready

/-- The scan is within its range and holds nothing; a bound port is one; until the seed nothing has
been drawn, and from then on the counter stands at the last draw; the shares carry an increasing
list of draws. -/
structure Sound (a : Instance) : Prop where
  range : a.egressPort < 2 ^ 31
  scan : ∀ off, a.phase = .scanning off → off < portScan ∧ a.boundPort = none
  port : ∀ port, a.boundPort = some port → port < 2 ^ 32
  holds : InitPhase.Open a.phase → ∃ port, a.boundPort = some port ∧ 0 ≤ port
  pushed : a.pushPort ≠ none → ∃ port, a.boundPort = some port ∧ 0 ≤ port
  fresh : (∃ off, a.phase = .scanning off) ∨ a.phase = .bound → a.drawn = 0 ∧ a.shares = []
  seeded : a.phase = .published ∨ a.phase = .ready →
    a.miner.nonceSeq = nonceAt a.boundPort a.drawn
  numbered : ∃ ks : List Nat, ks.Pairwise (· < ·) ∧ (∀ k ∈ ks, k ≤ a.drawn) ∧
    a.shares.map (·.nonce) = ks.map (nonceAt a.boundPort)
  emitted : a.shares ≠ [] → ∃ port, a.boundPort = some port ∧ 0 ≤ port

theorem sound_start {c : InitCall} (h : c.egressPort < 2 ^ 31) : Sound c.start := by
  have hphase : c.start.phase = .scanning 0 ∨ c.start.phase = .failed := by
    unfold InitCall.start
    dsimp only
    split
    · exact .inl rfl
    · exact .inr rfl
  refine ⟨h, ?_, nofun, ?_, fun hne => absurd rfl hne, fun _ => ⟨rfl, rfl⟩, ?_, ?_, ?_⟩
  · intro off hoff
    rcases hphase with hphase | hphase
    · cases hphase.symm.trans hoff
      exact ⟨by decide, rfl⟩
    · cases hphase.symm.trans hoff
  · unfold InitPhase.Open
    rcases hphase with hphase | hphase <;> rw [hphase] <;> nofun
  · rcases hphase with hphase | hphase <;> rw [hphase] <;> nofun
  · exact ⟨[], List.Pairwise.nil, nofun, rfl⟩
  · exact fun hne => absurd rfl hne

/-- `set_job` does not touch the counter, nor what was emitted. -/
theorem setJob_nonceSeq {m m' : Miner} {p : PoiJobParams} {o : JobOutcome} {ok : Bool}
    (h : m.setJob p o = some (m', ok)) : m'.nonceSeq = m.nonceSeq ∧ m'.hist = m.hist := by
  obtain ⟨hex, tick, parent, proved, hv⟩ :=
    updateVdf_eq { m with lastCtx := fun _ => none } p o.vdfProof
  unfold Miner.setJob at h
  dsimp only at h
  rw [hv] at h
  split at h
  · cases h
    exact ⟨rfl, rfl⟩
  · split at h
    · cases h
    · split at h
      · cases h
        exact ⟨rfl, rfl⟩
      · split at h
        · cases h
          exact ⟨rfl, rfl⟩
        · split at h
          · cases h
          · cases h
            exact ⟨rfl, rfl⟩

/-- A message of an unknown job draws nothing; one of a known job draws the next nonce, and a share
of it carries that nonce. -/
theorem receive_nonceSeq (m : Miner) (pr : Proof) :
    (m.jobByReq.find? (·.1 == pr.reqId)).isSome = false ∧
        (m.receive pr).nonceSeq = m.nonceSeq ∧ (m.receive pr).hist.enqueued = m.hist.enqueued ∨
      (m.jobByReq.find? (·.1 == pr.reqId)).isSome = true ∧
        (m.receive pr).nonceSeq = (m.nonceSeq + 1) % 2 ^ 64 ∧
        ((m.receive pr).hist.enqueued = m.hist.enqueued ∨
          ∃ s : PoiShare, s.nonce = (m.nonceSeq + 1) % 2 ^ 64 ∧
            (m.receive pr).hist.enqueued = m.hist.enqueued ++ [s]) := by
  unfold Miner.receive
  cases hfind : m.jobByReq.find? (·.1 == pr.reqId) with
  | none => exact .inl ⟨rfl, rfl, rfl⟩
  | some e =>
    refine .inr ⟨rfl, ?_⟩
    dsimp only
    split
    · exact ⟨rfl, .inl rfl⟩
    · split
      · exact ⟨rfl, .inl rfl⟩
      · exact ⟨rfl, .inr ⟨_, rfl, rfl⟩⟩

theorem Sound.bind_true (hs : Sound a) {off : Nat} (hphase : a.phase = .scanning off) :
    Sound (a.bind off true) := by
  obtain ⟨hoff, -⟩ := hs.scan off hphase
  obtain ⟨hdrawn, hshares⟩ := hs.fresh (.inl ⟨off, hphase⟩)
  have hport : (a.bind off true).boundPort = some (a.egressPort + off) := rfl
  have hphase' : (a.bind off true).phase = .failed ∨
      (a.bind off true).phase = .bound ∧ 0 ≤ a.egressPort + off := by
    unfold bind
    dsimp only
    rw [if_pos rfl]
    dsimp only
    split
    · exact .inl rfl
    · rename_i hneg
      exact .inr ⟨rfl, by omega⟩
  have hshares' : (a.bind off true).shares = [] := hshares
  have hlt := hs.range
  refine ⟨hs.range, ?_, ?_, ?_, ?_, fun _ => ⟨hdrawn, hshares'⟩, ?_, ?_, ?_⟩
  · intro off' hoff'
    rcases hphase' with hphase' | ⟨hphase', -⟩ <;> cases hphase'.symm.trans hoff'
  · intro port hsome
    obtain rfl := Option.some.inj (hport.symm.trans hsome)
    unfold portScan at hoff
    omega
  · intro hopen
    rcases hphase' with hphase' | ⟨-, hpos⟩
    · rw [hphase'] at hopen
      rcases hopen with hopen | hopen | hopen <;> cases hopen
    · exact ⟨_, hport, hpos⟩
  · intro hpushed
    obtain ⟨port, hsome, -⟩ := hs.pushed hpushed
    rw [(hs.scan off hphase).2] at hsome
    cases hsome
  · intro hseeded
    rcases hphase' with hphase' | ⟨hphase', -⟩ <;> rw [hphase'] at hseeded <;>
      rcases hseeded with hseeded | hseeded <;> cases hseeded
  · exact ⟨[], List.Pairwise.nil, nofun, by rw [hshares']; rfl⟩
  · exact fun hne => absurd hshares' hne

theorem Sound.bind_false (hs : Sound a) {off : Nat} (hphase : a.phase = .scanning off) :
    Sound (a.bind off false) := by
  have hfresh := hs.fresh (.inl ⟨off, hphase⟩)
  have hphase' : (a.bind off false).phase = .failed ∨
      (a.bind off false).phase = .scanning (off + 1) ∧ off + 1 < portScan := by
    unfold bind
    dsimp only
    rw [if_neg (by decide)]
    dsimp only
    split
    · rename_i hlt
      exact .inr ⟨rfl, hlt⟩
    · exact .inl rfl
  refine ⟨hs.range, ?_, hs.port, ?_, hs.pushed, fun _ => hfresh, ?_, hs.numbered, hs.emitted⟩
  · intro off' hoff'
    rcases hphase' with hphase' | ⟨hphase', hlt⟩
    · cases hphase'.symm.trans hoff'
    · cases hphase'.symm.trans hoff'
      exact ⟨hlt, (hs.scan off hphase).2⟩
  · intro hopen
    rcases hphase' with hphase' | ⟨hphase', -⟩ <;> rw [hphase'] at hopen <;>
      rcases hopen with hopen | hopen | hopen <;> cases hopen
  · intro hseeded
    rcases hphase' with hphase' | ⟨hphase', -⟩ <;> rw [hphase'] at hseeded <;>
      rcases hseeded with hseeded | hseeded <;> cases hseeded

/-- Seeding the counter emits nothing. -/
theorem shares_seed (a : Instance) (ph : InitPhase) (n : Nat) :
    ({ a with phase := ph, miner := { a.miner with nonceSeq := n } } : Instance).shares =
      a.shares := rfl

theorem Sound.publish (hs : Sound a) {port : Int} (hphase : a.phase = .bound)
    (hport : a.boundPort = some port) : Sound (a.publish port) := by
  obtain ⟨hdrawn, hshares⟩ := hs.fresh (.inr hphase)
  have hshares' : (a.publish port).shares = [] := (shares_seed a _ _).trans hshares
  refine ⟨hs.range, nofun, hs.port, fun _ => hs.holds (.inl hphase), hs.pushed, ?_, ?_, ?_, ?_⟩
  · exact fun _ => ⟨hdrawn, hshares'⟩
  · intro _
    have hdrawn' : (a.publish port).drawn = 0 := hdrawn
    have hport' : (a.publish port).boundPort = some port := hport
    rw [hdrawn', hport', nonceAt_zero]
    rfl
  · exact ⟨[], List.Pairwise.nil, nofun, by rw [hshares']; rfl⟩
  · exact fun hne => absurd hshares' hne

theorem Sound.initCoordinator (hs : Sound a) (hphase : a.phase = .published) (env : Option Int)
    (ok : Bool) : Sound (a.initCoordinator env ok) := by
  have hholds := hs.holds (.inr (.inl hphase))
  have hseeded := hs.seeded (.inl hphase)
  refine ⟨hs.range, ?_, hs.port, fun _ => hholds, fun _ => hholds, ?_, fun _ => hseeded,
    hs.numbered, hs.emitted⟩
  · intro off hoff
    cases ok <;> cases hoff
  · rintro (⟨off, hoff⟩ | hbound)
    · cases ok <;> cases hoff
    · cases ok <;> cases hbound

theorem Sound.setJob (hs : Sound a) {p : PoiJobParams} {o : JobOutcome}
    {m : Miner} {ok : Bool} (hcall : a.miner.setJob p o = some (m, ok)) :
    Sound { a with miner := m } := by
  obtain ⟨hnonce, hhist⟩ := setJob_nonceSeq hcall
  have hshares : ({ a with miner := m } : Instance).shares = a.shares :=
    congrArg History.enqueued hhist
  refine ⟨hs.range, hs.scan, hs.port, hs.holds, hs.pushed, ?_, ?_, ?_, ?_⟩
  · rw [hshares]
    exact hs.fresh
  · intro hseeded
    exact hnonce.trans (hs.seeded hseeded)
  · rw [hshares]
    exact hs.numbered
  · rw [hshares]
    exact hs.emitted

/-- A draw keeps the list increasing: its number is above all before it. -/
theorem Sound.receive (hs : Sound a) (hphase : a.phase = .ready) (pr : Proof) :
    Sound (a.receive pr) := by
  have hholds := hs.holds (.inr (.inr hphase))
  have hnotFresh : ¬ ((∃ off, a.phase = .scanning off) ∨ a.phase = .bound) := by
    rw [hphase]
    rintro (⟨off, hoff⟩ | hbound)
    · cases hoff
    · cases hbound
  have hseq : a.miner.nonceSeq = nonceAt a.boundPort a.drawn := hs.seeded (.inr hphase)
  obtain ⟨ks, hks, hle, hmap⟩ := hs.numbered
  rcases receive_nonceSeq a.miner pr with
    ⟨hknown, hnonce, hshares⟩ | ⟨hknown, hnonce, hshares⟩
  · have hdrawn : (a.receive pr).drawn = a.drawn := if_neg (ne_true_of_eq_false hknown)
    refine ⟨hs.range, hs.scan, hs.port, hs.holds, hs.pushed, fun hf => absurd hf hnotFresh, ?_, ?_,
      fun _ => hholds⟩
    · intro _
      rw [hdrawn]
      exact hnonce.trans hseq
    · refine ⟨ks, hks, ?_, (congrArg (List.map _) hshares).trans hmap⟩
      rw [hdrawn]
      exact hle
  · have hdrawn : (a.receive pr).drawn = a.drawn + 1 := if_pos hknown
    have hnext : (a.miner.nonceSeq + 1) % 2 ^ 64 = nonceAt a.boundPort (a.drawn + 1) := by
      rw [hseq, nonceAt_succ]
    refine ⟨hs.range, hs.scan, hs.port, hs.holds, hs.pushed, fun hf => absurd hf hnotFresh, ?_, ?_,
      fun _ => hholds⟩
    · intro _
      rw [hdrawn]
      exact hnonce.trans hnext
    · rw [hdrawn]
      rcases hshares with hshares | ⟨s, hs₁, hshares⟩
      · refine ⟨ks, hks, ?_, (congrArg (List.map _) hshares).trans hmap⟩
        intro k hk
        exact Nat.le_succ_of_le (hle k hk)
      · refine ⟨ks ++ [a.drawn + 1], ?_, ?_, ?_⟩
        · rw [List.pairwise_append]
          refine ⟨hks, List.pairwise_singleton _ _, ?_⟩
          intro k hk k' hk'
          obtain rfl := List.mem_singleton.1 hk'
          exact Nat.lt_succ_of_le (hle k hk)
        · intro k hk
          rcases List.mem_append.1 hk with hk | hk
          · exact Nat.le_succ_of_le (hle k hk)
          · exact le_of_eq (List.mem_singleton.1 hk)
        · have hshares' : (a.receive pr).shares = a.shares ++ [s] := hshares
          rw [hshares', List.map_append, List.map_append, hmap, List.map_singleton,
            List.map_singleton, hs₁, hnext]
          rfl

theorem Sound.close (hs : Sound a) : Sound { a with phase := .closed } := by
  refine ⟨hs.range, nofun, hs.port, ?_, hs.pushed, ?_, ?_, hs.numbered, hs.emitted⟩
  · rintro (hopen | hopen | hopen) <;> cases hopen
  · rintro (⟨off, hoff⟩ | hbound)
    · cases hoff
    · cases hbound
  · rintro (hseeded | hseeded) <;> cases hseeded

/-- **Every act keeps an instance sound.** -/
theorem Sound.acts (hs : Sound a) (h : Acts env held a x a') : Sound a' := by
  cases h with
  | bound hphase => exact hs.bind_true hphase
  | busy hphase => exact hs.bind_false hphase
  | publish hphase hport => exact hs.publish hphase hport
  | initCoordinator hphase => exact hs.initCoordinator hphase _ _
  | setJob _ hcall => exact hs.setJob hcall
  | receive hphase => exact hs.receive hphase _
  | close => exact hs.close

/-- With fewer than 2^32 draws the upper half of every nonce is the port. -/
theorem Sound.nonce_div (hs : Sound a) (hdrawn : a.drawn < 2 ^ 32) {port : Int}
    (hport : a.boundPort = some port) (h₀ : 0 ≤ port) {s : PoiShare} (hmem : s ∈ a.shares) :
    s.nonce / 2 ^ 32 = port.toNat := by
  obtain ⟨ks, -, hle, hmap⟩ := hs.numbered
  have hnonce : s.nonce ∈ ks.map (nonceAt a.boundPort) := by
    rw [← hmap]
    exact List.mem_map_of_mem hmem
  obtain ⟨k, hk, hk'⟩ := List.mem_map.1 hnonce
  have hlt : k < 2 ^ 32 := lt_of_le_of_lt (hle k hk) hdrawn
  rw [hport, nonceAt_eq h₀ (hs.port port hport) hlt] at hk'
  omega

/-- With fewer than 2^32 draws no nonce repeats. -/
theorem Sound.nodup (hs : Sound a) (hdrawn : a.drawn < 2 ^ 32) :
    (a.shares.map (·.nonce)).Nodup := by
  by_cases hnil : a.shares = []
  · rw [hnil]
    exact List.nodup_nil
  · obtain ⟨port, hport, h₀⟩ := hs.emitted hnil
    obtain ⟨ks, hks, hle, hmap⟩ := hs.numbered
    rw [hmap]
    apply List.Nodup.map_on
    · intro k hk k' hk' heq
      have hlt : k < 2 ^ 32 := lt_of_le_of_lt (hle k hk) hdrawn
      have hlt' : k' < 2 ^ 32 := lt_of_le_of_lt (hle k' hk') hdrawn
      rw [hport, nonceAt_eq h₀ (hs.port port hport) hlt,
        nonceAt_eq h₀ (hs.port port hport) hlt'] at heq
      omega
    · exact hks.imp Nat.ne_of_lt

end Instance

/-! ## One step of the host -/

theorem getElem?_set_cases {α : Type} {l : List α} {i j : Nat} {a b : α}
    (h : (l.set i a)[j]? = some b) : j = i ∧ b = a ∨ j ≠ i ∧ l[j]? = some b := by
  rw [List.getElem?_set] at h
  split at h
  · rename_i heq
    split at h
    · cases h
      exact .inl ⟨heq.symm, rfl⟩
    · cases h
  · rename_i hne
    exact .inr ⟨fun heq => hne heq.symm, h⟩

theorem getElem?_snoc_cases {α : Type} {l : List α} {j : Nat} {a b : α}
    (h : (l ++ [a])[j]? = some b) : j = l.length ∧ b = a ∨ l[j]? = some b := by
  rw [List.getElem?_append] at h
  split at h
  · exact .inr h
  · obtain ⟨hj, hb⟩ := List.getElem?_eq_some_iff.1 h
    have hlen : j - l.length < 1 := hj
    refine .inl ⟨by omega, ?_⟩
    simpa using hb.symm

namespace Host

variable {h t : Host} {e : HostEvent}

/-- A step creates an instance or is an act of one. -/
theorem step_cases (hs : hostMachine.step h e = some t) :
    (∃ c, e = .create c ∧ c.egressPort < 2 ^ 31 ∧
      t = { h with instances := h.instances ++ [c.start] }) ∨
    ∃ i x a a', e = .act i x ∧ h.instances[i]? = some a ∧
      a.Acts (h.env a.process) h.held x a' ∧
      t = { env := h.envAfter a x, instances := h.instances.set i a' } := by
  cases e with
  | create c =>
    unfold hostMachine at hs
    dsimp only at hs
    split at hs
    · rename_i hrange
      cases hs
      exact .inl ⟨c, rfl, hrange.2, rfl⟩
    · cases hs
  | act i x =>
    obtain ⟨a, ha, hs⟩ := Option.bind_eq_some_iff.1 hs
    obtain ⟨a', hact, rfl⟩ := Option.map_eq_some_iff.1 hs
    exact .inr ⟨i, x, a, a', rfl, ha, Instance.acts_of_act hact, rfl⟩

/-- Every instance is sound. -/
def AllSound (h : Host) : Prop := ∀ (i : Nat) (a : Instance), h.instances[i]? = some a → a.Sound

/-- No port has two holders. -/
def Exclusive (h : Host) : Prop := ∀ (i j : Nat) (a b : Instance) port, i ≠ j →
  h.instances[i]? = some a → h.instances[j]? = some b → a.Holds port → ¬ b.Holds port

theorem held_of_holds {j : Nat} {b : Instance} {port : Int} (hb : h.instances[j]? = some b)
    (hold : b.Holds port) : h.held port = true := by
  unfold held
  apply List.any_eq_true.2
  exact ⟨b, List.mem_of_getElem? hb, decide_eq_true hold⟩

theorem AllSound.step (hh : AllSound h) (hs : hostMachine.step h e = some t) : AllSound t := by
  intro j b hb
  rcases step_cases hs with ⟨c, rfl, hrange, rfl⟩ | ⟨i, x, a, a', rfl, ha, hact, rfl⟩
  · rcases getElem?_snoc_cases hb with ⟨-, rfl⟩ | hb
    · exact Instance.sound_start hrange
    · exact hh j b hb
  · rcases getElem?_set_cases hb with ⟨-, rfl⟩ | ⟨-, hb⟩
    · exact (hh i a ha).acts hact
    · exact hh j b hb

theorem start_not_holds (c : InitCall) (port : Int) : ¬ c.start.Holds port := by
  rintro ⟨-, hport⟩
  cases hport

/-- **A bind that succeeds keeps the holders of a port apart.** -/
theorem Exclusive.step (hh : Exclusive h) (hs : hostMachine.step h e = some t) : Exclusive t := by
  intro j k b c port hne hb hc hold hold'
  rcases step_cases hs with ⟨c', rfl, -, rfl⟩ | ⟨i, x, a, a', rfl, ha, hact, rfl⟩
  · rcases getElem?_snoc_cases hb with ⟨-, rfl⟩ | hb
    · exact start_not_holds c' port hold
    · rcases getElem?_snoc_cases hc with ⟨-, rfl⟩ | hc
      · exact start_not_holds c' port hold'
      · exact hh j k b c port hne hb hc hold hold'
  · have hother : ∀ (l : Nat) (d : Instance), l ≠ i → h.instances[l]? = some d →
        d.Holds port → ¬ a'.Holds port := by
      intro l d hl hd holdD hold
      rcases hact.holds hold with hold | hfree
      · exact hh l i d a port hl hd ha holdD hold
      · rw [held_of_holds hd holdD] at hfree
        cases hfree
    rcases getElem?_set_cases hb with ⟨rfl, rfl⟩ | ⟨hj, hb₀⟩
    · rcases getElem?_set_cases hc with ⟨rfl, -⟩ | ⟨hk, hc₀⟩
      · exact hne rfl
      · exact hother k c hk hc₀ hold' hold
    · rcases getElem?_set_cases hc with ⟨rfl, rfl⟩ | ⟨-, hc₀⟩
      · exact hother j b hj hb₀ hold hold'
      · exact hh j k b c port hne hb₀ hc₀ hold hold'

/-- Instance `i` has bound `port`. -/
def Bound (h : Host) (i : Nat) (port : Int) : Prop :=
  ∃ a, h.instances[i]? = some a ∧ a.boundPort = some port

theorem Bound.step (hh : AllSound h) {i : Nat} {port : Int} (hb : h.Bound i port)
    (hs : hostMachine.step h e = some t) : t.Bound i port := by
  obtain ⟨a, ha, hport⟩ := hb
  rcases step_cases hs with ⟨c, rfl, -, rfl⟩ | ⟨j, x, b, b', rfl, hb, hact, rfl⟩
  · refine ⟨a, ?_, hport⟩
    rw [List.getElem?_append_left (List.getElem?_eq_some_iff.1 ha).1]
    exact ha
  · by_cases heq : j = i
    · subst heq
      obtain rfl := Option.some.inj (ha.symm.trans hb)
      refine ⟨b', ?_, ?_⟩
      · exact List.getElem?_set_self (List.getElem?_eq_some_iff.1 ha).1
      · exact hact.keeps_port (fun off hoff => ((hh j a ha).scan off hoff).2) hport
    · exact ⟨a, (List.getElem?_set_ne heq).trans ha, hport⟩

/-! ## The variable -/

/-- Between the two the variable is the port of the instance; what the writer has read is too. -/
structure Agrees (h : Host) : Prop where
  published : ∀ (i : Nat) (a : Instance), h.instances[i]? = some a → a.phase = .published →
    h.env a.process = a.boundPort
  pushed : ∀ (i : Nat) (a : Instance) port, h.instances[i]? = some a → a.pushPort = some port →
    a.boundPort = some port

theorem Agrees.step (hh : AllSound h) (hg : Agrees h) (hok : Unraced h e)
    (hs : hostMachine.step h e = some t) : Agrees t := by
  rcases step_cases hs with ⟨c, rfl, -, rfl⟩ | ⟨i, x, a, a', rfl, ha, hact, rfl⟩
  · have hphase : c.start.phase ≠ .published := by
      unfold InitCall.start
      dsimp only
      split <;> nofun
    constructor
    · intro j b hb hpub
      rcases getElem?_snoc_cases hb with ⟨-, rfl⟩ | hb
      · exact absurd hpub hphase
      · exact hg.published j b hb hpub
    · intro j b port hb hpush
      rcases getElem?_snoc_cases hb with ⟨-, rfl⟩ | hb
      · cases hpush
      · exact hg.pushed j b port hb hpush
  · constructor
    · intro j b hb hpub
      rcases getElem?_set_cases hb with ⟨rfl, rfl⟩ | ⟨hj, hb₀⟩
      · cases hact with
        | publish _ hport => exact Function.update_self _ _ _
        | @bound off => exact absurd hpub (Instance.bind_ne_published off true)
        | @busy off => exact absurd hpub (Instance.bind_ne_published off false)
        | @initCoordinator ok => cases ok <;> cases hpub
        | setJob hphase | receive hphase => exact absurd (hphase.symm.trans hpub) nofun
        | close => cases hpub
      · have henv : h.env b.process = b.boundPort := hg.published j b hb₀ hpub
        cases hact with
        | publish hphase =>
          -- the one act that sets the variable, and only of another process
          have hne : b.process ≠ a.process := fun heq => hok a ha hphase j b hb₀ hj heq hpub
          exact (Function.update_of_ne hne _ _).trans henv
        | _ => exact henv
    · intro j b port hb hpush
      rcases getElem?_set_cases hb with ⟨rfl, rfl⟩ | ⟨-, hb⟩
      · have hscan : ∀ off, a.phase = .scanning off → a.boundPort = none :=
          fun off hoff => ((hh j a ha).scan off hoff).2
        have hkeep : a.pushPort = some port → b.boundPort = some port := fun hold =>
          hact.keeps_port hscan (hg.pushed j a port ha hold)
        cases hact with
        | initCoordinator hphase =>
          obtain ⟨port', hport, -⟩ := (hh j a ha).holds (.inr (.inl hphase))
          have hread : some ((h.env a.process).getD 7002) = some port := hpush
          rw [hg.published j a ha hphase, hport, Option.getD_some] at hread
          exact hport.trans hread
        | bound | busy =>
          apply hkeep
          unfold Instance.bind at hpush
          exact hpush
        | _ => exact hkeep hpush
      · exact hg.pushed j b port hb hpush

/-- Instance `i` is alive and has its port. -/
def Holding (h : Host) (i : Nat) : Prop :=
  ∃ (a : Instance) (port : Int), h.instances[i]? = some a ∧ a.Holds port

/-! ## Runs -/

theorem reachable_sound {es : List HostEvent}
    (hs : hostMachine.exec hostMachine.init es = some h) : AllSound h ∧ Exclusive h := by
  refine hostMachine.exec_invariant (I := fun h => AllSound h ∧ Exclusive h) ?_ ?_ hs
  · rintro s e t ⟨hsound, hex⟩ hstep
    exact ⟨hsound.step hstep, hex.step hstep⟩
  · constructor
    · intro i a ha
      cases ha
    · intro i j a b port _ ha
      cases ha

/-- A port once bound stays through a run. -/
theorem Bound.exec (hh : AllSound h) {i : Nat} {port : Int} (hb : h.Bound i port)
    {es : List HostEvent} (hs : hostMachine.exec h es = some t) : t.Bound i port := by
  refine (hostMachine.exec_invariant (I := fun h => AllSound h ∧ h.Bound i port) ?_ ?_ hs).2
  · rintro s e t ⟨hsound, hbound⟩ hstep
    exact ⟨hsound.step hstep, hbound.step hsound hstep⟩
  · exact ⟨hh, hb⟩

/-- In a run that never races the variable agrees. -/
theorem agrees_of_unraced {es : List HostEvent}
    (hg : hostMachine.Guarded Unraced hostMachine.init es)
    (hs : hostMachine.exec hostMachine.init es = some h) : Agrees h := by
  refine (hostMachine.guarded_invariant (I := fun h => AllSound h ∧ Agrees h) ?_ ?_ hg hs).2
  · rintro s e t ⟨hsound, hagrees⟩ hok hstep
    exact ⟨hsound.step hstep, hagrees.step hsound hok hstep⟩
  · refine ⟨?_, ?_, ?_⟩
    · intro i a ha
      cases ha
    · intro i a ha
      cases ha
    · intro i a port ha
      cases ha

end Host

/-- The proof of a share, or one below the credit bound. -/
def smallProof (lowCredit : Bool) : Proof :=
  { reqId := 16, achievedHex := [48], lowCredit, serial := 0, origin := ⟨[], 0, 0⟩ }

/-- Instance 0 takes the port, instance 1 of another process the next one, both with a job; 1 emits
a share. -/
def twoInstances : List HostEvent :=
  [.create { process := 0 }, .create { process := 1 },
    .act 0 (.bind true), .act 1 (.bind false), .act 1 (.bind true),
    .act 0 .publish, .act 1 .publish,
    .act 1 (.initCoordinator true), .act 0 (.initCoordinator true),
    .act 0 (.setJob (numberedJob 16 16) {}), .act 1 (.setJob (numberedJob 16 16) {}),
    .act 1 (.receive (smallProof false))]

/-- Ready, with the job of `smallProof`. -/
def Instance.working (a : Instance) : Bool :=
  decide (a.phase = .ready) && a.knows (smallProof true)

theorem twoInstances_run : (hostMachine.exec hostMachine.init twoInstances).map (fun h =>
    h.instances.map fun a => (a.working, a.boundPort, a.drawn, a.shares.map (·.nonce))) =
    some [(true, some 47021, 0, []), (true, some 47022, 1, [47022 * 2 ^ 32 + 1])] := by
  decide +kernel

/-- The state after `twoInstances`. -/
theorem twoInstances_state : ∃ (h : Host) (a b : Instance),
    hostMachine.exec hostMachine.init twoInstances = some h ∧ h.instances = [a, b] ∧
      (a.working = true ∧ a.boundPort = some 47021 ∧ a.drawn = 0 ∧ a.shares = []) ∧
      b.working = true ∧ b.boundPort = some 47022 ∧ b.drawn = 1 ∧
      b.shares.map (·.nonce) = [47022 * 2 ^ 32 + 1] := by
  obtain ⟨h, hrun, hmap⟩ := Option.map_eq_some_iff.1 twoInstances_run
  obtain ⟨a, l, hl, ha, hrest⟩ := List.map_eq_cons_iff.1 hmap
  obtain ⟨b, l', hl', hb, hnil⟩ := List.map_eq_cons_iff.1 hrest
  obtain rfl := List.map_eq_nil_iff.1 hnil
  simp only [Prod.mk.injEq, List.map_eq_nil_iff] at ha hb
  exact ⟨h, a, b, hrun, by rw [hl, hl'], ha, hb⟩

namespace Instance

variable {a : Instance} {pr : Proof}

/-- A proof that is kept becomes a share with the next nonce. -/
theorem receive_emits (hknown : a.knows pr = true) (hhex : pr.achievedHex ≠ [])
    (hcredit : pr.lowCredit = false) : ∃ s : PoiShare,
      s.nonce = (a.miner.nonceSeq + 1) % 2 ^ 64 ∧ (a.receive pr).shares = a.shares ++ [s] := by
  obtain ⟨e, he⟩ := Option.isSome_iff_exists.1 hknown
  have hcredit' : ¬ pr.lowCredit = true := ne_true_of_eq_false hcredit
  unfold shares receive Miner.receive
  rw [he]
  dsimp only
  rw [if_neg hhex, if_neg hcredit']
  exact ⟨_, rfl, rfl⟩

/-- A proof below the credit bound draws a nonce and is dropped. -/
theorem receive_drops (hknown : a.knows pr = true) (hhex : pr.achievedHex ≠ [])
    (hlow : pr.lowCredit = true) : (a.receive pr).drawn = a.drawn + 1 ∧
      (a.receive pr).shares = a.shares ∧ (a.receive pr).miner.jobByReq = a.miner.jobByReq := by
  refine ⟨if_pos hknown, ?_⟩
  obtain ⟨e, he⟩ := Option.isSome_iff_exists.1 hknown
  unfold shares receive Miner.receive
  rw [he]
  dsimp only
  rw [if_neg hhex, if_pos hlow]
  exact ⟨rfl, rfl⟩

end Instance

/-- A message that a ready instance drains. -/
theorem step_receive {h : Host} {i : Nat} {a : Instance} {pr : Proof}
    (ha : h.instances[i]? = some a) (hready : a.phase = .ready) :
    hostMachine.step h (.act i (.receive pr)) =
      some { h with instances := h.instances.set i (a.receive pr) } := by
  unfold hostMachine
  dsimp only
  rw [ha, Option.bind_some]
  unfold Instance.act
  dsimp only
  rw [if_pos hready]
  rfl

/-- `n` proofs dropped draw `n` nonces. -/
theorem exec_drops {i : Nat} {pr : Proof} (hhex : pr.achievedHex ≠ [])
    (hlow : pr.lowCredit = true) (n : Nat) : ∀ {h : Host} {a : Instance},
      h.instances[i]? = some a → a.phase = .ready → a.knows pr = true →
      ∃ a', hostMachine.exec h (List.replicate n (.act i (.receive pr))) =
          some { h with instances := h.instances.set i a' } ∧
        a'.phase = .ready ∧ a'.boundPort = a.boundPort ∧ a'.drawn = a.drawn + n ∧
        a'.shares = a.shares ∧ a'.miner.jobByReq = a.miner.jobByReq := by
  induction n with
  | zero =>
    intro h a ha hready _
    refine ⟨a, ?_, hready, rfl, rfl, rfl, rfl⟩
    obtain ⟨hlt, rfl⟩ := List.getElem?_eq_some_iff.1 ha
    rw [List.replicate_zero, Runs.Machine.exec_nil, List.set_getElem_self hlt]
  | succ n ih =>
    intro h a ha hready hknown
    obtain ⟨hdrawn, hshares, hjobs⟩ := Instance.receive_drops hknown hhex hlow
    have hlt : i < h.instances.length := (List.getElem?_eq_some_iff.1 ha).1
    have hstep := @step_receive h i a pr ha hready
    have hknown' : (a.receive pr).knows pr = true := by
      unfold Instance.knows
      rw [hjobs]
      exact hknown
    obtain ⟨a', hrun, hready', hport, hdrawn', hshares', hjobs'⟩ :=
      @ih { h with instances := h.instances.set i (a.receive pr) } (a.receive pr)
        (List.getElem?_set_self hlt) hready hknown'
    refine ⟨a', ?_, hready', hport, ?_, hshares'.trans hshares, hjobs'.trans hjobs⟩
    · rw [List.replicate_succ, Runs.Machine.exec_cons]
      refine ⟨_, hstep, hrun.trans ?_⟩
      rw [List.set_set]
    · rw [hdrawn', hdrawn]
      omega

/-- Instance 0 drops 2^32 proofs before it emits its first share. -/
def dropsThenEmits (n : Nat) : List HostEvent :=
  twoInstances ++ (List.replicate n (.act 0 (.receive (smallProof true))) ++
    [.act 0 (.receive (smallProof false))])

/-- The share emitted after `n` drops carries nonce `n + 1` of the port. -/
theorem dropsThenEmits_run (n : Nat) : ∃ (h : Host) (a b : Instance) (s t : PoiShare),
    hostMachine.exec hostMachine.init (dropsThenEmits n) = some h ∧ h.instances = [a, b] ∧
      a.Alive ∧ b.Alive ∧ a.shares = [s] ∧ b.shares = [t] ∧
      s.nonce = Instance.nonceAt (some 47021) (n + 1) ∧ t.nonce = 47022 * 2 ^ 32 + 1 := by
  obtain ⟨g, a, b, hpre, hlist, ⟨hworks, hport, hdrawn, hshares⟩, hworks', -, -, hshares'⟩ :=
    twoInstances_state
  obtain ⟨hready, hknown⟩ := Bool.and_eq_true_iff.1 hworks
  obtain ⟨hready', -⟩ := Bool.and_eq_true_iff.1 hworks'
  have hphase : a.phase = .ready := of_decide_eq_true hready
  have hphase' : b.phase = .ready := of_decide_eq_true hready'
  have ha : g.instances[0]? = some a := by rw [hlist]; rfl
  obtain ⟨a', hdrops, hreadyD, hportD, hdrawnD, hsharesD, hjobsD⟩ :=
    @exec_drops 0 (smallProof true) (by decide) rfl n g a ha hphase hknown
  rw [hlist] at hdrops
  have hknownD : a'.knows (smallProof false) = true := by
    unfold Instance.knows
    rw [hjobsD]
    exact hknown
  have ha' : ([a', b] : List Instance)[0]? = some a' := rfl
  have hstep := @step_receive { g with instances := [a', b] } 0 a' (smallProof false) ha' hreadyD
  obtain ⟨s, hnonce, hs⟩ := Instance.receive_emits hknownD (by decide) rfl
  obtain ⟨t, ht, hnonce'⟩ := List.map_eq_singleton_iff.1 hshares'
  have hrun : hostMachine.exec hostMachine.init
      (twoInstances ++ List.replicate n (.act 0 (.receive (smallProof true)))) =
      some { g with instances := [a', b] } :=
    hostMachine.exec_append.2 ⟨g, hpre, hdrops⟩
  have hseq : a'.miner.nonceSeq = Instance.nonceAt (some 47021) n := by
    have hsound := (Host.reachable_sound hrun).1 0 a' rfl
    rw [hsound.seeded (.inr hreadyD), hportD, hport, hdrawnD, hdrawn, Nat.zero_add]
  refine ⟨{ g with instances := [a'.receive (smallProof false), b] }, _, b, s, t, ?_, rfl, ?_, ?_,
    ?_, ht, ?_, hnonce'⟩
  · unfold dropsThenEmits
    rw [← List.append_assoc]
    exact hostMachine.exec_snoc.2 ⟨_, hrun, hstep⟩
  · have hready₁ : (a'.receive (smallProof false)).phase = .ready := hreadyD
    unfold Instance.Alive
    rw [hready₁]
    nofun
  · unfold Instance.Alive
    rw [hphase']
    nofun
  · rw [hs, hsharesD, hshares]
    rfl
  · rw [hnonce, hseq, Instance.nonceAt_succ]

/-- Two calls of `init` in one process. -/
def racingInits : List HostEvent :=
  [.create { process := 0 }, .create { process := 0 }, .act 0 (.bind true), .act 1 (.bind false),
    .act 1 (.bind true), .act 0 .publish, .act 1 .publish, .act 0 (.initCoordinator true)]

/-- The balanced split of streams across groups. -/
def groupSizes : Nat → Int → List Int
  | 0, _ => []
  | r + 1, rest =>
    let cnt := rest.tdiv (r + 1)
    cnt :: groupSizes r (rest - cnt)

/-- The calls of `init` that `SamplerPool::init` makes. -/
def poolCalls (process : Nat) (nStreams groups baseEgressPort : Int) : List InitCall :=
  (groupSizes (max 1 (min groups nStreams)).toNat nStreams).zipIdx.map fun c =>
    { process, nStreams := c.1, egressPort := baseEgressPort + c.2 }

/-- What `main` constructs its pools from. -/
structure MainConfig where
  nWorkers : Nat := 1
  nStreams : Int := 1
  nGroups : Int := 1
  egressBase : Int := 47021
  wantDouble : Bool := false

/-- The calls of `init` in a process, in order: worker by worker, batch A and then batch B. -/
def MainConfig.calls (cfg : MainConfig) (process : Nat) : List InitCall :=
  (List.range cfg.nWorkers).flatMap fun w =>
    poolCalls process cfg.nStreams cfg.nGroups (cfg.egressBase + w * 64) ++
      if cfg.wantDouble = true then
        poolCalls process cfg.nStreams cfg.nGroups (cfg.egressBase + w * 64 + 32)
      else []

/-- A process makes its next call of `init` once all before it have returned true. -/
def AsMain (cfg : Nat → MainConfig) (h : Host) : HostEvent → Prop
  | .create c =>
    let made := h.instances.filter fun a => a.process == c.process
    ((cfg c.process).calls c.process)[made.length]? = some { c with sockets := true } ∧
      ∀ a ∈ made, a.phase = .ready
  | .act .. => True

/-- `init` has not returned. -/
def InitPhase.Within (ph : InitPhase) : Prop :=
  (∃ off, ph = .scanning off) ∨ ph = .bound ∨ ph = .published

/-- An act does not take an instance back into `init`. -/
theorem Instance.Acts.within {env : Option Int} {held : Int → Bool} {a a' : Instance} {x : Act}
    (h : Instance.Acts env held a x a') (hw : InitPhase.Within a'.phase) :
    InitPhase.Within a.phase := by
  cases h with
  | bound hphase | busy hphase => exact .inl ⟨_, hphase⟩
  | publish hphase => exact .inr (.inl hphase)
  | initCoordinator hphase => exact .inr (.inr hphase)
  | setJob | receive => exact hw
  | close => rcases hw with ⟨off, hw⟩ | hw | hw <;> cases hw

/-- One call of `init` at a time in a process. -/
def OneWithin (h : Host) : Prop := ∀ (i j : Nat) (a b : Instance), i ≠ j →
  h.instances[i]? = some a → h.instances[j]? = some b → a.process = b.process →
  InitPhase.Within a.phase → ¬ InitPhase.Within b.phase

theorem OneWithin.step {cfg : Nat → MainConfig} {h t : Host} {e : HostEvent} (hh : OneWithin h)
    (hok : AsMain cfg h e) (hs : hostMachine.step h e = some t) : OneWithin t := by
  intro j k b c hne hb hc hproc hw hw'
  rcases Host.step_cases hs with ⟨call, rfl, -, rfl⟩ | ⟨i, x, a, a', rfl, ha, hact, rfl⟩
  · have hothers : ∀ (l : Nat) (d : Instance), h.instances[l]? = some d → d.process = call.process →
        ¬ InitPhase.Within d.phase := by
      intro l d hd hproc hwithin
      have hready : d.phase = .ready := by
        apply hok.2
        exact List.mem_filter.2 ⟨List.mem_of_getElem? hd, beq_iff_eq.2 hproc⟩
      rw [hready] at hwithin
      rcases hwithin with ⟨off, hw⟩ | hw | hw <;> cases hw
    rcases getElem?_snoc_cases hb with ⟨hj, rfl⟩ | hb₀
    · rcases getElem?_snoc_cases hc with ⟨hk, -⟩ | hc₀
      · exact hne (hj.trans hk.symm)
      · exact hothers k c hc₀ hproc.symm hw'
    · rcases getElem?_snoc_cases hc with ⟨-, rfl⟩ | hc₀
      · exact hothers j b hb₀ hproc hw
      · exact hh j k b c hne hb₀ hc₀ hproc hw hw'
  · have hsame := hact.process
    rcases getElem?_set_cases hb with ⟨rfl, rfl⟩ | ⟨-, hb₀⟩
    · rcases getElem?_set_cases hc with ⟨rfl, -⟩ | ⟨-, hc₀⟩
      · exact hne rfl
      · exact hh j k a c hne ha hc₀ (hsame.symm.trans hproc) (hact.within hw) hw'
    · rcases getElem?_set_cases hc with ⟨rfl, rfl⟩ | ⟨-, hc₀⟩
      · exact hh j k b a hne hb₀ ha (hproc.trans hsame) hw (hact.within hw')
      · exact hh j k b c hne hb₀ hc₀ hproc hw hw'

/-- **Processes that construct their pools as `main` does never race.** -/
theorem main_unraced {cfg : Nat → MainConfig} {es : List HostEvent}
    (hg : hostMachine.Guarded (AsMain cfg) hostMachine.init es) :
    hostMachine.Guarded Unraced hostMachine.init es := by
  have hboth : hostMachine.Guarded (fun h e => AsMain cfg h e ∧ Unraced h e)
      hostMachine.init es := by
    refine (hostMachine.guarded_congr_of_kept (I := OneWithin) ?_ ?_ ?_).1 hg
    · intro h e t hh hok hs
      exact hh.step hok hs
    · intro h e hh
      refine ⟨fun hok => ⟨hok, ?_⟩, And.left⟩
      cases e with
      | create => trivial
      | act i x =>
        cases x with
        | publish =>
          intro a ha hphase j b hb hne hproc hpub
          exact hh j i b a hne hb ha hproc (.inr (.inr hpub)) (.inr (.inl hphase))
        | _ => trivial
    · intro i j a b _ ha
      cases ha
  exact Runs.Machine.Guarded.mono _ (fun _ _ => And.right) hboth

end Poi
