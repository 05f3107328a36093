import Mathlib.Data.Finmap
import SuprMeow.Poi.Admission
import SuprMeow.Poi.ParamSwitch

/-!
# The parameter map of the sampler

`update_from_payload` and the setters of the proof writer, field by field in their order, over any
map of strings.  How the standard library reads numbers is a parameter.

* `payloadUpdates_settle` — every field is overwritten or left alone, so a map written twice is
  written once;
* `payload_skip_exact` — the coordinator of `ParamSwitch` on such maps;
* `payload_skip_torn` — a map that throws, skipped.
-/

set_option autoImplicit false

open Stratum (Bytes text)

namespace Poi

/-- A map of strings. -/
abbrev Payload := Finmap fun _ : Bytes => Bytes

/-- What `apply_pow_params` sets: the fields of the hasher, then those of the proof writer. -/
inductive HeldField where
  | hB
  | v
  | tick
  | requestId
  | v4Mode
  | target
  | shareTarget
  /-- `difficulty` and `difficulty_i64`. -/
  | difficulty
  | headerPrefix
  | ipfsCid
  | temperature
  | topP
  | topK
  | repetitionPenalty
  | modelConfigDiff
  | computePrecision
  | modelIdentifier
  | writerModelIdentifier
  | writerComputePrecision
  | writerIpfsCid
  deriving DecidableEq

/-- `std::stoi`, `std::stoll` and `std::stof`, `none` where they throw, and the cast of a float. -/
structure NumberReaders (F : Type) where
  stoi : Bytes → Option Int
  stoll : Bytes → Option Int
  stof : Bytes → Option F
  toInt64 : F → Int

/-- What a string does to its field. -/
inductive Reading (α : Type) where
  | throws
  | keeps
  | sets (v : α)

def Reading.ofOption {α : Type} : Option α → Reading α
  | none => .throws
  | some v => .sets v

namespace HeldField

variable {F : Type}

def Value (F : Type) : HeldField → Type
  | tick | requestId | topK => Int
  | v4Mode => Bool
  | difficulty => F × Int
  | temperature | topP | repetitionPenalty => F
  | _ => Bytes

/-- The key of the map that is read for a field. -/
def key : HeldField → Bytes
  | hB => text "block_hash"
  | v => text "vdf"
  | tick => text "tick"
  | requestId => text "request_id"
  | v4Mode => text "proof_version"
  | target => text "target"
  | shareTarget => text "share_target"
  | difficulty => text "difficulty"
  | headerPrefix => text "header_prefix"
  | ipfsCid | writerIpfsCid => text "ipfs_cid"
  | temperature => text "temperature"
  | topP => text "top_p"
  | topK => text "top_k"
  | repetitionPenalty => text "repetition_penalty"
  | modelConfigDiff => text "model_config_diff"
  | computePrecision | writerComputePrecision => text "compute_precision"
  | modelIdentifier | writerModelIdentifier => text "model_identifier"

/-- `V4_PROOF_VERSION`. -/
def v4ProofVersion : Int := 4

variable (rd : NumberReaders F)

/-- How the string of a field is read. -/
def read : (f : HeldField) → Bytes → Reading (f.Value F)
  | hB, s | v, s | headerPrefix, s => .ofOption (PowUtils.hexToBytes s)
  | tick, s | requestId, s | topK, s => .ofOption (rd.stoi s)
  -- a version that does not read leaves the mode unchanged
  | v4Mode, s =>
    match rd.stoi s with
    | some n => .sets (decide (v4ProofVersion ≤ n))
    | none => .keeps
  | target, s => .ofOption (PowUtils.hexToBytes (padTarget s))
  | shareTarget, s =>
    if s = [] then .sets [] else .ofOption (PowUtils.hexToBytes (padTarget s))
  | difficulty, s =>
    .ofOption ((rd.stof s).map fun d => (d, (rd.stoll s).getD (rd.toInt64 d)))
  | temperature, s | topP, s | repetitionPenalty, s => .ofOption (rd.stof s)
  | ipfsCid, s | modelConfigDiff, s | computePrecision, s | modelIdentifier, s
  | writerModelIdentifier, s | writerComputePrecision, s | writerIpfsCid, s => .sets s

/-- The order in which `apply_pow_params` sets the fields. -/
def order : List HeldField :=
  [hB, v, tick, requestId, v4Mode, target, shareTarget, difficulty, headerPrefix, ipfsCid,
    temperature, topP, topK, repetitionPenalty, modelConfigDiff, computePrecision,
    modelIdentifier, writerModelIdentifier, writerComputePrecision, writerIpfsCid]

end HeldField

/-- The hasher and the proof writer. -/
abbrev Held (F : Type) : Type := (f : HeldField) → f.Value F

section Updates

variable {F : Type} (rd : NumberReaders F)

/-- One sub-step: a field whose key the map does not have is left alone. -/
def payloadUpdate (p : Payload) (f : HeldField) : Option (Held F → Held F) :=
  match p.lookup f.key with
  | none => some id
  | some s =>
    match f.read rd s with
    | .throws => none
    | .keeps => some id
    | .sets v => some fun h => Function.update h f v

/-- The sub-steps of `apply_pow_params`. -/
def payloadUpdates (p : Payload) : List (Option (Held F → Held F)) :=
  HeldField.order.map (payloadUpdate rd p)

theorem payloadUpdate_overwrites {p : Payload} {f : HeldField} {u : Held F → Held F}
    (h : payloadUpdate rd p f = some u) : Fallible.Overwrites u := by
  unfold payloadUpdate at h
  split at h
  · cases h
    exact Fallible.overwrites_id
  · split at h
    · cases h
    · cases h
      exact Fallible.overwrites_id
    · cases h
      exact Fallible.overwrites_update f _

/-- **Writing a map twice is writing it once.** -/
theorem payloadUpdates_settle : Settles (payloadUpdates rd) := by
  intro p h
  have hassign : Fallible.Overwrites fun h => (Fallible.assign (payloadUpdates rd p) h).1 := by
    apply Fallible.Overwrites.assign
    intro u hu w hw
    obtain ⟨f, -, hf⟩ := List.mem_map.1 hu
    exact payloadUpdate_overwrites rd (hf.trans hw)
  exact hassign.idem h

/-- The empty map sets nothing. -/
theorem assign_empty (h : Held F) : Fallible.assign (payloadUpdates rd ∅) h = (h, true) := rfl

/-- A coordinator whose hasher and proof writer are as constructed. -/
def freshSwitch (held : Held F) : Switch Payload (Held F) := { current := some ∅, held }

theorem freshSwitch_coherent (held : Held F) :
    (freshSwitch held).Coherent (payloadUpdates rd) := by
  constructor
  · rintro p ⟨⟩ -
    exact assign_empty rd held
  · intro seq hseq
    cases hseq
  · intro _
    exact Option.some_ne_none _

/-- **Skipping a map is invisible exactly when no call skips one that threw**, over any calls and
any maps; and when no call is on the active sequence or on the map of its sequence after that map
threw, every call sees the map of its own sequence. -/
theorem payload_skip_exact (held : Held F) (cs : List (ParamCall Payload)) :
    ((bothMachine (payloadUpdates rd) (freshSwitch held)).Guarded (SeesSame (payloadUpdates rd))
        (freshSwitch held, freshSwitch held) cs ↔
      (bothMachine (payloadUpdates rd) (freshSwitch held)).Guarded
        (fun s c => ¬ s.1.SkipsTorn (payloadUpdates rd) c)
        (freshSwitch held, freshSwitch held) cs) ∧
    ((bothMachine (payloadUpdates rd) (freshSwitch held)).Guarded
        (fun s c => ¬ s.1.UsesTorn (payloadUpdates rd) c)
        (freshSwitch held, freshSwitch held) cs →
      (bothMachine (payloadUpdates rd) (freshSwitch held)).Guarded
        (fun s c => SeesSame (payloadUpdates rd) s c ∧ SeesOwn (payloadUpdates rd) s.1 c)
        (freshSwitch held, freshSwitch held) cs) := by
  have hidem := payloadUpdates_settle rd
  have hfresh := freshSwitch_coherent rd held
  exact ⟨skips_exactly_iff hidem hfresh cs, sees_own hidem hfresh⟩

end Updates

/-- The only number of the map below does not read. -/
def strictReaders : NumberReaders Unit where
  stoi := fun _ => none
  stoll := fun _ => none
  stof := fun _ => none
  toInt64 := fun _ => 0

/-- The block hash reads, the tick does not. -/
def tornMap : Payload :=
  [⟨text "block_hash", text "aa"⟩, ⟨text "tick", text "x"⟩].toFinmap

/-- A hasher and a proof writer as constructed. -/
def freshHeld : Held Unit
  | .hB | .v => List.replicate 32 0
  | .target => List.replicate 31 0 ++ [255]
  | .tick | .requestId => (0 : Int)
  | .topK => (50 : Int)
  | .v4Mode => false
  | .difficulty => ((), 0)
  | .temperature | .topP | .repetitionPenalty => ()
  | .modelConfigDiff => text "\x7b\x7d"
  | .shareTarget | .headerPrefix | .ipfsCid | .computePrecision | .modelIdentifier
  | .writerModelIdentifier | .writerComputePrecision | .writerIpfsCid => ([] : Bytes)

/-- Two maps that read. -/
def hashMap (digits : String) : Payload :=
  [⟨text "block_hash", text digits⟩, ⟨text "proof_version", text "x"⟩].toFinmap

/-- Two sequences that take turns. -/
def sampledRun : List (ParamCall Payload) :=
  [.updatePowParamsForSequence 0 (hashMap "aa"), .sample 0,
    .updatePowParamsForSequence 1 (hashMap "bb"), .sample 1, .sample 1, .check 0 false]

/-- Every call that uses a sequence goes through, with the map of that sequence. -/
theorem payload_skip_exact_sampled :
    (bothMachine (payloadUpdates strictReaders) (freshSwitch freshHeld)).Guarded
        (fun s c => ((s.1.call (payloadUpdates strictReaders) true c).2.isSome = c.uses.isSome))
        (freshSwitch freshHeld, freshSwitch freshHeld) sampledRun ∧
      (bothMachine (payloadUpdates strictReaders) (freshSwitch freshHeld)).Guarded
        (fun s c => SeesSame (payloadUpdates strictReaders) s c ∧
          SeesOwn (payloadUpdates strictReaders) s.1 c)
        (freshSwitch freshHeld, freshSwitch freshHeld) sampledRun :=
  ⟨by decide +kernel, (payload_skip_exact strictReaders freshHeld sampledRun).2 (by decide +kernel)⟩

/-- **The second sample goes on with the half-written map**, where the unpatched coordinator throws
again. -/
theorem payload_skip_torn :
    ¬ (bothMachine (payloadUpdates strictReaders) (freshSwitch freshHeld)).Guarded
        (fun s c => SeesSame (payloadUpdates strictReaders) s c ∧
          SeesOwn (payloadUpdates strictReaders) s.1 c)
        (freshSwitch freshHeld, freshSwitch freshHeld)
        [.updatePowParamsForSequence 0 tornMap, .sample 0, .sample 0] := by
  intro h
  obtain ⟨-, h⟩ := h
  obtain ⟨-, h⟩ := h _ rfl
  have hsame := congrArg Option.isSome (h _ rfl).1.1
  revert hsame
  decide +kernel

end Poi
