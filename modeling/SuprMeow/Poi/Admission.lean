import SuprMeow.Library.Fallible
import SuprMeow.Poi.CleanJobs
import SuprMeow.Poi.Hex
import SuprMeow.Poi.VdfTriple

/-!
# What `set_job` admits

`set_job` with its strings read: the parent hash through `hex_to_bytes` of `poi.cpp`, outside the
`try`, the parameters through `update_from_payload`, inside it.  The client passes on any
`header_prefix` of 152 characters.  `proveSlow` stands for chiavdf.

* `setJobHex_isSome_iff` — when the call returns at all;
* `setJobHex_true_iff` — the jobs it accepts;
* `admission_sound_iff` — it never throws and accepts hexadecimal headers only, exactly when the
  job is `Admissible`;
* `header_sound_iff` — the header prefixes for which that is so whatever else the job has.
-/

set_option autoImplicit false

namespace Poi

open Stratum (Bytes text)

/-! ## `update_from_payload` -/

/-- The fields of `PowHasher` set from strings that may not read, and the model. -/
structure PowHasher where
  hB : Bytes := List.replicate 32 0
  v : Bytes := List.replicate 32 0
  tick : Nat := 0
  requestId : Nat := 0
  target : Bytes := List.replicate 31 0 ++ [255]
  shareTarget : Bytes := []
  headerPrefix : Bytes := []
  modelIdentifier : Bytes := []
  deriving DecidableEq

/-- `std::stoi` on the decimal digits of a number. -/
def stoi (n : Nat) : Option Nat := if n < 2 ^ 31 then some n else none

/-- A target is brought to 64 characters, from the left. -/
def padTarget (s : Bytes) : Bytes :=
  if s.length < 64 then List.replicate (64 - s.length) 48 ++ s
  else if 64 < s.length then s.drop (s.length - 64)
  else s

namespace PowHasher

/-- The assignments in their order; `none` where reading the string throws.  An empty share target
means none. -/
def updates (p : PowParams) : List (Option (PowHasher → PowHasher)) :=
  [(PowUtils.hexToBytes p.blockHash).map fun hB h => { h with hB },
    (PowUtils.hexToBytes p.vdf).map fun v h => { h with v },
    (stoi p.tick).map fun tick h => { h with tick },
    (stoi p.requestId).map fun requestId h => { h with requestId },
    (PowUtils.hexToBytes (padTarget p.target)).map fun target h => { h with target },
    (if p.shareTarget = [] then some [] else PowUtils.hexToBytes (padTarget p.shareTarget)).map
      fun shareTarget h => { h with shareTarget },
    (PowUtils.hexToBytes p.headerPrefix).map fun headerPrefix h => { h with headerPrefix },
    some fun h => { h with modelIdentifier := p.modelIdentifier }]

/-- The hasher afterwards, and whether nothing was thrown. -/
def updateFromPayload (h : PowHasher) (p : PowParams) : PowHasher × Bool :=
  Fallible.assign (updates p) h

end PowHasher

/-! ## The call -/

/-- `Vdf::to_hex`. -/
def toHex (v : Bytes) : Bytes :=
  v.flatMap fun b => [Stratum.hexDigit (b.toNat / 16), Stratum.hexDigit (b.toNat % 16)]

/-- How `job_by_req` is iterated. -/
structure MapOrder where
  run : List Nat → List Nat := id
  perm : ∀ l, (run l).Perm l := by exact fun l => List.Perm.refl l

/-- `parent_bytes`; `none` when reading the parent throws. -/
def PoiJobParams.challenge (p : PoiJobParams) : Option Bytes := hexToBytes p.parent

section Call

variable (proveSlow : Bytes → Nat → Bytes)

/-- `Vdf::prove`; an exception of the prover is caught there. -/
def vdfProve (prev : Bytes) (iterations : Nat) : Bytes :=
  if prev.length ≠ 32 ∨ iterations = 0 then [] else proveSlow prev iterations

/-- The local proof over a parent, in hex. -/
def proveHex (parent : Bytes) (tick : Nat) : Bytes :=
  toHex (vdfProve proveSlow ((hexToBytes parent).getD []) tick)

namespace Miner

/-- `set_job` up to the parameter map. -/
def afterVdf (m : Miner) (p : PoiJobParams) : Miner × Bool :=
  updateVdf { m with lastCtx := fun _ => none } p (proveHex proveSlow p.parent p.selfTick)

/-- What the strings of a job decide. -/
def attempt (m : Miner) (h : PowHasher) (p : PoiJobParams) (o : MapOrder) : Attempt where
  parentHex := p.challenge.isSome
  accepted := (h.updateFromPayload ((m.afterVdf proveSlow p).1.powParams p)).2
  order := o.run
  perm := o.perm

/-- The hasher after the call. -/
def hasherAfter (m : Miner) (h : PowHasher) (p : PoiJobParams) : PowHasher :=
  if p.valid ∧ p.headerPrefix.length = 152 ∧ (m.afterVdf proveSlow p).2 then
    (h.updateFromPayload ((m.afterVdf proveSlow p).1.powParams p)).1
  else h

/-- `set_job`: the miner, the hasher and the return value; `none` when it throws. -/
def setJobHex (m : Miner) (h : PowHasher) (p : PoiJobParams) (o : MapOrder) :
    Option (Miner × PowHasher × Bool) :=
  ((m.attempt proveSlow h p o).call (proveHex proveSlow) m p).map fun r =>
    (r.1, m.hasherAfter proveSlow h p, r.2)

end Miner

/-! ## The property and the condition -/

/-- The call returns, and true only on a header of 152 hexadecimal digits, whose bytes 4 to 36 are
then the VDF challenge. -/
structure AdmissionSound (p : PoiJobParams) (r : Option (Miner × PowHasher × Bool)) : Prop where
  returns : r.isSome
  accepts : ∀ m h, r = some (m, h, true) →
    p.headerPrefix.length = 152 ∧ AllHex p.headerPrefix ∧
      h.headerPrefix = hexBytes p.headerPrefix ∧
      p.challenge = some ((h.headerPrefix.drop 4).take 32)

/-- A local proof is needed and there is none. -/
def Miner.Unproved (m : Miner) (p : PoiJobParams) : Prop :=
  p.poolVdf = [] ∧ m.newVdf p ∧ proveHex proveSlow p.parent p.selfTick = []

/-- The VDF and the tick that go into the parameters. -/
def Miner.vdfFor (m : Miner) (p : PoiJobParams) : Bytes × Nat :=
  if m.newVdf p then
    (if p.poolVdf ≠ [] then p.poolVdf else proveHex proveSlow p.parent p.selfTick, p.tick)
  else (m.vdfHex, m.vdfTick)

/-- Every string of the parameters reads. -/
structure ParamsReadable (m : Miner) (p : PoiJobParams) : Prop where
  vdf : Readable (m.vdfFor proveSlow p).1
  tick : (m.vdfFor proveSlow p).2 < 2 ^ 31
  requestId : p.requestId < 2 ^ 31
  target : Readable (padTarget p.blockTarget)
  shareTarget : p.shareTarget ≠ [] → Readable (padTarget p.shareTarget)
  headerPrefix : Readable p.headerPrefix

instance (m : Miner) (p : PoiJobParams) : Decidable (m.Unproved proveSlow p) :=
  inferInstanceAs (Decidable (_ ∧ _))

instance (m : Miner) (p : PoiJobParams) : Decidable (ParamsReadable proveSlow m p) :=
  decidable_of_iff (Readable (m.vdfFor proveSlow p).1 ∧ (m.vdfFor proveSlow p).2 < 2 ^ 31 ∧
      p.requestId < 2 ^ 31 ∧ Readable (padTarget p.blockTarget) ∧
        (p.shareTarget ≠ [] → Readable (padTarget p.shareTarget)) ∧ Readable p.headerPrefix)
    ⟨fun h => ⟨h.1, h.2.1, h.2.2.1, h.2.2.2.1, h.2.2.2.2.1, h.2.2.2.2.2⟩,
      fun h => ⟨h.vdf, h.tick, h.requestId, h.target, h.shareTarget, h.headerPrefix⟩⟩

/-- The job is not a job, or its header prefix is hexadecimal, or the parent in it reads and
something else fails. -/
def Admissible (m : Miner) (p : PoiJobParams) : Prop :=
  p.valid = false ∨ p.headerPrefix.length ≠ 152 ∨ AllHex p.headerPrefix ∨
    Readable p.parent ∧ (m.Unproved proveSlow p ∨ ¬ ParamsReadable proveSlow m p)

end Call

/-! ## The strings -/

theorem stoi_isSome_iff (n : Nat) : (stoi n).isSome ↔ n < 2 ^ 31 := by
  unfold stoi
  split
  · rename_i h
    exact iff_of_true rfl h
  · rename_i h
    exact iff_of_false nofun h

/-- The parent is 32 of the pairs of the header prefix. -/
theorem Readable.parent {p : PoiJobParams} (h : Readable p.headerPrefix) : Readable p.parent :=
  (Pairs.All.drop 4 h).take 32

theorem length_parent {p : PoiJobParams} (hlen : p.headerPrefix.length = 152) :
    p.parent.length = 64 := by
  simp [PoiJobParams.parent, hlen]

theorem challenge_eq {p : PoiJobParams} (hlen : p.headerPrefix.length = 152) :
    p.challenge = PowUtils.hexToBytes p.parent :=
  hexToBytes_eq (by rw [length_parent hlen])

theorem challenge_isSome_iff {p : PoiJobParams} (hlen : p.headerPrefix.length = 152) :
    p.challenge.isSome ↔ Readable p.parent := by
  rw [challenge_eq hlen, PowUtils.hexToBytes_isSome_iff]

/-- On a hexadecimal header the challenge is bytes 4 to 36. -/
theorem challenge_of_digits {p : PoiJobParams} (hlen : p.headerPrefix.length = 152)
    (h : AllHex p.headerPrefix) :
    p.challenge = some (((hexBytes p.headerPrefix).drop 4).take 32) := by
  have hparent : AllHex p.parent := fun b hb => h b (List.mem_of_mem_drop (List.mem_of_mem_take hb))
  rw [challenge_eq hlen, PowUtils.hexToBytes_of_digits hparent (by rw [length_parent hlen])]
  apply congrArg some
  unfold hexBytes
  rw [← Pairs.map_drop, ← Pairs.map_take]
  rfl

namespace PowHasher

/-- **When `update_from_payload` throws nothing.** -/
theorem updateFromPayload_snd (h : PowHasher) (p : PowParams) :
    (h.updateFromPayload p).2 = true ↔
      Readable p.blockHash ∧ Readable p.vdf ∧ p.tick < 2 ^ 31 ∧ p.requestId < 2 ^ 31 ∧
        Readable (padTarget p.target) ∧
        (p.shareTarget ≠ [] → Readable (padTarget p.shareTarget)) ∧ Readable p.headerPrefix := by
  have hshare : (if p.shareTarget = [] then some []
      else PowUtils.hexToBytes (padTarget p.shareTarget)).isSome ↔
      (p.shareTarget ≠ [] → Readable (padTarget p.shareTarget)) := by
    split
    · rename_i hempty
      simp [hempty]
    · rename_i hne
      rw [PowUtils.hexToBytes_isSome_iff, imp_iff_right hne]
  unfold updateFromPayload
  rw [Fallible.assign_snd]
  simp only [updates, List.all_cons, List.all_nil, Option.isSome_map, Bool.and_eq_true,
    PowUtils.hexToBytes_isSome_iff, stoi_isSome_iff, hshare]
  simp

/-- The header prefix it leaves is the one it read. -/
theorem updateFromPayload_headerPrefix {h : PowHasher} {p : PowParams}
    (hok : (h.updateFromPayload p).2 = true) :
    PowUtils.hexToBytes p.headerPrefix = some (h.updateFromPayload p).1.headerPrefix := by
  unfold updateFromPayload at hok ⊢
  rw [Fallible.assign_snd] at hok
  simp only [updates, List.all_cons, List.all_nil, Option.isSome_map, Bool.and_eq_true,
    Option.isSome_iff_exists] at hok
  obtain ⟨⟨v1, h1⟩, ⟨v2, h2⟩, ⟨v3, h3⟩, ⟨v4, h4⟩, ⟨v5, h5⟩, ⟨v6, h6⟩, ⟨v7, h7⟩, -⟩ := hok
  simp only [updates, h1, h2, h3, h4, h5, h6, h7, Option.map_some, Fallible.assign]

end PowHasher

/-! ## The call, case by case -/

section Call

variable (proveSlow : Bytes → Nat → Bytes) {m : Miner} {h : PowHasher} {p : PoiJobParams}
  {o : MapOrder}

/-- The VDF part of the call leaves the VDF the parameters want. -/
theorem afterVdf_spec (hp : ¬ m.Unproved proveSlow p) :
    (m.afterVdf proveSlow p).2 = true ∧ (m.afterVdf proveSlow p).1.jobByReq = m.jobByReq ∧
      (m.afterVdf proveSlow p).1.vdfHex = (m.vdfFor proveSlow p).1 ∧
      (m.afterVdf proveSlow p).1.vdfTick = (m.vdfFor proveSlow p).2 := by
  unfold Miner.afterVdf Miner.vdfFor
  by_cases hnew : m.newVdf p
  · have hok : ¬ (p.poolVdf = [] ∧ proveHex proveSlow p.parent p.selfTick = []) :=
      fun hf => hp ⟨hf.1, hnew, hf.2⟩
    obtain ⟨proved, hv⟩ :=
      updateVdf_new (show Miner.newVdf { m with lastCtx := fun _ => none } p from hnew) hok
    rw [hv, if_pos hnew]
    exact ⟨rfl, rfl, rfl, rfl⟩
  · rw [updateVdf_kept (show ¬ Miner.newVdf { m with lastCtx := fun _ => none } p from hnew),
      if_neg hnew]
    exact ⟨rfl, rfl, rfl, rfl⟩

theorem afterVdf_unproved (hp : m.Unproved proveSlow p) :
    (m.afterVdf proveSlow p).2 = false ∧
      (m.afterVdf proveSlow p).1.jobByReq = m.jobByReq := by
  unfold Miner.afterVdf
  rw [updateVdf_failed (show Miner.newVdf { m with lastCtx := fun _ => none } p from hp.2.1)
    hp.1 hp.2.2]
  exact ⟨rfl, rfl⟩

/-- **When `update_pow_params` accepts the parameters of a job whose parent reads.** -/
theorem accepted_iff (hp : ¬ m.Unproved proveSlow p) (hparent : Readable p.parent) :
    (m.attempt proveSlow h p o).accepted = true ↔ ParamsReadable proveSlow m p := by
  obtain ⟨-, -, hvdf, htick⟩ := afterVdf_spec proveSlow hp
  unfold Miner.attempt
  dsimp only
  rw [PowHasher.updateFromPayload_snd]
  unfold Miner.powParams
  dsimp only
  rw [hvdf, htick]
  constructor
  · rintro ⟨-, h2, h3, h4, h5, h6, h7⟩
    exact ⟨h2, h3, h4, h5, h6, h7⟩
  · rintro ⟨h2, h3, h4, h5, h6, h7⟩
    exact ⟨hparent, h2, h3, h4, h5, h6, h7⟩

theorem valid_of_not (h : ¬ (p.valid = false ∨ p.headerPrefix.length ≠ 152)) :
    p.valid = true ∧ p.headerPrefix.length = 152 :=
  ⟨eq_true_of_ne_false fun hf => h (.inl hf), Decidable.not_not.1 fun hf => h (.inr hf)⟩

theorem setJobHex_invalid (hbad : p.valid = false ∨ p.headerPrefix.length ≠ 152) :
    m.setJobHex proveSlow h p o =
      some ({ m with lastCtx := fun _ => none }, m.hasherAfter proveSlow h p, false) := by
  unfold Miner.setJobHex Attempt.call Miner.setJob
  rw [if_pos hbad]
  rfl

/-- The exception of `parent_bytes` leaves `set_job`. -/
theorem setJobHex_throws (hvalid : p.valid = true ∧ p.headerPrefix.length = 152)
    (hparent : ¬ Readable p.parent) : m.setJobHex proveSlow h p o = none := by
  have hhex : (Attempt.outcome (proveHex proveSlow) (m.attempt proveSlow h p o) m p).parentHex
      = false :=
    eq_false_of_ne_true fun hc => hparent ((challenge_isSome_iff hvalid.2).1 hc)
  unfold Miner.setJobHex Attempt.call Miner.setJob
  rw [if_neg (by rw [hvalid.1, hvalid.2]; simp), if_pos hhex]
  rfl

/-- Past the parent the call returns; true when the VDF is there and the parameters read. -/
theorem setJobHex_returns (hvalid : p.valid = true ∧ p.headerPrefix.length = 152)
    (hparent : Readable p.parent) :
    ∃ m' ok, m.setJobHex proveSlow h p o = some (m', m.hasherAfter proveSlow h p, ok) ∧
      (ok = true ↔ ¬ m.Unproved proveSlow p ∧ ParamsReadable proveSlow m p) := by
  have hhex : (m.attempt proveSlow h p o).parentHex = true :=
    (challenge_isSome_iff hvalid.2).2 hparent
  by_cases hp : m.Unproved proveSlow p
  · obtain ⟨hv, hjobs⟩ := afterVdf_unproved proveSlow hp
    have hcall := call_eq (proveHex proveSlow) hvalid hhex (v := m.afterVdf proveSlow p) rfl hjobs
    rw [if_pos hv] at hcall
    refine ⟨_, false, congrArg (Option.map _) hcall, ?_⟩
    exact iff_of_false nofun fun hc => hc.1 hp
  · obtain ⟨hv, hjobs, -, -⟩ := afterVdf_spec proveSlow hp
    have hcall := call_eq (proveHex proveSlow) hvalid hhex (v := m.afterVdf proveSlow p) rfl hjobs
    have hiff := accepted_iff (h := h) (o := o) proveSlow hp hparent
    rw [if_neg (by rw [hv]; decide)] at hcall
    by_cases hacc : (m.attempt proveSlow h p o).accepted = true
    · rw [if_neg (by rw [hacc]; decide)] at hcall
      exact ⟨_, true, congrArg (Option.map _) hcall, iff_of_true rfl ⟨hp, hiff.1 hacc⟩⟩
    · rw [if_pos (eq_false_of_ne_true hacc)] at hcall
      refine ⟨_, false, congrArg (Option.map _) hcall, ?_⟩
      exact iff_of_false nofun fun hc => hacc (hiff.2 hc.2)

/-- **The call returns unless the parent of a 152-character header does not read.** -/
theorem setJobHex_isSome_iff : (m.setJobHex proveSlow h p o).isSome ↔
    p.valid = false ∨ p.headerPrefix.length ≠ 152 ∨ Readable p.parent := by
  by_cases hbad : p.valid = false ∨ p.headerPrefix.length ≠ 152
  · rw [setJobHex_invalid proveSlow hbad]
    exact iff_of_true rfl (or_assoc.1 (.inl hbad))
  · have hvalid := valid_of_not hbad
    by_cases hparent : Readable p.parent
    · obtain ⟨m', ok, hcall, -⟩ := setJobHex_returns (h := h) (o := o) proveSlow hvalid hparent
      rw [hcall]
      exact iff_of_true rfl (.inr (.inr hparent))
    · rw [setJobHex_throws proveSlow hvalid hparent]
      refine iff_of_false nofun fun hc => ?_
      exact (or_assoc.2 hc).elim hbad hparent

/-- **The jobs the call accepts.** -/
theorem setJobHex_true_iff : (∃ m' h', m.setJobHex proveSlow h p o = some (m', h', true)) ↔
    p.valid = true ∧ p.headerPrefix.length = 152 ∧ ¬ m.Unproved proveSlow p ∧
      ParamsReadable proveSlow m p := by
  by_cases hbad : p.valid = false ∨ p.headerPrefix.length ≠ 152
  · rw [setJobHex_invalid proveSlow hbad]
    refine iff_of_false (by rintro ⟨_, _, ⟨⟩⟩) fun hc => ?_
    exact hbad.elim (fun hf => Bool.false_ne_true (hf.symm.trans hc.1)) fun hf => hf hc.2.1
  · have hvalid := valid_of_not hbad
    by_cases hparent : Readable p.parent
    · obtain ⟨m', ok, hcall, hok⟩ := setJobHex_returns (h := h) (o := o) proveSlow hvalid hparent
      rw [hcall]
      constructor
      · rintro ⟨_, _, ⟨⟩⟩
        exact ⟨hvalid.1, hvalid.2, hok.1 rfl⟩
      · rintro ⟨-, -, hc⟩
        exact ⟨m', _, by rw [hok.2 hc]⟩
    · rw [setJobHex_throws proveSlow hvalid hparent]
      exact iff_of_false nofun fun hc => hparent hc.2.2.2.headerPrefix.parent

/-- After an accepted job the hasher holds its header, decoded. -/
theorem setJobHex_true_header {m' : Miner} {h' : PowHasher}
    (ht : m.setJobHex proveSlow h p o = some (m', h', true)) :
    PowUtils.hexToBytes p.headerPrefix = some h'.headerPrefix := by
  obtain ⟨hvalid, hlen, hp, hread⟩ := (setJobHex_true_iff proveSlow).1 ⟨m', h', ht⟩
  have hh : h' = m.hasherAfter proveSlow h p := by
    obtain ⟨_, _, hcall, -⟩ := setJobHex_returns (h := h) (o := o) proveSlow ⟨hvalid, hlen⟩
      hread.headerPrefix.parent
    rw [hcall] at ht
    cases ht
    rfl
  have hacc := (accepted_iff (h := h) (o := o) proveSlow hp hread.headerPrefix.parent).2 hread
  rw [hh, Miner.hasherAfter, if_pos ⟨hvalid, hlen, (afterVdf_spec proveSlow hp).1⟩]
  exact PowHasher.updateFromPayload_headerPrefix hacc

/-! ## The result -/

/-- A call that is sound is one of an admissible job: one accepted has a hexadecimal header. -/
theorem admissible_of_sound (hs : AdmissionSound p (m.setJobHex proveSlow h p o)) :
    Admissible proveSlow m p := by
  by_cases hbad : p.valid = false ∨ p.headerPrefix.length ≠ 152
  · exact or_assoc.1 (.inl hbad)
  · have hparent : Readable p.parent :=
      (or_assoc.2 ((setJobHex_isSome_iff proveSlow).1 hs.returns)).resolve_left hbad
    have hvalid := valid_of_not hbad
    by_cases hp : m.Unproved proveSlow p
    · exact .inr (.inr (.inr ⟨hparent, .inl hp⟩))
    · by_cases hread : ParamsReadable proveSlow m p
      · obtain ⟨m', h', ht⟩ := (setJobHex_true_iff (h := h) (o := o) proveSlow).2
          ⟨hvalid.1, hvalid.2, hp, hread⟩
        exact .inr (.inr (.inl (hs.accepts m' h' ht).2.1))
      · exact .inr (.inr (.inr ⟨hparent, .inr hread⟩))

theorem sound_of_admissible (hc : Admissible proveSlow m p) :
    AdmissionSound p (m.setJobHex proveSlow h p o) := by
  constructor
  · rw [setJobHex_isSome_iff]
    rcases hc with hc | hc | hc | hc
    · exact .inl hc
    · exact .inr (.inl hc)
    · exact .inr (.inr (Readable.of_digits hc).parent)
    · exact .inr (.inr hc.1)
  · intro m' h' ht
    obtain ⟨hvalid, hlen, hp, hread⟩ := (setJobHex_true_iff proveSlow).1 ⟨m', h', ht⟩
    have hhex : AllHex p.headerPrefix := by
      rcases hc with hc | hc | hc | hc
      · exact absurd (hc.symm.trans hvalid) Bool.false_ne_true
      · exact absurd hlen hc
      · exact hc
      · exact (hc.2.elim hp fun hn => hn hread).elim
    have hheader : h'.headerPrefix = hexBytes p.headerPrefix := by
      have heq := setJobHex_true_header proveSlow ht
      rw [PowUtils.hexToBytes_of_digits hhex (by rw [hlen])] at heq
      exact (Option.some.inj heq).symm
    refine ⟨hlen, hhex, hheader, ?_⟩
    rw [hheader, challenge_of_digits hlen hhex]

/-- **Admission is total and takes hexadecimal headers only, exactly for admissible jobs.** -/
theorem admission_sound_iff (m : Miner) (h : PowHasher) (p : PoiJobParams) (o : MapOrder) :
    AdmissionSound p (m.setJobHex proveSlow h p o) ↔ Admissible proveSlow m p :=
  ⟨admissible_of_sound proveSlow, sound_of_admissible proveSlow⟩

/-- A job of which everything but the header is in order. -/
def bareJob (headerPrefix : Bytes) : PoiJobParams where
  headerPrefix
  blockTarget := List.replicate 64 48
  shareTarget := List.replicate 64 102
  poolVdf := text "00"
  valid := true

theorem bareJob_readable {headerPrefix : Bytes} (h : Readable headerPrefix) :
    ParamsReadable proveSlow {} (bareJob headerPrefix) := by
  have hvdf : Miner.vdfFor proveSlow {} (bareJob headerPrefix) = (text "00", 1000) := rfl
  refine ⟨?_, ?_, Nat.two_pow_pos 31, ?_, fun _ => ?_, h⟩
  · rw [hvdf]
    decide
  · rw [hvdf]
    decide
  · exact (show Readable (padTarget (List.replicate 64 48)) by decide +kernel)
  · exact (show Readable (padTarget (List.replicate 64 102)) by decide +kernel)

/-- **The header prefixes that are safe whatever else the job has**: hexadecimal ones, and those
whose parent reads while another pair does not. -/
theorem header_sound_iff {headerPrefix : Bytes} (hlen : headerPrefix.length = 152) :
    (∀ m h p o, p.valid = true → p.headerPrefix = headerPrefix →
      AdmissionSound p (Miner.setJobHex proveSlow m h p o)) ↔
      AllHex headerPrefix ∨
        Readable ((headerPrefix.drop 8).take 64) ∧ ¬ Readable headerPrefix := by
  constructor
  · intro hs
    have hp := admissible_of_sound proveSlow (hs {} {} (bareJob headerPrefix) {} rfl rfl)
    rcases hp with hp | hp | hp | hp
    · exact absurd hp nofun
    · exact absurd hlen hp
    · exact .inl hp
    · refine .inr ⟨hp.1, fun hread => ?_⟩
      refine hp.2.elim (fun hu => absurd hu.1 nofun) fun hn => ?_
      exact hn (bareJob_readable proveSlow hread)
  · rintro hc m h p o - rfl
    apply sound_of_admissible
    refine .inr (.inr (hc.imp_right fun hr => ⟨hr.1, .inr fun hread => ?_⟩))
    exact hr.2 hread.headerPrefix

end Call

/-- The client hands over any header prefix of 152 characters. -/
theorem handleNotify_any_header (c : Stratum.Reader) {headerPrefix : Bytes}
    (hlen : headerPrefix.length = 152) :
    ∃ params j, c.handleNotify params = .ok { reader := c, calls := [.onJob j] } ∧
      j.headerPrefix = headerPrefix ∧ j.valid = true := by
  refine ⟨[.string [], .string headerPrefix, .string [], .null, .null, .null, .null],
    { headerPrefix, shareTarget := c.shareTarget, clean := true, valid := true }, ?_, rfl, rfl⟩
  have hread : Stratum.readJob c.shareTarget
      [.string [], .string headerPrefix, .string [], .null, .null, .null, .null] =
        .ok { headerPrefix, shareTarget := c.shareTarget, clean := true } := rfl
  unfold Stratum.Reader.handleNotify
  rw [hread]
  exact congrArg Except.ok (if_neg fun hne => hne hlen)

/-- A sign in front of a digit reads, and the job is accepted. -/
def signedHeader : Bytes := text "+f" ++ List.replicate 150 48

/-- The parent does not read. -/
def unreadableParent : Bytes := List.replicate 8 48 ++ text "zz" ++ List.replicate 142 48

/-- One job is accepted though its header is not hexadecimal, the other ends the mining thread.
Both have a share target, so the mining thread hands them on. -/
theorem odd_headers_admitted :
    ¬ AdmissionSound (bareJob signedHeader)
        (({} : Miner).setJobHex (fun _ _ => []) {} (bareJob signedHeader) {}) ∧
      ¬ AdmissionSound (bareJob unreadableParent)
        (({} : Miner).setJobHex (fun _ _ => []) {} (bareJob unreadableParent) {}) := by
  constructor
  · intro hs
    obtain ⟨m', h', ht⟩ := (setJobHex_true_iff (m := {}) (h := {}) (o := {}) fun _ _ => []).2
      ⟨rfl, by decide +kernel, fun hu => absurd hu.1 (by decide +kernel),
        @bareJob_readable _ signedHeader (by decide +kernel)⟩
    exact absurd (hs.accepts m' h' ht).2.1 (by decide +kernel)
  · intro hs
    rw [setJobHex_throws _ ⟨rfl, by decide +kernel⟩ (by decide +kernel)] at hs
    exact Bool.false_ne_true hs.returns

end Poi
