import SuprMeow.Precheck.Evaluate
import SuprMeow.Precheck.ScaffoldBounds

/-!
# Every access of the pre-check is in range

The pre-check hands slices of flat arrays to the verifier's kernels, which walk them with running
offsets.  Here `evaluate` is written once more with a bounds check at every access, in the gates,
in the two kernels that are handed whole arrays and in the scaffold behind them; a row, once
sliced, is passed on by value.

* `Window.Sound` — what `decode` guarantees;
* `decode_sound` — for every buffer;
* `precheck_in_range` — the checked evaluation never stops, and is the evaluation.
-/

set_option autoImplicit false

namespace Precheck

open Checked

/-! ## The kernels -/

/-- The functions of the verifier below the two kernels that are handed whole arrays; `S` is
`credit_v4::StepResult`. -/
structure Rules (F S : Type) where
  /-- The functions that are handed no array of the window. -/
  base : Kernels F
  computeStep : List F → List Nat → Nat → Except Thrown (KernelStatus × S × String)
  position : S → Int
  pChosen : S → F
  cdfP : S → List F
  zero : F
  /-- The credit of `(0, p)`, its hard mass, or what `std::invalid_argument` says. -/
  creditUnits : F → Except String Nat
  hardMass : F → Except String Nat
  /-- The aggregates over all rows. -/
  aggregate : List S → WindowStructure F → Except Thrown (KernelStatus × WindowStructure F × String)
  /-- `flat_region::ComputeWindow`: what it writes to `out`, unless it returns false. -/
  flat : List (List F) → List Nat → Except Thrown (Option (List Nat))

def KernelStatus.code : KernelStatus → Int
  | .ok => 0
  | .badFloatEnvironment => 1
  | .badInput => 2

namespace Rules

variable {F S : Type} (P : Rules F S)

/-- One accepted row of `ComputeWindowStructure`. -/
def push (ws : WindowStructure F) (r : S) (credit : Nat) : WindowStructure F :=
  { ws with
    lower := ws.lower ++ [P.zero]
    upper := ws.upper ++ [P.pChosen r]
    position := ws.position ++ [P.position r]
    creditUnits := ws.creditUnits ++ [credit] }

/-- The loop of `ComputeWindowStructure` over the `left` rows from `s` on. -/
def structureRows (rowLen : List Nat) (logits : List F) (ids chosen : List Nat) :
    Nat → Nat → Nat → List S → WindowStructure F →
      Access Arr (Except Thrown (KernelStatus × WindowStructure F × String))
  | 0, _, _, steps, ws => .ok (P.aggregate steps ws)
  | left + 1, s, offset, steps, ws => do
    let len ← get .rowLen rowLen s
    let row ← slice .logits logits offset len
    let rowIds ← slice .ids ids offset len
    let tok ← get .chosen chosen s
    match P.computeStep row rowIds tok with
    | .error e => return .error e
    | .ok (.ok, r, _) =>
      match P.creditUnits (P.pChosen r), P.hardMass (P.pChosen r) with
      | .ok credit, .ok _ =>
        structureRows rowLen logits ids chosen left (s + 1) (offset + len) (steps ++ [r])
          (P.push ws r credit)
      | .error what, _ => return .ok (.badInput, ws, what)
      | .ok _, .error what => return .ok (.badInput, ws, what)
    | .ok (st, _, err) => return .ok (st, ws, err)

/-- `ComputeWindowStructure`. -/
def windowStructure (rowLen : List Nat) (logits : List F) (ids chosen : List Nat) :
    Access Arr (Except Thrown (KernelStatus × WindowStructure F × String)) :=
  P.structureRows rowLen logits ids chosen kWindow 0 0 [] {}

/-- `out` of the sunset call, zeroed. -/
def noOutput : List Nat := List.replicate 11 0

/-- The loop of `tc_sunset_window_batch`: the probabilities of the rows, or what it returns. -/
def sunsetRows (rowLen : List Nat) (logits : List F) (ids chosen credits : List Nat) :
    Nat → Nat → Nat → List (List F) → Access Arr (Except Thrown (Sunset ⊕ List (List F)))
  | 0, _, _, rows => return .ok (.inr rows)
  | left + 1, s, offset, rows => do
    let refuse (status : Int) : Except Thrown (Sunset ⊕ List (List F)) :=
      .ok (.inl { status, out := noOutput, failedStep := s })
    let len ← get .rowLen rowLen s
    if len = 0 ∨ 70 < len then return refuse 2
    else
      let row ← slice .logits logits offset len
      let rowIds ← slice .ids ids offset len
      let tok ← get .chosen chosen s
      match P.computeStep row rowIds tok with
      | .error (.exception _) => return refuse 4
      | .error .unknown => return .error .unknown
      | .ok (.ok, r, _) =>
        if P.position r < 0 ∨ P.base.greater (P.pChosen r) P.zero = false then return refuse 2
        else
          match P.creditUnits (P.pChosen r) with
          | .error _ => return refuse 4
          | .ok units =>
            let credit ← get .credits credits s
            if credit ≠ units then return refuse 3
            else
              sunsetRows rowLen logits ids chosen credits left (s + 1) (offset + len)
                (rows ++ [P.cdfP r])
      | .ok (st, _, _) => return refuse st.code

/-- `Evaluate` of `sunset_abi.cpp`, and the exceptions it is called under. -/
def sunsetEvaluate (rows : List (List F)) (chosen prompt pad credits : List Nat) :
    Access Arr (Except Thrown Sunset) := do
  let refuse (status : Int) (out : List Nat) : Except Thrown Sunset :=
    .ok { status, out, failedStep := kWindow - 1 }
  let p ← slice .prompt prompt 0 prompt.length
  let mask ← slice .pad pad 0 pad.length
  let tokens ← slice .chosen chosen 0 kWindow
  let c ← slice .credits credits 0 kWindow
  match ← Scaffold.computeWindowM p mask tokens c with
  | .error _ => return refuse 2 noOutput
  | .ok m =>
    let covered := m.covered ++ [m.reject.toNat]
    if m.reject then return refuse 0 (covered ++ List.replicate 6 0)
    else
      match P.flat rows c with
      | .error (.exception _) => return refuse 4 (covered ++ List.replicate 6 0)
      | .error .unknown => return .error .unknown
      | .ok none => return refuse 2 (covered ++ List.replicate 6 0)
      | .ok (some flat) => return refuse 0 (covered ++ flat ++ [1])

/-- The first element above `bound`. -/
def above (name : Arr) (xs : List Nat) (bound count : Nat) : Access Arr (Option Unit) :=
  findSome (fun i => do return if bound < (← get name xs i) then some () else none)
    (List.range count)

/-- `tc_sunset_window_batch`. -/
def sunsetWindow (rowLen : List Nat) (logits : List F) (ids chosen prompt pad credits : List Nat) :
    Access Arr (Except Thrown Sunset) := do
  let invalid : Except Thrown Sunset := .ok { status := 2, out := noOutput }
  if pad.length ≠ 0 ∧ pad.length ≠ prompt.length then return invalid
  else if (← above .credits credits maxStepCredit kWindow).isSome then return invalid
  else if (← above .pad pad 1 pad.length).isSome then return invalid
  else
    match ← P.sunsetRows rowLen logits ids chosen credits kWindow 0 0 [] with
    | .error e => return .error e
    | .ok (.inl r) => return .ok r
    | .ok (.inr rows) => P.sunsetEvaluate rows chosen prompt pad credits

/-- Out of range anything may happen. -/
def unchecked {α : Type} (x : Access Arr (Except Thrown α)) : Except Thrown α :=
  match x with
  | .ok r => r
  | .error _ => .error .unknown

/-- The kernels the gates call. -/
def kernels : Kernels F :=
  { P.base with
    computeWindowStructure := fun rowLen logits ids chosen =>
      unchecked (P.windowStructure rowLen logits ids chosen)
    sunsetWindow := fun rowLen logits ids chosen prompt pad credits =>
      unchecked (P.sunsetWindow rowLen logits ids chosen prompt pad credits) }

/-! ## The gates -/

/-- Step `s` of `gate_strict`. -/
def strictAt [Inhabited F] (c : Ctx F) (s : Nat) : Access Arr (Option String) :=
  if c.ws.position.getD s 0 < 0 ∨
      P.base.greater (c.ws.upper.getD s default) (c.ws.lower.getD s default) = false then
    return some ("v4: chosen token absent from the active row at step " ++ toString s)
  else if c.w.chosenProbs.length ≤ s then
    return some ("v4: chosen_probs does not match the row's upper endpoint at step " ++ toString s)
  else do
    let p ← get .chosenProbs c.w.chosenProbs s
    if P.base.close p (c.ws.upper.getD s default) = false then
      return some ("v4: chosen_probs does not match the row's upper endpoint at step " ++
        toString s)
    else return none

def gateStrict [Inhabited F] (c : Ctx F) : Access Arr (Except Thrown (GateResult × Ctx F)) := do
  match ← findSome (P.strictAt c) (List.range kWindow) with
  | some why => return .ok (.reject why, c)
  | none => return .ok (.pass, c)

/-- `run_sunset`. -/
def runSunset (c : Ctx F) : Access Arr (Except Thrown (Ctx F)) :=
  if c.sunsetDone then return .ok c
  else if (normalizePadMask c.w).length ≠ c.w.prompt.length then
    return .ok { c with sunsetDone := true, padNorm := normalizePadMask c.w, sunsetStatus := -2 }
  else do
    match ← P.sunsetWindow c.w.rowLen c.w.logits c.w.ids c.w.chosen c.w.prompt
        (normalizePadMask c.w) c.ws.creditUnits with
    | .error e => return .error e
    | .ok r =>
      return .ok { c with
        sunsetDone := true, padNorm := normalizePadMask c.w
        sunsetStatus := r.status, sunsetOut := r.out, sunsetFailed := r.failedStep }

/-- A gate behind `run_sunset`, which then has nothing left to call. -/
def behindSunset (gate : Ctx F → Except Thrown (GateResult × Ctx F)) (c : Ctx F) :
    Access Arr (Except Thrown (GateResult × Ctx F)) := do
  match ← P.runSunset c with
  | .error e => return .error e
  | .ok c => return gate c

/-- The rows of a flat array, from row `s` on. -/
def sliceRows {α : Type} (name : Arr) (rowLen : List Nat) (xs : List α) :
    Nat → Nat → Nat → Access Arr (List (List α))
  | 0, _, _ => return []
  | left + 1, s, offset => do
    let len ← get .rowLen rowLen s
    let row ← slice name xs offset len
    return row :: (← sliceRows name rowLen xs left (s + 1) (offset + len))

/-- The prompt's tokens that are not masked, from `i` on. -/
def visible (prompt pad : List Nat) : Nat → Nat → Access Arr (List Nat)
  | 0, _ => return []
  | left + 1, i => do
    let masked ← get .pad pad i
    if masked = 0 then
      let tok ← get .prompt prompt i
      return tok :: (← visible prompt pad left (i + 1))
    else visible prompt pad left (i + 1)

def unpadded (w : Window F) : Access Arr (List Nat) :=
  if w.pad.length = w.prompt.length then visible w.prompt w.pad w.prompt.length 0
  else .ok w.prompt

def gateAntiParrot (c : Ctx F) : Access Arr (Except Thrown (GateResult × Ctx F)) := do
  let rl ← sliceRows .logits c.w.rowLen c.w.logits kWindow 0 0
  let ri ← sliceRows .ids c.w.rowLen c.w.ids kWindow 0 0
  match P.base.antiparrot rl ri c.w.chosen (← unpadded c.w) with
  | .error e => return .error e
  | .ok v =>
    if v.ok = false then
      if v.status = 2 then
        return .ok (.reject ("v3 anti-parrot: invalid step evidence at step " ++
          toString v.failedStep), c)
      else return .ok (.unavailable ("anti-parrot kernel status " ++ toString v.status), c)
    else if v.reason ≠ "" then
      return .ok (.reject ("v3 anti-parrot rejected (" ++ v.reason ++ ")"), c)
    else return .ok (.pass, c)

/-- The other gates read no array of the window. -/
def check [Inhabited F] (g : Gate) (c : Ctx F) :
    Access Arr (Except Thrown (GateResult × Ctx F)) :=
  match g with
  | .strict => P.gateStrict c
  | .nearPin => return gateNearPin P.base c
  | .candidateBand => return gateCandidateBand P.base c
  | .promptScaffold => P.behindSunset (gatePromptScaffold P.base) c
  | .flatRegion => P.behindSunset (gateFlatRegion P.base) c
  | .creditTier => return gateCreditTier P.base c
  | .antiParrot => P.gateAntiParrot c

/-! ## The evaluation -/

/-- The enabled gates in order; the first component lists those that ran. -/
def runGates [Inhabited F] (mask : Nat) :
    List Gate → Verdict → Ctx F → Access Arr (List Gate × Evaluation Verdict)
  | [], v, _ =>
    return ([], .ok { v with outcome := if v.reason = "" then .pass else .unavailable })
  | g :: rest, v, c =>
    if enabled mask g then do
      match ← P.check g c with
      | .error e => return ([g], .error (e, v))
      | .ok (r, c) =>
        match r.outcome with
        | .reject =>
          return ([g], .ok { v with
            outcome := .reject, gate := some g, reason := r.reason
            ruleset5TierWithheld := r.ruleset5TierWithheld })
        | .unavailable =>
          let (ran, result) ← runGates mask rest
            (if v.reason = "" then { v with reason := gateName g ++ ": " ++ r.reason } else v) c
          return (g :: ran, result)
        | .pass =>
          let (ran, result) ← runGates mask rest v c
          return (g :: ran, result)
    else runGates mask rest v c

/-- `evaluate_window`, inside its `try`. -/
def evaluateBody [Inhabited F] (w : Window F) (mask : Nat) :
    Access Arr (List Gate × Evaluation Verdict) := do
  let v : Verdict := { hashHex := w.hashHex, isSolution := w.isSolution }
  match ensureFloatEnvironment P.base with
  | .error e => return ([], .error (e, v))
  | .ok (some why) => return ([], .ok { v with reason := "float environment: " ++ why })
  | .ok none =>
    if w.rowLen.length ≠ kWindow ∨ w.chosen.length ≠ kWindow then
      return ([], .ok { v with reason := "not a 256-step window" })
    else
      match ← P.windowStructure w.rowLen w.logits w.ids w.chosen with
      | .error e => return ([], .error (e, v))
      | .ok (.badFloatEnvironment, _, _) =>
        return ([], .ok { v with reason := "float environment refused by kernel" })
      | .ok (.badInput, ws, err) =>
        if enabled mask .strict then
          return ([], .ok { v with
            outcome := .reject, gate := some .strict
            reason := "proof v4: canonical credit kernel rejected step " ++
              toString ws.lower.length ++ ": " ++ err })
        else return ([], .ok { v with reason := "canonical kernel refused the window: " ++ err })
      | .ok (.ok, ws, _) =>
        if ws.creditUnits.length ≠ kWindow ∨ ws.position.length ≠ kWindow then
          return ([], .ok { v with reason := "kernel returned an incomplete window" })
        else
          let c := { w, ws : Ctx F }.buildMetrics
          match measure P.base v c with
          | .error e => return ([], .error e)
          | .ok v => P.runGates mask pipeline v c

/-- `evaluate`, with the gates that ran. -/
def evaluate [Inhabited F] (R : Reader F) (data : List Nat) (mask height : Nat) :
    Access Arr (List Gate × Verdict) :=
  match decode R data with
  | .error r => return ([], { reason := r.text, hashHex := r.hashHex, isSolution := r.isSolution })
  | .ok w => do
    let (ran, result) ← P.evaluateBody { w with height := height } mask
    match result with
    | .ok v => return (ran, v)
    | .error (e, v) => return (ran, { v with outcome := .unavailable, reason := e.text })

end Rules

/-! ## What `decode` guarantees -/

/-- 256 tokens, and 256 rows of 1 to 70 entries that make up the flat arrays. -/
structure Window.Sound {F : Type} (w : Window F) : Prop where
  chosen : w.chosen.length = kWindow
  rows : w.rowLen.length = kWindow
  row : ∀ n ∈ w.rowLen, 1 ≤ n ∧ n ≤ kMaxRow
  logits : w.logits.length = w.rowLen.sum
  ids : w.ids.length = w.rowLen.sum

variable {F : Type}

/-- The rows that are read: as many as there are, each with as many ids as logits. -/
theorem readRows_ok {s : Nat} {ls : List (Option (List F))} {is : List (Option (List Nat))}
    {lens : List Nat} {logits : List F} {ids : List Nat} (hlen : ls.length = is.length)
    (h : readRows s ls is = .ok (lens, logits, ids)) :
    lens.length = ls.length ∧ (∀ n ∈ lens, 1 ≤ n ∧ n ≤ kMaxRow) ∧ logits.length = lens.sum ∧
      ids.length = lens.sum := by
  induction ls generalizing s is lens logits ids with
  | nil =>
    cases is with
    | nil =>
      cases h
      exact ⟨rfl, List.forall_mem_nil _, rfl, rfl⟩
    | cons ir is => cases hlen
  | cons lr ls ih =>
    cases is with
    | nil => cases hlen
    | cons ir is =>
      cases lr with
      | none => cases h
      | some lv =>
        cases ir with
        | none => cases h
        | some iv =>
          rw [readRows] at h
          dsimp only at h
          split at h
          · cases h
          · rename_i hshape
            obtain ⟨⟨lens', logits', ids'⟩, hrest, heq⟩ := Fallible.seq_ok.1 h
            cases heq
            obtain ⟨h₁, h₂, h₃, h₄⟩ := ih (Nat.succ.inj hlen) hrest
            rw [not_or, not_or, not_not] at hshape
            refine ⟨congrArg Nat.succ h₁, ?_, ?_, ?_⟩
            · rw [List.forall_mem_cons]
              exact ⟨by omega, h₂⟩
            · rw [List.length_append, h₃, List.sum_cons]
            · rw [List.length_append, h₄, List.sum_cons, hshape.1]

/-- **Whatever the buffer, a window that `decode` accepts is sound.** -/
theorem decode_sound {R : Reader F} {data : List Nat} {w : Window F}
    (h : decode R data = .ok w) : w.Sound := by
  unfold decode at h
  split at h
  · cases h
  obtain ⟨root, -, h⟩ := Fallible.seq_ok.1 h
  split at h
  · cases h
  · cases h
  dsimp only at h
  split at h
  · cases h
  split at h
  on_goal 1 => obtain ⟨v4, -, h⟩ := Fallible.seq_ok.1 h
  on_goal 2 =>
    obtain ⟨j, -, h⟩ := Fallible.seq_ok.1 h
    obtain ⟨v4, -, h⟩ := Fallible.seq_ok.1 h
  all_goals
    split at h
    · cases h
    split at h
    · cases h
    rename_i chosen hchosen
    split at h
    · cases h
    rename_i hlen
    split at h
    · rename_i tl ti htl hti
      split at h
      · cases h
      rename_i hrows
      obtain ⟨⟨rowLen, logits, ids⟩, hread, heq⟩ := Fallible.seq_ok.1 h
      cases heq
      rw [not_or, not_not, not_not] at hrows
      cases hok : readRows 0 tl ti with
      | error e =>
        rw [hok] at hread
        cases hread
      | ok r =>
        rw [hok] at hread
        cases hread
        obtain ⟨h₁, h₂, h₃, h₄⟩ := readRows_ok (hrows.1.trans hrows.2.symm) hok
        exact ⟨not_not.1 hlen, h₁.trans hrows.1, h₂, h₃, h₄⟩
    · cases h

/-! ## The kernels stay in range -/

/-- What is left of the flat arrays before row `s`. -/
structure Ahead (rowLen : List Nat) (length left s offset : Nat) : Prop where
  rows : s + left = rowLen.length
  room : offset + (rowLen.drop s).sum ≤ length

/-- The next row is in range, and so is what is left behind it. -/
theorem Ahead.next {rowLen : List Nat} {length left s offset : Nat}
    (h : Ahead rowLen length (left + 1) s offset) : ∃ hs : s < rowLen.length,
      offset + rowLen[s] ≤ length ∧ Ahead rowLen length left (s + 1) (offset + rowLen[s]) := by
  have hs : s < rowLen.length := by have := h.rows; omega
  have hroom := h.room
  rw [List.drop_eq_getElem_cons hs, List.sum_cons] at hroom
  refine ⟨hs, by omega, ⟨?_, by omega⟩⟩
  have := h.rows
  omega

theorem Ahead.start {rowLen : List Nat} {length : Nat} (hrows : rowLen.length = kWindow)
    (h : length = rowLen.sum) : Ahead rowLen length kWindow 0 0 :=
  ⟨by omega, by rw [List.drop_zero]; omega⟩

namespace Rules

variable {S : Type} (P : Rules F S)

theorem structureRows_ok {rowLen : List Nat} {logits : List F} {ids chosen : List Nat}
    {left s offset : Nat} (hlogits : Ahead rowLen logits.length left s offset)
    (hids : Ahead rowLen ids.length left s offset) (hchosen : rowLen.length ≤ chosen.length)
    (steps : List S) (ws : WindowStructure F) :
    ∃ r, P.structureRows rowLen logits ids chosen left s offset steps ws = .ok r := by
  induction left generalizing s offset steps ws with
  | zero => exact ⟨_, rfl⟩
  | succ left ih =>
    obtain ⟨hs, hrow, hlogits'⟩ := hlogits.next
    obtain ⟨_, hrowIds, hids'⟩ := hids.next
    rw [structureRows, bind_ok (get_ok _ hs), bind_ok (slice_ok _ hrow),
      bind_ok (slice_ok _ hrowIds), bind_ok (get_ok _ (by omega))]
    split
    · exact ⟨_, rfl⟩
    · split
      · exact ih hlogits' hids' _ _
      · exact ⟨_, rfl⟩
      · exact ⟨_, rfl⟩
    · exact ⟨_, rfl⟩

theorem sunsetRows_ok {rowLen : List Nat} {logits : List F} {ids chosen credits : List Nat}
    {left s offset : Nat} (hlogits : Ahead rowLen logits.length left s offset)
    (hids : Ahead rowLen ids.length left s offset) (hchosen : rowLen.length ≤ chosen.length)
    (hcredits : rowLen.length ≤ credits.length) (rows : List (List F)) :
    ∃ r, P.sunsetRows rowLen logits ids chosen credits left s offset rows = .ok r := by
  induction left generalizing s offset rows with
  | zero => exact ⟨_, rfl⟩
  | succ left ih =>
    obtain ⟨hs, hrow, hlogits'⟩ := hlogits.next
    obtain ⟨_, hrowIds, hids'⟩ := hids.next
    rw [sunsetRows, bind_ok (get_ok _ hs)]
    dsimp only
    split
    · exact ⟨_, rfl⟩
    rw [bind_ok (slice_ok _ hrow), bind_ok (slice_ok _ hrowIds), bind_ok (get_ok _ (by omega))]
    split
    · exact ⟨_, rfl⟩
    · exact ⟨_, rfl⟩
    · split
      · exact ⟨_, rfl⟩
      split
      · exact ⟨_, rfl⟩
      rw [bind_ok (get_ok _ (by omega))]
      split
      · exact ⟨_, rfl⟩
      · exact ih hlogits' hids' _
    · exact ⟨_, rfl⟩

theorem above_ok (name : Arr) {xs : List Nat} {count : Nat} (h : count ≤ xs.length)
    (bound : Nat) : ∃ r, above name xs bound count = .ok r := by
  refine ⟨_, findSome_ok (g := fun i => if bound < xs.getD i 0 then some () else none) ?_⟩
  intro i hi
  have hi' : i < xs.length := by
    have := List.mem_range.1 hi
    omega
  rw [bind_ok (get_ok name hi'), List.getD_eq_getElem?_getD, List.getElem?_eq_getElem hi',
    Option.getD_some]
  rfl

theorem sunsetEvaluate_ok (rows : List (List F)) {chosen credits : List Nat}
    (hchosen : chosen.length = kWindow) (hcredits : credits.length = kWindow)
    (prompt pad : List Nat) :
    ∃ r, P.sunsetEvaluate rows chosen prompt pad credits = .ok r := by
  rw [sunsetEvaluate, bind_ok (slice_all _ prompt), bind_ok (slice_all _ pad),
    bind_ok (slice_ok _ (by omega)), bind_ok (slice_ok _ (by omega)),
    bind_ok (Scaffold.computeWindowM_ok _ _ _ _)]
  dsimp only
  split
  · exact ⟨_, rfl⟩
  · split
    · exact ⟨_, rfl⟩
    · split
      · exact ⟨_, rfl⟩
      · exact ⟨_, rfl⟩
      · exact ⟨_, rfl⟩
      · exact ⟨_, rfl⟩

variable {w : Window F}

/-- **On a sound window the canonical kernel stays in range.** -/
theorem windowStructure_ok (hw : w.Sound) :
    P.windowStructure w.rowLen w.logits w.ids w.chosen =
      .ok (P.kernels.computeWindowStructure w.rowLen w.logits w.ids w.chosen) := by
  obtain ⟨r, hr⟩ := P.structureRows_ok (Ahead.start hw.rows hw.logits) (Ahead.start hw.rows hw.ids)
    (show w.rowLen.length ≤ w.chosen.length by rw [hw.rows, hw.chosen]) [] {}
  change P.windowStructure _ _ _ _ = _ at hr
  change _ = Except.ok (unchecked (P.windowStructure _ _ _ _))
  rw [hr]
  rfl

/-- **And so does the sunset call.** -/
theorem sunsetWindow_ok (hw : w.Sound) {credits : List Nat} (hcredits : credits.length = kWindow)
    (prompt pad : List Nat) :
    P.sunsetWindow w.rowLen w.logits w.ids w.chosen prompt pad credits =
      .ok (P.kernels.sunsetWindow w.rowLen w.logits w.ids w.chosen prompt pad credits) := by
  obtain ⟨r, hr⟩ : ∃ r,
      P.sunsetWindow w.rowLen w.logits w.ids w.chosen prompt pad credits = .ok r := by
    obtain ⟨rows, hrows⟩ := P.sunsetRows_ok (Ahead.start hw.rows hw.logits)
      (Ahead.start hw.rows hw.ids)
      (show w.rowLen.length ≤ w.chosen.length by rw [hw.rows, hw.chosen])
      (show w.rowLen.length ≤ credits.length by rw [hw.rows, hcredits]) []
    obtain ⟨_, hcredit⟩ := above_ok .credits (by omega : kWindow ≤ credits.length) maxStepCredit
    obtain ⟨_, hpad⟩ := above_ok .pad (Nat.le_refl pad.length) 1
    rw [sunsetWindow]
    split
    · exact ⟨_, rfl⟩
    rw [bind_ok hcredit]
    split
    · exact ⟨_, rfl⟩
    rw [bind_ok hpad]
    split
    · exact ⟨_, rfl⟩
    rw [bind_ok hrows]
    split
    · exact ⟨_, rfl⟩
    · exact ⟨_, rfl⟩
    · exact P.sunsetEvaluate_ok _ hw.chosen hcredits _ _
  change _ = Except.ok (unchecked (P.sunsetWindow _ _ _ _ _ _ _))
  rw [hr]
  rfl

end Rules

/-! ## The gates stay in range -/

/-- The context of a sound window, with a credit for every row. -/
structure Ctx.Sound (c : Ctx F) : Prop where
  window : c.w.Sound
  credits : c.ws.creditUnits.length = kWindow

theorem Ctx.Sound.like {c c' : Ctx F} (h : c.Sound) (hlike : c.Like c') : c'.Sound :=
  ⟨hlike.w ▸ h.window, hlike.ws ▸ h.credits⟩

namespace Rules

variable {S : Type} (P : Rules F S) {c : Ctx F}

theorem gateStrict_ok [Inhabited F] (c : Ctx F) :
    P.gateStrict c = .ok (Precheck.gateStrict P.kernels c) := by
  have hat : ∀ s, P.strictAt c s = .ok (strictViolation P.kernels c s) := by
    intro s
    unfold strictAt strictViolation
    change (if c.ws.position.getD s 0 < 0 ∨
      P.base.greater (c.ws.upper.getD s default) (c.ws.lower.getD s default) = false then _
      else _) = Except.ok (if c.ws.position.getD s 0 < 0 ∨
      P.base.greater (c.ws.upper.getD s default) (c.ws.lower.getD s default) = false then _
      else _)
    split
    · rfl
    by_cases hlen : c.w.chosenProbs.length ≤ s
    · rw [if_pos hlen, if_pos (.inl hlen)]
      rfl
    · have hs : s < c.w.chosenProbs.length := by omega
      rw [if_neg hlen, bind_ok (get_ok _ hs), List.getD_eq_getElem?_getD (l := c.w.chosenProbs),
        List.getElem?_eq_getElem hs, Option.getD_some]
      by_cases hclose : P.base.close c.w.chosenProbs[s] (c.ws.upper.getD s default) = false
      · rw [if_pos hclose, if_pos (.inr hclose)]
        rfl
      · rw [if_neg hclose, if_neg (by rw [not_or]; exact ⟨hlen, hclose⟩)]
        rfl
  unfold gateStrict Precheck.gateStrict
  rw [bind_ok (findSome_ok fun s _ => hat s)]
  cases (List.range kWindow).findSome? (strictViolation P.kernels c) with
  | some why => rfl
  | none => rfl

theorem runSunset_ok (hc : c.Sound) : P.runSunset c = .ok (Precheck.runSunset P.kernels c) := by
  unfold runSunset Precheck.runSunset
  split
  · rfl
  split
  · rfl
  rw [bind_ok (P.sunsetWindow_ok hc.window hc.credits _ _)]
  cases P.kernels.sunsetWindow c.w.rowLen c.w.logits c.w.ids c.w.chosen c.w.prompt
      (normalizePadMask c.w) c.ws.creditUnits with
  | error e => rfl
  | ok r => rfl

/-- A gate that starts with the sunset call, once the call is made, finds it done. -/
theorem behindSunset_ok (hc : c.Sound) (rest : Ctx F → Except Thrown (GateResult × Ctx F)) :
    P.behindSunset (fun c => Precheck.runSunset P.base c >>= rest) c =
      .ok (Precheck.runSunset P.kernels c >>= rest) := by
  unfold behindSunset
  rw [bind_ok (P.runSunset_ok hc)]
  cases h : Precheck.runSunset P.kernels c with
  | error e => rfl
  | ok c' =>
    dsimp only
    rw [runSunset_done (runSunset_like h).2]
    rfl

theorem sliceRows_ok {α : Type} (name : Arr) {rowLen : List Nat} {xs : List α}
    {left s offset : Nat} (h : Ahead rowLen xs.length left s offset) :
    sliceRows name rowLen xs left s offset =
      .ok (splitRows (rowLen.drop s) (xs.drop offset)) := by
  induction left generalizing s offset with
  | zero =>
    have := h.rows
    rw [List.drop_eq_nil_of_le (by omega)]
    rfl
  | succ left ih =>
    obtain ⟨hs, hrow, hnext⟩ := h.next
    rw [sliceRows, bind_ok (get_ok _ hs), bind_ok (slice_ok _ hrow), bind_ok (ih hnext),
      List.drop_eq_getElem_cons hs, splitRows, List.drop_drop]
    rfl

theorem visible_ok {prompt pad : List Nat} (hlen : pad.length = prompt.length) {left i : Nat}
    (h : i + left = prompt.length) : visible prompt pad left i =
      .ok ((((prompt.drop i).zip (pad.drop i)).filter (·.2 = 0)).map (·.1)) := by
  induction left generalizing i with
  | zero =>
    rw [List.drop_eq_nil_of_le (by omega)]
    rfl
  | succ left ih =>
    have hi : i < prompt.length := by omega
    have hi' : i < pad.length := by omega
    rw [visible, bind_ok (get_ok _ hi'), List.drop_eq_getElem_cons hi,
      List.drop_eq_getElem_cons hi', List.zip_cons_cons, List.filter_cons]
    split
    · rename_i hzero
      rw [bind_ok (get_ok _ hi), bind_ok (ih (by omega)), if_pos (by simpa using hzero)]
      rfl
    · rename_i hzero
      rw [ih (by omega), if_neg (by simpa using hzero)]

theorem unpadded_ok (w : Window F) : unpadded w = .ok (Precheck.unpadded w) := by
  unfold unpadded Precheck.unpadded
  split
  · rename_i hlen
    rw [visible_ok hlen (by omega)]
    rfl
  · rfl

theorem gateAntiParrot_ok (hc : c.Sound) :
    P.gateAntiParrot c = .ok (Precheck.gateAntiParrot P.kernels c) := by
  unfold gateAntiParrot Precheck.gateAntiParrot
  rw [bind_ok (sliceRows_ok .logits (Ahead.start hc.window.rows hc.window.logits)),
    bind_ok (sliceRows_ok .ids (Ahead.start hc.window.rows hc.window.ids)),
    bind_ok (unpadded_ok c.w), List.drop_zero, List.drop_zero, List.drop_zero]
  change _ = Except.ok ((P.base.antiparrot (splitRows c.w.rowLen c.w.logits)
    (splitRows c.w.rowLen c.w.ids) c.w.chosen (Precheck.unpadded c.w)).bind _)
  split
  · rename_i h
    rw [h]
    rfl
  · rename_i v h
    simp only [h, Except.bind, pure, Except.pure, apply_ite Except.ok]

/-- **Every gate stays in range on a sound context.** -/
theorem check_ok [Inhabited F] (hc : c.Sound) (g : Gate) :
    P.check g c = .ok (g.check P.kernels c) := by
  cases g with
  | strict => exact P.gateStrict_ok c
  | nearPin => rfl
  | candidateBand => rfl
  | promptScaffold => exact P.behindSunset_ok hc _
  | flatRegion => exact P.behindSunset_ok hc _
  | creditTier => rfl
  | antiParrot => exact P.gateAntiParrot_ok hc

/-- No gate touches the window or what the canonical kernel said of it. -/
theorem check_like [Inhabited F] {K : Kernels F} {g : Gate} {r : GateResult} {c' : Ctx F}
    (h : g.check K c = .ok (r, c')) : c.Like c' := by
  have hrefl : c.Like c := ⟨rfl, rfl, rfl, rfl, rfl⟩
  cases g with
  | strict =>
    change Precheck.gateStrict K c = _ at h
    unfold Precheck.gateStrict at h
    split at h <;> cases h <;> exact hrefl
  | nearPin =>
    change gateNearPin K c = _ at h
    unfold gateNearPin at h
    split at h
    · cases h
      exact hrefl
    · obtain ⟨_, -, h⟩ := Fallible.seq_ok.1 h
      split at h <;> cases h <;> exact hrefl
  | candidateBand =>
    change gateCandidateBand K c = _ at h
    unfold gateCandidateBand at h
    split at h
    · cases h
      exact hrefl
    split at h
    · obtain ⟨_, -, h⟩ := Fallible.seq_ok.1 h
      cases h
      exact hrefl
    · cases h
      exact hrefl
  | promptScaffold =>
    change gatePromptScaffold K c = _ at h
    unfold gatePromptScaffold at h
    obtain ⟨c₁, hrun, h⟩ := Fallible.seq_ok.1 h
    have hlike := (runSunset_like hrun).1
    dsimp only at h
    split at h
    · cases h
      exact hlike
    split at h
    · obtain ⟨_, -, h⟩ := Fallible.seq_ok.1 h
      cases h
      exact hlike
    · cases h
      exact hlike
  | flatRegion =>
    change gateFlatRegion K c = _ at h
    unfold gateFlatRegion at h
    obtain ⟨c₁, hrun, h⟩ := Fallible.seq_ok.1 h
    have hlike := (runSunset_like hrun).1
    dsimp only at h
    split at h
    · cases h
      exact hlike
    split at h
    · cases h
      exact hlike
    split at h
    · cases h
      exact hlike
    split at h
    · obtain ⟨_, -, h⟩ := Fallible.seq_ok.1 h
      cases h
      exact hlike
    · cases h
      exact hlike
  | creditTier =>
    change gateCreditTier K c = _ at h
    unfold gateCreditTier at h
    obtain ⟨_, -, h⟩ := Fallible.seq_ok.1 h
    cases h
    exact hrefl
  | antiParrot =>
    change Precheck.gateAntiParrot K c = _ at h
    unfold Precheck.gateAntiParrot at h
    obtain ⟨_, -, h⟩ := Fallible.seq_ok.1 h
    split at h
    · split at h <;> cases h <;> exact hrefl
    · split at h <;> cases h <;> exact hrefl

theorem runGates_ok [Inhabited F] (mask : Nat) (gs : List Gate) (v : Verdict) (hc : c.Sound) :
    ∃ ran, P.runGates mask gs v c = .ok (ran, Precheck.runGates P.kernels mask gs v c) := by
  induction gs generalizing v c with
  | nil => exact ⟨[], rfl⟩
  | cons g rest ih =>
    rw [runGates, Precheck.runGates]
    split
    · rw [bind_ok (P.check_ok hc g)]
      cases hcheck : g.check P.kernels c with
      | error e => exact ⟨[g], rfl⟩
      | ok rc =>
        obtain ⟨⟨outcome, reason, withheld⟩, c'⟩ := rc
        have hc' := hc.like (check_like hcheck)
        cases outcome with
        | reject => exact ⟨[g], rfl⟩
        | unavailable =>
          obtain ⟨ran, hran⟩ := ih
            (if v.reason = "" then { v with reason := gateName g ++ ": " ++ reason } else v) hc'
          exact ⟨g :: ran, bind_ok hran _⟩
        | pass =>
          obtain ⟨ran, hran⟩ := ih v hc'
          exact ⟨g :: ran, bind_ok hran _⟩
    · exact ih v hc

theorem evaluateBody_ok [Inhabited F] {w : Window F} (hw : w.Sound) (mask : Nat) :
    ∃ ran, P.evaluateBody w mask = .ok (ran, Precheck.evaluateBody P.kernels w mask) := by
  have hshape : ¬(w.rowLen.length ≠ kWindow ∨ w.chosen.length ≠ kWindow) := by
    rw [not_or, not_not, not_not]
    exact ⟨hw.rows, hw.chosen⟩
  have henv : ensureFloatEnvironment P.kernels = ensureFloatEnvironment P.base := rfl
  have hran {ran : List Gate} {x y : Evaluation Verdict} (h : x = y) :
      (Except.ok (ran, y) : Access Arr _) = .ok (ran, x) := by rw [h]
  unfold evaluateBody Precheck.evaluateBody
  rw [henv]
  cases ensureFloatEnvironment P.base with
  | error e => exact ⟨[], rfl⟩
  | ok o =>
    cases o with
    | some why => exact ⟨[], rfl⟩
    | none =>
      dsimp only [Verdict.guard, Except.mapError]
      rw [if_neg hshape, if_neg hshape, bind_ok (P.windowStructure_ok hw)]
      cases P.kernels.computeWindowStructure w.rowLen w.logits w.ids w.chosen with
      | error e => exact ⟨[], rfl⟩
      | ok r =>
        obtain ⟨st, ws, err⟩ := r
        cases st with
        | badFloatEnvironment => exact ⟨[], rfl⟩
        | badInput =>
          refine ⟨[], ?_⟩
          by_cases hstrict : enabled mask .strict = true
          · exact (if_pos hstrict).trans (hran (if_pos hstrict))
          · exact (if_neg hstrict).trans (hran (if_neg hstrict))
        | ok =>
          by_cases hpart : ws.creditUnits.length ≠ kWindow ∨ ws.position.length ≠ kWindow
          · exact ⟨[], (if_pos hpart).trans (hran (if_pos hpart))⟩
          have hcredits : ws.creditUnits.length = kWindow := not_not.1 fun h => hpart (.inl h)
          have hc : ({ w, ws : Ctx F }.buildMetrics).Sound := ⟨hw, hcredits⟩
          cases hm : measure P.base { hashHex := w.hashHex, isSolution := w.isSolution }
              { w, ws : Ctx F }.buildMetrics with
          | error e =>
            refine ⟨[], (if_neg hpart).trans ?_⟩
            rw [hm]
            exact hran ((if_neg hpart).trans (congrArg (fun m => m >>= fun v =>
              Precheck.runGates P.kernels mask pipeline v { w, ws : Ctx F }.buildMetrics) hm))
          | ok v =>
            obtain ⟨ran, hgates⟩ := P.runGates_ok mask pipeline v hc
            refine ⟨ran, (if_neg hpart).trans ?_⟩
            rw [hm]
            exact hgates.trans (hran ((if_neg hpart).trans (congrArg (fun m => m >>= fun v =>
              Precheck.runGates P.kernels mask pipeline v { w, ws : Ctx F }.buildMetrics) hm)))

/-- **Every byte buffer is safe to pre-check.**  What `decode` accepts is a window of 256 rows,
the checked evaluation makes no access out of range and comes to the verdict of `evaluate`, and
no gate runs on what `decode` refuses. -/
theorem precheck_in_range [Inhabited F] (R : Reader F) (data : List Nat) (mask height : Nat) :
    (∀ w, decode R data = .ok w →
      w.chosen.length = 256 ∧ w.rowLen.length = 256 ∧ (∀ n ∈ w.rowLen, 1 ≤ n ∧ n ≤ 70) ∧
        w.logits.length = w.ids.length ∧ w.ids.length = w.rowLen.sum) ∧
    ∃ ran,
      P.evaluate R data mask height = .ok (ran, Precheck.evaluate R P.kernels data mask height) ∧
        ∀ why, decode R data = .error why → ran = [] := by
  constructor
  · intro w h
    have hw := decode_sound h
    exact ⟨hw.chosen, hw.rows, hw.row, hw.logits.trans hw.ids.symm, hw.ids⟩
  · unfold evaluate Precheck.evaluate
    cases h : decode R data with
    | error why => exact ⟨[], rfl, fun _ _ => rfl⟩
    | ok w =>
      have hw : ({ w with height } : Window F).Sound := by
        obtain ⟨h₁, h₂, h₃, h₄, h₅⟩ := decode_sound h
        exact ⟨h₁, h₂, h₃, h₄, h₅⟩
      obtain ⟨ran, hran⟩ := P.evaluateBody_ok hw mask
      refine ⟨ran, ?_, fun why hwhy => by cases hwhy⟩
      dsimp only
      rw [bind_ok hran, evaluateWindow]
      cases Precheck.evaluateBody P.kernels { w with height } mask with
      | ok v => rfl
      | error e => rfl

end Rules

end Precheck
