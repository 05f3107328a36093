import Mathlib
import SuprMeow.Precheck.Bounds
import SuprMeow.Precheck.FlatRegion

/-!
# What passes the sunset gates

The prompt-scaffold and flat-region gates read one call of the verifier, which replays every row,
compares its credit and only then asks the two vendored conditions.  Here a pass is followed back
through the gates, the call and the conditions to the decoded window.

* `runGates_pass` — a pass of the row of gates is a pass of each;
* `sunsetWindow_clean` — what status 0 and its flags say of the window;
* `evaluate_pass_clean` — a proof that passes with the flat-region gate on has neither a scaffold
  nor flat credit.
-/

set_option autoImplicit false

namespace Precheck

open Checked

open Binary32 (Pattern)

/-! ## Passes of single gates -/

section Gates

variable {F : Type} {K : Kernels F} {c₀ c c' : Ctx F} {r : GateResult}

/-- A status that passes is 0. -/
theorem sunsetStatusResult_pass (h : (sunsetStatusResult c).outcome = .pass) :
    c.sunsetStatus = 0 := by
  unfold sunsetStatusResult at h
  split at h
  · assumption
  · split at h
    · cases h
    · split at h <;> cases h

theorem gatePromptScaffold_runs (h : gatePromptScaffold K c = .ok (r, c')) :
    runSunset K c = .ok c' := by
  unfold gatePromptScaffold at h
  obtain ⟨c₁, hrun, h⟩ := Fallible.seq_ok.1 h
  dsimp only at h
  split at h
  · cases h
    exact hrun
  · split at h
    · obtain ⟨_, -, h⟩ := Fallible.seq_ok.1 h
      cases h
      exact hrun
    · cases h
      exact hrun

theorem gateFlatRegion_runs (h : gateFlatRegion K c = .ok (r, c')) :
    runSunset K c = .ok c' := by
  unfold gateFlatRegion at h
  obtain ⟨c₁, hrun, h⟩ := Fallible.seq_ok.1 h
  dsimp only at h
  split at h
  · cases h
    exact hrun
  split at h
  · cases h
    exact hrun
  split at h
  · cases h
    exact hrun
  split at h
  · obtain ⟨_, -, h⟩ := Fallible.seq_ok.1 h
    cases h
    exact hrun
  · cases h
    exact hrun

/-- **What a pass of the flat-region gate says of the sunset call.** -/
theorem gateFlatRegion_pass (h : gateFlatRegion K c = .ok (r, c')) (hpass : r.outcome = .pass) :
    c'.sunsetStatus = 0 ∧ c'.sunsetOut.getD 4 0 = 0 ∧ c'.sunsetOut.getD 10 0 = 1 ∧
      c'.sunsetOut.getD 9 0 = 0 := by
  unfold gateFlatRegion at h
  obtain ⟨c₁, hrun, h⟩ := Fallible.seq_ok.1 h
  dsimp only at h
  split at h
  · rename_i hst
    cases h
    exact absurd hpass hst
  · rename_i hst
    have hstatus := sunsetStatusResult_pass (not_not.1 hst)
    split at h
    · cases h
      cases hpass
    · rename_i hscaffold
      split at h
      · cases h
        cases hpass
      · rename_i hcomputed
        split at h
        · obtain ⟨_, -, h⟩ := Fallible.seq_ok.1 h
          cases h
          cases hpass
        · rename_i hflat
          cases h
          exact ⟨hstatus, not_not.1 hscaffold, not_not.1 hcomputed, not_not.1 hflat⟩

variable [Inhabited F]

/-- A gate leaves the context as it was, or as the sunset call leaves it. -/
theorem check_leaves {g : Gate} (h : g.check K c = .ok (r, c')) :
    c' = c ∨ runSunset K c = .ok c' := by
  cases g with
  | promptScaffold => exact .inr (gatePromptScaffold_runs h)
  | flatRegion => exact .inr (gateFlatRegion_runs h)
  | strict =>
    left
    change gateStrict K c = _ at h
    unfold gateStrict at h
    split at h <;> cases h <;> rfl
  | nearPin =>
    left
    change gateNearPin K c = _ at h
    unfold gateNearPin at h
    split at h
    · cases h
      rfl
    · obtain ⟨_, -, h⟩ := Fallible.seq_ok.1 h
      split at h <;> cases h <;> rfl
  | candidateBand =>
    left
    change gateCandidateBand K c = _ at h
    unfold gateCandidateBand at h
    split at h
    · cases h
      rfl
    split at h
    · obtain ⟨_, -, h⟩ := Fallible.seq_ok.1 h
      cases h
      rfl
    · cases h
      rfl
  | creditTier =>
    left
    change gateCreditTier K c = _ at h
    unfold gateCreditTier at h
    obtain ⟨_, -, h⟩ := Fallible.seq_ok.1 h
    cases h
    rfl
  | antiParrot =>
    left
    change gateAntiParrot K c = _ at h
    unfold gateAntiParrot at h
    obtain ⟨_, -, h⟩ := Fallible.seq_ok.1 h
    split at h
    · split at h <;> cases h <;> rfl
    · split at h <;> cases h <;> rfl

theorem Ctx.Shared.check (h : c₀.Shared K c) {g : Gate} (hg : g.check K c = .ok (r, c')) :
    c₀.Shared K c' := by
  rcases check_leaves hg with rfl | hrun
  · exact h
  · rcases h with rfl | h
    · exact .inr hrun
    · rw [runSunset_done (runSunset_like h).2] at hrun
      cases hrun
      exact .inr h

/-- **A pass of the row of gates is a pass of every gate that is on**, each on the one context. -/
theorem runGates_pass {mask : Nat} {gs : List Gate} : ∀ {v v' : Verdict} {c : Ctx F},
    c₀.Shared K c → runGates K mask gs v c = .ok v' → v'.outcome = .pass →
      v.reason = "" ∧ ∀ g ∈ gs, enabled mask g = true →
        ∃ c₁ r c₂, c₀.Shared K c₁ ∧ g.check K c₁ = .ok (r, c₂) ∧ r.outcome = .pass := by
  induction gs with
  | nil =>
    intro v v' c _ h hpass
    cases h
    refine ⟨?_, by simp⟩
    by_contra hne
    rw [if_neg hne] at hpass
    cases hpass
  | cons g rest ih =>
    intro v v' c hs h hpass
    unfold runGates at h
    by_cases hon : enabled mask g = true
    · rw [if_pos hon] at h
      cases hg : g.check K c with
      | error e =>
        rw [hg] at h
        cases h
      | ok rc =>
        obtain ⟨⟨outcome, reason, withheld⟩, c₁⟩ := rc
        rw [hg] at h
        have hs' := hs.check hg
        cases outcome with
        | pass =>
          obtain ⟨hv, hall⟩ := ih hs' h hpass
          refine ⟨hv, fun g' hg' hon' => ?_⟩
          rcases List.mem_cons.1 hg' with rfl | hg'
          · exact ⟨c, _, c₁, hs, hg, rfl⟩
          · exact hall g' hg' hon'
        | reject =>
          cases h
          cases hpass
        | unavailable =>
          have hv := (ih hs' h hpass).1
          split at hv
          · exact absurd hv (gateName_reason_ne g _)
          · rename_i hne
            exact absurd hv hne
    · rw [if_neg hon] at h
      obtain ⟨hv, hall⟩ := ih hs h hpass
      refine ⟨hv, fun g' hg' hon' => ?_⟩
      rcases List.mem_cons.1 hg' with rfl | hg'
      · exact absurd hon' hon
      · exact hall g' hg' hon'

/-- A pass of the body is a pass of the gates on the context it builds. -/
theorem evaluateBody_pass {w : Window F} {mask : Nat} {v : Verdict}
    (h : evaluateBody K w mask = .ok v) (hpass : v.outcome = .pass) :
    ∃ ws v₀, ws.creditUnits.length = kWindow ∧
      runGates K mask pipeline v₀ ({ w, ws : Ctx F }.buildMetrics) = .ok v := by
  unfold evaluateBody at h
  obtain ⟨env, -, h⟩ := Fallible.seq_ok.1 h
  cases env with
  | some why =>
    cases h
    cases hpass
  | none =>
    dsimp only at h
    split at h
    · cases h
      cases hpass
    · obtain ⟨⟨st, ws, err⟩, -, h⟩ := Fallible.seq_ok.1 h
      cases st with
      | badFloatEnvironment =>
        cases h
        cases hpass
      | badInput =>
        dsimp only at h
        split at h <;> cases h <;> cases hpass
      | ok =>
        dsimp only at h
        split at h
        · cases h
          cases hpass
        · rename_i hcount
          obtain ⟨v₀, -, h⟩ := Fallible.seq_ok.1 h
          exact ⟨ws, v₀, by omega, h⟩

omit [Inhabited F] in
/-- The sunset call is made once, from the context as it is built. -/
theorem Ctx.Shared.sunset (h : c₀.Shared K c) (hrun : Precheck.runSunset K c = .ok c')
    (hfresh : c₀.sunsetDone = false) (hstatus : c'.sunsetStatus = 0) :
    ∃ r, K.sunsetWindow c₀.w.rowLen c₀.w.logits c₀.w.ids c₀.w.chosen c₀.w.prompt
        (normalizePadMask c₀.w) c₀.ws.creditUnits = .ok r ∧
      c'.sunsetStatus = r.status ∧ c'.sunsetOut = r.out := by
  have hrun₀ : Precheck.runSunset K c₀ = .ok c' := by
    rcases h with rfl | h
    · exact hrun
    · rw [runSunset_done (runSunset_like h).2] at hrun
      cases hrun
      exact h
  unfold Precheck.runSunset at hrun₀
  rw [if_neg (by simp [hfresh])] at hrun₀
  split at hrun₀
  · cases hrun₀
    cases hstatus
  · obtain ⟨r, hr, h⟩ := Fallible.seq_ok.1 hrun₀
    cases h
    exact ⟨r, hr, rfl, rfl⟩

end Gates

/-! ## The sunset call -/

namespace Rules

variable {S : Type} (P : Rules Pattern S)

/-- The rules with the vendored flat region. -/
def withVendoredSunset : Rules Pattern S := { P with flat := FlatRegion.flatOut }

/-- A row as the canonical kernel reads it, with its credit. -/
def CanonicalRow (logits : List Pattern) (ids : List Nat) (tok credit : Nat)
    (row : List Pattern) : Prop :=
  ∃ r err, P.computeStep logits ids tok = .ok (.ok, r, err) ∧
    P.creditUnits (P.pChosen r) = .ok credit ∧ row = P.cdfP r

/-- The rows of a window as the canonical kernel reads them, with their credits. -/
structure Canonical (w : Window Pattern) (credits : List Nat) (rows : List (List Pattern)) :
    Prop where
  count : rows.length = kWindow
  row : ∀ s, s < kWindow →
    P.CanonicalRow ((splitRows w.rowLen w.logits).getD s []) ((splitRows w.rowLen w.ids).getD s [])
      (w.chosen.getD s 0) (credits.getD s 0) (rows.getD s [])

/-- **The loop over the rows lets canonical rows through, and no others.** -/
theorem sunsetRows_canonical {rowLen : List Nat} {logits : List Pattern}
    {ids chosen credits : List Nat} (hchosen : rowLen.length ≤ chosen.length)
    (hcredits : rowLen.length ≤ credits.length) :
    ∀ {left s offset : Nat} {rows rows' : List (List Pattern)},
    Ahead rowLen logits.length left s offset → Ahead rowLen ids.length left s offset →
    P.sunsetRows rowLen logits ids chosen credits left s offset rows = .ok (.ok (.inr rows')) →
      ∃ new, rows' = rows ++ new ∧ new.length = left ∧ ∀ i, i < left →
        P.CanonicalRow ((splitRows (rowLen.drop s) (logits.drop offset)).getD i [])
          ((splitRows (rowLen.drop s) (ids.drop offset)).getD i [])
          (chosen.getD (s + i) 0) (credits.getD (s + i) 0) (new.getD i []) := by
  intro left
  induction left with
  | zero =>
    intro s offset rows rows' _ _ h
    cases h
    exact ⟨[], (List.append_nil rows).symm, rfl, fun i hi => absurd hi (Nat.not_lt_zero i)⟩
  | succ left ih =>
    intro s offset rows rows' hlogits hids h
    obtain ⟨hs, hrow, hlogits'⟩ := hlogits.next
    obtain ⟨_, hrowIds, hids'⟩ := hids.next
    rw [sunsetRows, bind_ok (get_ok _ hs)] at h
    dsimp only at h
    split at h
    · cases h
    · rw [bind_ok (slice_ok _ hrow), bind_ok (slice_ok _ hrowIds),
        bind_ok (get_ok _ (show s < chosen.length by omega))] at h
      have hsplit : ∀ {α : Type} (xs : List α), splitRows (rowLen.drop s) (xs.drop offset) =
          (xs.drop offset).take rowLen[s] ::
            splitRows (rowLen.drop (s + 1)) (xs.drop (offset + rowLen[s])) := by
        intro α xs
        rw [List.drop_eq_getElem_cons hs, splitRows, List.drop_drop]
      have htok : chosen.getD s 0 = chosen[s] := by
        rw [List.getD_eq_getElem?_getD, List.getElem?_eq_getElem, Option.getD_some]
      split at h
      · cases h
      · cases h
      · rename_i r err hstep
        split at h
        · cases h
        · split at h
          · cases h
          · rename_i units hunits
            rw [bind_ok (get_ok _ (show s < credits.length by omega))] at h
            split at h
            · cases h
            · rename_i hcredit
              obtain ⟨new, hnew, hlen, hall⟩ := ih hlogits' hids' h
              have hc : credits.getD s 0 = units := by
                rw [List.getD_eq_getElem?_getD, List.getElem?_eq_getElem (by omega),
                  Option.getD_some]
                exact not_not.1 hcredit
              refine ⟨P.cdfP r :: new, ?_, congrArg Nat.succ hlen, fun i hi => ?_⟩
              · rw [hnew, List.append_assoc]
                rfl
              · rw [hsplit, hsplit]
                cases i with
                | zero =>
                  show P.CanonicalRow _ _ (chosen.getD s 0) (credits.getD s 0) _
                  rw [htok, hc]
                  exact ⟨r, err, hstep, hunits, rfl⟩
                | succ i =>
                  have hi' := hall i (by omega)
                  rw [show s + (i + 1) = s + 1 + i by omega]
                  exact hi'
      · cases h

/-- What refuses a row leaves the output zeroed. -/
theorem sunsetRows_refused {rowLen : List Nat} {logits : List Pattern}
    {ids chosen credits : List Nat} (hchosen : rowLen.length ≤ chosen.length)
    (hcredits : rowLen.length ≤ credits.length) :
    ∀ {left s offset : Nat} {rows : List (List Pattern)} {r : Sunset},
    Ahead rowLen logits.length left s offset → Ahead rowLen ids.length left s offset →
    P.sunsetRows rowLen logits ids chosen credits left s offset rows = .ok (.ok (.inl r)) →
      r.out = noOutput := by
  intro left
  induction left with
  | zero =>
    intro s offset rows r _ _ h
    cases h
  | succ left ih =>
    intro s offset rows r hlogits hids h
    obtain ⟨hs, hrow, hlogits'⟩ := hlogits.next
    obtain ⟨_, hrowIds, hids'⟩ := hids.next
    rw [sunsetRows, bind_ok (get_ok _ hs)] at h
    dsimp only at h
    split at h
    · cases h
      rfl
    · rw [bind_ok (slice_ok _ hrow), bind_ok (slice_ok _ hrowIds),
        bind_ok (get_ok _ (show s < chosen.length by omega))] at h
      split at h
      · cases h
        rfl
      · cases h
      · split at h
        · cases h
          rfl
        · split at h
          · cases h
            rfl
          · rw [bind_ok (get_ok _ (show s < credits.length by omega))] at h
            split at h
            · cases h
              rfl
            · exact ih hlogits' hids' h
      · cases h
        rfl

/-- **What the two conditions say where both let the window through.** -/
theorem sunsetEvaluate_clean {rows : List (List Pattern)} {chosen prompt pad credits : List Nat}
    (hchosen : chosen.length = kWindow) (hcredits : credits.length = kWindow) {r : Sunset}
    (h : P.withVendoredSunset.sunsetEvaluate rows chosen prompt pad credits = .ok (.ok r))
    (hstatus : r.status = 0) (h4 : r.out.getD 4 0 = 0) (h9 : r.out.getD 9 0 = 0)
    (h10 : r.out.getD 10 0 = 1) :
    (∃ m, Scaffold.computeWindow prompt pad chosen credits = .ok m ∧ m.reject = false) ∧
      ∃ m, FlatRegion.computeWindow rows credits false = .ok m ∧ m.reject = false := by
  have htokens : (chosen.drop 0).take kWindow = chosen := by
    rw [List.drop_zero, ← hchosen, List.take_length]
  have hc : (credits.drop 0).take kWindow = credits := by
    rw [List.drop_zero, ← hcredits, List.take_length]
  rw [sunsetEvaluate, bind_ok (slice_all _ prompt), bind_ok (slice_all _ pad),
    bind_ok (slice_ok _ (by omega)), bind_ok (slice_ok _ (by omega)), htokens, hc,
    bind_ok (Scaffold.computeWindowM_ok _ _ _ _)] at h
  cases hm : Scaffold.computeWindow prompt pad chosen credits with
  | error why =>
    rw [hm] at h
    cases h
    cases hstatus
  | ok m =>
    have hlen : m.covered.length = 4 := by
      rw [((Scaffold.computeWindow_ok_iff _ _ _ _ _).1 hm).2]
      simp [Scaffold.exactCovered, Scaffold.branches]
    rw [hm] at h
    dsimp only at h
    cases hreject : m.reject with
    | true =>
      rw [hreject, if_pos rfl] at h
      cases h
      rw [List.getD_eq_getElem?_getD, List.append_assoc,
        List.getElem?_append_right (by omega), hlen] at h4
      cases h4
    | false =>
      rw [hreject, if_neg Bool.false_ne_true] at h
      refine ⟨⟨m, rfl, hreject⟩, ?_⟩
      cases hf : FlatRegion.computeWindow rows credits false with
      | error why =>
        have hs : P.withVendoredSunset.flat rows credits = .ok none := by
          show FlatRegion.flatOut _ _ = _
          unfold FlatRegion.flatOut
          rw [hf]
        rw [hs] at h
        cases h
        cases hstatus
      | ok n =>
        have hs : P.withVendoredSunset.flat rows credits = .ok (some [n.cappedUnits,
            n.flatCappedUnits, n.flatCreditedRows, n.eligible.toNat, n.reject.toNat]) := by
          show FlatRegion.flatOut _ _ = _
          unfold FlatRegion.flatOut
          rw [hf]
        rw [hs] at h
        cases h
        refine ⟨n, rfl, ?_⟩
        rw [List.append_assoc, List.getD_eq_getElem?_getD, List.getElem?_append_right
          (by simp [hlen]), List.length_append, hlen] at h9
        cases hn : n.reject with
        | false => rfl
        | true =>
          rw [hn] at h9
          cases h9

variable {w : Window Pattern}

/-- **What status 0 of the sunset call says of the window**, with its flags. -/
theorem sunsetWindow_clean (hw : w.Sound) {credits : List Nat}
    (hcredits : credits.length = kWindow) {prompt pad : List Nat} {r : Sunset}
    (h : P.withVendoredSunset.sunsetWindow w.rowLen w.logits w.ids w.chosen prompt pad credits =
      .ok (.ok r)) (hstatus : r.status = 0) (h4 : r.out.getD 4 0 = 0) (h9 : r.out.getD 9 0 = 0)
    (h10 : r.out.getD 10 0 = 1) :
    ∃ rows, P.Canonical w credits rows ∧
      (∃ m, Scaffold.computeWindow prompt pad w.chosen credits = .ok m ∧ m.reject = false) ∧
        ∃ m, FlatRegion.computeWindow rows credits false = .ok m ∧ m.reject = false := by
  have hchosen : w.rowLen.length ≤ w.chosen.length := by rw [hw.rows, hw.chosen]
  have hcount : w.rowLen.length ≤ credits.length := by rw [hw.rows, hcredits]
  have hlogits := Ahead.start hw.rows hw.logits
  have hids := Ahead.start hw.rows hw.ids
  obtain ⟨res, hres⟩ :=
    P.withVendoredSunset.sunsetRows_ok hlogits hids hchosen hcount ([] : List (List Pattern))
  obtain ⟨_, hcredit⟩ := above_ok .credits (by omega : kWindow ≤ credits.length) maxStepCredit
  obtain ⟨_, hpad⟩ := above_ok .pad (Nat.le_refl pad.length) 1
  rw [sunsetWindow] at h
  split at h
  · cases h
    cases hstatus
  · rw [bind_ok hcredit] at h
    split at h
    · cases h
      cases hstatus
    · rw [bind_ok hpad] at h
      split at h
      · cases h
        cases hstatus
      · rw [bind_ok hres] at h
        cases res with
        | error e => cases h
        | ok res =>
          cases res with
          | inl r' =>
            have hout := P.withVendoredSunset.sunsetRows_refused hchosen hcount hlogits hids hres
            cases h
            rw [hout] at h10
            cases h10
          | inr rows =>
            obtain ⟨new, hnew, hlen, hall⟩ :=
              P.withVendoredSunset.sunsetRows_canonical hchosen hcount hlogits hids hres
            rw [List.nil_append] at hnew
            subst hnew
            refine ⟨rows, ⟨hlen, fun s hs => ?_⟩,
              P.sunsetEvaluate_clean hw.chosen hcredits h hstatus h4 h9 h10⟩
            have hrow := hall s hs
            rwa [Nat.zero_add, List.drop_zero, List.drop_zero, List.drop_zero] at hrow

/-- **A window without a scaffold and without flat credit.** -/
structure Clean (w : Window Pattern) (credits : List Nat) (rows : List (List Pattern)) : Prop where
  evidence : Scaffold.ValidWindow w.prompt (normalizePadMask w) w.chosen credits ∧
    FlatRegion.ValidWindow rows credits false
  scaffold : ∀ b ∈ Scaffold.branches, ¬ b.Covers w.prompt (normalizePadMask w) w.chosen credits
  flat : FlatRegion.Eligible credits →
    4 * FlatRegion.flatCapped false (rows.zip credits) < 3 * FlatRegion.capped credits

theorem clean_of_accepted {credits : List Nat} {rows : List (List Pattern)}
    (hs : ∃ m, Scaffold.computeWindow w.prompt (normalizePadMask w) w.chosen credits = .ok m ∧
      m.reject = false)
    (hf : ∃ m, FlatRegion.computeWindow rows credits false = .ok m ∧ m.reject = false) :
    Clean w credits rows := by
  obtain ⟨m, hm, hreject⟩ := hs
  obtain ⟨n, hn, hflat⟩ := hf
  obtain ⟨hvalid, rfl⟩ := (Scaffold.computeWindow_ok_iff _ _ _ _ _).1 hm
  obtain ⟨hrows, rfl⟩ := (FlatRegion.computeWindow_ok_iff _ _ _ _).1 hn
  refine ⟨⟨hvalid, hrows⟩, fun b hb hcovers => ?_, fun he => ?_⟩
  · have hany := (Scaffold.any_minCovered_iff _ _ _ _).2 ⟨b, hb, hcovers⟩
    rw [hany] at hreject
    cases hreject
  · have hno := of_decide_eq_false hflat
    by_contra hle
    exact hno ⟨he, by omega⟩

variable {R : Reader Pattern} {data : List Nat} {mask height : Nat}

/-- **A proof that passes is clean**: with the flat-region gate on, the window of any proof that
passes is canonical, no scaffold fills it, and little of its credit is flat. -/
theorem evaluate_pass_clean (hon : enabled mask .flatRegion = true)
    (hpass : (Precheck.evaluate R P.withVendoredSunset.kernels data mask height).outcome = .pass) :
    ∃ w credits rows, decode R data = .ok w ∧ P.Canonical w credits rows ∧
      Clean w credits rows := by
  unfold Precheck.evaluate at hpass
  cases hd : decode R data with
  | error why =>
    rw [hd] at hpass
    cases hpass
  | ok w =>
    have hsound := decode_sound hd
    rw [hd] at hpass
    change (evaluateWindow P.withVendoredSunset.kernels { w with height := height } mask).outcome =
      .pass at hpass
    unfold evaluateWindow at hpass
    cases hb : Precheck.evaluateBody P.withVendoredSunset.kernels { w with height := height }
        mask with
    | error e =>
      rw [hb] at hpass
      cases hpass
    | ok v =>
      rw [hb] at hpass
      obtain ⟨ws, v₀, hcredits, hrun⟩ := evaluateBody_pass hb hpass
      obtain ⟨-, hall⟩ := runGates_pass (.inl rfl) hrun hpass
      obtain ⟨c₁, r, c₂, hshared, hcheck, hr⟩ := hall .flatRegion (mem_pipeline _) hon
      obtain ⟨hstatus, h4, h10, h9⟩ := gateFlatRegion_pass hcheck hr
      have hfresh :
          ({ w := { w with height := height }, ws : Ctx Pattern }.buildMetrics).sunsetDone = false :=
        rfl
      obtain ⟨s, hs, hs₁, hs₂⟩ := hshared.sunset (gateFlatRegion_runs hcheck) hfresh hstatus
      have hcall : P.withVendoredSunset.sunsetWindow w.rowLen w.logits w.ids w.chosen w.prompt
          (normalizePadMask w) ws.creditUnits = .ok (.ok s) := by
        change unchecked (P.withVendoredSunset.sunsetWindow w.rowLen w.logits w.ids w.chosen
          w.prompt (normalizePadMask w) ws.creditUnits) = .ok s at hs
        cases hcall : P.withVendoredSunset.sunsetWindow w.rowLen w.logits w.ids w.chosen w.prompt
            (normalizePadMask w) ws.creditUnits with
        | error e =>
          rw [hcall] at hs
          cases hs
        | ok r =>
          rw [hcall] at hs
          exact congrArg _ hs
      rw [hs₂] at h4 h9 h10
      obtain ⟨rows, hcanonical, hscaffold, hflat⟩ :=
        P.sunsetWindow_clean hsound hcredits hcall (hs₁.symm.trans hstatus) h4 h9 h10
      exact ⟨w, ws.creditUnits, rows, rfl, hcanonical, clean_of_accepted hscaffold hflat⟩

/-- Rules that read a row as probabilities; a chosen half is worth one bit. -/
def halvingRules : Rules Pattern (Int × List Pattern) where
  base :=
    { floatEnvironment := .ok none
      floatEnvironmentSet := .ok none
      greater := fun a b => decide (b.toNat < a.toNat)
      close := fun a b => decide (a = b)
      computeWindowStructure := fun _ _ _ _ => .error .unknown
      structureRejects := fun _ => .ok false
      candidateReason := fun _ _ _ => .ok ""
      sunsetWindow := fun _ _ _ _ _ _ _ => .error .unknown
      scaffoldReason := fun _ => .ok "prompt scaffold"
      flatReason := fun _ _ _ _ => .ok "flat region"
      tierForBCredUnits := fun _ => .ok .free
      ruleset5Tier := fun _ _ => .ok .free
      totalPrice := fun _ _ => .ok 1000
      ruleset5TotalPrice := fun _ _ => .ok 1000
      antiparrot := fun _ _ _ _ => .ok {}
      bits := fun units => toString (units / 1024)
      detectorPolicyHeight := 31400
      v3SunsetHeight := 27615 }
  computeStep := fun row ids tok => .ok (.ok, (if tok ∈ ids then ids.idxOf tok else -1, row), "")
  position := fun r => r.1
  pChosen := fun r => r.2.getD r.1.toNat 0#32
  cdfP := fun r => r.2
  zero := 0#32
  creditUnits := fun p => .ok (if p = 0x3f000000#32 then 1024 else 0)
  hardMass := fun _ => .ok 0
  aggregate := fun _ ws => .ok (.ok,
    { ws with
      bcapUnits := 1024, collisionU := 2 ^ 83, collisionId := 2 ^ 83
      valid := true, candidateComplete := true }, "")
  flat := fun _ _ => .ok none

/-- A half and two quarters at token 50, certainty elsewhere. -/
def halvingRow (tok : Nat) : List Pattern × List Nat :=
  if tok = 50 then ([0x3f000000#32, 0x3e800000#32, 0x3e800000#32], [50, 51, 52])
  else ([0x3f800000#32], [tok])

/-- Twelve tokens of the prompt. -/
def phrase : List Nat := List.range' 1 12

/-- The phrase twice, with 20 bits of credit between. -/
def quoting : List Nat := List.replicate 212 7 ++ phrase ++ List.replicate 20 50 ++ phrase

/-- A reader that finds a proof of these tokens in every buffer; the prompt's last is masked. -/
def halvingReader (prompt chosen : List Nat) : Reader Pattern where
  root := fun _ => .ok (some (some
    { version := 4
      extraFlags := some []
      chosenTokens := some chosen
      chosenProbs := some (chosen.map fun tok => (halvingRow tok).1.headD 0#32)
      topkLogits := some (chosen.map fun tok => some (halvingRow tok).1)
      topkIndices := some (chosen.map fun tok => some (halvingRow tok).2)
      promptTokens := some (prompt ++ [7])
      padMask := some (prompt.map (fun _ => false) ++ [true]) }))
  parse := fun _ => .ok (some (.object [(Stratum.text "v4", .unsigned 1)]))

set_option maxRecDepth 4000 in
theorem evaluate_pass_clean_certain :
    (Precheck.evaluate (halvingReader phrase quoting) halvingRules.withVendoredSunset.kernels [1]
      (gateBit .flatRegion) 0).outcome = .pass ∧
    ∃ w credits rows, decode (halvingReader phrase quoting) [1] = .ok w ∧
      halvingRules.Canonical w credits rows ∧ Clean w credits rows := by
  have hpass : (Precheck.evaluate (halvingReader phrase quoting)
      halvingRules.withVendoredSunset.kernels [1]
      (gateBit .flatRegion) 0).outcome = .pass := by decide +kernel
  exact ⟨hpass, evaluate_pass_clean halvingRules (by decide) hpass⟩

end Rules

end Precheck
