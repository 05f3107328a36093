import SuprMeow.Library.Decimal
import SuprMeow.Library.Segments
import SuprMeow.Poi.Hex

/-!
# The device list (`device.cpp`)

`parse_device_spec` drops white space, cuts at the commas with `std::getline` and converts every
entry.  `getline` gives no entry behind a last comma, and `std::stoi` throws on a large numeral.

* `parseFields_none_error_iff`, `parseFields_throws_iff` — how the loop ends;
* `deviceSpec_parse_iff` — the strings on which the function parses its grammar.
-/

set_option autoImplicit false

open Stratum (Bytes text)

namespace Host

/-! ## `parse_device_spec` -/

/-- What `std::getline` with a comma reads from a stream: nothing behind a last comma. -/
def fields (s : Bytes) : List Bytes :=
  Segments.terminated 44 s ++
    if Segments.unfinished 44 s = [] then [] else [Segments.unfinished 44 s]

/-- The loop, with `out` so far: `out` and the error if it returns false; `none` if it throws. -/
def parseFields : List Bytes → List Int → Option (List Int × Option Bytes)
  | [], out => some (out, none)
  | tok :: toks, out =>
    if tok = [] then some (out, some (text "empty entry in device list (check for a stray comma)"))
    else if tok.all Decimal.isDigit = false then
      some (out, some (text "device list must be numbers separated by commas, got '" ++ tok ++
        text "'"))
    else
      match Decimal.stoi tok with
      | none => none
      | some id =>
        if id ∈ out then some (out, some (text "device " ++ tok ++ text " listed twice"))
        else parseFields toks (out ++ [id])

/-- `s`, without white space. -/
def strip (spec : Bytes) : Bytes := spec.filter fun c => !Decimal.isSpace c

def parseDeviceSpec (spec : Bytes) : Option (List Int × Option Bytes) :=
  let s := strip spec
  if s = [] then some ([], none) else parseFields (fields s) []

/-! ## Specification -/

def ids (toks : List Bytes) : List Int := toks.map fun tok => (Decimal.number tok : Int)

/-- Numerals that fit an `int`, distinct as numbers from each other and from `out`. -/
def Distinct (out : List Int) (toks : List Bytes) : Prop :=
  (∀ tok ∈ toks, Decimal.IsNumeral tok ∧ Decimal.number tok < 2 ^ 31) ∧ (out ++ ids toks).Nodup

/-- The grammar: nothing, or a list of entries with commas between them. -/
def DeviceList (spec : Bytes) (out : List Int) : Prop :=
  strip spec = [] ∧ out = [] ∨
    ∃ toks, toks ≠ [] ∧ strip spec = [44].intercalate toks ∧ Distinct [] toks ∧ out = ids toks

/-- **The function returns; without an error exactly on the grammar, with its ids in order.** -/
def ParsesDevices (spec : Bytes) : Prop :=
  ∃ out error, parseDeviceSpec spec = some (out, error) ∧
    (error = none ↔ ∃ out, DeviceList spec out) ∧ (error = none → DeviceList spec out) ∧
    ∀ e, error = some e → e ≠ []

/-- A numeral that does not fit an `int` behind entries that are accepted. -/
def ReachesOversized (spec : Bytes) : Prop :=
  ∃ toks tok rest, (strip spec).splitOn 44 = toks ++ tok :: rest ∧ Distinct [] toks ∧
    Decimal.IsNumeral tok ∧ 2 ^ 31 ≤ Decimal.number tok

/-- A list with one comma behind it. -/
def TrailingComma (spec : Bytes) : Prop :=
  ∃ toks, toks ≠ [] ∧ strip spec = [44].intercalate toks ++ [44] ∧ Distinct [] toks

/-! ## The loop -/

theorem distinct_nil {out : List Int} (h : out.Nodup) : Distinct out [] :=
  ⟨List.forall_mem_nil _, by simpa [ids] using h⟩

theorem distinct_cons {out : List Int} {tok : Bytes} {toks : List Bytes} :
    Distinct out (tok :: toks) ↔ (Decimal.IsNumeral tok ∧ Decimal.number tok < 2 ^ 31) ∧
      Distinct (out ++ [(Decimal.number tok : Int)]) toks := by
  unfold Distinct ids
  rw [List.forall_mem_cons, List.map_cons, List.append_assoc, List.singleton_append, and_assoc]

/-- The numbers of accepted entries are new. -/
theorem Distinct.not_mem {out : List Int} {tok : Bytes} {toks : List Bytes}
    (h : Distinct (out ++ [(Decimal.number tok : Int)]) toks) :
    (Decimal.number tok : Int) ∉ out := by
  have hnodup := (List.nodup_append'.1 h.2).1
  have hdisj := (List.nodup_append'.1 hnodup).2.2
  exact fun hmem => hdisj hmem (List.mem_singleton.2 rfl)

/-- One entry of the loop. -/
theorem parseFields_cons {tok : Bytes} (h : Decimal.IsNumeral tok) (toks : List Bytes)
    (out : List Int) : parseFields (tok :: toks) out =
      if 2 ^ 31 ≤ Decimal.number tok then none
      else if (Decimal.number tok : Int) ∈ out then
        some (out, some (text "device " ++ tok ++ text " listed twice"))
      else parseFields toks (out ++ [(Decimal.number tok : Int)]) := by
  rw [parseFields, if_neg h.1, if_neg (mt Decimal.all_isDigit_eq_false.1 (not_not.2 h.2)),
    Decimal.stoi_numeral h]
  by_cases hbig : 2 ^ 31 ≤ Decimal.number tok
  · rw [if_pos hbig, if_neg (by omega)]
  · rw [if_neg hbig, if_pos (by omega)]

/-- An entry that is no numeral ends the loop with an error. -/
theorem parseFields_of_not_numeral {tok : Bytes} (h : ¬ Decimal.IsNumeral tok) (toks : List Bytes)
    (out : List Int) : ∃ e, parseFields (tok :: toks) out = some (out, some e) ∧ e ≠ [] := by
  rw [parseFields]
  split
  · exact ⟨_, rfl, by decide +kernel⟩
  · rename_i hne
    rw [if_pos (Decimal.all_isDigit_eq_false.2 fun hall => h ⟨hne, hall⟩)]
    refine ⟨_, rfl, ?_⟩
    exact List.append_ne_nil_of_left_ne_nil
      (List.append_ne_nil_of_left_ne_nil (by decide +kernel) _) _

/-- **The loop accepts distinct numerals, and returns them in order.** -/
theorem parseFields_none_error_iff {toks : List Bytes} {out out' : List Int} (hout : out.Nodup) :
    parseFields toks out = some (out', none) ↔ Distinct out toks ∧ out' = out ++ ids toks := by
  induction toks generalizing out with
  | nil =>
    rw [parseFields, Option.some.injEq, Prod.mk.injEq, and_iff_left rfl]
    simp [distinct_nil hout, ids, eq_comm]
  | cons tok toks ih =>
    rw [distinct_cons]
    by_cases hnum : Decimal.IsNumeral tok
    · rw [parseFields_cons hnum toks out]
      split
      · exact iff_of_false (by simp) fun h => by omega
      · rename_i hbig
        split
        · rename_i hmem
          exact iff_of_false (by simp) fun h => h.1.2.not_mem hmem
        · rename_i hnew
          have hnodup : (out ++ [(Decimal.number tok : Int)]).Nodup :=
            List.nodup_append'.2 ⟨hout, List.nodup_singleton _, by simpa using hnew⟩
          rw [ih hnodup, List.append_assoc, List.singleton_append]
          have : Decimal.number tok < 2 ^ 31 := by omega
          simp only [hnum, this, true_and]
          rfl
    · obtain ⟨e, he, -⟩ := parseFields_of_not_numeral hnum toks out
      rw [he]
      exact iff_of_false (by simp) fun h => hnum h.1.1.1

/-- A numeral too large behind distinct ones. -/
def Overflows (out : List Int) (toks : List Bytes) : Prop :=
  ∃ pre tok rest, toks = pre ++ tok :: rest ∧ Distinct out pre ∧ Decimal.IsNumeral tok ∧
    2 ^ 31 ≤ Decimal.number tok

theorem overflows_cons {out : List Int} {tok : Bytes} {toks : List Bytes} (hout : out.Nodup) :
    Overflows out (tok :: toks) ↔ Decimal.IsNumeral tok ∧ (2 ^ 31 ≤ Decimal.number tok ∨
      Decimal.number tok < 2 ^ 31 ∧ Overflows (out ++ [(Decimal.number tok : Int)]) toks) := by
  constructor
  · rintro ⟨pre, tok', rest, heq, hdist, hnum, hbig⟩
    cases pre with
    | nil =>
      cases heq
      exact ⟨hnum, .inl hbig⟩
    | cons t pre =>
      cases heq
      obtain ⟨⟨ht, hlt⟩, hrest⟩ := distinct_cons.1 hdist
      exact ⟨ht, .inr ⟨hlt, pre, tok', rest, rfl, hrest, hnum, hbig⟩⟩
  · rintro ⟨hnum, hbig | ⟨hlt, pre, tok', rest, rfl, hrest, hnum', hbig⟩⟩
    · exact ⟨[], tok, toks, rfl, distinct_nil hout, hnum, hbig⟩
    · exact ⟨tok :: pre, tok', rest, rfl, distinct_cons.2 ⟨⟨hnum, hlt⟩, hrest⟩, hnum', hbig⟩

/-- **The loop throws at a numeral too large that it reaches.** -/
theorem parseFields_throws_iff {toks : List Bytes} {out : List Int} (hout : out.Nodup) :
    parseFields toks out = none ↔ Overflows out toks := by
  induction toks generalizing out with
  | nil =>
    refine iff_of_false (by simp [parseFields]) ?_
    rintro ⟨pre, tok, rest, heq, -⟩
    cases pre <;> cases heq
  | cons tok toks ih =>
    rw [overflows_cons hout]
    by_cases hnum : Decimal.IsNumeral tok
    · rw [parseFields_cons hnum toks out]
      split
      · rename_i hbig
        exact iff_of_true rfl ⟨hnum, .inl hbig⟩
      · rename_i hbig
        split
        · rename_i hmem
          refine iff_of_false (by simp) ?_
          rintro ⟨-, h | ⟨-, pre, tok', rest, -, hdist, -⟩⟩
          · exact hbig h
          · exact hdist.not_mem hmem
        · rename_i hnew
          have hnodup : (out ++ [(Decimal.number tok : Int)]).Nodup :=
            List.nodup_append'.2 ⟨hout, List.nodup_singleton _, by simpa using hnew⟩
          rw [ih hnodup]
          have : Decimal.number tok < 2 ^ 31 := by omega
          simp only [hnum, hbig, this, true_and, false_or]
    · obtain ⟨e, he, -⟩ := parseFields_of_not_numeral hnum toks out
      rw [he]
      exact iff_of_false (by simp) fun h => hnum h.1

theorem parseFields_error {toks : List Bytes} {out out' : List Int} {e : Bytes}
    (h : parseFields toks out = some (out', some e)) : e ≠ [] := by
  induction toks generalizing out with
  | nil => cases h
  | cons tok toks ih =>
    by_cases hnum : Decimal.IsNumeral tok
    · rw [parseFields_cons hnum toks out] at h
      split at h
      · cases h
      · split at h
        · cases h
          exact List.append_ne_nil_of_left_ne_nil
            (List.append_ne_nil_of_left_ne_nil (by decide +kernel) _) _
        · exact ih h
    · obtain ⟨e', he, hne⟩ := parseFields_of_not_numeral hnum toks out
      rw [he] at h
      cases h
      exact hne

/-! ## Commas -/

theorem fields_of_unfinished {s : Bytes} (h : Segments.unfinished 44 s ≠ []) :
    fields s = s.splitOn 44 := by
  rw [fields, if_neg h, ← Segments.splitOn_eq]

/-- Behind a last comma `getline` leaves an entry out. -/
theorem splitOn_of_unfinished {s : Bytes} (h : Segments.unfinished 44 s = []) :
    s.splitOn 44 = fields s ++ [[]] := by
  rw [fields, if_pos h, List.append_nil, Segments.splitOn_eq, h]

theorem splitOn_concat (s : Bytes) : (s ++ [44]).splitOn 44 = s.splitOn 44 ++ [[]] := by
  rw [Segments.splitOn_append, Segments.splitOn_of_mem [] (Segments.not_mem_unfinished s),
    Segments.splitOn_eq 44 s]
  simp [Segments.terminated]

theorem Distinct.comma_not_mem {toks : List Bytes} (h : Distinct [] toks) :
    ∀ tok ∈ toks, (44 : UInt8) ∉ tok :=
  fun tok htok hmem => Decimal.isDigit_ne ((h.1 tok htok).1.2 _ hmem) rfl rfl

/-- A list of the grammar is what its commas leave. -/
theorem intercalate_iff {s : Bytes} {toks : List Bytes} (hne : toks ≠ [])
    (h : Distinct [] toks) : s = [44].intercalate toks ↔ s.splitOn 44 = toks := by
  constructor
  · rintro rfl
    exact List.splitOn_intercalate 44 h.comma_not_mem hne
  · rintro rfl
    exact (List.intercalate_splitOn 44).symm

theorem deviceList_iff {spec : Bytes} (hs : strip spec ≠ []) (out : List Int) :
    DeviceList spec out ↔
      Distinct [] ((strip spec).splitOn 44) ∧ out = ids ((strip spec).splitOn 44) := by
  constructor
  · rintro (⟨h, -⟩ | ⟨toks, hne, heq, hdist, rfl⟩)
    · exact absurd h hs
    · rw [(intercalate_iff hne hdist).1 heq]
      exact ⟨hdist, rfl⟩
  · rintro ⟨hdist, rfl⟩
    have hne := List.splitOn_ne_nil (44 : UInt8) (strip spec)
    exact .inr ⟨_, hne, (intercalate_iff hne hdist).2 rfl, hdist, rfl⟩

theorem trailingComma_iff (spec : Bytes) : TrailingComma spec ↔
    Segments.unfinished 44 (strip spec) = [] ∧ fields (strip spec) ≠ [] ∧
      Distinct [] (fields (strip spec)) := by
  constructor
  · rintro ⟨toks, hne, heq, hdist⟩
    have hsplit : (strip spec).splitOn 44 = toks ++ [[]] := by
      rw [heq, splitOn_concat, List.splitOn_intercalate 44 hdist.comma_not_mem hne]
    have hend := (Segments.splitOn_eq_iff.1 hsplit).2
    have hfields : fields (strip spec) = toks :=
      List.append_cancel_right ((splitOn_of_unfinished hend).symm.trans hsplit)
    rw [hfields]
    exact ⟨hend, hne, hdist⟩
  · rintro ⟨hend, hne, hdist⟩
    refine ⟨_, hne, ?_, hdist⟩
    have hsplit := splitOn_of_unfinished hend
    have hinv : [44].intercalate (([44].intercalate (fields (strip spec)) ++ [44]).splitOn 44) =
        [44].intercalate (fields (strip spec)) ++ [44] := List.intercalate_splitOn (44 : UInt8)
    rw [splitOn_concat, List.splitOn_intercalate 44 hdist.comma_not_mem hne, ← hsplit,
      List.intercalate_splitOn] at hinv
    exact hinv

/-- The entry left out is no numeral. -/
theorem overflows_concat {toks : List Bytes} : Overflows [] (toks ++ [[]]) ↔ Overflows [] toks := by
  constructor
  · rintro ⟨pre, tok, rest, heq, hdist, hnum, hbig⟩
    rcases List.eq_nil_or_concat rest with rfl | ⟨rest, last, rfl⟩
    · obtain ⟨-, htok⟩ := List.append_inj' heq rfl
      cases htok
      exact absurd rfl hnum.1
    · rw [List.concat_eq_append, ← List.cons_append, ← List.append_assoc] at heq
      obtain ⟨rfl, -⟩ := List.append_inj' heq rfl
      exact ⟨pre, tok, rest, rfl, hdist, hnum, hbig⟩
  · rintro ⟨pre, tok, rest, rfl, hdist, hnum, hbig⟩
    exact ⟨pre, tok, rest ++ [[]], by simp, hdist, hnum, hbig⟩

theorem reachesOversized_iff (spec : Bytes) :
    ReachesOversized spec ↔ Overflows [] (fields (strip spec)) := by
  change Overflows [] ((strip spec).splitOn 44) ↔ _
  by_cases hend : Segments.unfinished 44 (strip spec) = []
  · rw [splitOn_of_unfinished hend, overflows_concat]
  · rw [fields_of_unfinished hend]

/-! ## Results -/

theorem fields_ne_nil {s : Bytes} (h : s ≠ []) : fields s ≠ [] := by
  intro hf
  by_cases hend : Segments.unfinished 44 s = []
  · have hsplit := splitOn_of_unfinished hend
    have hinv : [44].intercalate (s.splitOn 44) = s := List.intercalate_splitOn (44 : UInt8)
    rw [hsplit, hf] at hinv
    exact h hinv.symm
  · rw [fields_of_unfinished hend] at hf
    exact List.splitOn_ne_nil 44 s hf

/-- A list of the grammar has no comma behind it. -/
theorem Distinct.unfinished_ne_nil {s : Bytes} (h : Distinct [] (s.splitOn 44)) :
    Segments.unfinished 44 s ≠ [] := by
  intro hend
  rw [splitOn_of_unfinished hend] at h
  exact (h.1 [] (by simp)).1.1 rfl

/-- **The function parses its grammar exactly where no numeral it reaches is too large for an `int`
and no comma is left behind a list.** -/
theorem deviceSpec_parse_iff (spec : Bytes) :
    ParsesDevices spec ↔ ¬ ReachesOversized spec ∧ ¬ TrailingComma spec := by
  by_cases hs : strip spec = []
  · refine iff_of_true ?_ ⟨?_, ?_⟩
    · refine ⟨[], none, by rw [parseDeviceSpec, if_pos hs], iff_of_true rfl ⟨[], .inl ⟨hs, rfl⟩⟩,
        fun _ => .inl ⟨hs, rfl⟩, ?_⟩
      intro e he
      cases he
    · rw [reachesOversized_iff, hs]
      rintro ⟨pre, tok, rest, heq, -⟩
      cases pre <;> cases heq
    · rintro ⟨toks, -, heq, -⟩
      rw [hs] at heq
      exact List.append_ne_nil_of_right_ne_nil _ (List.cons_ne_nil _ _) heq.symm
  have hparse : parseDeviceSpec spec = parseFields (fields (strip spec)) [] := if_neg hs
  rw [reachesOversized_iff, trailingComma_iff, ← parseFields_throws_iff List.nodup_nil]
  constructor
  · rintro ⟨out, error, hres, hiff, hgood, -⟩
    rw [hparse] at hres
    refine ⟨by rw [hres]; simp, ?_⟩
    rintro ⟨hend, hne, hdist⟩
    -- The loop accepts what is left of the comma, and the string is no list.
    have hok := (parseFields_none_error_iff List.nodup_nil).2 ⟨hdist, rfl⟩
    rw [hres] at hok
    obtain ⟨out', hlist⟩ := hiff.1 (by cases hok; rfl)
    exact ((deviceList_iff hs out').1 hlist).1.unfinished_ne_nil hend
  · rintro ⟨hthrow, htrail⟩
    cases hres : parseFields (fields (strip spec)) [] with
    | none => exact absurd hres hthrow
    | some r =>
      obtain ⟨out, error⟩ := r
      have hgood : error = none → DeviceList spec out := by
        rintro rfl
        obtain ⟨hdist, rfl⟩ := (parseFields_none_error_iff List.nodup_nil).1 hres
        have hend : Segments.unfinished 44 (strip spec) ≠ [] :=
          fun hend => htrail ⟨hend, fields_ne_nil hs, hdist⟩
        rw [fields_of_unfinished hend] at hdist ⊢
        exact (deviceList_iff hs _).2 ⟨hdist, rfl⟩
      refine ⟨out, error, hparse.trans hres, ⟨fun he => ⟨out, hgood he⟩, ?_⟩, hgood, ?_⟩
      · rintro ⟨out', hlist⟩
        obtain ⟨hdist, -⟩ := (deviceList_iff hs out').1 hlist
        rw [fields_of_unfinished hdist.unfinished_ne_nil,
          (parseFields_none_error_iff List.nodup_nil).2 ⟨hdist, rfl⟩] at hres
        cases hres
        rfl
      · rintro e rfl
        exact parseFields_error hres

/-- **A list with a comma behind it is accepted.** -/
theorem trailing_accepted : ¬ ParsesDevices (text "0,1,") := by
  rintro ⟨out, error, hres, hiff, -⟩
  have hok : parseDeviceSpec (text "0,1,") = some ([0, 1], none) := by decide +kernel
  rw [hok] at hres
  cases hres
  obtain ⟨out', hlist⟩ := hiff.1 rfl
  have hs : strip (text "0,1,") ≠ [] := by decide +kernel
  have hnum := (((deviceList_iff hs out').1 hlist).1.1 [] (by decide +kernel)).1
  exact hnum.1 rfl

/-- And a large numeral makes the function throw. -/
example : parseDeviceSpec (text "0, 4294967296") = none := by decide +kernel

end Host
