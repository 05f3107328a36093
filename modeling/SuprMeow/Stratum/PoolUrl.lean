import SuprMeow.Library.Decimal
import SuprMeow.Library.Segments
import SuprMeow.Poi.Hex

/-!
# Pool addresses

`PoolUrl::parse` strips a scheme, cuts at the first slash, splits at the last colon, checks the
digits of the port and converts it.  The conversion throws on digits that do not fit an `int`.

* `scheme_eq_ok_iff` — the schemes it takes;
* `parse_address` — what it does behind the scheme;
* `poolUrl_parse_iff` — it parses its grammar exactly when the port fits an `int`.
-/

set_option autoImplicit false

namespace Stratum

/-! ## `PoolUrl::parse` -/

structure PoolUrl where
  host : Bytes := []
  port : Int := 0
  tls : Bool := false
  raw : Bytes := []
  deriving DecidableEq

/-- How a call returns: what it left in `out`, and the error it set, when it returns false. -/
structure Parsed where
  out : PoolUrl
  error : Option Bytes
  deriving DecidableEq

namespace PoolUrl

/-- `rest` behind its scheme, and `tls`; or the error. -/
def scheme (url : Bytes) : Except Bytes (Bytes × Bool) :=
  if text "ws://" <+: url ∨ text "wss://" <+: url then
    .error (text ("ws:// and wss:// are the upstream broker protocol, not TSC Stratum.\n" ++
      "       Use stratum+tcp://host:port (or stratum+ssl://host:port)."))
  else if text "stratum+tcp://" <+: url then .ok (url.drop 14, false)
  else if text "stratum+ssl://" <+: url then .ok (url.drop 14, true)
  else if text "stratum+tls://" <+: url then .ok (url.drop 14, true)
  else if text "://" <:+: url then
    .error (text "unsupported URL scheme in '" ++ url ++ text "'")
  else .ok (url, false)

/-- `none` when it throws. -/
def parse (url : Bytes) (out : PoolUrl) : Option Parsed :=
  let out := { out with raw := url, tls := false }
  match scheme url with
  | .error error => some ⟨out, some error⟩
  | .ok (rest, tls) =>
    let out := { out with tls }
    -- strip any trailing path
    let rest := rest.takeWhile (· ≠ 47)
    match Segments.splitLast 58 rest with
    | none => some ⟨out, some (text "missing port in '" ++ url ++ text "'")⟩
    | some (host, ps) =>
      let out := { out with host }
      if host = [] ∨ ps = [] then
        some ⟨out, some (text "malformed pool address '" ++ url ++ text "'")⟩
      else if ps.all Decimal.isDigit = false then
        some ⟨out, some (text "port is not a number in '" ++ url ++ text "'")⟩
      else
        match Decimal.stoi ps with
        | none => none
        | some port =>
          let out := { out with port }
          if port ≤ 0 ∨ 65535 < port then
            some ⟨out, some (text "port out of range in '" ++ url ++ text "'")⟩
          else some ⟨out, none⟩

end PoolUrl

/-! ## Specification -/

/-- The schemes, and whether they ask for TLS. -/
def schemes : List (Bytes × Bool) :=
  [(text "stratum+tcp://", false), (text "stratum+ssl://", true), (text "stratum+tls://", true)]

/-- An optional scheme before `rest`, and no other. -/
inductive Stripped (url : Bytes) : Bytes → Bool → Prop where
  | scheme {p rest : Bytes} {tls : Bool} (known : (p, tls) ∈ schemes) (eq : url = p ++ rest) :
    Stripped url rest tls
  | bare (no : ¬ text "://" <:+: url) : Stripped url url false

/-- `host:port` before the first slash, split at the last colon there. -/
structure Address (rest host ps : Bytes) : Prop where
  split : ∃ path, rest = host ++ 58 :: ps ++ path ∧ (path = [] ∨ ∃ p, path = 47 :: p)
  noSlash : 47 ∉ host
  host : host ≠ []
  port : Decimal.IsNumeral ps

/-- The parts of a pool address whose port is any numeral. -/
def Parts (url host ps : Bytes) (tls : Bool) : Prop :=
  ∃ rest, Stripped url rest tls ∧ Address rest host ps

/-- The grammar. -/
def PoolAddress (url host : Bytes) (port : Nat) (tls : Bool) : Prop :=
  ∃ ps, Parts url host ps tls ∧ port = Decimal.number ps ∧ 1 ≤ port ∧ port ≤ 65535

/-- **`parse` returns; without an error exactly on the grammar, and with its parts.** -/
def ParsesGrammar (url : Bytes) : Prop :=
  ∀ out : PoolUrl, ∃ r, PoolUrl.parse url out = some r ∧
    (r.error = none ↔ ∃ host port tls, PoolAddress url host port tls) ∧
    (r.error = none → PoolAddress url r.out.host r.out.port.toNat r.out.tls ∧ 0 ≤ r.out.port ∧
      r.out.raw = url) ∧
    ∀ e, r.error = some e → e ≠ []

/-! ## The scheme -/

theorem known_scheme {p : Bytes} {tls : Bool} (h : (p, tls) ∈ schemes) :
    p.length = 14 ∧ text "://" <:+: p ∧ ∀ rest : Bytes,
      ¬ text "ws://" <+: p ++ rest ∧ ¬ text "wss://" <+: p ++ rest := by
  have hws : text "ws://" = [119, 115, 58, 47, 47] := by decide
  have hwss : text "wss://" = [119, 115, 115, 58, 47, 47] := by decide
  have hhead : p.head? = some 115 ∧ p.length = 14 ∧ text "://" <:+: p := by
    simp only [schemes, List.mem_cons, Prod.mk.injEq, List.not_mem_nil, or_false] at h
    obtain ⟨rfl, -⟩ | ⟨rfl, -⟩ | ⟨rfl, -⟩ := h
    all_goals decide
  refine ⟨hhead.2.1, hhead.2.2, fun rest => ?_⟩
  obtain ⟨c, p, rfl⟩ : ∃ c q, p = c :: q := by
    cases p with
    | nil => cases hhead.1
    | cons c q => exact ⟨c, q, rfl⟩
  cases hhead.1
  rw [hws, hwss, List.cons_append, List.cons_prefix_cons, List.cons_prefix_cons]
  exact ⟨fun h => absurd h.1 (by decide), fun h => absurd h.1 (by decide)⟩

/-- No two known schemes begin alike. -/
theorem known_prefix {p : Bytes} {tls : Bool} (h : (p, tls) ∈ schemes) (rest : Bytes) :
    ∀ q ∈ schemes, q.1 <+: p ++ rest ↔ q = (p, tls) := by
  have hlen : ∀ q ∈ schemes, q.1.length = 14 := fun q hq => (known_scheme (p := q.1) hq).1
  have huniq : ∀ q ∈ schemes, ∀ r ∈ schemes, q.1 = r.1 → q = r := by decide
  intro q hq
  constructor
  · intro hpre
    have htake := List.prefix_iff_eq_take.1 hpre
    rw [hlen q hq, ← hlen _ h, List.take_left] at htake
    exact huniq q hq _ h htake
  · rintro rfl
    exact List.prefix_append p rest

/-- **The schemes `parse` takes.** -/
theorem scheme_eq_ok_iff (url rest : Bytes) (tls : Bool) :
    PoolUrl.scheme url = .ok (rest, tls) ↔ Stripped url rest tls := by
  constructor
  · intro h
    have hdrop : ∀ {p : Bytes} {tls : Bool}, (p, tls) ∈ schemes → p <+: url →
        Stripped url (url.drop 14) tls := by
      intro p tls hp hpre
      obtain ⟨rest, rfl⟩ := hpre
      rw [← (known_scheme hp).1, List.drop_left]
      exact .scheme hp rfl
    unfold PoolUrl.scheme at h
    split at h
    · cases h
    split at h
    · rename_i hpre
      cases h
      exact hdrop (by simp [schemes]) hpre
    split at h
    · rename_i hpre
      cases h
      exact hdrop (by simp [schemes]) hpre
    split at h
    · rename_i hpre
      cases h
      exact hdrop (by simp [schemes]) hpre
    split at h
    · cases h
    · rename_i hno
      cases h
      exact .bare hno
  · intro h
    unfold PoolUrl.scheme
    cases h with
    | @scheme p rest tls known eq =>
      subst eq
      have hpre := known_prefix known rest
      rw [if_neg (by rw [not_or]; exact (known_scheme known).2.2 rest)]
      have htcp := hpre (text "stratum+tcp://", false) (by simp [schemes])
      have hssl := hpre (text "stratum+ssl://", true) (by simp [schemes])
      have htls := hpre (text "stratum+tls://", true) (by simp [schemes])
      have hrest : (p ++ rest).drop 14 = rest := by rw [← (known_scheme known).1, List.drop_left]
      simp only [schemes, List.mem_cons, List.not_mem_nil, or_false] at known
      simp only [htcp, hssl, htls, hrest]
      obtain hk | hk | hk := known
      · cases hk
        exact if_pos rfl
      · cases hk
        rw [if_neg (by decide), if_pos rfl]
      · cases hk
        rw [if_neg (by decide), if_neg (by decide), if_pos rfl]
    | bare no =>
      have hno : ∀ p : Bytes, text "://" <:+: p → ¬ p <+: url :=
        fun p hp hpre => no (hp.trans hpre.isInfix)
      rw [if_neg, if_neg, if_neg, if_neg, if_neg no]
      · exact hno _ (by decide)
      · exact hno _ (by decide)
      · exact hno _ (by decide)
      · rw [not_or]
        exact ⟨hno _ (by decide), hno _ (by decide)⟩

/-! ## The address -/

/-- What the code splits off is the address, digits of the port included. -/
theorem address_iff (rest host ps : Bytes) : Address rest host ps ↔
    Segments.splitLast 58 (rest.takeWhile (· ≠ 47)) = some (host, ps) ∧ host ≠ [] ∧ ps ≠ [] ∧
      ∀ c ∈ ps, Decimal.isDigit c = true := by
  constructor
  · rintro ⟨⟨path, rfl, hpath⟩, hslash, hhost, hps, hdigits⟩
    have hcolon : 58 ∉ ps := fun h => Decimal.isDigit_ne (hdigits _ h) rfl rfl
    have hall : ∀ c ∈ host ++ 58 :: ps, decide (c ≠ (47 : UInt8)) = true := by
      intro c hc
      rw [decide_eq_true_iff]
      rintro rfl
      rcases List.mem_append.1 hc with hc | hc
      · exact hslash hc
      · rcases List.mem_cons.1 hc with hc | hc
        · cases hc
        · exact Decimal.isDigit_ne (hdigits _ hc) rfl rfl
    have htake : path.takeWhile (· ≠ (47 : UInt8)) = [] := by
      rcases hpath with rfl | ⟨p, rfl⟩
      · rfl
      · exact List.takeWhile_cons_of_neg (by decide)
    rw [List.takeWhile_append_of_pos hall, htake, List.append_nil, Segments.splitLast_append hcolon]
    exact ⟨rfl, hhost, hps, hdigits⟩
  · rintro ⟨hsplit, hhost, hps, hdigits⟩
    have heq := (Segments.splitLast_eq_some_iff.1 hsplit).1
    refine ⟨⟨rest.dropWhile (· ≠ 47), ?_, ?_⟩, ?_, hhost, hps, hdigits⟩
    · rw [← heq, List.takeWhile_append_dropWhile]
    · cases hdrop : rest.dropWhile (· ≠ (47 : UInt8)) with
      | nil => exact .inl rfl
      | cons c p =>
        have hc := List.head?_dropWhile_not (fun b : UInt8 => decide (b ≠ 47)) rest
        rw [hdrop] at hc
        refine .inr ⟨p, ?_⟩
        have : c = 47 := by simpa using hc
        rw [this]
    · intro hmem
      have hin : 47 ∈ rest.takeWhile (· ≠ (47 : UInt8)) := by
        rw [heq]
        exact List.mem_append_left _ hmem
      have := List.mem_takeWhile_imp hin
      simp at this

/-- What `parse` does with an address. -/
theorem parse_parts {url host ps : Bytes} {tls : Bool} (h : Parts url host ps tls)
    (out : PoolUrl) : PoolUrl.parse url out =
      if 2 ^ 31 ≤ Decimal.number ps then none
      else
        let out : PoolUrl := { host, port := Decimal.number ps, tls, raw := url }
        if 1 ≤ Decimal.number ps ∧ Decimal.number ps ≤ 65535 then some ⟨out, none⟩
        else some ⟨out, some (text "port out of range in '" ++ url ++ text "'")⟩ := by
  obtain ⟨rest, hstrip, haddr⟩ := h
  obtain ⟨hsplit, hhost, hps, hdigits⟩ := (address_iff rest host ps).1 haddr
  unfold PoolUrl.parse
  rw [(scheme_eq_ok_iff url rest tls).2 hstrip]
  dsimp only
  rw [hsplit]
  dsimp only
  rw [if_neg (by simp [hhost, hps]), if_neg (by simpa using hdigits),
    Decimal.stoi_numeral haddr.port]
  by_cases hbig : 2 ^ 31 ≤ Decimal.number ps
  · rw [if_pos hbig, if_neg (by omega)]
  · rw [if_neg hbig, if_pos (by omega)]
    dsimp only
    by_cases hrange : 1 ≤ Decimal.number ps ∧ Decimal.number ps ≤ 65535
    · rw [if_pos hrange, if_neg (by omega)]
    · rw [if_neg hrange, if_pos (by omega)]

/-- A string has one decomposition. -/
theorem Parts.unique {url host host' ps ps' : Bytes} {tls tls' : Bool}
    (h : Parts url host ps tls) (h' : Parts url host' ps' tls') :
    host = host' ∧ ps = ps' ∧ tls = tls' := by
  obtain ⟨rest, hstrip, haddr⟩ := h
  obtain ⟨rest', hstrip', haddr'⟩ := h'
  have hs := ((scheme_eq_ok_iff url rest tls).2 hstrip).symm.trans
    ((scheme_eq_ok_iff url rest' tls').2 hstrip')
  cases hs
  have ha := ((address_iff rest host ps).1 haddr).1.symm.trans
    ((address_iff rest host' ps').1 haddr').1
  cases ha
  exact ⟨rfl, rfl, rfl⟩

theorem scheme_error {url e : Bytes} (h : PoolUrl.scheme url = .error e) : e ≠ [] := by
  unfold PoolUrl.scheme at h
  split at h
  · rw [← Except.error.inj h]
    decide +kernel
  split at h
  · cases h
  split at h
  · cases h
  split at h
  · cases h
  split at h
  · cases h
    exact List.append_ne_nil_of_left_ne_nil (List.append_ne_nil_of_left_ne_nil (by decide) _) _
  · cases h

/-- Without a decomposition `parse` returns with an error. -/
theorem parse_of_not_parts {url : Bytes} (h : ∀ host ps tls, ¬ Parts url host ps tls)
    (out : PoolUrl) : ∃ out' e, PoolUrl.parse url out = some ⟨out', some e⟩ ∧ e ≠ [] := by
  have hmsg : ∀ m : Bytes, m ≠ [] → m ++ url ++ text "'" ≠ [] := fun m hm =>
    List.append_ne_nil_of_left_ne_nil (List.append_ne_nil_of_left_ne_nil hm _) _
  unfold PoolUrl.parse
  split
  · rename_i e hscheme
    exact ⟨_, e, rfl, scheme_error hscheme⟩
  · rename_i rest tls hscheme
    have hstrip := (scheme_eq_ok_iff url rest tls).1 hscheme
    dsimp only
    split
    · exact ⟨_, _, rfl, hmsg _ (by decide)⟩
    · rename_i host ps hsplit
      split
      · exact ⟨_, _, rfl, hmsg _ (by decide)⟩
      rename_i hne
      split
      · exact ⟨_, _, rfl, hmsg _ (by decide)⟩
      · rename_i hdigits
        rw [not_or] at hne
        have hall := not_not.1 (mt Decimal.all_isDigit_eq_false.2 hdigits)
        exact absurd ⟨rest, hstrip, (address_iff rest host ps).2 ⟨hsplit, hne.1, hne.2, hall⟩⟩
          (h host ps tls)

/-! ## Results -/

/-- An address whose port does not fit an `int`. -/
def Oversized (url : Bytes) : Prop :=
  ∃ host ps tls, Parts url host ps tls ∧ 2 ^ 31 ≤ Decimal.number ps

/-- **`parse` returns, and accepts its grammar, exactly where the port fits an `int`.** -/
theorem poolUrl_parse_iff (url : Bytes) : ParsesGrammar url ↔ ¬ Oversized url := by
  constructor
  · rintro h ⟨host, ps, tls, hparts, hbig⟩
    obtain ⟨r, hr, -⟩ := h {}
    rw [parse_parts hparts, if_pos hbig] at hr
    cases hr
  · intro h out
    by_cases hparts : ∃ host ps tls, Parts url host ps tls
    · obtain ⟨host, ps, tls, hparts⟩ := hparts
      have hsmall : ¬ 2 ^ 31 ≤ Decimal.number ps := fun hbig => h ⟨host, ps, tls, hparts, hbig⟩
      rw [parse_parts hparts, if_neg hsmall]
      dsimp only
      by_cases hrange : 1 ≤ Decimal.number ps ∧ Decimal.number ps ≤ 65535
      · have haddr : PoolAddress url host (Decimal.number ps) tls := ⟨ps, hparts, rfl, hrange⟩
        rw [if_pos hrange]
        refine ⟨_, rfl, iff_of_true rfl ⟨host, _, tls, haddr⟩, ?_, ?_⟩
        · intro _
          exact ⟨haddr, Int.natCast_nonneg _, rfl⟩
        · intro e he
          cases he
      · rw [if_neg hrange]
        refine ⟨_, rfl, iff_of_false (by simp) ?_, ?_, ?_⟩
        · rintro ⟨host', port, tls', ps', hparts', rfl, hpos, hle⟩
          obtain ⟨-, rfl, -⟩ := hparts.unique hparts'
          exact hrange ⟨hpos, hle⟩
        · intro he
          cases he
        · intro e he
          cases he
          exact List.append_ne_nil_of_left_ne_nil
            (List.append_ne_nil_of_left_ne_nil (by decide) _) _
    · have hno : ∀ host ps tls, ¬ Parts url host ps tls :=
        fun host ps tls hp => hparts ⟨host, ps, tls, hp⟩
      obtain ⟨out', e, hr, he⟩ := parse_of_not_parts hno out
      refine ⟨_, hr, iff_of_false (by simp) ?_, ?_, ?_⟩
      · rintro ⟨host, port, tls, ps, hp, -⟩
        exact hno host ps tls hp
      · intro he'
        cases he'
      · intro e' he'
        cases he'
        exact he

/-- Ten digits. -/
def longPort : Bytes := text "stratum+tcp://pool.example:4294967296"

/-- **A port of ten digits makes `parse` throw.** -/
theorem longPort_throws : ¬ ParsesGrammar longPort := by
  intro h
  obtain ⟨r, hr, -⟩ := h {}
  have : PoolUrl.parse longPort {} = none := by decide +kernel
  rw [this] at hr
  cases hr

end Stratum
