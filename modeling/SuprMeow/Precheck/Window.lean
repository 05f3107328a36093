import SuprMeow.Stratum.Json

/-!
# Decoded windows

The pre-check reads a finished proof back from its bytes.  What FlatBuffers and `nlohmann::json`
make of them are parameters; anything else than a complete proof v4 window is refused with a
reason, and so is whatever they throw.

* `decode` — the window of a serialized `MiningResponse`, or why there is none.
-/

set_option autoImplicit false

namespace Precheck

open Stratum (Bytes Json)

def kWindow : Nat := 256

def kMaxRow : Nat := 70

/-- What a `catch` sees. -/
inductive Thrown where
  | exception (what : String)
  | unknown
  deriving DecidableEq

/-- A decoded proof v4 window; `F` is the type of a float. -/
structure Window (F : Type) where
  rowLen : List Nat := []
  /-- The rows one after the other, as are `ids`. -/
  logits : List F := []
  ids : List Nat := []
  chosen : List Nat := []
  chosenProbs : List F := []
  prompt : List Nat := []
  pad : List Nat := []
  hashHex : String := ""
  isSolution : Bool := false
  /-- The height of the candidate; 0 if it is not known. -/
  height : Nat := 0

/-- The fields of a `Proof` table; a missing one is `none`, also inside the rows. -/
structure ProofTable (F : Type) where
  hash : Option (List Nat) := none
  isSolution : Bool := false
  version : Nat := 0
  extraFlags : Option Bytes := none
  chosenTokens : Option (List Nat) := none
  chosenProbs : Option (List F) := none
  topkLogits : Option (List (Option (List F))) := none
  topkIndices : Option (List (Option (List Nat))) := none
  promptTokens : Option (List Nat) := none
  padMask : Option (List Bool) := none

/-- The libraries behind `decode`. -/
structure Reader (F : Type) where
  /-- The `MiningResponse` of a buffer that verifies, with its `pow_blob`. -/
  root : List Nat → Except Thrown (Option (Option (ProofTable F)))
  /-- `json::parse` without exceptions. -/
  parse : Bytes → Except Thrown (Option Json)

/-- Why there is no window, with what is known of the proof. -/
structure Refusal where
  why : Thrown ⊕ String
  hashHex : String := ""
  isSolution : Bool := false

def Refusal.text (r : Refusal) : String :=
  match r.why with
  | .inl (.exception what) => "decode error: " ++ what
  | .inl .unknown => "decode error"
  | .inr why => why

def hexDigit (n : Nat) : Char := "0123456789abcdef".toList.getD n '0'

def hex (bytes : List Nat) : String :=
  String.ofList (bytes.flatMap fun b => [hexDigit (b / 16), hexDigit (b % 16)])

/-- The v4 carrier: `"v4":1` in an object. -/
def isV4 (j : Json) : Bool :=
  match j.member? (Stratum.text "v4") with
  | some (.unsigned n) => n == 1
  | some (.integer z) => z == 1
  | _ => false

/-- The rows from `s` on: their lengths, logits and ids, unless one has another shape. -/
def readRows {F : Type} : Nat → List (Option (List F)) → List (Option (List Nat)) →
    Except String (List Nat × List F × List Nat)
  | s, lr :: ls, ir :: is =>
    match lr, ir with
    | some lv, some iv =>
      if lv.length ≠ iv.length ∨ lv.length = 0 ∨ kMaxRow < lv.length then
        .error ("row " ++ toString s ++ " has an unexpected shape")
      else do
        let (lens, logits, ids) ← readRows (s + 1) ls is
        return (lv.length :: lens, lv ++ logits, iv ++ ids)
    | _, _ => .error ("row " ++ toString s ++ " has an unexpected shape")
  | _, _, _ => .ok ([], [], [])

/-- `decode`. -/
def decode {F : Type} (R : Reader F) (data : List Nat) : Except Refusal (Window F) :=
  if data = [] then .error { why := .inr "empty proof" }
  else do
    match ← (R.root data).mapError fun e => { why := .inl e } with
    | none => .error { why := .inr "MiningResponse does not verify" }
    | some none => .error { why := .inr "no pow_blob" }
    | some (some pf) =>
      let hashHex := (pf.hash.map hex).getD ""
      let refuse (why : Thrown ⊕ String) : Refusal := { why, hashHex, isSolution := pf.isSolution }
      if pf.version ≠ 4 then
        .error (refuse (.inr ("proof version " ++ toString pf.version ++ " is not 4")))
      else do
        let v4 ← match pf.extraFlags with
          | none => .ok false
          | some flags => do
            let j ← (R.parse flags).mapError fun e => refuse (.inl e)
            .ok ((j.map isV4).getD false)
        if v4 = false then .error (refuse (.inr "no proof v4 carrier in extra_flags"))
        else
          match pf.chosenTokens with
          | none => .error (refuse (.inr "chosen_tokens is not 256 entries"))
          | some chosen =>
            if chosen.length ≠ kWindow then
              .error (refuse (.inr "chosen_tokens is not 256 entries"))
            else
              match pf.topkLogits, pf.topkIndices with
              | some tl, some ti =>
                if tl.length ≠ kWindow ∨ ti.length ≠ kWindow then
                  .error (refuse (.inr "top-k rows are not 256"))
                else do
                  let (rowLen, logits, ids) ← (readRows 0 tl ti).mapError
                    fun why => refuse (.inr why)
                  return {
                    rowLen, logits, ids, chosen, hashHex
                    chosenProbs := pf.chosenProbs.getD []
                    prompt := pf.promptTokens.getD []
                    pad := (pf.padMask.getD []).map Bool.toNat
                    isSolution := pf.isSolution }
              | _, _ => .error (refuse (.inr "top-k rows are not 256"))

end Precheck
