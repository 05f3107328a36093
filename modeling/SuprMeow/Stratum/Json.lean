import SuprMeow.Library.Fallible
import SuprMeow.Stratum.Client

/-!
# JSON values

`nlohmann::json` as `handle_line` uses it.  `get<T>()` on a value of another type and `value()` on
what is no object throw; `contains` and the `is_…` tests do not.

* `getString_eq_ok`, `getU64_eq_ok`, `getInt_eq_ok` — when `get<T>()` returns;
* `value_eq_ok`, `value_returns_iff` — when `value(key, default)` returns.
-/

set_option autoImplicit false

namespace Stratum

/-! ## Values -/

/-- What `json::parse` builds.  Of a float, `whole` is what a cast to an integer leaves and `digits`
is how it is dumped. -/
inductive Json where
  | null
  | boolean (b : Bool)
  | unsigned (n : Nat)
  | integer (z : Int)
  | float (whole : Int) (digits : Bytes)
  | string (s : Bytes)
  | array (elements : List Json)
  | object (members : List (Bytes × Json))

/-- `type_error` 302 and 306. -/
inductive TypeError where
  | wrongType
  | notObject
  deriving DecidableEq

namespace Json

mutual

/-- `json::dump`. -/
def dump : Json → Bytes
  | .null => text "null"
  | .boolean b => if b then text "true" else text "false"
  | .unsigned n => number n
  | .integer z => text (toString z)
  | .float _ digits => digits
  | .string s => quoted s
  | .array l => text "[" ++ dumpElements l ++ text "]"
  | .object l => text "\x7b" ++ dumpMembers l ++ text "\x7d"

def dumpElements : List Json → Bytes
  | [] => []
  | [j] => j.dump
  | j :: l => j.dump ++ text "," ++ dumpElements l

def dumpMembers : List (Bytes × Json) → Bytes
  | [] => []
  | [(k, j)] => quoted k ++ text ":" ++ j.dump
  | (k, j) :: l => quoted k ++ text ":" ++ j.dump ++ text "," ++ dumpMembers l

end

/-! ## Access -/

/-- The member `contains(key)` finds. -/
def member? (key : Bytes) : Json → Option Json
  | .object members => (members.find? (·.1 == key)).map (·.2)
  | _ => none

/-- `contains(key) && !is_null()`. -/
def present? (key : Bytes) (j : Json) : Option Json :=
  match j.member? key with
  | some .null => none
  | v => v

/-- `is_array()`. -/
def elements? : Json → Option (List Json)
  | .array l => some l
  | _ => none

def isObject : Json → Bool
  | .object _ => true
  | _ => false

/-- `is_string()`. -/
def string? : Json → Option Bytes
  | .string s => some s
  | _ => none

/-- `is_boolean()`. -/
def boolean? : Json → Option Bool
  | .boolean b => some b
  | _ => none

/-- `is_number_unsigned()`. -/
def unsigned? : Json → Option Nat
  | .unsigned n => some n
  | _ => none

/-- `is_number()`. -/
def number? : Json → Option Int
  | .unsigned n => some n
  | .integer z => some z
  | .float whole _ => some whole
  | _ => none

/-- `operator[]`, for an index that is in range. -/
def entry (l : List Json) (i : Nat) : Json := l.getD i .null

/-- `get<std::string>()`. -/
def getString (j : Json) : Except TypeError Bytes :=
  match j.string? with
  | some s => .ok s
  | none => .error .wrongType

/-- A `static_cast` to `uint64_t`. -/
def toU64 (z : Int) : Nat := (z % 2 ^ 64).toNat

/-- A `static_cast` to `uint32_t`. -/
def toU32 (z : Int) : Nat := (z % 2 ^ 32).toNat

/-- `get<uint64_t>()`. -/
def getU64 (j : Json) : Except TypeError Nat :=
  match j.number? with
  | some z => .ok (toU64 z)
  | none => .error .wrongType

/-- `get<int>()`; unlike the 64-bit types it takes a boolean. -/
def getInt (j : Json) : Except TypeError Int :=
  match j.number?, j.boolean? with
  | some z, _ => .ok (z.bmod (2 ^ 32))
  | none, some b => .ok b.toNat
  | none, none => .error .wrongType

/-- `value(key, dflt)`. -/
def value {α : Type} (get : Json → Except TypeError α) (key : Bytes) (dflt : α) (j : Json) :
    Except TypeError α :=
  if j.isObject then
    match j.member? key with
    | some v => get v
    | none => .ok dflt
  else .error .notObject

/-! ## When access returns -/

theorem string?_eq_some {j : Json} {s : Bytes} : j.string? = some s ↔ j = .string s := by
  cases j <;> simp [string?]

theorem getString_eq_ok {j : Json} {s : Bytes} : j.getString = .ok s ↔ j = .string s := by
  unfold getString
  rw [← string?_eq_some]
  cases j.string? <;> simp

theorem getU64_eq_ok {j : Json} {n : Nat} :
    j.getU64 = .ok n ↔ ∃ z, j.number? = some z ∧ toU64 z = n := by
  unfold getU64
  cases j.number? <;> simp

theorem getInt_eq_ok {j : Json} {z : Int} :
    j.getInt = .ok z ↔ (∃ y, j.number? = some y ∧ y.bmod (2 ^ 32) = z) ∨
      ∃ b : Bool, j = .boolean b ∧ (b.toNat : Int) = z := by
  cases j <;> simp [getInt, number?, boolean?]

theorem value_eq_ok {α : Type} {get : Json → Except TypeError α} {key : Bytes} {dflt a : α}
    {j : Json} : j.value get key dflt = .ok a ↔ j.isObject = true ∧
      ((j.member? key = none ∧ a = dflt) ∨ ∃ v, j.member? key = some v ∧ get v = .ok a) := by
  unfold value
  cases j.isObject with
  | false => simp
  | true => cases j.member? key <;> simp [eq_comm]

/-- `value(key, default)` returns unless the stored value is of another type. -/
theorem value_returns_iff {α : Type} {get : Json → Except TypeError α} {key : Bytes} {dflt : α}
    {j : Json} : (∃ a, j.value get key dflt = .ok a) ↔
      j.isObject = true ∧ ∀ v, j.member? key = some v → ∃ a, get v = .ok a := by
  simp only [value_eq_ok]
  cases j.member? key <;> simp

end Json

end Stratum
