import Mathlib.Algebra.Order.Ring.Int
import Mathlib.Data.Rat.Defs

/-!
# Python values

What `json.loads` returns, and the operations the bridge applies to it.  Which exception an
operation raises is part of its result.
-/

set_option autoImplicit false

namespace Vllm

/-- A `str` by its code points; JSON escapes put lone surrogates in. -/
abbrev Str := List Nat

/-- An ASCII literal. -/
def str (s : String) : Str := s.toList.map Char.toNat

/-- A `float`. -/
inductive PyFloat where
  | finite (q : Rat)
  | infinite (negative : Bool)
  | nan

/-- What `json.loads` returns. -/
inductive Value where
  | none
  | bool (b : Bool)
  | int (z : Int)
  | float (x : PyFloat)
  | str (s : Str)
  | list (l : List Value)
  | dict (members : List (Str × Value))

/-- The exceptions. -/
inductive Raised where
  | attributeError
  | typeError
  | keyError
  | indexError
  | valueError
  | overflowError
  | unicodeEncodeError
  deriving DecidableEq

namespace Value

/-- `bool(v)`. -/
def truthy : Value → Bool
  | .none => false
  | .bool b => b
  | .int z => z != 0
  | .float (.finite q) => q != 0
  | .float _ => true
  | .str s => s != []
  | .list l => !l.isEmpty
  | .dict members => !members.isEmpty

/-- `len(v)`. -/
def len : Value → Except Raised Nat
  | .str s => .ok s.length
  | .list l => .ok l.length
  | .dict members => .ok members.length
  | _ => .error .typeError

/-- `v[i]`.  The keys of a `dict` are strings. -/
def item (i : Nat) : Value → Except Raised Value
  | .str s =>
    match s[i]? with
    | some c => .ok (.str [c])
    | .none => .error .indexError
  | .list l =>
    match l[i]? with
    | some v => .ok v
    | .none => .error .indexError
  | .dict _ => .error .keyError
  | _ => .error .typeError

/-- `v[fro:upTo]`.  A slice is hashable since Python 3.12. -/
def slice (fro upTo : Nat) : Value → Except Raised Value
  | .str s => .ok (.str ((s.take upTo).drop fro))
  | .list l => .ok (.list ((l.take upTo).drop fro))
  | .dict _ => .error .keyError
  | _ => .error .typeError

/-- `int(v)` of an `int`, a `bool` among them, or a `float`; `none` of what is neither. -/
def toInt : Value → Except Raised (Option Int)
  | .bool b => .ok (some b.toNat)
  | .int z => .ok (some z)
  | .float (.finite q) => .ok (some (q.num.tdiv q.den))
  | .float (.infinite _) => .error .overflowError
  | .float .nan => .error .valueError
  | _ => .ok .none

/-- The text of a nonempty `str`. -/
def text? : Value → Option Str
  | .str s => if s = [] then .none else some s
  | _ => .none

/-- Whether `print` can encode it; `repr`, as of what a `list` holds, escapes surrogates. -/
def printable : Value → Bool
  | .str s => s.all fun c => !(0xD800 ≤ c && c ≤ 0xDFFF)
  | _ => true

end Value

end Vllm
