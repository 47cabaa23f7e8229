import Mathlib.Algebra.Ring.Int.Defs
import Mathlib.Algebra.Ring.Nat
import LoxWebsocket.Framework.Text

/-!
# JSON values

A parsed document and the accessors used on it. Numbers without a fraction are
integers, the others the 64 bits of a float; an object keeps its fields in
order, and `get` finds the first of a name.
-/

namespace Lox

inductive Json
  | null
  | bool (b : Bool)
  | num (n : Int)
  | float (bits : UInt64)
  | str (s : Str)
  | arr (items : List Json)
  | obj (fields : List (Str × Json))

namespace Json

def get (v : Json) (key : Str) : Option Json :=
  match v with
  | obj fields => (fields.find? fun f => f.1 = key).map Prod.snd
  | _ => none

theorem get_head (key : Str) (v : Json) (fields : List (Str × Json)) : (obj ((key, v) :: fields)).get key = some v := by
  simp [get]

def asStr : Json → Option Str
  | str s => some s
  | _ => none

def asBool : Json → Option Bool
  | bool b => some b
  | _ => none

def isObject : Json → Bool
  | obj _ => true
  | _ => false

def asI64 : Json → Option Int64
  | num n => if -2 ^ 63 ≤ n ∧ n < 2 ^ 63 then some (Int64.ofInt n) else none
  | _ => none

def asU64 : Json → Option UInt64
  | num n => if 0 ≤ n ∧ n < 2 ^ 64 then some (UInt64.ofNat n.toNat) else none
  | _ => none

end Json

/-! ## Decimal numbers -/

def digitValue (c : Char) : Option Nat := if '0' ≤ c ∧ c ≤ '9' then some (c.toNat - 48) else none

/-- A non-empty string of digits as a number. -/
def parseNat (s : Str) : Option Nat :=
  if s = [] then none else s.foldl (fun acc c => do return 10 * (← acc) + (← digitValue c)) (some 0)

/-- A decimal number with an optional sign that fits 64 bits. -/
def parseI64 (s : Str) : Option Int64 := do
  let n ← match s with
    | '-' :: s => (parseNat s).map fun n => -(n : Int)
    | '+' :: s => (parseNat s).map fun n => (n : Int)
    | s => (parseNat s).map fun n => (n : Int)
  if -2 ^ 63 ≤ n ∧ n < 2 ^ 63 then some (Int64.ofInt n) else none

/-- A decimal number that fits 64 bits without a sign. -/
def parseU64 (s : Str) : Option UInt64 := do
  let n ← match s with
    | '+' :: s => parseNat s
    | s => parseNat s
  if n < 2 ^ 64 then some (UInt64.ofNat n) else none

end Lox
