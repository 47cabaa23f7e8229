import Mathlib.Data.List.Basic

/-!
# Strings behind their lengths

Every length below a bound is written in the same number of elements, and can be told
from the others (`LengthCode`). A string written behind its length (`delimit`) ends
where it says it does, whatever it contains and whatever follows: from two strings
followed by two rests the strings and the rests come back (`delimit_append_inj`), and
so do lists of strings written one behind another (`flatMap_delimit_inj`).
-/

namespace Lox

/-- Lengths below `bound`, in `size` elements each. -/
structure LengthCode (α : Type) where
  size : Nat
  bound : Nat
  encode : Nat → List α
  length_encode : ∀ n, (encode n).length = size
  encode_inj : ∀ m n, m < bound → n < bound → encode m = encode n → m = n

namespace LengthCode

variable {α : Type} (code : LengthCode α)

def delimit (x : List α) : List α := code.encode x.length ++ x

theorem delimit_append_inj {x y r s : List α} (hx : x.length < code.bound) (hy : y.length < code.bound)
    (h : code.delimit x ++ r = code.delimit y ++ s) : x = y ∧ r = s := by
  rw [delimit, delimit, List.append_assoc, List.append_assoc] at h
  obtain ⟨hcode, hrest⟩ := List.append_inj h (by rw [code.length_encode, code.length_encode])
  exact List.append_inj hrest (code.encode_inj _ _ hx hy hcode)

theorem flatMap_delimit_inj {xs ys : List (List α)} (hlen : xs.length = ys.length)
    (hxs : ∀ x ∈ xs, x.length < code.bound) (hys : ∀ y ∈ ys, y.length < code.bound)
    (h : xs.flatMap code.delimit = ys.flatMap code.delimit) : xs = ys := by
  induction xs generalizing ys with
  | nil => exact (List.eq_nil_of_length_eq_zero hlen.symm).symm
  | cons x xs ih =>
    cases ys with
    | nil => cases hlen
    | cons y ys =>
      rw [List.forall_mem_cons] at hxs hys
      rw [List.flatMap_cons, List.flatMap_cons] at h
      obtain ⟨hxy, hrest⟩ := code.delimit_append_inj hxs.1 hys.1 h
      rw [hxy, ih (Nat.succ.inj hlen) hxs.2 hys.2 hrest]

end LengthCode

end Lox
