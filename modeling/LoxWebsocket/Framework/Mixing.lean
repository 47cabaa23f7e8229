import Mathlib.Algebra.Ring.Nat
import Mathlib.Data.List.Basic

/-!
# Mixing steps

A step mixes (`Mixes`) if two states that differ still differ after it has taken in
the same item, and one state that takes in two items that differ gives two states.
Two runs of it that differ in one item end in different states, whatever comes
after that item (`Mixes.foldl_ne`).

On words of 64 bits, a rotation and the multiplication by a word that has an inverse
are such steps of a state (`rotate_injective`, `mul_injective`).
-/

namespace Lox

variable {σ α : Type}

/-- Neither the state nor the item is lost. -/
structure Mixes (f : σ → α → σ) : Prop where
  state : ∀ a, Function.Injective fun s => f s a
  item : ∀ s, Function.Injective (f s)

namespace Mixes

variable {f : σ → α → σ}

theorem foldl_injective (hf : Mixes f) (l : List α) : Function.Injective fun s => l.foldl f s := by
  induction l with
  | nil => exact Function.injective_id
  | cons a l ih => exact fun s t h => hf.state a (ih h)

theorem foldl_ne (hf : Mixes f) {l m : List α} {k : Nat} (hlen : l.length = m.length)
    (hsame : ∀ i, i ≠ k → l[i]? = m[i]?) (hne : l ≠ m) (s : σ) : l.foldl f s ≠ m.foldl f s := by
  induction l generalizing m k s with
  | nil => exact absurd (List.eq_nil_of_length_eq_zero hlen.symm).symm hne
  | cons a l ih =>
    cases m with
    | nil => cases hlen
    | cons b m =>
      cases k with
      | zero =>
        -- The first items differ, and the rest is the same.
        have hrest : l = m := List.ext_getElem? fun i => hsame (i + 1) (Nat.succ_ne_zero i)
        subst hrest
        intro h
        have hab := hf.item s (hf.foldl_injective l h)
        exact hne (by rw [hab])
      | succ k =>
        have hab : a = b := Option.some.inj (hsame 0 (Nat.succ_ne_zero k).symm)
        subst hab
        exact ih (k := k) (Nat.succ.inj hlen) (fun i hi => hsame (i + 1) (by omega)) (fun h => hne (by rw [h])) _

end Mixes

/-! ## Words -/

theorem high_lt (x : UInt64) {n : Nat} (hn : n ≤ 64) : x.toNat / 2 ^ (64 - n) < 2 ^ n := by
  rw [Nat.div_lt_iff_lt_mul (Nat.two_pow_pos _), ← Nat.pow_add, show n + (64 - n) = 64 by omega]
  exact x.toNat_lt

theorem toNat_rotate (x : UInt64) {n : UInt64} (hpos : 0 < n.toNat) (hlt : n.toNat < 64) :
    ((x <<< n) ||| (x >>> (64 - n))).toNat =
      2 ^ n.toNat * (x.toNat % 2 ^ (64 - n.toNat)) + x.toNat / 2 ^ (64 - n.toNat) := by
  have hsub : (64 - n).toNat = 64 - n.toNat := UInt64.toNat_sub_of_le _ _ (UInt64.le_iff_toNat_le.mpr (by
    change n.toNat ≤ 64
    omega))
  have hpow : 2 ^ 64 = 2 ^ n.toNat * 2 ^ (64 - n.toNat) := by rw [← Nat.pow_add]; congr 1; omega
  rw [UInt64.toNat_or, UInt64.toNat_shiftLeft, UInt64.toNat_shiftRight, hsub, Nat.mod_eq_of_lt hlt,
    Nat.mod_eq_of_lt (show 64 - n.toNat < 64 by omega), Nat.shiftLeft_eq, Nat.shiftRight_eq_div_pow, hpow,
    Nat.mul_comm x.toNat, Nat.mul_mod_mul_left, Nat.two_pow_add_eq_or_of_lt (high_lt x (Nat.le_of_lt hlt))]

theorem rotate_injective {n : UInt64} (hpos : 0 < n.toNat) (hlt : n.toNat < 64) :
    Function.Injective fun x : UInt64 => (x <<< n) ||| (x >>> (64 - n)) := by
  intro x y h
  have hnat := congrArg UInt64.toNat h
  simp only [toNat_rotate _ hpos hlt] at hnat
  -- The low part of a word is the high part of its rotation, and the other way round.
  have hquot := congrArg (· / 2 ^ n.toNat) hnat
  have hrem := congrArg (· % 2 ^ n.toNat) hnat
  have hhigh {z : UInt64} := high_lt z (Nat.le_of_lt hlt)
  simp only [Nat.mul_add_div (Nat.two_pow_pos _), Nat.div_eq_of_lt hhigh, Nat.add_zero] at hquot
  simp only [Nat.mul_add_mod, Nat.mod_eq_of_lt hhigh] at hrem
  refine UInt64.toNat_inj.mp ?_
  rw [← Nat.div_add_mod x.toNat (2 ^ (64 - n.toNat)), hquot, hrem, Nat.div_add_mod]

theorem mul_injective {c d : UInt64} (h : c * d = 1) : Function.Injective fun x : UInt64 => x * c := by
  intro x y hxy
  have hmul := congrArg (· * d) hxy
  simpa only [UInt64.mul_assoc, h, UInt64.mul_one] using hmul

end Lox
