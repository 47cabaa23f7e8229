import Mathlib.Data.Nat.Digits.Defs

/-!
# Searching the bytes of a word

A word is the number whose digits to the base 256 are its bytes, the lowest first
(`leWord`). One is subtracted from every byte at once, and a byte is flagged in its
high bit if that bit was set by the subtraction (`flag`). Below the first zero byte
nothing is borrowed, so the lowest flag is that of the first zero byte, whatever the
flags above it are (`find?_flag`, for the bytes of two words at a time).
-/

namespace Lox

def leWord (bs : List UInt8) : Nat := Nat.ofDigits 256 (bs.map UInt8.toNat)

theorem leWord_cons (b : UInt8) (bs : List UInt8) : leWord (b :: bs) = 2 ^ 8 * leWord bs + b.toNat := by
  rw [leWord, List.map_cons, Nat.ofDigits_cons, Nat.add_comm]
  rfl

theorem leWord_lt (bs : List UInt8) : leWord bs < 2 ^ (8 * bs.length) := by
  have h := Nat.ofDigits_lt_base_pow_length (show 1 < 256 by decide) (l := bs.map UInt8.toNat) fun x hx => by
    obtain ⟨b, -, rfl⟩ := List.mem_map.mp hx
    exact b.toNat_lt
  rw [List.length_map] at h
  rw [Nat.pow_mul]
  exact h

theorem testBit_leWord_cons (b : UInt8) (bs : List UInt8) (j : Nat) :
    (leWord (b :: bs)).testBit j = if j < 8 then b.toNat.testBit j else (leWord bs).testBit (j - 8) := by
  rw [leWord_cons, Nat.testBit_two_pow_mul_add _ b.toNat_lt]

/-- Words of one length have different bytes only if they are different. -/
theorem leWord_inj {bs cs : List UInt8} (hlen : bs.length = cs.length) (h : leWord bs = leWord cs) : bs = cs := by
  induction bs generalizing cs with
  | nil => exact (List.eq_nil_of_length_eq_zero hlen.symm).symm
  | cons b bs ih =>
    cases cs with
    | nil => cases hlen
    | cons c cs =>
      rw [leWord_cons, leWord_cons] at h
      have hb := b.toNat_lt
      have hc := c.toNat_lt
      rw [ih (Nat.succ.inj hlen) (by omega), UInt8.toNat_inj.mp (show b.toNat = c.toNat by omega)]

/-- The exclusive or with a byte, in every byte. -/
theorem leWord_xor (bs : List UInt8) (a : UInt8) :
    leWord (bs.map (· ^^^ a)) = leWord bs ^^^ leWord (List.replicate bs.length a) := by
  induction bs with
  | nil => simp [leWord]
  | cons b bs ih =>
    refine Nat.eq_of_testBit_eq fun j => ?_
    rw [List.map_cons, List.length_cons, List.replicate_succ, Nat.testBit_xor, testBit_leWord_cons,
      testBit_leWord_cons, testBit_leWord_cons, ih, UInt8.toNat_xor, Nat.testBit_xor, Nat.testBit_xor]
    split_ifs <;> rfl

/-- One subtracted from every byte, within the word. -/
def lessOnes (bs : List UInt8) : Nat :=
  (leWord bs + (2 ^ (8 * bs.length) - leWord (List.replicate bs.length 1))) % 2 ^ (8 * bs.length)

def flag (bs : List UInt8) (j : Nat) : Bool := (lessOnes bs).testBit j && !(leWord bs).testBit j && j % 8 == 7

/-- The lowest byte takes what it needs from the others. -/
theorem lessOnes_cons (b : UInt8) (bs : List UInt8) :
    ∃ high, lessOnes (b :: bs) = 2 ^ 8 * high + (b.toNat + 255) % 256 ∧ (b ≠ 0 → high = lessOnes bs) := by
  have hone : leWord (List.replicate bs.length 1) < 2 ^ (8 * bs.length) := by
    simpa using leWord_lt (List.replicate bs.length 1)
  have hpow : 2 ^ (8 * (b :: bs).length) = 256 * 2 ^ (8 * bs.length) := by
    rw [List.length_cons, Nat.mul_add, Nat.pow_add, Nat.mul_comm]
  have hb := b.toNat_lt
  refine ⟨(leWord (b :: bs) + (2 ^ (8 * (b :: bs).length) - leWord (List.replicate (b :: bs).length 1))) / 256 %
    2 ^ (8 * bs.length), ?_, fun hne => ?_⟩
  · rw [lessOnes, hpow, Nat.mod_mul, List.length_cons, List.replicate_succ, leWord_cons, leWord_cons]
    have h1 : (1 : UInt8).toNat = 1 := rfl
    omega
  · have hpos : b.toNat ≠ 0 := fun h => hne (UInt8.toNat_inj.mp h)
    rw [lessOnes, hpow, List.length_cons, List.replicate_succ, leWord_cons, leWord_cons]
    have h1 : (1 : UInt8).toNat = 1 := rfl
    congr 1
    omega

/-- The flag of the lowest byte. -/
theorem flag_cons_of_lt (b : UInt8) (bs : List UInt8) {j : Nat} (hj : j < 8) :
    flag (b :: bs) j = (decide (b = 0) && j == 7) := by
  obtain ⟨high, hless, -⟩ := lessOnes_cons b bs
  have hb := b.toNat_lt
  rw [flag, hless, testBit_leWord_cons, Nat.testBit_two_pow_mul_add _ (Nat.mod_lt _ (by decide)), if_pos hj, if_pos hj]
  have hzero : b = 0 ↔ b.toNat = 0 := by
    rw [← UInt8.toNat_inj]
    rfl
  by_cases h7 : j = 7
  · subst h7
    rw [Nat.testBit_eq_decide_div_mod_eq, Nat.testBit_eq_decide_div_mod_eq]
    simp only [hzero, ← decide_not, ← Bool.decide_and, beq_self_eq_true, Bool.and_true]
    rw [decide_eq_decide]
    omega
  · have hne : (j % 8 == 7) = false := beq_false_of_ne (by omega)
    rw [hne, beq_false_of_ne h7, Bool.and_false, Bool.and_false]

/-- Above a byte that is not zero, the flags are those of the other bytes. -/
theorem flag_cons_add {b : UInt8} (hb : b ≠ 0) (bs : List UInt8) (j : Nat) : flag (b :: bs) (8 + j) = flag bs j := by
  obtain ⟨high, hless, hhigh⟩ := lessOnes_cons b bs
  rw [flag, hless, hhigh hb, testBit_leWord_cons, Nat.testBit_two_pow_mul_add _ (Nat.mod_lt _ (by decide)),
    if_neg (by omega), if_neg (by omega), Nat.add_sub_cancel_left, Nat.add_mod_left, flag]

theorem find?_eq_of_forall_mem {α : Type} {p q : α → Bool} {l : List α} (h : ∀ x ∈ l, p x = q x) :
    l.find? p = l.find? q := by
  induction l with
  | nil => rfl
  | cons x l ih =>
    rw [List.forall_mem_cons] at h
    rw [List.find?_cons, List.find?_cons, h.1, ih h.2]

/-- The lowest flag of two words is at the first byte that is zero in one of them. -/
theorem find?_flag (f g : UInt8 → UInt8) (bs : List UInt8) :
    (List.range (8 * bs.length)).find? (fun j => flag (bs.map f) j || flag (bs.map g) j) =
      (bs.findIdx? fun b => f b == 0 || g b == 0).map (8 * · + 7) := by
  induction bs with
  | nil => rfl
  | cons b bs ih =>
    have hlow (j : Nat) (hj : j < 8) : (flag ((b :: bs).map f) j || flag ((b :: bs).map g) j) =
        ((f b == 0 || g b == 0) && j == 7) := by
      rw [List.map_cons, List.map_cons, flag_cons_of_lt _ _ hj, flag_cons_of_lt _ _ hj, ← Bool.and_or_distrib_right]
      rfl
    rw [List.length_cons, Nat.mul_add, Nat.mul_one, Nat.add_comm, List.range_add, List.find?_append, List.findIdx?_cons]
    cases hb : (f b == 0 || g b == 0) with
    | true =>
      have hseven : (List.range 8).find? (fun j => flag ((b :: bs).map f) j || flag ((b :: bs).map g) j) = some 7 := by
        rw [find?_eq_of_forall_mem fun j hj => hlow j (List.mem_range.mp hj), hb]
        rfl
      rw [hseven]
      rfl
    | false =>
      have hnone : (List.range 8).find? (fun j => flag ((b :: bs).map f) j || flag ((b :: bs).map g) j) = none := by
        rw [find?_eq_of_forall_mem fun j hj => hlow j (List.mem_range.mp hj), hb]
        rfl
      rw [Bool.or_eq_false_iff, beq_eq_false_iff_ne, beq_eq_false_iff_ne] at hb
      have hhigh (j : Nat) : (flag ((b :: bs).map f) (8 + j) || flag ((b :: bs).map g) (8 + j)) =
          (flag (bs.map f) j || flag (bs.map g) j) := by
        rw [List.map_cons, List.map_cons, flag_cons_add hb.1, flag_cons_add hb.2]
      rw [hnone, Option.none_or, List.find?_map, Function.comp_def]
      simp only [hhigh]
      rw [ih, Option.map_map, if_neg (by decide), Option.map_map]
      refine congrArg (Option.map · _) (funext fun i => ?_)
      change 8 + (8 * i + 7) = 8 * (i + 1) + 7
      omega

end Lox
