import Mathlib.Data.List.Basic

/-!
# Attempts within a budget

Attempts are made in turn, each good or not (`true` or `false`). A good attempt
clears what has been spent, and after each one another may be made only while
less than the bound is spent. `Spends` is such a history, and whether it ended
because the bound was reached.

After the first attempt and after each good one, at most `bound` others are made
up to the next good one (`Spends.length_le_of_cleared`), and a history that ends
at the bound ends with `bound` attempts that are not good (`Spends.exhausted`).
-/

namespace Lox

/-- What is spent after an attempt. -/
def spentAfter (spent : Nat) (good : Bool) : Nat := if good then 0 else spent

inductive Spends (bound : Nat) : Nat → List Bool → Bool → Prop
  | stopped (spent : Nat) : Spends bound spent [] false
  | last {spent : Nat} {good out : Bool} (h : out = true → bound ≤ spentAfter spent good) :
      Spends bound spent [good] out
  | again {spent : Nat} {good out : Bool} {goods : List Bool} (hlt : spentAfter spent good < bound)
      (h : Spends bound (spentAfter spent good + 1) goods out) : Spends bound spent (good :: goods) out

namespace Spends

variable {bound spent : Nat} {goods : List Bool} {out : Bool}

/-- No more attempts than are left are made up to the next good one. -/
theorem length_le (h : Spends bound spent goods out) (hs : spent ≤ bound) {seg post : List Bool}
    (hseg : goods = seg ++ post) (hbad : ∀ g ∈ seg.dropLast, g = false) : spent + seg.length ≤ bound + 1 := by
  induction h generalizing seg with
  | stopped spent =>
    obtain ⟨rfl, -⟩ := List.append_eq_nil_iff.mp hseg.symm
    exact Nat.le_succ_of_le hs
  | last h =>
    have hlen : seg.length ≤ 1 := by
      have := congrArg List.length hseg
      simp at this
      omega
    omega
  | @again spent good out goods hlt h ih =>
    cases seg with
    | nil => exact Nat.le_succ_of_le hs
    | cons g seg =>
      obtain ⟨rfl, hrest⟩ := List.cons.inj hseg
      cases seg with
      | nil => exact Nat.succ_le_succ hs
      | cons g' seg =>
        rw [List.dropLast_cons_cons, List.forall_mem_cons] at hbad
        rw [hbad.1] at hlt ih
        have := ih hlt hrest hbad.2
        simp only [spentAfter, List.length_cons] at this ⊢
        simp at this
        omega

/-- After an attempt that leaves nothing spent. -/
theorem length_le_of_cleared (h : Spends bound spent goods out) {pre seg post : List Bool} {g : Bool}
    (hsplit : goods = pre ++ g :: (seg ++ post)) (hg : g = true ∨ pre = [] ∧ spent = 0)
    (hbad : ∀ g ∈ seg.dropLast, g = false) : seg.length ≤ bound := by
  induction h generalizing pre with
  | stopped spent => simp at hsplit
  | last h =>
    have := congrArg List.length hsplit
    simp at this
    omega
  | @again spent good out goods hlt h ih =>
    cases pre with
    | nil =>
      obtain ⟨rfl, hrest⟩ := List.cons.inj hsplit
      have hzero : spentAfter spent good = 0 := by
        rcases hg with rfl | ⟨-, rfl⟩
        · rfl
        · cases good <;> rfl
      have := h.length_le hlt hrest hbad
      omega
    | cons g' pre =>
      obtain ⟨rfl, hrest⟩ := List.cons.inj hsplit
      exact ih hrest (hg.imp_right fun h => by cases h.1)

/-- The attempts before the bound is reached: all of them, or those after the
last good one. -/
theorem exhausted_cases (h : Spends bound spent goods out) (hout : out = true) (hbound : 0 < bound)
    (hs : spent ≤ bound) :
    (spent + goods.length = bound + 1 ∧ ∀ g ∈ goods, g = false) ∨
      ∃ pre seg, goods = pre ++ true :: seg ∧ seg.length = bound ∧ ∀ g ∈ seg, g = false := by
  induction h with
  | stopped spent => cases hout
  | @last spent good out h =>
    have hle := h hout
    cases good with
    | true => exact absurd hle (Nat.not_le_of_lt hbound)
    | false =>
      have hle : bound ≤ spent := hle
      exact .inl ⟨by simp; omega, by simp⟩
  | @again spent good out goods hlt h ih =>
    rcases ih hout hlt with ⟨hlen, hbad⟩ | ⟨pre, seg, rfl, hlen, hbad⟩
    · cases good with
      | true =>
        have hlen : 0 + 1 + goods.length = bound + 1 := hlen
        exact .inr ⟨[], goods, rfl, by omega, hbad⟩
      | false =>
        have hlen : spent + 1 + goods.length = bound + 1 := hlen
        exact .inl ⟨by simp; omega, List.forall_mem_cons.mpr ⟨rfl, hbad⟩⟩
    · exact .inr ⟨good :: pre, seg, rfl, hlen, hbad⟩

/-- The last `bound` attempts were not good, and come after the first one or a
good one. -/
theorem exhausted (h : Spends bound 0 goods true) (hbound : 0 < bound) :
    ∃ pre g seg, goods = pre ++ g :: seg ∧ (pre = [] ∨ g = true) ∧ seg.length = bound ∧ ∀ g ∈ seg, g = false := by
  rcases h.exhausted_cases rfl hbound (Nat.zero_le _) with ⟨hlen, hbad⟩ | ⟨pre, seg, rfl, hlen, hbad⟩
  · cases goods with
    | nil => simp at hlen
    | cons g seg =>
      refine ⟨[], g, seg, rfl, .inl rfl, ?_, fun g' hg => hbad g' (List.mem_cons_of_mem _ hg)⟩
      simpa using hlen
  · exact ⟨pre, true, seg, rfl, .inr rfl, hlen, hbad⟩

end Spends

end Lox
