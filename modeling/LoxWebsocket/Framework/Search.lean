import LoxWebsocket.Framework.Offsets

/-!
# Finding and replacing a pattern

`findFront pat l` is what is before the first occurrence of `pat` in `l`, and `find` its
weight. An occurrence behind `u` is stated as `u ++ pat <+: l`, so that those of
different patterns can be compared (`findFront_eq_some_iff`, `findFront_eq_none_iff`).

`replaceAll pat rep l` goes through `l` once, from the left, and does not look at what
it has put in: the first occurrence is replaced and what follows it is gone through in
the same way (`replaceAll_first`). What no single replacement changes, wherever it is
made, is the same before and after (`replaceAll_iff`).
-/

namespace Lox

variable {α : Type} [DecidableEq α]

/-! ## Finding -/

/-- `pat` occurs behind `u`, and not earlier. -/
structure FirstAt (pat u l : List α) : Prop where
  occurs : u ++ pat <+: l
  first : ∀ u', u' ++ pat <+: l → u.length ≤ u'.length

def findFront (pat : List α) : List α → Option (List α)
  | [] => if pat = [] then some [] else none
  | x :: l => if pat <+: x :: l then some [] else (findFront pat l).map (x :: ·)

/-- The offset of the first occurrence. -/
def find (w : α → Nat) (pat l : List α) : Option Nat := (findFront pat l).map (weight w)

omit [DecidableEq α] in
theorem FirstAt.nil {pat l : List α} (h : pat <+: l) : FirstAt pat [] l := ⟨h, fun _ _ => Nat.zero_le _⟩

omit [DecidableEq α] in
/-- The first occurrence is one. -/
theorem FirstAt.unique {pat u u' l : List α} (h : FirstAt pat u l) (h' : FirstAt pat u' l) : u = u' := by
  have hu := (List.prefix_append u pat).trans h.occurs
  have hu' := (List.prefix_append u' pat).trans h'.occurs
  exact (List.prefix_of_prefix_length_le hu hu' (h.first u' h'.occurs)).eq_of_length_le (h'.first u h.occurs)

omit [DecidableEq α] in
theorem FirstAt.cons {pat u l : List α} {x : α} (h : FirstAt pat u l) (hx : ¬ pat <+: x :: l) :
    FirstAt pat (x :: u) (x :: l) := by
  refine ⟨by rw [List.cons_append, List.cons_prefix_cons]; exact ⟨rfl, h.occurs⟩, fun u' hu' => ?_⟩
  cases u' with
  | nil => exact absurd hu' hx
  | cons y u' =>
    rw [List.cons_append, List.cons_prefix_cons] at hu'
    exact Nat.succ_le_succ (h.first u' hu'.2)

/-- Whether the pattern is found, and where. -/
theorem findFront_spec (pat l : List α) :
    match findFront pat l with
    | some u => FirstAt pat u l
    | none => ∀ u, ¬ u ++ pat <+: l := by
  induction l with
  | nil =>
    rw [findFront]
    by_cases hpat : pat = []
    · rw [if_pos hpat]
      exact .nil (hpat ▸ List.prefix_rfl)
    · rw [if_neg hpat]
      intro u hu
      exact hpat (List.append_eq_nil_iff.mp (List.prefix_nil.mp hu)).2
  | cons x l ih =>
    rw [findFront]
    by_cases hx : pat <+: x :: l
    · rw [if_pos hx]
      exact .nil hx
    · rw [if_neg hx]
      cases hl : findFront pat l with
      | some u =>
        rw [hl] at ih
        exact ih.cons hx
      | none =>
        rw [hl] at ih
        intro u hu
        cases u with
        | nil => exact hx hu
        | cons y u =>
          rw [List.cons_append, List.cons_prefix_cons] at hu
          exact ih u hu.2

theorem findFront_eq_some_iff {pat u l : List α} : findFront pat l = some u ↔ FirstAt pat u l := by
  have hspec := findFront_spec pat l
  constructor
  · intro h
    rwa [h] at hspec
  · intro h
    cases hl : findFront pat l with
    | some u' =>
      rw [hl] at hspec
      rw [hspec.unique h]
    | none =>
      rw [hl] at hspec
      exact absurd h.occurs (hspec u)

theorem findFront_eq_none_iff {pat l : List α} : findFront pat l = none ↔ ∀ u, ¬ u ++ pat <+: l := by
  have hspec := findFront_spec pat l
  constructor
  · intro h
    rwa [h] at hspec
  · intro h
    rw [Option.eq_none_iff_forall_ne_some]
    intro u hu
    rw [hu] at hspec
    exact h u hspec.occurs

theorem exists_firstAt {pat u l : List α} (h : u ++ pat <+: l) : ∃ u', FirstAt pat u' l := by
  cases hl : findFront pat l with
  | some u' => exact ⟨u', findFront_eq_some_iff.mp hl⟩
  | none => exact absurd h (findFront_eq_none_iff.mp hl u)

/-! ## Replacing -/

/-- `skip` elements of an occurrence are still to be passed over. -/
def replaceFrom (pat rep : List α) : Nat → List α → List α
  | _, [] => []
  | skip + 1, _ :: l => replaceFrom pat rep skip l
  | 0, x :: l =>
    if pat <+: x :: l then rep ++ replaceFrom pat rep (pat.length - 1) l else x :: replaceFrom pat rep 0 l

def replaceAll (pat rep l : List α) : List α := replaceFrom pat rep 0 l

theorem replaceFrom_drop (pat rep : List α) (skip : Nat) (l : List α) :
    replaceFrom pat rep skip l = replaceAll pat rep (l.drop skip) := by
  induction skip generalizing l with
  | zero => rfl
  | succ skip ih =>
    cases l with
    | nil => rfl
    | cons x l => rw [replaceFrom, ih, List.drop_succ_cons]

theorem replaceAll_of_not_occurs {pat : List α} (rep : List α) {l : List α} (h : ∀ u, ¬ u ++ pat <+: l) :
    replaceAll pat rep l = l := by
  induction l with
  | nil => rfl
  | cons x l ih =>
    have hx : ¬ pat <+: x :: l := h []
    rw [replaceAll, replaceFrom, if_neg hx, ← replaceAll, ih]
    intro u hu
    exact h (x :: u) (by rw [List.cons_append, List.cons_prefix_cons]; exact ⟨rfl, hu⟩)

theorem replaceAll_append {pat : List α} (hpat : pat ≠ []) (rep v : List α) :
    replaceAll pat rep (pat ++ v) = rep ++ replaceAll pat rep v := by
  cases pat with
  | nil => exact absurd rfl hpat
  | cons x pat =>
    rw [replaceAll, List.cons_append, replaceFrom, ← List.cons_append, if_pos (List.prefix_append _ _),
      replaceFrom_drop, List.length_cons, Nat.add_sub_cancel, List.drop_left]

theorem replaceAll_first {pat u v : List α} (hpat : pat ≠ []) (h : FirstAt pat u (u ++ (pat ++ v))) (rep : List α) :
    replaceAll pat rep (u ++ (pat ++ v)) = u ++ (rep ++ replaceAll pat rep v) := by
  induction u with
  | nil => exact replaceAll_append hpat rep v
  | cons x u ih =>
    have hx : ¬ pat <+: x :: (u ++ (pat ++ v)) := fun hx => absurd (h.first [] hx) (by simp)
    have hrest : FirstAt pat u (u ++ (pat ++ v)) := by
      refine ⟨by rw [← List.append_assoc]; exact List.prefix_append _ _, fun u' hu' => ?_⟩
      have hcons : x :: u' ++ pat <+: x :: u ++ (pat ++ v) := by
        rw [List.cons_append, List.cons_append, List.cons_prefix_cons]
        exact ⟨rfl, hu'⟩
      exact Nat.le_of_succ_le_succ (h.first (x :: u') hcons)
    rw [List.cons_append, replaceAll, replaceFrom, if_neg hx, ← replaceAll, ih hrest]
    rfl

theorem mem_of_mem_replaceFrom {pat rep : List α} {skip : Nat} {l : List α} {x : α}
    (h : x ∈ replaceFrom pat rep skip l) : x ∈ l ∨ x ∈ rep := by
  induction skip, l using replaceFrom.induct pat with
  | case1 skip => rw [replaceFrom] at h; exact .inl h
  | case2 skip y l ih =>
    rw [replaceFrom] at h
    exact (ih h).imp_left (List.mem_cons_of_mem y)
  | case3 y l hpat ih =>
    rw [replaceFrom, if_pos hpat, List.mem_append] at h
    rcases h with h | h
    · exact .inr h
    · exact (ih h).imp_left (List.mem_cons_of_mem y)
  | case4 y l hpat ih =>
    rw [replaceFrom, if_neg hpat, List.mem_cons] at h
    rcases h with rfl | h
    · exact .inl List.mem_cons_self
    · exact (ih h).imp_left (List.mem_cons_of_mem y)

/-- What no single replacement changes. -/
theorem replaceAll_iff {pat rep : List α} (hpat : pat ≠ []) {Q : List α → Prop}
    (hQ : ∀ u v, Q (u ++ (pat ++ v)) ↔ Q (u ++ (rep ++ v))) (l : List α) : Q (replaceAll pat rep l) ↔ Q l := by
  -- what is already gone through stays in front
  suffices hfront : ∀ u, Q (u ++ replaceAll pat rep l) ↔ Q (u ++ l) from hfront []
  induction h : l.length using Nat.strongRecOn generalizing l with
  | ind n ih =>
    intro u
    cases hl : findFront pat l with
    | none => rw [replaceAll_of_not_occurs rep (findFront_eq_none_iff.mp hl)]
    | some a =>
      have hfirst := findFront_eq_some_iff.mp hl
      obtain ⟨b, rfl⟩ := hfirst.occurs
      rw [List.append_assoc] at hfirst ⊢
      have hb : b.length < n := by
        have := List.length_pos_of_ne_nil hpat
        rw [← h, List.length_append, List.length_append]
        omega
      have hrest := ih b.length hb b rfl (u ++ (a ++ rep))
      have hstep := hQ (u ++ a) b
      simp only [List.append_assoc] at hrest hstep
      rw [replaceAll_first hpat hfirst, hrest, hstep]

end Lox
