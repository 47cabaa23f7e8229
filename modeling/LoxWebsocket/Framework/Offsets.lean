import Mathlib.Algebra.Ring.Nat
import LoxWebsocket.Framework.Text

/-!
# Offsets in a list of weighted elements

A position in a text that is kept in bytes is the number of bytes before it: the
weight of the elements in front (`weight`). Only the offsets between two elements can
be cut at (`cut`, `cutRange`); at the weight of a front part, the front part is what
is cut off (`cut_append`, `cutRange_append`). Of two front parts the longer one is the
heavier one (`weight_lt_of_prefix`).

The segments between separators weigh as much as the list without its separators
(`weight_splitOn`). The first `n` of them, with the separators between them, end at
the `n`-th separator, or at the end if there are fewer (`segmentsEnd_of_split`,
`segmentsEnd_of_count_lt`).
-/

namespace Lox

variable {α : Type}

section

variable (w : α → Nat)

def weight (l : List α) : Nat := (l.map w).sum

@[simp] theorem weight_nil : weight w [] = 0 := rfl

@[simp] theorem weight_cons (x : α) (l : List α) : weight w (x :: l) = w x + weight w l := rfl

@[simp] theorem weight_append (a b : List α) : weight w (a ++ b) = weight w a + weight w b := by
  rw [weight, List.map_append, List.sum_append, weight, weight]

theorem weight_one (l : List α) : weight (fun _ => 1) l = l.length := by
  induction l with
  | nil => rfl
  | cons x l ih => rw [weight_cons, ih, List.length_cons, Nat.add_comm]

/-- The bytes of a character. -/
def utf8Len (c : Char) : Nat := (String.utf8EncodeChar c).length

theorem utf8Len_pos (c : Char) : 0 < utf8Len c := by
  rw [utf8Len, String.length_utf8EncodeChar]
  exact c.utf8Size_pos

theorem weight_utf8Len (s : Str) : weight utf8Len s = (utf8 s).length := by
  rw [weight, utf8, List.length_flatMap]
  rfl

/-! ## Cutting -/

/-- What is before and what is behind offset `n`, if it is between two elements. -/
def cut : List α → Nat → Option (List α × List α)
  | l, 0 => some ([], l)
  | [], _ + 1 => none
  | x :: l, n + 1 => if w x ≤ n + 1 then (cut l (n + 1 - w x)).map fun p => (x :: p.1, p.2) else none

/-- What is from offset `m` to offset `n`, if they are in order. -/
def cutRange (l : List α) (m n : Nat) : Option (List α) :=
  if m ≤ n then (cut w l m).bind fun p => (cut w p.2 (n - m)).map Prod.fst else none

variable {w}

theorem cut_append (hw : ∀ x, 0 < w x) (a b : List α) : cut w (a ++ b) (weight w a) = some (a, b) := by
  induction a with
  | nil =>
    rw [weight_nil, List.nil_append]
    cases b <;> rfl
  | cons x a ih =>
    obtain ⟨n, hn⟩ : ∃ n, weight w (x :: a) = n + 1 := Nat.exists_eq_succ_of_ne_zero (by
      have := hw x
      rw [weight_cons]
      omega)
    have hrest : n + 1 - w x = weight w a := by
      rw [← hn, weight_cons, Nat.add_sub_cancel_left]
    rw [hn, List.cons_append, cut, if_pos (by rw [← hn, weight_cons]; omega), hrest, ih, Option.map_some]

theorem cutRange_append (hw : ∀ x, 0 < w x) (a b c : List α) :
    cutRange w (a ++ (b ++ c)) (weight w a) (weight w a + weight w b) = some b := by
  rw [cutRange, if_pos (Nat.le_add_right _ _), cut_append hw, Option.bind_some, Nat.add_sub_cancel_left,
    cut_append hw, Option.map_some]

theorem eq_append_of_cut {l a b : List α} {n : Nat} (h : cut w l n = some (a, b)) : l = a ++ b := by
  induction l generalizing n a with
  | nil =>
    cases n with
    | zero => cases h; rfl
    | succ n => cases h
  | cons x l ih =>
    cases n with
    | zero => cases h; rfl
    | succ n =>
      rw [cut] at h
      split_ifs at h
      obtain ⟨p, hp, heq⟩ := Option.map_eq_some_iff.mp h
      cases heq
      rw [ih hp, List.cons_append]

theorem mem_of_cutRange {l a : List α} {m n : Nat} (h : cutRange w l m n = some a) {x : α} (hx : x ∈ a) : x ∈ l := by
  rw [cutRange] at h
  split_ifs at h
  obtain ⟨p, hp, hcut⟩ := Option.bind_eq_some_iff.mp h
  obtain ⟨r, hr, rfl⟩ := Option.map_eq_some_iff.mp hcut
  rw [eq_append_of_cut hp, eq_append_of_cut hr]
  exact List.mem_append_right _ (List.mem_append_left _ hx)

theorem weight_lt_of_prefix (hw : ∀ x, 0 < w x) {a b : List α} (h : a <+: b) (hlt : a.length < b.length) :
    weight w a < weight w b := by
  obtain ⟨t, rfl⟩ := h
  cases t with
  | nil => rw [List.append_nil] at hlt; omega
  | cons x t =>
    have := hw x
    rw [weight_append, weight_cons]
    omega

theorem cutRange_of_lt {l : List α} {m n : Nat} (h : n < m) : cutRange w l m n = none := if_neg (by omega)

end

/-! ## Segments -/

section

variable [BEq α] [LawfulBEq α]

omit [LawfulBEq α] in
theorem length_splitOn (x : α) (l : List α) : (l.splitOn x).length = l.count x + 1 := by
  induction l with
  | nil => rfl
  | cons y l ih =>
    rw [List.splitOn_cons_eq_if_modifyHead, List.count_cons]
    split_ifs with h
    · rw [List.length_cons, ih]
    · rw [List.length_modifyHead, ih]

theorem weight_splitOn (w : α → Nat) (x : α) (l : List α) :
    ((l.splitOn x).map (weight w)).sum + l.count x * w x = weight w l := by
  induction l with
  | nil => rw [List.splitOn_nil, List.count_nil, Nat.zero_mul]; rfl
  | cons y l ih =>
    rw [List.splitOn_cons_eq_if_modifyHead, List.count_cons, weight_cons, ← ih]
    split_ifs with h
    · rw [eq_of_beq h, List.map_cons, List.sum_cons, weight_nil, Nat.add_mul]
      omega
    · obtain ⟨s, segments, hsplit⟩ := List.exists_cons_of_ne_nil (List.splitOn_ne_nil x l)
      rw [hsplit, List.modifyHead_cons, List.map_cons, List.map_cons, List.sum_cons, List.sum_cons, weight_cons,
        Nat.add_zero]
      omega

/-- Where the first `n` segments end, with a separator before each but the first. -/
def segmentsEnd (w : α → Nat) (x : α) (n : Nat) (l : List α) : Nat :=
  (((l.splitOn x).take n).map (weight w)).sum + (((l.splitOn x).take n).length - 1) * w x

theorem segmentsEnd_of_count_lt (w : α → Nat) {x : α} {n : Nat} {l : List α} (h : l.count x < n) :
    segmentsEnd w x n l = weight w l := by
  rw [segmentsEnd, List.take_of_length_le (by rw [length_splitOn]; omega), length_splitOn, Nat.add_sub_cancel,
    weight_splitOn]

theorem segmentsEnd_of_split (w : α → Nat) (x : α) (a b : List α) :
    segmentsEnd w x (a.count x + 1) (a ++ x :: b) = weight w a := by
  have htake : ((a ++ x :: b).splitOn x).take (a.count x + 1) = (a.splitOn x).take (a.count x + 1) := by
    rw [List.splitOn_append_cons_self, List.take_append_of_le_length (Nat.le_of_eq (length_splitOn x a).symm)]
  rw [segmentsEnd, htake]
  exact segmentsEnd_of_count_lt w (Nat.lt_succ_self _)

/-- The list up to its `n`-th separator. -/
theorem exists_split_of_le_count {x : α} {n : Nat} {l : List α} (hpos : 0 < n) (h : n ≤ l.count x) :
    ∃ a b, l = a ++ x :: b ∧ a.count x + 1 = n := by
  induction l generalizing n with
  | nil => rw [List.count_nil] at h; omega
  | cons y l ih =>
    rw [List.count_cons] at h
    by_cases hyx : (y == x) = true
    · rw [if_pos hyx] at h
      obtain rfl := eq_of_beq hyx
      by_cases hn : n = 1
      · exact ⟨[], l, rfl, hn.symm⟩
      · obtain ⟨a, b, rfl, ha⟩ := ih (n := n - 1) (by omega) (by omega)
        exact ⟨y :: a, b, rfl, by rw [List.count_cons_self]; omega⟩
    · rw [if_neg hyx] at h
      obtain ⟨a, b, rfl, ha⟩ := ih hpos h
      exact ⟨y :: a, b, rfl, by rw [List.count_cons, if_neg hyx]; omega⟩

end

end Lox
