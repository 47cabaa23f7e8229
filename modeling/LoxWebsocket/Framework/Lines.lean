import LoxWebsocket.Framework.Json

/-!
# Lines and decimal numbers

`lines` splits a text at its line ends: a newline, or a carriage return and a
newline. Texts that are one line each come back from the text they are the lines
of, whatever follows it (`lines_unlines_append`). `showI64` writes a number in
decimal, and `parseI64` reads it back (`parseI64_showI64`).
-/

namespace Lox

section

variable {α : Type} [DecidableEq α]

/-- The parts before and after the last `c`. -/
def rsplitOnce (c : α) (l : List α) : Option (List α × List α) :=
  (splitOnce c l.reverse).map fun r => (r.2.reverse, r.1.reverse)

/-- The pieces that end with `c`, and the last one. -/
def splitInclusive (c : α) : List α → List (List α)
  | [] => []
  | x :: l =>
    if x = c then [x] :: splitInclusive c l
    else
      match splitInclusive c l with
      | [] => [[x]]
      | piece :: pieces => (x :: piece) :: pieces

/-- What comes before a `c` at the end. -/
def stripSuffix (c : α) (l : List α) : Option (List α) := if l.getLast? = some c then some l.dropLast else none

theorem eq_append_of_splitOnce {c : α} {l a b : List α} (h : splitOnce c l = some (a, b)) : l = a ++ c :: b := by
  induction l generalizing a with
  | nil => cases h
  | cons x l ih =>
    rw [splitOnce] at h
    split_ifs at h with hx
    · cases h
      rw [hx]
      rfl
    · obtain ⟨r, hr, heq⟩ := Option.map_eq_some_iff.mp h
      cases heq
      rw [ih hr]
      rfl

theorem eq_append_of_rsplitOnce {c : α} {l a b : List α} (h : rsplitOnce c l = some (a, b)) : l = a ++ c :: b := by
  obtain ⟨r, hr, heq⟩ := Option.map_eq_some_iff.mp h
  cases heq
  rw [← List.reverse_inj, eq_append_of_splitOnce hr]
  simp

theorem splitInclusive_append {c : α} {l : List α} (h : c ∉ l) (s : List α) :
    splitInclusive c (l ++ c :: s) = (l ++ [c]) :: splitInclusive c s := by
  induction l with
  | nil => simp [splitInclusive]
  | cons x l ih =>
    rw [List.mem_cons, not_or] at h
    rw [List.cons_append, splitInclusive, if_neg (Ne.symm h.1), ih h.2]
    rfl

theorem stripSuffix_append (c : α) (l : List α) : stripSuffix c (l ++ [c]) = some l := by
  simp [stripSuffix]

theorem stripSuffix_none {c : α} {l : List α} (h : l.getLast? ≠ some c) : stripSuffix c l = none := if_neg h

end

/-! ## Lines -/

/-- A line without its end. -/
def lineOf (piece : Str) : Str :=
  match stripSuffix '\n' piece with
  | none => piece
  | some line => (stripSuffix '\r' line).getD line

def lines (s : Str) : List Str := (splitInclusive '\n' s).map lineOf

/-- The text with the lines `ls`. -/
def unlines (ls : List Str) : Str := ls.flatMap (· ++ ['\n'])

/-- A text that comes back as one line. -/
def OneLine (l : Str) : Prop := '\n' ∉ l ∧ l.getLast? ≠ some '\r'

/-- A text without a line break of either kind. -/
def NoBreak (l : Str) : Prop := '\n' ∉ l ∧ '\r' ∉ l

instance (l : Str) : Decidable (NoBreak l) := inferInstanceAs (Decidable (_ ∧ _))

theorem NoBreak.oneLine {l : Str} (h : NoBreak l) : OneLine l := ⟨h.1, fun hr => h.2 (List.mem_of_getLast? hr)⟩

theorem NoBreak.append {l m : Str} (hl : NoBreak l) (hm : NoBreak m) : NoBreak (l ++ m) := by
  simp only [NoBreak, List.mem_append, not_or]
  exact ⟨⟨hl.1, hm.1⟩, hl.2, hm.2⟩

theorem lines_cons {l : Str} (h : OneLine l) (s : Str) : lines (l ++ '\n' :: s) = l :: lines s := by
  rw [lines, splitInclusive_append h.1, List.map_cons, lineOf, stripSuffix_append]
  simp only [stripSuffix_none h.2, Option.getD_none]
  rfl

/-- The last line need not have an end. -/
theorem lines_last {l : Str} (hne : l ≠ []) (h : '\n' ∉ l) : lines l = [l] := by
  have hsplit : splitInclusive '\n' l = [l] := by
    induction l with
    | nil => exact absurd rfl hne
    | cons x l ih =>
      rw [List.mem_cons, not_or] at h
      rw [splitInclusive, if_neg (Ne.symm h.1)]
      cases l with
      | nil => rfl
      | cons y l => rw [ih (List.cons_ne_nil _ _) h.2]
  have hstrip : stripSuffix '\n' l = none := stripSuffix_none fun hl => h (List.mem_of_getLast? hl)
  rw [lines, hsplit, List.map_singleton, lineOf, hstrip]

/-- Lines come back from the text they are the lines of. -/
theorem lines_unlines_append {ls : List Str} (h : ∀ l ∈ ls, OneLine l) (s : Str) :
    lines (unlines ls ++ s) = ls ++ lines s := by
  induction ls with
  | nil => rfl
  | cons l ls ih =>
    rw [List.forall_mem_cons] at h
    have hcons : unlines (l :: ls) ++ s = l ++ '\n' :: (unlines ls ++ s) := by simp [unlines]
    rw [hcons, lines_cons h.1, ih h.2, List.cons_append]

/-! ## Decimal numbers -/

/-- A number in decimal, with a sign if it is negative. -/
def showI64 (n : Int64) : Str :=
  match n.toInt with
  | .ofNat m => m.repr.toList
  | .negSucc m => '-' :: (m + 1).repr.toList

theorem digitValue_isDigit {c : Char} (h : c.isDigit = true) : digitValue c = some (c.toNat - '0'.toNat) := by
  have hrange : '0' ≤ c ∧ c ≤ '9' := by
    rw [Char.isDigit, Bool.and_eq_true, decide_eq_true_iff, decide_eq_true_iff] at h
    exact h
  exact if_pos hrange

theorem foldl_digits {s : Str} (h : ∀ c ∈ s, c.isDigit = true) (n : Nat) :
    s.foldl (fun acc c => do return 10 * (← acc) + (← digitValue c)) (some n) = some (Nat.ofDigitChars 10 s n) := by
  induction s generalizing n with
  | nil => rfl
  | cons c s ih =>
    rw [List.forall_mem_cons] at h
    rw [List.foldl_cons, digitValue_isDigit h.1]
    exact ih h.2 _

theorem isDigit_of_mem_repr {n : Nat} {c : Char} (h : c ∈ n.repr.toList) : c.isDigit = true := by
  rw [Nat.toList_repr] at h
  exact Nat.isDigit_of_mem_toDigits (by decide) (by decide) h

theorem parseNat_repr (n : Nat) : parseNat n.repr.toList = some n := by
  have hne : n.repr.toList ≠ [] := by
    rw [Nat.toList_repr]
    exact Nat.toDigits_ne_nil
  rw [parseNat, if_neg hne, foldl_digits fun c => isDigit_of_mem_repr, Nat.toList_repr,
    Nat.ofDigitChars_toDigits (by decide) (by decide)]

theorem toInt_fits (n : Int64) : -2 ^ 63 ≤ n.toInt ∧ n.toInt < 2 ^ 63 := by
  have hlo := Int64.le_toInt n
  have hhi := Int64.toInt_lt n
  omega

theorem parseI64_repr {m : Nat} {n : Int64} (hm : n.toInt = m) : parseI64 m.repr.toList = some n := by
  have hparse := parseNat_repr m
  have hdigit : ∀ c ∈ m.repr.toList, c.isDigit = true := fun c => isDigit_of_mem_repr
  generalize m.repr.toList = s at hparse hdigit
  -- what starts with a digit has no sign
  have hsign {c : Char} (hc : c.isDigit = false) (l : Str) : s ≠ c :: l := by
    rintro rfl
    rw [hdigit c List.mem_cons_self] at hc
    cases hc
  have hcast : (some m >>= fun a => pure (a : Int)) = some n.toInt := by
    rw [hm]
    rfl
  rw [parseI64]
  · rw [hparse, hcast]
    simp only [Option.map_some, Option.bind_eq_bind, Option.bind_some]
    rw [if_pos (toInt_fits n), Int64.ofInt_toInt]
  · exact hsign (by decide)
  · exact hsign (by decide)

theorem parseI64_neg_repr {m : Nat} {n : Int64} (hm : n.toInt = -m) : parseI64 ('-' :: m.repr.toList) = some n := by
  have hfits := toInt_fits n
  have hn := Int64.ofInt_toInt n
  rw [hm] at hfits hn
  rw [parseI64]
  simp only [parseNat_repr, Option.bind_eq_bind, Option.bind_some, Option.pure_def, Option.map_some]
  rw [if_pos hfits, hn]

theorem parseI64_showI64 (n : Int64) : parseI64 (showI64 n) = some n := by
  unfold showI64
  split
  · rename_i m hm
    exact parseI64_repr hm
  · rename_i m hm
    exact parseI64_neg_repr hm

end Lox
