import Mathlib.Data.List.DropRight
import Mathlib.Data.List.Infix

/-!
# Text and bytes: splitting, stripping, UTF-8

Text is a list of characters and bytes are a list of `UInt8`. The searches on
them are stated for lists over any type, so that they serve both:

* `splitOnce`: the parts before and after the first separator;
* `afterLast`: what follows the last occurrence of a pattern
  (`afterLast_append`: of a pattern at the front whose last element the rest
  does not contain, it is the rest);
* `resize`: a buffer cut, or filled up, to a length.

`utf8` and `fromUtf8` are the two directions of UTF-8 (`fromUtf8_utf8`);
trailing NULs of the bytes are trailing NULs of the text (`utf8_trimNul`).
-/

namespace Lox

/-- Text, as a list of its characters. -/
abbrev Str := List Char

abbrev Bytes := List UInt8

section

variable {α : Type} [DecidableEq α]

/-- The parts before and after the first `c`. -/
def splitOnce (c : α) : List α → Option (List α × List α)
  | [] => none
  | x :: l => if x = c then some ([], l) else (splitOnce c l).map fun r => (x :: r.1, r.2)

theorem splitOnce_append {c : α} {a : List α} (h : c ∉ a) (b : List α) :
    splitOnce c (a ++ c :: b) = some (a, b) := by
  induction a with
  | nil => simp [splitOnce]
  | cons x a ih =>
    simp only [List.mem_cons, not_or] at h
    simp [splitOnce, Ne.symm h.1, ih h.2]

theorem isPrefixOf?_append (p l : List α) : p.isPrefixOf? (p ++ l) = some l := by
  induction p with
  | nil => rfl
  | cons x p ih => simp [List.isPrefixOf?, ih]

theorem isPrefixOf?_eq_some {p l r : List α} : p.isPrefixOf? l = some r ↔ l = p ++ r := by
  refine ⟨fun h => ?_, fun h => h ▸ isPrefixOf?_append p r⟩
  induction p generalizing l with
  | nil => simpa [List.isPrefixOf?] using h
  | cons x p ih =>
    cases l with
    | nil => simp [List.isPrefixOf?] at h
    | cons y l =>
      simp only [List.isPrefixOf?, beq_iff_eq] at h
      split at h <;> [skip; cases h]
      rename_i hxy
      rw [hxy, ih h, List.cons_append]

/-- What follows the last occurrence of `pat`. -/
def afterLast (pat : List α) : List α → Option (List α)
  | [] => none
  | x :: l =>
    match afterLast pat l with
    | some r => some r
    | none => pat.isPrefixOf? (x :: l)

theorem infix_of_afterLast {pat l r : List α} (h : afterLast pat l = some r) : pat <:+: l := by
  induction l with
  | nil => cases h
  | cons x l ih =>
    simp only [afterLast] at h
    split at h
    · rename_i hl
      exact (ih (hl.trans h)).trans (List.suffix_cons x l).isInfix
    · exact ⟨[], r, by rw [List.nil_append, isPrefixOf?_eq_some.mp h]⟩

omit [DecidableEq α] in
/-- An occurrence of `p ++ [x]` that starts after the front of `p ++ x :: l`
ends in `l`. -/
theorem not_infix_of_shorter {p q l : List α} {x : α} (hq : q.length < p.length) (hx : x ∉ l) :
    ¬ p ++ [x] <:+: q ++ x :: l := by
  rintro ⟨u, v, h⟩
  -- The last element of the occurrence, read on both sides.
  have hl : (u ++ (p ++ [x]) ++ v)[u.length + p.length]? = some x := by
    rw [show u ++ (p ++ [x]) ++ v = (u ++ p) ++ x :: v by simp, List.getElem?_append_right (by simp),
      List.length_append, Nat.sub_self, List.getElem?_cons_zero]
  rw [h, show q ++ x :: l = (q ++ [x]) ++ l by simp,
    List.getElem?_append_right (by simp only [List.length_append, List.length_singleton]; omega)] at hl
  exact hx (List.mem_of_getElem? hl)

omit [DecidableEq α] in
/-- A pattern whose first element is not in the front and whose last is not in the
rest does not occur. -/
theorem not_infix_of_notMem {p a b : List α} {x y : α} (hx : x ∉ a) (hy : y ∉ b) : ¬ x :: (p ++ [y]) <:+: a ++ b := by
  rintro ⟨u, v, h⟩
  have hfirst : (a ++ b)[u.length]? = some x := by
    rw [← h, List.append_assoc, List.getElem?_append_right (Nat.le_refl _), Nat.sub_self]
    rfl
  have hlast : (a ++ b)[u.length + (p.length + 1)]? = some y := by
    rw [← h, show u ++ x :: (p ++ [y]) ++ v = (u ++ x :: p) ++ y :: v by simp,
      List.getElem?_append_right (by simp), List.length_append, List.length_cons, Nat.sub_self,
      List.getElem?_cons_zero]
  by_cases hu : u.length < a.length
  · rw [List.getElem?_append_left hu] at hfirst
    exact hx (List.mem_of_getElem? hfirst)
  · rw [List.getElem?_append_right (by omega)] at hlast
    exact hy (List.mem_of_getElem? hlast)

/-- An occurrence behind the front is the last one of the whole. -/
theorem afterLast_append_left {pat l r : List α} (h : afterLast pat l = some r) (u : List α) :
    afterLast pat (u ++ l) = some r := by
  induction u with
  | nil => exact h
  | cons x u ih => rw [List.cons_append, afterLast, ih]

/-- After a pattern at the front whose last element does not occur again. -/
theorem afterLast_append {p l : List α} {x : α} (hx : x ∉ l) :
    afterLast (p ++ [x]) (p ++ x :: l) = some l := by
  have key : ∀ q : List α, q.length < p.length → afterLast (p ++ [x]) (q ++ x :: l) = none := by
    intro q hq
    cases h : afterLast (p ++ [x]) (q ++ x :: l) with
    | none => rfl
    | some r => exact absurd (infix_of_afterLast h) (not_infix_of_shorter hq hx)
  have hl : afterLast (p ++ [x]) l = none := by
    cases h : afterLast (p ++ [x]) l with
    | none => rfl
    | some r => exact absurd ((infix_of_afterLast h).subset (by simp)) hx
  cases p with
  | nil =>
    rw [List.nil_append] at hl ⊢
    simp [afterLast, hl, List.isPrefixOf?]
  | cons y p =>
    have := key p (by simp)
    simp only [List.cons_append] at this ⊢
    rw [afterLast, this]
    have hp := isPrefixOf?_append (y :: (p ++ [x])) l
    rwa [List.cons_append, List.append_assoc, List.singleton_append] at hp

/-- `l` cut, or filled up with `x`, to length `n`. -/
def resize (l : List α) (n : Nat) (x : α) : List α := l.take n ++ List.replicate (n - l.length) x

omit [DecidableEq α] in
@[simp] theorem length_resize (l : List α) (n : Nat) (x : α) : (resize l n x).length = n := by
  simp only [resize, List.length_append, List.length_take, List.length_replicate]; omega

omit [DecidableEq α] in
theorem resize_of_le {l : List α} {n : Nat} (h : l.length ≤ n) (x : α) :
    resize l n x = l ++ List.replicate (n - l.length) x := by
  rw [resize, List.take_of_length_le h]

end

/-! ## UTF-8 -/

/-- The UTF-8 bytes of a text. -/
def utf8 (s : Str) : Bytes := s.flatMap String.utf8EncodeChar

/-- The text that bytes are the UTF-8 of, if they are valid. -/
def fromUtf8 (b : Bytes) : Option Str := b.toByteArray.utf8Decode?.map Array.toList

@[simp] theorem utf8_nil : utf8 [] = [] := rfl

@[simp] theorem utf8_append (s t : Str) : utf8 (s ++ t) = utf8 s ++ utf8 t := by simp [utf8]

theorem fromUtf8_utf8 (s : Str) : fromUtf8 (utf8 s) = some s := by
  have : (utf8 s).toByteArray = s.utf8Encode := rfl
  simp [fromUtf8, this, List.utf8Decode?_utf8Encode]

theorem utf8_injective : Function.Injective utf8 := fun s t h =>
  Option.some.inj (by rw [← fromUtf8_utf8 s, h, fromUtf8_utf8])

theorem utf8EncodeChar_ascii {c : Char} (h : c.toNat < 128) :
    String.utf8EncodeChar c = [c.val.toUInt8] := by
  refine String.utf8EncodeChar_eq_singleton ?_
  simp only [Char.utf8Size_eq_one_iff, UInt32.le_iff_toNat_le]
  have h' : c.val.toNat < 128 := h
  simp; omega

/-- A byte below 128 is a character of its own. -/
theorem utf8EncodeChar_wide {c : Char} (h : 128 ≤ c.toNat) : ∀ b ∈ String.utf8EncodeChar c, 128 ≤ b := by
  have hv : 128 ≤ c.val.toNat := h
  intro b hb
  have h128 : (128 : UInt8).toNat = 128 := rfl
  rw [UInt8.le_iff_toNat_le, h128]
  simp only [String.utf8EncodeChar] at hb
  split_ifs at hb
  · omega
  all_goals
    simp only [List.mem_cons, List.not_mem_nil, or_false] at hb
    rcases hb with rfl | rfl | rfl | rfl <;>
    · rw [UInt8.toNat_ofNat']
      omega

/-- An ASCII character is in a text if its byte is in the bytes of the text. -/
theorem mem_of_mem_utf8 {s : Str} {c : Char} (hc : c.toNat < 128) (h : c.val.toUInt8 ∈ utf8 s) : c ∈ s := by
  have hbyte (d : Char) (hd : d.toNat < 128) : d.val.toUInt8.toNat = d.val.toNat := by
    have hlt : d.val.toNat < 128 := hd
    rw [UInt32.toNat_toUInt8, Nat.mod_eq_of_lt (by omega)]
  rw [utf8, List.mem_flatMap] at h
  obtain ⟨d, hd, hmem⟩ := h
  by_cases hascii : d.toNat < 128
  · rw [utf8EncodeChar_ascii hascii, List.mem_singleton] at hmem
    have hval := congrArg UInt8.toNat hmem
    rw [hbyte c hc, hbyte d hascii] at hval
    exact Char.ext (UInt32.toNat_inj.mp hval) ▸ hd
  · have hge := UInt8.le_iff_toNat_le.mp (utf8EncodeChar_wide (by omega) _ hmem)
    rw [hbyte c hc] at hge
    have hlt : c.val.toNat < 128 := hc
    have h128 : (128 : UInt8).toNat = 128 := rfl
    omega

theorem length_utf8_ascii {s : Str} (h : ∀ c ∈ s, c.toNat < 128) : (utf8 s).length = s.length := by
  induction s with
  | nil => rfl
  | cons c s ih =>
    have hc := utf8EncodeChar_ascii (h c List.mem_cons_self)
    have hs := ih fun d hd => h d (List.mem_cons_of_mem _ hd)
    simp only [utf8, List.flatMap_cons, hc, List.length_append, List.length_cons, List.length_nil]
      at hs ⊢
    omega

/-- Only the NUL character has a zero byte. -/
theorem eq_nul_of_zero_mem {c : Char} (h : (0 : UInt8) ∈ String.utf8EncodeChar c) : c = '\x00' := by
  have hv : c.val.toNat = 0 := by
    simp only [String.utf8EncodeChar] at h
    repeat' split at h
    all_goals
      simp only [List.mem_cons, List.not_mem_nil, or_false, ← UInt8.toNat_inj, UInt8.toNat_ofNat',
        UInt8.toNat_ofNat] at h
      omega
  exact Char.ext (UInt32.toNat_inj.mp hv)

/-- Trailing zero bytes are trailing NUL characters. -/
theorem utf8_trimNul (s : Str) :
    (utf8 s).rdropWhile (· == 0) = utf8 (s.rdropWhile (· == '\x00')) := by
  induction s using List.reverseRecOn with
  | nil => rfl
  | append_singleton s c ih =>
    rw [utf8_append]
    by_cases hc : c = '\x00'
    · subst hc
      rw [show utf8 ['\x00'] = [0] from rfl, List.rdropWhile_concat_pos _ _ _ (by decide),
        List.rdropWhile_concat_pos _ _ _ (by decide), ih]
    · have hl : ∀ b ∈ String.utf8EncodeChar c, ¬ (b == 0) = true := fun b hb h =>
        hc (eq_nul_of_zero_mem (by rw [← eq_of_beq h]; exact hb))
      rw [List.rdropWhile_concat_neg _ _ _ (by simpa using hc), utf8_append]
      have hne : utf8 [c] ≠ [] := by simp [utf8]
      rw [← List.dropLast_append_getLast hne, ← List.append_assoc]
      refine List.rdropWhile_concat_neg _ _ _ (hl _ ?_)
      simp [utf8]

end Lox
