import LoxWebsocket.Client.ControlScan

/-!
# Envelopes and the limit of the scan

An envelope is an object whose `LL` is an object with `control` as its first key,
with any white space between the tokens and anything behind the value. The scan reads
the value back if it has less than 8192 bytes, and reads nothing if it has more
(`extractLlControl_llEnvelope`). The closing quote is looked for among the first 8192
bytes of the value, so a value of exactly the limit is not read either.
-/

namespace Lox

/-- The white space of JSON. -/
def isJsonWhitespace (b : UInt8) : Bool := b == 32 || b == 9 || b == 10 || b == 13

/-- `"LL"` with its quotes. -/
def llKey : Bytes := [34, 76, 76, 34]

/-- An envelope up to its key `control`; `gap` is the white space before each token. -/
def llOpening (gap : Fin 7 → Bytes) : Bytes :=
  gap 0 ++ 123 :: (gap 1 ++ llKey ++ gap 2 ++ 58 :: (gap 3 ++ 123 :: gap 4))

/-- An envelope with the value `v`, and `rest` behind it. -/
def llEnvelope (gap : Fin 7 → Bytes) (v : Str) (rest : Bytes) : Bytes :=
  llOpening gap ++ (controlKey ++ (gap 5 ++ 58 :: (gap 6 ++ 34 :: (utf8 v ++ 34 :: rest))))

theorem findIdx?_append_cons {α : Type} {p : α → Bool} {a : List α} (ha : ∀ y ∈ a, p y = false) {x : α}
    (hx : p x = true) (b : List α) : (a ++ x :: b).findIdx? p = some a.length := by
  rw [List.findIdx?_append, List.findIdx?_eq_none_iff.mpr ha, Option.none_or, List.findIdx?_cons, hx]
  simp

/-- No key begins in a text without the second letter of the key. -/
theorem findControlKey_append {a : Bytes} (ha : 99 ∉ a) (b : Bytes) :
    findControlKey (a ++ (controlKey ++ b)) = some a.length := by
  rw [findControlKey_iff]
  refine ⟨?_, fun i hi => ?_⟩
  · change KeyAt _ _
    rw [KeyAt, List.drop_left, List.take_left]
  · by_contra hlt
    have hsecond := congrArg (·[1]?) (show KeyAt _ _ from hi)
    change ((List.drop i (a ++ (controlKey ++ b))).take 9)[1]? = some 99 at hsecond
    rw [List.getElem?_take_of_lt (by decide), List.getElem?_drop] at hsecond
    rcases Nat.lt_or_ge (i + 1) a.length with hin | hge
    · rw [List.getElem?_append_left hin] at hsecond
      exact ha (List.mem_of_getElem? hsecond)
    · -- the byte behind the text is the quote of the key
      rw [List.getElem?_append_right hge, show i + 1 - a.length = 0 by omega] at hsecond
      change some (34 : UInt8) = some 99 at hsecond
      exact absurd (Option.some.inj hsecond) (by decide)

section

variable {gap : Fin 7 → Bytes} (hgap : ∀ k, ∀ b ∈ gap k, isJsonWhitespace b = true)

include hgap in
/-- The white space has no byte that the scan looks for. -/
theorem white_of_mem_gap {k : Fin 7} {b : UInt8} (hb : b ∈ gap k) : isAsciiWhitespace b = true ∧ b ≠ 99 ∧ b ≠ 58 := by
  have hwhite := hgap k b hb
  simp only [isJsonWhitespace, Bool.or_eq_true, beq_iff_eq] at hwhite
  rcases hwhite with ((rfl | rfl) | rfl) | rfl <;> decide

include hgap in
theorem notMem_llOpening : 99 ∉ llOpening gap := by
  have hnot (k : Fin 7) : 99 ∉ gap k := fun h => (white_of_mem_gap hgap h).2.1 rfl
  simp [llOpening, llKey, hnot]

include hgap in
/-- The value of an envelope is read if it is shorter than the limit. -/
theorem extractLlControl_llEnvelope (hkey : (llOpening gap).length + controlKey.length ≤ controlKeyScanLimit) {v : Str}
    (hquote : '"' ∉ v) (hbackslash : '\\' ∉ v) (rest : Bytes) :
    extractLlControl (llEnvelope gap v rest) = if (utf8 v).length < controlValueLimit then some v else none := by
  have hwindow : findControlKey ((llEnvelope gap v rest).take controlKeyScanLimit) = some (llOpening gap).length := by
    rw [llEnvelope, List.take_append, List.take_of_length_le (by omega), List.take_append,
      List.take_of_length_le (l := controlKey) (by omega)]
    exact findControlKey_append (notMem_llOpening hgap) _
  have hkeyEnd : (llEnvelope gap v rest).drop ((llOpening gap).length + controlKey.length) =
      gap 5 ++ 58 :: (gap 6 ++ 34 :: (utf8 v ++ 34 :: rest)) := by
    rw [llEnvelope, ← List.drop_drop, List.drop_left, List.drop_left]
  have hcolon : (gap 5 ++ 58 :: (gap 6 ++ 34 :: (utf8 v ++ 34 :: rest))).findIdx? (· == 58) = some (gap 5).length :=
    findIdx?_append_cons (fun y hy => beq_false_of_ne (white_of_mem_gap hgap hy).2.2) rfl _
  have hopen : (gap 6 ++ 34 :: (utf8 v ++ 34 :: rest)).findIdx? (fun b => !isAsciiWhitespace b) =
      some (gap 6).length :=
    findIdx?_append_cons (fun y hy => by rw [(white_of_mem_gap hgap hy).1]; rfl) rfl _
  have hplain : ∀ y ∈ utf8 v, (y == 34 || y == 92) = false := by
    intro y hy
    rw [Bool.or_eq_false_iff, beq_eq_false_iff_ne, beq_eq_false_iff_ne]
    exact ⟨fun h => hquote (mem_of_mem_utf8 (by decide) (show (34 : UInt8) ∈ utf8 v from h ▸ hy)),
      fun h => hbackslash (mem_of_mem_utf8 (by decide) (show (92 : UInt8) ∈ utf8 v from h ▸ hy))⟩
  have hdrop (a : Bytes) (x : UInt8) (b : Bytes) : (a ++ x :: b).drop (a.length + 1) = b := by
    rw [← List.drop_drop, List.drop_left]
    rfl
  have hget (a : Bytes) (x : UInt8) (b : Bytes) : (a ++ x :: b)[a.length]? = some x := by
    rw [List.getElem?_append_right (Nat.le_refl _), Nat.sub_self, List.getElem?_cons_zero]
  simp only [extractLlControl, Option.bind_eq_bind, hwindow, Option.bind_some, hkeyEnd, findByte_eq, hcolon, hdrop,
    hopen, hget, ne_eq, not_true_eq_false, if_false, findEither_eq]
  split_ifs with hlt
  · -- the closing quote is within the limit
    have hvalue : (utf8 v ++ 34 :: rest).take controlValueLimit =
        utf8 v ++ 34 :: rest.take (controlValueLimit - (utf8 v).length - 1) := by
      rw [List.take_append, List.take_of_length_le (by omega), List.take_cons (by omega)]
    rw [hvalue, findIdx?_append_cons hplain rfl, Option.bind_some, hget, if_neg (by simp), List.take_left,
      fromUtf8_utf8]
  · -- all that is searched is text
    have hnone : ((utf8 v ++ 34 :: rest).take controlValueLimit).findIdx? (fun x => x == 34 || x == 92) = none := by
      rw [List.take_append_of_le_length (by omega), List.findIdx?_eq_none_iff]
      exact fun y hy => hplain y (List.mem_of_mem_take hy)
    rw [hnone, Option.bind_none]

end

/-- Values up to the limit are read and longer ones are not, unless a value has
exactly as many bytes as the limit. -/
theorem control_limit_iff (gap : Fin 7 → Bytes) (hgap : ∀ k, ∀ b ∈ gap k, isJsonWhitespace b = true)
    (hkey : (llOpening gap).length + controlKey.length ≤ controlKeyScanLimit) (v : Str) (hquote : '"' ∉ v)
    (hbackslash : '\\' ∉ v) (rest : Bytes) :
    (((utf8 v).length ≤ controlValueLimit → extractLlControl (llEnvelope gap v rest) = some v) ∧
      (controlValueLimit < (utf8 v).length → extractLlControl (llEnvelope gap v rest) = none)) ↔
    (utf8 v).length ≠ controlValueLimit := by
  rw [extractLlControl_llEnvelope hgap hkey hquote hbackslash]
  constructor
  · rintro ⟨hread, -⟩ heq
    have hsome := hread heq.le
    rw [if_neg (by omega)] at hsome
    cases hsome
  · intro hne
    exact ⟨fun hle => if_pos (by omega), fun hgt => if_neg (by omega)⟩

/-- A short value, without white space. -/
theorem control_limit_iff_short :
    (((utf8 "jdev/sys/getkey".toList).length ≤ controlValueLimit →
        extractLlControl (llEnvelope (fun _ => []) "jdev/sys/getkey".toList []) = some "jdev/sys/getkey".toList) ∧
      (controlValueLimit < (utf8 "jdev/sys/getkey".toList).length →
        extractLlControl (llEnvelope (fun _ => []) "jdev/sys/getkey".toList []) = none)) ↔
    (utf8 "jdev/sys/getkey".toList).length ≠ controlValueLimit :=
  control_limit_iff (fun _ => []) (by simp) (by decide) _ (by decide) (by decide) []

/-- A value of exactly the limit is not read. -/
theorem control_limit_rejected :
    (utf8 (List.replicate controlValueLimit 'a')).length = controlValueLimit ∧
      extractLlControl (llEnvelope (fun _ => []) (List.replicate controlValueLimit 'a') []) = none := by
  have hlen : (utf8 (List.replicate controlValueLimit 'a')).length = controlValueLimit := by
    have hsize : 'a'.utf8Size = 1 := rfl
    simp [utf8, List.length_flatMap, hsize]
  refine ⟨hlen, ?_⟩
  have hnot (c : Char) (hc : c ≠ 'a') : c ∉ List.replicate controlValueLimit 'a' := fun h =>
    hc (List.eq_of_mem_replicate h)
  rw [extractLlControl_llEnvelope (by simp) (by decide) (hnot _ (by decide)) (hnot _ (by decide)),
    if_neg (by rw [hlen]; exact Nat.lt_irrefl _)]

end Lox
