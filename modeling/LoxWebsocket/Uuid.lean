import Mathlib.Data.List.GetD
import Mathlib.Tactic.IntervalCases
import LoxWebsocket.Framework.Codec
import LoxWebsocket.Proto.Tables

/-!
# UUIDs as text

A UUID is sixteen bytes on the wire, the first three fields of it little-endian.
Its text is 32 hexadecimal digits with dashes after the eighth, the twelfth and
the sixteenth. `formatLoxoneBytes` writes the digits of each byte at its place in
a buffer; `parse` takes the digits as they come, passing over dashes wherever they
stand, and packs two into a byte. `inTextOrder` is the order of the bytes in the
text, so that formatting is the digits of that (`formatLoxone_eq`) and parsing the
packed digits (`parse_eq_ok_iff`).
-/

namespace Lox

def loxoneUuidStrLen : Nat := 35

/-! ## Formatting -/

/-- The digits, in ASCII. -/
def hexAlphabet : Vector UInt8 16 := #v[48, 49, 50, 51, 52, 53, 54, 55, 56, 57, 97, 98, 99, 100, 101, 102]

/-- The two digits of every byte, the higher first. -/
def hexLut : Vector UInt8 512 := Vector.ofFn fun i =>
  let byte := i.val / 2
  hexAlphabet.get (Fin.ofNat 16 (if i.val % 2 = 0 then byte >>> 4 else byte &&& 0x0f))

/-- Write the digits of `byte` at `pos` and `pos + 1`. -/
def putHex (out : Vector UInt8 loxoneUuidStrLen) (pos : Fin 34) (byte : UInt8) : Vector UInt8 loxoneUuidStrLen :=
  have hi : byte.toNat * 2 + 1 < 512 := by have := byte.toNat_lt; omega
  let i := byte.toNat * 2
  let out := out.set pos.val hexLut[i] (Nat.lt_succ_of_lt pos.isLt)
  out.set (pos.val + 1) hexLut[i + 1] (Nat.succ_lt_succ pos.isLt)

namespace LoxoneUuid

/-- The text of a UUID, in a buffer of dashes. -/
def formatLoxoneBytes (b : LoxoneUuid) : Vector UInt8 loxoneUuidStrLen :=
  let out : Vector UInt8 loxoneUuidStrLen := Vector.replicate loxoneUuidStrLen 45
  let out := putHex out 0 b[3]
  let out := putHex out 2 b[2]
  let out := putHex out 4 b[1]
  let out := putHex out 6 b[0]
  let out := putHex out 9 b[5]
  let out := putHex out 11 b[4]
  let out := putHex out 14 b[7]
  let out := putHex out 16 b[6]
  (List.finRange 8).foldl (fun out i => putHex out ⟨19 + 2 * i.val, by omega⟩ b[8 + i.val]) out

/-- The buffer holds ASCII, so the default is not taken. -/
def asAscii (buf : Vector UInt8 loxoneUuidStrLen) : Str := (fromUtf8 buf.toList).getD []

def formatLoxoneInto (u : LoxoneUuid) (buf : Str) : Str := buf ++ asAscii u.formatLoxoneBytes

def formatLoxone (u : LoxoneUuid) : Str := u.formatLoxoneInto []

end LoxoneUuid

/-! ## Parsing -/

/-- A character as it is shown in an error; only those of one byte are. -/
def debugChar (c : Char) : Str :=
  let n := c.toNat
  let shown :=
    if c = '\x00' then "\\0".toList
    else if c = '\t' then "\\t".toList
    else if c = '\r' then "\\r".toList
    else if c = '\n' then "\\n".toList
    else if c = '\'' then "\\'".toList
    else if c = '\\' then "\\\\".toList
    else if (0x20 ≤ n ∧ n ≤ 0x7E) ∨ (0xA1 ≤ n ∧ n ≠ 0xAD) then [c]
    else "\\u\x7b".toList ++ Nat.toDigits 16 n ++ "\x7d".toList
  "'".toList ++ shown ++ "'".toList

/-- The value of a digit. -/
def nibble (c : UInt8) : Option UInt8 :=
  if 48 ≤ c ∧ c ≤ 57 then some (c - 48)
  else if 97 ≤ c ∧ c ≤ 102 then some (c - 97 + 10)
  else if 65 ≤ c ∧ c ≤ 70 then some (c - 65 + 10)
  else none

namespace LoxoneUuid

/-- The loop over the bytes of the text: the digits so far are packed in `raw`. -/
def parseLoop : Bytes → Vector UInt8 16 → Nat → Except Error (Vector UInt8 16 × Nat)
  | [], raw, nibbles => .ok (raw, nibbles)
  | c :: s, raw, nibbles =>
    if c = 45 then parseLoop s raw nibbles
    else
      match nibble c with
      | none => .error (.invalidUuid ("invalid hex digit ".toList ++ debugChar (Char.ofNat c.toNat)))
      | some v =>
        if h : 32 ≤ nibbles then .error (.invalidUuid "expected 32 hex digits, got more".toList)
        else
          have hi : nibbles / 2 < 16 := by omega
          let raw := raw.set (nibbles / 2) (if nibbles % 2 = 0 then v <<< 4 else raw[nibbles / 2] ||| v)
          parseLoop s raw (nibbles + 1)

/-- The bytes of a UUID in the order of its text, and back. -/
def inTextOrder (b : Vector UInt8 16) : Vector UInt8 16 :=
  #v[b[3], b[2], b[1], b[0], b[5], b[4], b[7], b[6], b[8], b[9], b[10], b[11], b[12], b[13], b[14], b[15]]

def parse (s : Str) : Except Error LoxoneUuid := do
  let (raw, nibbles) ← parseLoop (utf8 s) (Vector.replicate 16 0) 0
  if nibbles ≠ 32 then
    .error (.invalidUuid ("expected 32 hex digits, got ".toList ++ Error.decimal nibbles))
  else .ok (inTextOrder raw)

end LoxoneUuid

/-! ## The text of a UUID -/

theorem utf8_hexDigit : ∀ n < 16, utf8 [hexDigit n] = [hexAlphabet.get (Fin.ofNat 16 n)] := by decide

/-- The table has the digits of a byte. -/
theorem hexLut_byte (byte : UInt8) (h : byte.toNat * 2 + 1 < 512) :
    [hexLut[byte.toNat * 2], hexLut[byte.toNat * 2 + 1]] = utf8 (hexEncode [byte]) := by
  have hbyte := byte.toNat_lt
  have heven : byte.toNat * 2 / 2 = byte.toNat := Nat.mul_div_cancel _ (by decide)
  have hodd : (byte.toNat * 2 + 1) / 2 = byte.toNat := by omega
  have hhigh : byte.toNat >>> 4 = byte.toNat / 16 := Nat.shiftRight_eq_div_pow _ _
  have hlow : byte.toNat &&& 0x0f = byte.toNat % 16 := Nat.and_two_pow_sub_one_eq_mod byte.toNat 4
  have hdigits : hexEncode [byte] = [hexDigit (byte.toNat / 16)] ++ [hexDigit (byte.toNat % 16)] := rfl
  rw [hdigits, utf8_append, utf8_hexDigit _ (by omega), utf8_hexDigit _ (by omega)]
  simp only [hexLut, Vector.getElem_ofFn, heven, hodd, hhigh, hlow, Nat.mul_mod_left, if_true,
    if_neg (show ¬ (byte.toNat * 2 + 1) % 2 = 0 by omega), List.singleton_append]

/-- The digits of a byte go where the text ends so far. -/
theorem toList_putHex {out : Vector UInt8 loxoneUuidStrLen} {text : Bytes} {n : Nat} (pos : Fin 34)
    (h : out.toList = text ++ List.replicate (n + 2) 45) (hpos : pos.val = text.length) (byte : UInt8) :
    (putHex out pos byte).toList = (text ++ utf8 (hexEncode [byte])) ++ List.replicate n 45 := by
  have hbyte := byte.toNat_lt
  rw [← hexLut_byte byte (by omega), putHex]
  simp only [Vector.toList_set, h, hpos, List.replicate_succ]
  simp

/-- A dash of the buffer is left where it is. -/
theorem keepDash {out : Vector UInt8 loxoneUuidStrLen} {text : Bytes} {n : Nat}
    (h : out.toList = text ++ List.replicate (n + 1) 45) : out.toList = (text ++ [45]) ++ List.replicate n 45 := by
  rw [h, List.replicate_succ, List.append_assoc, List.singleton_append]

theorem length_utf8_hexEncode (b : Bytes) : (utf8 (hexEncode b)).length = 2 * b.length := by
  have hascii : "0123456789abcdef".toList.all (fun c => c.toNat < 128) = true := by decide
  have hlt (c : Char) (hc : c ∈ hexEncode b) : c.toNat < 128 :=
    of_decide_eq_true (List.all_eq_true.mp hascii c (mem_hexEncode hc))
  rw [length_utf8_ascii hlt, length_hexEncode]

theorem hexEncode_append (a b : Bytes) : hexEncode (a ++ b) = hexEncode a ++ hexEncode b := List.flatMap_append

namespace LoxoneUuid

/-- Digits with dashes after the eighth, the twelfth and the sixteenth. -/
def dashed (digits : Str) : Str :=
  digits.take 8 ++ ['-'] ++ (digits.drop 8).take 4 ++ ['-'] ++ (digits.drop 12).take 4 ++ ['-'] ++ digits.drop 16

/-- The rounds of the loop over the last eight bytes. -/
theorem toList_formatTail (b : LoxoneUuid) {out : Vector UInt8 loxoneUuidStrLen} {text : Bytes}
    (h : out.toList = text ++ List.replicate 16 45) (htext : text.length = 19) {k : Nat} (hk : k ≤ 8) :
    (((List.finRange 8).take k).foldl (fun out i => putHex out ⟨19 + 2 * i.val, by omega⟩ b[8 + i.val]) out).toList =
      (text ++ utf8 (hexEncode ((b.toList.drop 8).take k))) ++ List.replicate (16 - 2 * k) 45 := by
  induction k with
  | zero => simpa [hexEncode] using h
  | succ k ih =>
    have hround := ih (by omega)
    rw [show 16 - 2 * k = 16 - 2 * (k + 1) + 2 by omega] at hround
    have hlt : k < (List.finRange 8).length := by
      rw [List.length_finRange]
      omega
    have hdrop : k < (b.toList.drop 8).length := by
      rw [List.length_drop, Vector.length_toList]
      omega
    rw [List.take_succ_eq_append_getElem hlt, List.foldl_append, List.foldl_cons, List.foldl_nil]
    rw [toList_putHex _ hround ?_, List.take_succ_eq_append_getElem hdrop, hexEncode_append, utf8_append]
    · simp
    · rw [List.length_append, length_utf8_hexEncode, htext, List.length_take]
      simp
      omega

/-- The last eight bytes, which are in the same order in the text. -/
theorem drop_toList (b : LoxoneUuid) :
    (b.toList.drop 8).take 8 = [b[8], b[9], b[10], b[11], b[12], b[13], b[14], b[15]] := by
  apply List.ext_getElem
  · simp
  · intro i hi _
    have hlt : i < 8 := by
      rw [List.length_take] at hi
      omega
    interval_cases i <;> simp

/-- The buffer is the text of the digits with their dashes. -/
theorem toList_formatLoxoneBytes (b : LoxoneUuid) :
    b.formatLoxoneBytes.toList = utf8 (dashed (hexEncode (inTextOrder b).toList)) := by
  have hstart : (Vector.replicate loxoneUuidStrLen (45 : UInt8)).toList = [] ++ List.replicate (33 + 2) 45 := rfl
  have h₃ := toList_putHex 0 hstart rfl b[3]
  have h₂ := toList_putHex (n := 31) 2 h₃ (by simp only [List.length_append, length_utf8_hexEncode]; rfl) b[2]
  have h₁ := toList_putHex (n := 29) 4 h₂ (by simp only [List.length_append, length_utf8_hexEncode]; rfl) b[1]
  have h₀ := toList_putHex (n := 27) 6 h₁ (by simp only [List.length_append, length_utf8_hexEncode]; rfl) b[0]
  have h₅ := toList_putHex (n := 24) 9 (keepDash h₀)
    (by simp only [List.length_append, length_utf8_hexEncode]; rfl) b[5]
  have h₄ := toList_putHex (n := 22) 11 h₅ (by simp only [List.length_append, length_utf8_hexEncode]; rfl) b[4]
  have h₇ := toList_putHex (n := 19) 14 (keepDash h₄)
    (by simp only [List.length_append, length_utf8_hexEncode]; rfl) b[7]
  have h₆ := toList_putHex (n := 17) 16 h₇ (by simp only [List.length_append, length_utf8_hexEncode]; rfl) b[6]
  have htail := toList_formatTail b (keepDash h₆) (by simp [length_utf8_hexEncode]) (Nat.le_refl 8)
  rw [List.take_of_length_le (by simp), drop_toList] at htail
  have hdash : utf8 ['-'] = [45] := rfl
  rw [formatLoxoneBytes, htail, ← hdash]
  simp only [← utf8_append, List.nil_append, List.replicate_zero, List.append_nil, Nat.sub_self]
  rfl

theorem formatLoxone_eq (u : LoxoneUuid) : u.formatLoxone = dashed (hexEncode (inTextOrder u).toList) := by
  rw [formatLoxone, formatLoxoneInto, asAscii, toList_formatLoxoneBytes, fromUtf8_utf8, Option.getD_some,
    List.nil_append]

end LoxoneUuid

/-! ## The digits of a text -/

/-- An ASCII hexadecimal digit of either case. -/
def IsHexDigit (c : Char) : Prop := ('0' ≤ c ∧ c ≤ '9') ∨ ('a' ≤ c ∧ c ≤ 'f') ∨ ('A' ≤ c ∧ c ≤ 'F')

theorem isHexDigit_iff {c : Char} : IsHexDigit c ↔ ∃ v, hexValue c = some v := by
  unfold IsHexDigit hexValue
  split_ifs with h₀ h₁ h₂
  · simp [h₀]
  · simp [h₁]
  · simp [h₂]
  · simp [h₀, h₁, h₂]

theorem byte_ascii : ∀ n < 128, ((Char.ofNat n).val.toUInt8 = 45 ↔ Char.ofNat n = '-') ∧
    nibble (Char.ofNat n).val.toUInt8 = (hexValue (Char.ofNat n)).map UInt8.ofNat := by decide

theorem digit_ascii : ∀ n < 128, ∀ v ∈ hexValue (Char.ofNat n), v < 16 ∧ hexDigit v = (Char.ofNat n).toLower := by
  decide

theorem nibble_wide {b : UInt8} (h : 128 ≤ b) : b ≠ 45 ∧ nibble b = none := by
  have hlt (n : UInt8) (hn : n < 128) : ¬ b ≤ n := fun hle =>
    UInt8.lt_irrefl _ (UInt8.lt_of_le_of_lt (UInt8.le_trans h hle) hn)
  refine ⟨fun hb => hlt 45 (by decide) (hb ▸ UInt8.le_refl _), ?_⟩
  rw [nibble, if_neg fun h => hlt 57 (by decide) h.2, if_neg fun h => hlt 102 (by decide) h.2,
    if_neg fun h => hlt 70 (by decide) h.2]

/-- A digit is ASCII. -/
theorem toNat_of_hexValue {c : Char} {v : Nat} (h : hexValue c = some v) : c.toNat < 128 := by
  have hle {d : Char} (hd : c ≤ d) (h128 : d.toNat < 128) : c.toNat < 128 :=
    Nat.lt_of_le_of_lt (UInt32.le_iff_toNat_le.mp hd) h128
  rcases isHexDigit_iff.mpr ⟨v, h⟩ with hc | hc | hc
  · exact hle hc.2 (by decide)
  · exact hle hc.2 (by decide)
  · exact hle hc.2 (by decide)

/-- The digit that is written for the value of one. -/
theorem hexDigit_hexValue {c : Char} {v : Nat} (h : hexValue c = some v) : v < 16 ∧ hexDigit v = c.toLower := by
  have hn := digit_ascii c.toNat (toNat_of_hexValue h) v
  rw [Char.ofNat_toNat] at hn
  exact hn h

theorem digit_lower : ∀ n < 128, (hexValue (Char.ofNat n).toLower).isSome → (hexValue (Char.ofNat n)).isSome := by
  decide

theorem isHexDigit_of_toLower {c : Char} (h : IsHexDigit c.toLower) : IsHexDigit c := by
  by_cases hc : c.toNat < 128
  · have hn := digit_lower c.toNat hc
    rw [Char.ofNat_toNat, Option.isSome_iff_exists, Option.isSome_iff_exists] at hn
    exact isHexDigit_iff.mpr (hn (isHexDigit_iff.mp h))
  · -- only ASCII letters have another case
    have hle : ¬ c.val ≤ 'Z'.val := fun hle => hc (Nat.lt_of_le_of_lt (UInt32.le_iff_toNat_le.mp hle) (by decide))
    have hsame : c.toLower = c := dif_neg fun h => hle h.2
    rwa [hsame] at h

theorem utf8_cons (c : Char) (s : Str) : utf8 (c :: s) = String.utf8EncodeChar c ++ utf8 s := List.flatMap_cons

namespace LoxoneUuid

/-- The text without its dashes. -/
def digits (s : Str) : Str := s.filter (· ≠ '-')

/-- `raw` after one more digit. -/
def packed (raw : Vector UInt8 16) (n : Nat) (h : n < 32) (v : UInt8) : Vector UInt8 16 :=
  raw.set (n / 2) (if n % 2 = 0 then v <<< 4 else raw[n / 2] ||| v)

theorem parseLoop_dash (s : Str) (raw : Vector UInt8 16) (n : Nat) :
    parseLoop (utf8 ('-' :: s)) raw n = parseLoop (utf8 s) raw n := rfl

theorem parseLoop_digit {c : Char} {v : Nat} (hv : hexValue c = some v) (s : Str) (raw : Vector UInt8 16) {n : Nat}
    (hn : n < 32) :
    parseLoop (utf8 (c :: s)) raw n = parseLoop (utf8 s) (packed raw n hn (UInt8.ofNat v)) (n + 1) := by
  have hc := toNat_of_hexValue hv
  obtain ⟨hdash, hnibble⟩ := byte_ascii c.toNat hc
  rw [Char.ofNat_toNat] at hdash hnibble
  have hne : c ≠ '-' := by
    rintro rfl
    cases hv
  rw [utf8_cons, utf8EncodeChar_ascii hc, List.singleton_append, parseLoop, if_neg fun h => hne (hdash.mp h), hnibble,
    hv]
  exact dif_neg (Nat.not_le.mpr hn)

/-- A character that is no digit, or one too many, is an error. -/
theorem parseLoop_fails {c : Char} (hne : c ≠ '-') (s : Str) (raw : Vector UInt8 16) {n : Nat}
    (h : hexValue c = none ∨ 32 ≤ n) : ∃ e, parseLoop (utf8 (c :: s)) raw n = .error e := by
  by_cases hc : c.toNat < 128
  · obtain ⟨hdash, hnibble⟩ := byte_ascii c.toNat hc
    rw [Char.ofNat_toNat] at hdash hnibble
    rw [utf8_cons, utf8EncodeChar_ascii hc, List.singleton_append, parseLoop, if_neg fun h => hne (hdash.mp h), hnibble]
    cases hv : hexValue c with
    | none => exact ⟨_, rfl⟩
    | some v =>
      rcases h with h | h
      · rw [hv] at h
        cases h
      · exact ⟨_, dif_pos h⟩
  · have hwide := utf8EncodeChar_wide (Nat.le_of_not_lt hc)
    rw [utf8_cons]
    rcases hb : String.utf8EncodeChar c with _ | ⟨b, rest⟩
    · simp at hb
    · have hb128 : 128 ≤ b := hwide b (by rw [hb]; exact List.mem_cons_self)
      obtain ⟨hdash, hnibble⟩ := nibble_wide hb128
      rw [List.cons_append, parseLoop, if_neg hdash, hnibble]
      exact ⟨_, rfl⟩

/-- `raw` holds the digits `vs`, two to a byte; a last one that is alone is the higher half. -/
def Packs (raw : Vector UInt8 16) (vs : List Nat) : Prop :=
  ∀ k (hk : k < 16), 2 * k < vs.length → raw[k] = UInt8.ofNat (16 * vs.getD (2 * k) 0 + vs.getD (2 * k + 1) 0)

theorem shift_digit : ∀ v < 16, UInt8.ofNat v <<< 4 = UInt8.ofNat (16 * v) := by decide

theorem join_digits : ∀ v < 16, ∀ w < 16, UInt8.ofNat (16 * v) ||| UInt8.ofNat w = UInt8.ofNat (16 * v + w) := by decide

/-- One more digit is packed. -/
theorem Packs.packed {raw : Vector UInt8 16} {vs : List Nat} (h : Packs raw vs) (hn : vs.length < 32)
    (hvs : ∀ w ∈ vs, w < 16) {v : Nat} (hv : v < 16) :
    Packs (packed raw vs.length hn (UInt8.ofNat v)) (vs ++ [v]) := by
  intro k hk hlt
  rw [List.length_append, List.length_singleton] at hlt
  rw [LoxoneUuid.packed, Vector.getElem_set]
  by_cases heq : vs.length / 2 = k
  · rw [if_pos heq]
    by_cases heven : vs.length % 2 = 0
    · -- the digit begins a byte
      have hk2 : 2 * k = vs.length := by omega
      have hnext : (vs ++ [v]).getD (2 * k + 1) 0 = 0 := List.getD_eq_default _ _ (by simp; omega)
      rw [if_pos heven, shift_digit v hv, hnext, List.getD_append_right _ _ _ _ (by omega)]
      simp [hk2]
    · -- the digit ends a byte
      have hk2 : 2 * k + 1 = vs.length := by omega
      have hw : vs.getD (2 * k) 0 < 16 := by
        rw [List.getD_eq_getElem _ _ (by omega)]
        exact hvs _ (List.getElem_mem _)
      have hhalf := h k hk (by omega)
      rw [List.getD_eq_default (n := 2 * k + 1) vs 0 (by omega), Nat.add_zero] at hhalf
      simp only [if_neg heven, heq, hhalf]
      rw [join_digits _ hw _ hv, List.getD_append _ _ _ _ (by omega), List.getD_append_right _ _ _ _ (by omega)]
      simp [hk2]
  · rw [if_neg heq, h k hk (by omega), List.getD_append _ _ _ _ (by omega), List.getD_append _ _ _ _ (by omega)]

/-- The value of a digit. -/
def value (c : Char) : Nat := (hexValue c).getD 0

theorem digits_cons {c : Char} (hne : c ≠ '-') (s : Str) : digits (c :: s) = c :: digits s :=
  List.filter_cons_of_pos (by simpa using hne)

/-- A text of at most 32 digits is packed. -/
theorem parseLoop_digits {s : Str} (hs : ∀ c ∈ digits s, IsHexDigit c) {raw : Vector UInt8 16} {vs : List Nat}
    (h : Packs raw vs) (hvs : ∀ w ∈ vs, w < 16) (hlen : vs.length + (digits s).length ≤ 32) :
    ∃ raw', parseLoop (utf8 s) raw vs.length = .ok (raw', vs.length + (digits s).length) ∧
      Packs raw' (vs ++ (digits s).map value) := by
  induction s generalizing raw vs with
  | nil => exact ⟨raw, rfl, by simpa [digits] using h⟩
  | cons c s ih =>
    by_cases hc : c = '-'
    · subst hc
      rw [parseLoop_dash]
      exact ih hs h hvs hlen
    · rw [digits_cons hc] at hs hlen ⊢
      rw [List.forall_mem_cons] at hs
      rw [List.length_cons] at hlen
      obtain ⟨v, hv⟩ := isHexDigit_iff.mp hs.1
      have hv16 := (hexDigit_hexValue hv).1
      have hlt : vs.length < 32 := by omega
      obtain ⟨raw', hloop, hraw⟩ := ih hs.2 (h.packed hlt hvs hv16)
        (by simpa [or_imp, forall_and] using ⟨hvs, hv16⟩) (by simp; omega)
      refine ⟨raw', ?_, ?_⟩
      · rw [parseLoop_digit hv s raw hlt]
        simpa [Nat.add_assoc, Nat.add_comm] using hloop
      · simpa [value, hv] using hraw

/-- Any other text is an error. -/
theorem parseLoop_error {s : Str} {n : Nat} (hs : ¬ ((∀ c ∈ digits s, IsHexDigit c) ∧ n + (digits s).length ≤ 32))
    (hn : n ≤ 32) (raw : Vector UInt8 16) : ∃ e, parseLoop (utf8 s) raw n = .error e := by
  induction s generalizing raw n with
  | nil => exact absurd ⟨by simp [digits], by simpa [digits] using hn⟩ hs
  | cons c s ih =>
    by_cases hc : c = '-'
    · subst hc
      rw [parseLoop_dash]
      exact ih hs hn raw
    · rw [digits_cons hc, List.forall_mem_cons, List.length_cons] at hs
      by_cases hfail : hexValue c = none ∨ 32 ≤ n
      · exact parseLoop_fails hc s raw hfail
      · rw [not_or, Nat.not_le] at hfail
        obtain ⟨v, hv⟩ := Option.ne_none_iff_exists'.mp hfail.1
        rw [parseLoop_digit hv s raw hfail.2]
        refine ih (fun h => hs ⟨⟨isHexDigit_iff.mpr ⟨v, hv⟩, h.1⟩, by omega⟩) hfail.2 _

/-- Bytes that pack digits are written as these digits. -/
theorem hexEncode_packed {b : Bytes} {vs : List Nat} (hlen : vs.length = 2 * b.length) (hvs : ∀ w ∈ vs, w < 16)
    (h : ∀ k (hk : k < b.length), b[k] = UInt8.ofNat (16 * vs.getD (2 * k) 0 + vs.getD (2 * k + 1) 0)) :
    hexEncode b = vs.map hexDigit := by
  induction b generalizing vs with
  | nil =>
    rw [List.length_nil, Nat.mul_zero, List.length_eq_zero_iff] at hlen
    rw [hlen]
    rfl
  | cons x b ih =>
    rcases vs with _ | ⟨v, _ | ⟨w, vs⟩⟩
    · simp at hlen
    · simp only [List.length_cons, List.length_nil] at hlen
      omega
    · simp only [List.length_cons] at hlen
      simp only [List.forall_mem_cons] at hvs
      obtain ⟨hv, hw, hvs⟩ := hvs
      have hx : x.toNat = 16 * v + w := by
        have h₀ := h 0 (by simp)
        simp only [List.getElem_cons_zero, Nat.mul_zero, List.getD_cons_zero, Nat.zero_add, List.getD_cons_succ] at h₀
        rw [h₀, UInt8.toNat_ofNat']
        omega
      have hb := ih (by omega) hvs fun k hk => by
        have hk1 := h (k + 1) (by simpa using hk)
        simpa [Nat.mul_add] using hk1
      rw [hexEncode] at hb ⊢
      rw [List.flatMap_cons, hb, hx, show (16 * v + w) / 16 = v by omega, show (16 * v + w) % 16 = w by omega]
      rfl

theorem inTextOrder_inTextOrder (b : Vector UInt8 16) : inTextOrder (inTextOrder b) = b := by
  ext i hi
  interval_cases i <;> rfl

/-- A text of 32 digits is parsed to the bytes that are written as these digits. -/
theorem parse_digits {s : Str} (hs : ∀ c ∈ digits s, IsHexDigit c) (hlen : (digits s).length = 32) :
    ∃ u, parse s = .ok u ∧ hexEncode (inTextOrder u).toList = (digits s).map Char.toLower := by
  have hstart : Packs (Vector.replicate 16 0) [] := fun k _ hlt => absurd hlt (Nat.not_lt_zero _)
  obtain ⟨raw, hloop, hraw⟩ := parseLoop_digits hs hstart (by simp) (by simp [hlen])
  rw [List.length_nil, Nat.zero_add, hlen] at hloop
  rw [List.nil_append] at hraw
  have hvalue : ∀ w ∈ (digits s).map value, w < 16 := by
    intro w hw
    obtain ⟨c, hc, rfl⟩ := List.mem_map.mp hw
    obtain ⟨v, hv⟩ := isHexDigit_iff.mp (hs c hc)
    rw [value, hv]
    exact (hexDigit_hexValue hv).1
  have hlower : ((digits s).map value).map hexDigit = (digits s).map Char.toLower := by
    rw [List.map_map]
    refine List.map_congr_left fun c hc => ?_
    obtain ⟨v, hv⟩ := isHexDigit_iff.mp (hs c hc)
    rw [Function.comp_apply, value, hv]
    exact (hexDigit_hexValue hv).2
  refine ⟨inTextOrder raw, ?_, ?_⟩
  · rw [parse, hloop]
    rfl
  · rw [inTextOrder_inTextOrder, ← hlower]
    refine hexEncode_packed (by simp [hlen]) hvalue fun k hk => ?_
    rw [Vector.length_toList] at hk
    have hbyte := hraw k hk (by rw [List.length_map]; omega)
    simpa using hbyte

/-- Any other text is not parsed. -/
theorem parse_error {s : Str} (h : ¬ ((digits s).length = 32 ∧ ∀ c ∈ digits s, IsHexDigit c)) :
    ∃ e, parse s = .error e := by
  by_cases hs : (∀ c ∈ digits s, IsHexDigit c) ∧ 0 + (digits s).length ≤ 32
  · have hstart : Packs (Vector.replicate 16 0) [] := fun k _ hlt => absurd hlt (Nat.not_lt_zero _)
    obtain ⟨raw, hloop, -⟩ := parseLoop_digits hs.1 hstart (by simp) (by simpa using hs.2)
    rw [List.length_nil, Nat.zero_add] at hloop
    have hlen : (digits s).length ≠ 32 := fun hlen => h ⟨hlen, hs.1⟩
    refine ⟨.invalidUuid ("expected 32 hex digits, got ".toList ++ Error.decimal (digits s).length), ?_⟩
    rw [parse, hloop]
    exact if_pos hlen
  · obtain ⟨e, he⟩ := parseLoop_error hs (by decide) (Vector.replicate 16 0)
    exact ⟨e, by rw [parse, he]; rfl⟩

/-- The texts that are parsed, and what they are parsed to. -/
theorem parse_eq_ok_iff {s : Str} {u : LoxoneUuid} : parse s = .ok u ↔
    ((digits s).length = 32 ∧ ∀ c ∈ digits s, IsHexDigit c) ∧
      hexEncode (inTextOrder u).toList = (digits s).map Char.toLower := by
  by_cases hs : (digits s).length = 32 ∧ ∀ c ∈ digits s, IsHexDigit c
  · obtain ⟨u', hparse, hdigits⟩ := parse_digits hs.2 hs.1
    rw [hparse]
    refine ⟨fun h => ?_, fun h => ?_⟩
    · cases h
      exact ⟨hs, hdigits⟩
    · have hbytes := Vector.toList_inj.mp (hexEncode_injective (hdigits.trans h.2.symm))
      rw [← inTextOrder_inTextOrder u', hbytes, inTextOrder_inTextOrder]
  · obtain ⟨e, he⟩ := parse_error hs
    rw [he]
    exact iff_of_false nofun fun h => hs h.1

/-! ## Both ways -/

theorem digits_dashed {d : Str} (h : '-' ∉ d) : digits (dashed d) = d := by
  have hkeep {t : Str} (ht : t ⊆ d) : t.filter (· ≠ '-') = t := by
    refine List.filter_eq_self.mpr fun c hc => ?_
    have hne : c ≠ '-' := fun hdash => h (hdash ▸ ht hc)
    simpa using hne
  have htake (n m : Nat) : (d.drop n).take m ⊆ d := fun c hc => List.mem_of_mem_drop (List.mem_of_mem_take hc)
  have hdash : ['-'].filter (· ≠ '-') = [] := rfl
  simp only [digits, dashed, List.filter_append, hdash, List.append_nil, hkeep (htake 8 4), hkeep (htake 12 4),
    hkeep (List.take_subset 8 d), hkeep (List.drop_subset 16 d)]
  calc d.take 8 ++ (d.drop 8).take 4 ++ (d.drop 12).take 4 ++ d.drop 16
      = d.take 8 ++ ((d.drop 8).take 4 ++ ((d.drop 12).take 4 ++ (d.drop 12).drop 4)) := by
        simp only [List.append_assoc, List.drop_drop]
    _ = d.take 8 ++ ((d.drop 8).take 4 ++ (d.drop 8).drop 4) := by rw [List.take_append_drop, List.drop_drop]
    _ = d := by rw [List.take_append_drop, List.take_append_drop]

theorem isHexDigit_hexEncode {b : Bytes} : ∀ c ∈ hexEncode b, IsHexDigit c ∧ c.toLower = c := by
  have hdigit : "0123456789abcdef".toList.all (fun c => (hexValue c).isSome ∧ c.toLower = c) = true := by decide
  intro c hc
  obtain ⟨hsome, hlower⟩ := of_decide_eq_true (List.all_eq_true.mp hdigit c (mem_hexEncode hc))
  exact ⟨isHexDigit_iff.mpr (Option.isSome_iff_exists.mp hsome), hlower⟩

theorem digits_formatLoxone (u : LoxoneUuid) : digits u.formatLoxone = hexEncode (inTextOrder u).toList := by
  rw [formatLoxone_eq, digits_dashed (not_mem_hexEncode (by decide))]

/-- What is written is parsed. -/
theorem parse_formatLoxone (u : LoxoneUuid) : parse u.formatLoxone = .ok u := by
  rw [parse_eq_ok_iff, digits_formatLoxone]
  refine ⟨⟨by simp [length_hexEncode], fun c hc => (isHexDigit_hexEncode c hc).1⟩, ?_⟩
  rw [List.map_congr_left fun c hc => (isHexDigit_hexEncode c hc).2, List.map_id']

theorem formatLoxone_injective : Function.Injective formatLoxone := fun u v h => by
  have hparse := congrArg parse h
  rw [parse_formatLoxone, parse_formatLoxone] at hparse
  exact Except.ok.inj hparse

/-- Exactly the texts of 32 digits are parsed, wherever their dashes are, and what
is parsed is written as these digits in lower case; what is written is parsed to
itself. So texts mean the same UUID if and only if they have the same digits, and
no two UUIDs are written alike. -/
theorem uuid_text_exact :
    (∀ s, (∃ u, parse s = .ok u) ↔ (digits s).length = 32 ∧ ∀ c ∈ digits s, IsHexDigit c) ∧
      (∀ s u, parse s = .ok u → u.formatLoxone = dashed ((digits s).map Char.toLower)) ∧
      (∀ u : LoxoneUuid, parse u.formatLoxone = .ok u) ∧
      (∀ s₁ s₂ u, parse s₁ = .ok u →
        (parse s₂ = .ok u ↔ (digits s₂).map Char.toLower = (digits s₁).map Char.toLower)) ∧
      Function.Injective formatLoxone := by
  refine ⟨fun s => ⟨fun ⟨u, hu⟩ => (parse_eq_ok_iff.mp hu).1, fun hs => ?_⟩, fun s u hu => ?_, parse_formatLoxone,
    fun s₁ s₂ u h₁ => ⟨fun h₂ => ?_, fun h => ?_⟩, formatLoxone_injective⟩
  · obtain ⟨u, hu, -⟩ := parse_digits hs.2 hs.1
    exact ⟨u, hu⟩
  · rw [formatLoxone_eq, (parse_eq_ok_iff.mp hu).2]
  · rw [← (parse_eq_ok_iff.mp h₁).2, (parse_eq_ok_iff.mp h₂).2]
  · obtain ⟨⟨hlen, hhex⟩, hdigits⟩ := parse_eq_ok_iff.mp h₁
    refine parse_eq_ok_iff.mpr ⟨⟨?_, ?_⟩, hdigits.trans h.symm⟩
    · have hlen₂ := congrArg List.length h
      rwa [List.length_map, List.length_map, hlen] at hlen₂
    · intro c hc
      refine isHexDigit_of_toLower (isHexDigit_hexEncode (b := (inTextOrder u).toList) _ ?_).1
      rw [hdigits, ← h]
      exact List.mem_map_of_mem hc

end LoxoneUuid

end Lox
