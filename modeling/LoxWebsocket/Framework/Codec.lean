import LoxWebsocket.Framework.Text
import Mathlib.Tactic.Linarith

/-!
# Codecs: hexadecimal, Base64, percent-encoding

The three text encodings of bytes, each with the decoder that inverts it:

* `hexEncode`, `hexDecode`: two lower-case digits a byte (`hexDecode_encode`);
* `b64Encode`, `b64Decode`: standard Base64 with canonical padding
  (`b64Decode_encode`); its length is `4⌈n/3⌉` (`length_b64Encode`), and its
  characters are the alphabet's and `=` (`mem_b64Encode`);
* `percentEncode`, `percentDecode`: everything but ASCII letters and digits
  escaped, on the UTF-8 bytes of a text (`percentDecode_encode`).
-/

namespace Lox

/-! ## Hexadecimal -/

def hexDigit (n : Nat) : Char := "0123456789abcdef".toList.getD n '0'

def hexEncode (b : Bytes) : Str := b.flatMap fun x => [hexDigit (x.toNat / 16), hexDigit (x.toNat % 16)]

/-- The value of a hexadecimal digit of either case. -/
def hexValue (c : Char) : Option Nat :=
  if '0' ≤ c ∧ c ≤ '9' then some (c.toNat - 48)
  else if 'a' ≤ c ∧ c ≤ 'f' then some (c.toNat - 87)
  else if 'A' ≤ c ∧ c ≤ 'F' then some (c.toNat - 55)
  else none

def hexDecode : Str → Option Bytes
  | [] => some []
  | [_] => none
  | h :: l :: s => do
    let x ← hexValue h
    let y ← hexValue l
    let b ← hexDecode s
    return UInt8.ofNat (16 * x + y) :: b

theorem length_hexEncode (b : Bytes) : (hexEncode b).length = 2 * b.length := by
  induction b with
  | nil => rfl
  | cons x b ih =>
    simp only [hexEncode, List.flatMap_cons, List.length_append, List.length_cons, List.length_nil]
      at ih ⊢
    omega

theorem mem_hexEncode {b : Bytes} {c : Char} (h : c ∈ hexEncode b) :
    c ∈ "0123456789abcdef".toList := by
  have key : ∀ n < 16, hexDigit n ∈ "0123456789abcdef".toList := by decide
  simp only [hexEncode, List.mem_flatMap, List.mem_cons, List.not_mem_nil, or_false] at h
  obtain ⟨x, -, rfl | rfl⟩ := h
  · exact key _ (by have := x.toNat_lt; omega)
  · exact key _ (by omega)

/-- A character that is no hexadecimal digit does not occur. -/
theorem not_mem_hexEncode {b : Bytes} {c : Char} (h : c ∉ "0123456789abcdef".toList) :
    c ∉ hexEncode b := fun hc => h (mem_hexEncode hc)

theorem hexValue_digit : ∀ n < 16, hexValue (hexDigit n) = some n := by decide

theorem hexDecode_encode (b : Bytes) : hexDecode (hexEncode b) = some b := by
  induction b with
  | nil => rfl
  | cons x b ih =>
    have hx := x.toNat_lt
    have hcons : hexEncode (x :: b) = hexDigit (x.toNat / 16) :: hexDigit (x.toNat % 16) :: hexEncode b := rfl
    rw [hcons, hexDecode, hexValue_digit _ (by omega), hexValue_digit _ (by omega), ih]
    simp only [Option.bind_eq_bind, Option.bind_some, Option.pure_def]
    rw [Nat.div_add_mod, UInt8.ofNat_toNat]

theorem hexEncode_injective : Function.Injective hexEncode := fun a b h => by
  have hdecode := congrArg hexDecode h
  rw [hexDecode_encode, hexDecode_encode] at hdecode
  exact Option.some.inj hdecode

/-! ## Base64 -/

def b64Alphabet : Str := "ABCDEFGHIJKLMNOPQRSTUVWXYZabcdefghijklmnopqrstuvwxyz0123456789+/".toList

def b64Char (n : Nat) : Char := b64Alphabet.getD n 'A'

def b64Value (c : Char) : Option Nat := b64Alphabet.idxOf? c

def b64Encode : Bytes → Str
  | [] => []
  | [a] => [b64Char (a.toNat / 4), b64Char (a.toNat % 4 * 16), '=', '=']
  | [a, b] => [b64Char (a.toNat / 4), b64Char (a.toNat % 4 * 16 + b.toNat / 16),
      b64Char (b.toNat % 16 * 4), '=']
  | a :: b :: c :: l => b64Char (a.toNat / 4) :: b64Char (a.toNat % 4 * 16 + b.toNat / 16) ::
      b64Char (b.toNat % 16 * 4 + c.toNat / 64) :: b64Char (c.toNat % 64) :: b64Encode l

/-- Groups of four; `=` is allowed only in the last, and the bits it leaves
over are zero. -/
def b64Decode : Str → Option Bytes
  | [] => some []
  | w :: x :: y :: z :: s =>
    if s = [] ∧ z = '=' then
      if y = '=' then do
        let p ← b64Value w
        let q ← b64Value x
        if q % 16 = 0 then some [UInt8.ofNat (p * 4 + q / 16)] else none
      else do
        let p ← b64Value w
        let q ← b64Value x
        let r ← b64Value y
        if r % 4 = 0 then some [UInt8.ofNat (p * 4 + q / 16), UInt8.ofNat (q % 16 * 16 + r / 4)]
        else none
    else do
      let p ← b64Value w
      let q ← b64Value x
      let r ← b64Value y
      let t ← b64Value z
      let l ← b64Decode s
      return UInt8.ofNat (p * 4 + q / 16) :: UInt8.ofNat (q % 16 * 16 + r / 4) ::
        UInt8.ofNat (r % 4 * 64 + t) :: l
  | _ => none

theorem b64Value_char : ∀ n < 64, b64Value (b64Char n) = some n := by decide +kernel

theorem b64Char_ne_pad : ∀ n < 64, b64Char n ≠ '=' := by decide +kernel

theorem b64Char_mem : ∀ n < 64, b64Char n ∈ b64Alphabet := by decide +kernel

theorem ofNat_toNat_eq {x : UInt8} {n : Nat} (h : n = x.toNat) : UInt8.ofNat n = x := by
  rw [h, UInt8.ofNat_toNat]

theorem b64Decode_encode (l : Bytes) : b64Decode (b64Encode l) = some l := by
  induction l using b64Encode.induct with
  | case1 => rfl
  | case2 a =>
    have ha := a.toNat_lt
    rw [b64Encode, b64Decode, if_pos ⟨rfl, rfl⟩, if_pos rfl, b64Value_char _ (by omega),
      b64Value_char _ (by omega)]
    simp only [Option.bind_eq_bind, Option.bind_some]
    rw [if_pos (by omega), ofNat_toNat_eq (x := a) (by omega)]
  | case3 a b =>
    have ha := a.toNat_lt; have hb := b.toNat_lt
    rw [b64Encode, b64Decode, if_pos ⟨rfl, rfl⟩, if_neg (b64Char_ne_pad _ (by omega)),
      b64Value_char _ (by omega), b64Value_char _ (by omega), b64Value_char _ (by omega)]
    simp only [Option.bind_eq_bind, Option.bind_some]
    rw [if_pos (by omega), ofNat_toNat_eq (x := a) (by omega), ofNat_toNat_eq (x := b) (by omega)]
  | case4 a b c l ih =>
    have ha := a.toNat_lt; have hb := b.toNat_lt; have hc := c.toNat_lt
    rw [b64Encode, b64Decode, if_neg fun h => b64Char_ne_pad _ (by omega) h.2,
      b64Value_char _ (by omega), b64Value_char _ (by omega), b64Value_char _ (by omega),
      b64Value_char _ (by omega), ih]
    simp only [Option.bind_eq_bind, Option.bind_some, Option.pure_def]
    rw [ofNat_toNat_eq (x := a) (by omega), ofNat_toNat_eq (x := b) (by omega),
      ofNat_toNat_eq (x := c) (by omega)]

theorem b64_lt {c : Char} (h : c ∈ b64Alphabet ∨ c = '=') : c.toNat < 128 := by
  have key : (b64Alphabet ++ ['=']).all (fun c => decide (c.toNat < 128)) = true := by decide +kernel
  exact of_decide_eq_true (List.all_eq_true.mp key c (by simpa using h))

/-- Only characters of the alphabet and padding are decoded. -/
theorem mem_of_b64Decode {s : Str} {b : Bytes} (h : b64Decode s = some b) : ∀ c ∈ s, c ∈ b64Alphabet ∨ c = '=' := by
  have hmem {c : Char} {n : Nat} (hc : b64Value c = some n) : c ∈ b64Alphabet := by
    rw [b64Value] at hc
    by_contra hnot
    rw [List.idxOf?_eq_none_iff.mpr hnot] at hc
    cases hc
  induction s using b64Decode.induct generalizing b with
  | case1 => simp
  | case2 w x z s hlast =>
    obtain ⟨rfl, rfl⟩ := hlast
    rw [b64Decode, if_pos ⟨rfl, rfl⟩, if_pos rfl] at h
    simp only [Option.bind_eq_bind, Option.bind_eq_some_iff] at h
    obtain ⟨p, hw, q, hx, -⟩ := h
    simp [hmem hw, hmem hx]
  | case3 w x y z s hlast hpad =>
    obtain ⟨rfl, rfl⟩ := hlast
    rw [b64Decode, if_pos ⟨rfl, rfl⟩, if_neg hpad] at h
    simp only [Option.bind_eq_bind, Option.bind_eq_some_iff] at h
    obtain ⟨p, hw, q, hx, r, hy, -⟩ := h
    simp [hmem hw, hmem hx, hmem hy]
  | case4 w x y z s hlast ih =>
    rw [b64Decode, if_neg hlast] at h
    simp only [Option.bind_eq_bind, Option.bind_eq_some_iff] at h
    obtain ⟨p, hw, q, hx, r, hy, t, hz, l, hl, -⟩ := h
    simp only [List.forall_mem_cons]
    exact ⟨.inl (hmem hw), .inl (hmem hx), .inl (hmem hy), .inl (hmem hz), ih hl⟩
  | case5 s hnil hcons => simp [b64Decode] at h

theorem length_b64Encode (l : Bytes) : (b64Encode l).length = (l.length + 2) / 3 * 4 := by
  induction l using b64Encode.induct with
  | case1 => rfl
  | case2 a => simp [b64Encode]
  | case3 a b => simp [b64Encode]
  | case4 a b c l ih => simp only [b64Encode, List.length_cons, ih]; omega

theorem mem_b64Encode {l : Bytes} {x : Char} (h : x ∈ b64Encode l) : x ∈ b64Alphabet ∨ x = '=' := by
  induction l using b64Encode.induct with
  | case1 => cases h
  | case2 a =>
    have ha := a.toNat_lt
    simp only [b64Encode, List.mem_cons, List.not_mem_nil, or_false] at h
    rcases h with rfl | rfl | h | h
    · exact .inl (b64Char_mem _ (by omega))
    · exact .inl (b64Char_mem _ (by omega))
    · exact .inr h
    · exact .inr h
  | case3 a b =>
    have ha := a.toNat_lt; have hb := b.toNat_lt
    simp only [b64Encode, List.mem_cons, List.not_mem_nil, or_false] at h
    rcases h with rfl | rfl | rfl | h
    · exact .inl (b64Char_mem _ (by omega))
    · exact .inl (b64Char_mem _ (by omega))
    · exact .inl (b64Char_mem _ (by omega))
    · exact .inr h
  | case4 a b c l ih =>
    have ha := a.toNat_lt; have hb := b.toNat_lt; have hc := c.toNat_lt
    simp only [b64Encode, List.mem_cons] at h
    rcases h with rfl | rfl | rfl | rfl | h
    · exact .inl (b64Char_mem _ (by omega))
    · exact .inl (b64Char_mem _ (by omega))
    · exact .inl (b64Char_mem _ (by omega))
    · exact .inl (b64Char_mem _ (by omega))
    · exact ih h

/-! ## Percent-encoding -/

def upperHexDigit (n : Nat) : Char := "0123456789ABCDEF".toList.getD n '0'

def percentEncodeByte (b : UInt8) : Str :=
  ['%', upperHexDigit (b.toNat / 16), upperHexDigit (b.toNat % 16)]

/-- Everything but ASCII letters and digits is escaped, byte by byte. -/
def percentEncode (s : Str) : Str :=
  s.flatMap fun c => if c.isAlphanum then [c] else (String.utf8EncodeChar c).flatMap percentEncodeByte

/-- The value of a byte that is a hexadecimal digit in ASCII. -/
def hexByteValue (b : UInt8) : Option Nat := hexValue (Char.ofNat b.toNat)

/-- A `%` that two hexadecimal digits do not follow stands for itself. -/
def percentDecode : Bytes → Bytes
  | [] => []
  | [a] => [a]
  | [a, b] => [a, b]
  | a :: b :: c :: l =>
    if a = 37 then
      match hexByteValue b, hexByteValue c with
      | some x, some y => UInt8.ofNat (16 * x + y) :: percentDecode l
      | _, _ => a :: percentDecode (b :: c :: l)
    else a :: percentDecode (b :: c :: l)

theorem percentDecode_cons {a : UInt8} (h : a ≠ 37) (l : Bytes) :
    percentDecode (a :: l) = a :: percentDecode l := by
  match l with
  | [] => rfl
  | [_] => rfl
  | _ :: _ :: _ => rw [percentDecode, if_neg h]

theorem percentDecode_escape (b : UInt8) (l : Bytes) :
    percentDecode (utf8 (percentEncodeByte b) ++ l) = b :: percentDecode l := by
  have hd : ∀ n < 16, utf8 [upperHexDigit n] = [(upperHexDigit n).val.toUInt8] ∧
      hexByteValue (upperHexDigit n).val.toUInt8 = some n := by decide
  have hb := b.toNat_lt
  have e : percentEncodeByte b =
      ['%'] ++ [upperHexDigit (b.toNat / 16)] ++ [upperHexDigit (b.toNat % 16)] := rfl
  obtain ⟨e₁, v₁⟩ := hd (b.toNat / 16) (by omega)
  obtain ⟨e₂, v₂⟩ := hd (b.toNat % 16) (by omega)
  rw [e, utf8_append, utf8_append, e₁, e₂, show utf8 ['%'] = [37] from rfl]
  simp only [List.cons_append, List.nil_append]
  rw [percentDecode, if_pos rfl, v₁, v₂]
  simp only
  rw [ofNat_toNat_eq (x := b) (by omega)]

theorem percentDecode_escapes (b l : Bytes) :
    percentDecode (utf8 (b.flatMap percentEncodeByte) ++ l) = b ++ percentDecode l := by
  induction b with
  | nil => rfl
  | cons x b ih =>
    rw [List.flatMap_cons, utf8_append, List.append_assoc, percentDecode_escape, ih,
      List.cons_append]

theorem isAlphanum_lt {c : Char} (h : c.isAlphanum = true) : c.toNat < 128 := by
  change (decide ('A'.val ≤ c.val ∧ c.val ≤ 'Z'.val) || (decide ('a'.val ≤ c.val) && decide (c.val ≤ 'z'.val)) ||
    (decide ('0'.val ≤ c.val) && decide (c.val ≤ '9'.val))) = true at h
  simp only [Bool.or_eq_true, Bool.and_eq_true, decide_eq_true_eq] at h
  rcases h with (⟨-, h⟩ | ⟨-, h⟩) | ⟨-, h⟩ <;>
  · have h' : c.val.toNat ≤ _ := UInt32.le_iff_toNat_le.mp h
    exact Nat.lt_of_le_of_lt h' (by decide)

/-- The bytes of a text come back from its escaped form, and what follows is decoded on its own. -/
theorem percentDecode_encode_append (s : Str) (l : Bytes) :
    percentDecode (utf8 (percentEncode s) ++ l) = utf8 s ++ percentDecode l := by
  induction s with
  | nil => rfl
  | cons c s ih =>
    rw [show percentEncode (c :: s) =
      (if c.isAlphanum then [c] else (String.utf8EncodeChar c).flatMap percentEncodeByte) ++
        percentEncode s from rfl, utf8_append, show utf8 (c :: s) = utf8 [c] ++ utf8 s by simp [utf8],
      List.append_assoc, List.append_assoc]
    split
    · rename_i hc
      have e : utf8 [c] = [c.val.toUInt8] := by
        simp [utf8, utf8EncodeChar_ascii (isAlphanum_lt hc)]
      have hne : c.val.toUInt8 ≠ 37 := by
        intro h37
        have hlt := isAlphanum_lt hc
        have hv : c.val.toNat = 37 := by
          have := congrArg UInt8.toNat h37
          simp only [UInt32.toNat_toUInt8] at this
          have hlt' : c.val.toNat < 128 := hlt
          have h37' : (37 : UInt8).toNat = 37 := rfl
          omega
        have : c = '%' := Char.ext (UInt32.toNat_inj.mp hv)
        subst this
        exact absurd hc (by decide)
      rw [e, List.singleton_append, percentDecode_cons hne, ih, List.singleton_append]
    · rw [percentDecode_escapes, ih]
      simp [utf8]

theorem percentDecode_encode (s : Str) : percentDecode (utf8 (percentEncode s)) = utf8 s := by
  have h := percentDecode_encode_append s []
  rwa [List.append_nil, percentDecode, List.append_nil] at h

theorem percentDecode_of_notMem {l : Bytes} (h : 37 ∉ l) : percentDecode l = l := by
  induction l with
  | nil => rfl
  | cons a l ih =>
    rw [List.mem_cons, not_or] at h
    rw [percentDecode_cons (Ne.symm h.1), ih h.2]

theorem isAlphanum_ge {c : Char} (h : c.isAlphanum = true) : 48 ≤ c.toNat := by
  change (decide ('A'.val ≤ c.val ∧ c.val ≤ 'Z'.val) || (decide ('a'.val ≤ c.val) && decide (c.val ≤ 'z'.val)) ||
    (decide ('0'.val ≤ c.val) && decide (c.val ≤ '9'.val))) = true at h
  simp only [Bool.or_eq_true, Bool.and_eq_true, decide_eq_true_eq] at h
  rcases h with (⟨h, -⟩ | ⟨h, -⟩) | ⟨h, -⟩ <;>
  · have h' : _ ≤ c.val.toNat := UInt32.le_iff_toNat_le.mp h
    exact Nat.le_trans (by decide) h'

theorem mem_percentEncode {s : Str} {c : Char} (h : c ∈ percentEncode s) : c.isAlphanum = true ∨ c = '%' := by
  have hdigit : ∀ n < 16, (upperHexDigit n).isAlphanum = true := by decide
  rw [percentEncode, List.mem_flatMap] at h
  obtain ⟨x, -, h⟩ := h
  split_ifs at h with hx
  · exact .inl (List.mem_singleton.mp h ▸ hx)
  · obtain ⟨b, -, h⟩ := List.mem_flatMap.mp h
    have hb := b.toNat_lt
    simp only [percentEncodeByte, List.mem_cons, List.not_mem_nil, or_false] at h
    rcases h with h | rfl | rfl
    · exact .inr h
    · exact .inl (hdigit _ (by omega))
    · exact .inl (hdigit _ (by omega))

end Lox
