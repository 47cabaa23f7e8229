import LoxWebsocket.Crypto.Pipeline

/-!
# The control field of an answer

A Miniserver names the command it answers in the `control` field of the
answer's `LL` envelope, an encrypted command by the `jdev/sys/enc/…` text it
received. `extractLlControl` finds the field without parsing the payload,
`canonical` and `verb` fold the spellings the Miniserver varies between, and
`decodeControl` recovers the command: it undoes `SaltState.encrypt`, up to
NULs at the command's end (`decodeControl_encrypt`).
-/

namespace Lox

/-! ## Comparing commands -/

/-- The `White_Space` property, which `str::trim` goes by. -/
def isWhiteSpace (c : Char) : Bool :=
  let n := c.toNat
  (9 ≤ n && n ≤ 13) || n == 0x20 || n == 0x85 || n == 0xA0 || n == 0x1680 || (0x2000 ≤ n && n ≤ 0x200A) ||
    n == 0x2028 || n == 0x2029 || n == 0x202F || n == 0x205F || n == 0x3000

def trim (s : Str) : Str := (s.dropWhile isWhiteSpace).rdropWhile isWhiteSpace

def trimNul (s : Str) : Str := s.rdropWhile (· == '\x00')

/-- Strip the spellings that vary: surrounding whitespace, trailing NULs, a
leading slash, and the `j` of `jdev`. -/
def canonical (cmd : Str) : Str :=
  let s := trimNul (trim cmd)
  let s := (['/'].isPrefixOf? s).getD s
  ((['j'].isPrefixOf? s).filter fun rest => "dev/".toList.isPrefixOf rest).getD s

/-- The first `n` segments of a path. -/
def takeSegments (s : Str) (n : Nat) : Str :=
  let segments := (s.splitOn '/').take n
  -- the segments, and a slash before each but the first
  let stop := (segments.map List.length).sum + (segments.length - 1)
  s.take (min stop s.length)

/-- Verb-identifying prefix of a command. -/
def verb (cmd : Str) : Str :=
  let s := canonical cmd
  takeSegments s (if "dev/".toList.isPrefixOf s then 3 else 1)

/-- Leading path segments of a command, safe to log. -/
def cmdLabel (cmd : Str) : Str :=
  takeSegments cmd (if "jdev/".toList.isPrefixOf cmd || "dev/".toList.isPrefixOf cmd then 3 else 1)

def controlMatches (control plaintextCmd : Str) : Bool := verb control = verb plaintextCmd

/-! ## Finding the field -/

def controlKeyScanLimit : Nat := 512
def controlValueLimit : Nat := 8 * 1024

/-- Eight bytes as a little-endian word. -/
def wordAt (chunk : Bytes) : UInt64 := chunk.foldr (fun b acc => acc <<< 8 ||| b.toUInt64) 0

def ones : UInt64 := 0x0101010101010101

def repeatByte (b : UInt8) : UInt64 := b.toUInt64 * ones

/-- The high bit of every zero byte. -/
def zeroByteMask (word : UInt64) : UInt64 := (word - ones) &&& ~~~word &&& 0x8080808080808080

def trailingZeros (x : UInt64) : Nat :=
  ((List.range 64).find? fun i => (x >>> UInt64.ofNat i) &&& 1 == 1).getD 64

/-- First index holding `a` or `b`, eight bytes at a time. -/
def findEitherFrom (a b : UInt8) : Nat → Bytes → Option Nat
  | offset, b₀ :: b₁ :: b₂ :: b₃ :: b₄ :: b₅ :: b₆ :: b₇ :: rest =>
    let word := wordAt [b₀, b₁, b₂, b₃, b₄, b₅, b₆, b₇]
    let mask := zeroByteMask (word ^^^ repeatByte a) ||| zeroByteMask (word ^^^ repeatByte b)
    if mask ≠ 0 then some (offset + trailingZeros mask / 8) else findEitherFrom a b (offset + 8) rest
  | offset, remainder => (remainder.findIdx? fun x => x == a || x == b).map (offset + ·)

def findEither (haystack : Bytes) (a b : UInt8) : Option Nat := findEitherFrom a b 0 haystack

def findByte (haystack : Bytes) (needle : UInt8) : Option Nat := findEither haystack needle needle

/-- `"control"` with its quotes. -/
def controlKey : Bytes := [34, 99, 111, 110, 116, 114, 111, 108, 34]

/-- The loop of `findControlKey` from index `start`; each round moves it on, so
`fuel` need not exceed the length of the window. -/
def findControlKeyLoop (window : Bytes) (last : Nat) : Nat → Nat → Option Nat
  | 0, _ => none
  | fuel + 1, start =>
    if start ≤ last then do
      let i ← findByte (window.drop start) 34
      let found := start + i
      if found > last then none
      else if wordAt ((window.drop found).take 8) = wordAt (controlKey.take 8) ∧ window[found + 8]? = some 34 then
        some found
      else findControlKeyLoop window last fuel (found + 1)
    else none

def findControlKey (window : Bytes) : Option Nat :=
  if window.length < controlKey.length then none
  else findControlKeyLoop window (window.length - controlKey.length) (window.length + 1) 0

def isAsciiWhitespace (b : UInt8) : Bool := b == 32 || b == 9 || b == 10 || b == 12 || b == 13

/-- The `LL.control` of a raw payload, read without a parser. -/
def extractLlControl (payload : Bytes) : Option Str := do
  let keyEnd := (← findControlKey (payload.take controlKeyScanLimit)) + controlKey.length
  let afterKey := payload.drop keyEnd
  let colon ← findByte afterKey 58
  let afterColon := afterKey.drop (colon + 1)
  let quote ← afterColon.findIdx? fun b => !isAsciiWhitespace b
  if afterColon[quote]? ≠ some 34 then none
  else
    let value := (afterColon.drop (quote + 1)).take controlValueLimit
    let stop ← findEither value 34 92
    if value[stop]? ≠ some 34 then none else fromUtf8 (value.take stop)

variable {C : Crates}

/-- The plaintext command a raw `LL.control` stands for. -/
def decodeControl (control : Str) (keys : SessionKeys C) : Option Str :=
  if cmdEncrypt <:+: control then
    match keys.decryptControlResponse control with
    | .ok plain => some (stripSaltPrefix plain)
    | .error _ => none
  else some control

/-! ## Decoding undoes encryption -/

/-- The states of a `SaltState` that only `encrypt` and `reset` touch. -/
inductive SaltState.Reachable (C : Crates) (w : World) : SaltState → Pos → Prop
  | new (p : Pos) : Reachable C w SaltState.new p
  | reset {st : SaltState} {p : Pos} : Reachable C w st p → Reachable C w st.reset p
  | encrypt {st : SaltState} {p : Pos} (keys : SessionKeys C) (command : Str) : Reachable C w st p →
      Reachable C w (st.encrypt w keys p command).2.1 (st.encrypt w keys p command).2.2

/-- The salt of a state after a command is the state's, or a drawn one. -/
theorem SaltState.salt_fill (w : World) (st : SaltState) (p : Pos) (command : Str) :
    (st.fillSaltedPlaintext w p command).1.salt = st.salt ∨
    ∃ b, (st.fillSaltedPlaintext w p command).1.salt = hexEncode b := by
  by_cases hs : st.salt = []
  · exact .inr ⟨_, by rw [fill_first w hs, fresh]⟩
  · cases hn : needed w st p with
    | true => exact .inr ⟨_, by rw [fill_rotate w hs hn, fresh]⟩
    | false => exact .inl (by rw [fill_same w hs hn])

theorem slash_notMem_hexEncode (b : Bytes) : '/' ∉ hexEncode b := not_mem_hexEncode (by decide)

/-- A salt has no slash. -/
theorem SaltState.Reachable.slash_notMem (hC : C.Total) {w : World} {st : SaltState} {p : Pos}
    (h : Reachable C w st p) : '/' ∉ st.salt := by
  induction h with
  | new p => exact List.not_mem_nil
  | reset _ _ => exact List.not_mem_nil
  | encrypt keys command _ ih =>
    rename_i st p _
    obtain ⟨c, -, -, he⟩ := st.encrypt_spec hC w keys p command
    rw [he]
    rcases st.salt_fill w p command with h | ⟨b, h⟩
    · exact h ▸ ih
    · exact h ▸ slash_notMem_hexEncode b

/-- What is trimmed off the end stops at an element that stays. -/
theorem rdropWhile_append_cons {α : Type} {q : α → Bool} {x : α} (hx : q x = false) (l m : List α) :
    (l ++ x :: m).rdropWhile q = l ++ x :: m.rdropWhile q := by
  induction m using List.reverseRecOn with
  | nil => exact List.rdropWhile_concat_neg _ _ _ (by simp [hx])
  | append_singleton m y ih =>
    rw [← List.cons_append, ← List.append_assoc]
    cases hy : q y with
    | true => rw [List.rdropWhile_concat_pos _ _ _ hy, List.rdropWhile_concat_pos _ _ _ hy, ih]
    | false =>
      rw [List.rdropWhile_concat_neg _ _ _ (by simp [hy]), List.rdropWhile_concat_neg _ _ _ (by simp [hy]),
        List.append_assoc, List.cons_append]

theorem stripSaltPrefix_salt {salt : Str} (hs : '/' ∉ salt) (command : Str) :
    stripSaltPrefix (SaltState.saltText salt command) = trimNul command := by
  have ht : SaltState.saltText salt command = (SaltState.saltTag ++ salt) ++ '/' :: command := by
    simp [SaltState.saltText]
  have hn : SaltState.nextSaltTag.isPrefixOf? (SaltState.saltTag ++ (salt ++ '/' :: trimNul command)) =
      none := rfl
  rw [stripSaltPrefix, ht, rdropWhile_append_cons (by decide), ← trimNul, List.append_assoc]
  simp only [hn, isPrefixOf?_append, splitOnce_append hs, Option.map_some, Option.getD_some]

theorem stripSaltPrefix_nextSalt {previous next : Str} (hp : '/' ∉ previous) (hn : '/' ∉ next)
    (command : Str) :
    stripSaltPrefix (SaltState.nextSaltText previous next command) = trimNul command := by
  have ht : SaltState.nextSaltText previous next command =
      (SaltState.nextSaltTag ++ (previous ++ '/' :: next)) ++ '/' :: command := by
    simp [SaltState.nextSaltText]
  rw [stripSaltPrefix, ht, rdropWhile_append_cons (by decide), ← trimNul, List.append_assoc,
    List.append_assoc, List.cons_append]
  simp only [isPrefixOf?_append, splitOnce_append hp, splitOnce_append hn, Option.bind_some,
    Option.map_some, Option.getD_some]

theorem stripSaltPrefix_trimNul (s : Str) : stripSaltPrefix (trimNul s) = stripSaltPrefix s := by
  rw [stripSaltPrefix, stripSaltPrefix, trimNul, List.rdropWhile_idempotent]

theorem stripSaltPrefix_saltedText {w : World} {st : SaltState} (hs : '/' ∉ st.salt) (p : Pos)
    (command : Str) : stripSaltPrefix (st.saltedText w p command) = trimNul command := by
  have hn := slash_notMem_hexEncode (w.rng p.draws).toList
  rw [SaltState.saltedText]
  split
  · exact stripSaltPrefix_salt hn command
  · split
    · exact stripSaltPrefix_nextSalt hs hn command
    · exact stripSaltPrefix_salt hs command

/-- Percent-encoded text has no slash. -/
theorem slash_notMem_percentEncode (s : Str) : '/' ∉ percentEncode s := by
  have hd : ∀ n < 16, '/' ≠ upperHexDigit n := by decide
  have hb : ∀ b : UInt8, '/' ∉ percentEncodeByte b := by
    intro b
    have := b.toNat_lt
    simp only [percentEncodeByte, List.mem_cons, List.not_mem_nil, or_false, not_or]
    exact ⟨by decide, hd _ (by omega), hd _ (by omega)⟩
  rw [percentEncode, List.mem_flatMap]
  rintro ⟨c, -, h⟩
  split at h
  · rename_i hc
    rw [← List.mem_singleton.mp h] at hc
    exact absurd hc (by decide)
  · obtain ⟨b, -, h⟩ := List.mem_flatMap.mp h
    exact hb b h

/-- Decrypting gives the salted plaintext back, without the NULs at its end. -/
theorem decryptControlResponse_encrypt (hC : C.Lawful) (w : World) (keys : SessionKeys C)
    (st : SaltState) (p : Pos) (command : Str) :
    ∃ text, (st.encrypt w keys p command).1 = .ok text ∧ cmdEncrypt <:+: text ∧
      keys.decryptControlResponse text = .ok (trimNul (st.saltedText w p command)) := by
  obtain ⟨c, hc, hl, he⟩ := st.encrypt_spec hC.toTotal w keys p command
  refine ⟨cmdEncrypt ++ percentEncode (b64Encode c), by rw [he], (List.prefix_append _ _).isInfix, ?_⟩
  have ha : afterLast cmdEncrypt (cmdEncrypt ++ percentEncode (b64Encode c)) =
      some (percentEncode (b64Encode c)) :=
    afterLast_append (p := "jdev/sys/enc".toList) (slash_notMem_percentEncode _)
  have hd : aesDecryptZerobyte C keys.key keys.iv c =
      .ok (utf8 (trimNul (st.saltedText w p command))) := by
    rw [aesDecryptZerobyte, if_neg (by simp [hl]), hC.decrypt_encrypt _ _ _ _ hc]
    simp only
    rw [rdropWhile_padZero, List.rdropWhile_concat_pos _ _ _ (by decide), utf8_trimNul, trimNul]
  simp only [SessionKeys.decryptControlResponse, ha, Option.getD_some, percentDecode_encode,
    fromUtf8_utf8, b64Decode_encode, hd, bind, Except.bind]

/-- The text of a command, from any reachable state, stands for the command
without the NULs at its end. -/
theorem decodeControl_encrypt (hC : C.Lawful) (w : World) (keys : SessionKeys C) {st : SaltState}
    {p : Pos} (hr : SaltState.Reachable C w st p) (command : Str) :
    ∃ text, (st.encrypt w keys p command).1 = .ok text ∧
      decodeControl text keys = some (trimNul command) := by
  obtain ⟨text, ht, hi, hd⟩ := decryptControlResponse_encrypt hC w keys st p command
  refine ⟨text, ht, ?_⟩
  rw [decodeControl, if_pos hi, hd]
  simp only
  rw [stripSaltPrefix_trimNul, stripSaltPrefix_saltedText (hr.slash_notMem hC.toTotal)]

/-- The first command of the sample session. -/
theorem decodeControl_encrypt_getkey :
    sampleCrates.Lawful ∧ SaltState.Reachable sampleCrates sampleWorld SaltState.new Pos.start ∧
    ∃ text, (SaltState.new.encrypt sampleWorld sampleKeys Pos.start sampleCommand).1 = .ok text ∧
      decodeControl text sampleKeys = some "jdev/sys/getkey".toList :=
  ⟨sampleCrates_lawful, .new _,
    decodeControl_encrypt sampleCrates_lawful sampleWorld sampleKeys (.new _) sampleCommand⟩

end Lox
