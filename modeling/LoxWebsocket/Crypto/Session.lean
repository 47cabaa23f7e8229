import LoxWebsocket.Framework.Codec
import LoxWebsocket.Error

/-!
# Session encryption: keys, salts, commands

`SessionKeys` hold the session's key, IV and expanded key schedule;
`SaltState` the salt of the sending side and the two buffers its `encrypt`
reuses. AES itself is outside the repository and is a parameter (`Crates`);
what the code relies on of it is `Crates.Lawful`. The clock and the random
numbers are those of a `World`, which gives the `n`-th reading and the `n`-th
draw; `Pos` counts both.

`fillSaltedPlaintext` does one of three things: it starts the salt sequence,
goes on with the active salt, or rotates it (`fill_first`, `fill_same`,
`fill_rotate`), the plaintext being `saltText` or `nextSaltText` with a NUL at
its end.
-/

namespace Lox

/-- A 32-byte AES key, a 16-byte IV. -/
abbrev Key := Vector UInt8 32
abbrev Iv := Vector UInt8 16

/-- The `aes`/`cbc` crates, and the error texts of the `base64` and UTF-8
decoders. Encryption and decryption in CBC mode without padding are in place,
on whole blocks. -/
structure Crates where
  Schedule : Type
  /-- The round keys of a key. -/
  expand : Key → Schedule
  encryptBlocks : Schedule → Iv → Bytes → Option Bytes
  decryptBlocks : Key → Iv → Bytes → Option Bytes
  utf8ErrorText : Bytes → Str
  base64ErrorText : Str → Str

/-- CBC without padding is defined on every multiple of 16 bytes and keeps the
length. -/
structure Crates.Total (C : Crates) : Prop where
  encrypt_some : ∀ (k : C.Schedule) (iv : Iv) (b : Bytes), b.length % 16 = 0 →
    ∃ c, C.encryptBlocks k iv b = some c ∧ c.length = b.length

/-- Moreover, decryption inverts encryption. -/
structure Crates.Lawful (C : Crates) : Prop extends C.Total where
  decrypt_encrypt : ∀ (key : Key) (iv : Iv) (b c : Bytes),
    C.encryptBlocks (C.expand key) iv b = some c → C.decryptBlocks key iv c = some b

/-- What the clock (seconds since the epoch) and the random generator give,
the `n`-th time they are asked. -/
structure World where
  clock : Nat → UInt64
  rng : Nat → Vector UInt8 16

/-- How often they have been asked. -/
structure Pos where
  ticks : Nat
  draws : Nat
  deriving DecidableEq

def Pos.start : Pos := ⟨0, 0⟩

def aesBlockSize : Nat := 16
def saltMaxAgeSeconds : UInt64 := 60 * 60
def saltMaxUseCount : UInt32 := 30
def cmdEncrypt : Str := "jdev/sys/enc/".toList

/-- The session key and IV; `cipher` holds the round keys of `key`. -/
structure SessionKeys (C : Crates) where
  key : Key
  iv : Iv
  cipher : C.Schedule
  cipher_eq : cipher = C.expand key

def SessionKeys.fromKeyIv {C : Crates} (key : Key) (iv : Iv) : SessionKeys C :=
  ⟨key, iv, C.expand key, rfl⟩

/-! ## Salts -/

def saturatingSub (a b : UInt64) : UInt64 := if b ≤ a then a - b else 0

theorem toNat_saturatingSub (a b : UInt64) : (saturatingSub a b).toNat = a.toNat - b.toNat := by
  rw [saturatingSub]
  split
  · exact UInt64.toNat_sub_of_le _ _ ‹_›
  · have : a.toNat < b.toNat := by simpa [UInt64.le_iff_toNat_le] using ‹¬ b ≤ a›
    simp; omega

structure SaltState where
  salt : Str
  saltUsedCount : UInt32
  saltTimeStamp : UInt64
  /-- Salted plaintext, then the ciphertext encrypted over it in place. -/
  scratch : Bytes
  /-- Base64 of `scratch`, before percent-encoding. -/
  encoded : Bytes
  deriving DecidableEq

namespace SaltState

def new : SaltState := ⟨[], 0, 0, [], []⟩

def reset (_ : SaltState) : SaltState := ⟨[], 0, 0, [], []⟩

variable (w : World)

def nowSecs (p : Pos) : UInt64 × Pos := (w.clock p.ticks, { p with ticks := p.ticks + 1 })

def generateSalt (st : SaltState) (p : Pos) : SaltState × Pos :=
  let raw := w.rng p.draws
  let (now, p) := nowSecs w { p with draws := p.draws + 1 }
  ({ st with salt := hexEncode raw.toList, saltTimeStamp := now, saltUsedCount := 0 }, p)

/-- The clock is only read when the count does not decide. -/
def newSaltNeeded (st : SaltState) (p : Pos) : Bool × SaltState × Pos :=
  let st := { st with saltUsedCount := st.saltUsedCount + 1 }
  if st.saltUsedCount > saltMaxUseCount then (true, st, p)
  else
    let (now, p) := nowSecs w p
    (decide (saturatingSub now st.saltTimeStamp > saltMaxAgeSeconds), st, p)

def slash : UInt8 := 47

theorem utf8_slash : utf8 ['/'] = [slash] := rfl

/-- What a salted plaintext starts with, without and with a rotation. -/
def saltTag : Str := "salt/".toList
def nextSaltTag : Str := "nextSalt/".toList

/-- Write the salted plaintext for `command` into `scratch`, advancing the salt
state. -/
def fillSaltedPlaintext (st : SaltState) (p : Pos) (command : Str) : SaltState × Pos :=
  let st := { st with scratch := [] }
  let (needed, st, p) := if st.salt = [] then (false, st, p) else newSaltNeeded w st p
  let (st, p) :=
    if needed then
      let previous := st.salt
      let (st, p) := generateSalt w { st with salt := [] } p
      ({ st with scratch := st.scratch ++ utf8 nextSaltTag ++ utf8 previous ++ [slash] }, p)
    else
      let (st, p) := if st.salt = [] then generateSalt w st p else (st, p)
      ({ st with scratch := st.scratch ++ utf8 saltTag }, p)
  ({ st with scratch := st.scratch ++ utf8 st.salt ++ [slash] ++ utf8 command ++ [0] }, p)

/-- The salted plaintext in front of a command, without and with a rotation. -/
def saltText (salt command : Str) : Str := saltTag ++ salt ++ ['/'] ++ command

def nextSaltText (previous next command : Str) : Str :=
  nextSaltTag ++ previous ++ ['/'] ++ next ++ ['/'] ++ command

theorem utf8_saltText (salt command : Str) :
    utf8 (saltText salt command) = utf8 saltTag ++ utf8 salt ++ [slash] ++ utf8 command := by
  simp only [saltText, utf8_append, utf8_slash]

theorem utf8_nextSaltText (previous next command : Str) :
    utf8 (nextSaltText previous next command) =
      utf8 nextSaltTag ++ utf8 previous ++ [slash] ++ utf8 next ++ [slash] ++ utf8 command := by
  simp only [nextSaltText, utf8_append, utf8_slash]

/-- The state after drawing a salt at `p`. -/
def fresh (p : Pos) (scratch encoded : Bytes) : SaltState :=
  ⟨hexEncode (w.rng p.draws).toList, 0, w.clock p.ticks, scratch, encoded⟩

/-- The first command of a sequence draws its salt. -/
theorem fill_first {st : SaltState} (h : st.salt = []) (p : Pos) (command : Str) :
    fillSaltedPlaintext w st p command =
      (fresh w p (utf8 (saltText (hexEncode (w.rng p.draws).toList) command) ++ [0]) st.encoded,
        ⟨p.ticks + 1, p.draws + 1⟩) := by
  simp [fillSaltedPlaintext, h, generateSalt, nowSecs, fresh, utf8_saltText]

/-- Whether the active salt has to be replaced, as `newSaltNeeded` decides it,
and where that leaves the count of clock readings. -/
def needed (st : SaltState) (p : Pos) : Bool :=
  decide (st.saltUsedCount + 1 > saltMaxUseCount) ||
    decide (saturatingSub (w.clock p.ticks) st.saltTimeStamp > saltMaxAgeSeconds)

def neededTicks (st : SaltState) (p : Pos) : Nat :=
  if st.saltUsedCount + 1 > saltMaxUseCount then p.ticks else p.ticks + 1

theorem newSaltNeeded_eq (st : SaltState) (p : Pos) :
    newSaltNeeded w st p = (needed w st p, { st with saltUsedCount := st.saltUsedCount + 1 },
      { p with ticks := neededTicks st p }) := by
  by_cases h : st.saltUsedCount + 1 > saltMaxUseCount
  · simp only [needed, neededTicks, newSaltNeeded, h, if_true, decide_true, Bool.true_or]
  · simp only [needed, neededTicks, newSaltNeeded, h, if_false, decide_false, Bool.false_or, nowSecs]
    rfl

/-- A command under the active salt. -/
theorem fill_same {st : SaltState} {p : Pos} (h : st.salt ≠ []) (hn : needed w st p = false)
    (command : Str) :
    fillSaltedPlaintext w st p command =
      (⟨st.salt, st.saltUsedCount + 1, st.saltTimeStamp, utf8 (saltText st.salt command) ++ [0],
        st.encoded⟩, { p with ticks := neededTicks st p }) := by
  have hn' : needed w { st with scratch := [] } p = false := hn
  simp only [fillSaltedPlaintext, h, if_false, newSaltNeeded_eq, hn', Bool.false_eq_true,
    utf8_saltText, List.nil_append]
  rfl

/-- A command that rotates the salt. -/
theorem fill_rotate {st : SaltState} {p : Pos} (h : st.salt ≠ []) (hn : needed w st p = true)
    (command : Str) :
    fillSaltedPlaintext w st p command =
      (fresh w { p with ticks := neededTicks st p }
        (utf8 (nextSaltText st.salt (hexEncode (w.rng p.draws).toList) command) ++ [0]) st.encoded,
        ⟨neededTicks st p + 1, p.draws + 1⟩) := by
  have hn' : needed w { st with scratch := [] } p = true := hn
  simp only [fillSaltedPlaintext, h, if_false, newSaltNeeded_eq, hn', if_true, generateSalt, nowSecs,
    fresh, utf8_nextSaltText, List.nil_append]
  rfl

end SaltState

/-! ## Encryption -/

def nextMultipleOf (n m : Nat) : Nat := (n + m - 1) / m * m

def divCeil (n m : Nat) : Nat := (n + m - 1) / m

/-- Base64 written to the front of a buffer, if it has room: how many bytes,
and the buffer. -/
def encodeSlice (input output : Bytes) : Option (Nat × Bytes) :=
  let e := utf8 (b64Encode input)
  if e.length ≤ output.length then some (e.length, e ++ output.drop e.length) else none

def escapeBase64 (c : Char) : Option Str :=
  if c = '+' then some "%2B".toList
  else if c = '/' then some "%2F".toList
  else if c = '=' then some "%3D".toList
  else none

/-- The loop of `percentEncodeBase64`, at index `i` with the rest `s` of
`encoded` to come: the run from `runStart` on has not been copied yet. -/
def percentEncodeLoop (encoded : Str) : Nat → Nat → Str → Str → Str
  | runStart, _, [], out => out ++ encoded.drop runStart
  | runStart, i, c :: s, out =>
    match escapeBase64 c with
    | none => percentEncodeLoop encoded runStart (i + 1) s out
    | some escape =>
      percentEncodeLoop encoded (i + 1) (i + 1) s
        (out ++ (encoded.take i).drop runStart ++ escape)

/-- Percent-encode Base64 onto `out`, copying the alphanumeric runs wholesale. -/
def percentEncodeBase64 (encoded out : Str) : Str := percentEncodeLoop encoded 0 0 encoded out

variable {C : Crates}

/-- Encrypt a plaintext command into `jdev/sys/enc/{percent-encoded-b64}`, in
the two buffers. -/
def SaltState.encrypt (w : World) (keys : SessionKeys C) (st : SaltState) (p : Pos) (command : Str) :
    Except Error Str × SaltState × Pos :=
  let (st, p) := fillSaltedPlaintext w st p command
  let padded := nextMultipleOf st.scratch.length aesBlockSize
  let st := { st with scratch := resize st.scratch padded 0 }
  match C.encryptBlocks keys.cipher keys.iv st.scratch with
  | none => (.error (.crypto "AES encrypt failed".toList), st, p)
  | some cipherText =>
    let st := { st with scratch := cipherText }
    let b64Len := divCeil padded 3 * 4
    let st := { st with encoded := resize st.encoded b64Len 0 }
    match encodeSlice st.scratch st.encoded with
    | none => (.error (.crypto "base64 buffer too small".toList), st, p)
    | some (written, buf) =>
      let st := { st with encoded := buf }
      match fromUtf8 (st.encoded.take written) with
      | none => (.error (.crypto "base64 produced non-ASCII".toList), st, p)
      | some encoded => (.ok (percentEncodeBase64 encoded cmdEncrypt), st, p)

/-- AES-256-CBC encrypt with ZeroBytePadding. -/
def aesEncryptZerobyte (C : Crates) (key : Key) (iv : Iv) (data : Bytes) : Except Error Bytes :=
  let pad := (16 - data.length % 16) % 16
  let buf := data ++ List.replicate pad 0
  match C.encryptBlocks (C.expand key) iv buf with
  | none => .error (.crypto "AES encrypt failed".toList)
  | some c => .ok c

/-- AES-256-CBC decrypt and strip the trailing NULs. -/
def aesDecryptZerobyte (C : Crates) (key : Key) (iv : Iv) (data : Bytes) : Except Error Bytes :=
  if data.length % 16 ≠ 0 then .error (.crypto "ciphertext length not multiple of 16".toList)
  else
    match C.decryptBlocks key iv data with
    | none => .error (.crypto "AES decrypt failed".toList)
    | some buf => .ok (buf.rdropWhile (· == 0))

/-- Decrypt a control field that may be a `jdev/sys/enc/...` blob; the result
still carries its salt prefix. -/
def SessionKeys.decryptControlResponse (keys : SessionKeys C) (response : Str) : Except Error Str := do
  -- `rsplit(..).next()`: the part after the last separator, or all of it
  let encoded := (afterLast cmdEncrypt response).getD response
  let decoded := percentDecode (utf8 encoded)
  let decodedPct ← match fromUtf8 decoded with
    | some s => .ok s
    | none => .error (.crypto (C.utf8ErrorText decoded))
  let encrypted ← match b64Decode decodedPct with
    | some b => .ok b
    | none => .error (.crypto (C.base64ErrorText decodedPct))
  let plain ← aesDecryptZerobyte C keys.key keys.iv encrypted
  match fromUtf8 plain with
  | some s => .ok s
  | none => .error (.crypto (C.utf8ErrorText plain))

/-- Strip the `salt/{salt}/` or `nextSalt/{prev}/{next}/` prefix from a decrypted
command, and trailing NULs; without a known prefix, only those. -/
def stripSaltPrefix (plaintext : Str) : Str :=
  let trimmed := plaintext.rdropWhile (· == '\x00')
  match SaltState.nextSaltTag.isPrefixOf? trimmed with
  | some rest =>
    (((splitOnce '/' rest).bind fun r => splitOnce '/' r.2).map Prod.snd).getD trimmed
  | none =>
    match SaltState.saltTag.isPrefixOf? trimmed with
    | some rest => ((splitOnce '/' rest).map Prod.snd).getD trimmed
    | none => trimmed

end Lox
