import Mathlib.Data.Bool.AllAny
import LoxWebsocket.Crypto.Session

/-!
# The fused encryption path is the plain pipeline

`SaltState.encrypt` pads, encrypts and encodes in two buffers it reuses. It
always succeeds, and its text is `jdev/sys/enc/` followed by the general
percent-encoding of the Base64 of `aesEncryptZerobyte` of the salted plaintext
(`encrypt_eq_pipeline`); the plaintext (`saltedText`) does not depend on the
buffers. The loop that percent-encodes keeps what it has copied and the run it
has not (`percentEncodeLoop_eq`).
-/

namespace Lox

/-! ## The salted plaintext -/

section

variable (w : World) (st : SaltState) (p : Pos) (command : Str)

/-- The salted plaintext of a command, without the NUL at its end. -/
def SaltState.saltedText : Str :=
  let next := hexEncode (w.rng p.draws).toList
  if st.salt = [] then saltText next command
  else if needed w st p then nextSaltText st.salt next command
  else saltText st.salt command

theorem SaltState.scratch_fill :
    (st.fillSaltedPlaintext w p command).1.scratch = utf8 (st.saltedText w p command) ++ [0] := by
  by_cases hs : st.salt = []
  · rw [fill_first w hs, saltedText, if_pos hs, fresh]
  · rw [saltedText, if_neg hs]
    cases hn : needed w st p with
    | false => rw [fill_same w hs hn, if_neg Bool.false_ne_true]
    | true => rw [fill_rotate w hs hn, if_pos rfl, fresh]

end

/-! ## Padding -/

/-- Zero bytes up to the next multiple of 16. -/
def padZero (b : Bytes) : Bytes := b ++ List.replicate ((16 - b.length % 16) % 16) 0

theorem length_padZero (b : Bytes) : (padZero b).length = nextMultipleOf b.length aesBlockSize := by
  simp only [padZero, List.length_append, List.length_replicate, nextMultipleOf, aesBlockSize]
  omega

theorem length_padZero_mod (b : Bytes) : (padZero b).length % 16 = 0 := by
  rw [length_padZero, nextMultipleOf, aesBlockSize, Nat.mul_mod_left]

/-- Resizing a buffer in place pads it. -/
theorem resize_eq_padZero (b : Bytes) :
    resize b (nextMultipleOf b.length aesBlockSize) 0 = padZero b := by
  have h := length_padZero b
  have hl : (padZero b).length = b.length + (16 - b.length % 16) % 16 := by
    simp only [padZero, List.length_append, List.length_replicate]
  rw [resize_of_le (by omega), padZero, ← h, hl, Nat.add_sub_cancel_left]

theorem rdropWhile_padZero (b : Bytes) :
    (padZero b).rdropWhile (· == 0) = b.rdropWhile (· == 0) := by
  rw [padZero]
  generalize (16 - b.length % 16) % 16 = n
  induction n with
  | zero => simp
  | succ n ih =>
    rw [List.replicate_succ', ← List.append_assoc, List.rdropWhile_concat_pos _ _ _ (by decide), ih]

/-! ## Percent-encoding Base64 -/

/-- A character of Base64 is escaped as the general encoder escapes it. -/
theorem percentEncode_base64_cons {c : Char} (hc : c ∈ b64Alphabet ∨ c = '=') (s : Str) :
    percentEncode (c :: s) = (escapeBase64 c).getD [c] ++ percentEncode s := by
  have key : ∀ c ∈ b64Alphabet ++ ['='], percentEncode [c] = (escapeBase64 c).getD [c] :=
    List.all_iff_forall_prop.mp (by decide +kernel)
  rw [← key c (by simpa using hc), percentEncode, percentEncode, percentEncode]
  simp

/-- The loop at index `i`: `out`, the run that is not copied yet, and the rest
escaped. -/
theorem percentEncodeLoop_eq (encoded : Str) (s : Str) :
    ∀ (runStart i : Nat) (out : Str), encoded.drop i = s → runStart ≤ i → i ≤ encoded.length →
      (∀ c ∈ s, c ∈ b64Alphabet ∨ c = '=') →
      percentEncodeLoop encoded runStart i s out =
        out ++ (encoded.take i).drop runStart ++ percentEncode s := by
  induction s with
  | nil =>
    intro runStart i out hd hr hi _
    have : encoded.length ≤ i := List.drop_eq_nil_iff.mp hd
    rw [percentEncodeLoop, List.take_of_length_le this, show percentEncode [] = [] from rfl,
      List.append_nil]
  | cons c s ih =>
    intro runStart i out hd hr hi hs
    have hlt : i < encoded.length := by
      have := congrArg List.length hd
      simp only [List.length_drop, List.length_cons] at this
      omega
    have hd' : encoded.drop (i + 1) = s := by
      rw [← List.drop_drop, hd, List.drop_one, List.tail_cons]
    have ht : encoded.take (i + 1) = encoded.take i ++ [c] := by
      rw [List.take_add_one, ← List.head?_drop, hd, List.head?_cons, Option.toList_some]
    have hl : (encoded.take i).length = i := List.length_take_of_le (by omega)
    have hs' : ∀ d ∈ s, d ∈ b64Alphabet ∨ d = '=' := fun d hd => hs d (List.mem_cons_of_mem _ hd)
    rw [percentEncode_base64_cons (hs c List.mem_cons_self), percentEncodeLoop]
    cases he : escapeBase64 c with
    | none =>
      -- the run grows by `c`
      simp only [Option.getD_none]
      rw [ih _ _ _ hd' (by omega) (by omega) hs', ht, List.drop_append_of_le_length (by omega)]
      simp
    | some escape =>
      -- the run is copied, and the next starts behind `c`
      simp only [Option.getD_some]
      rw [ih _ _ _ hd' (by omega) (by omega) hs', List.drop_take_self, List.append_nil,
        List.append_assoc _ escape]

theorem percentEncodeBase64_eq (b : Bytes) (out : Str) :
    percentEncodeBase64 (b64Encode b) out = out ++ percentEncode (b64Encode b) := by
  rw [percentEncodeBase64,
    percentEncodeLoop_eq _ _ 0 0 out List.drop_zero (Nat.le_refl _) (Nat.zero_le _) fun _ => mem_b64Encode]
  simp

/-! ## The encoded buffer -/

theorem b64_ascii {b : Bytes} : ∀ c ∈ b64Encode b, c.toNat < 128 := fun _ hc =>
  b64_lt (mem_b64Encode hc)

/-- The buffer is just long enough, whatever it held. -/
theorem encodeSlice_resize (b encoded : Bytes) :
    encodeSlice b (resize encoded (divCeil b.length 3 * 4) 0) =
      some ((utf8 (b64Encode b)).length, utf8 (b64Encode b)) := by
  have hl : (utf8 (b64Encode b)).length = divCeil b.length 3 * 4 := by
    rw [length_utf8_ascii b64_ascii, length_b64Encode]
    rfl
  rw [encodeSlice, length_resize, hl, if_pos (Nat.le_refl _), List.drop_eq_nil_of_le (by simp),
    List.append_nil]

variable {C : Crates}

/-- What `encrypt` does: the ciphertext of the padded plaintext, encoded. -/
theorem SaltState.encrypt_spec (hC : C.Total) (w : World) (keys : SessionKeys C) (st : SaltState)
    (p : Pos) (command : Str) :
    ∃ cipherText, C.encryptBlocks (C.expand keys.key) keys.iv
        (padZero (utf8 (st.saltedText w p command) ++ [0])) = some cipherText ∧
      cipherText.length % 16 = 0 ∧
      st.encrypt w keys p command =
        (.ok (cmdEncrypt ++ percentEncode (b64Encode cipherText)),
          { (st.fillSaltedPlaintext w p command).1 with
            scratch := cipherText, encoded := utf8 (b64Encode cipherText) },
          (st.fillSaltedPlaintext w p command).2) := by
  obtain ⟨cipherText, hc, hl⟩ := hC.encrypt_some keys.cipher keys.iv _
    (length_padZero_mod (st.fillSaltedPlaintext w p command).1.scratch)
  refine ⟨cipherText, ?_, by rw [hl, length_padZero_mod], ?_⟩
  · rw [← scratch_fill, ← keys.cipher_eq, hc]
  · have he := encodeSlice_resize cipherText (st.fillSaltedPlaintext w p command).1.encoded
    rw [hl, length_padZero] at he
    simp only [encrypt, resize_eq_padZero, hc, he, List.take_length, fromUtf8_utf8,
      percentEncodeBase64_eq]

/-- The states agree in all but the buffers. -/
def SaltState.SameSalt (st st' : SaltState) : Prop :=
  st.salt = st'.salt ∧ st.saltUsedCount = st'.saltUsedCount ∧ st.saltTimeStamp = st'.saltTimeStamp

theorem SaltState.SameSalt.saltedText_eq {st st' : SaltState} (h : st.SameSalt st') (w : World)
    (p : Pos) (command : Str) : st.saltedText w p command = st'.saltedText w p command := by
  obtain ⟨h₁, h₂, h₃⟩ := h
  have hn : needed w st p = needed w st' p := by rw [needed, needed, h₂, h₃]
  rw [saltedText, saltedText, h₁, hn]

/-- Encryption succeeds from any state of the buffers, with the text of the
plain pipeline; so what the buffers held does not matter. -/
theorem SaltState.encrypt_eq_pipeline (hC : C.Total) (w : World) (keys : SessionKeys C)
    (st : SaltState) (p : Pos) (command : Str) :
    (∃ cipherText,
      aesEncryptZerobyte C keys.key keys.iv (utf8 (st.saltedText w p command) ++ [0]) = .ok cipherText ∧
      (st.encrypt w keys p command).1 = .ok (cmdEncrypt ++ percentEncode (b64Encode cipherText))) ∧
    ∀ st', st.SameSalt st' → (st'.encrypt w keys p command).1 = (st.encrypt w keys p command).1 := by
  obtain ⟨c, hc, -, he⟩ := st.encrypt_spec hC w keys p command
  refine ⟨⟨c, ?_, by rw [he]⟩, fun st' h => ?_⟩
  · simp only [aesEncryptZerobyte]
    rw [padZero] at hc
    rw [hc]
  · obtain ⟨c', hc', -, he'⟩ := st'.encrypt_spec hC w keys p command
    rw [← h.saltedText_eq, hc] at hc'
    cases hc'
    rw [he, he']

/-! ## A sample session -/

/-- The two sides of an entry, one for the other. -/
def swapEntry (entry : Bytes × Bytes) (m : Bytes) : Bytes :=
  if m = entry.1 then entry.2 else if m = entry.2 then entry.1 else m

theorem swapEntry_swapEntry (entry : Bytes × Bytes) (m : Bytes) : swapEntry entry (swapEntry entry m) = m := by
  obtain ⟨a, b⟩ := entry
  unfold swapEntry
  by_cases ha : m = a
  · subst ha
    by_cases hb : b = m
    · simp [hb]
    · simp [hb]
  · by_cases hb : m = b
    · subst hb
      simp [ha]
    · simp [ha, hb]

theorem length_swapEntry {entry : Bytes × Bytes} (h : entry.1.length = entry.2.length) (m : Bytes) :
    (swapEntry entry m).length = m.length := by
  unfold swapEntry
  split_ifs with ha hb
  · rw [ha, h]
  · rw [hb, h]
  · rfl

/-- Crates that are a table of plaintexts and ciphertexts, and beside it do nothing. -/
def Crates.table (entries : List (Bytes × Bytes)) : Crates where
  Schedule := Key
  expand := id
  encryptBlocks _ _ m := if m.length % 16 = 0 then some (entries.foldr swapEntry m) else none
  decryptBlocks _ _ m := if m.length % 16 = 0 then some (entries.foldl (fun m entry => swapEntry entry m) m) else none
  utf8ErrorText _ := "invalid utf-8 sequence".toList
  base64ErrorText _ := "Invalid padding".toList

theorem foldl_foldr_swapEntry (entries : List (Bytes × Bytes)) (m : Bytes) :
    entries.foldl (fun m entry => swapEntry entry m) (entries.foldr swapEntry m) = m := by
  induction entries with
  | nil => rfl
  | cons entry entries ih => rw [List.foldr_cons, List.foldl_cons, swapEntry_swapEntry, ih]

theorem length_foldr_swapEntry {entries : List (Bytes × Bytes)} (h : ∀ entry ∈ entries, entry.1.length = entry.2.length)
    (m : Bytes) : (entries.foldr swapEntry m).length = m.length := by
  induction entries with
  | nil => rfl
  | cons entry entries ih =>
    rw [List.forall_mem_cons] at h
    rw [List.foldr_cons, length_swapEntry h.1, ih h.2]

theorem Crates.table_lawful {entries : List (Bytes × Bytes)} (h : ∀ entry ∈ entries, entry.1.length = entry.2.length) :
    (Crates.table entries).Lawful where
  encrypt_some k iv m hm := ⟨_, if_pos hm, length_foldr_swapEntry h m⟩
  decrypt_encrypt key iv m c hc := by
    simp only [table] at hc ⊢
    split_ifs at hc with hm
    cases hc
    rw [if_pos (by rw [length_foldr_swapEntry h, hm]), foldl_foldr_swapEntry]

def sampleWorld : World := ⟨fun _ => 1700000000, fun _ => Vector.replicate 16 0⟩

def sampleCommand : Str := "jdev/sys/getkey".toList

/-- The padded plaintext of `sampleCommand` under the salt of zeros. -/
def samplePlain : Bytes :=
  [115, 97, 108, 116, 47] ++ List.replicate 32 48 ++
    [47, 106, 100, 101, 118, 47, 115, 121, 115, 47, 103, 101, 116, 107, 101, 121] ++ List.replicate 11 0

/-- Its AES-256-CBC ciphertext under `sampleKeys`. -/
def sampleCipher : Bytes :=
  [118, 179, 3, 108, 3, 136, 65, 244, 68, 17, 240, 167, 130, 83, 215, 27, 207, 127, 68, 222, 13, 132,
    44, 236, 59, 131, 45, 35, 42, 254, 100, 110, 28, 147, 175, 45, 202, 57, 30, 156, 182, 253, 176, 191,
    218, 87, 203, 181, 144, 195, 198, 147, 240, 212, 201, 46, 170, 24, 62, 49, 148, 184, 12, 13]

/-- A control under the salt of zeros, and its ciphertext. -/
def lightPlain : Bytes :=
  [115, 97, 108, 116, 47] ++ List.replicate 32 48 ++ [47, 106, 100, 101, 118, 47, 115, 112, 115, 47, 105, 111,
    47, 48, 102, 49, 101, 50, 100, 51, 99, 45, 48, 49, 97, 52, 45, 50, 98, 49, 49, 45, 102, 102, 102, 102, 52,
    48, 51, 102, 98, 48, 99, 51, 52, 98, 57, 101, 47, 79, 110] ++ List.replicate 8 0

def lightCipher : Bytes :=
  [118, 179, 3, 108, 3, 136, 65, 244, 68, 17, 240, 167, 130, 83, 215, 27, 207, 127, 68, 222, 13, 132, 44,
    236, 59, 131, 45, 35, 42, 254, 100, 110, 185, 7, 15, 105, 85, 128, 129, 196, 73, 44, 54, 92, 168, 252,
    184, 144, 88, 133, 28, 74, 40, 183, 128, 118, 56, 171, 237, 152, 248, 215, 151, 175, 174, 217, 117, 27,
    170, 192, 82, 220, 91, 56, 99, 82, 26, 120, 157, 75, 236, 29, 86, 196, 90, 182, 157, 231, 58, 93, 50,
    172, 32, 52, 110, 129]

/-- `sampleCommand` with the salt after that of zeros, and its ciphertext. -/
def rotatedPlain : Bytes :=
  [110, 101, 120, 116, 83, 97, 108, 116, 47] ++ List.replicate 32 48 ++ [47] ++
    (List.replicate 16 [48, 49]).flatten ++
    [47, 106, 100, 101, 118, 47, 115, 121, 115, 47, 103, 101, 116, 107, 101, 121] ++ List.replicate 6 0

def rotatedCipher : Bytes :=
  [107, 168, 215, 186, 58, 24, 117, 5, 251, 222, 64, 239, 209, 137, 131, 140, 89, 232, 179, 110, 33, 212,
    97, 20, 157, 149, 20, 111, 163, 221, 125, 95, 235, 36, 62, 67, 130, 86, 240, 222, 209, 34, 146, 200,
    144, 136, 179, 13, 8, 138, 134, 46, 212, 75, 224, 95, 215, 217, 81, 115, 188, 35, 101, 64, 67, 126, 41,
    130, 54, 188, 73, 138, 215, 221, 50, 229, 235, 197, 182, 161, 33, 43, 3, 55, 201, 35, 234, 226, 195,
    166, 65, 146, 161, 99, 83, 241]

def sampleCrates : Crates :=
  Crates.table [(samplePlain, sampleCipher), (lightPlain, lightCipher), (rotatedPlain, rotatedCipher)]

def sampleKeys : SessionKeys sampleCrates :=
  SessionKeys.fromKeyIv (Vector.replicate 32 7) (Vector.replicate 16 8)

theorem sampleCrates_lawful : sampleCrates.Lawful := Crates.table_lawful (by decide)

/-- The first command of the sample session, on a buffer that is not empty. -/
theorem encrypt_eq_pipeline_getkey :
    sampleCrates.Total ∧
    (SaltState.encrypt sampleWorld sampleKeys ⟨[], 0, 0, [1, 2], [3]⟩ Pos.start sampleCommand).1 =
      .ok ("jdev/sys/enc/drMDbAOIQfREEfCnglPXG89%2FRN4NhCzsO4MtIyr%2BZG4ck68tyjkenLb9sL%2FaV8u1kMPGk" ++
        "%2FDUyS6qGD4xlLgMDQ%3D%3D").toList := by
  refine ⟨sampleCrates_lawful.toTotal, ?_⟩
  obtain ⟨⟨c, hc, he⟩, -⟩ := SaltState.encrypt_eq_pipeline sampleCrates_lawful.toTotal sampleWorld
    sampleKeys ⟨[], 0, 0, [1, 2], [3]⟩ Pos.start sampleCommand
  have hs : aesEncryptZerobyte sampleCrates sampleKeys.key sampleKeys.iv (utf8
      (SaltState.saltedText sampleWorld ⟨[], 0, 0, [1, 2], [3]⟩ Pos.start sampleCommand) ++ [0]) =
        .ok sampleCipher := rfl
  rw [hs] at hc
  cases hc
  rw [he]
  exact congrArg _ (by decide +kernel)

end Lox
