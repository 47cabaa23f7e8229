import LoxWebsocket.Proto.Tables

/-!
# Text tables

The Miniserver writes a table of texts as `encodeTexts`: each record filled up
with zeros to a multiple of four. Of such a table, cut at any byte, `walkTexts`
gives the records whose header and text are there, and no others
(`walkTexts_take`). What it finds in a payload of any content is what the payload
starts with, up to the content of the padding (`walkTexts_laidOut`).

`walkTextsChecked` is the loop with what the machine could do to it: a sum that
does not fit, and a loop that does not end. Neither happens
(`walkTextsChecked_eq`).
-/

namespace Lox

/-! ## Records -/

/-- A number in four bytes, the lowest first. -/
def le32 (n : Nat) : Bytes :=
  [UInt8.ofNat n, UInt8.ofNat (n / 256), UInt8.ofNat (n / 65536), UInt8.ofNat (n / 16777216)]

theorem leNat_le32 {n : Nat} (h : n < 2 ^ 32) : leNat (le32 n) = n := by
  simp only [leNat, le32, List.foldr_cons, List.foldr_nil, UInt8.toNat_ofNat']
  omega

theorem le32_leNat {b : Bytes} (h : b.length = 4) : le32 (leNat b) = b ∧ leNat b < 2 ^ 32 := by
  obtain ⟨b₀, b₁, b₂, b₃, rfl⟩ : ∃ b₀ b₁ b₂ b₃, b = [b₀, b₁, b₂, b₃] := by
    match b, h with
    | [b₀, b₁, b₂, b₃], _ => exact ⟨b₀, b₁, b₂, b₃, rfl⟩
  have h₀ := b₀.toNat_lt
  have h₁ := b₁.toNat_lt
  have h₂ := b₂.toNat_lt
  have h₃ := b₃.toNat_lt
  have hle : leNat [b₀, b₁, b₂, b₃] = b₀.toNat + 256 * (b₁.toNat + 256 * (b₂.toNat + 256 * b₃.toNat)) := by
    simp [leNat]
  rw [hle]
  refine ⟨?_, by omega⟩
  simp only [le32, List.cons.injEq, ← UInt8.toNat_inj, UInt8.toNat_ofNat', and_true]
  omega

namespace TextRecord

/-- The record up to its padding. -/
def bytes (r : TextRecord) : Bytes := r.uuid.toList ++ r.icon.toList ++ le32 r.text.length ++ r.text

/-- How many bytes are missing to a multiple of four. -/
def padding (r : TextRecord) : Nat := (4 - r.text.length % 4) % 4

theorem length_bytes (r : TextRecord) : r.bytes.length = textHeaderSize + r.text.length := by
  simp only [bytes, le32, textHeaderSize, List.length_append, Vector.length_toList, List.length_cons, List.length_nil]

/-- The length a record is rounded up to. -/
theorem length_padded (r : TextRecord) :
    (textHeaderSize + r.text.length + 3) / 4 * 4 = r.bytes.length + r.padding := by
  rw [length_bytes, padding, textHeaderSize]
  omega

end TextRecord

/-- A table of texts. -/
def encodeTexts (rs : List TextRecord) : Bytes := rs.flatMap fun r => r.bytes ++ List.replicate r.padding 0

theorem encodeTexts_cons (r : TextRecord) (rs : List TextRecord) :
    encodeTexts (r :: rs) = r.bytes ++ (List.replicate r.padding 0 ++ encodeTexts rs) := by
  simp [encodeTexts]

/-- The records a payload starts with: each is followed by its padding, of any
content, of which the last may lack some. -/
inductive LaidOut : List TextRecord → Bytes → Prop
  | nil (rest : Bytes) : LaidOut [] rest
  | last {r : TextRecord} {pad : Bytes} (hpad : pad.length < r.padding) : LaidOut [r] (r.bytes ++ pad)
  | cons {r : TextRecord} {rs : List TextRecord} {pad rest : Bytes} (hpad : pad.length = r.padding)
      (h : LaidOut rs rest) : LaidOut (r :: rs) (r.bytes ++ (pad ++ rest))

/-! ## The front of a payload -/

theorem uuidAt_eq {b : Bytes} (before : Bytes) {after : Bytes} {uuid : LoxoneUuid}
    (h : b = before ++ (uuid.toList ++ after)) :
    uuidAt b before.length = uuid := by
  ext i hi
  rw [uuidAt, Vector.getElem_ofFn, h, List.getD_eq_getElem?_getD, List.getElem?_append_right (by omega),
    Nat.add_sub_cancel_left, List.getElem?_append_left (by simpa using hi)]
  simp [hi]

/-- A payload that starts with a record, as the loop reads it. -/
theorem read_record (r : TextRecord) (hr : r.text.length < 2 ^ 32) (rest : Bytes) :
    uuidAt (r.bytes ++ rest) 0 = r.uuid ∧ uuidAt (r.bytes ++ rest) 16 = r.icon ∧
      (u32At (r.bytes ++ rest) 32).toNat = r.text.length ∧
      (r.bytes ++ rest).drop textHeaderSize = r.text ++ rest := by
  have hhead : r.bytes ++ rest = r.uuid.toList ++ (r.icon.toList ++ (le32 r.text.length ++ (r.text ++ rest))) := by
    simp [TextRecord.bytes]
  have hlen : slice (r.bytes ++ rest) 32 4 = le32 r.text.length := by
    rw [hhead, slice, ← List.append_assoc, List.drop_append_of_le_length (by simp), List.drop_of_length_le (by simp)]
    rw [List.nil_append]
    exact List.take_left' rfl
  refine ⟨uuidAt_eq [] hhead, ?_, ?_, ?_⟩
  · have hicon := uuidAt_eq r.uuid.toList hhead
    rwa [Vector.length_toList] at hicon
  · rw [u32At, hlen, leNat_le32 hr, UInt32.toNat_ofNat']
    exact Nat.mod_eq_of_lt hr
  · rw [TextRecord.bytes, List.append_assoc]
    exact List.drop_left' (by simp [le32, textHeaderSize])

theorem length_slice {b : Bytes} {offset n : Nat} (h : offset + n ≤ b.length) : (slice b offset n).length = n := by
  rw [slice, List.length_take, List.length_drop]
  omega

theorem drop_eq_slice_append (b : Bytes) (offset n : Nat) :
    b.drop offset = slice b offset n ++ b.drop (offset + n) := by
  rw [slice, ← List.drop_drop, List.take_append_drop]

theorem toList_uuidAt {b : Bytes} {offset : Nat} (h : offset + 16 ≤ b.length) :
    (uuidAt b offset).toList = slice b offset 16 := by
  apply List.ext_getElem
  · rw [Vector.length_toList, length_slice h]
  · intro i hi _
    rw [Vector.length_toList] at hi
    have hlt : offset + i < b.length := by omega
    simp [uuidAt, slice, hlt]

/-- What the loop takes for a record is one. -/
theorem bytes_of_read {b : Bytes} {r : TextRecord} (hhead : textHeaderSize ≤ b.length)
    (htext : (u32At b 32).toNat ≤ (b.drop textHeaderSize).length)
    (hr : r = ⟨uuidAt b 0, uuidAt b 16, (b.drop textHeaderSize).take (u32At b 32).toNat⟩) :
    r.text.length = (u32At b 32).toNat ∧ ∃ rest, b = r.bytes ++ rest := by
  rw [textHeaderSize] at hhead
  have hlen : r.text.length = (u32At b 32).toNat := by
    rw [hr, List.length_take]
    omega
  have hle : le32 r.text.length = slice b 32 4 := by
    have hslice : (slice b 32 4).length = 4 := length_slice (by omega)
    have h4 := le32_leNat hslice
    rw [hlen, u32At, UInt32.toNat_ofNat', Nat.mod_eq_of_lt h4.2, h4.1]
  refine ⟨hlen, (b.drop textHeaderSize).drop (u32At b 32).toNat, ?_⟩
  have hbytes : r.bytes = slice b 0 16 ++ slice b 16 16 ++ slice b 32 4 ++
      (b.drop textHeaderSize).take (u32At b 32).toNat := by
    rw [TextRecord.bytes, hle, hr, toList_uuidAt (by omega), toList_uuidAt (by omega)]
  rw [hbytes, List.append_assoc, List.take_append_drop]
  calc b = slice b 0 16 ++ (slice b 16 16 ++ (slice b 32 4 ++ b.drop 36)) := by
        rw [← drop_eq_slice_append b 32 4, ← drop_eq_slice_append b 16 16, ← drop_eq_slice_append b 0 16,
          List.drop_zero]
    _ = slice b 0 16 ++ slice b 16 16 ++ slice b 32 4 ++ b.drop textHeaderSize := by
        simp only [List.append_assoc, textHeaderSize]

/-! ## The loop -/

/-- Where the next record would start. -/
def nextRecord (b : Bytes) : Nat := (textHeaderSize + (u32At b 32).toNat + 3) / 4 * 4

theorem length_drop_nextRecord {b : Bytes} (h : ¬ b.length < textHeaderSize) :
    (b.drop (nextRecord b)).length < b.length := by
  rw [List.length_drop, nextRecord]
  rw [textHeaderSize] at h ⊢
  omega

/-- The loop does not depend on its fuel, if that is more than the length. -/
theorem walkTextsLoop_fuel {fuel fuel' : Nat} {b : Bytes} (h : b.length < fuel) (h' : b.length < fuel') :
    walkTextsLoop fuel b = walkTextsLoop fuel' b := by
  induction fuel generalizing fuel' b with
  | zero => omega
  | succ fuel ih =>
    obtain ⟨fuel', rfl⟩ : ∃ n, fuel' = n + 1 := ⟨fuel' - 1, by omega⟩
    simp only [walkTextsLoop]
    split_ifs with hhead htext hnext
    · rfl
    · rfl
    · rfl
    · have hshort := length_drop_nextRecord hhead
      exact congrArg _ (ih (by rw [nextRecord] at hshort; omega) (by rw [nextRecord] at hshort; omega))

/-- The loop of the source, which has no fuel. -/
theorem walkTexts_eq (b : Bytes) : walkTexts b =
    if b.length < textHeaderSize then []
    else if (b.drop textHeaderSize).length < (u32At b 32).toNat then []
    else ⟨uuidAt b 0, uuidAt b 16, (b.drop textHeaderSize).take (u32At b 32).toNat⟩ ::
      if b.length < nextRecord b then [] else walkTexts (b.drop (nextRecord b)) := by
  rw [walkTexts, walkTextsLoop]
  dsimp only
  split_ifs with hhead htext hnext hnext'
  · rfl
  · rfl
  · rfl
  · exact absurd hnext hnext'
  · exact absurd ‹b.length < nextRecord b› hnext
  · exact congrArg _ (walkTextsLoop_fuel (length_drop_nextRecord hhead) (Nat.lt_succ_self _))

/-- With less than a record left, nothing more is found. -/
theorem walkTexts_stop {b : Bytes}
    (h : b.length < textHeaderSize ∨ (b.drop textHeaderSize).length < (u32At b 32).toNat) : walkTexts b = [] := by
  rw [walkTexts_eq]
  split_ifs with hhead htext
  · rfl
  · rfl
  · exact absurd h (not_or.mpr ⟨hhead, htext⟩)

/-- A record is found, and the next one after its padding. -/
theorem walkTexts_record {r : TextRecord} (hr : r.text.length < 2 ^ 32) (rest : Bytes) :
    walkTexts (r.bytes ++ rest) = r :: if rest.length < r.padding then [] else walkTexts (rest.drop r.padding) := by
  obtain ⟨huuid, hicon, hlen, hdrop⟩ := read_record r hr rest
  have hhead : ¬ (r.bytes ++ rest).length < textHeaderSize := by
    rw [List.length_append, r.length_bytes]
    omega
  have htext : ¬ (r.text ++ rest).length < r.text.length := by
    rw [List.length_append]
    omega
  have hnext : nextRecord (r.bytes ++ rest) = r.bytes.length + r.padding := by rw [nextRecord, hlen, r.length_padded]
  rw [walkTexts_eq, if_neg hhead, huuid, hicon, hlen, hdrop, if_neg htext, hnext, List.take_left, ← List.drop_drop,
    List.drop_left, List.length_append]
  simp only [Nat.add_lt_add_iff_left]

/-- Nothing is found, or the payload starts with a record. -/
theorem walkTexts_cases (b : Bytes) :
    walkTexts b = [] ∨ ∃ r rest, r.text.length < 2 ^ 32 ∧ b = TextRecord.bytes r ++ rest := by
  by_cases hstop : b.length < textHeaderSize ∨ (b.drop textHeaderSize).length < (u32At b 32).toNat
  · exact .inl (walkTexts_stop hstop)
  · rw [not_or, Nat.not_lt, Nat.not_lt] at hstop
    obtain ⟨hlen, rest, hb⟩ := bytes_of_read hstop.1 hstop.2 rfl
    exact .inr ⟨_, rest, by rw [hlen]; exact UInt32.toNat_lt _, hb⟩

/-! ## A table that is cut -/

/-- A record that is cut is not found. -/
theorem walkTexts_take_short {r : TextRecord} (hr : r.text.length < 2 ^ 32) (rest : Bytes) {n : Nat}
    (hn : n < r.bytes.length) : walkTexts ((r.bytes ++ rest).take n) = [] := by
  by_cases hhead : n < textHeaderSize
  · exact walkTexts_stop (.inl (by rw [List.length_take]; omega))
  · refine walkTexts_stop (.inr ?_)
    have hu32 : u32At ((r.bytes ++ rest).take n) 32 = u32At (r.bytes ++ rest) 32 := by
      rw [textHeaderSize] at hhead
      simp only [u32At, slice, List.drop_take, List.take_take]
      rw [Nat.min_eq_left (by omega)]
    rw [hu32, (read_record r hr rest).2.2.1, List.length_drop, List.length_take]
    rw [r.length_bytes] at hn
    omega

theorem length_encodeTexts_take (r : TextRecord) (rs : List TextRecord) (i : Nat) :
    (encodeTexts ((r :: rs).take (i + 1))).length = r.bytes.length + r.padding + (encodeTexts (rs.take i)).length := by
  rw [List.take_succ_cons, encodeTexts_cons, List.length_append, List.length_append, List.length_replicate]
  omega

/-- Of a table cut after `n` bytes, the first records are found, and a record is
one of them if and only if it ends within these bytes, its padding apart. -/
theorem walkTexts_take {rs : List TextRecord} (hrs : ∀ r ∈ rs, r.text.length < 2 ^ 32) (n : Nat) :
    ∃ k, walkTexts ((encodeTexts rs).take n) = rs.take k ∧ ∀ (i : Nat) (hi : i < rs.length),
      i < k ↔ (encodeTexts (rs.take i)).length + rs[i].bytes.length ≤ n := by
  induction rs generalizing n with
  | nil =>
    refine ⟨0, ?_, fun i hi => absurd hi (Nat.not_lt_zero i)⟩
    rw [encodeTexts, List.flatMap_nil, List.take_nil]
    rfl
  | cons r rs ih =>
    rw [List.forall_mem_cons] at hrs
    rw [encodeTexts_cons]
    by_cases hcut : n < r.bytes.length
    · refine ⟨0, walkTexts_take_short hrs.1 _ hcut, fun i hi => ?_⟩
      cases i with
      | zero => simp [encodeTexts, hcut]
      | succ i =>
        rw [length_encodeTexts_take]
        omega
    · rw [List.take_append, List.take_of_length_le (by omega), walkTexts_record hrs.1]
      by_cases hpad : n < r.bytes.length + r.padding
      · refine ⟨1, ?_, fun i hi => ?_⟩
        · rw [if_pos (by rw [List.length_take]; omega)]
          rfl
        · cases i with
          | zero => simp [encodeTexts]; omega
          | succ i =>
            rw [length_encodeTexts_take]
            omega
      · obtain ⟨k, hk, hiff⟩ := ih hrs.2 (n - (r.bytes.length + r.padding))
        refine ⟨k + 1, ?_, fun i hi => ?_⟩
        · have hlong : r.padding ≤ (List.replicate r.padding (0 : UInt8) ++ encodeTexts rs).length := by simp
          rw [if_neg (by rw [List.length_take]; omega), List.drop_take, List.drop_left' (List.length_replicate ..),
            Nat.sub_sub, hk, List.take_succ_cons]
        · cases i with
          | zero => simp [encodeTexts]; omega
          | succ i =>
            rw [length_encodeTexts_take, Nat.add_lt_add_iff_right, hiff i (by simpa using hi), List.getElem_cons_succ]
            omega

/-! ## Any payload -/

/-- The records found are those that the payload starts with. -/
theorem walkTexts_laidOut (payload : Bytes) : LaidOut (walkTexts payload) payload := by
  induction hn : payload.length using Nat.strong_induction_on generalizing payload with
  | _ n ih =>
    rcases walkTexts_cases payload with hnil | ⟨r, rest, hr, rfl⟩
    · rw [hnil]
      exact .nil payload
    · rw [walkTexts_record hr]
      split_ifs with hpad
      · exact .last hpad
      · have hshort : (rest.drop r.padding).length < n := by
          rw [← hn, List.length_append, List.length_drop, r.length_bytes, textHeaderSize]
          omega
        have hrest := ih _ hshort (rest.drop r.padding) rfl
        have hpadded : (rest.take r.padding).length = r.padding := by
          rw [List.length_take]
          omega
        have hlaid := LaidOut.cons hpadded hrest
        rwa [List.take_append_drop] at hlaid

/-! ## The machine -/

/-- A sum in a word of `bits` bits. -/
def checkedAdd (bits a b : Nat) : Option Nat := if a + b < 2 ^ bits then some (a + b) else none

/-- The header of a record, and what follows it. -/
def refFromPrefix (rest : Bytes) : Option (LoxoneUuid × LoxoneUuid × UInt32 × Bytes) :=
  if h : textHeaderSize ≤ rest.length then
    some (Vector.ofFn fun i => rest.get ⟨i, Nat.lt_of_lt_of_le (Nat.lt_trans i.isLt (by decide)) h⟩,
      Vector.ofFn fun i => rest.get
        ⟨16 + i, Nat.lt_of_lt_of_le (Nat.lt_trans (Nat.add_lt_add_left i.isLt 16) (by decide)) h⟩,
      UInt32.ofNat (leNat (slice rest 32 4)), rest.drop textHeaderSize)
  else none

/-- The loop on a machine with words of `bits` bits: `none` if a sum does not fit
a word, or the loop has not ended after `fuel` rounds. -/
def walkTextsChecked (bits : Nat) : Nat → Bytes → Option (List TextRecord)
  | 0, _ => none
  | fuel + 1, rest =>
    match refFromPrefix rest with
    | none => some []
    | some (uuid, icon, textLength, afterHeader) =>
      if afterHeader.length < textLength.toNat then some []
      else do
        let text := afterHeader.take textLength.toNat
        let n ← checkedAdd bits textHeaderSize textLength.toNat
        let n ← checkedAdd bits n 3
        let recordLen := n / 4 * 4
        if rest.length < recordLen then some [⟨uuid, icon, text⟩]
        else (walkTextsChecked bits fuel (rest.drop recordLen)).map (⟨uuid, icon, text⟩ :: ·)

theorem refFromPrefix_eq (rest : Bytes) : refFromPrefix rest =
    if rest.length < textHeaderSize then none
    else some (uuidAt rest 0, uuidAt rest 16, u32At rest 32, rest.drop textHeaderSize) := by
  unfold refFromPrefix
  split_ifs with hlong hshort
  · omega
  · have huuid (i : Nat) (hi : i < 32) : rest.getD i 0 = rest.get ⟨i, by rw [textHeaderSize] at hlong; omega⟩ := by
      rw [textHeaderSize] at hlong
      have hlt : i < rest.length := by omega
      simp [hlt]
    simp only [uuidAt, u32At, Option.some.injEq, Prod.mk.injEq, and_true]
    refine ⟨?_, ?_⟩
    · ext i hi
      rw [Vector.getElem_ofFn, Vector.getElem_ofFn, Nat.zero_add, huuid i (by omega)]
    · ext i hi
      rw [Vector.getElem_ofFn, Vector.getElem_ofFn, huuid (16 + i) (by omega)]
  · rfl
  · omega

/-- On a machine with words of at least 32 bits, for a payload that it can hold,
no sum overflows and the loop ends. -/
theorem walkTextsChecked_eq {bits : Nat} (hbits : 32 ≤ bits) {fuel : Nat} {payload : Bytes}
    (hfits : payload.length < 2 ^ (bits - 1)) (hfuel : payload.length < fuel) :
    walkTextsChecked bits fuel payload = some (walkTexts payload) := by
  induction fuel generalizing payload with
  | zero => omega
  | succ fuel ih =>
    rw [walkTextsChecked, refFromPrefix_eq, walkTexts_eq]
    by_cases hhead : payload.length < textHeaderSize
    · rw [if_pos hhead, if_pos hhead]
    rw [if_neg hhead, if_neg hhead]
    dsimp only
    by_cases htext : (payload.drop textHeaderSize).length < (u32At payload 32).toNat
    · rw [if_pos htext, if_pos htext]
    rw [if_neg htext, if_neg htext]
    -- the text is part of the payload, which takes at most half of the words
    have hword : 2 ^ 31 ≤ 2 ^ (bits - 1) := Nat.pow_le_pow_right (by decide) (by omega)
    have hdouble : 2 ^ bits = 2 * 2 ^ (bits - 1) := by
      rw [← Nat.pow_succ']
      congr 1
      omega
    rw [List.length_drop] at htext
    have hadd : checkedAdd bits textHeaderSize (u32At payload 32).toNat =
        some (textHeaderSize + (u32At payload 32).toNat) := if_pos (by omega)
    have hround : checkedAdd bits (textHeaderSize + (u32At payload 32).toNat) 3 =
        some (textHeaderSize + (u32At payload 32).toNat + 3) := if_pos (by omega)
    have hshort := length_drop_nextRecord hhead
    have hrest : walkTextsChecked bits fuel (payload.drop (nextRecord payload)) =
        some (walkTexts (payload.drop (nextRecord payload))) := ih (by omega) (by omega)
    simp only [hadd, hround, Option.bind_eq_bind, Option.bind_some]
    change (if payload.length < nextRecord payload then _ else _) = _
    split_ifs with hnext
    · rfl
    · exact congrArg (Option.map _) hrest

/-- Of a table cut after `n` bytes, exactly the records are found that end within
these bytes, their padding apart. And in any payload, without an overflow and in
finitely many rounds, the records are found that it starts with, up to the content
of the padding. -/
theorem texts_decode_exactly (rs : List TextRecord) (hrs : ∀ r ∈ rs, r.text.length < 2 ^ 32) (n : Nat)
    (payload : Bytes) (bits : Nat) (hbits : 32 ≤ bits) (hfits : payload.length < 2 ^ (bits - 1)) :
    (∃ k, walkTexts ((encodeTexts rs).take n) = rs.take k ∧ ∀ (i : Nat) (hi : i < rs.length),
        i < k ↔ (encodeTexts (rs.take i)).length + rs[i].bytes.length ≤ n) ∧
      walkTextsChecked bits (payload.length + 1) payload = some (walkTexts payload) ∧
      LaidOut (walkTexts payload) payload :=
  ⟨walkTexts_take hrs n, walkTextsChecked_eq hbits hfits (Nat.lt_succ_self _), walkTexts_laidOut payload⟩

/-- A record with the text `hi`. -/
def sampleText : TextRecord := ⟨Vector.replicate 16 0x11, Vector.replicate 16 0x22, [0x68, 0x69]⟩

/-- Two records, the second without its padding. -/
theorem texts_decode_exactly_unpadded :
    (∃ k, walkTexts ((encodeTexts [sampleText, sampleText]).take 78) = [sampleText, sampleText].take k ∧
        ∀ (i : Nat) (hi : i < 2), i < k ↔ (encodeTexts ([sampleText, sampleText].take i)).length +
          ([sampleText, sampleText][i]).bytes.length ≤ 78) ∧
      walkTextsChecked 64 79 (encodeTexts [sampleText, sampleText] |>.take 78) =
        some (walkTexts ((encodeTexts [sampleText, sampleText]).take 78)) ∧
      LaidOut (walkTexts ((encodeTexts [sampleText, sampleText]).take 78))
        ((encodeTexts [sampleText, sampleText]).take 78) :=
  texts_decode_exactly [sampleText, sampleText] (by simp [sampleText]) 78
    ((encodeTexts [sampleText, sampleText]).take 78) 64 (by decide) (by decide)

end Lox
