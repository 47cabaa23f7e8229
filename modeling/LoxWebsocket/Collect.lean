import LoxWebsocket.Framework.LastWins
import LoxWebsocket.Proto.Texts
import LoxWebsocket.Uuid

/-!
# Snapshots of an event table

`collectValues` and `collectTexts` put the records of a table into a map keyed by
UUID, `collectValuesByName` and `collectTextsByName` into one keyed by its text. The
hash maps are keyed with the crate's own hasher (`LoxHasher`), on a little-endian
machine. A later record wins, and the second kind of map is the first with its keys
formatted (`collect_flavours_agree`).
-/

namespace Lox

/-! ## The hasher -/

structure LoxHasher where
  hash : UInt64

namespace LoxHasher

def default : LoxHasher := ⟨0⟩

def seed : UInt64 := 0x517cc1b727220a95

def rotateLeft (x : UInt64) (n : UInt64) : UInt64 := (x <<< n) ||| (x >>> (64 - n))

def add (h : LoxHasher) (word : UInt64) : LoxHasher := ⟨(rotateLeft h.hash 5 ^^^ word) * seed⟩

/-- Eight bytes at a time; what is left is filled up with zeros, which do not
change its value. -/
def write (h : LoxHasher) : Bytes → LoxHasher
  | b₀ :: b₁ :: b₂ :: b₃ :: b₄ :: b₅ :: b₆ :: b₇ :: rest =>
    write (h.add (UInt64.ofNat (leNat [b₀, b₁, b₂, b₃, b₄, b₅, b₆, b₇]))) rest
  | [] => h
  | rest => h.add (UInt64.ofNat (leNat rest))

def writeU64 (h : LoxHasher) (n : UInt64) : LoxHasher := h.add n

def writeUsize (h : LoxHasher) (n : Nat) : LoxHasher := h.add (UInt64.ofNat n)

def finish (h : LoxHasher) : UInt64 := h.hash

end LoxHasher

namespace LoxoneUuid

def asU64Pair (u : LoxoneUuid) : UInt64 × UInt64 :=
  (UInt64.ofNat (leNat (u.toList.take 8)), UInt64.ofNat (leNat (u.toList.drop 8)))

end LoxoneUuid

instance : Hashable LoxoneUuid where
  hash u := ((LoxHasher.default.writeU64 u.asU64Pair.1).writeU64 u.asU64Pair.2).finish

/-- The text of a UUID, as a key of a map. -/
structure LoxoneUuidStr where
  bytes : Vector UInt8 loxoneUuidStrLen
  deriving DecidableEq

/-- An array is hashed as its length and its bytes. -/
instance : Hashable LoxoneUuidStr where
  hash k := ((LoxHasher.default.writeUsize loxoneUuidStrLen).write k.bytes.toList).finish

def LoxoneUuid.formatLoxoneKey (u : LoxoneUuid) : LoxoneUuidStr := ⟨u.formatLoxoneBytes⟩

/-! ## The maps -/

abbrev UuidMap (ν : Type) := Std.HashMap LoxoneUuid ν
abbrev UuidStrMap (ν : Type) := Std.HashMap LoxoneUuidStr ν

def collectValues (payload : Bytes) : UuidMap UInt64 :=
  (walkValues payload).foldl (fun map r => map.insert r.uuid r.value)
    (Std.HashMap.emptyWithCapacity (payload.length / valueRecordSize))

/-- A text out of the frame buffer; none is allocated for an empty one. -/
def ownText (text : Bytes) : Bytes := if text.isEmpty then [] else text

def textCapacity (payload : Bytes) : Nat := payload.length / textHeaderSize

def collectTexts (payload : Bytes) : UuidMap Bytes :=
  (walkTexts payload).foldl (fun map r => map.insert r.uuid (ownText r.text))
    (Std.HashMap.emptyWithCapacity (textCapacity payload))

def collectValuesByName (payload : Bytes) : UuidStrMap UInt64 :=
  (walkValues payload).foldl (fun map r => map.insert r.uuid.formatLoxoneKey r.value)
    (Std.HashMap.emptyWithCapacity (payload.length / valueRecordSize))

def collectTextsByName (payload : Bytes) : UuidStrMap Bytes :=
  (walkTexts payload).foldl (fun map r => map.insert r.uuid.formatLoxoneKey (ownText r.text))
    (Std.HashMap.emptyWithCapacity (textCapacity payload))

/-! ## What they hold -/

/-- The complete records of 24 bytes, in order. -/
def completeRecords (payload : Bytes) : List ValueRecord :=
  (List.range (payload.length / valueRecordSize)).map fun k =>
    ⟨uuidAt payload (valueRecordSize * k), f64At payload (valueRecordSize * k + 16)⟩

theorem uuidAt_slice (b : Bytes) {offset n size : Nat} (h : n + 16 ≤ size) :
    uuidAt (slice b offset size) n = uuidAt b (offset + n) := by
  ext i hi
  rw [uuidAt, uuidAt, Vector.getElem_ofFn, Vector.getElem_ofFn, slice, List.getD_eq_getElem?_getD,
    List.getD_eq_getElem?_getD, List.getElem?_take_of_lt (by omega), List.getElem?_drop, Nat.add_assoc]

theorem slice_slice (b : Bytes) {offset n m size : Nat} (h : n + m ≤ size) :
    slice (slice b offset size) n m = slice b (offset + n) m := by
  rw [slice, slice, slice, List.drop_take, List.take_take, List.drop_drop, Nat.min_eq_left (by omega)]

theorem walkValues_eq (payload : Bytes) : walkValues payload = completeRecords payload := by
  rw [walkValues, records_eq, completeRecords]
  refine List.map_congr_left fun k _ => ?_
  rw [uuidAt_slice _ (by decide), f64At, slice_slice _ (by decide)]
  rfl

theorem ownText_eq (text : Bytes) : ownText text = text := by
  cases text <;> rfl

theorem formatLoxoneKey_injective : Function.Injective LoxoneUuid.formatLoxoneKey := by
  intro u v h
  have hbytes : u.formatLoxoneBytes = v.formatLoxoneBytes := LoxoneUuidStr.mk.inj h
  refine LoxoneUuid.formatLoxone_injective ?_
  simp only [LoxoneUuid.formatLoxone, LoxoneUuid.formatLoxoneInto, hbytes]

/-- The map by name has the entries of the one by UUID, each under the text of its
key, and no others. -/
def Flavours {ν : Type} (byUuid : UuidMap ν) (byName : UuidStrMap ν) : Prop :=
  Renames LoxoneUuid.formatLoxoneKey byUuid byName

theorem flavours_values (payload : Bytes) : Flavours (collectValues payload) (collectValuesByName payload) :=
  (renames_empty _ _ _).fill formatLoxoneKey_injective ValueRecord.uuid ValueRecord.value (walkValues payload)

theorem flavours_texts (payload : Bytes) : Flavours (collectTexts payload) (collectTextsByName payload) :=
  (renames_empty _ _ _).fill formatLoxoneKey_injective TextRecord.uuid (fun r => ownText r.text) (walkTexts payload)

/-- A map by UUID holds the last record of each; a map by name is the map by UUID
with its keys formatted, so that a parsed name finds the same in both. -/
theorem collect_flavours_agree (payload : Bytes) :
    (∀ u, (collectValues payload)[u]? =
        lastValue ValueRecord.uuid ValueRecord.value (completeRecords payload) u) ∧
      (∀ u, (collectTexts payload)[u]? = lastValue TextRecord.uuid TextRecord.text (walkTexts payload) u) ∧
      Flavours (collectValues payload) (collectValuesByName payload) ∧
      Flavours (collectTexts payload) (collectTextsByName payload) ∧
      ∀ s u, LoxoneUuid.parse s = .ok u →
        (collectValuesByName payload)[u.formatLoxoneKey]? = (collectValues payload)[u]? ∧
          (collectTextsByName payload)[u.formatLoxoneKey]? = (collectTexts payload)[u]? := by
  refine ⟨fun u => ?_, fun u => ?_, flavours_values payload, flavours_texts payload, fun s u _ => ?_⟩
  · have hfill := getElem?_fill ValueRecord.uuid ValueRecord.value
      (Std.HashMap.emptyWithCapacity (payload.length / valueRecordSize)) (walkValues payload) u
    rw [walkValues_eq, Std.HashMap.getElem?_emptyWithCapacity, Option.or_none] at hfill
    rw [collectValues, walkValues_eq]
    exact hfill
  · have hfill := getElem?_fill TextRecord.uuid (fun r => ownText r.text)
      (Std.HashMap.emptyWithCapacity (textCapacity payload)) (walkTexts payload) u
    rw [Std.HashMap.getElem?_emptyWithCapacity, Option.or_none] at hfill
    simp only [ownText_eq] at hfill
    simp only [collectTexts, ownText_eq]
    exact hfill
  · exact ⟨(flavours_values payload).lookup u, (flavours_texts payload).lookup u⟩

end Lox
