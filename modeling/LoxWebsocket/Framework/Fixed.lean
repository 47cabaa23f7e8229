import Mathlib.Logic.Equiv.Defs
import LoxWebsocket.Framework.Text

/-!
# Encodings of a fixed size

`Fixed α` writes every `α` in the same number of bytes. Both ways are part of it:
what is written is read back, whatever follows it, and what is read is written as
the bytes it was read from. `pair` puts one value behind another and `map` reads
through a bijection, so that the encoding of a record is put together from those of
its fields. `encodeAll` writes a list of values; `decodeAll` reads a given number of
them, and the two are inverse (`decodeAll_encodeAll`, `encodeAll_decodeAll`).
-/

namespace Lox

/-- An encoding of `α` in `size` bytes. -/
structure Fixed (α : Type) where
  size : Nat
  encode : α → Bytes
  decode : Bytes → α
  length_encode : ∀ a, (encode a).length = size
  decode_encode : ∀ a rest, decode (encode a ++ rest) = a
  encode_decode : ∀ b, size ≤ b.length → encode (decode b) = b.take size

namespace Fixed

variable {α β : Type}

/-- One value behind another. -/
def pair (f : Fixed α) (g : Fixed β) : Fixed (α × β) where
  size := f.size + g.size
  encode p := f.encode p.1 ++ g.encode p.2
  decode b := (f.decode b, g.decode (b.drop f.size))
  length_encode p := by rw [List.length_append, f.length_encode, g.length_encode]
  decode_encode p rest := by
    rw [List.append_assoc, f.decode_encode, List.drop_left' (f.length_encode p.1), g.decode_encode]
  encode_decode b h := by
    rw [f.encode_decode b (by omega), g.encode_decode _ (by rw [List.length_drop]; omega), ← List.take_add]

/-- The values read through a bijection. -/
def map (f : Fixed α) (e : α ≃ β) : Fixed β where
  size := f.size
  encode b := f.encode (e.symm b)
  decode b := e (f.decode b)
  length_encode b := f.length_encode _
  decode_encode b rest := by rw [f.decode_encode, Equiv.apply_symm_apply]
  encode_decode b h := by rw [Equiv.symm_apply_apply, f.encode_decode b h]

/-- Only the bytes of the value are read. -/
theorem decode_take (f : Fixed α) {b : Bytes} (h : f.size ≤ b.length) : f.decode (b.take f.size) = f.decode b := by
  have hread := f.decode_encode (f.decode b) []
  rwa [List.append_nil, f.encode_decode b h] at hread

/-- Values one behind another. -/
def encodeAll (f : Fixed α) (l : List α) : Bytes := l.flatMap f.encode

/-- `count` values from the front. -/
def decodeAll (f : Fixed α) : Nat → Bytes → List α
  | 0, _ => []
  | count + 1, b => f.decode (b.take f.size) :: decodeAll f count (b.drop f.size)

theorem length_encodeAll (f : Fixed α) (l : List α) : (f.encodeAll l).length = l.length * f.size := by
  induction l with
  | nil => simp [encodeAll]
  | cons a l ih =>
    rw [encodeAll, List.flatMap_cons, List.length_append, f.length_encode, List.length_cons, Nat.succ_mul,
      Nat.add_comm, ← ih, encodeAll]

theorem length_decodeAll (f : Fixed α) (count : Nat) (b : Bytes) : (f.decodeAll count b).length = count := by
  induction count generalizing b with
  | zero => rfl
  | succ count ih => rw [decodeAll, List.length_cons, ih]

theorem decodeAll_encodeAll (f : Fixed α) (l : List α) (rest : Bytes) :
    f.decodeAll l.length (f.encodeAll l ++ rest) = l := by
  induction l with
  | nil => rfl
  | cons a l ih =>
    have hcons : f.encodeAll (a :: l) ++ rest = f.encode a ++ (f.encodeAll l ++ rest) := by
      simp [encodeAll]
    have hread := f.decode_encode a []
    rw [List.append_nil] at hread
    rw [hcons, List.length_cons, decodeAll, List.take_left' (f.length_encode a), List.drop_left' (f.length_encode a),
      hread, ih]

theorem encodeAll_decodeAll (f : Fixed α) {count : Nat} {b : Bytes} (h : count * f.size ≤ b.length) :
    f.encodeAll (f.decodeAll count b) = b.take (count * f.size) := by
  induction count generalizing b with
  | zero => simp [encodeAll, decodeAll]
  | succ count ih =>
    rw [Nat.succ_mul] at h ⊢
    have hrest := ih (b := b.drop f.size) (by rw [List.length_drop]; omega)
    have hcons (a : α) (l : List α) : f.encodeAll (a :: l) = f.encode a ++ f.encodeAll l := List.flatMap_cons
    rw [decodeAll, hcons, hrest, f.decode_take (by omega), f.encode_decode b (by omega), ← List.take_add, Nat.add_comm]

end Fixed

end Lox
