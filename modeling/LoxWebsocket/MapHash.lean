import LoxWebsocket.Framework.Chunks
import LoxWebsocket.Framework.Mixing
import LoxWebsocket.Collect
import LoxWebsocket.Proto.Counted

/-!
# What the map hasher depends on

`LoxHasher.add` rotates, takes in a word and multiplies by an odd number, all modulo
2⁶⁴. Each of the three can be undone, so the step mixes (`mixes_add`): a difference in
one word is carried through all the words after it. `writeOn` is `write` on a machine
of either byte order (`writeOn_little`); keys that differ within one aligned chunk, or
within the short tail, are hashed to different values, and so are UUIDs that differ in
one half (`hash_sees_every_byte`).
-/

namespace Lox

/-- The order of the bytes of a word in memory. -/
inductive Endian
  | little
  | big
  deriving DecidableEq

/-- `u64::from_ne_bytes`. -/
def Endian.fromNeBytes : Endian → Bytes → UInt64
  | .little, b => UInt64.ofNat (leNat b)
  | .big, b => UInt64.ofNat (leNat b.reverse)

theorem Endian.fromNeBytes_inj (e : Endian) {b c : Bytes} (hb : b.length = 8) (hc : c.length = 8)
    (h : e.fromNeBytes b = e.fromNeBytes c) : b = c := by
  have hword {b c : Bytes} (hb : b.length = 8) (hc : c.length = 8)
      (h : UInt64.ofNat (leNat b) = UInt64.ofNat (leNat c)) : b = c := by
    have hnat := congrArg UInt64.toNat h
    rw [UInt64.toNat_ofNat', UInt64.toNat_ofNat', Nat.mod_eq_of_lt (le32Pair_leNat hb).2,
      Nat.mod_eq_of_lt (le32Pair_leNat hc).2] at hnat
    rw [← (le32Pair_leNat hb).1, hnat, (le32Pair_leNat hc).1]
  cases e with
  | little => exact hword hb hc h
  | big => exact List.reverse_inj.mp (hword (by rwa [List.length_reverse]) (by rwa [List.length_reverse]) h)

namespace LoxHasher

/-! ## One step -/

def seedInverse : UInt64 := 0x2040003d780970bd

theorem seed_mul_seedInverse : seed * seedInverse = 1 := by decide

theorem mixes_add : Mixes add where
  state word := by
    intro g h hadd
    have hxor := mul_injective seed_mul_seedInverse (congrArg hash hadd)
    have hrotate := (UInt64.xor_left_inj word).mp hxor
    exact congrArg LoxHasher.mk (rotate_injective (n := 5) (by decide) (by decide) hrotate)
  item h := by
    intro v w hadd
    exact (UInt64.xor_right_inj _).mp (mul_injective seed_mul_seedInverse (congrArg hash hadd))

/-! ## Slices -/

/-- The word of a chunk, of which a short one is filled up with zeros. -/
def wordOf (e : Endian) (chunk : Bytes) : UInt64 := e.fromNeBytes (resize chunk 8 0)

/-- `write` on a machine of byte order `e`. -/
def writeOn (e : Endian) (h : LoxHasher) (bytes : Bytes) : LoxHasher :=
  ((chunks 8 bytes).map (wordOf e)).foldl add h

theorem leNat_zeros (n : Nat) : leNat (List.replicate n 0) = 0 := by
  induction n with
  | zero => rfl
  | succ n ih =>
    have hcons : leNat (List.replicate (n + 1) 0) = 0 + 256 * leNat (List.replicate n 0) := rfl
    rw [hcons, ih]

theorem wordOf_little {chunk : Bytes} (h : chunk.length ≤ 8) : wordOf .little chunk = UInt64.ofNat (leNat chunk) := by
  rw [wordOf, resize_of_le h, Endian.fromNeBytes, leNat_append, leNat_zeros, Nat.mul_zero, Nat.add_zero]

theorem writeOn_little (h : LoxHasher) (bytes : Bytes) : h.writeOn .little bytes = h.write bytes := by
  induction h, bytes using write.induct with
  | case1 h b₀ b₁ b₂ b₃ b₄ b₅ b₆ b₇ rest ih =>
    have hchunk := chunks_append (n := 8) (by decide) (a := [b₀, b₁, b₂, b₃, b₄, b₅, b₆, b₇]) rfl rest
    rw [write, ← ih, writeOn, writeOn]
    change ((chunks 8 ([b₀, b₁, b₂, b₃, b₄, b₅, b₆, b₇] ++ rest)).map _).foldl add h = _
    rw [hchunk, List.map_cons, List.foldl_cons,
      wordOf_little (show [b₀, b₁, b₂, b₃, b₄, b₅, b₆, b₇].length ≤ 8 from Nat.le_refl 8)]
  | case2 h => rfl
  | case3 h rest hlong hne =>
    have hshort : rest.length < 8 := by
      match rest, hlong with
      | [], _ | [_], _ | [_, _], _ | [_, _, _], _ | [_, _, _, _], _ | [_, _, _, _, _], _ | [_, _, _, _, _, _], _
      | [_, _, _, _, _, _, _], _ => simp
      | _ :: _ :: _ :: _ :: _ :: _ :: _ :: _ :: _, hlong => exact (hlong _ _ _ _ _ _ _ _ _ rfl).elim
    rw [write.eq_3 h rest hlong hne, writeOn, chunks_of_length_le hne hshort.le, List.map_singleton,
      wordOf_little hshort.le]
    rfl

theorem wordOf_inj (e : Endian) {c d : Bytes} (hlen : c.length = d.length) (hle : c.length ≤ 8)
    (h : wordOf e c = wordOf e d) : c = d := by
  have hfill := e.fromNeBytes_inj (length_resize _ _ _) (length_resize _ _ _) h
  rw [resize_of_le hle, resize_of_le (hlen ▸ hle)] at hfill
  exact (List.append_inj hfill hlen).1

/-- Slices that differ only in the bytes of chunk `k`, which may be the short tail. -/
theorem writeOn_ne (e : Endian) (h : LoxHasher) {xs ys : Bytes} {k : Nat} (hlen : xs.length = ys.length)
    (hsame : ∀ i, i / 8 ≠ k → xs[i]? = ys[i]?) (hne : xs ≠ ys) : h.writeOn e xs ≠ h.writeOn e ys := by
  have hchunk (i : Nat) (hi : i ≠ k) : (chunks 8 xs)[i]? = (chunks 8 ys)[i]? := by
    have hpiece : (xs.drop (8 * i)).take 8 = (ys.drop (8 * i)).take 8 := by
      refine List.ext_getElem? fun j => ?_
      by_cases hj : j < 8
      · rw [List.getElem?_take_of_lt hj, List.getElem?_take_of_lt hj, List.getElem?_drop, List.getElem?_drop]
        exact hsame _ (by omega)
      · rw [List.getElem?_eq_none (by rw [List.length_take]; omega),
          List.getElem?_eq_none (by rw [List.length_take]; omega)]
    rw [getElem?_chunks, getElem?_chunks, hlen, hpiece]
  refine mixes_add.foldl_ne (k := k) (by simp [chunks, hlen]) (fun i hi => ?_) (fun heq => hne ?_) h
  · rw [List.getElem?_map, List.getElem?_map, hchunk i hi]
  · have hchunks : chunks 8 xs = chunks 8 ys := by
      refine List.ext_getElem? fun i => ?_
      have hi := congrArg (·[i]?) heq
      simp only [List.getElem?_map, getElem?_chunks, hlen] at hi ⊢
      split_ifs at hi ⊢ with hlt
      · rw [Option.map_some, Option.map_some] at hi
        refine congrArg some (wordOf_inj e ?_ (List.length_take_le 8 _) (Option.some.inj hi))
        rw [List.length_take, List.length_take, List.length_drop, List.length_drop, hlen]
      · rfl
    rw [← flatten_chunks (n := 8) (by decide) xs, hchunks, flatten_chunks (by decide)]

theorem finish_ne {g h : LoxHasher} (hne : g ≠ h) : g.finish ≠ h.finish := fun heq => hne (congrArg LoxHasher.mk heq)

end LoxHasher

/-! ## UUIDs -/

namespace LoxoneUuid

/-- `asU64Pair` on a machine of byte order `e`. -/
def asU64PairOn (e : Endian) (u : LoxoneUuid) : UInt64 × UInt64 :=
  (e.fromNeBytes (u.toList.take 8), e.fromNeBytes (u.toList.drop 8))

/-- `Hash::hash`. -/
def hashOn (e : Endian) (u : LoxoneUuid) (state : LoxHasher) : LoxHasher :=
  (state.writeU64 (u.asU64PairOn e).1).writeU64 (u.asU64PairOn e).2

/-- A UUID is hashed as the slice of its bytes. -/
theorem hashOn_eq (e : Endian) (u : LoxoneUuid) (state : LoxHasher) :
    u.hashOn e state = state.writeOn e u.toList := by
  have hlen : u.toList.length = 16 := Vector.length_toList
  have htake : (u.toList.take 8).length = 8 := by rw [List.length_take, hlen]; rfl
  have hdrop : (u.toList.drop 8).length = 8 := by rw [List.length_drop, hlen]
  have hword {c : Bytes} (hc : c.length = 8) : LoxHasher.wordOf e c = e.fromNeBytes c := by
    rw [LoxHasher.wordOf, resize_of_le hc.le, hc, Nat.sub_self, List.replicate_zero, List.append_nil]
  have hchunks : chunks 8 u.toList = [u.toList.take 8, u.toList.drop 8] := by
    conv_lhs => rw [← List.take_append_drop 8 u.toList]
    rw [chunks_append (by decide) htake, chunks_of_length_le (List.ne_nil_of_length_eq_add_one hdrop) hdrop.le]
  rw [LoxHasher.writeOn, hchunks, List.map_cons, List.map_singleton, hword htake, hword hdrop]
  rfl

/-- UUIDs of which one half is the same. -/
theorem hashOn_ne (e : Endian) (state : LoxHasher) {u v : LoxoneUuid} (hne : u ≠ v)
    (hhalf : u.toList.take 8 = v.toList.take 8 ∨ u.toList.drop 8 = v.toList.drop 8) :
    u.hashOn e state ≠ v.hashOn e state := by
  have hlist : u.toList ≠ v.toList := fun h => hne (Vector.toList_inj.mp h)
  have hlen : u.toList.length = v.toList.length := by rw [Vector.length_toList, Vector.length_toList]
  rw [hashOn_eq, hashOn_eq]
  rcases hhalf with htake | hdrop
  · refine LoxHasher.writeOn_ne (k := 1) e state hlen (fun i hi => ?_) hlist
    by_cases hlt : i < 8
    · rw [← List.getElem?_take_of_lt hlt, htake, List.getElem?_take_of_lt hlt]
    · rw [List.getElem?_eq_none (by rw [Vector.length_toList]; omega),
        List.getElem?_eq_none (by rw [Vector.length_toList]; omega)]
  · refine LoxHasher.writeOn_ne (k := 0) e state hlen (fun i hi => ?_) hlist
    have hi' : 8 + (i - 8) = i := by omega
    rw [← hi', ← List.getElem?_drop, hdrop, List.getElem?_drop]

theorem set_half (u : LoxoneUuid) (i : Fin 16) (b : UInt8) :
    (u.set i b).toList.take 8 = u.toList.take 8 ∨ (u.set i b).toList.drop 8 = u.toList.drop 8 := by
  rw [Vector.toList_set]
  by_cases hi : i.val < 8
  · exact .inr (List.drop_set_of_lt hi)
  · exact .inl (List.take_set_of_le (by omega))

end LoxoneUuid

/-- The hasher depends on every part of the key: slices of one length that differ only
within one aligned chunk of eight bytes, or only within the short tail, have different
hashes from any state; so do UUIDs that differ in one half only, and a UUID with any
byte of it replaced. On a little-endian machine `writeOn` is `write`, and the hash
of a UUID is the one the maps are keyed with. -/
theorem hash_sees_every_byte (e : Endian) (h : LoxHasher) :
    (∀ (xs ys : Bytes) (k : Nat), xs.length = ys.length → (∀ i, i / 8 ≠ k → xs[i]? = ys[i]?) → xs ≠ ys →
      (h.writeOn e xs).finish ≠ (h.writeOn e ys).finish) ∧
    (∀ u v : LoxoneUuid, u ≠ v → (u.toList.take 8 = v.toList.take 8 ∨ u.toList.drop 8 = v.toList.drop 8) →
      (u.hashOn e h).finish ≠ (v.hashOn e h).finish) ∧
    (∀ (u : LoxoneUuid) (i : Fin 16) (b : UInt8), b ≠ u[i] →
      (LoxoneUuid.hashOn e (u.set i b) h).finish ≠ (u.hashOn e h).finish) ∧
    (∀ xs, h.writeOn .little xs = h.write xs) ∧
    ∀ u : LoxoneUuid, hash u = (u.hashOn .little .default).finish := by
  refine ⟨fun xs ys k hlen hsame hne => ?_, fun u v hne hhalf => ?_, fun u i b hb => ?_, ?_, fun u => rfl⟩
  · exact LoxHasher.finish_ne (LoxHasher.writeOn_ne e h hlen hsame hne)
  · exact LoxHasher.finish_ne (LoxoneUuid.hashOn_ne e h hne hhalf)
  · refine LoxHasher.finish_ne (LoxoneUuid.hashOn_ne e h (fun heq => hb ?_) (u.set_half i b))
    have hget := congrArg (·[i]) heq
    simpa using hget
  · exact h.writeOn_little

theorem hash_sees_every_byte_tail :
    (LoxHasher.default.writeOn .big [1, 2, 3, 4, 5, 6, 7, 8, 9]).finish ≠
      (LoxHasher.default.writeOn .big [1, 2, 3, 4, 5, 6, 7, 8, 10]).finish ∧
    (LoxoneUuid.hashOn .little (Vector.replicate 16 0) ⟨7⟩).finish ≠
      (LoxoneUuid.hashOn .little ((Vector.replicate 15 0).push 1) ⟨7⟩).finish :=
  ⟨(hash_sees_every_byte .big .default).1 _ _ 1 rfl (fun i hi => by
      by_cases hlt : i < 8
      · interval_cases i <;> rfl
      · have hge : 9 ≤ i := by omega
        rw [List.getElem?_eq_none hge, List.getElem?_eq_none hge]) (by decide),
    (hash_sees_every_byte .little ⟨7⟩).2.1 _ _ (by decide) (.inl (by decide))⟩

end Lox
