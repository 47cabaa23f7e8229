import Mathlib.Order.Bounds.Basic
import LoxWebsocket.Framework.Words
import LoxWebsocket.Client.Control
import LoxWebsocket.Proto.Texts

/-!
# The scan for the control field

`extractLlControl` goes through a payload eight bytes at a time and from quote to
quote. What it finds is stated without either (`extractLlControl_iff`): the first
`"control"` within the limit, the first colon behind it, the first byte behind that
which is not white, and the text from there to the first quote. `findEither` is the
plain search (`findEither_eq`), by the lowest flag of a word.

The scan with the bounds and sums of the source checked gives the same
(`extractLlControlChecked_eq`).
-/

namespace Lox

/-! ## Eight bytes at a time -/

theorem toNat_wordAt {chunk : Bytes} (h : chunk.length ≤ 8) : (wordAt chunk).toNat = leWord chunk := by
  induction chunk with
  | nil => rfl
  | cons b l ih =>
    rw [List.length_cons] at h
    have hl := ih (by omega)
    have hlt : leWord l < 2 ^ 56 :=
      Nat.lt_of_lt_of_le (leWord_lt l) (Nat.pow_le_pow_right (by decide) (by omega))
    have hcons : wordAt (b :: l) = wordAt l <<< 8 ||| b.toUInt64 := rfl
    have hshift : (wordAt l <<< 8).toNat = 2 ^ 8 * leWord l := by
      rw [UInt64.toNat_shiftLeft, hl, show (8 : UInt64).toNat % 64 = 8 from rfl, Nat.shiftLeft_eq,
        Nat.mod_eq_of_lt (by omega), Nat.mul_comm]
    rw [hcons, UInt64.toNat_or, hshift, UInt8.toNat_toUInt64, leWord_cons, Nat.two_pow_add_eq_or_of_lt b.toNat_lt]

/-- Eight bytes are known by their word. -/
theorem wordAt_inj {c d : Bytes} (hc : c.length = 8) (hd : d.length = 8) : wordAt c = wordAt d ↔ c = d := by
  refine ⟨fun h => ?_, fun h => h ▸ rfl⟩
  have hword := congrArg UInt64.toNat h
  rw [toNat_wordAt hc.le, toNat_wordAt hd.le] at hword
  exact leWord_inj (hc.trans hd.symm) hword

theorem toNat_repeatByte (a : UInt8) :
    a.toNat * ones.toNat < 2 ^ 64 ∧ (repeatByte a).toNat = leWord (List.replicate 8 a) := by
  have ha := a.toNat_lt
  have hones : ones.toNat = 0x0101010101010101 := rfl
  have hlt : a.toNat * ones.toNat < 2 ^ 64 := by
    rw [hones]
    omega
  refine ⟨hlt, ?_⟩
  rw [repeatByte, UInt64.toNat_mul, UInt8.toNat_toUInt64, Nat.mod_eq_of_lt hlt]
  simp only [List.replicate_succ, List.replicate_zero, leWord_cons, hones]
  have hnil : leWord [] = 0 := rfl
  omega

theorem testBit_zeroByteMask {bs : Bytes} (hlen : bs.length = 8) {word : UInt64} (hword : word.toNat = leWord bs)
    {j : Nat} (hj : j < 64) : (zeroByteMask word).toNat.testBit j = flag bs j := by
  have hconst : ∀ j < 64, (0x8080808080808080 : UInt64).toNat.testBit j = (j % 8 == 7) := by decide
  have hones : ones.toNat = leWord (List.replicate 8 1) := by decide
  have hless : (word - ones).toNat = lessOnes bs := by
    rw [UInt64.toNat_sub, hones, hword, lessOnes, hlen, Nat.add_comm]
  have hnot : (~~~word).toNat.testBit j = !(leWord bs).testBit j := by
    have hsucc : (~~~word).toNat = 2 ^ 64 - (word.toNat + 1) := by
      rw [UInt64.toNat_not]
      have := word.toNat_lt
      have hsize : UInt64.size = 2 ^ 64 := rfl
      omega
    rw [hsucc, Nat.testBit_two_pow_sub_succ word.toNat_lt, decide_eq_true hj, Bool.true_and, hword]
  rw [zeroByteMask, UInt64.toNat_and, UInt64.toNat_and, Nat.testBit_and, Nat.testBit_and, hless, hnot,
    hconst j hj, flag]

theorem trailingZeros_eq (x : UInt64) :
    trailingZeros x = ((List.range 64).find? fun j => x.toNat.testBit j).getD 64 := by
  rw [trailingZeros]
  refine congrArg (Option.getD · 64) (find?_eq_of_forall_mem fun j hj => ?_)
  rw [List.mem_range] at hj
  have hofNat : (UInt64.ofNat j).toNat = j := by
    rw [UInt64.toNat_ofNat', Nat.mod_eq_of_lt (by omega)]
  have hbit : ((x >>> UInt64.ofNat j) &&& 1).toNat = (x.toNat >>> j) % 2 := by
    rw [UInt64.toNat_and, UInt64.toNat_shiftRight, hofNat, Nat.mod_eq_of_lt hj]
    exact Nat.and_one_is_mod _
  rw [Nat.testBit_eq_decide_div_mod_eq, ← Nat.shiftRight_eq_div_pow, ← hbit]
  rw [beq_eq_decide]
  exact decide_eq_decide.mpr UInt64.toNat_inj.symm

/-- The flags of a word name the first byte that is `a` or `b`. -/
theorem mask_spec {chunk : Bytes} (hlen : chunk.length = 8) (a b : UInt8) {mask : UInt64}
    (hmask : mask = zeroByteMask (wordAt chunk ^^^ repeatByte a) ||| zeroByteMask (wordAt chunk ^^^ repeatByte b)) :
    (if mask ≠ 0 then some (trailingZeros mask / 8) else none) = chunk.findIdx? fun x => x == a || x == b := by
  have hxor (a : UInt8) : (wordAt chunk ^^^ repeatByte a).toNat = leWord (chunk.map (· ^^^ a)) := by
    rw [UInt64.toNat_xor, toNat_wordAt hlen.le, (toNat_repeatByte a).2, leWord_xor, hlen]
  have hbits (j : Nat) (hj : j < 64) :
      mask.toNat.testBit j = (flag (chunk.map (· ^^^ a)) j || flag (chunk.map (· ^^^ b)) j) := by
    rw [hmask, UInt64.toNat_or, Nat.testBit_or, testBit_zeroByteMask (by rwa [List.length_map]) (hxor a) hj,
      testBit_zeroByteMask (by rwa [List.length_map]) (hxor b) hj]
  have hfind := find?_flag (· ^^^ a) (· ^^^ b) chunk
  rw [hlen, ← find?_eq_of_forall_mem fun j hj => hbits j (List.mem_range.mp hj)] at hfind
  have hzero (x a : UInt8) : (x ^^^ a == 0) = (x == a) := by
    rw [Bool.eq_iff_iff, beq_iff_eq, beq_iff_eq, UInt8.xor_eq_zero_iff]
  simp only [hzero] at hfind
  rw [trailingZeros_eq, hfind]
  cases hidx : chunk.findIdx? (fun x => x == a || x == b) with
  | none =>
    rw [hidx, Option.map_none, List.find?_eq_none] at hfind
    have hmask0 : mask = 0 := by
      refine UInt64.toNat_inj.mp (Nat.eq_of_testBit_eq fun j => ?_)
      by_cases hj : j < 64
      · exact (Bool.eq_false_iff.mpr (hfind j (List.mem_range.mpr hj))).trans (Nat.zero_testBit j).symm
      · rw [Nat.testBit_lt_two_pow (Nat.lt_of_lt_of_le mask.toNat_lt (Nat.pow_le_pow_right (by decide) (by omega)))]
        exact (Nat.zero_testBit j).symm
    rw [if_neg (not_not.mpr hmask0)]
  | some i =>
    rw [hidx, Option.map_some] at hfind
    have hne : mask ≠ 0 := by
      rintro rfl
      have hbit := List.find?_some hfind
      rw [show (0 : UInt64).toNat = 0 from rfl, Nat.zero_testBit] at hbit
      cases hbit
    rw [if_pos hne, Option.map_some, Option.getD_some]
    congr 1
    omega

theorem findEitherFrom_eq (a b : UInt8) (offset : Nat) (l : Bytes) :
    findEitherFrom a b offset l = (l.findIdx? fun x => x == a || x == b).map (offset + ·) := by
  induction offset, l using findEitherFrom.induct (a := a) (b := b) with
  | case1 offset b₀ b₁ b₂ b₃ b₄ b₅ b₆ b₇ rest word mask hne =>
    have hspec := mask_spec (show [b₀, b₁, b₂, b₃, b₄, b₅, b₆, b₇].length = 8 from rfl) a b (show mask = _ from rfl)
    rw [if_pos hne] at hspec
    rw [findEitherFrom, if_pos hne,
      show b₀ :: b₁ :: b₂ :: b₃ :: b₄ :: b₅ :: b₆ :: b₇ :: rest = [b₀, b₁, b₂, b₃, b₄, b₅, b₆, b₇] ++ rest from rfl,
      List.findIdx?_append, ← hspec]
    rfl
  | case2 offset b₀ b₁ b₂ b₃ b₄ b₅ b₆ b₇ rest word mask hzero ih =>
    have hspec := mask_spec (show [b₀, b₁, b₂, b₃, b₄, b₅, b₆, b₇].length = 8 from rfl) a b (show mask = _ from rfl)
    rw [if_neg hzero] at hspec
    rw [findEitherFrom, if_neg hzero, ih,
      show b₀ :: b₁ :: b₂ :: b₃ :: b₄ :: b₅ :: b₆ :: b₇ :: rest = [b₀, b₁, b₂, b₃, b₄, b₅, b₆, b₇] ++ rest from rfl,
      List.findIdx?_append, ← hspec, Option.none_or, Option.map_map]
    refine congrArg (Option.map · _) (funext fun i => ?_)
    change offset + 8 + i = offset + (i + 8)
    omega
  | case3 offset l hl => rw [findEitherFrom.eq_2 _ _ _ _ hl]

theorem findEither_eq (l : Bytes) (a b : UInt8) : findEither l a b = l.findIdx? fun x => x == a || x == b := by
  rw [findEither, findEitherFrom_eq]
  cases l.findIdx? (fun x => x == a || x == b) with
  | none => rfl
  | some i => exact congrArg some (Nat.zero_add i)

theorem findByte_eq (l : Bytes) (needle : UInt8) : findByte l needle = l.findIdx? (· == needle) := by
  rw [findByte, findEither_eq]
  simp only [Bool.or_self]

/-! ## The first of several places -/

theorem findIdx?_eq_some_iff_isLeast {α : Type} {p : α → Bool} {l : List α} {k : Nat} :
    l.findIdx? p = some k ↔ IsLeast {m | ∃ x, l[m]? = some x ∧ p x = true} k := by
  rw [List.findIdx?_eq_some_iff_getElem]
  constructor
  · rintro ⟨hk, hp, hmin⟩
    refine ⟨⟨l[k], List.getElem?_eq_getElem hk, hp⟩, ?_⟩
    rintro m ⟨x, hx, hpx⟩
    by_contra hlt
    obtain ⟨hm, rfl⟩ := List.getElem?_eq_some_iff.mp hx
    exact hmin m (by omega) hpx
  · rintro ⟨⟨x, hx, hpx⟩, hmin⟩
    obtain ⟨hk, rfl⟩ := List.getElem?_eq_some_iff.mp hx
    refine ⟨hk, hpx, fun m hm hpm => ?_⟩
    have hle := hmin ⟨l[m], List.getElem?_eq_getElem (by omega), hpm⟩
    omega

/-- The indices that hold `a` or `b`. -/
def placesOf (l : Bytes) (a b : UInt8) : Set Nat := {m | l[m]? = some a ∨ l[m]? = some b}

theorem findIdx?_either_iff {l : Bytes} {a b : UInt8} {k : Nat} :
    l.findIdx? (fun x => x == a || x == b) = some k ↔ IsLeast (placesOf l a b) k := by
  have hplaces : {m | ∃ x, l[m]? = some x ∧ (x == a || x == b) = true} = placesOf l a b := by
    ext m
    simp only [placesOf, Set.mem_ofPred_eq, Bool.or_eq_true, beq_iff_eq]
    constructor
    · rintro ⟨x, hx, rfl | rfl⟩
      · exact .inl hx
      · exact .inr hx
    · rintro (h | h)
      · exact ⟨a, h, .inl rfl⟩
      · exact ⟨b, h, .inr rfl⟩
  rw [findIdx?_eq_some_iff_isLeast, hplaces]

theorem findIdx?_either_none {l : Bytes} {a b : UInt8} :
    l.findIdx? (fun x => x == a || x == b) = none ↔ placesOf l a b = ∅ := by
  rw [List.findIdx?_eq_none_iff]
  constructor
  · intro h
    refine Set.eq_empty_of_forall_notMem fun m hm => ?_
    rcases hm with hm | hm
    · exact absurd (h a (List.mem_of_getElem? hm)) (by simp)
    · exact absurd (h b (List.mem_of_getElem? hm)) (by simp)
  · intro h x hx
    obtain ⟨m, hm⟩ := List.getElem?_of_mem hx
    have hfree : m ∉ placesOf l a b := by
      rw [h]
      exact Set.notMem_empty m
    rw [Bool.or_eq_false_iff, beq_eq_false_iff_ne, beq_eq_false_iff_ne]
    exact ⟨fun he => hfree (.inl (he ▸ hm)), fun he => hfree (.inr (he ▸ hm))⟩

theorem isLeast_add_iff {S : Set Nat} {n k : Nat} : IsLeast {m | n ≤ m ∧ m - n ∈ S} (n + k) ↔ IsLeast S k := by
  constructor
  · rintro ⟨⟨-, hk⟩, hmin⟩
    rw [Nat.add_sub_cancel_left] at hk
    refine ⟨hk, fun m hm => ?_⟩
    have hle := hmin (a := n + m) ⟨Nat.le_add_right n m, by rwa [Nat.add_sub_cancel_left]⟩
    omega
  · rintro ⟨hk, hmin⟩
    refine ⟨⟨Nat.le_add_right n k, by rwa [Nat.add_sub_cancel_left]⟩, ?_⟩
    rintro m ⟨hm, hS⟩
    have hle := hmin hS
    omega

/-- A search from `start` on, in the terms of the whole list. -/
theorem findIdx?_drop_iff {α : Type} {p : α → Bool} {l : List α} {start k : Nat} :
    (l.drop start).findIdx? p = some k ↔
      IsLeast {m | start ≤ m ∧ ∃ x, l[m]? = some x ∧ p x = true} (start + k) := by
  rw [findIdx?_eq_some_iff_isLeast, ← isLeast_add_iff]
  have hset : {m | start ≤ m ∧ m - start ∈ {m | ∃ x, (l.drop start)[m]? = some x ∧ p x = true}} =
      {m | start ≤ m ∧ ∃ x, l[m]? = some x ∧ p x = true} := by
    refine Set.ext fun m => and_congr_right fun hm => ?_
    rw [Set.mem_ofPred_eq, List.getElem?_drop, Nat.add_sub_cancel' hm]
  rw [hset]

/-- A search of `n` elements from `start` on. -/
theorem findIdx?_drop_take_iff {α : Type} {p : α → Bool} {l : List α} {start n k : Nat} :
    ((l.drop start).take n).findIdx? p = some k ↔
      IsLeast {m | start ≤ m ∧ m < start + n ∧ ∃ x, l[m]? = some x ∧ p x = true} (start + k) := by
  rw [findIdx?_eq_some_iff_isLeast, ← isLeast_add_iff]
  have hset : {m | start ≤ m ∧ m - start ∈ {m | ∃ x, ((l.drop start).take n)[m]? = some x ∧ p x = true}} =
      {m | start ≤ m ∧ m < start + n ∧ ∃ x, l[m]? = some x ∧ p x = true} := by
    refine Set.ext fun m => and_congr_right fun hm => ?_
    rw [Set.mem_ofPred_eq, List.getElem?_take]
    split_ifs with hlt
    · rw [List.getElem?_drop, Nat.add_sub_cancel' hm]
      exact ⟨fun h => ⟨by omega, h⟩, fun h => h.2⟩
    · refine ⟨fun h => ?_, fun h => absurd h.1 (by omega)⟩
      obtain ⟨x, hx, -⟩ := h
      cases hx
  rw [hset]

/-! ## From quote to quote -/

/-- `"control"` stands at index `i`. -/
def KeyAt (window : Bytes) (i : Nat) : Prop := (window.drop i).take controlKey.length = controlKey

theorem KeyAt.add_le {window : Bytes} {i : Nat} (h : KeyAt window i) : i + controlKey.length ≤ window.length := by
  have hlen := congrArg List.length h
  have hkey : controlKey.length = 9 := rfl
  rw [List.length_take, List.length_drop] at hlen
  omega

/-- A key begins with a quote. -/
theorem KeyAt.getElem? {window : Bytes} {i : Nat} (h : KeyAt window i) : window[i]? = some 34 := by
  have hfirst := congrArg (·[0]?) h
  change ((window.drop i).take 9)[0]? = some 34 at hfirst
  rwa [List.getElem?_take_of_lt (by decide), List.getElem?_drop] at hfirst

/-- The comparison of the source: a word, and one byte more. -/
theorem keyAt_iff {window : Bytes} {i : Nat} (hi : i + controlKey.length ≤ window.length) :
    wordAt ((window.drop i).take 8) = wordAt (controlKey.take 8) ∧ window[i + 8]? = some 34 ↔ KeyAt window i := by
  have hkey : controlKey.length = 9 := rfl
  have hlt : i + 8 < window.length := by omega
  have hlen : ((window.drop i).take 8).length = 8 := by
    rw [List.length_take, List.length_drop]
    omega
  have hnine : (window.drop i).take controlKey.length = (window.drop i).take 8 ++ [window[i + 8]] := by
    rw [hkey, List.take_succ_eq_append_getElem (by rw [List.length_drop]; omega), List.getElem_drop]
  have hsplit : controlKey = controlKey.take 8 ++ [34] := rfl
  rw [wordAt_inj hlen rfl, KeyAt, hnine, List.getElem?_eq_getElem hlt, Option.some.injEq]
  constructor
  · rintro ⟨hword, hlast⟩
    rw [hword, hlast]
    exact hsplit.symm
  · intro h
    rw [hsplit] at h
    obtain ⟨hword, hlast⟩ := List.append_inj h (hlen.trans rfl)
    exact ⟨hword, List.cons_eq_cons.mp hlast |>.1⟩

/-- The loop finds the first key from `start` on. -/
theorem findControlKeyLoop_iff {window : Bytes} {last : Nat} (hlast : last + controlKey.length = window.length)
    {fuel start : Nat} (hfuel : window.length < start + fuel) (i : Nat) :
    findControlKeyLoop window last fuel start = some i ↔ IsLeast {i | start ≤ i ∧ KeyAt window i} i := by
  have hkey : controlKey.length = 9 := rfl
  induction fuel generalizing start with
  | zero =>
    refine ⟨nofun, fun h => ?_⟩
    have hle := h.1.2.add_le
    have hstart := h.1.1
    omega
  | succ fuel ih =>
    rw [findControlKeyLoop]
    by_cases hstart : start ≤ last
    · rw [if_pos hstart, findByte_eq]
      cases hquote : (window.drop start).findIdx? (· == 34) with
      | none =>
        -- a key from here on would begin with a quote
        refine ⟨nofun, fun h => ?_⟩
        rw [List.findIdx?_eq_none_iff] at hquote
        have hmem : (34 : UInt8) ∈ window.drop start :=
          List.mem_of_getElem? (i := i - start) (by rw [List.getElem?_drop, Nat.add_sub_cancel' h.1.1, h.1.2.getElem?])
        exact absurd (hquote 34 hmem) (by decide)
      | some k =>
        have hfirst := findIdx?_drop_iff.mp hquote
        have hno {m : Nat} (hm : start ≤ m) (hkeyAt : KeyAt window m) : start + k ≤ m :=
          hfirst.2 ⟨hm, 34, hkeyAt.getElem?, rfl⟩
        simp only [Option.bind_eq_bind, Option.bind_some]
        by_cases hpast : start + k > last
        · rw [if_pos hpast]
          refine ⟨nofun, fun h => ?_⟩
          have hle := h.1.2.add_le
          have hge := hno h.1.1 h.1.2
          omega
        · rw [if_neg hpast]
          by_cases hhit : KeyAt window (start + k)
          · rw [if_pos ((keyAt_iff (by omega)).mpr hhit), Option.some.injEq]
            have hleast : IsLeast {i | start ≤ i ∧ KeyAt window i} (start + k) :=
              ⟨⟨Nat.le_add_right _ _, hhit⟩, fun m hm => hno hm.1 hm.2⟩
            exact ⟨fun h => h ▸ hleast, fun h => hleast.unique h⟩
          · have hnext := ih (show window.length < start + k + 1 + fuel by omega)
            rw [if_neg fun h => hhit ((keyAt_iff (by omega)).mp h)]
            have hset : {i | start + k + 1 ≤ i ∧ KeyAt window i} = {i | start ≤ i ∧ KeyAt window i} := by
              refine Set.ext fun m => ⟨fun h => ⟨by have := h.1; omega, h.2⟩, fun h => ⟨?_, h.2⟩⟩
              have hge := hno h.1 h.2
              have hne : m ≠ start + k := fun heq => hhit (heq ▸ h.2)
              omega
            exact hset ▸ hnext
    · rw [if_neg hstart]
      refine ⟨nofun, fun h => ?_⟩
      have hle := h.1.2.add_le
      have hge := h.1.1
      omega

theorem findControlKey_iff (window : Bytes) (i : Nat) :
    findControlKey window = some i ↔ IsLeast {i | KeyAt window i} i := by
  rw [findControlKey]
  split_ifs with hshort
  · refine ⟨nofun, fun h => ?_⟩
    have hle := KeyAt.add_le h.1
    omega
  · rw [findControlKeyLoop_iff (by omega) (by omega)]
    simp only [Nat.zero_le, true_and]

/-! ## The field -/

/-- What the scan looks for, in the payload as a whole: the key at `i`, the colon at
`c`, the opening quote at `q` and the closing one at `r`. -/
structure ControlField (payload : Bytes) (i c q r : Nat) : Prop where
  key : IsLeast {i | i + controlKey.length ≤ min payload.length controlKeyScanLimit ∧ KeyAt payload i} i
  colon : IsLeast {c | i + controlKey.length ≤ c ∧ payload[c]? = some 58} c
  notWhite : IsLeast {q | c < q ∧ ∃ b, payload[q]? = some b ∧ isAsciiWhitespace b = false} q
  openQuote : payload[q]? = some 34
  stop : IsLeast {r | q < r ∧ r ≤ q + controlValueLimit ∧ (payload[r]? = some 34 ∨ payload[r]? = some 92)} r
  closeQuote : payload[r]? = some 34

theorem keyAt_take_iff {payload : Bytes} {n i : Nat} :
    KeyAt (payload.take n) i ↔ i + controlKey.length ≤ min payload.length n ∧ KeyAt payload i := by
  constructor
  · intro h
    have hle := h.add_le
    rw [List.length_take] at hle
    refine ⟨by omega, ?_⟩
    rwa [KeyAt, List.drop_take, List.take_take, Nat.min_eq_left (by omega)] at h
  · rintro ⟨hle, h⟩
    rwa [KeyAt, List.drop_take, List.take_take, Nat.min_eq_left (by omega)]

theorem colon_iff {payload : Bytes} {start k : Nat} : (payload.drop start).findIdx? (· == 58) = some k ↔
    IsLeast {c | start ≤ c ∧ payload[c]? = some 58} (start + k) := by
  rw [findIdx?_drop_iff]
  simp only [beq_iff_eq, exists_eq_right]

theorem notWhite_iff {payload : Bytes} {start k : Nat} :
    (payload.drop start).findIdx? (fun b => !isAsciiWhitespace b) = some k ↔
      IsLeast {q | start ≤ q ∧ ∃ b, payload[q]? = some b ∧ isAsciiWhitespace b = false} (start + k) := by
  rw [findIdx?_drop_iff]
  simp only [Bool.not_eq_true']

theorem stop_iff {payload : Bytes} {q k : Nat} :
    ((payload.drop (q + 1)).take controlValueLimit).findIdx? (fun x => x == 34 || x == 92) = some k ↔
      IsLeast {r | q < r ∧ r ≤ q + controlValueLimit ∧ (payload[r]? = some 34 ∨ payload[r]? = some 92)}
        (q + 1 + k) := by
  rw [findIdx?_drop_take_iff]
  have hset : {m | q + 1 ≤ m ∧ m < q + 1 + controlValueLimit ∧
        ∃ x, payload[m]? = some x ∧ (x == 34 || x == 92) = true} =
      {r | q < r ∧ r ≤ q + controlValueLimit ∧ (payload[r]? = some 34 ∨ payload[r]? = some 92)} := by
    refine Set.ext fun m => and_congr_right fun _ => and_congr (by omega) ?_
    simp only [Bool.or_eq_true, beq_iff_eq]
    constructor
    · rintro ⟨x, hx, rfl | rfl⟩
      · exact .inl hx
      · exact .inr hx
    · rintro (h | h)
      · exact ⟨34, h, .inl rfl⟩
      · exact ⟨92, h, .inr rfl⟩
  rw [hset]

/-- The rounds of the scan, with every index counted from the front of the payload. -/
theorem extractLlControl_rounds (payload : Bytes) (v : Str) : extractLlControl payload = some v ↔
    ∃ i colon quote stop, findControlKey (payload.take controlKeyScanLimit) = some i ∧
      (payload.drop (i + controlKey.length)).findIdx? (· == 58) = some colon ∧
      (payload.drop (i + controlKey.length + colon + 1)).findIdx? (fun b => !isAsciiWhitespace b) = some quote ∧
      payload[i + controlKey.length + colon + 1 + quote]? = some 34 ∧
      ((payload.drop (i + controlKey.length + colon + 1 + quote + 1)).take controlValueLimit).findIdx?
        (fun x => x == 34 || x == 92) = some stop ∧
      payload[i + controlKey.length + colon + 1 + quote + 1 + stop]? = some 34 ∧
      fromUtf8 ((payload.drop (i + controlKey.length + colon + 1 + quote + 1)).take stop) = some v := by
  -- the value is cut at the limit, but the quote lies within it
  have hcut {start stop : Nat} (h : ((payload.drop start).take controlValueLimit).findIdx?
      (fun x => x == 34 || x == 92) = some stop) :
      ((payload.drop start).take controlValueLimit)[stop]? = payload[start + stop]? ∧
        ((payload.drop start).take controlValueLimit).take stop = (payload.drop start).take stop := by
    obtain ⟨hlt, -⟩ := List.findIdx?_eq_some_iff_getElem.mp h
    rw [List.length_take] at hlt
    rw [List.getElem?_take_of_lt (by omega), List.getElem?_drop, List.take_take, Nat.min_eq_left (by omega)]
    exact ⟨rfl, rfl⟩
  simp only [extractLlControl, Option.bind_eq_bind, Option.bind_eq_some_iff, findByte_eq, findEither_eq, List.drop_drop,
    ← Nat.add_assoc]
  constructor
  · rintro ⟨i, hi, colon, hcolon, quote, hquote, h⟩
    split_ifs at h with hopen
    obtain ⟨stop, hstop, h⟩ := Option.bind_eq_some_iff.mp h
    split_ifs at h with hclose
    rw [not_not, List.getElem?_drop] at hopen
    rw [not_not, (hcut hstop).1] at hclose
    rw [(hcut hstop).2] at h
    exact ⟨i, colon, quote, stop, hi, hcolon, hquote, hopen, hstop, hclose, h⟩
  · rintro ⟨i, colon, quote, stop, hi, hcolon, hquote, hopen, hstop, hclose, h⟩
    refine ⟨i, hi, colon, hcolon, quote, hquote, ?_⟩
    rw [if_neg (not_not.mpr (by rw [List.getElem?_drop]; exact hopen)), hstop, Option.bind_some,
      if_neg (not_not.mpr ((hcut hstop).1.trans hclose)), (hcut hstop).2, h]

/-- The scan finds `v` if and only if `v` is the text of the field. -/
theorem extractLlControl_iff (payload : Bytes) (v : Str) : extractLlControl payload = some v ↔
    ∃ i c q r, ControlField payload i c q r ∧ fromUtf8 ((payload.drop (q + 1)).take (r - (q + 1))) = some v := by
  rw [extractLlControl_rounds]
  simp only [findControlKey_iff, keyAt_take_iff, colon_iff, notWhite_iff, stop_iff]
  constructor
  · rintro ⟨i, colon, quote, stop, hi, hcolon, hquote, hopen, hstop, hclose, h⟩
    refine ⟨i, _, _, _, ⟨hi, hcolon, hquote, hopen, hstop, hclose⟩, ?_⟩
    rw [Nat.add_sub_cancel_left]
    exact h
  · rintro ⟨i, c, q, r, hfield, h⟩
    obtain ⟨colon, rfl⟩ := Nat.exists_eq_add_of_le hfield.colon.1.1
    obtain ⟨quote, rfl⟩ := Nat.exists_eq_add_of_le (Nat.succ_le_of_lt hfield.notWhite.1.1)
    obtain ⟨stop, rfl⟩ := Nat.exists_eq_add_of_le (Nat.succ_le_of_lt hfield.stop.1.1)
    rw [Nat.add_sub_cancel_left] at h
    exact ⟨i, colon, quote, stop, hfield.key, hfield.colon, hfield.notWhite, hfield.openQuote, hfield.stop,
      hfield.closeQuote, h⟩

/-! ## The machine -/

/-- `l[n..]`, with the bound checked. -/
def sliceFrom (l : Bytes) (n : Nat) : Option Bytes := if n ≤ l.length then some (l.drop n) else none

/-- `l[m..n]`, with the bounds checked. -/
def sliceRange (l : Bytes) (m n : Nat) : Option Bytes :=
  if m ≤ n ∧ n ≤ l.length then some ((l.drop m).take (n - m)) else none

/-- `copy_from_slice` into eight bytes. -/
def wordAtChecked (chunk : Bytes) : Option UInt64 := if chunk.length = 8 then some (wordAt chunk) else none

def repeatByteChecked (b : UInt8) : Option UInt64 :=
  if b.toNat * ones.toNat < 2 ^ 64 then some (repeatByte b) else none

/-- The loop of `findEither` with its sums in words of `bits` bits. -/
def findEitherLoopChecked (bits : Nat) (a b : UInt8) (repA repB : UInt64) : Nat → Bytes → Option (Option Nat)
  | offset, b₀ :: b₁ :: b₂ :: b₃ :: b₄ :: b₅ :: b₆ :: b₇ :: rest =>
    let word := wordAt [b₀, b₁, b₂, b₃, b₄, b₅, b₆, b₇]
    let mask := zeroByteMask (word ^^^ repA) ||| zeroByteMask (word ^^^ repB)
    if mask ≠ 0 then (checkedAdd bits offset (trailingZeros mask / 8)).map some
    else (checkedAdd bits offset 8).bind fun offset => findEitherLoopChecked bits a b repA repB offset rest
  | offset, remainder =>
    match remainder.findIdx? fun x => x == a || x == b with
    | none => some none
    | some i => (checkedAdd bits offset i).map some

def findEitherChecked (bits : Nat) (haystack : Bytes) (a b : UInt8) : Option (Option Nat) := do
  let repA ← repeatByteChecked a
  let repB ← repeatByteChecked b
  findEitherLoopChecked bits a b repA repB 0 haystack

/-- The byte behind the word is only read if the word is the key's. -/
def keyHit (window : Bytes) (stop : Nat) (word anchor : UInt64) : Option Bool :=
  if word = anchor then (window[stop]?).map (· == 34) else some false

/-- The loop of `findControlKey`: `none` if an index is out of range, a sum does not
fit a word, or the loop has not ended after `fuel` rounds. -/
def findControlKeyLoopChecked (bits : Nat) (window : Bytes) (last : Nat) (anchor : UInt64) :
    Nat → Nat → Option (Option Nat)
  | 0, _ => none
  | fuel + 1, start =>
    if start ≤ last then do
      let tail ← sliceFrom window start
      match ← findEitherChecked bits tail 34 34 with
      | none => some none
      | some i =>
        let found ← checkedAdd bits start i
        if found > last then some none
        else
          let stop ← checkedAdd bits found 8
          let word ← wordAtChecked (← sliceRange window found stop)
          let hit ← keyHit window stop word anchor
          if hit then some (some found)
          else
            let next ← checkedAdd bits found 1
            findControlKeyLoopChecked bits window last anchor fuel next
    else some none

def findControlKeyChecked (bits : Nat) (window : Bytes) : Option (Option Nat) :=
  if window.length < controlKey.length then some none
  else do
    let anchor ← wordAtChecked (controlKey.take 8)
    findControlKeyLoopChecked bits window (window.length - controlKey.length) anchor (window.length + 1) 0

/-- The scan: `none` if an index is out of range, a sum does not fit a word of
`bits` bits, or the loop over the quotes does not end. -/
def extractLlControlChecked (bits : Nat) (payload : Bytes) : Option (Option Str) := do
  let window ← sliceRange payload 0 (min payload.length controlKeyScanLimit)
  match ← findControlKeyChecked bits window with
  | none => some none
  | some i =>
    let keyEnd ← checkedAdd bits i controlKey.length
    let afterKey ← sliceFrom payload keyEnd
    match ← findEitherChecked bits afterKey 58 58 with
    | none => some none
    | some colon =>
      let afterColon ← sliceFrom afterKey (← checkedAdd bits colon 1)
      match afterColon.findIdx? fun b => !isAsciiWhitespace b with
      | none => some none
      | some quote =>
        let first ← afterColon[quote]?
        if first ≠ 34 then some none
        else
          let value ← sliceFrom afterColon (← checkedAdd bits quote 1)
          let value ← sliceRange value 0 (min value.length controlValueLimit)
          match ← findEitherChecked bits value 34 92 with
          | none => some none
          | some stop =>
            let last ← value[stop]?
            if last ≠ 34 then some none
            else do
              let text ← sliceRange value 0 stop
              some (fromUtf8 text)

theorem checkedAdd_of_lt {bits a b : Nat} (h : a + b < 2 ^ bits) : checkedAdd bits a b = some (a + b) := if_pos h

theorem sliceFrom_of_le {l : Bytes} {n : Nat} (h : n ≤ l.length) : sliceFrom l n = some (l.drop n) := if_pos h

theorem sliceRange_zero {l : Bytes} {n : Nat} (h : n ≤ l.length) : sliceRange l 0 n = some (l.take n) := by
  rw [sliceRange, if_pos ⟨Nat.zero_le n, h⟩, List.drop_zero, Nat.sub_zero]

theorem lt_of_findIdx? {α : Type} {p : α → Bool} {l : List α} {i : Nat} (h : l.findIdx? p = some i) : i < l.length :=
  (List.findIdx?_eq_some_iff_getElem.mp h).1

theorem findEitherLoopChecked_eq {bits : Nat} (a b : UInt8) {offset : Nat} {l : Bytes}
    (h : offset + l.length < 2 ^ bits) :
    findEitherLoopChecked bits a b (repeatByte a) (repeatByte b) offset l = some (findEitherFrom a b offset l) := by
  induction offset, l using findEitherFrom.induct (a := a) (b := b) with
  | case1 offset b₀ b₁ b₂ b₃ b₄ b₅ b₆ b₇ rest word mask hne =>
    have hspec := mask_spec (show [b₀, b₁, b₂, b₃, b₄, b₅, b₆, b₇].length = 8 from rfl) a b (show mask = _ from rfl)
    rw [if_pos hne] at hspec
    have hlt : trailingZeros mask / 8 < 8 := lt_of_findIdx? hspec.symm
    simp only [List.length_cons] at h
    rw [findEitherLoopChecked, findEitherFrom, if_pos hne, if_pos hne,
      checkedAdd_of_lt (show offset + trailingZeros mask / 8 < 2 ^ bits by omega)]
    rfl
  | case2 offset b₀ b₁ b₂ b₃ b₄ b₅ b₆ b₇ rest word mask hzero ih =>
    simp only [List.length_cons] at h
    rw [findEitherLoopChecked, findEitherFrom, if_neg hzero, if_neg hzero, checkedAdd_of_lt (by omega),
      Option.bind_some, ih (by omega)]
  | case3 offset l hl =>
    rw [findEitherLoopChecked.eq_2 _ _ _ _ _ _ _ hl, findEitherFrom.eq_2 _ _ _ _ hl]
    cases hidx : l.findIdx? (fun x => x == a || x == b) with
    | none => rfl
    | some i =>
      have hlt := lt_of_findIdx? hidx
      dsimp only
      rw [checkedAdd_of_lt (by omega)]
      rfl

theorem findEitherChecked_eq {bits : Nat} {l : Bytes} (h : l.length < 2 ^ bits) (a b : UInt8) :
    findEitherChecked bits l a b = some (l.findIdx? fun x => x == a || x == b) := by
  have hrep (a : UInt8) : repeatByteChecked a = some (repeatByte a) := if_pos (toNat_repeatByte a).1
  rw [findEitherChecked, hrep, hrep]
  change findEitherLoopChecked bits a b (repeatByte a) (repeatByte b) 0 l = _
  rw [findEitherLoopChecked_eq a b (by omega), ← findEither, findEither_eq]

/-- The word-at-a-time search is the plain one: it gives the least index that holds
`a` or `b`, whatever the length. In each chunk the lowest flag of the two masks
belongs to the first byte that is `a` or `b`, and there is a flag only if there is
such a byte; in a slice that the machine can hold no offset overflows. -/
theorem findEither_exact (haystack : Bytes) (a b : UInt8) :
    (∀ k, findEither haystack a b = some k ↔ IsLeast (placesOf haystack a b) k) ∧
    (findEither haystack a b = none ↔ placesOf haystack a b = ∅) ∧
    (∀ (chunk : Bytes) (mask : UInt64), chunk.length = 8 →
      mask = zeroByteMask (wordAt chunk ^^^ repeatByte a) ||| zeroByteMask (wordAt chunk ^^^ repeatByte b) →
      (mask = 0 ↔ placesOf chunk a b = ∅) ∧
        (mask ≠ 0 → IsLeast (placesOf chunk a b) (trailingZeros mask / 8))) ∧
    ∀ bits, haystack.length < 2 ^ bits →
      findEitherChecked bits haystack a b = some (findEither haystack a b) := by
  refine ⟨fun k => ?_, ?_, fun chunk mask hlen hmask => ?_, fun bits hfits => ?_⟩
  · rw [findEither_eq, findIdx?_either_iff]
  · rw [findEither_eq, findIdx?_either_none]
  · have hspec := mask_spec hlen a b hmask
    by_cases hzero : mask = 0
    · rw [if_neg (not_not.mpr hzero)] at hspec
      exact ⟨iff_of_true hzero (findIdx?_either_none.mp hspec.symm), fun h => absurd hzero h⟩
    · rw [if_pos hzero] at hspec
      have hleast := findIdx?_either_iff.mp hspec.symm
      refine ⟨iff_of_false hzero fun hempty => ?_, fun _ => hleast⟩
      rw [hempty] at hleast
      exact hleast.1
  · rw [findEitherChecked_eq hfits, findEither_eq]

theorem findEither_exact_borrow :
    IsLeast (placesOf [0, 1, 9, 9, 9, 9, 9, 9] 0 7) (trailingZeros (zeroByteMask
      (wordAt [0, 1, 9, 9, 9, 9, 9, 9] ^^^ repeatByte 0) ||| zeroByteMask (wordAt [0, 1, 9, 9, 9, 9, 9, 9] ^^^
        repeatByte 7)) / 8) ∧
    findEitherChecked 64 [9, 9, 9, 9, 9, 9, 9, 9, 7] 0 7 = some (findEither [9, 9, 9, 9, 9, 9, 9, 9, 7] 0 7) :=
  ⟨((findEither_exact [] 0 7).2.2.1 _ _ rfl rfl).2 (by decide), (findEither_exact _ 0 7).2.2.2 64 (by decide)⟩

-- The byte above a zero byte is flagged too, though it is 1.
example : zeroByteMask 0x0909090909090100 = 0x8080 := by decide

theorem keyHit_eq {window : Bytes} {stop : Nat} (h : stop < window.length) (word anchor : UInt64) :
    keyHit window stop word anchor = some (decide (word = anchor ∧ window[stop]? = some 34)) := by
  rw [keyHit, List.getElem?_eq_getElem h]
  by_cases hword : word = anchor
  · rw [if_pos hword, Option.map_some, Option.some.injEq, Bool.eq_iff_iff, beq_iff_eq, decide_eq_true_eq,
      Option.some.injEq]
    exact ⟨fun hbyte => ⟨hword, hbyte⟩, fun hand => hand.2⟩
  · rw [if_neg hword, decide_eq_false fun hand => hword hand.1]

theorem findControlKeyLoopChecked_eq {bits : Nat} {window : Bytes} {last : Nat}
    (hlast : last + controlKey.length = window.length) (hfits : window.length < 2 ^ bits) {fuel start : Nat}
    (hfuel : window.length < start + fuel) (hle : start ≤ window.length) :
    findControlKeyLoopChecked bits window last (wordAt (controlKey.take 8)) fuel start =
      some (findControlKeyLoop window last fuel start) := by
  have hkey : controlKey.length = 9 := rfl
  induction fuel generalizing start with
  | zero => omega
  | succ fuel ih =>
    rw [findControlKeyLoopChecked, findControlKeyLoop]
    by_cases hstart : start ≤ last
    · have htail : (window.drop start).length < 2 ^ bits := by
        rw [List.length_drop]
        omega
      rw [if_pos hstart, if_pos hstart, sliceFrom_of_le (by omega), findByte_eq]
      simp only [Option.bind_eq_bind, Option.bind_some, findEitherChecked_eq htail, Bool.or_self]
      cases hquote : (window.drop start).findIdx? (· == 34) with
      | none => rfl
      | some k =>
        have hlt := lt_of_findIdx? hquote
        rw [List.length_drop] at hlt
        simp only [Option.bind_some, checkedAdd_of_lt (show start + k < 2 ^ bits by omega)]
        by_cases hpast : start + k > last
        · rw [if_pos hpast, if_pos hpast]
        · have hrange : sliceRange window (start + k) (start + k + 8) = some ((window.drop (start + k)).take 8) := by
            rw [sliceRange, if_pos ⟨by omega, by omega⟩, Nat.add_sub_cancel_left]
          have hword : wordAtChecked ((window.drop (start + k)).take 8) =
              some (wordAt ((window.drop (start + k)).take 8)) := if_pos (by
            rw [List.length_take, List.length_drop]
            omega)
          have hnext := ih (show window.length < start + k + 1 + fuel by omega) (by omega)
          rw [if_neg hpast, if_neg hpast, checkedAdd_of_lt (by omega)]
          simp only [Option.bind_some, hrange, hword, keyHit_eq (show start + k + 8 < window.length by omega),
            checkedAdd_of_lt (show start + k + 1 < 2 ^ bits by omega), hnext, decide_eq_true_eq]
          split_ifs <;> rfl
    · rw [if_neg hstart, if_neg hstart]

theorem findControlKeyChecked_eq {bits : Nat} {window : Bytes} (hfits : window.length < 2 ^ bits) :
    findControlKeyChecked bits window = some (findControlKey window) := by
  rw [findControlKeyChecked, findControlKey]
  split_ifs with hshort
  · rfl
  · have hanchor : wordAtChecked (controlKey.take 8) = some (wordAt (controlKey.take 8)) := if_pos rfl
    rw [hanchor]
    exact findControlKeyLoopChecked_eq (by omega) hfits (by omega) (Nat.zero_le _)

/-- In a payload that the machine can hold, every index is in range, no sum
overflows and the loop over the quotes ends. -/
theorem extractLlControlChecked_eq {bits : Nat} {payload : Bytes} (hfits : payload.length < 2 ^ bits) :
    extractLlControlChecked bits payload = some (extractLlControl payload) := by
  have hwindow : (payload.take controlKeyScanLimit).length < 2 ^ bits := by
    rw [List.length_take]
    omega
  have hmin (l : Bytes) (n : Nat) : l.take (min l.length n) = l.take n := by
    rw [← List.take_take, List.take_eq_self_iff _ |>.mpr (by rw [List.length_take]; omega)]
  rw [extractLlControlChecked, extractLlControl, sliceRange_zero (Nat.min_le_left _ _), hmin]
  simp only [Option.bind_eq_bind, Option.bind_some, findControlKeyChecked_eq hwindow, findByte_eq, findEither_eq]
  cases hi : findControlKey (payload.take controlKeyScanLimit) with
  | none => rfl
  | some i =>
    have hend : i + controlKey.length ≤ payload.length :=
      Nat.le_trans (keyAt_take_iff.mp ((findControlKey_iff _ i).mp hi).1).1 (Nat.min_le_left _ _)
    have hafterKey : (payload.drop (i + controlKey.length)).length ≤ payload.length := by
      rw [List.length_drop]
      omega
    simp only [Option.bind_some, checkedAdd_of_lt (Nat.lt_of_le_of_lt hend hfits), sliceFrom_of_le hend]
    generalize payload.drop (i + controlKey.length) = afterKey at hafterKey
    rw [findEitherChecked_eq (by omega)]
    simp only [Option.bind_some, Bool.or_self]
    cases hcolon : afterKey.findIdx? (· == 58) with
    | none => rfl
    | some colon =>
      have hlt := lt_of_findIdx? hcolon
      have hafterColon : (afterKey.drop (colon + 1)).length ≤ payload.length := by
        rw [List.length_drop]
        omega
      simp only [Option.bind_some, checkedAdd_of_lt (show colon + 1 < 2 ^ bits by omega),
        sliceFrom_of_le (show colon + 1 ≤ afterKey.length from hlt)]
      generalize afterKey.drop (colon + 1) = afterColon at hafterColon
      cases hquote : afterColon.findIdx? (fun b => !isAsciiWhitespace b) with
      | none => rfl
      | some quote =>
        have hlt := lt_of_findIdx? hquote
        have hvalue : ((afterColon.drop (quote + 1)).take controlValueLimit).length < 2 ^ bits := by
          rw [List.length_take, List.length_drop]
          omega
        simp only [Option.bind_some, List.getElem?_eq_getElem hlt, ne_eq, Option.some.injEq,
          checkedAdd_of_lt (show quote + 1 < 2 ^ bits by omega),
          sliceFrom_of_le (show quote + 1 ≤ afterColon.length from hlt),
          sliceRange_zero (Nat.min_le_left (afterColon.drop (quote + 1)).length controlValueLimit), hmin,
          findEitherChecked_eq hvalue]
        by_cases hopen : afterColon[quote] = 34
        · rw [if_neg (not_not.mpr hopen), if_neg (not_not.mpr hopen)]
          generalize (afterColon.drop (quote + 1)).take controlValueLimit = value at hvalue
          cases hstop : value.findIdx? (fun x => x == 34 || x == 92) with
          | none => rfl
          | some stop =>
            have hlt := lt_of_findIdx? hstop
            simp only [Option.bind_some, List.getElem?_eq_getElem hlt, Option.some.injEq,
              sliceRange_zero (Nat.le_of_lt hlt)]
            split_ifs <;> rfl
        · rw [if_pos hopen, if_pos hopen]

/-- The scan gives the text of the field if there is one, and nothing otherwise; in
a payload that the machine can hold, every index is in range, no sum overflows and
the loop over the quotes ends. -/
theorem control_scan_exact (payload : Bytes) (bits : Nat) (hfits : payload.length < 2 ^ bits) :
    (∀ v, extractLlControl payload = some v ↔ ∃ i c q r, ControlField payload i c q r ∧
      fromUtf8 ((payload.drop (q + 1)).take (r - (q + 1))) = some v) ∧
    extractLlControlChecked bits payload = some (extractLlControl payload) :=
  ⟨extractLlControl_iff payload, extractLlControlChecked_eq hfits⟩

/-- A field of one letter. -/
def sampleEnvelope : Bytes := controlKey ++ [58, 32, 34, 97, 34]

theorem control_scan_exact_letter :
    (∀ v, extractLlControl sampleEnvelope = some v ↔ ∃ i c q r, ControlField sampleEnvelope i c q r ∧
      fromUtf8 ((sampleEnvelope.drop (q + 1)).take (r - (q + 1))) = some v) ∧
    extractLlControlChecked 32 sampleEnvelope = some (extractLlControl sampleEnvelope) :=
  control_scan_exact sampleEnvelope 32 (by decide)

end Lox
