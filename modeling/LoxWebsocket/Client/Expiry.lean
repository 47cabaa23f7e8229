import LoxWebsocket.Client.KilledTokens
import LoxWebsocket.Client.Refresh

/-!
# When a token expires

A token's `validUntil` comes from an answer, as a number or in a string, or from a
token file (`Announcement`). The numbers an answer may carry reach beyond the 64 bits
that the token keeps (`Announcement.read_eq`), and neither the sum with the epoch nor
the difference with the clock is checked. `secondsToExpireChecked` and
`nextRefreshDelayChecked` are the same computations, without a result where a step of
them leaves its range.

They have one, and it is what the code computes and the number that is meant, if and
only if the announced value, the clock and their difference stay within 64 bits
(`expiry_exact_iff`). A token announced for longer may be taken for expired
(`far_token_expired`).
-/

namespace Lox

/-! ## What is announced -/

/-- The integer that a field stands for: a number of 64 bits, with or without a sign,
or a decimal string. -/
def Json.integer : Json → Option Int
  | num n => if -2 ^ 63 ≤ n ∧ n < 2 ^ 64 then some n else none
  | str s => (parseI64 s).map Int64.toInt
  | _ => none

/-- Where a `validUntil` comes from. -/
inductive Announcement
  /-- The `value` of an answer. -/
  | answer (value : Json)
  /-- The text in a token file. -/
  | file (text : Str)

namespace Announcement

/-- The integer that is announced. -/
def announces : Announcement → Option Int
  | answer value => (value.get "validUntil".toList).bind Json.integer
  | file text => (parseI64 text).map Int64.toInt

/-- What the token keeps of it. -/
def read : Announcement → Option Int64
  | answer value => (readValidUntil value).toOption
  | file text => parseI64 text

end Announcement

theorem map_ofInt_toInt (n? : Option Int64) : (n?.map Int64.toInt).map Int64.ofInt = n? := by
  cases n? with
  | none => rfl
  | some n => exact congrArg some (Int64.ofInt_toInt n)

/-- A field that stands for an integer is read as that, modulo 2⁶⁴. -/
theorem Json.read_integer (v : Json) :
    (v.asI64.or (v.asU64.map UInt64.toInt64)).or (v.asStr.bind parseI64) = v.integer.map Int64.ofInt := by
  cases v with
  | num n =>
    simp only [asI64, asU64, asStr, integer]
    by_cases hsigned : -2 ^ 63 ≤ n ∧ n < 2 ^ 63
    · have hfits : -2 ^ 63 ≤ n ∧ n < 2 ^ 64 := ⟨hsigned.1, by omega⟩
      rw [if_pos hsigned, if_pos hfits]
      rfl
    · rw [if_neg hsigned]
      by_cases hunsigned : 0 ≤ n ∧ n < 2 ^ 64
      · have hcast : (UInt64.ofNat n.toNat).toInt64 = Int64.ofInt n := by
          rw [UInt64.toInt64_ofNat', ← Int64.ofInt_eq_ofNat, Int.toNat_of_nonneg hunsigned.1]
        have hfits : -2 ^ 63 ≤ n ∧ n < 2 ^ 64 := ⟨by omega, hunsigned.2⟩
        rw [if_pos hunsigned, if_pos hfits, Option.map_some, hcast]
        rfl
      · rw [if_neg hunsigned, if_neg (by omega)]
        rfl
  | str s => exact (map_ofInt_toInt (parseI64 s)).symm
  | _ => rfl

namespace Announcement

/-- What is announced is read modulo 2⁶⁴. -/
theorem read_eq (a : Announcement) : a.read = a.announces.map Int64.ofInt := by
  cases a with
  | answer value =>
    simp only [read, announces, readValidUntil, Json.read_integer]
    cases value.get "validUntil".toList with
    | none => rfl
    | some field =>
      rw [Option.bind_some, Option.bind_some]
      cases field.integer <;> rfl
  | file text => exact (map_ofInt_toInt (parseI64 text)).symm

/-- No integer below the 64-bit range is announced. -/
theorem le_announced {a : Announcement} {v : Int} (h : a.announces = some v) : -2 ^ 63 ≤ v := by
  have htext : ∀ text, (parseI64 text).map Int64.toInt = some v → -2 ^ 63 ≤ v := fun text htext => by
    obtain ⟨n, -, rfl⟩ := Option.map_eq_some_iff.mp htext
    exact Int64.le_toInt n
  cases a with
  | answer value =>
    obtain ⟨field, -, hfield⟩ := Option.bind_eq_some_iff.mp h
    cases field with
    | num n =>
      simp only [Json.integer] at hfield
      by_cases hfits : -2 ^ 63 ≤ n ∧ n < 2 ^ 64
      · rw [if_pos hfits] at hfield
        cases hfield
        exact hfits.1
      · rw [if_neg hfits] at hfield
        cases hfield
    | str s => exact htext s hfield
    | _ => cases hfield
  | file text => exact htext text h

end Announcement

/-! ## Without leaving 64 bits -/

/-- An integer in 64 bits, if it fits. -/
def i64 (n : Int) : Option Int64 := if -2 ^ 63 ≤ n ∧ n < 2 ^ 63 then some (Int64.ofInt n) else none

theorem i64_eq_some {n : Int} {m : Int64} : i64 n = some m ↔ m.toInt = n := by
  unfold i64
  constructor
  · intro h
    by_cases hfits : -2 ^ 63 ≤ n ∧ n < 2 ^ 63
    · rw [if_pos hfits] at h
      cases h
      exact Int64.toInt_ofInt_of_le hfits.1 hfits.2
    · rw [if_neg hfits] at h
      cases h
  · rintro rfl
    rw [if_pos ⟨m.le_toInt, m.toInt_lt⟩, Int64.ofInt_toInt]

theorem exists_i64 {n : Int} (hle : -2 ^ 63 ≤ n) (hlt : n < 2 ^ 63) : ∃ m : Int64, i64 n = some m ∧ m.toInt = n :=
  ⟨Int64.ofInt n, if_pos ⟨hle, hlt⟩, Int64.toInt_ofInt_of_le hle hlt⟩

/-- `read_valid_until` and `seconds_to_expire`, for the announced value `v`. -/
def secondsToExpireChecked (v : Int) (now : UInt64) : Option Int64 := do
  let validUntil ← i64 v
  let expiry ← i64 (LxToken.loxoneEpoch.toInt + validUntil.toInt)
  let now ← i64 now.toNat
  i64 (expiry.toInt - now.toInt)

/-- `next_refresh_delay`, if there is a token and `v` is what was announced for it. -/
def nextRefreshDelayChecked (v : Int) (now : UInt64) : Option UInt64 := do
  let left ← secondsToExpireChecked v now
  let secs ← i64 (left.toInt - tokenRefreshSecondsBeforeExpiry.toInt)
  return (max (max secs tokenRefreshMinDelaySecs) 0).toUInt64

/-- The seconds until a token that is valid until `v` expires. -/
def secondsUntil (v : Int) (now : UInt64) : Int := 1230768000 + v - now.toNat

/-- The announced value, the clock and what is computed from them fit in 64 bits. -/
def Fits (v : Int) (now : UInt64) : Prop :=
  1230768000 + v < 2 ^ 63 ∧ now.toNat < 2 ^ 63 ∧ -2 ^ 63 + 86400 ≤ secondsUntil v now

instance (v : Int) (now : UInt64) : Decidable (Fits v now) := inferInstanceAs (Decidable (_ ∧ _ ∧ _))

theorem toInt_loxoneEpoch : LxToken.loxoneEpoch.toInt = 1230768000 := by decide

theorem toInt_tokenRefreshSecondsBeforeExpiry : tokenRefreshSecondsBeforeExpiry.toInt = 86400 := by decide

/-- When the seconds can be computed, and what they are. -/
theorem secondsToExpireChecked_eq_some {v : Int} {now : UInt64} {left : Int64} :
    secondsToExpireChecked v now = some left ↔
      (-2 ^ 63 ≤ v ∧ 1230768000 + v < 2 ^ 63) ∧ now.toNat < 2 ^ 63 ∧ left.toInt = secondsUntil v now := by
  unfold secondsToExpireChecked secondsUntil
  simp only [Option.bind_eq_bind, Option.bind_eq_some_iff, i64_eq_some, toInt_loxoneEpoch]
  constructor
  · rintro ⟨validUntil, hv, expiry, hexpiry, now', hnow, hleft⟩
    have hle := validUntil.le_toInt
    have hlt := expiry.toInt_lt
    have hclock := now'.toInt_lt
    omega
  · rintro ⟨⟨hle, hlt⟩, hclock, hleft⟩
    obtain ⟨validUntil, -, hv⟩ := exists_i64 hle (by omega)
    obtain ⟨expiry, -, hexpiry⟩ := exists_i64 (n := 1230768000 + v) (by omega) hlt
    obtain ⟨now', -, hnow⟩ := exists_i64 (n := now.toNat) (by omega) (by omega)
    exact ⟨validUntil, hv, expiry, by omega, now', hnow, by omega⟩

theorem Fits.range {v : Int} {now : UInt64} (h : Fits v now) :
    -2 ^ 63 ≤ secondsUntil v now ∧ secondsUntil v now < 2 ^ 63 := by
  obtain ⟨hexpiry, -, hle⟩ := h
  refine ⟨by omega, ?_⟩
  unfold secondsUntil
  omega

/-- What is computed on the way to the delay. -/
theorem exists_secs {v : Int} {now : UInt64} (hle : -2 ^ 63 ≤ v) (h : Fits v now) :
    ∃ left secs, secondsToExpireChecked v now = some left ∧ left.toInt = secondsUntil v now ∧
      i64 (left.toInt - tokenRefreshSecondsBeforeExpiry.toInt) = some secs ∧
      secs.toInt = secondsUntil v now - 86400 := by
  obtain ⟨hexpiry, hclock, hleft⟩ := h
  obtain ⟨hlower, hupper⟩ := Fits.range ⟨hexpiry, hclock, hleft⟩
  obtain ⟨left, -, hl⟩ := exists_i64 hlower hupper
  obtain ⟨secs, hsecs, hs⟩ := exists_i64 (n := secondsUntil v now - 86400) (by omega) (by omega)
  refine ⟨left, secs, secondsToExpireChecked_eq_some.mpr ⟨⟨hle, hexpiry⟩, hclock, hl⟩, hl, ?_, hs⟩
  rw [hl, toInt_tokenRefreshSecondsBeforeExpiry]
  exact hsecs

theorem Fits.of_delay {v : Int} {now delay : UInt64} (h : nextRefreshDelayChecked v now = some delay) : Fits v now := by
  obtain ⟨left, hleft, h⟩ := Option.bind_eq_some_iff.mp h
  obtain ⟨secs, hsecs, -⟩ := Option.bind_eq_some_iff.mp h
  obtain ⟨⟨-, hexpiry⟩, hclock, hl⟩ := secondsToExpireChecked_eq_some.mp hleft
  rw [i64_eq_some, toInt_tokenRefreshSecondsBeforeExpiry] at hsecs
  have hle := secs.le_toInt
  exact ⟨hexpiry, hclock, by omega⟩

/-! ## What the code computes -/

theorem toInt_max (a b : Int64) : (max a b).toInt = max a.toInt b.toInt := by
  show (if a ≤ b then b else a).toInt = _
  by_cases hle : a ≤ b
  · rw [if_pos hle, max_eq_right (Int64.le_iff_toInt_le.mp hle)]
  · rw [if_neg hle, max_eq_left (Int.le_of_not_le fun h => hle (Int64.le_iff_toInt_le.mpr h))]

theorem toNat_toUInt64 {n : Int64} (h : 0 ≤ n.toInt) : (n.toUInt64.toNat : Int) = n.toInt := by
  rw [Int64.toNat_toUInt64_of_le (Int64.le_iff_toInt_le.mpr h)]
  exact Int.toNat_of_nonneg h

/-- Without checks, the seconds are what is meant if and only if these fit in 64 bits:
what turns over on the way turns back. -/
theorem toInt_secondsToExpire_iff {a : Announcement} {v : Int} (ha : a.announces = some v) {t : LxToken}
    (ht : a.read = some t.validUntil) (now : UInt64) :
    (t.secondsToExpire now).toInt = secondsUntil v now ↔
      -2 ^ 63 ≤ secondsUntil v now ∧ secondsUntil v now < 2 ^ 63 := by
  rw [a.read_eq, ha, Option.map_some, Option.some.injEq] at ht
  have hkept : t.validUntil.toInt = v.bmod (2 ^ 64) := by
    rw [← ht]
    exact Int64.toInt_ofInt
  have hseconds : (t.secondsToExpire now).toInt = (secondsUntil v now).bmod (2 ^ 64) := by
    rw [LxToken.toInt_secondsToExpire_bmod, LxToken.secondsLeft, hkept, ← Int.bmod_sub_bmod, Int.add_bmod_bmod,
      Int.bmod_sub_bmod, secondsUntil]
  constructor
  · intro h
    rw [← h]
    exact ⟨Int64.le_toInt _, Int64.toInt_lt _⟩
  · rintro ⟨hle, hlt⟩
    rw [hseconds]
    exact Int.bmod_eq_of_le (by omega) (by omega)

theorem nextRefreshDelay_eq {σ : Type} {shared shared' : SharedState σ} (h : shared.token.isEmpty = false)
    {now : UInt64} {secs : Int64}
    (hsecs : secs.toInt = (shared'.token.secondsToExpire now).toInt - tokenRefreshSecondsBeforeExpiry.toInt) :
    nextRefreshDelay shared shared' now = (max (max secs tokenRefreshMinDelaySecs) 0).toUInt64 := by
  have hsub : shared'.token.secondsToExpire now - tokenRefreshSecondsBeforeExpiry = secs := by
    rw [← Int64.ofInt_toInt secs, hsecs, Int64.ofInt_sub, Int64.ofInt_toInt, Int64.ofInt_toInt]
  unfold nextRefreshDelay SharedState.tokenValidUntil
  rw [h, hsub]
  rfl

/-- Everything that is computed from the announced `v` is computed within its range and
is the number that is meant. -/
structure ExpiryExact (a : Announcement) (v : Int) (now : UInt64) : Prop where
  seconds : ∀ t : LxToken, a.read = some t.validUntil →
    secondsToExpireChecked v now = some (t.secondsToExpire now) ∧
      (t.secondsToExpire now).toInt = secondsUntil v now
  delay : ∀ {σ : Type} (shared shared' : SharedState σ), shared.token.isEmpty = false →
    a.read = some shared'.token.validUntil →
    nextRefreshDelayChecked v now = some (nextRefreshDelay shared shared' now) ∧
      ((nextRefreshDelay shared shared' now).toNat : Int) = max (secondsUntil v now - 86400) 15

theorem ExpiryExact.of_fits {a : Announcement} {v : Int} (ha : a.announces = some v) {now : UInt64}
    (h : Fits v now) : ExpiryExact a v now := by
  obtain ⟨left, secs, hchecked, hleft, hsecs, hs⟩ := exists_secs (a.le_announced ha) h
  refine ⟨fun t ht => ?_, fun shared shared' hne ht => ?_⟩
  · have hexact := (toInt_secondsToExpire_iff ha ht now).mpr h.range
    refine ⟨?_, hexact⟩
    rw [hchecked, Option.some.injEq, ← Int64.toInt_inj, hleft, hexact]
  · have hexact := (toInt_secondsToExpire_iff ha ht now).mpr h.range
    have hdelay : nextRefreshDelay shared shared' now = (max (max secs tokenRefreshMinDelaySecs) 0).toUInt64 :=
      nextRefreshDelay_eq hne (by rw [hs, hexact, toInt_tokenRefreshSecondsBeforeExpiry])
    have hmin : tokenRefreshMinDelaySecs.toInt = 15 := by decide
    have hzero : (0 : Int64).toInt = 0 := by decide
    rw [hdelay]
    constructor
    · unfold nextRefreshDelayChecked
      rw [hchecked, Option.bind_eq_bind, Option.bind_some, hsecs]
      rfl
    · rw [toNat_toUInt64]
      · rw [toInt_max, toInt_max, hs, hmin, hzero]
        omega
      · rw [toInt_max, hzero]
        exact le_max_right _ _

/-- The arithmetic is exact for an announced value if and only if it fits. Where it may
turn over, the seconds are exact if and only if they fit themselves; and of two values
for which they do, the later leaves no fewer. -/
theorem expiry_exact_iff (a : Announcement) (v : Int) (ha : a.announces = some v) (now : UInt64) :
    (ExpiryExact a v now ↔ Fits v now) ∧
      (∀ t : LxToken, a.read = some t.validUntil →
        ((t.secondsToExpire now).toInt = secondsUntil v now ↔
          -2 ^ 63 ≤ secondsUntil v now ∧ secondsUntil v now < 2 ^ 63)) ∧
      ∀ (a' : Announcement) (v' : Int), a'.announces = some v' → v ≤ v' → -2 ^ 63 ≤ secondsUntil v now →
        secondsUntil v' now < 2 ^ 63 → ∀ t t' : LxToken, a.read = some t.validUntil →
          a'.read = some t'.validUntil → t.secondsToExpire now ≤ t'.secondsToExpire now := by
  refine ⟨⟨fun hexact => ?_, .of_fits ha⟩, fun t ht => toInt_secondsToExpire_iff ha ht now,
    fun a' v' ha' hle hlower hupper t t' ht ht' => ?_⟩
  · let shared : SharedState Unit := ⟨⟨['t'], Int64.ofInt v, .sha1⟩, none⟩
    have hread : a.read = some shared.token.validUntil := by rw [a.read_eq, ha, Option.map_some]
    exact .of_delay (hexact.delay shared shared rfl hread).1
  · have hmono : secondsUntil v now ≤ secondsUntil v' now := by
      unfold secondsUntil
      omega
    have hleft := (toInt_secondsToExpire_iff ha ht now).mpr ⟨hlower, by omega⟩
    have hleft' := (toInt_secondsToExpire_iff ha' ht' now).mpr ⟨by omega, hupper⟩
    rw [Int64.le_iff_toInt_le, hleft, hleft']
    exact hmono

/-- An answer that announces `v`. -/
def announcing (v : Int) : Announcement := .answer (.obj [("validUntil".toList, .num v)])

theorem announcing_announces {v : Int} (hle : -2 ^ 63 ≤ v) (hlt : v < 2 ^ 64) : (announcing v).announces = some v := by
  have hfits : -2 ^ 63 ≤ v ∧ v < 2 ^ 64 := ⟨hle, hlt⟩
  rw [announcing, Announcement.announces, Json.get_head, Option.bind_some, Json.integer, if_pos hfits]

theorem expiry_exact_iff_in_2024 : (announcing 500000000).announces = some 500000000 ∧
    ExpiryExact (announcing 500000000) 500000000 1700000000 :=
  have ha := announcing_announces (v := 500000000) (by decide) (by decide)
  ⟨ha, (expiry_exact_iff _ _ ha 1700000000).1.mpr (by decide)⟩

/-- A token announced for the last second of 64 bits is taken for one that expired years
ago, its value having turned negative. The largest value that a token can keep overflows
the sum with the epoch. -/
theorem far_token_expired :
    (announcing (2 ^ 64 - 1)).announces = some (2 ^ 64 - 1) ∧ (announcing (2 ^ 64 - 1)).read = some (-1) ∧
    (⟨['t'], -1, .sha1⟩ : LxToken).secondsToExpire 1700000000 = -469232001 ∧
    secondsUntil (2 ^ 64 - 1) 1700000000 = 18446744073240319615 ∧
    (announcing (2 ^ 63 - 1)).announces = some (2 ^ 63 - 1) ∧
    (announcing (2 ^ 63 - 1)).read = some Int64.maxValue ∧
    secondsToExpireChecked (2 ^ 63 - 1) 1700000000 = none := by
  have hlast := announcing_announces (v := 2 ^ 64 - 1) (by decide) (by decide)
  have hmax := announcing_announces (v := 2 ^ 63 - 1) (by decide) (by decide)
  refine ⟨hlast, ?_, by decide, by decide, hmax, ?_, by decide⟩
  · rw [Announcement.read_eq, hlast, Option.map_some]
    decide
  · rw [Announcement.read_eq, hmax, Option.map_some]
    decide

end Lox
