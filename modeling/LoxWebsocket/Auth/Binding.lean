import LoxWebsocket.Framework.Delimited
import LoxWebsocket.Auth.Store
import LoxWebsocket.Proto.Counted

/-!
# One binding for each identity

A token is kept under the hash of the three parts of an identity, each behind its
length (`hashedBytes`). The bytes that are hashed determine the identity
(`hashedBytes_inj`), so a binding that two identities share is a collision of SHA-256
on bytes that differ (`tokenBinding_separates`).
-/

namespace Lox

/-- What a token is issued for. -/
structure Identity where
  loxoneUrl : Str
  username : Str
  clientUuid : Str
  deriving DecidableEq

namespace Identity

def parts (id : Identity) : List Str := [id.loxoneUrl, id.username, id.clientUuid]

/-- No part is longer than a `u64` counts. -/
def Fits (id : Identity) : Prop := ∀ part ∈ id.parts, (utf8 part).length < 2 ^ 64

instance (id : Identity) : Decidable id.Fits := inferInstanceAs (Decidable (∀ part ∈ _, _))

/-- What `tokenBinding` hands to SHA-256. -/
def hashedBytes (id : Identity) : Bytes := id.parts.flatMap fun part => le64 (utf8 part).length ++ utf8 part

def binding (P : Parsers) (id : Identity) : Str := tokenBinding P id.loxoneUrl id.username id.clientUuid

theorem binding_eq (P : Parsers) (id : Identity) : id.binding P = hexEncode (P.digest .sha256 id.hashedBytes) := rfl

theorem parts_injective : Function.Injective parts := by
  rintro ⟨url, user, uuid⟩ ⟨url', user', uuid'⟩ h
  simpa [parts] using h

end Identity

/-! ## Lengths in eight bytes -/

/-- The first `k` digits to the base 256. -/
theorem leNat_digits (n k : Nat) :
    leNat ((List.range k).map fun i => UInt8.ofNat (n / 256 ^ i)) = n % 256 ^ k := by
  induction k generalizing n with
  | zero => rw [Nat.pow_zero, Nat.mod_one]; rfl
  | succ k ih =>
    have hdigits : (List.range (k + 1)).map (fun i => UInt8.ofNat (n / 256 ^ i)) =
        UInt8.ofNat n :: (List.range k).map fun i => UInt8.ofNat (n / 256 / 256 ^ i) := by
      rw [List.range_succ_eq_map, List.map_cons, List.map_map, Nat.pow_zero, Nat.div_one]
      refine congrArg (_ :: ·) (List.map_congr_left fun i _ => ?_)
      rw [Function.comp_apply, Nat.pow_succ', Nat.div_div_eq_div_mul]
    have hcons (b : UInt8) (l : Bytes) : leNat (b :: l) = b.toNat + 256 * leNat l := rfl
    rw [hdigits, hcons, ih, UInt8.toNat_ofNat', Nat.pow_succ' (m := 256), Nat.mod_mul]

theorem leNat_le64 {n : Nat} (h : n < 2 ^ 64) : leNat (le64 n) = n := by
  rw [le64, leNat_digits]
  exact Nat.mod_eq_of_lt h

/-- The length of a part, as a `u64`. -/
def lengthU64 : LengthCode UInt8 where
  size := 8
  bound := 2 ^ 64
  encode := le64
  length_encode n := by rw [le64, List.length_map, List.length_range]
  encode_inj m n hm hn h := by rw [← leNat_le64 hm, h, leNat_le64 hn]

theorem hashedBytes_inj {a b : Identity} (ha : a.Fits) (hb : b.Fits) (h : a.hashedBytes = b.hashedBytes) : a = b := by
  have hdelimit (id : Identity) : id.hashedBytes = (id.parts.map utf8).flatMap lengthU64.delimit := by
    rw [List.flatMap_map]
    rfl
  rw [hdelimit, hdelimit] at h
  have hfits {id : Identity} (hid : id.Fits) : ∀ x ∈ id.parts.map utf8, x.length < lengthU64.bound := by
    intro x hx
    obtain ⟨part, hpart, rfl⟩ := List.mem_map.mp hx
    exact hid part hpart
  have hcount : (a.parts.map utf8).length = (b.parts.map utf8).length := rfl
  have hparts := lengthU64.flatMap_delimit_inj hcount (hfits ha) (hfits hb) h
  exact Identity.parts_injective (List.map_injective_iff.mpr utf8_injective hparts)

/-- The bytes that are hashed determine the identity, so that two identities share a
binding only if SHA-256 takes the bytes of the one and the different bytes of the
other to one digest. -/
theorem tokenBinding_separates (P : Parsers) (a b : Identity) (ha : a.Fits) (hb : b.Fits) :
    (a.hashedBytes = b.hashedBytes → a = b) ∧
    ((P.digest .sha256 a.hashedBytes = P.digest .sha256 b.hashedBytes → a.hashedBytes = b.hashedBytes) →
      a.binding P = b.binding P → a = b) := by
  refine ⟨hashedBytes_inj ha hb, fun hcollision hbinding => hashedBytes_inj ha hb (hcollision ?_)⟩
  rw [Identity.binding_eq, Identity.binding_eq] at hbinding
  exact hexEncode_injective hbinding

def sampleIdentity : Identity := ⟨"ab".toList, "c".toList, []⟩

/-- The same text with the parts cut elsewhere. -/
def regrouped : Identity := ⟨"a".toList, "bc".toList, []⟩

/-- SHA-256 on the two identities. -/
def sampleDigests : Parsers :=
  { Parsers.rejecting with
    digest := fun _ bytes =>
      if bytes = sampleIdentity.hashedBytes then
        [3, 187, 236, 17, 119, 7, 162, 63, 116, 222, 83, 199, 125, 10, 192, 45, 157, 184, 220, 176,
          203, 73, 71, 88, 67, 115, 253, 202, 194, 165, 223, 174]
      else if bytes = regrouped.hashedBytes then
        [75, 186, 135, 212, 64, 79, 184, 54, 73, 161, 157, 78, 231, 223, 34, 163, 64, 92, 81, 74,
          216, 208, 99, 135, 151, 228, 152, 142, 11, 124, 213, 65]
      else [] }

theorem tokenBinding_separates_regrouped : sampleIdentity.binding sampleDigests ≠ regrouped.binding sampleDigests := by
  intro h
  have hdigests : sampleDigests.digest .sha256 sampleIdentity.hashedBytes ≠
      sampleDigests.digest .sha256 regrouped.hashedBytes := by decide
  have hsame : sampleIdentity = regrouped :=
    (tokenBinding_separates sampleDigests _ _ (by decide) (by decide)).2 (fun hd => absurd hd hdigests) h
  exact absurd (congrArg Identity.loxoneUrl hsame) (by decide)

end Lox
