import LoxWebsocket.Crypto.Pipeline
import LoxWebsocket.Crypto.RsaKey

/-!
# The key exchange

A session draws a key and an IV, and sends them to the Miniserver under its
public key: `sessionPayload` is the text that is wrapped, `wrapSessionKey` what
is sent of it. RSA itself is outside the repository and is a parameter (`Rsa`);
what a Miniserver needs of it is that its private key opens what was encrypted
under the key it gave out (`Rsa.Opens`). It then has the key and the IV of the
session (`unwrapSessionKey_wrap`).
-/

namespace Lox

/-- The `rsa` crate. Encryption draws its padding: `seed` stands for the draws. -/
structure Rsa where
  PublicKey : Type
  fromPublicKeyPem : Str → Except Str PublicKey
  fromPkcs1Pem : Str → Except Str PublicKey
  encrypt : PublicKey → Nat → Bytes → Except Str Bytes

/-- Import an RSA public key from PEM (SPKI or PKCS#1); `none` is a panic. -/
def importPublicKey (R : Rsa) (pem : Str) : Option (Except Error R.PublicKey) :=
  (normalizePublicKeyPem pem).map fun normalized =>
    match R.fromPublicKeyPem normalized with
    | .ok key => .ok key
    | .error spkiErr =>
      match R.fromPkcs1Pem normalized with
      | .ok key => .ok key
      | .error pkcs1Err => .error (.crypto ("SPKI: ".toList ++ spkiErr ++ "; PKCS1: ".toList ++ pkcs1Err))

/-- The session payload, encrypted and in Base64; `none` is a panic. -/
def wrapSessionKey (R : Rsa) (seed : Nat) (publicKeyPem sessionPayload : Str) : Option (Except Error Str) :=
  (importPublicKey R publicKeyPem).map fun key => do
    match R.encrypt (← key) seed (utf8 sessionPayload) with
    | .ok encrypted => .ok (b64Encode encrypted)
    | .error e => .error (.crypto ("RSA encrypt failed: ".toList ++ e))

/-- The key and the IV in hex. -/
def SessionKeys.sessionPayload {C : Crates} (keys : SessionKeys C) : Str :=
  hexEncode keys.key.toList ++ ":".toList ++ hexEncode keys.iv.toList

/-! ## The Miniserver's side -/

/-- A list of `n` bytes, as such. -/
def exactly (n : Nat) (b : Bytes) : Option (Vector UInt8 n) :=
  if h : b.length = n then some ⟨b.toArray, h⟩ else none

/-- The key and the IV of a session payload. -/
def parseSessionPayload (payload : Bytes) : Option (Key × Iv) := do
  let text ← fromUtf8 payload
  let (keyHex, ivHex) ← splitOnce ':' text
  let key ← (← hexDecode keyHex) |> exactly 32
  let iv ← (← hexDecode ivHex) |> exactly 16
  return (key, iv)

/-- What a Miniserver makes of a wrapped session key: `decrypt` is its private
key. -/
def unwrapSessionKey (decrypt : Bytes → Option Bytes) (sessionB64 : Str) : Option (Key × Iv) := do
  let encrypted ← b64Decode sessionB64
  let payload ← decrypt encrypted
  parseSessionPayload payload

/-- The private key opens what is encrypted under the public key of the PEM. -/
def Rsa.Opens (R : Rsa) (pem : Str) (decrypt : Bytes → Option Bytes) : Prop :=
  ∀ key, importPublicKey R pem = some (.ok key) → ∀ seed m c, R.encrypt key seed m = .ok c → decrypt c = some m

theorem exactly_toList {n : Nat} (v : Vector UInt8 n) : exactly n v.toList = some v := by
  rw [exactly, dif_pos v.length_toList]
  rfl

theorem parseSessionPayload_sessionPayload {C : Crates} (keys : SessionKeys C) :
    parseSessionPayload (utf8 keys.sessionPayload) = some (keys.key, keys.iv) := by
  have hsplit : splitOnce ':' keys.sessionPayload = some (hexEncode keys.key.toList, hexEncode keys.iv.toList) := by
    rw [SessionKeys.sessionPayload, List.append_assoc]
    exact splitOnce_append (not_mem_hexEncode (by decide)) _
  simp only [parseSessionPayload, fromUtf8_utf8, hsplit, hexDecode_encode, exactly_toList, bind, Option.bind, pure]

/-- The Miniserver gets the key and the IV of the session. -/
theorem unwrapSessionKey_wrap {R : Rsa} {pem : Str} {decrypt : Bytes → Option Bytes} (hopens : R.Opens pem decrypt)
    {C : Crates} {keys : SessionKeys C} {seed : Nat} {sessionB64 : Str}
    (h : wrapSessionKey R seed pem keys.sessionPayload = some (.ok sessionB64)) :
    unwrapSessionKey decrypt sessionB64 = some (keys.key, keys.iv) := by
  obtain ⟨imported, himport, hwrap⟩ := Option.map_eq_some_iff.mp h
  cases imported with
  | error e => cases hwrap
  | ok key =>
    simp only [bind, Except.bind] at hwrap
    split at hwrap
    · rename_i encrypted henc
      cases hwrap
      rw [unwrapSessionKey, b64Decode_encode]
      simp only [bind, Option.bind, hopens key himport _ _ _ henc, parseSessionPayload_sessionPayload]
    · cases hwrap

/-! ## A sample key -/

/-- A public key of 1024 bits. -/
def sampleDer : Bytes :=
  [48, 129, 159, 48, 13, 6, 9, 42, 134, 72, 134, 247, 13, 1, 1, 1, 5, 0, 3, 129, 141, 0, 48, 129, 137, 2,
    129, 129, 0, 203, 188, 213, 247, 78, 58, 137, 86, 151, 196, 91, 41, 233, 40, 72, 90, 14, 75, 142, 66,
    153, 78, 118, 186, 217, 78, 182, 30, 88, 0, 172, 135, 148, 124, 104, 210, 196, 186, 232, 147, 28, 28,
    1, 104, 16, 145, 110, 14, 42, 180, 185, 248, 183, 126, 50, 5, 57, 223, 165, 250, 20, 76, 20, 162, 234,
    203, 178, 79, 105, 148, 199, 48, 240, 73, 66, 163, 39, 225, 128, 125, 103, 40, 112, 137, 149, 140, 213,
    73, 128, 140, 48, 247, 44, 52, 103, 195, 116, 17, 227, 99, 205, 158, 124, 179, 89, 44, 137, 226, 10,
    254, 151, 144, 255, 65, 53, 220, 232, 71, 45, 69, 173, 23, 171, 230, 200, 34, 14, 11, 2, 3, 1, 0, 1]

/-- The key as a Miniserver gives it out. -/
def samplePem : Str := beginMarker .certificate ++ (b64Encode sampleDer ++ endMarker .certificate)

/-- The payload of `sampleKeys`, encrypted under it. -/
def sampleWrapped : Bytes :=
  [53, 64, 196, 16, 10, 166, 112, 11, 181, 138, 83, 32, 241, 11, 84, 59, 81, 167, 104, 13, 5, 53, 235, 72,
    6, 237, 191, 76, 168, 61, 57, 244, 254, 236, 35, 73, 236, 123, 239, 228, 34, 200, 84, 156, 67, 127,
    132, 85, 186, 19, 240, 210, 11, 81, 118, 88, 60, 175, 244, 108, 202, 107, 118, 62, 55, 229, 232, 91,
    91, 15, 24, 84, 53, 197, 159, 107, 219, 189, 241, 227, 122, 53, 206, 232, 56, 70, 24, 185, 239, 123,
    220, 164, 17, 180, 56, 158, 226, 181, 117, 15, 81, 204, 9, 146, 165, 19, 52, 36, 235, 56, 143, 235,
    216, 142, 237, 133, 5, 182, 58, 222, 179, 105, 222, 83, 159, 240, 142, 251]

/-- The crate on this key and this payload. -/
def sampleRsa : Rsa where
  PublicKey := Unit
  fromPublicKeyPem pem := if pem = pemText (b64Encode sampleDer) then .ok () else .error "ASN.1 error".toList
  fromPkcs1Pem _ := .error "ASN.1 error".toList
  encrypt _ seed payload :=
    if seed = 0 ∧ payload = utf8 sampleKeys.sessionPayload then .ok sampleWrapped
    else .error "not in the table".toList

/-- The private key, likewise. -/
def sampleDecrypt (c : Bytes) : Option Bytes :=
  if c = sampleWrapped then some (utf8 sampleKeys.sessionPayload) else none

theorem sampleRsa_opens (pem : Str) : sampleRsa.Opens pem sampleDecrypt := by
  intro key _ seed m c hc
  simp only [sampleRsa] at hc
  split_ifs at hc with hentry
  cases hc
  rw [sampleDecrypt, if_pos rfl, hentry.2]

theorem normalizePublicKeyPem_sample : normalizePublicKeyPem samplePem = some (pemText (b64Encode sampleDer)) :=
  normalizePublicKeyPem_b64Encode sampleDer .certificate .certificate

/-- It is imported as it is given out, and once it has been normalised. -/
theorem wrapSessionKey_sample {pem : Str} (h : normalizePublicKeyPem pem = some (pemText (b64Encode sampleDer))) :
    wrapSessionKey sampleRsa 0 pem sampleKeys.sessionPayload = some (.ok (b64Encode sampleWrapped)) := by
  have himport : importPublicKey sampleRsa pem = some (.ok ()) := by
    simp only [importPublicKey, h, sampleRsa, Option.map_some, if_true]
  have hencrypt : sampleRsa.encrypt () 0 (utf8 sampleKeys.sessionPayload) = .ok sampleWrapped := by
    simp only [sampleRsa, and_self, if_true]
  simp only [wrapSessionKey, himport, Option.map_some, bind, Except.bind, hencrypt]

end Lox
