import LoxWebsocket.Framework.Json
import LoxWebsocket.Framework.Codec
import LoxWebsocket.Error

/-!
# Password, token and visualisation hashes

The digests and the JSON parser are outside the repository (`Parsers`). The
key of a `getkey` or `getkey2` answer is hexadecimal; the user salt is hashed
as it was sent.
-/

namespace Lox

inductive HashAlg
  | sha1
  | sha256
  deriving DecidableEq

/-- The JSON parser, the digests and the error texts of the crates. -/
structure Parsers where
  fromSlice : Bytes → Except Str Json
  digest : HashAlg → Bytes → Bytes
  hmac : HashAlg → Bytes → Bytes → Except Str Bytes
  hexErrorText : Str → Str

/-- Crates that take no text for a document. -/
def Parsers.rejecting : Parsers where
  fromSlice _ := .error "expected value at line 1 column 1".toList
  digest _ _ := []
  hmac _ _ _ := .ok []
  hexErrorText _ := "Odd number of digits".toList

/-- `P` on one more answer. -/
def Parsers.also (P : Parsers) (answer : Bytes) (document : Json) : Parsers :=
  { P with fromSlice := fun b => if b = answer then .ok document else P.fromSlice b }

def HashAlg.parse (s : Str) : Except Error HashAlg :=
  if s = "SHA1".toList then .ok .sha1
  else if s = "SHA256".toList then .ok .sha256
  else .error (.crypto ("unrecognised hash algorithm: ".toList ++ s))

def HashAlg.asStr : HashAlg → Str
  | sha1 => "SHA1".toList
  | sha256 => "SHA256".toList

/-- Key and user salt from `getkey2` or `getvisusalt`. -/
structure KeySalt where
  keyHex : Str
  salt : Str
  hashAlg : HashAlg

def KeySalt.fromLlValue (value : Json) : Except Error KeySalt := do
  let key ← match (value.get "key".toList).bind Json.asStr with
    | some key => .ok key
    | none => .error (.protocol "missing key in key/salt response".toList)
  let salt ← match (value.get "salt".toList).bind Json.asStr with
    | some salt => .ok salt
    | none => .error (.protocol "missing salt in key/salt response".toList)
  let alg := ((value.get "hashAlg".toList).bind Json.asStr).getD "SHA1".toList
  return ⟨key, salt, ← HashAlg.parse alg⟩

/-- `hex::encode_upper`. -/
def hexEncodeUpper (b : Bytes) : Str :=
  b.flatMap fun x => [upperHexDigit (x.toNat / 16), upperHexDigit (x.toNat % 16)]

variable (P : Parsers)

/-- `{password}:{userSalt}` as an upper-case digest. -/
def passwordHash (alg : HashAlg) (password userSalt : Str) : Str :=
  hexEncodeUpper (P.digest alg (utf8 (password ++ ":".toList ++ userSalt)))

def hmacHex (alg : HashAlg) (key data : Bytes) : Except Error Str :=
  match P.hmac alg key data with
  | .ok mac => .ok (hexEncode mac)
  | .error e => .error (.crypto e)

def decodeKey (keyHex : Str) : Except Error Bytes :=
  match hexDecode keyHex with
  | some key => .ok key
  | none => .error (.crypto (P.hexErrorText keyHex))

def hashCredentials (keySalt : KeySalt) (password username : Str) : Except Error Str := do
  let pwHash := passwordHash P keySalt.hashAlg password keySalt.salt
  let userPw := username ++ ":".toList ++ pwHash
  let key ← decodeKey P keySalt.keyHex
  hmacHex P keySalt.hashAlg key (utf8 userPw)

def hashVisuPassword (keySalt : KeySalt) (visuPw : Str) : Except Error Str := do
  let pwHash := passwordHash P keySalt.hashAlg visuPw keySalt.salt
  let key ← decodeKey P keySalt.keyHex
  hmacHex P keySalt.hashAlg key (utf8 pwHash)

def hashToken (alg : HashAlg) (keyHex token : Str) : Except Error Str := do
  let key ← decodeKey P keyHex
  hmacHex P alg key (utf8 token)

end Lox
