import LoxWebsocket.Crypto.Hash

/-!
# Token commands and answers

The commands that acquire, present, refresh and kill a token, and the answers
to them: an `LL` envelope with a status code. A status other than 200 is an
error (`requireLlOk`), and `llStatusInvalidatesToken` says which statuses speak
of the token itself.
-/

namespace Lox

structure LxToken where
  token : Str
  /-- Seconds since 2009-01-01 UTC. -/
  validUntil : Int64
  hashAlg : HashAlg
  deriving DecidableEq

namespace LxToken

def loxoneEpoch : Int64 := 1230768000

def default : LxToken := ⟨[], 0, .sha1⟩

def isEmpty (t : LxToken) : Bool := t.token.isEmpty

/-- Seconds until expiry at the clock reading `now`. -/
def secondsToExpire (t : LxToken) (now : UInt64) : Int64 := loxoneEpoch + t.validUntil - now.toInt64

def clear (t : LxToken) : LxToken := { t with token := [], validUntil := 0 }

@[simp] theorem isEmpty_clear (t : LxToken) : t.clear.isEmpty = true := rfl

end LxToken

/-! ## Status codes -/

def llStatusCode (ll : Json) : Option Str :=
  ((ll.get "Code".toList).bind Json.asStr).or ((ll.get "code".toList).bind Json.asStr)

variable (P : Parsers)

def parseJson (payload : Bytes) : Except Error Json :=
  match P.fromSlice payload with
  | .ok v => .ok v
  | .error e => .error (.json e)

theorem parseJson_also (answer : Bytes) (document : Json) :
    parseJson (P.also answer document) answer = .ok document := by
  simp only [parseJson, Parsers.also, ↓reduceIte]

theorem parseJson_also_of_ne {answer payload : Bytes} (h : payload ≠ answer) (document : Json) :
    parseJson (P.also answer document) payload = parseJson P payload := by
  simp only [parseJson, Parsers.also, if_neg h]

def llStatusHint (code : Str) : Str :=
  if code = "400".toList then " (bad request — command must be encrypted)".toList
  else if code = "401".toList then
    " (credentials or token rejected, or the request failed to decrypt)".toList
  else if code = "403".toList then " (the requesting user lacks the rights for this request)".toList
  else if code = "404".toList then " (unrecognized command)".toList
  else if code = "420".toList then " (authentication timed out)".toList
  else if code = "423".toList then " (the requesting user is disabled)".toList
  else if code = "500".toList then " (Miniserver internal error)".toList
  else if code = "503".toList then " (Miniserver is restarting and not ready for requests)".toList
  else if code = "901".toList then " (maximum number of concurrent connections reached)".toList
  else []

/-- The statuses that speak of something other than the token. -/
def tokenKeepingCodes : List Str :=
  ["200".toList, "423".toList, "500".toList, "503".toList, "901".toList]

def llStatusInvalidatesToken (code : Str) : Bool := !tokenKeepingCodes.contains code

/-- The error a status other than 200 maps to. -/
def llStatusError (code : Str) : Error :=
  if code = "423".toList then .userDisabled
  else if code = "901".toList then .tooManyConnections
  else .auth ("LL status ".toList ++ code ++ llStatusHint code)

def requireLlOk (root : Json) : Except Error Json :=
  match root.get "LL".toList with
  | none => .error (.protocol "missing LL in response".toList)
  | some ll =>
    let code := (llStatusCode ll).getD []
    if code ≠ "200".toList then .error (llStatusError code) else .ok ll

/-- The status of a raw payload; `none` if it is no `LL` envelope. -/
def payloadLlStatus (payload : Bytes) : Option Str :=
  match parseJson P payload with
  | .error _ => none
  | .ok root => (root.get "LL".toList).bind llStatusCode

/-! ## Commands -/

inductive TokenPermission
  | web
  | app
  deriving DecidableEq

def TokenPermission.id : TokenPermission → Nat
  | web => 2
  | app => 4

def cmdGetKeyAndSalt : Str := "jdev/sys/getkey2/".toList
def cmdRequestTokenJwt : Str := "jdev/sys/getjwt/".toList
def cmdGetKey : Str := "jdev/sys/getkey".toList
def cmdAuthWithTokenTag : Str := "authwithtoken/".toList
def cmdRefreshTokenJwt : Str := "jdev/sys/refreshjwt/".toList
def cmdCheckTokenTag : Str := "jdev/sys/checktoken/".toList
def cmdKillTokenTag : Str := "jdev/sys/killtoken/".toList
def cmdGetVisualPasswd : Str := "jdev/sys/getvisusalt/".toList
def cmdKeyExchange : Str := "jdev/sys/keyexchange/".toList
def cmdEnableUpdates : Str := "jdev/sps/enablebinstatusupdate".toList

def cmdGetkey2 (username : Str) : Str := cmdGetKeyAndSalt ++ username

def cmdRequestToken (credHash username : Str) (permission : TokenPermission) (clientUuid clientInfo : Str) :
    Str :=
  cmdRequestTokenJwt ++ credHash ++ "/".toList ++ username ++ "/".toList ++
    Error.decimal permission.id ++ "/".toList ++ clientUuid ++ "/".toList ++ clientInfo

def cmdAuthWithToken (tokenHash username : Str) : Str :=
  cmdAuthWithTokenTag ++ tokenHash ++ "/".toList ++ username

def cmdRefreshToken (tokenHash username : Str) : Str :=
  cmdRefreshTokenJwt ++ tokenHash ++ "/".toList ++ username

def cmdCheckToken (tokenHash username : Str) : Str :=
  cmdCheckTokenTag ++ tokenHash ++ "/".toList ++ username

def cmdKillToken (tokenHash username : Str) : Str :=
  cmdKillTokenTag ++ tokenHash ++ "/".toList ++ username

def cmdGetVisuSalt (username : Str) : Str := cmdGetVisualPasswd ++ username

/-! ## Answers -/

/-- `LL.value` of an accepted answer. -/
def llValue (payload : Bytes) (missing : Str) : Except Error Json := do
  let root ← parseJson P payload
  let ll ← requireLlOk root
  match ll.get "value".toList with
  | some value => .ok value
  | none => .error (.protocol missing)

def parseKeySalt (payload : Bytes) : Except Error KeySalt := do
  KeySalt.fromLlValue (← llValue P payload "missing LL.value".toList)

def readValidUntil (value : Json) : Except Error Int64 :=
  match (value.get "validUntil".toList).bind fun v =>
      (v.asI64.or (v.asU64.map UInt64.toInt64)).or (v.asStr.bind parseI64) with
  | some n => .ok n
  | none => .error (.auth "missing validUntil".toList)

def parseTokenResponse (payload : Bytes) (hashAlg : HashAlg) : Except Error LxToken := do
  let value ← llValue P payload "missing LL.value in token response".toList
  let validUntil ← readValidUntil value
  return ⟨((value.get "token".toList).bind Json.asStr).getD [], validUntil, hashAlg⟩

/-- Apply a refresh or authentication answer to a token; its `token` field is
optional. -/
def applyValidUntil (token : LxToken) (payload : Bytes) : Except Error LxToken := do
  let value ← llValue P payload "missing LL.value".toList
  let token := { token with validUntil := ← readValidUntil value }
  match (value.get "token".toList).bind Json.asStr with
  | some newTok => return if newTok.isEmpty then token else { token with token := newTok }
  | none => return token

def parseGetkeyValue (payload : Bytes) : Except Error Str := do
  let root ← parseJson P payload
  let ll ← requireLlOk root
  match (ll.get "value".toList).bind Json.asStr with
  | some key => .ok key
  | none => .error (.protocol "missing getkey value".toList)

/-- The `getjwt` command from a `getkey2` answer. -/
def buildAcquireTokenCmd (getkey2Payload : Bytes) (username password : Str) (permission : TokenPermission)
    (clientUuid clientInfo : Str) : Except Error (Str × HashAlg) := do
  let ks ← parseKeySalt P getkey2Payload
  let cred ← hashCredentials P ks password username
  return (cmdRequestToken cred username permission clientUuid clientInfo, ks.hashAlg)

def buildTokenHash (getkeyPayload : Bytes) (token : LxToken) : Except Error Str := do
  let key ← parseGetkeyValue P getkeyPayload
  hashToken P token.hashAlg key token.token

/-! ## What the parsers keep -/

/-- A token stays non-empty when an answer is applied to it. -/
theorem isEmpty_applyValidUntil {token token' : LxToken} {payload : Bytes} (hne : token.isEmpty = false)
    (h : applyValidUntil P token payload = .ok token') : token'.isEmpty = false := by
  simp only [applyValidUntil, bind, Except.bind, pure, Except.pure] at h
  repeat' split at h
  all_goals cases h
  all_goals simp_all [LxToken.isEmpty]

/-- The `getjwt` command is one. -/
theorem buildAcquireTokenCmd_prefix {getkey2Payload : Bytes} {username password : Str}
    {permission : TokenPermission} {clientUuid clientInfo cmd : Str} {alg : HashAlg}
    (h : buildAcquireTokenCmd P getkey2Payload username password permission clientUuid clientInfo =
      .ok (cmd, alg)) : cmdRequestTokenJwt <+: cmd := by
  simp only [buildAcquireTokenCmd, bind, Except.bind, pure, Except.pure] at h
  repeat' split at h
  all_goals cases h
  simp only [cmdRequestToken, List.append_assoc]
  exact List.prefix_append _ _

end Lox
