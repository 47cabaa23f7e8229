import LoxWebsocket.Framework.Paths
import LoxWebsocket.Auth.Flow

/-!
# Token stores

A `TokenStore` keeps the token across process restarts. `FileTokenStore` keeps
one, in a file of lines: `parseRecord` finds in it what `recordText` has written
(`parseRecord_recordText`). A save writes the record to a file beside it, which
then takes the place of the old one.
-/

namespace Lox

/-- Somewhere to keep the token across process restarts: what the store holds
is a `σ`. -/
class TokenStore (σ : Type) where
  load : σ → Str → Option LxToken
  save : σ → Str → LxToken → σ
  clear : σ → Str → σ

/-- A store in memory, for one identity. -/
instance : TokenStore (Option LxToken) where
  load st _ := st
  save _ _ token := some token
  clear _ _ := none

/-! ## The identity a token is kept under -/

/-- `u64::to_le_bytes`. -/
def le64 (n : Nat) : Bytes := (List.range 8).map fun i => UInt8.ofNat (n / 256 ^ i)

/-- The key that ties a token to the Miniserver, the user and the client it was
issued for. -/
def tokenBinding (P : Parsers) (loxoneUrl username clientUuid : Str) : Str :=
  hexEncode (P.digest .sha256
    ([loxoneUrl, username, clientUuid].flatMap fun part => le64 (utf8 part).length ++ utf8 part))

theorem noBreak_tokenBinding (P : Parsers) (loxoneUrl username clientUuid : Str) :
    NoBreak (tokenBinding P loxoneUrl username clientUuid) :=
  ⟨not_mem_hexEncode (by decide), not_mem_hexEncode (by decide)⟩

/-! ## The record -/

def storeMagic : Str := "loxwebsocket-token 1".toList

def recordText (binding : Str) (token : LxToken) : Str :=
  unlines [storeMagic, "binding=".toList ++ binding, "hash_alg=".toList ++ token.hashAlg.asStr,
    "valid_until=".toList ++ showI64 token.validUntil, "token=".toList ++ token.token]

/-- The fields of a record that have been read. -/
structure RecordFields where
  binding : Option Str
  token : Option Str
  validUntil : Option Int64
  hashAlg : Option HashAlg

namespace RecordFields

def empty : RecordFields := ⟨none, none, none, none⟩

/-- The first occurrence of a field wins. -/
def readLine (fields : RecordFields) (line : Str) : RecordFields :=
  match splitOnce '=' line with
  | none => fields
  | some (key, value) =>
    if key = "binding".toList ∧ fields.binding.isNone then { fields with binding := some value }
    else if key = "token".toList ∧ fields.token.isNone then { fields with token := some value }
    else if key = "valid_until".toList ∧ fields.validUntil.isNone then { fields with validUntil := parseI64 value }
    else if key = "hash_alg".toList ∧ fields.hashAlg.isNone then
      { fields with hashAlg := (HashAlg.parse value).toOption }
    else fields

/-- All four, and a token that is not empty. -/
def complete (fields : RecordFields) : Option (Str × LxToken) := do
  let binding ← fields.binding
  let token ← fields.token
  let validUntil ← fields.validUntil
  let hashAlg ← fields.hashAlg
  if token.isEmpty then none else some (binding, ⟨token, validUntil, hashAlg⟩)

end RecordFields

def parseRecord (raw : Str) : Option (Str × LxToken) :=
  match lines raw with
  | [] => none
  | magic :: fields =>
    if magic = storeMagic then (fields.foldl RecordFields.readLine .empty).complete else none

theorem noBreak_showI64 (n : Int64) : NoBreak (showI64 n) := by
  have hdigits (m : Nat) : NoBreak m.repr.toList := by
    refine ⟨fun h => ?_, fun h => ?_⟩
    · exact absurd (isDigit_of_mem_repr h) (by decide)
    · exact absurd (isDigit_of_mem_repr h) (by decide)
  unfold showI64
  split
  · exact hdigits _
  · exact NoBreak.append (l := ['-']) (by decide) (hdigits _)

theorem noBreak_asStr (alg : HashAlg) : NoBreak alg.asStr := by
  cases alg
  · decide
  · decide

theorem parse_asStr (alg : HashAlg) : HashAlg.parse alg.asStr = .ok alg := by
  cases alg
  · rfl
  · rfl

namespace RecordFields

variable (fields : RecordFields)

theorem readLine_binding (h : fields.binding = none) (value : Str) :
    fields.readLine ("binding=".toList ++ value) = { fields with binding := some value } := by
  have hsplit : splitOnce '=' ("binding=".toList ++ value) = some ("binding".toList, value) :=
    splitOnce_append (a := "binding".toList) (by decide) value
  rw [readLine, hsplit]
  exact if_pos ⟨rfl, by rw [h]; rfl⟩

theorem readLine_token (h : fields.token = none) (value : Str) :
    fields.readLine ("token=".toList ++ value) = { fields with token := some value } := by
  have hsplit : splitOnce '=' ("token=".toList ++ value) = some ("token".toList, value) :=
    splitOnce_append (a := "token".toList) (by decide) value
  rw [readLine, hsplit]
  refine (if_neg fun hkey => absurd hkey.1 (by decide)).trans ?_
  exact if_pos ⟨rfl, by rw [h]; rfl⟩

theorem readLine_validUntil (h : fields.validUntil = none) (n : Int64) :
    fields.readLine ("valid_until=".toList ++ showI64 n) = { fields with validUntil := some n } := by
  have hsplit : splitOnce '=' ("valid_until=".toList ++ showI64 n) = some ("valid_until".toList, showI64 n) :=
    splitOnce_append (a := "valid_until".toList) (by decide) _
  rw [readLine, hsplit]
  refine (if_neg fun hkey => absurd hkey.1 (by decide)).trans ?_
  refine (if_neg fun hkey => absurd hkey.1 (by decide)).trans ?_
  refine (if_pos ⟨rfl, by rw [h]; rfl⟩).trans ?_
  rw [parseI64_showI64]

theorem readLine_hashAlg (h : fields.hashAlg = none) (alg : HashAlg) :
    fields.readLine ("hash_alg=".toList ++ alg.asStr) = { fields with hashAlg := some alg } := by
  have hsplit : splitOnce '=' ("hash_alg=".toList ++ alg.asStr) = some ("hash_alg".toList, alg.asStr) :=
    splitOnce_append (a := "hash_alg".toList) (by decide) _
  rw [readLine, hsplit]
  refine (if_neg fun hkey => absurd hkey.1 (by decide)).trans ?_
  refine (if_neg fun hkey => absurd hkey.1 (by decide)).trans ?_
  refine (if_neg fun hkey => absurd hkey.1 (by decide)).trans ?_
  refine (if_pos ⟨rfl, by rw [h]; rfl⟩).trans ?_
  rw [parse_asStr]
  rfl

end RecordFields

/-- The lines of a record before its token. -/
def recordHead (binding : Str) (token : LxToken) : List Str :=
  [storeMagic, "binding=".toList ++ binding, "hash_alg=".toList ++ token.hashAlg.asStr,
    "valid_until=".toList ++ showI64 token.validUntil]

theorem oneLine_recordHead {binding : Str} (h : NoBreak binding) (token : LxToken) :
    ∀ l ∈ recordHead binding token, OneLine l := by
  simp only [recordHead, List.forall_mem_cons, List.not_mem_nil, false_implies, implies_true, and_true]
  refine ⟨?_, ?_, ?_, ?_⟩
  · exact NoBreak.oneLine (by decide)
  · exact (NoBreak.append (by decide) h).oneLine
  · exact (NoBreak.append (by decide) (noBreak_asStr _)).oneLine
  · exact (NoBreak.append (by decide) (noBreak_showI64 _)).oneLine

/-- The lines of a record are read in their order. -/
theorem parseRecord_lines {binding : Str} {token : LxToken} {raw : Str}
    (hlines : lines raw = recordHead binding token ++ ["token=".toList ++ token.token])
    (hne : token.isEmpty = false) : parseRecord raw = some (binding, token) := by
  rw [parseRecord, hlines]
  refine (if_pos rfl).trans ?_
  simp only [List.append_eq, List.cons_append, List.nil_append, List.foldl_cons, List.foldl_nil]
  rw [RecordFields.readLine_binding _ rfl, RecordFields.readLine_hashAlg _ rfl, RecordFields.readLine_validUntil _ rfl,
    RecordFields.readLine_token _ rfl]
  refine (if_neg ?_).trans rfl
  rw [← LxToken.isEmpty, hne]
  exact Bool.false_ne_true

theorem recordText_eq (binding : Str) (token : LxToken) :
    recordText binding token = unlines (recordHead binding token) ++ ("token=".toList ++ token.token) ++ ['\n'] := by
  simp [recordText, recordHead, unlines]

/-- What has been written is read: the token may hold any text but a line break. -/
theorem parseRecord_recordText {binding : Str} {token : LxToken} (hbinding : NoBreak binding)
    (htoken : NoBreak token.token) (hne : token.isEmpty = false) :
    parseRecord (recordText binding token) = some (binding, token) := by
  refine parseRecord_lines ?_ hne
  have hlast : OneLine ("token=".toList ++ token.token) := (NoBreak.append (by decide) htoken).oneLine
  rw [recordText_eq, List.append_assoc, lines_unlines_append (oneLine_recordHead hbinding token), lines_cons hlast]
  rfl

/-- A record that ends inside the token is read as well, with what is there of it. -/
theorem parseRecord_cut {binding : Str} {token : LxToken} (hbinding : NoBreak binding) (htoken : NoBreak token.token)
    (hne : token.isEmpty = false) :
    parseRecord (unlines (recordHead binding token) ++ ("token=".toList ++ token.token)) = some (binding, token) := by
  refine parseRecord_lines ?_ hne
  have hlast : NoBreak ("token=".toList ++ token.token) := NoBreak.append (by decide) htoken
  have hsome : "token=".toList ++ token.token ≠ [] := by simp
  rw [lines_unlines_append (oneLine_recordHead hbinding token), lines_last hsome hlast.1]

/-! ## The file -/

structure FileTokenStore where
  path : Path
  disk : Disk Path

namespace FileTokenStore

def tmpExtension : Bytes := utf8 "tmp".toList

def readRecord (store : FileTokenStore) : Option (Str × LxToken) :=
  match store.disk.read store.path with
  | .error _ => none
  | .ok content => (fromUtf8 content).bind parseRecord

def createParent (path : Path) : Io Path Unit :=
  match path.parent.filter fun parent => !parent.components.isEmpty with
  | some _ => Disk.createDir
  | none => pure ()

def writeRecord (path : Path) (binding : Str) (token : LxToken) : Io Path Unit := do
  -- A line break would let the token forge further fields.
  if '\n' ∈ token.token ∨ '\r' ∈ token.token then
    Prog.fail (.invalidData "the token contains a line break".toList)
  else
    createParent path
    let tmp := path.withExtension tmpExtension
    let _ ← (Disk.remove tmp).attempt
    Disk.create tmp
    Disk.write tmp (utf8 (recordText binding token))
    Disk.sync
    Disk.rename tmp path

def load (store : FileTokenStore) (binding : Str) : Option LxToken :=
  match store.readRecord with
  | none => none
  | some (savedBinding, token) => if savedBinding ≠ binding then none else some token

def clear (store : FileTokenStore) (_binding : Str) : FileTokenStore :=
  { store with disk := (Disk.remove store.path store.disk).2 }

def save (store : FileTokenStore) (binding : Str) (token : LxToken) : FileTokenStore :=
  if token.isEmpty then store.clear binding
  else { store with disk := (writeRecord store.path binding token store.disk).2 }

instance : TokenStore FileTokenStore where
  load := load
  save := save
  clear := clear

end FileTokenStore

end Lox
