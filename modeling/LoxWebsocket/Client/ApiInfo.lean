import LoxWebsocket.Auth.Flow
import LoxWebsocket.Client.Echo
import LoxWebsocket.Framework.Lines

/-!
# What a Miniserver reports of itself

The answers to `jdev/cfg/apiKey` and `jdev/cfg/api`. The firmwares write them in
several forms: the value is an object, or a text that holds one, with double or
with single quotes; a number stands for a text or a text for a number; a flag is
a boolean, a number or a word. `TextAs`, `StatusAs` and `FlagAs` are the forms of
a field, `ValueAs` those of the value.

A field is read if and only if it has one of its forms (`stringField_eq_some_iff`
and so on), and an answer is accepted if and only if its value has one
(`parseApiInfo_forms`).
-/

namespace Lox

structure ApiInfo where
  snr : Option Str
  version : Option Str
  /-- 1 is available, 2 expired. -/
  httpsStatus : Option UInt8
  isLocal : Option Bool
  hasEventSlots : Option Bool
  deriving DecidableEq

/-! ## Fields -/

def stringField (v : Json) (key : Str) : Option Str :=
  (v.get key).bind fun field =>
    (field.asStr.or (field.asU64.map fun n => Error.decimal n.toNat)).filter fun s => !s.isEmpty

def u8Field (v : Json) (key : Str) : Option UInt8 :=
  (v.get key).bind fun field =>
    (field.asU64.or (field.asStr.bind fun s => parseU64 (trim s))).bind fun n =>
      if n.toNat < 256 then some n.toUInt8 else none

/-- The words for a flag. -/
def flagWords : Bool → List Str
  | true => ["true".toList, "1".toList]
  | false => ["false".toList, "0".toList]

def boolField (v : Json) (key : Str) : Option Bool :=
  (v.get key).bind fun field =>
    match field.asBool with
    | some b => some b
    | none =>
      match field.asU64 with
      | some n => some (n != 0)
      | none =>
        field.asStr.bind fun s =>
          if trim s ∈ flagWords true then some true else if trim s ∈ flagWords false then some false else none

namespace ApiInfo

/-- Take every field that is still missing from `other`. -/
def fillFrom (info other : ApiInfo) : ApiInfo :=
  ⟨info.snr.or other.snr, info.version.or other.version, info.httpsStatus.or other.httpsStatus,
    info.isLocal.or other.isLocal, info.hasEventSlots.or other.hasEventSlots⟩

def fromValue (v : Json) : ApiInfo :=
  ⟨stringField v "snr".toList, stringField v "version".toList, u8Field v "httpsStatus".toList,
    boolField v "local".toList, boolField v "hasEventSlots".toList⟩

end ApiInfo

/-! ## Answers -/

variable (P : Parsers)

/-- `raw` with double instead of single quotes. -/
def doubleQuoted (raw : Str) : Str := raw.map fun c => if c = '\'' then '"' else c

/-- The second attempt at an object. -/
def parseNormalized (raw : Str) : Except Error Json :=
  match P.fromSlice (utf8 (doubleQuoted raw)) with
  | .error e => .error (.json ("LL.value: ".toList ++ e))
  | .ok v => if v.isObject then .ok v else .error (.protocol "LL.value string is not an object".toList)

/-- An object that may use single instead of double quotes. -/
def parseRelaxedObject (raw : Str) : Except Error Json :=
  match P.fromSlice (utf8 raw) with
  | .ok v => if v.isObject then .ok v else parseNormalized P raw
  | .error _ => parseNormalized P raw

/-- The information in `LL.value`. -/
def parseApiValue (value : Json) : Except Error ApiInfo :=
  match value.asStr with
  | some raw => (parseRelaxedObject P raw).map ApiInfo.fromValue
  | none =>
    if value.isObject then .ok (ApiInfo.fromValue value)
    else .error (.protocol "api response LL.value is not an object".toList)

def parseApiInfo (payload : Bytes) : Except Error ApiInfo := do
  let root ← parseJson P payload
  match root.get "LL".toList with
  | none => .error (.protocol "api response missing LL".toList)
  | some ll =>
    match (llStatusCode ll).filter (· ≠ "200".toList) with
    | some code => .error (.protocol ("api response LL status ".toList ++ code))
    | none =>
      match ll.get "value".toList with
      | none => .error (.protocol "api response missing LL.value".toList)
      | some value => parseApiValue P value

/-! ## The forms of a field -/

/-- `w` with whitespace around it. -/
def Padded (w s : Str) : Prop :=
  ∃ front back, s = front ++ (w ++ back) ∧ (∀ c ∈ front, isWhiteSpace c = true) ∧ ∀ c ∈ back, isWhiteSpace c = true

inductive TextAs : Str → Json → Prop
  | text {s : Str} (h : s ≠ []) : TextAs s (.str s)
  | number {n : Nat} (h : n < 2 ^ 64) : TextAs (Error.decimal n) (.num n)

inductive StatusAs : UInt8 → Json → Prop
  | number (n : UInt8) : StatusAs n (.num n.toNat)
  | digits {n : UInt8} {w s : Str} (h : parseNat w = some n.toNat) (hs : Padded w s) : StatusAs n (.str s)
  | plus {n : UInt8} {w s : Str} (h : parseNat w = some n.toNat) (hs : Padded ('+' :: w) s) : StatusAs n (.str s)

inductive FlagAs : Bool → Json → Prop
  | bool (b : Bool) : FlagAs b (.bool b)
  | number {n : Nat} (h : n < 2 ^ 64) : FlagAs (decide (n ≠ 0)) (.num n)
  | word {b : Bool} {w s : Str} (h : w ∈ flagWords b) (hs : Padded w s) : FlagAs b (.str s)

/-- A word that has no whitespace is what trimming leaves of it. -/
theorem trim_eq_iff {w : Str} (hne : w ≠ []) (hw : ∀ c ∈ w, isWhiteSpace c = false) (s : Str) :
    trim s = w ↔ Padded w s := by
  constructor
  · rintro rfl
    exact exists_append_trim s
  · rintro ⟨front, back, rfl, hfront, hback⟩
    obtain ⟨l, x, rfl⟩ : ∃ l x, w = l ++ [x] := ⟨_, _, (List.dropLast_append_getLast hne).symm⟩
    rw [List.append_assoc, List.singleton_append, trim_append hfront (fun c hc => hw c (List.mem_of_mem_head? hc))
      (hw x (List.mem_append_right _ List.mem_cons_self)), List.rdropWhile_eq_nil_iff.mpr hback]

/-- A number without a sign and a fraction. -/
theorem asU64_eq_some_iff {field : Json} {n : UInt64} : field.asU64 = some n ↔ field = .num n.toNat := by
  cases field with
  | num k =>
    have hlt := n.toNat_lt
    have hpow : (2 : Int) ^ 64 = ((2 ^ 64 : Nat) : Int) := rfl
    rw [Json.asU64, Json.num.injEq, hpow]
    constructor
    · intro h
      split_ifs at h with hk
      cases h
      have hsize : k.toNat < UInt64.size := by
        show k.toNat < 2 ^ 64
        omega
      rw [UInt64.toNat_ofNat_of_lt' hsize]
      omega
    · rintro rfl
      rw [if_pos (by omega), Int.toNat_natCast, UInt64.ofNat_toNat]
  | _ => exact iff_of_false (by simp [Json.asU64]) (by simp)

theorem asStr_eq_some_iff {field : Json} {s : Str} : field.asStr = some s ↔ field = .str s := by
  cases field with
  | str t => rw [Json.asStr, Option.some.injEq, Json.str.injEq]
  | _ => exact iff_of_false (by simp [Json.asStr]) (by simp)

theorem stringField_eq_some_iff (v : Json) (key s : Str) :
    stringField v key = some s ↔ ∃ field, v.get key = some field ∧ TextAs s field := by
  rw [stringField, Option.bind_eq_some_iff]
  refine exists_congr fun field => and_congr_right fun _ => ?_
  rw [Option.filter_eq_some_iff, Option.or_eq_some_iff, asStr_eq_some_iff, Option.map_eq_some_iff]
  constructor
  · rintro ⟨rfl | ⟨-, n, hn, rfl⟩, hne⟩
    · exact .text (by simpa using hne)
    · rw [asU64_eq_some_iff.mp hn]
      exact .number n.toNat_lt
  · intro h
    cases h with
    | text hne => exact ⟨.inl rfl, by simpa using hne⟩
    | @number n hn =>
      refine ⟨.inr ⟨rfl, UInt64.ofNat n, ?_, ?_⟩, ?_⟩
      · rw [asU64_eq_some_iff, UInt64.toNat_ofNat_of_lt' hn]
      · rw [UInt64.toNat_ofNat_of_lt' hn]
      · simp [Error.decimal]

theorem digits_of_foldl {w : Str} {acc : Option Nat} {n : Nat}
    (h : w.foldl (fun acc c => do return 10 * (← acc) + (← digitValue c)) acc = some n) :
    acc ≠ none ∧ ∀ c ∈ w, digitValue c ≠ none := by
  induction w generalizing acc with
  | nil =>
    cases h
    exact ⟨Option.some_ne_none n, List.forall_mem_nil _⟩
  | cons c w ih =>
    obtain ⟨hstep, htail⟩ := ih h
    refine ⟨fun hacc => hstep (by rw [hacc]; rfl), List.forall_mem_cons.mpr ⟨fun hc => hstep ?_, htail⟩⟩
    simp only [hc]
    cases acc <;> rfl

/-- A number has digits only. -/
theorem not_white_of_parseNat {w : Str} {n : Nat} (h : parseNat w = some n) :
    w ≠ [] ∧ ∀ c ∈ w, isWhiteSpace c = false ∧ c ≠ '+' := by
  rw [parseNat] at h
  split_ifs at h with hne
  refine ⟨hne, fun c hc => ?_⟩
  have hdigit := (digits_of_foldl h).2 c hc
  have hrange : '0' ≤ c ∧ c ≤ '9' := by
    by_contra hno
    exact hdigit (if_neg hno)
  have hlo : 48 ≤ c.toNat := hrange.1
  have hhi : c.toNat ≤ 57 := hrange.2
  refine ⟨?_, ?_⟩
  · simp only [isWhiteSpace, Bool.or_eq_false_iff, Bool.and_eq_false_iff, decide_eq_false_iff_not, beq_eq_false_iff_ne]
    omega
  · rintro rfl
    exact absurd hlo (by decide)

/-- A text of a number of 64 bits, with whitespace around it and perhaps a sign. -/
theorem parseU64_trim_eq_some_iff (s : Str) (n : UInt64) :
    parseU64 (trim s) = some n ↔ ∃ w, parseNat w = some n.toNat ∧ (Padded w s ∨ Padded ('+' :: w) s) := by
  have hfits {m : Nat} : (if m < 2 ^ 64 then some (UInt64.ofNat m) else none) = some n ↔ m = n.toNat := by
    have hlt := n.toNat_lt
    constructor
    · intro h
      split_ifs at h with hm
      cases h
      exact (UInt64.toNat_ofNat_of_lt' hm).symm
    · rintro rfl
      rw [if_pos hlt, UInt64.ofNat_toNat]
  have hplain {w : Str} (hsign : ∀ w', w ≠ '+' :: w') : parseU64 w = some n ↔ parseNat w = some n.toNat := by
    rw [parseU64, Option.bind_eq_bind, Option.bind_eq_some_iff]
    · simp only [hfits, exists_eq_right]
    · exact fun w' hw' => hsign w' hw'
  have hplus (w : Str) : parseU64 ('+' :: w) = some n ↔ parseNat w = some n.toNat := by
    rw [parseU64, Option.bind_eq_bind, Option.bind_eq_some_iff]
    simp only [hfits, exists_eq_right]
  constructor
  · intro h
    by_cases hsign : ∃ w, trim s = '+' :: w
    · obtain ⟨w, hw⟩ := hsign
      rw [hw, hplus] at h
      exact ⟨w, h, .inr (hw ▸ exists_append_trim s)⟩
    · rw [hplain fun w hw => hsign ⟨w, hw⟩] at h
      exact ⟨trim s, h, .inl (exists_append_trim s)⟩
  · rintro ⟨w, hw, hs | hs⟩
    · obtain ⟨hne, hwhite⟩ := not_white_of_parseNat hw
      rw [(trim_eq_iff hne (fun c hc => (hwhite c hc).1) s).mpr hs, hplain]
      · exact hw
      · rintro w' rfl
        exact (hwhite '+' List.mem_cons_self).2 rfl
    · have hwhite : ∀ c ∈ '+' :: w, isWhiteSpace c = false :=
        List.forall_mem_cons.mpr ⟨by decide, fun c hc => ((not_white_of_parseNat hw).2 c hc).1⟩
      rw [(trim_eq_iff (List.cons_ne_nil _ _) hwhite s).mpr hs, hplus]
      exact hw

theorem u8Field_eq_some_iff (v : Json) (key : Str) (n : UInt8) :
    u8Field v key = some n ↔ ∃ field, v.get key = some field ∧ StatusAs n field := by
  rw [u8Field, Option.bind_eq_some_iff]
  refine exists_congr fun field => and_congr_right fun _ => ?_
  have hsmall (m : UInt64) : (if m.toNat < 256 then some m.toUInt8 else none) = some n ↔ m = n.toUInt64 := by
    have hlt := n.toNat_lt
    constructor
    · intro h
      split_ifs at h with hm
      cases h
      rw [← UInt64.toNat_inj, UInt8.toNat_toUInt64, UInt64.toNat_toUInt8]
      omega
    · rintro rfl
      rw [UInt8.toNat_toUInt64, if_pos hlt, UInt8.toUInt8_toUInt64]
  simp only [Option.bind_eq_some_iff, hsmall, exists_eq_right, Option.or_eq_some_iff, asStr_eq_some_iff,
    parseU64_trim_eq_some_iff, asU64_eq_some_iff, UInt8.toNat_toUInt64]
  constructor
  · rintro (rfl | ⟨-, s, rfl, w, hw, hs | hs⟩)
    · exact .number n
    · exact .digits hw hs
    · exact .plus hw hs
  · intro h
    cases h with
    | number => exact .inl rfl
    | digits hw hs => exact .inr ⟨rfl, _, rfl, _, hw, .inl hs⟩
    | plus hw hs => exact .inr ⟨rfl, _, rfl, _, hw, .inr hs⟩

/-- The words of a flag have no whitespace. -/
theorem trim_eq_flagWord {w : Str} {b : Bool} (hw : w ∈ flagWords b) (s : Str) : trim s = w ↔ Padded w s := by
  have hall : ((flagWords true ++ flagWords false).all fun w =>
      decide (w ≠ []) && w.all fun c => !isWhiteSpace c) = true := by decide
  have hmem : w ∈ flagWords true ++ flagWords false := by
    cases b
    · exact List.mem_append_right _ hw
    · exact List.mem_append_left _ hw
  have hword := List.all_eq_true.mp hall w hmem
  rw [Bool.and_eq_true, decide_eq_true_iff, List.all_eq_true] at hword
  exact trim_eq_iff hword.1 (fun c hc => by simpa using hword.2 c hc) s

theorem flagWords_disjoint : ∀ w ∈ flagWords false, w ∉ flagWords true := by decide

theorem bne_zero_eq (n : UInt64) : (n != 0) = decide (n.toNat ≠ 0) := by
  rw [Bool.eq_iff_iff, bne_iff_ne, decide_eq_true_iff, ne_eq, ne_eq, ← UInt64.toNat_inj, UInt64.toNat_zero]

theorem boolField_eq_some_iff (v : Json) (key : Str) (b : Bool) :
    boolField v key = some b ↔ ∃ field, v.get key = some field ∧ FlagAs b field := by
  rw [boolField, Option.bind_eq_some_iff]
  refine exists_congr fun field => and_congr_right fun _ => ?_
  constructor
  · intro h
    cases hu : field.asU64 with
    | some n =>
      have hfield := asU64_eq_some_iff.mp hu
      have hbool : field.asBool = none := by rw [hfield]; rfl
      rw [hbool, hu] at h
      cases h
      rw [hfield, bne_zero_eq]
      exact .number n.toNat_lt
    | none =>
      cases field with
      | bool c =>
        cases h
        exact .bool b
      | str s =>
        simp only [Json.asBool, Json.asU64, Json.asStr, Option.bind_some] at h
        split_ifs at h with ht hf
        · cases h
          exact .word ht ((trim_eq_flagWord ht s).mp rfl)
        · cases h
          exact .word hf ((trim_eq_flagWord hf s).mp rfl)
      | num n =>
        rw [hu] at h
        cases h
      | null => cases h
      | float bits => cases h
      | arr items => cases h
      | obj fields => cases h
  · intro h
    cases h with
    | bool => rfl
    | @number n hn =>
      have hu : (Json.num n).asU64 = some (UInt64.ofNat n) := by
        rw [asU64_eq_some_iff, UInt64.toNat_ofNat_of_lt' hn]
      have hbool : (Json.num n).asBool = none := rfl
      rw [hbool, hu]
      have hb : (UInt64.ofNat n != 0) = decide (n ≠ 0) := by rw [bne_zero_eq, UInt64.toNat_ofNat_of_lt' hn]
      exact congrArg some hb
    | @word _ w s hw hs =>
      have htrim := (trim_eq_flagWord hw s).mpr hs
      simp only [Json.asBool, Json.asU64, Json.asStr, Option.bind_some, htrim]
      cases b with
      | true => rw [if_pos hw]
      | false => rw [if_neg (flagWords_disjoint w hw), if_pos hw]

/-! ## The forms of an answer -/

/-- The forms of a value that holds the object `fields`. -/
inductive ValueAs (fields : List (Str × Json)) : Json → Prop
  | object : ValueAs fields (.obj fields)
  | text {raw : Str} (h : P.fromSlice (utf8 raw) = .ok (.obj fields)) : ValueAs fields (.str raw)
  | quoted {raw : Str} (hno : ∀ fields', P.fromSlice (utf8 raw) ≠ .ok (.obj fields'))
      (h : P.fromSlice (utf8 (doubleQuoted raw)) = .ok (.obj fields)) : ValueAs fields (.str raw)

/-- The fields of `info` are those that `v` has in one of their forms. -/
structure Declares (v : Json) (info : ApiInfo) : Prop where
  snr : ∀ s, info.snr = some s ↔ ∃ field, v.get "snr".toList = some field ∧ TextAs s field
  version : ∀ s, info.version = some s ↔ ∃ field, v.get "version".toList = some field ∧ TextAs s field
  httpsStatus : ∀ n, info.httpsStatus = some n ↔
    ∃ field, v.get "httpsStatus".toList = some field ∧ StatusAs n field
  isLocal : ∀ b, info.isLocal = some b ↔ ∃ field, v.get "local".toList = some field ∧ FlagAs b field
  hasEventSlots : ∀ b, info.hasEventSlots = some b ↔
    ∃ field, v.get "hasEventSlots".toList = some field ∧ FlagAs b field

theorem declares_iff (v : Json) (info : ApiInfo) : Declares v info ↔ info = ApiInfo.fromValue v := by
  have hread : Declares v (ApiInfo.fromValue v) :=
    ⟨stringField_eq_some_iff v _, stringField_eq_some_iff v _, u8Field_eq_some_iff v _, boolField_eq_some_iff v _,
      boolField_eq_some_iff v _⟩
  refine ⟨fun h => ?_, fun h => h ▸ hread⟩
  rw [ApiInfo.mk.injEq]
  exact ⟨Option.ext fun s => (h.snr s).trans (hread.snr s).symm,
    Option.ext fun s => (h.version s).trans (hread.version s).symm,
    Option.ext fun n => (h.httpsStatus n).trans (hread.httpsStatus n).symm,
    Option.ext fun b => (h.isLocal b).trans (hread.isLocal b).symm,
    Option.ext fun b => (h.hasEventSlots b).trans (hread.hasEventSlots b).symm⟩

theorem isObject_iff {v : Json} : v.isObject = true ↔ ∃ fields, v = .obj fields := by
  cases v <;> simp [Json.isObject]

theorem valueAs_str_iff {fields : List (Str × Json)} {raw : Str} : ValueAs P fields (.str raw) ↔
    P.fromSlice (utf8 raw) = .ok (.obj fields) ∨ (∀ fields', P.fromSlice (utf8 raw) ≠ .ok (.obj fields')) ∧
      P.fromSlice (utf8 (doubleQuoted raw)) = .ok (.obj fields) := by
  constructor
  · intro h
    cases h with
    | text h => exact .inl h
    | quoted hno h => exact .inr ⟨hno, h⟩
  · rintro (h | ⟨hno, h⟩)
    · exact .text h
    · exact .quoted hno h

theorem parseNormalized_eq_ok_iff (raw : Str) (v : Json) : parseNormalized P raw = .ok v ↔
    ∃ fields, v = .obj fields ∧ P.fromSlice (utf8 (doubleQuoted raw)) = .ok (.obj fields) := by
  unfold parseNormalized
  cases P.fromSlice (utf8 (doubleQuoted raw)) with
  | error e => exact iff_of_false (fun h => nomatch h) fun ⟨_, _, h⟩ => nomatch h
  | ok w =>
    dsimp only
    constructor
    · intro h
      split_ifs at h with hobj
      cases h
      obtain ⟨fields, rfl⟩ := isObject_iff.mp hobj
      exact ⟨fields, rfl, rfl⟩
    · rintro ⟨fields, rfl, hw⟩
      cases hw
      rfl

theorem parseRelaxedObject_eq_ok_iff (raw : Str) (v : Json) :
    parseRelaxedObject P raw = .ok v ↔ ∃ fields, v = .obj fields ∧ ValueAs P fields (.str raw) := by
  unfold parseRelaxedObject
  simp only [valueAs_str_iff]
  cases hraw : P.fromSlice (utf8 raw) with
  | error e => simp [parseNormalized_eq_ok_iff]
  | ok w =>
    dsimp only
    by_cases hobj : w.isObject = true
    · obtain ⟨fields, rfl⟩ := isObject_iff.mp hobj
      rw [if_pos hobj, Except.ok.injEq]
      constructor
      · rintro rfl
        exact ⟨fields, rfl, .inl rfl⟩
      · rintro ⟨fields', rfl, h | ⟨hno, -⟩⟩
        · exact Except.ok.inj h
        · exact absurd rfl (hno fields)
    · have hno (fields : List (Str × Json)) : w ≠ .obj fields := fun h => hobj (h ▸ rfl)
      rw [if_neg hobj, parseNormalized_eq_ok_iff]
      simp [hno]

theorem parseApiValue_eq_ok_iff (value : Json) (info : ApiInfo) : parseApiValue P value = .ok info ↔
    ∃ fields, ValueAs P fields value ∧ info = ApiInfo.fromValue (.obj fields) := by
  unfold parseApiValue
  cases hstr : value.asStr with
  | some raw =>
    rw [asStr_eq_some_iff] at hstr
    subst hstr
    dsimp only
    constructor
    · intro h
      cases hv : parseRelaxedObject P raw with
      | error e =>
        rw [hv] at h
        cases h
      | ok v =>
        rw [hv] at h
        cases h
        obtain ⟨fields, rfl, hfields⟩ := (parseRelaxedObject_eq_ok_iff P raw v).mp hv
        exact ⟨fields, hfields, rfl⟩
    · rintro ⟨fields, hfields, rfl⟩
      rw [(parseRelaxedObject_eq_ok_iff P raw _).mpr ⟨fields, rfl, hfields⟩]
      rfl
  | none =>
    dsimp only
    constructor
    · intro h
      split_ifs at h with hobj
      cases h
      obtain ⟨fields, rfl⟩ := isObject_iff.mp hobj
      exact ⟨fields, .object, rfl⟩
    · rintro ⟨fields, hfields, rfl⟩
      cases hfields with
      | object => rfl
      | text h => cases hstr
      | quoted hno h => cases hstr

/-- `text` with single instead of double quotes. -/
def singleQuoted (text : Str) : Str := text.map fun c => if c = '"' then '\'' else c

theorem doubleQuoted_singleQuoted {text : Str} (h : '\'' ∉ text) : doubleQuoted (singleQuoted text) = text := by
  rw [doubleQuoted, singleQuoted, List.map_map]
  refine (List.map_congr_left fun c hc => ?_).trans (List.map_id text)
  have hne : c ≠ '\'' := fun heq => h (heq ▸ hc)
  by_cases hq : c = '"'
  · simp [hq]
  · simp [hq, hne]

theorem valueAs_singleQuoted {text : Str} {fields : List (Str × Json)}
    (htext : P.fromSlice (utf8 text) = .ok (.obj fields)) (hquote : '\'' ∉ text)
    (hsame : ∀ fields', P.fromSlice (utf8 (singleQuoted text)) = .ok (.obj fields') → fields' = fields) :
    ValueAs P fields (.str (singleQuoted text)) := by
  by_cases hread : ∃ fields', P.fromSlice (utf8 (singleQuoted text)) = .ok (.obj fields')
  · obtain ⟨fields', h⟩ := hread
    exact .text (hsame fields' h ▸ h)
  · refine .quoted (fun fields' h => hread ⟨fields', h⟩) ?_
    rw [doubleQuoted_singleQuoted hquote, htext]

/-- An answer is accepted if and only if its status is 200 or missing and its value
has one of the forms of an object; the fields are then those that have one of
theirs. An object that is written without a single quote may be written with single
quotes instead of the double ones, unless that spelling is read as another object. -/
theorem parseApiInfo_forms (payload : Bytes) (info : ApiInfo) :
    (parseApiInfo P payload = .ok info ↔ ∃ root ll value fields, P.fromSlice payload = .ok root ∧
      root.get "LL".toList = some ll ∧ (∀ code, llStatusCode ll = some code → code = "200".toList) ∧
      ll.get "value".toList = some value ∧ ValueAs P fields value ∧ Declares (.obj fields) info) ∧
    ∀ text fields, P.fromSlice (utf8 text) = .ok (.obj fields) → '\'' ∉ text →
      (∀ fields', P.fromSlice (utf8 (singleQuoted text)) = .ok (.obj fields') → fields' = fields) →
      ValueAs P fields (.str (singleQuoted text)) := by
  refine ⟨?_, fun text fields htext hquote hsame => valueAs_singleQuoted P htext hquote hsame⟩
  simp only [declares_iff]
  constructor
  · intro h
    unfold parseApiInfo parseJson at h
    cases hroot : P.fromSlice payload with
    | error e =>
      rw [hroot] at h
      cases h
    | ok root =>
      rw [hroot] at h
      simp only [bind, Except.bind] at h
      split at h
      · cases h
      rename_i ll hll
      split at h
      · cases h
      rename_i hcode
      split at h
      · cases h
      rename_i value hvalue
      obtain ⟨fields, hfields, hinfo⟩ := (parseApiValue_eq_ok_iff P value info).mp h
      refine ⟨root, ll, value, fields, rfl, hll, fun code hc => ?_, hvalue, hfields, hinfo⟩
      by_contra hne
      rw [hc, Option.filter_some, if_pos (decide_eq_true hne)] at hcode
      cases hcode
  · rintro ⟨root, ll, value, fields, hroot, hll, hcode, hvalue, hfields, rfl⟩
    have hstatus : (llStatusCode ll).filter (· ≠ "200".toList) = none :=
      Option.filter_eq_none_iff.mpr fun code hc => by simp [hcode code hc]
    unfold parseApiInfo parseJson
    simp only [hroot, bind, Except.bind, hll, hstatus, hvalue]
    exact (parseApiValue_eq_ok_iff P value _).mpr ⟨fields, hfields, rfl⟩

/-- An object, and an answer with its single-quoted spelling. -/
def serialText : Str := "\x7b\"snr\":\"504F94A0B1C2\"\x7d".toList

def serialFields : List (Str × Json) := [("snr".toList, .str "504F94A0B1C2".toList)]

def serialAnswer : Bytes :=
  utf8 ("\x7b\"LL\":\x7b\"value\":\"".toList ++ singleQuoted serialText ++ "\",\"Code\":\"200\"\x7d\x7d".toList)

def serialDocument : Json :=
  .obj [("LL".toList, .obj [("value".toList, .str (singleQuoted serialText)), ("Code".toList, .str "200".toList)])]

/-- The crates on the answer and on the object; the single-quoted spelling is no JSON. -/
def serialParsers : Parsers :=
  (Parsers.rejecting.also (utf8 serialText) (.obj serialFields)).also serialAnswer serialDocument

theorem parseApiInfo_forms_quoted :
    parseApiInfo serialParsers serialAnswer = .ok ⟨some "504F94A0B1C2".toList, none, none, none, none⟩ := by
  obtain ⟨hread, hquoted⟩ := parseApiInfo_forms serialParsers serialAnswer
    ⟨some "504F94A0B1C2".toList, none, none, none, none⟩
  have htext : serialParsers.fromSlice (utf8 serialText) = .ok (.obj serialFields) := by
    have hne : utf8 serialText ≠ serialAnswer := by decide
    simp only [serialParsers, Parsers.also, if_neg hne, if_true]
  have hsingle : ∀ fields', serialParsers.fromSlice (utf8 (singleQuoted serialText)) = .ok (.obj fields') →
      fields' = serialFields := by
    have hne : utf8 (singleQuoted serialText) ≠ serialAnswer := by decide
    have hne' : utf8 (singleQuoted serialText) ≠ utf8 serialText := by decide
    intro fields' h
    simp only [serialParsers, Parsers.also, if_neg hne, if_neg hne'] at h
    cases h
  refine hread.mpr ⟨serialDocument, _, .str (singleQuoted serialText), serialFields, ?_, rfl, ?_, rfl,
    hquoted _ _ htext (by decide) hsingle, (declares_iff _ _).mpr rfl⟩
  · simp only [serialParsers, Parsers.also, if_true]
  · intro code hcode
    exact (Option.some.inj hcode).symm

end Lox
