import LoxWebsocket.Auth.StoreHistory
import LoxWebsocket.Client.State
import LoxWebsocket.Client.Reconnect
import LoxWebsocket.Framework.Run

/-!
# The token refresher

`refresh_once` reads the token, sends two commands, reads the token again and,
if it is still the same, replaces it: `RefreshPc` is where it is, and
`refreshStep` what it does next. The second reading and the replacement lock
the token separately.

`TokenRace` runs any number of refreshes against those who clear the token. A
clear between a refresh's second reading and its replacement is lost
(`clear_lost_to_refresh`); if there is none, the token stays cleared in memory,
and in a store that forgets it (`cleared_stays_cleared`). A file does unless the
disk refuses to remove it (`forgets_of_not_refuses`).
-/

namespace Lox

/-! ## One refresh -/

/-- The answer a refresh awaits, or what it does with the shared token next. -/
inductive RefreshPc
  | start
  | getkey (token : LxToken)
  | refreshjwt (token : LxToken)
  | reread (token : LxToken) (resp : Bytes)
  | install (current : LxToken)
  | ended (result : Except Error Bool)

/-- A refresh goes on by itself, or with the answer it awaits. -/
inductive RefreshEvent
  | go
  | answer (r : Except Error Bytes)

section

variable {σ : Type} [TokenStore σ] (P : Parsers) (username : Str)

/-- Where a refresh goes, the shared state it leaves, and the command it
sends. -/
def refreshStep (shared : SharedState σ) :
    RefreshPc → RefreshEvent → Option (RefreshPc × SharedState σ × Option Str)
  | .start, .go =>
    let token := shared.token
    if token.isEmpty then some (.ended (.ok false), shared, none)
    else some (.getkey token, shared, some cmdGetKey)
  | .getkey _, .answer (.error e) => some (.ended (.error e), shared, none)
  | .getkey token, .answer (.ok keyResp) =>
    match buildTokenHash P keyResp token with
    | .error e => some (.ended (.error e), shared, none)
    | .ok hash => some (.refreshjwt token, shared, some (cmdRefreshToken hash username))
  | .refreshjwt _, .answer (.error e) => some (.ended (.error e), shared, none)
  | .refreshjwt token, .answer (.ok resp) => some (.reread token resp, shared, none)
  | .reread token resp, .go =>
    let current := shared.token
    if current.isEmpty || current.token ≠ token.token then some (.ended (.ok false), shared, none)
    else
      match applyValidUntil P current resp with
      | .error e => some (.ended (.error e), shared, none)
      | .ok current => some (.install current, shared, none)
  | .install current, .go => some (.ended (.ok true), shared.setToken current, none)
  | _, _ => none

end

/-! ## The task -/

/-- Consecutive refresh failures before the session is given up on. -/
def maxRefreshAttempts : UInt32 := 3

/-- How long before a token expires it is refreshed. -/
def tokenRefreshSecondsBeforeExpiry : Int64 := 24 * 60 * 60

/-- How long to wait if there is no token. -/
def tokenRefreshDefaultSeconds : Int64 := 2 * 24 * 60 * 60

/-- The shortest wait. -/
def tokenRefreshMinDelaySecs : Int64 := 15

/-- The seconds to wait for the next refresh. The token is locked twice: `shared` is
the state the first time, and `shared'` the second. -/
def nextRefreshDelay {σ : Type} (shared shared' : SharedState σ) (now : UInt64) : UInt64 :=
  let secs := match shared.tokenValidUntil with
    | none => tokenRefreshDefaultSeconds
    | some _ => max (shared'.token.secondsToExpire now - tokenRefreshSecondsBeforeExpiry) tokenRefreshMinDelaySecs
  (max secs 0).toUInt64

/-- Where `run_refresher` is: before or in a refresh, sending `DropSession`, or
at its end. -/
inductive RefresherPc
  | refreshing (failures : UInt32)
  | dropping
  | returned
  deriving DecidableEq

/-- What follows a refresh. -/
def afterRefresh (failures : UInt32) : Except Error Bool → RefresherPc
  | .ok _ => .refreshing 0
  | .error _ =>
    let failures := failures + 1
    if failures ≥ maxRefreshAttempts then .dropping else .refreshing failures

/-! ## Refreshes and clears -/

/-- The token the store would offer to the next run. -/
def SharedState.stored {σ : Type} [TokenStore σ] (shared : SharedState σ) : Option LxToken :=
  shared.persist.bind fun p => TokenStore.load p.store p.binding

/-- The store does not offer the token any more once it is told to forget it. -/
def SharedState.Forgets {σ : Type} [TokenStore σ] (shared : SharedState σ) : Prop := shared.clearToken.stored = none

/-- A failed removal is only logged; any other leaves no record. -/
theorem SharedState.forgets_of_not_refuses {shared : SharedState FileTokenStore}
    (h : ∀ p, shared.persist = some p → ¬ p.store.disk.Refuses) : shared.Forgets := by
  unfold Forgets stored clearToken
  rcases hp : shared.persist with _ | ⟨store, binding⟩
  · rfl
  · rcases store.readRecord_clear binding with ⟨hrefuses, -⟩ | ⟨-, hnone⟩
    · exact absurd hrefuses (h _ hp)
    · exact FileTokenStore.load_of_readRecord hnone

/-- The shared state, the refreshes started so far, and whether the token has
been cleared. -/
structure TokenRace (σ : Type) where
  shared : SharedState σ
  refreshes : List RefreshPc
  cleared : Bool

namespace TokenRace

inductive Label
  | spawn
  | refresh (i : Nat) (event : RefreshEvent)
  /-- The writer's graceful close. -/
  | gracefulClose
  /-- The supervisor, on a close code. -/
  | closed (code : Option UInt16)

variable {σ : Type} [TokenStore σ] (P : Parsers) (username : Str) (killTokenOnStop : Bool)

def start (shared : SharedState σ) : TokenRace σ := ⟨shared, [], false⟩

def clear (s : TokenRace σ) : TokenRace σ := { s with shared := s.shared.clearToken, cleared := true }

def step (s : TokenRace σ) : Label → Option (TokenRace σ)
  | .spawn => some { s with refreshes := s.refreshes ++ [.start] }
  | .refresh i event => do
    let pc ← s.refreshes[i]?
    let (pc, shared, _) ← refreshStep P username s.shared pc event
    return { s with shared, refreshes := s.refreshes.set i pc }
  | .gracefulClose => if killTokenOnStop then some s.clear else some s
  | .closed code => if tokenSurvivesClose code then some s else some s.clear

/-- A refresh is past its second reading. -/
def Installing (s : TokenRace σ) : Prop := ∃ current, .install current ∈ s.refreshes

/-- The token is cleared only when no refresh is past its second reading. -/
def ClearsApart (s : TokenRace σ) : Label → Prop
  | .gracefulClose => killTokenOnStop = true → ¬ s.Installing
  | .closed code => tokenSurvivesClose code = false → ¬ s.Installing
  | _ => True

/-- The labels that clear the token. -/
def Clears : Label → Prop
  | .gracefulClose => killTokenOnStop = true
  | .closed code => tokenSurvivesClose code = false
  | _ => False

/-- A clear reaches the store. -/
def ReachesStore (s : TokenRace σ) (l : Label) : Prop := Clears killTokenOnStop l → s.shared.Forgets

/-! ## Cleared tokens -/

/-- Without a token in memory a refresh changes nothing, unless it is past its
second reading. -/
theorem refreshStep_of_isEmpty {shared shared' : SharedState σ} {pc pc' : RefreshPc} {event : RefreshEvent}
    {cmd : Option Str} (h : refreshStep P username shared pc event = some (pc', shared', cmd))
    (he : shared.token.isEmpty = true) (hpc : ∀ current, pc ≠ .install current) :
    shared' = shared ∧ ∀ current, pc' ≠ .install current := by
  unfold refreshStep at h
  split at h
  · rw [if_pos he] at h
    cases h
    exact ⟨rfl, nofun⟩
  · cases h
    exact ⟨rfl, nofun⟩
  · split at h
    · cases h
      exact ⟨rfl, nofun⟩
    · cases h
      exact ⟨rfl, nofun⟩
  · cases h
    exact ⟨rfl, nofun⟩
  · cases h
    exact ⟨rfl, nofun⟩
  · rw [if_pos (by rw [he]; rfl)] at h
    cases h
    exact ⟨rfl, nofun⟩
  · exact absurd rfl (hpc _)
  · cases h

/-- Once cleared, there is no token in memory and no refresh is about to bring it
back. -/
def Inv (s : TokenRace σ) : Prop := s.cleared = true → s.shared.token.isEmpty = true ∧ ¬ s.Installing

/-- The token is cleared by this step, or was before it, which then leaves memory
and store as they are. -/
theorem step_cleared {s s' : TokenRace σ} {l : Label} (hc : ClearsApart killTokenOnStop s l) (hs : Inv s)
    (h : step P username killTokenOnStop s l = some s') (hcl : s'.cleared = true) :
    ¬ s'.Installing ∧ (Clears killTokenOnStop l ∧ s' = s.clear ∨ s.cleared = true ∧ s'.shared = s.shared) := by
  cases l with
  | spawn =>
    cases h
    refine ⟨fun ⟨current, hm⟩ => (hs hcl).2 ⟨current, ?_⟩, .inr ⟨hcl, rfl⟩⟩
    simpa using hm
  | refresh i event =>
    simp only [step, bind, Option.bind_eq_some_iff, pure, Option.some.injEq] at h
    obtain ⟨pc, hpc, ⟨pc', shared, cmd⟩, hr, rfl⟩ := h
    obtain ⟨hempty, hni⟩ := hs hcl
    obtain ⟨rfl, hpc'⟩ := refreshStep_of_isEmpty P username hr hempty
      fun current he => hni ⟨current, he ▸ List.mem_of_getElem? hpc⟩
    refine ⟨fun ⟨current, hm⟩ => ?_, .inr ⟨hcl, rfl⟩⟩
    rcases List.mem_or_eq_of_mem_set hm with hm | hm
    · exact hni ⟨current, hm⟩
    · exact hpc' current hm.symm
  | gracefulClose =>
    simp only [step] at h
    split_ifs at h with hkill
    · cases h
      exact ⟨hc hkill, .inl ⟨hkill, rfl⟩⟩
    · cases h
      exact ⟨(hs hcl).2, .inr ⟨hcl, rfl⟩⟩
  | closed code =>
    simp only [step] at h
    split_ifs at h with hsurvives
    · cases h
      exact ⟨(hs hcl).2, .inr ⟨hcl, rfl⟩⟩
    · cases h
      have hlost := Bool.eq_false_iff.mpr hsurvives
      exact ⟨hc hlost, .inl ⟨hlost, rfl⟩⟩

theorem inv_step {s s' : TokenRace σ} {l : Label} (hc : ClearsApart killTokenOnStop s l) (hs : Inv s)
    (h : step P username killTokenOnStop s l = some s') : Inv s' := by
  intro hcl
  obtain ⟨hni, ⟨-, rfl⟩ | ⟨hcl₀, hshared⟩⟩ := step_cleared P username killTokenOnStop hc hs h hcl
  · exact ⟨rfl, hni⟩
  · exact ⟨hshared ▸ (hs hcl₀).1, hni⟩

theorem stored_step {s s' : TokenRace σ} {l : Label}
    (hc : ClearsApart killTokenOnStop s l ∧ ReachesStore killTokenOnStop s l)
    (hs : Inv s ∧ (s.cleared = true → s.shared.stored = none))
    (h : step P username killTokenOnStop s l = some s') :
    Inv s' ∧ (s'.cleared = true → s'.shared.stored = none) := by
  refine ⟨inv_step P username killTokenOnStop hc.1 hs.1 h, fun hcl => ?_⟩
  obtain ⟨-, ⟨hclears, rfl⟩ | ⟨hcl₀, hshared⟩⟩ := step_cleared P username killTokenOnStop hc.1 hs.1 h hcl
  · exact hc.2 hclears
  · exact hshared ▸ hs.2 hcl₀

/-- In every run in which the token is cleared only while no refresh is past its
second reading, a cleared token is not brought back in memory; nor in the store, if
each clear reaches it. -/
theorem cleared_stays_cleared {shared : SharedState σ} {ls : List Label} {s : TokenRace σ}
    (h : run (step P username killTokenOnStop) (start shared) ls = some s)
    (hc : Along (step P username killTokenOnStop) (ClearsApart killTokenOnStop) (start shared) ls) :
    s.cleared = true → s.shared.token.isEmpty = true ∧
      (Along (step P username killTokenOnStop) (ReachesStore killTokenOnStop) (start shared) ls →
        s.shared.stored = none) := by
  have hstart : Inv (start shared) := nofun
  intro hcl
  refine ⟨(run_inv_along (inv_step P username killTokenOnStop) hc hstart h hcl).1, fun hstore => ?_⟩
  have hs := run_inv_along (P := fun s => Inv s ∧ (s.cleared = true → s.shared.stored = none))
    (stored_step P username killTokenOnStop) (hc.and hstore) ⟨hstart, nofun⟩ h
  exact hs.2 hcl

def sampleToken : LxToken := ⟨"eyJhbGciOi".toList, 400000000, .sha256⟩

/-- The token in memory and in the store. -/
def sampleMemory : SharedState (Option LxToken) := ⟨sampleToken, some ⟨some sampleToken, "admin".toList⟩⟩

/-- The token in memory and in a file. -/
def sampleFile : SharedState FileTokenStore :=
  ⟨sampleToken, some ⟨sampleStore.save "binding-a".toList sampleToken, "binding-a".toList⟩⟩

/-- The token is cleared while a refresh awaits its first answer. -/
def clearedEarly : List Label :=
  [.spawn, .refresh 0 .go, .gracefulClose, .refresh 0 (.answer (.error (.closed "session ended".toList)))]

theorem cleared_stays_cleared_early :
    sampleFile.stored = some sampleToken ∧
      ∃ s, run (step Parsers.rejecting "admin".toList true) (start sampleFile) clearedEarly = some s ∧
        s.cleared = true ∧ s.shared.token.isEmpty = true ∧ s.shared.stored = none := by
  obtain ⟨hsound, hread⟩ : (sampleStore.save "binding-a".toList sampleToken).disk.Sound ∧
      (sampleStore.save "binding-a".toList sampleToken).readRecord = some ("binding-a".toList, sampleToken) :=
    FileTokenStore.save_sound sampleStore_sound (by decide) (by decide) (by decide) rfl
  have hc : Along (step Parsers.rejecting "admin".toList true) (ClearsApart true) (start sampleFile)
      clearedEarly := by
    refine .cons trivial rfl (.cons trivial rfl (.cons ?_ rfl (.cons trivial rfl trivial)))
    rintro - ⟨current, hm⟩
    rcases List.mem_singleton.mp hm with ⟨⟩
  have hstore : Along (step Parsers.rejecting "admin".toList true) (ReachesStore true) (start sampleFile)
      clearedEarly := by
    refine .cons nofun rfl (.cons nofun rfl (.cons (fun _ => ?_) rfl (.cons nofun rfl trivial)))
    refine SharedState.forgets_of_not_refuses fun p hp => ?_
    cases hp
    exact hsound.not_refuses
  refine ⟨FileTokenStore.load_eq_some.mpr hread, _, rfl, rfl, ?_⟩
  obtain ⟨hempty, hgone⟩ := cleared_stays_cleared Parsers.rejecting "admin".toList true rfl hc rfl
  exact ⟨hempty, hgone hstore⟩

/-- The answers to `getkey` and `refreshjwt`, and what they parse to. -/
def keyAnswer : Bytes :=
  "\x7b\"LL\":\x7b\"control\":\"dev/sys/getkey\",\"value\":\"41434435\",\"code\":\"200\"\x7d\x7d".toList.map
    fun c => UInt8.ofNat c.toNat

def keyDocument : Json :=
  .obj [("LL".toList, .obj [("control".toList, .str "dev/sys/getkey".toList),
    ("value".toList, .str "41434435".toList), ("code".toList, .str "200".toList)])]

def refreshAnswer : Bytes :=
  ("\x7b\"LL\":\x7b\"control\":\"dev/sys/refreshjwt\",\"value\":\x7b\"token\":\"eyJhbGciOj\"," ++
    "\"validUntil\":500000000\x7d,\"code\":\"200\"\x7d\x7d").toList.map fun c => UInt8.ofNat c.toNat

def refreshDocument : Json :=
  .obj [("LL".toList, .obj [("control".toList, .str "dev/sys/refreshjwt".toList),
    ("value".toList, .obj [("token".toList, .str "eyJhbGciOj".toList), ("validUntil".toList, .num 500000000)]),
    ("code".toList, .str "200".toList)])]

/-- The crates on these answers, with the HMAC-SHA256 of the sample token. -/
def sampleParsers : Parsers where
  fromSlice b :=
    if b = keyAnswer then .ok keyDocument
    else if b = refreshAnswer then .ok refreshDocument
    else .error "expected value at line 1 column 1".toList
  digest _ _ := []
  hmac _ _ _ := .ok [213, 128, 55, 19, 18, 149, 250, 25, 53, 21, 34, 227, 157, 71, 73, 136, 217, 74, 162, 148,
    121, 171, 199, 45, 133, 101, 241, 8, 25, 207, 167, 194]
  hexErrorText _ := "Odd number of digits".toList

def refreshedToken : LxToken := ⟨"eyJhbGciOj".toList, 500000000, .sha256⟩

theorem parseJson_keyAnswer : parseJson sampleParsers keyAnswer = .ok keyDocument := by
  simp only [parseJson, sampleParsers, ↓reduceIte]

theorem parseJson_refreshAnswer : parseJson sampleParsers refreshAnswer = .ok refreshDocument := by
  have hne : refreshAnswer ≠ keyAnswer := by decide
  simp only [parseJson, sampleParsers, if_neg hne, ↓reduceIte]

theorem buildTokenHash_sample : ∃ hash, buildTokenHash sampleParsers keyAnswer sampleToken = .ok hash := by
  simp only [buildTokenHash, parseGetkeyValue, parseJson_keyAnswer]
  exact ⟨_, rfl⟩

theorem applyValidUntil_sample :
    applyValidUntil sampleParsers sampleToken refreshAnswer = .ok refreshedToken := by
  simp only [applyValidUntil, llValue, parseJson_refreshAnswer]
  rfl

/-- A refresh has read the token a second time when a graceful close clears it. -/
def lostClear : List Label :=
  [.spawn, .refresh 0 .go, .refresh 0 (.answer (.ok keyAnswer)), .refresh 0 (.answer (.ok refreshAnswer)),
    .refresh 0 .go, .gracefulClose, .refresh 0 .go]

/-- The replacement brings the cleared token back, in memory and in the store. -/
theorem clear_lost_to_refresh :
    ∃ s, run (step sampleParsers "admin".toList true) (start sampleMemory) lostClear = some s ∧
      s.cleared = true ∧ s.shared.token = refreshedToken ∧ s.shared.stored = some refreshedToken := by
  obtain ⟨hash, hhash⟩ := buildTokenHash_sample
  have hkey : step sampleParsers "admin".toList true ⟨sampleMemory, [.getkey sampleToken], false⟩
      (.refresh 0 (.answer (.ok keyAnswer))) = some ⟨sampleMemory, [.refreshjwt sampleToken], false⟩ := by
    simp only [step, refreshStep, List.getElem?_cons_zero, bind, Option.bind, hhash]
    rfl
  have hreread : step sampleParsers "admin".toList true
      ⟨sampleMemory, [.reread sampleToken refreshAnswer], false⟩ (.refresh 0 .go) =
        some ⟨sampleMemory, [.install refreshedToken], false⟩ := by
    have happly : applyValidUntil sampleParsers sampleMemory.token refreshAnswer = .ok refreshedToken :=
      applyValidUntil_sample
    simp only [step, refreshStep, List.getElem?_cons_zero, bind, Option.bind, happly]
    rfl
  refine ⟨⟨sampleMemory.clearToken.setToken refreshedToken, [.ended (.ok true)], true⟩, ?_, rfl, rfl, rfl⟩
  exact run_cons.mpr ⟨_, rfl, run_cons.mpr ⟨_, rfl, run_cons.mpr ⟨_, hkey, run_cons.mpr ⟨_, rfl,
    run_cons.mpr ⟨_, hreread, rfl⟩⟩⟩⟩⟩

end TokenRace

end Lox
