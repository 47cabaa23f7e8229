import LoxWebsocket.Client.Authenticate
import LoxWebsocket.Client.Budget

/-!
# Refused connections

The Miniserver refuses a connection with status 901 when it serves as many as it
can, and with 423 when the user is disabled. Whichever request of a handshake is
answered so, the handshake ends there, with the error of that refusal
(`all_refused`) and the token as the answers before have left it; only the kill of
a displaced token passes it over. After that a supervisor that has connected
before ends, if the user is disabled; otherwise it waits for `longBackoffSecs`, if
and only if it has an attempt left (`refusal_reported`).
-/

namespace Lox

/-- What the Miniserver may refuse a connection for. -/
inductive Refusal
  | tooManyConnections
  | userDisabled
  deriving DecidableEq

namespace Refusal

def code : Refusal → Str
  | tooManyConnections => "901".toList
  | userDisabled => "423".toList

def error : Refusal → Error
  | tooManyConnections => .tooManyConnections
  | userDisabled => .userDisabled

theorem llStatusError_code (r : Refusal) : llStatusError r.code = r.error := by
  cases r <;> decide

@[simp] theorem code_ne_ok (r : Refusal) : r.code ≠ "200".toList := by
  cases r <;> decide

theorem code_inj {r r' : Refusal} (h : r.code = r'.code) : r = r' := by
  revert h
  cases r <;> cases r' <;> decide

theorem not_invalidates (r : Refusal) : llStatusInvalidatesToken r.code = false := by
  cases r <;> decide

/-- The supervisor dispatches on it, so no step renames it. -/
@[simp] theorem inStep_error (r : Refusal) (step : Str) : r.error.inStep step = r.error := by
  cases r <;> rfl

/-! ## The answer -/

section

variable {P : Parsers} {r : Refusal} {payload : Bytes}

theorem parsed {code : Str} (h : payloadLlStatus P payload = some code) :
    ∃ root ll, parseJson P payload = .ok root ∧ root.get "LL".toList = some ll ∧ llStatusCode ll = some code := by
  unfold payloadLlStatus at h
  split at h
  · cases h
  · rename_i root hroot
    obtain ⟨ll, hll, hcode⟩ := Option.bind_eq_some_iff.mp h
    exact ⟨root, ll, hroot, hll, hcode⟩

theorem requireLlOk_eq (h : payloadLlStatus P payload = some r.code) :
    ∃ root, parseJson P payload = .ok root ∧ requireLlOk root = .error r.error := by
  obtain ⟨root, ll, hroot, hll, hcode⟩ := parsed h
  refine ⟨root, hroot, ?_⟩
  simp only [requireLlOk, hll, hcode, Option.getD_some]
  rw [if_pos r.code_ne_ok, r.llStatusError_code]

theorem llValue_eq (h : payloadLlStatus P payload = some r.code) (missing : Str) :
    llValue P payload missing = .error r.error := by
  obtain ⟨root, hroot, hll⟩ := requireLlOk_eq h
  simp only [llValue, hroot, hll, bind, Except.bind]

theorem buildTokenHash_eq (h : payloadLlStatus P payload = some r.code) (token : LxToken) :
    buildTokenHash P payload token = .error r.error := by
  obtain ⟨root, hroot, hll⟩ := requireLlOk_eq h
  simp only [buildTokenHash, parseGetkeyValue, hroot, hll, bind, Except.bind]

theorem buildAcquireTokenCmd_eq (h : payloadLlStatus P payload = some r.code) (username password : Str)
    (permission : TokenPermission) (clientUuid clientInfo : Str) :
    buildAcquireTokenCmd P payload username password permission clientUuid clientInfo = .error r.error := by
  simp only [buildAcquireTokenCmd, parseKeySalt, llValue_eq h, bind, Except.bind]

theorem parseTokenResponse_eq (h : payloadLlStatus P payload = some r.code) (hashAlg : HashAlg) :
    parseTokenResponse P payload hashAlg = .error r.error := by
  simp only [parseTokenResponse, llValue_eq h, bind, Except.bind]

theorem classify_eq {C : Crates} {env : HandshakeEnv C} (h : payloadLlStatus env.parsers payload = some r.code) :
    Handshake.classify env payload = .failed r.error := by
  simp only [Handshake.classify, h, if_neg r.code_ne_ok, r.not_invalidates, r.llStatusError_code]
  rfl

end

end Refusal

/-! ## The handshake -/

namespace Handshake

variable {C : Crates} {η σ : Type} (env : HandshakeEnv C)

/-- Only requests in `passed` have been refused. -/
def Unrefused (passed : Str → Prop) (s : HsState η σ) : Prop :=
  ∀ x ∈ s.exchanges, ∀ r : Refusal, payloadLlStatus env.parsers x.2 = some r.code → passed x.1

section

variable [LoxHandler η] (passed : Str → Prop)

/-- The last request was refused, and none before it. -/
def JustRefused (r : Refusal) (s' : HsState η σ) : Prop :=
  ∃ cmd resp s, Unrefused env passed s ∧ request env cmd s = (.ok resp, s') ∧
    payloadLlStatus env.parsers resp = some r.code

/-- What an error leaves: it is that of a refusal, if there was one. -/
def Refuses (e : Error) (s' : HsState η σ) : Prop :=
  Unrefused env passed s' ∨ ∃ r : Refusal, e = r.error ∧ JustRefused env passed r s'

/-- What an answer leaves. -/
def Judged (resp : Bytes) (s' : HsState η σ) : Prop :=
  Unrefused env passed s' ∨
    ∃ r : Refusal, payloadLlStatus env.parsers resp = some r.code ∧ JustRefused env passed r s'

end

section

variable {env} {passed : Str → Prop}

theorem Unrefused.congr {s s' : HsState η σ} (h : Unrefused env passed s) (he : s'.exchanges = s.exchanges) :
    Unrefused env passed s' := by
  unfold Unrefused
  rw [he]
  exact h

variable [LoxHandler η]

theorem Refuses.inStep {e : Error} {s' : HsState η σ} (h : Refuses env passed e s') (step : Str) :
    Refuses env passed (e.inStep step) s' := by
  rcases h with h | ⟨r, rfl, h⟩
  · exact .inl h
  · exact .inr ⟨r, r.inStep_error step, h⟩

theorem request_judged (cmd : Str) {s : HsState η σ} (hs : Unrefused env passed s) :
    (request env cmd).wp (Judged env passed) (Refuses env passed) s := by
  have hspec := request_spec env cmd s
  rcases hrun : request env cmd s with ⟨e | resp, s'⟩
  · rw [Prog.wp_error hrun] at hspec ⊢
    exact .inl (hs.congr hspec.exchanges)
  · rw [Prog.wp_ok hrun] at hspec ⊢
    by_cases hr : ∃ r : Refusal, payloadLlStatus env.parsers resp = some r.code
    · obtain ⟨r, hr⟩ := hr
      exact .inr ⟨r, hr, cmd, resp, s, hs, hrun, hr⟩
    · refine .inl fun x hx r hcode => ?_
      rw [hspec.exchanges, List.mem_append, List.mem_singleton] at hx
      rcases hx with hx | rfl
      · exact hs x hx r hcode
      · exact absurd ⟨r, hcode⟩ hr

/-- A request whose answer, if it is a refusal, ends what follows. -/
theorem request_then {α : Type} (cmd : Str) {k : Bytes → Hs η σ α}
    (hends : ∀ (r : Refusal) resp, payloadLlStatus env.parsers resp = some r.code →
      ∀ s, k resp s = (.error r.error, s))
    (hk : ∀ resp, (k resp).Upholds (Unrefused env passed) (Refuses env passed)) :
    (request env cmd >>= k).Upholds (Unrefused env passed) (Refuses env passed) := by
  intro s hs
  rw [Prog.wp_bind]
  refine Prog.wp_mono (request_judged cmd hs) (fun resp s' h => ?_) fun _ _ h => h
  rcases h with h | ⟨r, hr, h⟩
  · exact hk resp s' h
  · rw [Prog.wp_error (hends r resp hr s')]
    exact .inr ⟨r, rfl, h⟩

theorem inStep_request_then {α : Type} (cmd step : Str) {k : Bytes → Hs η σ α}
    (hends : ∀ (r : Refusal) resp, payloadLlStatus env.parsers resp = some r.code →
      ∀ s, k resp s = (.error r.error, s))
    (hk : ∀ resp, (k resp).Upholds (Unrefused env passed) (Refuses env passed)) :
    (inStep step (request env cmd) >>= k).Upholds (Unrefused env passed) (Refuses env passed) := by
  intro s hs
  have h := request_then cmd hends hk s hs
  rw [Prog.wp_bind] at h ⊢
  rw [inStep, Prog.wp_mapErr]
  exact Prog.wp_mono h (fun _ _ h => h) fun e s' h => h.inStep step

theorem fails_unrefused (e : Error) (s : HsState η σ) (h : Unrefused env passed s) : Refuses env passed e s := .inl h

omit [LoxHandler η] in
/-- The refusal is found where the answer is parsed. -/
theorem lift_refused {α : Type} {r : Refusal} {x : Except Error α} (h : x = .error r.error) (step : Str)
    (s : HsState η σ) : inStep step (Prog.lift x) s = (.error r.error, s) := by
  rw [h]
  exact congrArg (fun e => (Except.error e, s)) (r.inStep_error step)

theorem lift_upholds {α : Type} (x : Except Error α) (step : Str) :
    (inStep step (Prog.lift x) : Hs η σ α).Upholds (Unrefused env passed) (Refuses env passed) :=
  (Prog.upholds_lift fails_unrefused x).mapErr fun _ _ h => h.inStep step

theorem reuseToken_upholds (token : LxToken) :
    (reuseToken env token : Hs η σ _).Upholds (Unrefused env passed) (Refuses env passed) := by
  refine inStep_request_then _ _ (fun r keyResp h s => ?_) fun keyResp => ?_
  · exact Prog.bind_error (lift_refused (Refusal.buildTokenHash_eq h token) _ s) _
  refine (lift_upholds _ _).bind fun hash => inStep_request_then _ _ (fun r auth h s => ?_) fun auth => ?_
  · simp only [Refusal.classify_eq h, r.inStep_error]
    rfl
  split
  · exact (lift_upholds _ _).bind fun token => Prog.upholds_pure _
  · exact Prog.upholds_pure _
  · exact Prog.upholds_fail fails_unrefused _

theorem acquireToken_upholds :
    (acquireToken env none : Hs η σ _).Upholds (Unrefused env passed) (Refuses env passed) := by
  refine (Prog.upholds_pure ()).bind fun _ => inStep_request_then _ _ (fun r getkey2 h s => ?_) fun getkey2 => ?_
  · exact Prog.bind_error (lift_refused (Refusal.buildAcquireTokenCmd_eq h _ _ _ _ _) _ s) _
  refine (lift_upholds _ _).bind fun x => inStep_request_then _ _ (fun r resp h s => ?_) fun resp => ?_
  · rw [Refusal.parseTokenResponse_eq h]
    rfl
  refine (Prog.upholds_lift fails_unrefused _).bind fun token => ?_
  split
  · exact Prog.upholds_fail fails_unrefused _
  · exact Prog.upholds_pure _

theorem enableUpdates_upholds :
    (enableUpdates env : Hs η σ _).Upholds (Unrefused env passed) (Refuses env passed) := by
  refine request_then _ (fun r resp h s => ?_) fun resp => ?_
  · simp only [h, ne_eq, r.code_ne_ok, not_false_iff, if_true, r.llStatusError_code, r.inStep_error]
    rfl
  split
  · split
    · exact Prog.upholds_fail fails_unrefused _
    · exact Prog.upholds_pure _
  · exact Prog.upholds_pure _

theorem killDisplaced_upholds {old : LxToken} (hkey : passed cmdGetKey)
    (hkill : ∀ cmd, cmdKillTokenTag <+: cmd → passed cmd) :
    (killDisplaced env (some old) : Hs η σ Unit).Upholds (Unrefused env passed) (Refuses env passed) := by
  refine (killDisplaced_grew env hkey hkill (some old)).upholds (fun s s' h hs x hx r hcode => ?_) fails_unrefused
  exact (h.exchanges x hx).elim (fun hx => hs x hx r hcode) id

variable [TokenStore σ]

theorem parts_unrefused : Parts (η := η) (σ := σ) env (Unrefused env passed) (Refuses env passed) where
  congr _ _ _ _ he h := h.congr he
  reuseToken := reuseToken_upholds
  replaceToken := acquireToken_upholds.bind fun _ => Prog.upholds_modify fun _ h => h.congr rfl
  enableUpdates := enableUpdates_upholds

end

variable [LoxHandler η] [TokenStore σ]

/-- A request of the kill of a displaced token. -/
def OfKill (s : HsState η σ) (cmd : Str) : Prop :=
  Displaces env.world s.pos s.shared ∧ (cmd = cmdGetKey ∨ cmdKillTokenTag <+: cmd)

theorem all_unrefused (sessionB64 : Str) {s : HsState η σ} (hs : s.exchanges = []) :
    (all env sessionB64).wp (fun _ s' => Unrefused env (OfKill env s) s') (Refuses env (OfKill env s)) s := by
  have hstart : Unrefused env (OfKill env s) s := by
    intro x hx
    rw [hs] at hx
    cases hx
  refine all_parts parts_unrefused ?_ fun hd => killDisplaced_upholds ⟨hd, .inl rfl⟩ fun cmd h => ⟨hd, .inr h⟩
  refine Prog.wp_mono ((keyExchange_onlyTalks env sessionB64).wp s) (fun _ s₁ h => ?_) fun _ s₁ h => .inl ?_
  all_goals
    rw [h]
    exact hstart

/-- The key exchange up to its answer. -/
def exchangeAnswer (sessionB64 : Str) : Hs η σ Bytes := do
  sendText (cmdKeyExchange ++ sessionB64)
  readPayload

/-- The handshake from `s`, which has left `hs`, came to its end with the answer
`resp`: it is that of the key exchange, or that of the last command sent. -/
inductive EndedWith (sessionB64 : Str) (s hs : HsState η σ) (resp : Bytes) : Prop
  | keyExchange (h : exchangeAnswer sessionB64 s = (.ok resp, hs))
  | request (cmd : Str) (hsent : hs.commands.getLast? = some cmd)
    (hanswered : hs.exchanges.getLast? = some (cmd, resp))

/-- A step of the handshake from `s`, other than the kill of a displaced token,
is answered with `code`. -/
inductive Refused (sessionB64 : Str) (s : HsState η σ) (code : Str) : Prop
  | keyExchange {resp : Bytes} {s' : HsState η σ} (h : exchangeAnswer sessionB64 s = (.ok resp, s'))
    (hcode : payloadLlStatus env.parsers resp = some code)
  | request {x : Str × Bytes} (hx : x ∈ (all env sessionB64 s).2.exchanges) (hkill : ¬ OfKill env s x.1)
    (hcode : payloadLlStatus env.parsers x.2 = some code)

variable {env}

omit [TokenStore σ] in
theorem keyExchange_refused {sessionB64 : Str} {s s' : HsState η σ} {resp : Bytes} {r : Refusal}
    (h : exchangeAnswer sessionB64 s = (.ok resp, s')) (hcode : payloadLlStatus env.parsers resp = some r.code) :
    keyExchange env sessionB64 s = (.error r.error, s') := by
  obtain ⟨root, hroot, hll⟩ := Refusal.requireLlOk_eq hcode
  rcases hsend : sendText (cmdKeyExchange ++ sessionB64) s with ⟨e | _, s₁⟩
  · rw [exchangeAnswer, Prog.bind_error hsend] at h
    cases h
  · rw [exchangeAnswer, Prog.bind_ok hsend] at h
    have hexchange : exchange env sessionB64 s = (.error r.error, s') := by
      unfold exchange
      rw [Prog.bind_ok hsend, Prog.bind_ok h, hroot]
      change (do let _ ← Prog.lift (requireLlOk root); pure () : Hs η σ Unit) s' = _
      rw [hll]
      rfl
    exact (Prog.mapErr_error hexchange _).trans (by rw [r.inStep_error])

/-- A refusal ends the handshake, and is the last answer it reads. -/
theorem all_refused {sessionB64 : Str} {s : HsState η σ} (hs : s.exchanges = []) {r : Refusal}
    (h : Refused env sessionB64 s r.code) :
    ∃ resp s', all env sessionB64 s = (.error r.error, s') ∧ EndedWith sessionB64 s s' resp ∧
      payloadLlStatus env.parsers resp = some r.code := by
  cases h with
  | @keyExchange resp s' h hcode =>
    exact ⟨resp, s', Prog.bind_error (keyExchange_refused h hcode) _, .keyExchange h, hcode⟩
  | @request x hx hkill hcode =>
    have hun := all_unrefused env sessionB64 hs
    rcases hall : all env sessionB64 s with ⟨e | _, s'⟩
    · rw [Prog.wp_error hall] at hun
      rw [hall] at hx
      rcases hun with hun | ⟨r', rfl, cmd, resp, sent, hun, hreq, hcode'⟩
      · exact absurd (hun x hx r hcode) hkill
      · have hspec := request_spec env cmd sent
        rw [Prog.wp_ok hreq] at hspec
        rw [hspec.exchanges, List.mem_append, List.mem_singleton] at hx
        rcases hx with hx | rfl
        · exact absurd (hun x hx r hcode) hkill
        · have hr : r' = r := Refusal.code_inj (Option.some.inj (hcode'.symm.trans hcode))
          refine ⟨resp, s', by rw [hr], .request cmd ?_ ?_, hcode⟩
          · rw [hspec.commands, List.getLast?_concat]
          · rw [hspec.exchanges, List.getLast?_concat]
    · rw [Prog.wp_ok hall] at hun
      rw [hall] at hx
      exact absurd (hun x hx r hcode) hkill

end Handshake

/-! ## The supervisor -/

namespace Supervisor

variable {C : Crates} {η σ : Type} [LoxHandler η] [TokenStore σ] (cfg : ConnectConfig) (world : World)
  (P : Parsers)

omit [TokenStore σ] in
theorem waits_waitReconnect (stopped : Bool) (backoff : Backoff) (s : Supervisor η σ) :
    (waitReconnect cfg stopped backoff s).2.waits =
      s.waits ++
        if shouldContinue s.attempt cfg.maxReconnectAttempts then [(backoff, delaySecs cfg backoff)] else [] := by
  rcases waitReconnect_cases cfg stopped backoff s with ⟨hno, h⟩ | ⟨hgo, -, h⟩ | ⟨hgo, -, h⟩
  · rw [h, hno]
    exact (List.append_nil _).symm
  · rw [h, hgo]
    rfl
  · rw [h, hgo]
    rfl

theorem react_tooManyConnections (stopped : Bool) {s : Supervisor η σ} (hev : s.everConnected = true) :
    react cfg stopped (.failed .tooManyConnections) s = waitReconnect cfg stopped .long s := by
  simp [react, onOutcome, Error.isTerminal, Error.needsLongBackoff, hev]

/-- A failure leaves the token alone. -/
theorem shared_react_failed (stopped : Bool) (e : Error) (s : Supervisor η σ) :
    (react cfg stopped (.failed e) s).2.shared = s.shared := by
  simp only [react, onOutcome]
  split_ifs
  · rfl
  · rfl
  · exact waitReconnect_kept cfg (fun _ _ => rfl) (fun _ => rfl) _ _ _
  · exact waitReconnect_kept cfg (fun _ _ => rfl) (fun _ => rfl) _ _ _

/-- A session of which a step is refused fails with the error of the refusal, which
is the last answer it reads, and the token stays as the answers before have left
it. A supervisor that has connected before then ends, if the user is disabled;
otherwise it begins the long wait if and only if an attempt is left, and goes on
unless it is stopped in it. -/
theorem refusal_reported {r : Round C σ} {s : Supervisor η σ} (htop : r.stoppedAtTop = false)
    (hp : s.handler.panicked = false) (hrx : s.cmdRx = true) (hsetup : r.session.setup = .ok ()) (refusal : Refusal)
    (h : Handshake.Refused ⟨world, P, r.session.keys, cfg⟩ r.session.sessionB64 (s.handshakeState r.session)
      refusal.code) :
    (∃ resp hs, Handshake.all ⟨world, P, r.session.keys, cfg⟩ r.session.sessionB64 (s.handshakeState r.session) =
          (.error refusal.error, hs) ∧
        Handshake.EndedWith r.session.sessionB64 (s.handshakeState r.session) hs resp ∧
        payloadLlStatus P resp = some refusal.code) ∧
      Handshake.Leaves ⟨world, P, r.session.keys, cfg⟩ r.session.sessionB64 (s.handshakeState r.session)
        (round cfg world P r s).2.shared ∧
      (sessionOnce cfg world P r.session s.starting).1.outcome = .failed refusal.error ∧
      (s.everConnected = true → refusal = .tooManyConnections →
        ((round cfg world P r s).2.waits = s.waits ++ [(.long, cfg.longBackoffSecs)] ↔
          shouldContinue s.attempt cfg.maxReconnectAttempts = true) ∧
        ((round cfg world P r s).1 = true ↔
          r.stoppedInWait = false ∧ shouldContinue s.attempt cfg.maxReconnectAttempts = true)) ∧
      (s.everConnected = true → refusal = .userDisabled →
        (round cfg world P r s).1 = false ∧ (round cfg world P r s).2.waits = s.waits) := by
  obtain ⟨resp, hs, hall, hended, hcode⟩ := Handshake.all_refused (s := s.handshakeState r.session) rfl h
  obtain ⟨houtcome, s₁, hround, -, hshared, -, hev₁, hatt, hwaits⟩ := round_failed cfg world P htop hp hrx hsetup hall
  rw [hround]
  refine ⟨⟨resp, hs, hall, hended, hcode⟩, ?_, houtcome, ?_, ?_⟩
  · have hleaves : Handshake.Leaves ⟨world, P, r.session.keys, cfg⟩ r.session.sessionB64
        (s.handshakeState r.session) _ := Handshake.all_leaves r.session.sessionB64 rfl rfl
    rw [hall] at hleaves
    rw [shared_react_failed, hshared]
    exact hleaves
  · rintro hev rfl
    rw [Refusal.error, react_tooManyConnections cfg _ (hev₁.trans hev), waits_waitReconnect,
      waitReconnect_goes_on_iff, hwaits, hatt, List.append_cancel_left_eq]
    refine ⟨?_, Iff.rfl⟩
    cases shouldContinue s.attempt cfg.maxReconnectAttempts with
    | false => exact iff_of_false (List.cons_ne_nil _ _).symm Bool.false_ne_true
    | true => exact iff_of_true rfl rfl
  · rintro - rfl
    exact ⟨rfl, hwaits⟩

/-! ## A refusal that is not waited for -/

/-- The Miniserver serves as many connections as it can. -/
def refusedAnswer : Bytes :=
  "\x7b\"LL\":\x7b\"code\":\"901\"\x7d\x7d".toList.map fun c => UInt8.ofNat c.toNat

/-- The crates on that answer, and on those of a session that is established. -/
def refusingParsers : Parsers :=
  TokenRace.sampleParsers.also refusedAnswer
    (.obj [("LL".toList, .obj [("code".toList, .str "901".toList)])])

/-- The key exchange is answered with 901. -/
def refusedRound : Round sampleCrates (Option LxToken) :=
  { idleRound with session := displacingSession Pos.start (answerFrames refusedAnswer) }

theorem payloadLlStatus_refusedAnswer : payloadLlStatus refusingParsers refusedAnswer = some "901".toList := by
  rw [payloadLlStatus, refusingParsers, parseJson_also]
  rfl

theorem takesBack_refusing : TakesBack refusingParsers TokenRace.refreshedToken TokenRace.refreshedToken
    TokenRace.keyAnswer TokenRace.keyAnswer TokenRace.refreshAnswer := by
  have hne : TokenRace.keyAnswer ≠ refusedAnswer := by decide
  have hrefresh : parseJson refusingParsers TokenRace.refreshAnswer = .ok TokenRace.refreshDocument := by
    have hne : TokenRace.refreshAnswer ≠ refusedAnswer := by decide
    exact (parseJson_also_of_ne _ hne _).trans TokenRace.parseJson_refreshAnswer
  refine takesBack_also hne announceable_refreshAnswer ?_ ?_
  · rw [payloadLlStatus, ← refusingParsers, hrefresh]
    rfl
  · rw [← refusingParsers]
    simp only [applyValidUntil, llValue, hrefresh]
    rfl

theorem refused_refusedRound (n : UInt32) {s : Supervisor Unit (Option LxToken)} (hp : s.handler.panicked = false) :
    Handshake.Refused ⟨sampleWorld, refusingParsers, sampleKeys, reuseConfig n⟩ refusedRound.session.sessionB64
      (s.handshakeState refusedRound.session) "901".toList := by
  let hs : HsState Unit (Option LxToken) :=
    { s.handshakeState refusedRound.session with texts := [cmdKeyExchange ++ refusedRound.session.sessionB64] }
  have ha : Announceable refusedAnswer := ⟨by decide, by decide⟩
  have hreads : hs.reads = answerFrames refusedAnswer ++ [] := rfl
  obtain ⟨handler, -, hread⟩ := Handshake.readPayload_answer LoxHandler.quiet_unit ha hreads hp
  exact .keyExchange hread payloadLlStatus_refusedAnswer

/-- With the long wait before it, the next attempt is made. -/
theorem refusal_reported_waits :
    (round (reuseConfig 1) sampleWorld refusingParsers refusedRound
      { start () reusing with everConnected := true }).2.waits = [(.long, (reuseConfig 1).longBackoffSecs)] :=
  ((refusal_reported (reuseConfig 1) sampleWorld refusingParsers (r := refusedRound)
    (s := { start () reusing with everConnected := true }) rfl rfl rfl rfl .tooManyConnections
    (refused_refusedRound 1 rfl)).2.2.2.1 rfl rfl).1.mpr rfl

/-- After the only attempt has been spent on the session that has just ended, the
supervisor is refused, and ends without a wait. -/
theorem refused_without_wait :
    ∃ s₁ s₂, round (reuseConfig 1) sampleWorld refusingParsers idleRound (start () reusing) = (true, s₁) ∧
      s₁.everConnected = true ∧
      Handshake.Refused ⟨sampleWorld, refusingParsers, sampleKeys, reuseConfig 1⟩ refusedRound.session.sessionB64
        (s₁.handshakeState refusedRound.session) Refusal.tooManyConnections.code ∧
      round (reuseConfig 1) sampleWorld refusingParsers refusedRound s₁ = (false, s₂) ∧ s₂.waits = s₁.waits := by
  have hstart : Reusing (start () reusing) := ⟨rfl, rfl, rfl⟩
  obtain ⟨s₁, hr₁, h₁, hev, hatt, -⟩ := round_idle takesBack_refusing (n := 1) hstart rfl
  have hrefused := refused_refusedRound 1 h₁.panicked
  obtain ⟨-, hs, hall, -⟩ := Handshake.all_refused (r := .tooManyConnections)
    (s := s₁.handshakeState refusedRound.session) rfl hrefused
  obtain ⟨-, s₂, hround, -, -, -, hev₂, hatt₂, hwaits⟩ := round_failed (reuseConfig 1) sampleWorld refusingParsers
    (r := refusedRound) rfl h₁.panicked h₁.cmdRx rfl hall
  have hspent : shouldContinue s₂.attempt (reuseConfig 1).maxReconnectAttempts = false := by
    rw [hatt₂, hatt]
    rfl
  rw [Refusal.error, react_tooManyConnections _ _ (hev₂.trans hev)] at hround
  refine ⟨s₁, _, hr₁, hev, hrefused, Prod.ext ?_ rfl, ?_⟩
  · rw [hround]
    exact waitReconnect_ends _ (fun h => absurd h.2 (by rw [hspent]; decide)) _
  · rw [hround, waits_waitReconnect, hspent, hwaits]
    exact List.append_nil _

end Supervisor

end Lox
