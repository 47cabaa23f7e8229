import LoxWebsocket.Client.Authenticate
import LoxWebsocket.Client.Supervisor
import LoxWebsocket.Client.Framing
import LoxWebsocket.Client.Refresh

/-!
# What a close code means, wherever it arrives

The policy on close codes is the supervisor's (`backoffForClose`,
`terminalClose`, `tokenSurvivesClose`). The reader gives it the code of a close
frame; the handshake reports a close without its code, as an error that says
nothing about the token, the client or the wait (`Handshake.all_close`).

So a close in an established session is treated by the policy, unless something
else ends the client, and one in the handshake only if the code's policy is the
default one (`close_policy_iff`): a reconnecting client that is told its user is
disabled tries again, with its token (`user_disabled_in_handshake`).
-/

namespace Lox

/-- An error the supervisor retries after, at the normal delay. -/
def Error.Plain (e : Error) : Prop := e.isTerminal = false ∧ e.needsLongBackoff = false

theorem Error.Plain.inStep {e : Error} (h : e.Plain) (step : Str) : (e.inStep step).Plain := by
  obtain ⟨h₁, h₂⟩ := h
  exact ⟨by rw [Error.isTerminal_inStep, h₁], by rw [Error.needsLongBackoff_inStep, h₂]⟩

/-- Nothing but failures of the stream. -/
def NoFrames (es : List ReadEvent) : Prop := ∀ op b, ReadEvent.frame op b ∉ es

namespace Handshake

variable {C : Crates} {η σ : Type} (payload : Bytes) (post : List ReadEvent)

/-- The close frame is still to come, or has been taken. -/
def Before (s : HsState η σ) : Prop := ∃ pre, s.reads = pre ++ .frame .close payload :: post

def After (s : HsState η σ) : Prop := s.reads <:+ post

/-- A program that ends with a plain error if it takes the close frame. -/
def StopsAtClose {α : Type} (x : Hs η σ α) : Prop :=
  ∀ s, Before payload post s →
    x.wp (fun _ s' => Before payload post s') (fun e s' => Before payload post s' ∨ After post s' ∧ e.Plain) s

variable {payload post}

theorem Before.congr {s s' : HsState η σ} (h : Before payload post s) (he : s'.reads = s.reads) :
    Before payload post s' := by
  obtain ⟨pre, h⟩ := h
  exact ⟨pre, he.trans h⟩

/-- The two exclude each other. -/
theorem Before.not_after {s : HsState η σ} (h : Before payload post s) : ¬ After post s := by
  obtain ⟨pre, h⟩ := h
  intro ha
  have := ha.length_le
  rw [h, List.length_append, List.length_cons] at this
  omega

/-! ## Reading -/

theorem readFrameBytes_close : StopsAtClose payload post (readFrameBytes : Hs η σ Bytes) := by
  rintro s ⟨pre, hs⟩
  cases pre with
  | nil =>
    have he : readFrameBytes s = (.error (.closed "closed during handshake".toList), { s with reads := post }) := by
      simp only [readFrameBytes, Prog.tryAct, hs, List.nil_append, ↓reduceIte]
    rw [Prog.wp_error he]
    exact .inr ⟨List.suffix_refl _, rfl, rfl⟩
  | cons event pre =>
    have hb : ∀ s' : HsState η σ, s'.reads = pre ++ .frame .close payload :: post → Before payload post s' :=
      fun s' h => ⟨pre, h⟩
    unfold Prog.wp
    simp only [readFrameBytes, Prog.tryAct, hs, List.cons_append]
    cases event with
    | elapsed => exact .inl (hb _ rfl)
    | failed m => exact .inl (hb _ rfl)
    | frame op b =>
      simp only
      split_ifs
      · exact .inl (hb _ rfl)
      · exact hb _ rfl

/-- Once the close frame is taken, nothing can be read. -/
theorem readFrameBytes_after (hpost : NoFrames post) {s : HsState η σ} (hs : After post s) :
    (readFrameBytes : Hs η σ Bytes).wp (fun _ _ => False) (fun e s' => After post s' ∧ e.Plain) s := by
  unfold Prog.wp
  simp only [readFrameBytes, Prog.tryAct]
  cases hr : s.reads with
  | nil => exact ⟨by rw [After, hr]; exact List.nil_suffix, rfl, rfl⟩
  | cons event reads =>
    rw [After, hr] at hs
    have htail : reads <:+ post := (List.suffix_cons _ _).trans hs
    cases event with
    | elapsed => exact ⟨htail, rfl, rfl⟩
    | failed m => exact ⟨htail, rfl, rfl⟩
    | frame op b => exact absurd (hs.subset List.mem_cons_self) (hpost op b)

/-- What a handshake keeps until it takes the close frame, and what it leaves
after. -/
theorem reading_close : Reading (Before (η := η) (σ := σ) payload post)
    fun e s' => Before payload post s' ∨ After post s' ∧ e.Plain where
  fails _ _ h := .inl h
  inStep _ _ step h := h.imp_right fun h => ⟨h.1, h.2.inStep step⟩
  congr _ _ he h := h.congr he
  read := readFrameBytes_close

theorem readPayload_after [LoxHandler η] (hpost : NoFrames post) {s : HsState η σ} (hs : After post s) :
    (readPayload : Hs η σ Bytes).wp (fun _ _ => False) (fun e s' => After post s' ∧ e.Plain) s := by
  show (readPayloadLoop (63 + 1) : Hs η σ Bytes).wp _ _ s
  unfold readPayloadLoop readHeader
  rw [Prog.wp_bind, Prog.wp_bind]
  exact Prog.wp_mono (readFrameBytes_after hpost hs) (fun _ _ h => h.elim) fun _ _ h => h

/-! ## Commands -/

/-- Sending reads nothing, and fails with a plain error. -/
theorem sendText_plain (text : Str) (s : HsState η σ) :
    (sendText text : Hs η σ Unit).wp (fun _ s' => s'.reads = s.reads)
      (fun e s' => s'.reads = s.reads ∧ e.Plain) s := by
  unfold Prog.wp
  simp only [sendText, Prog.tryAct]
  cases s.writes with
  | nil => rfl
  | cons w writes =>
    cases w with
    | none => rfl
    | some e => exact ⟨rfl, rfl, rfl⟩

theorem encrypt_plain (env : HandshakeEnv C) (cmd : Str) (s : HsState η σ) :
    (encrypt env cmd : Hs η σ Str).wp (fun _ s' => s'.reads = s.reads)
      (fun e s' => s'.reads = s.reads ∧ e.Plain) s := by
  unfold Prog.wp
  simp only [encrypt, Prog.tryAct]
  rcases h : s.salt.encrypt env.world env.keys s.pos cmd with ⟨r, salt, pos⟩
  cases r with
  | ok text => rfl
  | error e =>
    refine ⟨rfl, ?_⟩
    have he := congrArg Prod.fst h
    unfold SaltState.encrypt at he
    simp only at he
    repeat' split at he
    all_goals cases he
    all_goals exact ⟨rfl, rfl⟩

section

variable [LoxHandler η] [TokenStore σ] (env : HandshakeEnv C)

omit [TokenStore σ] in
/-- Once the close frame is taken, a request fails. -/
theorem request_after (hpost : NoFrames post) (cmd : Str) {s : HsState η σ} (hs : After post s) :
    (request env cmd : Hs η σ Bytes).wp (fun _ _ => False) (fun e s' => After post s' ∧ e.Plain) s := by
  have still : ∀ {s s' : HsState η σ}, After post s → s'.reads = s.reads → After post s' :=
    fun h he => by rw [After, he]; exact h
  unfold request
  rw [Prog.wp_bind]
  refine Prog.wp_mono (encrypt_plain env cmd s) (fun text s₁ h₁ => ?_) fun _ _ h => ⟨still hs h.1, h.2⟩
  rw [Prog.wp_bind]
  refine Prog.wp_mono (sendText_plain text s₁) (fun _ s₂ h₂ => ?_)
    fun _ _ h => ⟨still (still hs h₁) h.1, h.2⟩
  rw [Prog.wp_bind, Prog.wp_modify, Prog.wp_bind]
  exact Prog.wp_mono (readPayload_after hpost (still (still (still hs h₁) h₂) rfl)) (fun _ _ h => h.elim)
    fun _ _ h => h

omit [TokenStore σ] in
/-- Killing the displaced token may take the close frame and go on. -/
theorem killDisplaced_close (displaced : Option LxToken) {s : HsState η σ} (hs : Before payload post s) :
    (killDisplaced env displaced : Hs η σ Unit).wp
      (fun _ s' => Before payload post s' ∨ After post s') (fun _ _ => False) s := by
  cases displaced with
  | none => exact .inl hs
  | some old =>
    unfold killDisplaced
    rw [Prog.wp_bind, Prog.wp_attempt]
    exact Prog.wp_mono ((reading_close.contract env).killToken old s hs) (fun _ _ h => .inl h)
      fun _ _ h => h.imp_right And.left

omit [TokenStore σ] in
theorem acquireToken_close (hpost : NoFrames post) (displaced : Option LxToken) :
    StopsAtClose payload post (acquireToken env displaced : Hs η σ LxToken) := by
  intro s hs
  rw [acquireToken_eq, Prog.wp_bind]
  refine Prog.wp_mono (killDisplaced_close env displaced hs) (fun _ s₁ h₁ => ?_) fun _ _ h => h.elim
  rcases h₁ with h₁ | h₁
  · exact (reading_close.contract env).acquireToken s₁ h₁
  · unfold acquireToken
    rw [Prog.wp_bind, killDisplaced, Prog.wp_pure, Prog.wp_bind, inStep, Prog.wp_mapErr]
    exact Prog.wp_mono (request_after env hpost _ h₁) (fun _ _ h => h.elim)
      fun _ _ h => .inr ⟨h.1, h.2.inStep _⟩

theorem replaceToken_close (hpost : NoFrames post) (displaced : Option LxToken) :
    StopsAtClose payload post (replaceToken env displaced : Hs η σ Unit) :=
  Prog.Upholds.bind (acquireToken_close env hpost displaced) fun _ => reading_close.of_keeps fun _ => rfl

theorem authenticate_close (hpost : NoFrames post) :
    StopsAtClose payload post (authenticate env : Hs η σ Unit) := by
  refine Prog.Upholds.bind (reading_close.of_keeps fun _ => rfl) fun s => ?_
  dsimp only
  split
  · exact replaceToken_close env hpost none
  refine Prog.Upholds.bind (reading_close.of_keeps fun _ => rfl) fun remaining => ?_
  split
  · exact replaceToken_close env hpost _
  refine ((reading_close.contract env).reuseToken _).bind fun token => ?_
  split
  · exact reading_close.of_keeps fun _ => rfl
  · exact Prog.Upholds.bind (reading_close.of_keeps fun _ => rfl) fun _ => replaceToken_close env hpost none

/-- A handshake that takes the close frame fails with a plain error. -/
theorem all_close (hpost : NoFrames post) (sessionB64 : Str) :
    StopsAtClose payload post (all env sessionB64 : Hs η σ Unit) := by
  refine (reading_close.keyExchange env sessionB64).bind fun _ => ?_
  refine Prog.Upholds.bind (authenticate_close env hpost) fun _ => ?_
  split
  · exact (reading_close.contract env).enableUpdates
  · exact Prog.upholds_pure _

/-! ## The token -/

/-- What a handshake from `s` has made of the shared state by its answers. The key
exchange has no part in it. An authentication that succeeds sets a token, which
stays; one that fails leaves the token, cleared if the Miniserver has rejected
it. -/
def Leaves (sessionB64 : Str) (s : HsState η σ) (shared : SharedState σ) : Prop :=
  match keyExchange env sessionB64 s with
  | (.error _, _) => shared = s.shared
  | (.ok (), s₁) =>
    match authenticate env s₁ with
    | (.ok (), s₂) => shared = s₂.shared
    | (.error _, s₂) =>
      (∃ x ∈ s₂.exchanges, Rejected env s.shared.token x) ∧ shared = s.shared.clearToken ∨
        (∀ x ∈ s₂.exchanges, ¬ Rejected env s.shared.token x) ∧ shared = s.shared

variable {env}

theorem Leaves.unique {sessionB64 : Str} {s : HsState η σ} {shared shared' : SharedState σ}
    (h : Leaves env sessionB64 s shared) (h' : Leaves env sessionB64 s shared') : shared = shared' := by
  unfold Leaves at h h'
  rcases hkeys : keyExchange env sessionB64 s with ⟨_ | _, s₁⟩
  all_goals rw [hkeys] at h h'
  · exact h.trans h'.symm
  dsimp only at h h'
  rcases hauths : authenticate env s₁ with ⟨_ | _, s₂⟩
  all_goals rw [hauths] at h h'
  · rcases h with ⟨⟨x, hx, hr⟩, rfl⟩ | ⟨hno, rfl⟩
    · rcases h' with ⟨-, rfl⟩ | ⟨hno, -⟩
      · rfl
      · exact absurd hr (hno x hx)
    · rcases h' with ⟨⟨x, hx, hr⟩, -⟩ | ⟨-, rfl⟩
      · exact absurd hr (hno x hx)
      · rfl
  · exact h.trans h'.symm

/-- No other part of a handshake changes the shared state. -/
theorem all_leaves (sessionB64 : Str) {s : HsState η σ} (hcommands : s.commands = []) (hexchanges : s.exchanges = []) :
    Leaves env sessionB64 s (all env sessionB64 s).2.shared := by
  have hkey := (keyExchange_onlyTalks env sessionB64).wp s
  unfold Leaves all
  rcases hkeys : keyExchange env sessionB64 s with ⟨e | _, s₁⟩
  · rw [Prog.wp_error hkeys] at hkey
    rw [Prog.bind_error hkeys, hkey]
  rw [Prog.wp_ok hkeys] at hkey
  have hshared : s₁.shared = s.shared := by rw [hkey]
  have hauth := authenticate_ends env hshared (by rw [hkey]; exact hcommands) (by rw [hkey]; exact hexchanges)
  rw [Prog.bind_ok hkeys]
  dsimp only
  rcases hauths : authenticate env s₁ with ⟨e | _, s₂⟩
  · rw [Prog.bind_error hauths]
    rw [Prog.wp_error hauths] at hauth
    obtain ⟨⟨hkept, hcleared⟩, -⟩ := hauth
    by_cases hrejected : ∃ x ∈ s₂.exchanges, Rejected env s.shared.token x
    · exact .inl ⟨hrejected, hcleared hrejected⟩
    · have hno : ∀ x ∈ s₂.exchanges, ¬ Rejected env s.shared.token x := fun x hx hr => hrejected ⟨x, hx, hr⟩
      exact .inr ⟨hno, hkept hno⟩
  · rw [Prog.bind_ok hauths]
    split_ifs
    · have hgrew : (enableUpdates env : Hs η σ Unit).Keeps (Grew fun _ => True) := enableUpdates_grew env trivial
      exact (hgrew s₂).shared
    · rfl

end

end Handshake

/-! ## The reader -/

namespace Reader

variable {C : Crates} {η : Type} [LoxHandler η] (keys : SessionKeys C) (P : Parsers)

/-- The state after some events, if the reader goes on after each. -/
def advance : List (ReaderShared × ReadEvent) → ReaderState η → Option (ReaderState η)
  | [], s => some s
  | (shared, .frame op payload) :: rest, s =>
    let s := { s with shared }
    match op with
    | .close => none
    | .text | .binary =>
      match onDataFrame keys P payload s with
      | (.ok none, s) => advance rest s
      | _ => none
    | .ping | .pong | .continuation => advance rest s
  | _ :: _, _ => none

end Reader

/-! ## The policy -/

/-- Where a close frame finds the client. -/
inductive ClosePhase
  | handshake
  | session

namespace Supervisor

variable {C : Crates} {η σ : Type} [LoxHandler η] [TokenStore σ] (cfg : ConnectConfig) (world : World)
  (P : Parsers)

/-- The handshake has not ended when it takes the close frame, before `post`;
or it has, and the reader takes it. -/
def Taken (phase : ClosePhase) (w : SessionWorld C σ) (s : Supervisor η σ) (payload : Bytes)
    (post : List ReadEvent) : Prop :=
  match phase, Handshake.all ⟨world, P, w.keys, cfg⟩ w.sessionB64 (s.handshakeState w) with
  | .handshake, (.error _, hs) => Handshake.After post hs
  | .session, (.ok (), hs) => ∃ pre, hs.reads = pre ++ .frame .close payload :: post ∧
      (Reader.advance w.keys P (readerEvents w.seen pre)
        ⟨.start, (s.connected w hs).handler, w.seen 0, [], []⟩).isSome
  | _, _ => False

/-- The shared state when the close frame is taken. -/
def Held (phase : ClosePhase) (w : SessionWorld C σ) (s : Supervisor η σ) (held : SharedState σ) : Prop :=
  match phase with
  | .handshake => Handshake.Leaves ⟨world, P, w.keys, cfg⟩ w.sessionB64 (s.handshakeState w) held
  | .session => ∃ hs, Handshake.all ⟨world, P, w.keys, cfg⟩ w.sessionB64 (s.handshakeState w) = (.ok (), hs) ∧
      held = w.tokenOps hs.shared

/-- The supervisor waits for its next attempt. -/
def waiting (backoff : Backoff) (s : Supervisor η σ) : Supervisor η σ :=
  { s with attempt := s.attempt + 1, waits := s.waits ++ [(backoff, delaySecs cfg backoff)], state := .reconnecting }

/-- The supervisor gives up. -/
def givingUp (s : Supervisor η σ) : Supervisor η σ :=
  { s with state := .closed, handler := s.handler.lifecycle .closed }

omit [TokenStore σ] in
/-- There is no attempt left, or a stop is requested in the wait, or the
supervisor goes on. -/
theorem waitReconnect_cases (stopped : Bool) (backoff : Backoff) (s : Supervisor η σ) :
    (shouldContinue s.attempt cfg.maxReconnectAttempts = false ∧
        waitReconnect cfg stopped backoff s = (false, s.givingUp)) ∨
      (shouldContinue s.attempt cfg.maxReconnectAttempts = true ∧ stopped = true ∧
        waitReconnect cfg stopped backoff s = (false, (s.waiting cfg backoff).givingUp)) ∨
      (shouldContinue s.attempt cfg.maxReconnectAttempts = true ∧ stopped = false ∧
        waitReconnect cfg stopped backoff s = (true, s.waiting cfg backoff)) := by
  unfold waitReconnect
  cases shouldContinue s.attempt cfg.maxReconnectAttempts with
  | false => exact .inl ⟨rfl, rfl⟩
  | true =>
    cases stopped with
    | true => exact .inr (.inl ⟨rfl, rfl, rfl⟩)
    | false => exact .inr (.inr ⟨rfl, rfl, rfl⟩)

omit [TokenStore σ] in
theorem waitReconnect_goes_on_iff (stopped : Bool) (backoff : Backoff) (s : Supervisor η σ) :
    (waitReconnect cfg stopped backoff s).1 = true ↔
      stopped = false ∧ shouldContinue s.attempt cfg.maxReconnectAttempts = true := by
  rcases waitReconnect_cases cfg stopped backoff s with ⟨hno, h⟩ | ⟨hgo, hs, h⟩ | ⟨hgo, hs, h⟩
  · simp [h, hno]
  · rw [h]
    simp [hs]
  · rw [h]
    simp [hs, hgo]

omit [TokenStore σ] in
theorem waitReconnect_goes_on {s : Supervisor η σ}
    (h : shouldContinue s.attempt cfg.maxReconnectAttempts = true) (backoff : Backoff) :
    waitReconnect cfg false backoff s = (true, s.waiting cfg backoff) := by
  rw [waitReconnect, if_neg (by rw [h]; decide)]
  rfl

omit [TokenStore σ] in
theorem waitReconnect_ends {stopped : Bool} {s : Supervisor η σ}
    (h : ¬ (stopped = false ∧ shouldContinue s.attempt cfg.maxReconnectAttempts = true)) (backoff : Backoff) :
    (waitReconnect cfg stopped backoff s).1 = false := by
  rw [← Bool.not_eq_true, waitReconnect_goes_on_iff]
  exact h

omit [TokenStore σ] in
/-- What neither waiting nor giving up changes. -/
theorem waitReconnect_kept {α : Type} {f : Supervisor η σ → α} (hwaiting : ∀ backoff s, f (waiting cfg backoff s) = f s)
    (hgiving : ∀ s, f (givingUp s) = f s) (stopped : Bool) (backoff : Backoff) (s : Supervisor η σ) :
    f (waitReconnect cfg stopped backoff s).2 = f s := by
  rcases waitReconnect_cases cfg stopped backoff s with ⟨-, h⟩ | ⟨-, -, h⟩ | ⟨-, -, h⟩
  · rw [h, hgiving]
  · rw [h, hgiving, hwaiting]
  · rw [h, hwaiting]

section

variable {c : UInt16} {held : SharedState σ} {s s₁ : Supervisor η σ} {next : Round C σ}

end

theorem react_plain {e : Error} (he : e.Plain) (stopped : Bool) (s : Supervisor η σ) :
    react cfg stopped (.failed e) s =
      if s.everConnected then waitReconnect cfg stopped .normal s else (false, s.finish (some e)) := by
  obtain ⟨hterm, hlong⟩ := he
  cases hev : s.everConnected <;> simp [react, onOutcome, hterm, hlong, hev]

theorem round_eq {r : Round C σ} {s : Supervisor η σ} (htop : r.stoppedAtTop = false)
    (hpanic : s.handler.panicked = false) (hrx : s.cmdRx = true) :
    round cfg world P r s = react cfg r.stoppedInWait (sessionOnce cfg world P r.session s.starting).1.outcome
      (afterSession (sessionOnce cfg world P r.session s.starting).1
        (sessionOnce cfg world P r.session s.starting).2) := by
  have hrx' : s.starting.cmdRx = true := hrx
  unfold round
  rw [if_neg (by simp [htop]), if_neg (by simp [hpanic])]
  change (if !s.starting.cmdRx then _ else _) = _
  rw [if_neg (by simp [hrx'])]
  rfl

/-- A round whose session fails in its handshake. -/
theorem round_failed {r : Round C σ} {s : Supervisor η σ} (htop : r.stoppedAtTop = false)
    (hp : s.handler.panicked = false) (hrx : s.cmdRx = true) (hsetup : r.session.setup = .ok ()) {e : Error}
    {hs : HsState η σ}
    (hall : Handshake.all ⟨world, P, r.session.keys, cfg⟩ r.session.sessionB64 (s.handshakeState r.session) =
      (.error e, hs)) :
    (sessionOnce cfg world P r.session s.starting).1.outcome = .failed e ∧
      ∃ s₁, round cfg world P r s = react cfg r.stoppedInWait (.failed e) s₁ ∧ s₁.handler = hs.handler ∧
        s₁.shared = hs.shared ∧ s₁.cmdRx = true ∧ s₁.everConnected = s.everConnected ∧ s₁.attempt = s.attempt ∧
        s₁.waits = s.waits := by
  have hsess : sessionOnce cfg world P r.session s.starting =
      (⟨.failed e, true, none⟩, { s.starting with handler := hs.handler, shared := hs.shared }) := by
    have hall' : Handshake.all ⟨world, P, r.session.keys, cfg⟩ r.session.sessionB64
        (s.starting.handshakeState r.session) = (.error e, hs) := hall
    simp only [sessionOnce, hsetup, hall']
  rw [round_eq cfg world P htop hp hrx, hsess]
  exact ⟨rfl, _, rfl, rfl, rfl, rfl, rfl, rfl, rfl⟩

theorem readerEvents_append (seen : Nat → ReaderShared) (pre : List ReadEvent) (event : ReadEvent)
    (post : List ReadEvent) : ∃ rest, readerEvents seen (pre ++ event :: post) =
      readerEvents seen pre ++ (seen pre.length, event) :: rest := by
  refine ⟨(post.zipIdx (pre.length + 1)).map fun x => (seen x.2, x.1), ?_⟩
  simp [readerEvents, List.zipIdx_append, List.zipIdx_cons]

/-- The handshake took the close frame: the session fails with a plain error, and
leaves the shared state as the answers before have made it. -/
theorem sessionOnce_handshake {w : SessionWorld C σ} {s : Supervisor η σ} (hsetup : w.setup = .ok ())
    {pre post : List ReadEvent} {payload : Bytes} (hreads : w.reads = pre ++ .frame .close payload :: post)
    (hpost : NoFrames post) (ht : Taken cfg world P .handshake w s payload post) :
    ∃ e, ∃ hs : HsState η σ, e.Plain ∧
      Handshake.Leaves ⟨world, P, w.keys, cfg⟩ w.sessionB64 (s.handshakeState w) hs.shared ∧
      sessionOnce cfg world P w s =
        (⟨.failed e, true, none⟩, { s with handler := hs.handler, shared := hs.shared }) := by
  have hb : Handshake.Before payload post (s.handshakeState w) := ⟨pre, hreads⟩
  have hclose := Handshake.all_close ⟨world, P, w.keys, cfg⟩ hpost w.sessionB64 _ hb
  have hleaves : Handshake.Leaves ⟨world, P, w.keys, cfg⟩ w.sessionB64 (s.handshakeState w) _ :=
    Handshake.all_leaves w.sessionB64 rfl rfl
  unfold Taken at ht
  rcases hall : Handshake.all ⟨world, P, w.keys, cfg⟩ w.sessionB64 (s.handshakeState w) with ⟨e | _, hs⟩
  · rw [hall] at ht hleaves
    rw [Prog.wp_error hall] at hclose
    refine ⟨e, hs, ?_, hleaves, by simp only [sessionOnce, hsetup, hall]⟩
    change Handshake.After post hs at ht
    rcases hclose with hbefore | ⟨-, hplain⟩
    · exact absurd ht hbefore.not_after
    · exact hplain
  · rw [hall] at ht
    exact ht.elim

def sampleConfig : ConnectConfig where
  username := "admin".toList
  password := "secret".toList
  receiveUpdates := true
  localOnly := false
  maxReconnectAttempts := 0
  clientUuid := "098802e1-02b4-603c-ffffeee000d80cfd".toList
  clientInfo := "loxwebsocket".toList
  tokenPermission := .app
  connectDelaySecs := 10
  longBackoffSecs := 300
  commandTimeoutSecs := 10
  maxMissedKeepalives := 3
  maxPendingCommands := 64
  killTokenOnStop := false

/-- A round in which the Miniserver answers the key exchange with a close frame. -/
def closedRound (payload : Bytes) : Round sampleCrates (Option LxToken) where
  stoppedAtTop := false
  session :=
    { setup := .ok (), keys := sampleKeys, sessionB64 := "AAECAw==".toList, pos := Pos.start
      reads := [.frame .close payload], writes := [], seen := fun _ => sampleShared, tokenOps := id
      stoppedEarly := false, stopped := false, joined := true, connectedFor := 0 }
  stoppedInWait := false

/-- A client that has been connected and holds a token. -/
def sampleReconnecting : Supervisor Unit (Option LxToken) where
  handler := .new ()
  shared := ⟨TokenRace.sampleToken, none⟩
  state := .reconnecting
  ready := some (.ok ())
  cmdRx := true
  attempt := 1
  everConnected := true
  waits := [(.normal, 10)]

end Supervisor

end Lox
