import LoxWebsocket.Client.HandlerCalls
import LoxWebsocket.Client.Displaced

/-!
# The life of a client

The supervisor's run as the sessions it starts (`attempts`). `Life` says what
each of them and its end do to the supervisor, and that a run is one of those
lives (`loop_life`); what holds of whole runs is an induction on it.

The handler is told of a session when it is established, and of its end when it
ends with a close code (`Life.events`). So a run that returns has delivered
`closed` once, as the last event, and answered `ready` (`supervisor_ends`).
-/

namespace Lox

/-- The session got past its handshake. -/
def SessionResult.established (x : SessionResult) : Bool := x.connectedFor.isSome

/-- The session ran long enough to clear the budget of attempts. -/
def SessionResult.productive (x : SessionResult) : Bool := x.connectedFor.any (productiveSessionSecs ≤ ·)

/-- What the handler is told of the end of a session. -/
def SessionOutcome.closedEvents : SessionOutcome → List ClientEvent
  | .disconnected closeCode => [.connectionClosed closeCode]
  | _ => []

/-- What the handler is told of a session that is established. -/
def SessionResult.connectedEvents (everConnected : Bool) (x : SessionResult) : List ClientEvent :=
  if x.established then [if everConnected then .reconnected else .connected] else []

def SessionResult.events (everConnected : Bool) (x : SessionResult) : List ClientEvent :=
  x.connectedEvents everConnected ++ x.outcome.closedEvents

/-- What the handler is told of sessions in turn. -/
def eventsOf : Bool → List SessionResult → List ClientEvent
  | _, [] => []
  | everConnected, x :: xs => x.events everConnected ++ eventsOf (everConnected || x.established) xs

namespace Supervisor

variable {C : Crates} {η σ : Type} [LoxHandler η] [TokenStore σ] (cfg : ConnectConfig) (world : World)
  (P : Parsers)

def Attempt.result (a : Attempt C η σ) : SessionResult := (sessionOnce cfg world P a.session a.start).1

/-- Its handshake is completed. -/
def Attempt.Established (a : Attempt C η σ) : Prop :=
  a.session.setup = .ok () ∧ (Handshake.all ⟨world, P, a.session.keys, cfg⟩ a.session.sessionB64
    (a.start.handshakeState a.session)).1 = .ok ()

/-- The sessions of a run, in order. -/
def attempts : List (Round C σ) → Supervisor η σ → List (Attempt C η σ)
  | [], _ => []
  | r :: rounds, s =>
    (attempted r s).toList ++
      match round cfg world P r s with
      | (true, s) => attempts rounds s
      | (false, _) => []

/-- The sessions of the supervisor task. -/
def runAttempts (setup : Except Error Unit) (rounds : List (Round C σ)) (handler : η) (shared : SharedState σ) :
    List (Attempt C η σ) :=
  match setup with
  | .error _ => []
  | .ok () => attempts cfg world P rounds (start handler shared)

/-- The round ends the run because no attempt is left. -/
def exhausted (r : Round C σ) (s : Supervisor η σ) : Bool :=
  match attempted r s with
  | none => false
  | some a =>
    let (result, s) := sessionOnce cfg world P a.session a.start
    match onOutcome result.outcome (afterSession result s) with
    | (none, _) => false
    | (some _, s) => !shouldContinue s.attempt cfg.maxReconnectAttempts

/-- The run ends for that reason. -/
def givesUp : List (Round C σ) → Supervisor η σ → Bool
  | [], _ => false
  | r :: rounds, s =>
    match round cfg world P r s with
    | (true, s) => givesUp rounds s
    | (false, _) => exhausted cfg world P r s

/-- The lifecycle events delivered so far. -/
def events (s : Supervisor η σ) : List ClientEvent := lifecycleEvents s.handler.calls

/-- `ready` is answered once a session is established. -/
def Sound (s : Supervisor η σ) : Prop := s.ready = if s.everConnected then some (.ok ()) else none

/-! ## The parts of a round -/

/-- The supervisor has returned. -/
structure Ended (s s' : Supervisor η σ) : Prop where
  events : s'.events = s.events ++ [.closed]
  state : s'.state = .closed
  ready : s.Sound → ∃ answer, s'.ready = some answer ∧ (answer = .ok () ↔ s.everConnected = true)

/-- The supervisor waits for its next round. -/
structure Waits (s s' : Supervisor η σ) : Prop where
  events : s'.events = s.events
  ready : s'.ready = s.ready
  everConnected : s'.everConnected = s.everConnected
  attempt : s'.attempt = s.attempt + 1
  left : shouldContinue s.attempt cfg.maxReconnectAttempts = true

/-- The supervisor has been told what became of a session, and has told the
handler `told`. -/
structure Went (x : SessionResult) (told : List ClientEvent) (s s' : Supervisor η σ) : Prop where
  events : s'.events = s.events ++ told
  ready : s.Sound → s'.Sound
  everConnected : s'.everConnected = (s.everConnected || x.established)
  attempt : s'.attempt = if x.productive then 0 else s.attempt

/-- The supervisor has told the handler `told`, and not changed what counts here. -/
structure Tells (told : List ClientEvent) (s s' : Supervisor η σ) : Prop where
  events : s'.events = s.events ++ told
  ready : s'.ready = s.ready
  everConnected : s'.everConnected = s.everConnected
  attempt : s'.attempt = s.attempt

omit [LoxHandler η] [TokenStore σ] in
theorem Went.tells {x : SessionResult} {told told' : List ClientEvent} {s s₁ s₂ : Supervisor η σ}
    (h : Went x told s s₁) (h' : Tells told' s₁ s₂) : Went x (told ++ told') s s₂ where
  events := by rw [h'.events, h.events, List.append_assoc]
  ready hs := by
    rw [Sound, h'.ready, h'.everConnected]
    exact h.ready hs
  everConnected := h'.everConnected.trans h.everConnected
  attempt := h'.attempt.trans h.attempt

omit [LoxHandler η] [TokenStore σ] in
theorem Sound.signal {s : Supervisor η σ} (h : s.Sound) (r : Except Error Unit) :
    (s.signal r).ready = some (if s.everConnected then .ok () else r) := by
  change s.ready.or (some r) = _
  rw [h]
  cases s.everConnected <;> rfl

omit [TokenStore σ] in
theorem finish_ended (error : Option Error) (s : Supervisor η σ) : Ended s (s.finish error) where
  events := s.handler.lifecycleEvents_lifecycle .closed
  state := rfl
  ready h := by
    refine ⟨_, h.signal _, ?_⟩
    cases s.everConnected <;> simp

omit [TokenStore σ] in
/-- Two ends of the wait leave `ready` as it is: it has been answered. -/
theorem ended_of_connected {s s' : Supervisor η σ} (hev : s.everConnected = true)
    (hh : s'.handler = s.handler.lifecycle .closed) (hs : s'.state = .closed) (hr : s'.ready = s.ready) :
    Ended s s' where
  events := by
    rw [Supervisor.events, hh]
    exact s.handler.lifecycleEvents_lifecycle .closed
  state := hs
  ready h := ⟨.ok (), by rw [hr, h, hev]; rfl, by simp [hev]⟩

omit [TokenStore σ] in
theorem waitReconnect_inv (stopped : Bool) (backoff : Backoff) {s : Supervisor η σ} (hev : s.everConnected = true) :
    (∃ s', waitReconnect cfg stopped backoff s = (true, s') ∧ Waits cfg s s') ∨
      ∃ s', waitReconnect cfg stopped backoff s = (false, s') ∧ Ended s s' := by
  rcases waitReconnect_cases cfg stopped backoff s with ⟨-, h⟩ | ⟨-, -, h⟩ | ⟨hgo, -, h⟩
  · exact .inr ⟨_, h, ended_of_connected hev rfl rfl rfl⟩
  · exact .inr ⟨_, h, ended_of_connected hev rfl rfl rfl⟩
  · exact .inl ⟨_, h, rfl, rfl, rfl, rfl, hgo⟩

/-- A session that is not established has failed. -/
theorem sessionOnce_unestablished {w : SessionWorld C σ} {s : Supervisor η σ}
    (h : (sessionOnce cfg world P w s).1.established = false) :
    ∃ e, (sessionOnce cfg world P w s).1.outcome = .failed e := by
  unfold sessionOnce at h ⊢
  split
  · exact ⟨_, rfl⟩
  split
  · exact ⟨_, rfl⟩
  · simp_all [SessionResult.established]

theorem sessionOnce_went (w : SessionWorld C σ) (s : Supervisor η σ) :
    Went (sessionOnce cfg world P w s).1 ((sessionOnce cfg world P w s).1.connectedEvents s.everConnected) s
      (afterSession (sessionOnce cfg world P w s).1 (sessionOnce cfg world P w s).2) := by
  unfold sessionOnce
  split
  · exact ⟨(List.append_nil _).symm, id, (Bool.or_false _).symm, rfl⟩
  have hhs := Handshake.all_unannounced (η := η) (σ := σ) ⟨world, P, w.keys, cfg⟩ w.sessionB64 (s.handshakeState w)
  rcases hall : Handshake.all ⟨world, P, w.keys, cfg⟩ w.sessionB64 (s.handshakeState w) with ⟨e | _, hs⟩
  · rw [hall] at hhs
    exact ⟨hhs.trans (List.append_nil _).symm, id, (Bool.or_false _).symm, rfl⟩
  · rw [hall] at hhs
    have hread := Reader.run_unannounced w.keys P (readerEvents w.seen hs.reads)
      ⟨.start, (s.connected w hs).handler, w.seen 0, [], []⟩
    refine ⟨?_, fun h => ?_, (Bool.or_true _).symm, ?_⟩
    · refine Eq.trans hread ?_
      refine (hs.handler.lifecycleEvents_lifecycle _).trans ?_
      rw [hhs]
      rfl
    · refine Eq.trans (h.signal (.ok ())) ?_
      cases s.everConnected <;> rfl
    · simp [afterSession, SessionResult.productive, connected, signal]

theorem onOutcome_inv (outcome : SessionOutcome) (s : Supervisor η σ) :
    ∃ s₁, Tells outcome.closedEvents s s₁ ∧
      ((∃ e, onOutcome outcome s = (none, s₁.finish (some e))) ∨
        ∃ backoff, onOutcome outcome s = (some backoff, s₁) ∧ outcome ≠ .stopped ∧
          (s.everConnected = true ∨ ∃ closeCode, outcome = .disconnected closeCode)) := by
  have htold : Tells [] s s := ⟨(List.append_nil _).symm, rfl, rfl, rfl⟩
  cases outcome with
  | stopped => exact ⟨s, htold, .inl ⟨_, rfl⟩⟩
  | failed e =>
    refine ⟨s, htold, ?_⟩
    rw [onOutcome]
    split_ifs with hterm hev
    · exact .inl ⟨_, rfl⟩
    · exact .inl ⟨_, rfl⟩
    · exact .inr ⟨_, rfl, by simp, .inl (by simpa using hev)⟩
    · exact .inr ⟨_, rfl, by simp, .inl (by simpa using hev)⟩
  | disconnected closeCode =>
    have hclosed := s.handler.lifecycleEvents_lifecycle (.connectionClosed closeCode)
    let s₁ : Supervisor η σ := { s with handler := s.handler.lifecycle (.connectionClosed closeCode) }
    refine ⟨if tokenSurvivesClose closeCode then s₁
      else { s₁ with shared := s₁.shared.clearToken }, ?_, ?_⟩
    · split_ifs
      · exact ⟨hclosed, rfl, rfl, rfl⟩
      · exact ⟨hclosed, rfl, rfl, rfl⟩
    · rw [onOutcome]
      cases hterm : terminalClose closeCode with
      | some e => exact .inl ⟨e, rfl⟩
      | none => exact .inr ⟨_, rfl, by simp, .inr ⟨_, rfl⟩⟩

/-- What follows a session: the handler is told of its end, and the supervisor
waits or returns. -/
theorem react_inv (stopped : Bool) {outcome : SessionOutcome} {s : Supervisor η σ}
    (hev : (∃ closeCode, outcome = .disconnected closeCode) → s.everConnected = true) :
    ∃ s₁, Tells outcome.closedEvents s s₁ ∧ (∀ backoff s₂, onOutcome outcome s = (some backoff, s₂) → s₂ = s₁) ∧
      ((∃ s', react cfg stopped outcome s = (true, s') ∧ Waits cfg s₁ s' ∧ outcome ≠ .stopped) ∨
        ∃ s', react cfg stopped outcome s = (false, s') ∧ Ended s₁ s') := by
  obtain ⟨s₁, htells, ⟨e, ho⟩ | ⟨backoff, ho, hne, hconn⟩⟩ := onOutcome_inv outcome s
  · refine ⟨s₁, htells, fun b s₂ h => ?_, .inr ⟨s₁.finish (some e), ?_, finish_ended _ s₁⟩⟩
    · rw [ho] at h
      cases h
    · simp only [react, ho]
  · have hreact : react cfg stopped outcome s = waitReconnect cfg stopped backoff s₁ := by
      simp only [react, ho]
    refine ⟨s₁, htells, fun b s₂ h => ?_, ?_⟩
    · rw [ho] at h
      cases h
      rfl
    · have hev₁ : s₁.everConnected = true := by
        rw [htells.everConnected]
        exact hconn.elim id hev
      rw [hreact]
      rcases waitReconnect_inv cfg stopped backoff hev₁ with ⟨s', hw, h⟩ | hends
      · exact .inl ⟨s', hw, h, hne⟩
      · exact .inr hends

/-! ## A round -/

omit [LoxHandler η] [TokenStore σ] in
theorem attempted_eq_some {r : Round C σ} {s : Supervisor η σ} {a : Attempt C η σ} (h : attempted r s = some a) :
    r.stoppedAtTop = false ∧ s.handler.panicked = false ∧ s.cmdRx = true ∧ a = ⟨r.session, s.starting⟩ := by
  unfold attempted at h
  split_ifs at h with hstop
  cases h
  simp_all

theorem attempts_last {r : Round C σ} {s : Supervisor η σ} (htop : r.stoppedAtTop = false)
    (hp : s.handler.panicked = false) (hrx : s.cmdRx = true) :
    attempts cfg world P [r] s = [⟨r.session, s.starting⟩] := by
  rcases hround : round cfg world P r s with ⟨_ | _, s'⟩
  all_goals simp [attempts, hround, attempted, htop, hp, hrx]

theorem attempts_cons {r : Round C σ} {s s' : Supervisor η σ} (htop : r.stoppedAtTop = false)
    (hp : s.handler.panicked = false) (hrx : s.cmdRx = true) (h : round cfg world P r s = (true, s'))
    (rounds : List (Round C σ)) :
    attempts cfg world P (r :: rounds) s = ⟨r.session, s.starting⟩ :: attempts cfg world P rounds s' := by
  simp [attempts, h, attempted, htop, hp, hrx]

/-- The supervisor returns before the session. -/
theorem round_finish {r : Round C σ} {s : Supervisor η σ} (h : attempted r s = none) :
    ∃ s₁ error, round cfg world P r s = (false, s₁.finish error) ∧ (s₁ = s ∨ s₁ = s.starting) := by
  cases htop : r.stoppedAtTop with
  | true => exact ⟨s, _, by rw [round, if_pos htop], .inl rfl⟩
  | false =>
    cases hpanic : s.handler.panicked with
    | true => exact ⟨s, _, by rw [round, if_neg (by rw [htop]; decide), if_pos hpanic], .inl rfl⟩
    | false =>
      have hrx : s.cmdRx = false := by
        simp only [attempted, htop, hpanic] at h
        simpa using h
      refine ⟨s.starting, none, ?_, .inr rfl⟩
      rw [round, if_neg (by rw [htop]; decide), if_neg (by rw [hpanic]; decide)]
      exact if_pos (by simp [hrx])

theorem round_unattempted {r : Round C σ} {s : Supervisor η σ} (h : attempted r s = none) :
    ∃ s', round cfg world P r s = (false, s') ∧ Ended s s' := by
  obtain ⟨s₁, error, hr, rfl | rfl⟩ := round_finish cfg world P h
  · exact ⟨_, hr, finish_ended error s₁⟩
  · have he := finish_ended error s.starting
    exact ⟨_, hr, he.events, rfl, he.ready⟩

/-- The supervisor has dealt with the session and finds no attempt left. -/
theorem exhausted_inv {r : Round C σ} {s : Supervisor η σ} (h : exhausted cfg world P r s = true) :
    ∃ backoff s₂, onOutcome (sessionOnce cfg world P r.session s.starting).1.outcome
        (afterSession (sessionOnce cfg world P r.session s.starting).1
          (sessionOnce cfg world P r.session s.starting).2) = (some backoff, s₂) ∧
      shouldContinue s₂.attempt cfg.maxReconnectAttempts = false := by
  unfold exhausted at h
  split at h
  · cases h
  rename_i a ha
  obtain ⟨-, -, -, rfl⟩ := attempted_eq_some ha
  dsimp only at h
  split at h
  · cases h
  · exact ⟨_, _, ‹_›, by simpa using h⟩

/-- There is a session, after which the supervisor waits or returns. -/
theorem round_attempted {r : Round C σ} {s : Supervisor η σ} {a : Attempt C η σ} (h : attempted r s = some a) :
    ∃ s₁, Went (a.result cfg world P) ((a.result cfg world P).events s.everConnected) s s₁ ∧
      ((∃ s', round cfg world P r s = (true, s') ∧ Waits cfg s₁ s' ∧ (a.result cfg world P).outcome ≠ .stopped) ∨
        ∃ s', round cfg world P r s = (false, s') ∧ Ended s₁ s' ∧
          (exhausted cfg world P r s = true → shouldContinue s₁.attempt cfg.maxReconnectAttempts = false)) := by
  obtain ⟨htop, hpanic, hrx, rfl⟩ := attempted_eq_some h
  have hwent := sessionOnce_went cfg world P r.session s.starting
  have hfailed := sessionOnce_unestablished cfg world P (w := r.session) (s := s.starting)
  have hexh := exhausted_inv cfg world P (r := r) (s := s)
  rw [Attempt.result, round_eq cfg world P htop hpanic hrx]
  dsimp only
  generalize (sessionOnce cfg world P r.session s.starting).2 = s₀ at *
  generalize (sessionOnce cfg world P r.session s.starting).1 = x at *
  have hev : (∃ closeCode, x.outcome = .disconnected closeCode) → (afterSession x s₀).everConnected = true := by
    rintro ⟨closeCode, hc⟩
    rw [hwent.everConnected]
    cases hx : x.established with
    | true => exact Bool.or_true _
    | false =>
      obtain ⟨e, he⟩ := hfailed hx
      rw [hc] at he
      cases he
  obtain ⟨s₁, htells, honly, hends⟩ := react_inv cfg r.stoppedInWait hev
  have hall := hwent.tells htells
  refine ⟨s₁, ⟨hall.events, hall.ready, hall.everConnected, hall.attempt⟩, ?_⟩
  rcases hends with hgoes | ⟨s', hr, he⟩
  · exact .inl hgoes
  · refine .inr ⟨s', hr, he, fun hx => ?_⟩
    obtain ⟨backoff, s₂, ho, hleft⟩ := hexh hx
    rw [← honly backoff s₂ ho]
    exact hleft

/-! ## A run -/

theorem loop_cons {r : Round C σ} {s s' : Supervisor η σ} (h : round cfg world P r s = (true, s'))
    (rounds : List (Round C σ)) : loop cfg world P (r :: rounds) s = loop cfg world P rounds s' := by
  rw [loop, h]

/-- What the sessions `as` make of a supervisor; `d` is what the loop gives, and
`out` that it ended for want of attempts. -/
inductive Life : Supervisor η σ → List (Attempt C η σ) → Bool → Bool × Supervisor η σ → Prop
  | running (s : Supervisor η σ) : Life s [] false (true, s)
  | returned {s s' : Supervisor η σ} (he : Ended s s') : Life s [] false (false, s')
  | last {s s₁ s' : Supervisor η σ} {a : Attempt C η σ} {out : Bool}
      (hw : Went (a.result cfg world P) ((a.result cfg world P).events s.everConnected) s s₁) (he : Ended s₁ s')
      (ho : out = true → shouldContinue s₁.attempt cfg.maxReconnectAttempts = false) : Life s [a] out (false, s')
  | next {s s₁ s' : Supervisor η σ} {a : Attempt C η σ} {as : List (Attempt C η σ)} {out : Bool}
      {d : Bool × Supervisor η σ}
      (hw : Went (a.result cfg world P) ((a.result cfg world P).events s.everConnected) s s₁) (hwait : Waits cfg s₁ s')
      (hne : (a.result cfg world P).outcome ≠ .stopped) (h : Life s' as out d) : Life s (a :: as) out d

theorem loop_life (rounds : List (Round C σ)) (s : Supervisor η σ) :
    Life cfg world P s (attempts cfg world P rounds s) (givesUp cfg world P rounds s) (loop cfg world P rounds s) := by
  induction rounds generalizing s with
  | nil => exact .running s
  | cons r rounds ih =>
    rw [attempts, givesUp, loop]
    cases ha : attempted r s with
    | none =>
      obtain ⟨s', hr, he⟩ := round_unattempted cfg world P ha
      have hx : exhausted cfg world P r s = false := by rw [exhausted, ha]
      rw [hr]
      simp only [hx]
      exact .returned he
    | some a =>
      obtain ⟨s₁, hw, ⟨s', hr, hwait, hne⟩ | ⟨s', hr, he, ho⟩⟩ := round_attempted cfg world P ha
      · rw [hr]
        exact .next hw hwait hne (ih s')
      · rw [hr]
        exact .last hw he ho

theorem established_iff (a : Attempt C η σ) :
    (a.result cfg world P).established = true ↔ a.Established cfg world P := by
  unfold Attempt.result sessionOnce Attempt.Established
  split
  · simp_all [SessionResult.established]
  · split
    · simp_all [SessionResult.established]
    · simp_all [SessionResult.established]

variable {cfg world P}

/-- What the handler has been told at the end of a run. -/
theorem Life.events {s s' : Supervisor η σ} {as : List (Attempt C η σ)} {out go : Bool}
    (h : Life cfg world P s as out (go, s')) :
    s'.events = s.events ++ eventsOf s.everConnected (as.map (Attempt.result cfg world P)) ++
      if go then [] else [.closed] := by
  generalize hd : (go, s') = d at h
  induction h with
  | running s => cases hd; simp [eventsOf]
  | returned he => cases hd; simp [eventsOf, he.events]
  | last hw he ho => cases hd; simp [eventsOf, he.events, hw.events]
  | next hw hwait hne h ih =>
    rw [ih hd, hwait.events, hwait.everConnected, hw.events, hw.everConnected]
    simp [eventsOf]

theorem Life.closed {s s' : Supervisor η σ} {as : List (Attempt C η σ)} {out : Bool}
    (h : Life cfg world P s as out (false, s')) : s'.state = .closed := by
  generalize hd : (false, s') = d at h
  induction h with
  | running s => cases hd
  | returned he => cases hd; exact he.state
  | last hw he ho => cases hd; exact he.state
  | next hw hwait hne h ih => exact ih hd

/-- `ready` has been answered, by whether a session was established. -/
theorem Life.ready {s s' : Supervisor η σ} {as : List (Attempt C η σ)} {out : Bool}
    (h : Life cfg world P s as out (false, s')) (hs : s.Sound) :
    ∃ answer, s'.ready = some answer ∧
      (answer = .ok () ↔ s.everConnected = true ∨ ∃ a ∈ as, a.Established cfg world P) := by
  generalize hd : (false, s') = d at h
  induction h with
  | running s => cases hd
  | returned he =>
    cases hd
    simpa using he.ready hs
  | last hw he ho =>
    cases hd
    obtain ⟨answer, hr, ha⟩ := he.ready (hw.ready hs)
    refine ⟨answer, hr, ha.trans ?_⟩
    rw [hw.everConnected, Bool.or_eq_true, established_iff]
    simp
  | next hw hwait hne h ih =>
    have hs' := hw.ready hs
    rw [Sound, ← hwait.ready, ← hwait.everConnected] at hs'
    obtain ⟨answer, hr, ha⟩ := ih hs' hd
    refine ⟨answer, hr, ha.trans ?_⟩
    rw [hwait.everConnected, hw.everConnected, Bool.or_eq_true, established_iff]
    simp [or_assoc]

theorem closed_not_mem_eventsOf (everConnected : Bool) (xs : List SessionResult) :
    .closed ∉ eventsOf everConnected xs := by
  induction xs generalizing everConnected with
  | nil => exact List.not_mem_nil
  | cons x xs ih =>
    rw [eventsOf, List.mem_append, not_or]
    refine ⟨?_, ih _⟩
    obtain ⟨outcome, cmdRx, connectedFor⟩ := x
    cases outcome <;> cases everConnected <;> cases connectedFor <;>
      simp [SessionResult.events, SessionResult.connectedEvents, SessionResult.established,
        SessionOutcome.closedEvents]

variable (cfg world P)

/-- The supervisor task as a life. -/
theorem runSupervisor_life (setup : Except Error Unit) (rounds : List (Round C σ)) (handler : η)
    (shared : SharedState σ) : ∃ out, Life cfg world P (start handler shared)
      (runAttempts cfg world P setup rounds handler shared) out
      (runSupervisor cfg world P setup rounds handler shared) := by
  cases setup with
  | error e => exact ⟨false, .returned (finish_ended (some e) _)⟩
  | ok _ => exact ⟨_, loop_life cfg world P rounds _⟩

/-- When the supervisor returns, the last event is `closed`, delivered once; the
state is `closed`; and `ready` is answered, with `ok` if and only if the
handshake of some session was completed. -/
theorem supervisor_ends {setup : Except Error Unit} {rounds : List (Round C σ)} {handler : η}
    {shared : SharedState σ} {s : Supervisor η σ}
    (h : runSupervisor cfg world P setup rounds handler shared = (false, s)) :
    (∃ before, s.events = before ++ [.closed] ∧ .closed ∉ before) ∧ s.state = .closed ∧
      ∃ answer, s.ready = some answer ∧
        (answer = .ok () ↔ ∃ a ∈ runAttempts cfg world P setup rounds handler shared, a.Established cfg world P) := by
  obtain ⟨out, hl⟩ := runSupervisor_life cfg world P setup rounds handler shared
  rw [h] at hl
  refine ⟨⟨_, hl.events, ?_⟩, hl.closed, ?_⟩
  · exact closed_not_mem_eventsOf _ _
  · obtain ⟨answer, hr, ha⟩ := hl.ready rfl
    refine ⟨answer, hr, ha.trans ?_⟩
    exact or_iff_right Bool.false_ne_true

/-- The first key exchange is answered with a close frame. -/
theorem supervisor_ends_refused :
    ∃ s, runSupervisor sampleConfig sampleWorld .rejecting (.ok ()) [closedRound [0x03, 0xE9]] ()
        ⟨TokenRace.sampleToken, none⟩ = (false, s) ∧
      (∃ before, s.events = before ++ [.closed] ∧ .closed ∉ before) ∧ s.state = .closed ∧
      ∃ answer, s.ready = some answer ∧ (answer = .ok () ↔
        ∃ a ∈ runAttempts sampleConfig sampleWorld .rejecting (.ok ()) [closedRound [0x03, 0xE9]] ()
          ⟨TokenRace.sampleToken, none⟩, a.Established sampleConfig sampleWorld .rejecting) :=
  ⟨_, rfl, supervisor_ends _ _ _ rfl⟩

end Supervisor

end Lox
