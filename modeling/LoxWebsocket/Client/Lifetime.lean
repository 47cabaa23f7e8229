import Mathlib.Data.List.Forall2
import LoxWebsocket.Client.Session
import LoxWebsocket.Client.Refresh
import LoxWebsocket.Client.Supervisor

/-!
# The sessions of a client

The command channel outlives the sessions: the writer of one hands its receiver
back, and the writer of the next goes on with what the channel holds. A step of
`Lifetime` is one of the supervisor (connecting, the end of a session), of a
caller (who is first asked whether a session is live, then waits for room), of
a refresher, or of the running session (`Session.step`). `origins` says for
which session each request in the channel was made.

The writer prefers the `Shutdown` of its own channel to the commands, so what
is left then is for the next session (`stale_requests`). If nothing is, and
nobody is late with a request for an earlier session, a writer takes only
requests made for its own session (`session_isolation`).
-/

namespace Lox

/-- The requests that are made for one session: the controls that are refused
between sessions, and the refresher's way to end its own. -/
def IoCommand.bound : IoCommand → Bool
  | .control _ _ | .visuControl _ _ _ | .dropSession => true
  | .encrypted _ _ | .stop => false

def IoCommand.isControl : IoCommand → Bool
  | .control _ _ | .visuControl _ _ _ => true
  | _ => false

/-- Where the supervisor is. -/
inductive Stage
  /-- Between two attempts. -/
  | idle
  | attempting
  | running
  /-- The reader has returned; the refresher is aborted; the writer is told to
  stop and joined. -/
  | ended
  | aborted
  | joining
  /-- The writer did not end in time and goes on by itself. -/
  | lost
  | over
  deriving DecidableEq

/-- Whether there is a writer. -/
def Stage.hasWriter : Stage → Bool
  | .running | .ended | .aborted | .joining | .lost => true
  | .idle | .attempting | .over => false

/-- A refresher task, with its session. -/
structure Refresher where
  session : Nat
  pc : RefresherPc
  aborted : Bool
  deriving DecidableEq

/-- A command that the writer of `session` took from the channel. -/
structure Served where
  session : Nat
  command : IoCommand
  origin : Option Nat
  deriving DecidableEq

structure Lifetime (C : Crates) (σ : Type) where
  /-- The session that runs, or ran last, with the command channel. -/
  session : Session σ
  keys : SessionKeys C
  /-- Its number; the sessions are counted from one. -/
  number : Nat
  stage : Stage
  state : ConnState
  stopped : Bool
  /-- For each command in the channel, the session it was made for. -/
  origins : List (Option Nat)
  /-- The callers that have found a session live and whose control is not yet
  in the channel. -/
  callers : List (Nat × IoCommand)
  refreshers : List Refresher
  served : List Served

/-- The steps of a session in which the command channel has no part. -/
def Session.Label.inner : Session.Label → Bool
  | .sendCommand _ | .enqueue _ | .takeCommand _ | .shutdown => false
  | _ => true

namespace Lifetime

variable {C : Crates} {σ : Type}

/-- A client before its first attempt. -/
def start (keys : SessionKeys C) (shared : SharedState σ) : Lifetime C σ where
  session := { Session.init SaltState.new Pos.start shared with pc := .done }
  keys := keys
  number := 0
  stage := .idle
  state := .closed
  stopped := false
  origins := []
  callers := []
  refreshers := []
  served := []

inductive Label (C : Crates) (σ : Type)
  -- the supervisor
  | attempt
  | attemptFailed
  | connect (keys : SessionKeys C) (salt : SaltState) (pos : Pos) (shared : SharedState σ)
  | readerReturned
  | abortRefresher
  | shutdown
  | joined
  | joinFailed
  | finish
  -- the callers
  | requireLive (c : IoCommand)
  | send (i : Nat)
  | giveUp (i : Nat)
  | sendCommand (cmd : Str)
  | stop
  | sendStop
  -- the refreshers
  | refreshed (i : Nat) (result : Except Error Bool)
  | drop (i : Nat)
  | cancelled (i : Nat)
  -- the session
  | take (now : Instant)
  | session (l : Session.Label)

variable [TokenStore σ] (world : World) (cfg : WriterConfig) (P : Parsers) (depth : Nat)

/-- A request enters the channel, if there is room. -/
def enqueue (c : IoCommand) (origin : Option Nat) (s : Lifetime C σ) : Option (Lifetime C σ) :=
  if s.stage ≠ .over ∧ s.session.commands.length < depth then
    some { s with
      session := { s.session with commands := s.session.commands ++ [c] }, origins := s.origins ++ [origin] }
  else none

/-- A new session takes over the command channel. -/
def connected (keys : SessionKeys C) (salt : SaltState) (pos : Pos) (shared : SharedState σ)
    (s : Lifetime C σ) : Lifetime C σ :=
  { s with
    stage := .running, state := .connected, keys, number := s.number + 1
    session := { Session.init salt pos shared with commands := s.session.commands, waiters := s.session.waiters }
    refreshers := s.refreshers ++ [⟨s.number + 1, .refreshing 0, false⟩] }

/-- `abort` takes effect when the task next waits: until then it goes on. -/
def abortRefresher (s : Lifetime C σ) : Lifetime C σ :=
  { s with
    stage := .aborted
    refreshers := s.refreshers.map fun r => if r.session = s.number then { r with aborted := true } else r }

def step (s : Lifetime C σ) : Label C σ → Option (Lifetime C σ)
  | .attempt =>
    if s.stage = .idle ∧ s.stopped = false then
      some { s with stage := .attempting, state := if s.number = 0 then .connecting else .reconnecting }
    else none
  | .attemptFailed => if s.stage = .attempting then some { s with stage := .idle } else none
  | .connect keys salt pos shared =>
    if s.stage = .attempting then some (s.connected keys salt pos shared) else none
  | .readerReturned =>
    if s.stage = .running then
      some { s with stage := .ended, state := if s.stopped then s.state else .reconnecting }
    else none
  | .abortRefresher => if s.stage = .ended then some s.abortRefresher else none
  | .shutdown =>
    if s.stage = .aborted then
      some { s with stage := .joining, session := { s.session with out := s.session.out ++ [.shutdown] } }
    else none
  | .joined => if s.stage = .joining ∧ s.session.pc.isDone then some { s with stage := .idle } else none
  | .joinFailed => if s.stage = .joining then some { s with stage := .lost } else none
  | .finish =>
    match s.stage with
    | .idle => some { s with stage := .over, state := .closed }
    | .lost => some { s with state := .closed }
    | _ => none
  | .requireLive c =>
    if s.state = .connected ∧ c.isControl then some { s with callers := s.callers ++ [(s.number, c)] } else none
  | .send i => do
    let (k, c) ← s.callers[i]?
    enqueue depth c (some k) { s with callers := s.callers.eraseIdx i }
  | .giveUp i => some { s with callers := s.callers.eraseIdx i }
  | .sendCommand cmd =>
    let s' := { s with session := { s.session with waiters := s.session.waiters ++ [cmd] } }
    enqueue depth (.encrypted cmd s.session.waiters.length) none s'
  | .stop => some { s with stopped := true }
  | .sendStop => if s.stopped then enqueue depth .stop none s else none
  | .refreshed i result => do
    let r ← s.refreshers[i]?
    match r.pc with
    | .refreshing failures =>
      some { s with refreshers := s.refreshers.set i { r with pc := afterRefresh failures result } }
    | _ => none
  | .drop i => do
    let r ← s.refreshers[i]?
    if r.pc = .dropping then
      enqueue depth .dropSession (some r.session)
        { s with refreshers := s.refreshers.set i { r with pc := .returned } }
    else none
  | .cancelled i => do
    let r ← s.refreshers[i]?
    if r.aborted then some { s with refreshers := s.refreshers.set i { r with pc := .returned } } else none
  | .take now =>
    match s.session.commands, s.origins with
    | c :: _, o :: origins =>
      if s.stage.hasWriter then do
        let session ← Session.step ⟨world, s.keys, cfg⟩ P s.session (.takeCommand now)
        return { s with
          session, origins
          stopped := s.stopped || c = .stop
          served := s.served ++ [⟨s.number, c, o⟩] }
      else none
    | _, _ => none
  | .session l =>
    if l.inner ∧ s.stage.hasWriter then do
      let session ← Session.step ⟨world, s.keys, cfg⟩ P s.session l
      return { s with session }
    else none

/-- When a session takes over the channel, no request made for an earlier one
is in it; and none enters later. -/
def CleanHandover (s : Lifetime C σ) : Label C σ → Prop
  | .connect _ _ _ _ => ∀ o ∈ s.origins, o = none
  | .send i => ∀ x, s.callers[i]? = some x → x.1 = s.number
  | .drop i => ∀ r, s.refreshers[i]? = some r → r.session = s.number
  | _ => True

end Lifetime

/-! ## The channel in a session -/

namespace Session

variable {C : Crates} {σ : Type} [TokenStore σ] {env : WriterEnv C} {P : Parsers} {s s' : Session σ}

theorem commands_request (now : Instant) (kill : KillStep) (cmd : Str) (s : Session σ) :
    (request env now kill cmd s).commands = s.commands := by
  unfold request
  simp only
  split <;> rfl

theorem step_commands {l : Label} (hl : l.inner = true) (h : step env P s l = some s') :
    s'.commands = s.commands := by
  cases l with
  | sendCommand cmd => cases hl
  | enqueue c => cases hl
  | takeCommand now => cases hl
  | shutdown => cases hl
  | answered now =>
    simp only [step] at h
    split at h
    · obtain ⟨payload, -, rfl⟩ := Option.map_eq_some_iff.mp h
      split
      · split
        · exact commands_request _ _ _ _
        · rfl
      · rfl
    · cases h
  | gracefulClose now =>
    simp only [step] at h
    split at h
    · split at h
      · split at h
        · cases h; rfl
        · cases h; exact commands_request _ _ _ _
      · cases h; rfl
    · cases h
  | _ =>
    simp only [step] at h
    repeat' split at h
    all_goals cases h
    all_goals rfl

theorem takeCommand_commands {now : Instant} (h : step env P s (.takeCommand now) = some s') :
    s'.commands = s.commands.tail := by
  simp only [step] at h
  split at h
  · rename_i hc
    cases h
    rw [hc]
    rfl
  · cases h

end Session

/-! ## Isolation -/

namespace Lifetime

variable {C : Crates} {σ : Type}

/-- The origin a request has when it is made for the session at hand. -/
def Own (number : Nat) (c : IoCommand) (o : Option Nat) : Prop := o = if c.bound then some number else none

/-- What is in the channel was made for the session at hand, and so was all that
has been served for the session that served it. -/
structure Inv (s : Lifetime C σ) : Prop where
  own : List.Forall₂ (Own s.number) s.session.commands s.origins
  callers : ∀ x ∈ s.callers, x.2.bound = true
  served : ∀ r ∈ s.served, r.command.bound = true → r.origin = some r.session

theorem inv_start (keys : SessionKeys C) (shared : SharedState σ) : (start keys shared).Inv :=
  ⟨.nil, by simp [start], by simp [start]⟩

/-- The rest of the state has no part in it. -/
theorem Inv.congr {s s' : Lifetime C σ} (h : s.Inv) (hn : s'.number = s.number)
    (hc : s'.session.commands = s.session.commands) (ho : s'.origins = s.origins)
    (hcallers : ∀ x ∈ s'.callers, x ∈ s.callers) (hs : s'.served = s.served) : s'.Inv :=
  ⟨by rw [hn, hc, ho]; exact h.own, fun x hx => h.callers x (hcallers x hx), by rw [hs]; exact h.served⟩

theorem Inv.enqueue {s s' : Lifetime C σ} (h : s.Inv) {depth : Nat} {c : IoCommand} {o : Option Nat}
    (ho : Own s.number c o) (he : enqueue depth c o s = some s') : s'.Inv := by
  unfold Lifetime.enqueue at he
  split at he
  · cases he
    exact ⟨List.rel_append h.own (.cons ho .nil), h.callers, h.served⟩
  · cases he

/-- A channel in which nothing is made for any session. -/
theorem Own.next {number : Nat} {commands : List IoCommand} {origins : List (Option Nat)}
    (h : List.Forall₂ (Own number) commands origins) (hnone : ∀ o ∈ origins, o = none) (n : Nat) :
    List.Forall₂ (Own n) commands origins := by
  induction h with
  | nil => exact .nil
  | @cons c o commands origins hc _ ih =>
    refine .cons ?_ (ih fun o ho => hnone o (.tail _ ho))
    have ho : o = none := hnone o (.head _)
    have hb : c.bound = false := by
      cases hb : c.bound with
      | false => rfl
      | true => simp [Own, ho, hb] at hc
    rw [Own, ho, hb]
    rfl

theorem bound_of_isControl {c : IoCommand} (h : c.isControl = true) : c.bound = true := by
  cases c with
  | control uuid value => rfl
  | visuControl uuid value visuPw => rfl
  | _ => cases h

variable [TokenStore σ] {world : World} {cfg : WriterConfig} {P : Parsers} {depth : Nat}

theorem Inv.take {s s' : Lifetime C σ} {now : Instant} (h : s.Inv)
    (hs : step world cfg P depth s (.take now) = some s') : s'.Inv := by
  simp only [step] at hs
  split at hs
  · rename_i c commands o origins hc ho
    split at hs
    · obtain ⟨session, hstep, hs⟩ := Option.bind_eq_some_iff.mp hs
      cases hs
      have htail := Session.takeCommand_commands hstep
      have hown := h.own
      rw [hc, ho] at hown
      obtain ⟨hhead, hown⟩ := List.forall₂_cons.mp hown
      refine ⟨?_, h.callers, ?_⟩
      · rw [htail, hc]
        exact hown
      · intro r hr hb
        rcases List.mem_append.mp hr with hr | hr
        · exact h.served r hr hb
        · cases List.mem_singleton.mp hr
          rw [hhead, if_pos hb]
    · cases hs
  · cases hs

theorem Inv.step {s s' : Lifetime C σ} {l : Label C σ} (hc : CleanHandover s l) (h : s.Inv)
    (hs : step world cfg P depth s l = some s') : s'.Inv := by
  cases l with
  | take now => exact h.take hs
  | connect keys salt pos shared =>
    simp only [Lifetime.step] at hs
    split at hs
    · cases hs
      exact ⟨Own.next h.own hc _, h.callers, h.served⟩
    · cases hs
  | send i =>
    obtain ⟨⟨k, c⟩, hi, he⟩ := Option.bind_eq_some_iff.mp hs
    have hk : k = s.number := hc _ hi
    have hb : c.bound = true := h.callers _ (List.mem_of_getElem? hi)
    have h' : Inv { s with callers := s.callers.eraseIdx i } :=
      h.congr rfl rfl rfl (fun x hx => List.mem_of_mem_eraseIdx hx) rfl
    exact h'.enqueue (by rw [Own, hb, hk]; rfl) he
  | drop i =>
    obtain ⟨r, hi, he⟩ := Option.bind_eq_some_iff.mp hs
    have hk : r.session = s.number := hc _ hi
    split at he
    · have h' : Inv { s with refreshers := s.refreshers.set i { r with pc := .returned } } :=
        h.congr rfl rfl rfl (fun x hx => hx) rfl
      exact h'.enqueue (by rw [hk]; rfl) he
    · cases he
  | sendCommand cmd =>
    refine Inv.enqueue (s := { s with session := { s.session with waiters := s.session.waiters ++ [cmd] } })
      ?_ ?_ hs
    · exact h.congr rfl rfl rfl (fun x hx => hx) rfl
    · rfl
  | sendStop =>
    simp only [Lifetime.step] at hs
    split at hs
    · exact h.enqueue rfl hs
    · cases hs
  | requireLive c =>
    simp only [Lifetime.step] at hs
    split at hs
    · rename_i hl
      cases hs
      refine ⟨h.own, fun x hx => ?_, h.served⟩
      rcases List.mem_append.mp hx with hx | hx
      · exact h.callers x hx
      · cases List.mem_singleton.mp hx
        exact bound_of_isControl hl.2
    · cases hs
  | giveUp i =>
    cases hs
    exact h.congr rfl rfl rfl (fun x hx => List.mem_of_mem_eraseIdx hx) rfl
  | session l =>
    simp only [Lifetime.step] at hs
    split at hs
    · rename_i hl
      obtain ⟨session, hstep, hs⟩ := Option.bind_eq_some_iff.mp hs
      cases hs
      exact h.congr rfl (Session.step_commands hl.1 hstep) rfl (fun x hx => hx) rfl
    · cases hs
  | refreshed i result =>
    obtain ⟨r, hi, he⟩ := Option.bind_eq_some_iff.mp hs
    split at he
    · cases he
      exact h.congr rfl rfl rfl (fun x hx => hx) rfl
    · cases he
  | cancelled i =>
    obtain ⟨r, hi, he⟩ := Option.bind_eq_some_iff.mp hs
    split at he
    · cases he
      exact h.congr rfl rfl rfl (fun x hx => hx) rfl
    · cases he
  | _ =>
    simp only [Lifetime.step] at hs
    repeat' split at hs
    all_goals cases hs
    all_goals exact h.congr rfl rfl rfl (fun x hx => hx) rfl

/-- If every session takes over a channel that is clean of requests made for
earlier ones, and none of these is late, a writer takes only requests that were
made for its own session. -/
theorem session_isolation {keys : SessionKeys C} {shared : SharedState σ} {ls : List (Label C σ)}
    {s : Lifetime C σ} (hc : Along (step world cfg P depth) CleanHandover (start keys shared) ls)
    (h : run (step world cfg P depth) (start keys shared) ls = some s) :
    ∀ r ∈ s.served, r.command.bound = true → r.origin = some r.session :=
  (run_inv_along (fun hc hs h => Inv.step hc hs h) hc (inv_start keys shared) h).served

def sampleWriter : WriterConfig := ⟨"admin".toList, 30, 3, 64, true⟩

def firstSession : List (Label sampleCrates (Option LxToken)) :=
  [.attempt, .connect sampleKeys SaltState.new Pos.start TokenRace.sampleMemory]

/-- The refresher of the first session gives up on the token. -/
def givesUp : List (Label sampleCrates (Option LxToken)) :=
  let failed := .refreshed 0 (.error (.timeout "getkey".toList))
  [failed, failed, failed, .drop 0]

/-- The first session is over, and the second starts. -/
def reconnected : List (Label sampleCrates (Option LxToken)) :=
  [.session .finish, .joined, .attempt, .connect sampleKeys SaltState.new Pos.start TokenRace.sampleMemory]

/-- The first writer takes the refresher's request. -/
def droppedInTime : List (Label sampleCrates (Option LxToken)) :=
  firstSession ++ givesUp ++ [.take 0, .readerReturned, .abortRefresher, .shutdown] ++ reconnected

theorem session_isolation_dropped :
    ∃ s, run (step sampleWorld sampleWriter Parsers.rejecting 32) (start sampleKeys TokenRace.sampleMemory)
        droppedInTime = some s ∧
      s.number = 2 ∧ s.served = [⟨1, .dropSession, some 1⟩] ∧
      ∀ r ∈ s.served, r.command.bound = true → r.origin = some r.session := by
  have hc : Along (step sampleWorld sampleWriter Parsers.rejecting 32) CleanHandover
      (start sampleKeys TokenRace.sampleMemory) droppedInTime := by
    refine .cons trivial rfl (.cons (fun o ho => by cases ho) rfl ?_)
    refine .cons trivial rfl (.cons trivial rfl (.cons trivial rfl (.cons ?_ rfl ?_)))
    · intro r hr
      cases hr
      rfl
    refine .cons trivial rfl (.cons trivial rfl (.cons trivial rfl (.cons trivial rfl ?_)))
    exact .cons trivial rfl (.cons trivial rfl (.cons trivial rfl (.cons (fun o ho => by cases ho) rfl trivial)))
  exact ⟨_, rfl, rfl, rfl, session_isolation hc rfl⟩

def lightOn : IoCommand := .control "0f1e2d3c-01a4-2b11-ffff403fb0c34b9e".toList "On".toList

/-- A control and the refresher's request are in the channel when the reader
returns; the first writer takes the `Shutdown`, the second takes them. -/
def leftBehind : List (Label sampleCrates (Option LxToken)) :=
  firstSession ++ [.requireLive lightOn, .send 0] ++ givesUp ++
    [.readerReturned, .abortRefresher, .shutdown, .session (.takeOut 0)] ++ reconnected

def secondSession : List (Label sampleCrates (Option LxToken)) :=
  [.take 0, .session .written, .session (.expire 0), .take 0]

/-- The second session takes over the channel. -/
def takenOver : Lifetime sampleCrates (Option LxToken) where
  session := { Session.init SaltState.new Pos.start TokenRace.sampleMemory with
    commands := [lightOn, .dropSession] }
  keys := sampleKeys
  number := 2
  stage := .running
  state := .connected
  stopped := false
  origins := [some 1, some 1]
  callers := []
  refreshers := [⟨1, .returned, true⟩, ⟨2, .refreshing 0, false⟩]
  served := []

theorem leftBehind_run :
    run (step sampleWorld sampleWriter Parsers.rejecting 32) (start sampleKeys TokenRace.sampleMemory)
      leftBehind = some takenOver := rfl

/-- The stale control is written on the second session, and the stale request
of the first session's refresher ends it. -/
theorem stale_requests :
    ∃ s, run (step sampleWorld sampleWriter Parsers.rejecting 32) (start sampleKeys TokenRace.sampleMemory)
        (leftBehind ++ secondSession) = some s ∧
      s.number = 2 ∧ s.served = [⟨2, lightOn, some 1⟩, ⟨2, .dropSession, some 1⟩] ∧
      s.session.writer.pushed.map PendingEntry.plaintextCmd =
        ["jdev/sps/io/0f1e2d3c-01a4-2b11-ffff403fb0c34b9e/On".toList] ∧
      s.session.received = s.session.writer.pushed.map PendingEntry.wireCmd ∧
      s.session.pc = .finish ∧
      ¬ ∀ r ∈ s.served, r.command.bound = true → r.origin = some r.session := by
  obtain ⟨text, salt, pos, -, hprep⟩ := Writer.prepareCommand_total ⟨sampleWorld, sampleKeys, sampleWriter⟩ 0
    sampleCrates_lawful.toTotal "jdev/sps/io/0f1e2d3c-01a4-2b11-ffff403fb0c34b9e/On".toList none
    takenOver.session.writer
  have htake : step sampleWorld sampleWriter Parsers.rejecting 32 takenOver (.take 0) = some { takenOver with
      session := Session.decided { takenOver.session with commands := [.dropSession] }
        (Writer.prepareCommand ⟨sampleWorld, sampleKeys, sampleWriter⟩ 0
          "jdev/sps/io/0f1e2d3c-01a4-2b11-ffff403fb0c34b9e/On".toList none takenOver.session.writer)
      origins := [some 1], served := [⟨2, lightOn, some 1⟩] } := rfl
  rw [hprep] at htake
  refine ⟨_, run_append leftBehind_run (run_cons.mpr ⟨_, htake, rfl⟩), rfl, rfl, rfl, rfl, rfl, ?_⟩
  intro h
  cases h ⟨2, lightOn, some 1⟩ (.head _) rfl

end Lifetime

end Lox
