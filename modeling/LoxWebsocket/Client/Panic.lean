import LoxWebsocket.Client.Lifecycle

/-!
# A handler that panics

`Told` says of a guard that it has seen every callback that unwound: after one
there are lifecycle events only, and the guard knows. Every callback of a session
and every lifecycle event keeps it, so the whole run does (`attempts_heard`).

So from the first callback that unwinds on, no other callback than `onEvent` is
made, no session is started, the supervisor returns before the next one, and what
it does last with the handler is to announce `closed` (`panic_ends_client`).
-/

namespace Lox

section

variable {η : Type} [LoxHandler η]

/-- The handler after callbacks. -/
def LoxHandler.replay (handler : η) (calls : List Call) : η :=
  calls.foldl (fun h c => (LoxHandler.call h c).2) handler

/-- After the callbacks `before`, the callback `c` unwinds. -/
def LoxHandler.Unwinds (handler : η) (before : List Call) (c : Call) : Prop :=
  (LoxHandler.call (replay handler before) c).1 = true

open LoxHandler

/-- A callback that unwound is known, and only lifecycle events follow it. -/
def Known (handler : η) (calls : List Call) (panicked : Bool) : Prop :=
  ∀ before c after, calls = before ++ c :: after → Unwinds handler before c →
    panicked = true ∧ ∀ d ∈ after, ∃ event, d = .onEvent event

/-- One more callback: it is a lifecycle event if one before it unwound. -/
theorem Known.concat {handler : η} {calls : List Call} {panicked panicked' : Bool} {c : Call}
    (h : Known handler calls panicked) (hc : Unwinds handler calls c → panicked' = true)
    (hlater : panicked = true → panicked' = true ∧ ∃ event, c = .onEvent event) :
    Known handler (calls ++ [c]) panicked' := by
  intro before d after hsplit hd
  rcases List.eq_nil_or_concat after with rfl | ⟨after, e, rfl⟩
  · obtain ⟨rfl, hcd⟩ := List.append_inj' hsplit rfl
    cases hcd
    exact ⟨hc hd, List.forall_mem_nil _⟩
  · rw [List.concat_eq_append, ← List.cons_append, ← List.append_assoc] at hsplit
    obtain ⟨hcalls, he⟩ := List.append_inj' hsplit rfl
    cases he
    obtain ⟨hpanicked, hevents⟩ := h before d after hcalls hd
    obtain ⟨hpanicked', hevent⟩ := hlater hpanicked
    refine ⟨hpanicked', ?_⟩
    rw [List.concat_eq_append, List.forall_mem_append, List.forall_mem_singleton]
    exact ⟨hevents, hevent⟩

/-- Callbacks of which none unwound, at the front of a run in which one did. -/
theorem Known.prefix_before {handler : η} {calls before after : List Call} {c : Call} (h : Known handler calls false)
    (hinit : calls <+: before ++ c :: after) (hc : Unwinds handler before c) : calls <+: before := by
  have hfront : before ++ [c] <+: before ++ c :: after := ⟨after, by simp⟩
  have hnot (later : List Call) : calls ≠ before ++ c :: later := fun hcalls =>
    absurd (h before c later hcalls hc).1 Bool.false_ne_true
  rcases List.prefix_or_prefix_of_prefix hinit hfront with hle | ⟨later, hlater⟩
  · rcases List.prefix_concat_iff.mp hle with heq | hle
    · exact absurd heq (hnot [])
    · exact hle
  · rw [List.append_assoc] at hlater
    exact absurd hlater.symm (hnot later)

/-- The handler is the one the callbacks have made of `handler`, and what unwound
is known. -/
structure Told (handler : η) (h : Handled η) (panicked : Bool) : Prop where
  replays : h.handler = replay handler h.calls
  known : Known handler h.calls panicked

/-- Callbacks of a guard that has not seen one unwind, up to one that does. -/
def Reports (handler : η) {ρ : Type} (f : Handled η → Option ρ × Handled η) : Prop :=
  ∀ h, h.calls <+: (f h).2.calls ∧ (Told handler h false → Told handler (f h).2 (f h).1.isNone)

/-! ## Callbacks -/

variable (handler : η)

theorem call_told {h : Handled η} {panicked panicked' : Bool} (htold : Told handler h panicked) (c : Call)
    (hc : (h.call c).1 = none → panicked' = true)
    (hlater : panicked = true → panicked' = true ∧ ∃ event, c = .onEvent event) :
    Told handler (h.call c).2 panicked' := by
  obtain ⟨hreplays, hknown⟩ := htold
  have hcalled : (h.call c).2 = { h with handler := (LoxHandler.call h.handler c).2, calls := h.calls ++ [c] } := rfl
  have hresult : (h.call c).1 = if (LoxHandler.call h.handler c).1 then none else some () := rfl
  rw [hcalled]
  refine ⟨?_, hknown.concat (fun hu => hc ?_) hlater⟩
  · rw [hreplays]
    simp only [replay, List.foldl_append, List.foldl_cons, List.foldl_nil]
  · rw [hresult, hreplays]
    exact if_pos hu

theorem call_reports (c : Call) : Reports handler (Handled.call (η := η) c) := by
  intro h
  refine ⟨List.prefix_append _ _, fun htold => call_told handler htold c (fun hc => ?_) (fun hp => by cases hp)⟩
  rw [hc]
  rfl

theorem callAll_reports (cs : List Call) : Reports handler (Handled.callAll (η := η) cs) := by
  induction cs with
  | nil => exact fun h => ⟨List.prefix_refl _, id⟩
  | cons c cs ih =>
    intro h
    obtain ⟨hgrows, htold⟩ := call_reports handler c h
    rw [Handled.callAll]
    rcases hc : h.call c with ⟨_ | _, h₁⟩
    · rw [hc] at hgrows htold
      exact ⟨hgrows, htold⟩
    · rw [hc] at hgrows htold
      obtain ⟨hgrows', htold'⟩ := ih h₁
      exact ⟨hgrows.trans hgrows', fun h => htold' (htold h)⟩

theorem rawThenEvent_reports (msgType : UInt8) (payload : Bytes) :
    Reports handler (rawThenEvent (η := η) msgType payload) := by
  intro h
  obtain ⟨hgrows, htold⟩ := call_reports handler (.onRawPayload msgType payload) h
  rw [rawThenEvent]
  rcases hc : h.call (.onRawPayload msgType payload) with ⟨_ | _, h₁⟩
  · rw [hc] at hgrows htold
    exact ⟨hgrows, htold⟩
  rw [hc] at hgrows htold
  simp only [dispatchEvent]
  split
  · exact ⟨hgrows, fun h => ⟨(htold h).replays, (htold h).known⟩⟩
  · rename_i calls hcalls
    obtain ⟨hgrows', htold'⟩ := callAll_reports handler calls
      { h₁ with dispatched := h₁.dispatched ++ [(msgType, payload)] }
    rcases hall : Handled.callAll calls { h₁ with dispatched := h₁.dispatched ++ [(msgType, payload)] } with ⟨_ | _, h₂⟩
    all_goals
      rw [hall] at hgrows' htold'
      exact ⟨hgrows.trans hgrows', fun h => htold' ⟨(htold h).replays, (htold h).known⟩⟩

/-! ## The guard -/

/-- More callbacks have been made, and a guard that knew what unwound still does. -/
def Heard (g g' : HandlerGuard η) : Prop :=
  g.calls <+: g'.calls ∧ (Told handler g.toHandled g.panicked → Told handler g'.toHandled g'.panicked)

instance : IsPreorder (HandlerGuard η) (Heard handler) where
  refl _ := ⟨List.prefix_refl _, id⟩
  trans _ _ _ h h' := ⟨h.1.trans h'.1, fun ht => h'.2 (h.2 ht)⟩

theorem guardOrFail_heard {ρ : Type} {f : Handled η → Option ρ × Handled η} (hf : Reports handler f)
    (g : HandlerGuard η) : Heard handler g (g.guardOrFail f).2 := by
  obtain ⟨hgrows, htold⟩ := hf g.toHandled
  unfold HandlerGuard.guardOrFail HandlerGuard.guard
  cases hp : g.panicked with
  | true => exact refl_of (Heard handler) g
  | false =>
    rcases heq : f g.toHandled with ⟨_ | _, h'⟩
    all_goals
      rw [heq] at hgrows htold
      refine ⟨hgrows, fun ht => htold ?_⟩
      rw [hp] at ht
      exact ht

theorem lifecycle_heard (g : HandlerGuard η) (event : ClientEvent) : Heard handler g (g.lifecycle event) := by
  refine ⟨?_, fun htold => ?_⟩
  · rw [HandlerGuard.calls_lifecycle]
    exact List.prefix_append _ _
  · have hcall {panicked' : Bool} := @call_told η _ handler _ _ panicked' htold (.onEvent event)
    unfold HandlerGuard.lifecycle
    rcases heq : g.toHandled.call (.onEvent event) with ⟨_ | _, h'⟩
    · rw [heq] at hcall
      exact hcall (fun _ => rfl) fun _ => ⟨rfl, event, rfl⟩
    · rw [heq] at hcall
      exact hcall (fun hc => by cases hc) fun hp => ⟨hp, event, rfl⟩

theorem lent_heard : HandlerGuard.Lent (Heard handler) where
  call c _ g := guardOrFail_heard handler (call_reports handler c) g
  event msgType payload g := guardOrFail_heard handler (rawThenEvent_reports handler msgType payload) g

end

namespace Supervisor

variable {C : Crates} {η σ : Type} [LoxHandler η] [TokenStore σ] (handler : η) (cfg : ConnectConfig) (world : World)
  (P : Parsers)

/-! ## A round -/

theorem sessionOnce_heard (w : SessionWorld C σ) (s : Supervisor η σ) :
    Heard handler s.handler (sessionOnce cfg world P w s).2.handler := by
  unfold sessionOnce
  split
  · exact refl_of (Heard handler) _
  have hall := Handshake.all_between (σ := σ) (lent_heard handler) ⟨world, P, w.keys, cfg⟩ w.sessionB64
    (s.handshakeState w)
  rcases hrun : Handshake.all ⟨world, P, w.keys, cfg⟩ w.sessionB64 (s.handshakeState w) with ⟨_ | _, hs⟩
  · rw [hrun] at hall
    exact hall
  · rw [hrun] at hall
    have hread := Reader.run_between w.keys P (lent_heard handler) (readerEvents w.seen hs.reads)
      ⟨.start, (s.connected w hs).handler, w.seen 0, [], []⟩
    exact trans_of (Heard handler) hall (trans_of (Heard handler) (lifecycle_heard handler _ _) hread)

theorem onOutcome_heard (outcome : SessionOutcome) (s : Supervisor η σ) :
    Heard handler s.handler (onOutcome outcome s).2.handler := by
  have hfinish (s₁ : Supervisor η σ) (error : Option Error) : Heard handler s₁.handler (s₁.finish error).handler :=
    lifecycle_heard handler s₁.handler .closed
  cases outcome with
  | stopped => exact hfinish s _
  | failed e =>
    rw [onOutcome]
    split_ifs
    · exact hfinish s _
    · exact hfinish s _
    · exact refl_of (Heard handler) _
    · exact refl_of (Heard handler) _
  | disconnected closeCode =>
    have hclosed := lifecycle_heard handler s.handler (.connectionClosed closeCode)
    let s₁ : Supervisor η σ := { s with handler := s.handler.lifecycle (.connectionClosed closeCode) }
    let s₂ : Supervisor η σ := if tokenSurvivesClose closeCode then s₁
      else { s₁ with shared := s₁.shared.clearToken }
    have hsame : s₂.handler = s₁.handler := by
      simp only [s₂]
      split_ifs
      · rfl
      · rfl
    rw [onOutcome]
    dsimp only
    split
    · refine trans_of (Heard handler) ?_ (hfinish s₂ _)
      rw [hsame]
      exact hclosed
    · change Heard handler s.handler s₂.handler
      rw [hsame]
      exact hclosed

omit [TokenStore σ] in
theorem waitReconnect_heard (stopped : Bool) (backoff : Backoff) (s : Supervisor η σ) :
    Heard handler s.handler (waitReconnect cfg stopped backoff s).2.handler := by
  rcases waitReconnect_cases cfg stopped backoff s with ⟨-, h⟩ | ⟨-, -, h⟩ | ⟨-, -, h⟩
  all_goals rw [h]
  · exact lifecycle_heard handler s.handler .closed
  · exact lifecycle_heard handler s.handler .closed
  · exact refl_of (Heard handler) _

theorem react_heard (stopped : Bool) (outcome : SessionOutcome) (s : Supervisor η σ) :
    Heard handler s.handler (react cfg stopped outcome s).2.handler := by
  have hout := onOutcome_heard handler outcome s
  unfold react
  rcases ho : onOutcome outcome s with ⟨_ | backoff, s₁⟩
  · rw [ho] at hout
    exact hout
  · rw [ho] at hout
    exact trans_of (Heard handler) hout (waitReconnect_heard handler cfg stopped backoff s₁)

theorem round_heard (r : Round C σ) (s : Supervisor η σ) :
    Heard handler s.handler (round cfg world P r s).2.handler := by
  cases ha : attempted r s with
  | none =>
    obtain ⟨s₁, error, hr, rfl | rfl⟩ := round_finish cfg world P ha
    all_goals
      rw [hr]
      exact lifecycle_heard handler _ .closed
  | some a =>
    obtain ⟨htop, hpanic, hrx, -⟩ := attempted_eq_some ha
    have hsess := sessionOnce_heard handler cfg world P r.session s.starting
    rw [round_eq cfg world P htop hpanic hrx]
    generalize sessionOnce cfg world P r.session s.starting = x at hsess
    have hafter : (afterSession x.1 x.2).handler = x.2.handler := by
      unfold afterSession
      split
      · rfl
      · rfl
    refine trans_of (Heard handler) hsess ?_
    rw [← hafter]
    exact react_heard handler cfg _ _ _

/-- When the supervisor returns, it has announced `closed`. -/
theorem round_returned {r : Round C σ} {s s' : Supervisor η σ} (h : round cfg world P r s = (false, s')) :
    (∃ g : HandlerGuard η, s'.handler = g.lifecycle .closed) ∧ s'.state = .closed := by
  have hwait {stopped : Bool} {backoff : Backoff} {s₁ : Supervisor η σ}
      (hw : waitReconnect cfg stopped backoff s₁ = (false, s')) :
      (∃ g : HandlerGuard η, s'.handler = g.lifecycle .closed) ∧ s'.state = .closed := by
    rcases waitReconnect_cases cfg stopped backoff s₁ with ⟨-, h⟩ | ⟨-, -, h⟩ | ⟨-, -, h⟩
    all_goals
      rw [h] at hw
      cases hw
    · exact ⟨⟨_, rfl⟩, rfl⟩
    · exact ⟨⟨_, rfl⟩, rfl⟩
  cases ha : attempted r s with
  | none =>
    obtain ⟨s₁, error, hr, -⟩ := round_finish cfg world P ha
    rw [hr] at h
    cases h
    exact ⟨⟨_, rfl⟩, rfl⟩
  | some a =>
    obtain ⟨htop, hpanic, hrx, -⟩ := attempted_eq_some ha
    rw [round_eq cfg world P htop hpanic hrx] at h
    generalize sessionOnce cfg world P r.session s.starting = x at h
    obtain ⟨s₁, -, ⟨e, ho⟩ | ⟨backoff, ho, -⟩⟩ := onOutcome_inv x.1.outcome (afterSession x.1 x.2)
    · simp only [react, ho] at h
      cases h
      exact ⟨⟨_, rfl⟩, rfl⟩
    · simp only [react, ho] at h
      exact hwait h

/-! ## A run -/

theorem loop_returned (rounds : List (Round C σ)) {s s' : Supervisor η σ}
    (h : loop cfg world P rounds s = (false, s')) :
    (∃ g : HandlerGuard η, s'.handler = g.lifecycle .closed) ∧ s'.state = .closed := by
  induction rounds generalizing s with
  | nil => cases h
  | cons r rounds ih =>
    rw [loop] at h
    rcases hr : round cfg world P r s with ⟨_ | _, s₁⟩
    · rw [hr] at h
      cases h
      exact round_returned cfg world P hr
    · rw [hr] at h
      exact ih h

/-- A session is started only while the guard has seen no callback unwind. -/
theorem attempts_heard (rounds : List (Round C σ)) (s : Supervisor η σ) :
    Heard handler s.handler (loop cfg world P rounds s).2.handler ∧
      ∀ a ∈ attempts cfg world P rounds s, a.start.handler.panicked = false ∧
        Heard handler s.handler a.start.handler ∧
        Heard handler a.start.handler (loop cfg world P rounds s).2.handler := by
  induction rounds generalizing s with
  | nil => exact ⟨refl_of (Heard handler) _, by simp [attempts]⟩
  | cons r rounds ih =>
    have hround := round_heard handler cfg world P r s
    have hfirst {a : Attempt C η σ} (ha : a ∈ (attempted r s).toList) {g : HandlerGuard η}
        (hg : Heard handler s.handler g) : a.start.handler.panicked = false ∧
          Heard handler s.handler a.start.handler ∧ Heard handler a.start.handler g := by
      obtain ⟨-, hpanic, -, rfl⟩ := attempted_eq_some (Option.mem_toList.mp ha)
      exact ⟨hpanic, refl_of (Heard handler) _, hg⟩
    rw [loop, attempts]
    rcases hr : round cfg world P r s with ⟨_ | _, s₁⟩
    · rw [hr] at hround
      refine ⟨hround, fun a ha => ?_⟩
      rw [List.append_nil] at ha
      exact hfirst ha hround
    · rw [hr] at hround
      obtain ⟨hloop, hrest⟩ := ih s₁
      have hall := trans_of (Heard handler) hround hloop
      refine ⟨hall, fun a ha => ?_⟩
      rcases List.mem_append.mp ha with ha | ha
      · exact hfirst ha hall
      · obtain ⟨hpanicked, hbefore, hafter⟩ := hrest a ha
        exact ⟨hpanicked, trans_of (Heard handler) hround hbefore, hafter⟩

/-- A guard that has seen a callback unwind lets no further round begin. -/
theorem loop_panicked (rounds : List (Round C σ)) (r : Round C σ) {s : Supervisor η σ}
    (h : (loop cfg world P rounds s).2.handler.panicked = true) : (loop cfg world P (rounds ++ [r]) s).1 = false := by
  induction rounds generalizing s with
  | nil =>
    have hnone : attempted r s = none := by
      have hpanic : s.handler.panicked = true := h
      rw [attempted, hpanic, Bool.or_true, Bool.true_or]
      rfl
    obtain ⟨s₁, error, hr, -⟩ := round_finish cfg world P hnone
    rw [List.nil_append, loop, hr]
  | cons r' rounds ih =>
    rw [loop] at h
    rw [List.cons_append, loop]
    rcases hr : round cfg world P r' s with ⟨_ | _, s₁⟩
    · rfl
    · rw [hr] at h
      exact ih h

omit [TokenStore σ] in
theorem start_told (shared : SharedState σ) :
    Told handler (start handler shared).handler.toHandled (start handler shared).handler.panicked :=
  ⟨rfl, fun before c after h => by simp [start, HandlerGuard.new] at h⟩

/-- The supervisor task, and the sessions it starts. -/
theorem runSupervisor_heard (setup : Except Error Unit) (rounds : List (Round C σ)) (shared : SharedState σ) :
    Heard handler (start handler shared).handler (runSupervisor cfg world P setup rounds handler shared).2.handler ∧
      ∀ a ∈ runAttempts cfg world P setup rounds handler shared, a.start.handler.panicked = false ∧
        Heard handler (start handler shared).handler a.start.handler ∧
        Heard handler a.start.handler (runSupervisor cfg world P setup rounds handler shared).2.handler := by
  cases setup with
  | error e => exact ⟨lifecycle_heard handler _ _, List.forall_mem_nil _⟩
  | ok _ => exact attempts_heard handler cfg world P rounds _

theorem runSupervisor_returned {setup : Except Error Unit} {rounds : List (Round C σ)} {handler : η}
    {shared : SharedState σ} (h : (runSupervisor cfg world P setup rounds handler shared).1 = false) :
    (∃ g : HandlerGuard η,
        (runSupervisor cfg world P setup rounds handler shared).2.handler = g.lifecycle .closed) ∧
      (runSupervisor cfg world P setup rounds handler shared).2.state = .closed := by
  cases setup with
  | error e => exact ⟨⟨_, rfl⟩, rfl⟩
  | ok _ => exact loop_returned cfg world P rounds (Prod.ext h rfl)

/-- From a callback that unwinds on, whichever it is: no callback other than
`onEvent` is made, and no session is started; if the supervisor has returned, the
last callback is the announcement of `closed`, and the state is `closed`; and if
it has not, it does before another session. -/
theorem panic_ends_client (setup : Except Error Unit) (rounds : List (Round C σ)) (shared : SharedState σ)
    {before after : List Call} {c : Call}
    (hcalls : (runSupervisor cfg world P setup rounds handler shared).2.handler.calls = before ++ c :: after)
    (hunwinds : LoxHandler.Unwinds handler before c) :
    (∀ d ∈ after, ∃ event, d = .onEvent event) ∧
      (∀ a ∈ runAttempts cfg world P setup rounds handler shared, a.start.handler.calls <+: before) ∧
      ((runSupervisor cfg world P setup rounds handler shared).1 = false →
        (∃ rest, before ++ c :: after = rest ++ [.onEvent .closed]) ∧
          (runSupervisor cfg world P setup rounds handler shared).2.state = .closed) ∧
      ∀ r, (runSupervisor cfg world P setup (rounds ++ [r]) handler shared).1 = false := by
  obtain ⟨hrun, hattempts⟩ := runSupervisor_heard handler cfg world P setup rounds shared
  have htold := hrun.2 (start_told handler shared)
  obtain ⟨hpanicked, hevents⟩ := htold.known before c after hcalls hunwinds
  refine ⟨hevents, fun a ha => ?_, fun hends => ?_, fun r => ?_⟩
  · -- its callbacks are the first of the run, and none of them unwound
    obtain ⟨hnot, hbefore, hafter⟩ := hattempts a ha
    have hknown := (hbefore.2 (start_told handler shared)).known
    rw [hnot] at hknown
    exact hknown.prefix_before (hcalls ▸ hafter.1) hunwinds
  · obtain ⟨⟨g, hg⟩, hstate⟩ := runSupervisor_returned cfg world P hends
    rw [← hcalls, hg, HandlerGuard.calls_lifecycle]
    exact ⟨⟨g.calls, rfl⟩, hstate⟩
  · cases setup with
    | error e => rfl
    | ok _ => exact loop_panicked cfg world P rounds r hpanicked

/-- A handler that unwinds when it is given a message. -/
structure FragileHandler where

instance : LoxHandler FragileHandler where
  call h
    | .onRawPayload _ _ => (true, h)
    | _ => (false, h)

/-- A round in which the Miniserver answers the key exchange. -/
def answeredRound (answer : Bytes) : Round sampleCrates (Option LxToken) :=
  { closedRound [] with session := { (closedRound []).session with reads := answerFrames answer } }

/-- The answer to the first key exchange makes the handler unwind. -/
theorem panic_ends_client_in_handshake :
    ∃ s : Supervisor FragileHandler (Option LxToken),
      runSupervisor sampleConfig sampleWorld .rejecting (.ok ()) [answeredRound [0x7B, 0x7D]] ⟨⟩
        ⟨TokenRace.sampleToken, none⟩ = (false, s) ∧
      s.handler.calls = [.onRawPayload 0 [0x7B, 0x7D], .onEvent .closed] ∧ s.state = .closed ∧
      ∀ r, (runSupervisor sampleConfig sampleWorld .rejecting (.ok ()) ([answeredRound [0x7B, 0x7D]] ++ [r])
        (⟨⟩ : FragileHandler) ⟨TokenRace.sampleToken, none⟩).1 = false := by
  have hcalls : (runSupervisor sampleConfig sampleWorld .rejecting (.ok ()) [answeredRound [0x7B, 0x7D]]
      (⟨⟩ : FragileHandler) ⟨TokenRace.sampleToken, none⟩).2.handler.calls =
        [] ++ .onRawPayload 0 [0x7B, 0x7D] :: [.onEvent .closed] := by rfl
  have hreturns : (runSupervisor sampleConfig sampleWorld .rejecting (.ok ()) [answeredRound [0x7B, 0x7D]]
      (⟨⟩ : FragileHandler) ⟨TokenRace.sampleToken, none⟩).1 = false := by rfl
  obtain ⟨-, -, hends, hnext⟩ := panic_ends_client (⟨⟩ : FragileHandler) sampleConfig sampleWorld .rejecting (.ok ())
    [answeredRound [0x7B, 0x7D]] ⟨TokenRace.sampleToken, none⟩ hcalls rfl
  exact ⟨_, Prod.ext hreturns rfl, hcalls, (hends hreturns).2, hnext⟩

end Supervisor

end Lox
