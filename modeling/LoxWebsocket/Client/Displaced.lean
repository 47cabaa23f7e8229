import LoxWebsocket.Client.Answers
import LoxWebsocket.Client.ClosePolicy

/-!
# Killing a displaced token

A token close to its expiry is replaced, and the old one is killed first. The
kill is best effort: whatever goes wrong in it, the handshake goes on. Every
other failure ends the connection.

So what successful requests keep, a handshake that displaces no token keeps
(`all_wp`), and a read that has timed out is the last on its stream, whatever
the stream does, if and only if no token is displaced (`timeout_terminal_iff`).
After a timeout in the kill the handshake reads on (`read_after_timeout`).
-/

namespace Lox

/-- The token is close enough to its expiry to be replaced, at the next reading
of the clock. -/
def Displaces {σ : Type} (world : World) (pos : Pos) (shared : SharedState σ) : Prop :=
  shared.token.isEmpty = false ∧
    shared.token.secondsToExpire (SaltState.nowSecs world pos).1 < Handshake.tokenMinRemainingSecs

namespace Handshake

variable {C : Crates} {η σ : Type}

/-! ## A handshake that displaces no token -/

theorem secondsToExpire_eq (env : HandshakeEnv C) (token : LxToken) (s : HsState η σ) :
    secondsToExpire env token s = (.ok (token.secondsToExpire (SaltState.nowSecs env.world s.pos).1),
      { s with pos := (SaltState.nowSecs env.world s.pos).2 }) := rfl

section

variable [LoxHandler η] [TokenStore σ] {env : HandshakeEnv C} {I : HsState η σ → Prop}
  {F : Error → HsState η σ → Prop}

/-- What the parts keep, the kill of a displaced token among them. -/
theorem authenticate_wp (h : Parts env I F) {s : HsState η σ} (hs : I s)
    (hkill : Displaces env.world s.pos s.shared → (killDisplaced env (some s.shared.token)).Upholds I F) :
    (authenticate env).wp (fun _ s' => I s') F s := by
  unfold authenticate
  rw [Prog.wp_bind, Prog.wp_get]
  dsimp only
  split
  · exact h.replaceToken s hs
  · rename_i hne
    have hs₁ : I { s with pos := (SaltState.nowSecs env.world s.pos).2 } := h.congr s _ rfl rfl rfl hs
    rw [Prog.wp_bind, Prog.wp_ok (secondsToExpire_eq env _ s)]
    split
    · rename_i hlt
      have hkilled := hkill ⟨Bool.not_eq_true _ ▸ hne, hlt⟩ _ hs₁
      rw [replaceToken, acquireToken_eq, Prog.wp_bind, Prog.wp_bind]
      refine Prog.wp_mono hkilled (fun _ s₂ hs₂ => ?_) fun _ _ h => h
      rw [← Prog.wp_bind]
      exact h.replaceToken s₂ hs₂
    · rw [Prog.wp_bind]
      refine Prog.wp_mono (h.reuseToken _ _ hs₁) (fun token s₂ hs₂ => ?_) fun _ _ h => h
      split
      · exact h.congr s₂ _ rfl rfl rfl hs₂
      · rw [Prog.wp_bind, clearToken, Prog.wp_modify]
        exact h.replaceToken _ (h.congr s₂ _ rfl rfl rfl hs₂)

/-- What holds after the key exchange and is kept by the parts holds after the
handshake. -/
theorem all_parts (h : Parts env I F) {sessionB64 : Str} {s : HsState η σ}
    (hkey : (keyExchange env sessionB64).wp (fun _ s' => I s') F s)
    (hkill : Displaces env.world s.pos s.shared → (killDisplaced env (some s.shared.token)).Upholds I F) :
    (all env sessionB64).wp (fun _ s' => I s') F s := by
  unfold all
  rw [Prog.wp_bind]
  refine Prog.wp_mono (Prog.wp_and hkey ((keyExchange_onlyTalks env sessionB64).wp s)) (fun _ s₁ h₁ => ?_)
    fun _ _ h => h.1
  obtain ⟨hI, htalks⟩ := h₁
  rw [Prog.wp_bind]
  refine Prog.wp_mono (authenticate_wp h hI (by rw [htalks]; exact hkill)) (fun _ s₂ h₂ => ?_) fun _ _ h => h
  split
  · exact h.enableUpdates s₂ h₂
  · exact h₂

/-- The same for what requests keep, in a handshake that displaces no token. -/
theorem all_wp (h : Contract env I F) {sessionB64 : Str} {s : HsState η σ}
    (hkey : (keyExchange env sessionB64).wp (fun _ s' => I s') F s)
    (hd : ¬ Displaces env.world s.pos s.shared) : (all env sessionB64).wp (fun _ s' => I s') F s :=
  all_parts h.parts hkey fun h => absurd h hd

end

/-! ## A timed-out read -/

/-- The timeout is still to come, before `post`. -/
def TimeoutAhead (post : List ReadEvent) (s : HsState η σ) : Prop := ∃ pre, s.reads = pre ++ .elapsed :: post

/-- Nothing of `post` has been read. -/
def Unread (post : List ReadEvent) (s : HsState η σ) : Prop := post <:+ s.reads

theorem TimeoutAhead.unread {post : List ReadEvent} {s : HsState η σ} (h : TimeoutAhead post s) : Unread post s := by
  obtain ⟨pre, h⟩ := h
  rw [Unread, h]
  exact (List.suffix_cons _ _).trans (List.suffix_append _ _)

theorem readFrameBytes_timeout (post : List ReadEvent) :
    (readFrameBytes : Hs η σ Bytes).Upholds (TimeoutAhead post) fun _ s' => Unread post s' := by
  rintro s ⟨pre, hs⟩
  cases pre with
  | nil =>
    have he : readFrameBytes s = (.error (.timeout "handshake response".toList), { s with reads := post }) := by
      simp only [readFrameBytes, Prog.tryAct, hs, List.nil_append]
    rw [Prog.wp_error he]
    exact List.suffix_refl _
  | cons event pre =>
    have hahead : ∀ s' : HsState η σ, s'.reads = pre ++ .elapsed :: post → TimeoutAhead post s' :=
      fun s' h => ⟨pre, h⟩
    unfold Prog.wp
    simp only [readFrameBytes, Prog.tryAct, hs, List.cons_append]
    cases event with
    | elapsed => exact (hahead _ rfl).unread
    | failed m => exact (hahead _ rfl).unread
    | frame op b =>
      simp only
      split_ifs
      · exact (hahead _ rfl).unread
      · exact hahead _ rfl

theorem reading_timeout (post : List ReadEvent) :
    Reading (TimeoutAhead (η := η) (σ := σ) post) fun _ s' => Unread post s' where
  fails _ _ h := h.unread
  inStep _ _ _ h := h
  congr s s' he h := by
    obtain ⟨pre, h⟩ := h
    exact ⟨pre, he.trans h⟩
  read := readFrameBytes_timeout post

end Handshake

namespace Reader

variable {C : Crates} {η : Type} [LoxHandler η] (keys : SessionKeys C) (P : Parsers)

/-- The events that are left when the reader returns, which is at the first it
does not go on after. -/
def remaining : List (ReaderShared × ReadEvent) → ReaderState η → List (ReaderShared × ReadEvent)
  | [], _ => []
  | event :: rest, s =>
    match advance keys P [event] s with
    | some s => remaining rest s
    | none => rest

/-- The reader leaves what comes after a timeout. -/
theorem remaining_timeout (pre : List (ReaderShared × ReadEvent)) (shared : ReaderShared)
    (post : List (ReaderShared × ReadEvent)) (s : ReaderState η) :
    post <:+ remaining keys P (pre ++ (shared, .elapsed) :: post) s := by
  induction pre generalizing s with
  | nil => exact List.suffix_refl _
  | cons event pre ih =>
    rw [List.cons_append, remaining]
    split
    · exact ih _
    · exact (List.suffix_cons _ _).trans (List.suffix_append _ _)

end Reader

namespace Supervisor

variable {C : Crates} {η σ : Type} [LoxHandler η] [TokenStore σ] (cfg : ConnectConfig) (world : World)
  (P : Parsers)

/-- What is left of the stream when a session ends. -/
def unread (w : SessionWorld C σ) (s : Supervisor η σ) : List ReadEvent :=
  match w.setup with
  | .error _ => w.reads
  | .ok () =>
    match Handshake.all ⟨world, P, w.keys, cfg⟩ w.sessionB64 (s.handshakeState w) with
    | (.error _, hs) => hs.reads
    | (.ok (), hs) =>
      (Reader.remaining w.keys P (readerEvents w.seen hs.reads)
        ⟨.start, (s.connected w hs).handler, w.seen 0, [], []⟩).map Prod.snd

theorem unread_handshake {w : SessionWorld C σ} {s : Supervisor η σ} (hsetup : w.setup = .ok ()) {e : Error}
    {hs : HsState η σ}
    (hall : Handshake.all ⟨world, P, w.keys, cfg⟩ w.sessionB64 (s.handshakeState w) = (.error e, hs)) :
    unread cfg world P w s = hs.reads := by
  simp only [unread, hsetup, hall]

/-- Once a read has timed out, the session reads no more of the stream. -/
def TimeoutTerminal (w : SessionWorld C σ) (s : Supervisor η σ) : Prop :=
  ∀ pre post, w.reads = pre ++ .elapsed :: post → post <:+ unread cfg world P w s

omit [LoxHandler η] [TokenStore σ] in
theorem map_snd_readerEvents (seen : Nat → ReaderShared) (reads : List ReadEvent) :
    (readerEvents seen reads).map Prod.snd = reads := by
  simp only [readerEvents, List.map_map, Function.comp_def]
  exact List.zipIdx_map_fst 0 reads

theorem timeoutTerminal_of_not_displaces {w : SessionWorld C σ} {s : Supervisor η σ}
    (hd : ¬ Displaces world w.pos s.shared) : TimeoutTerminal cfg world P w s := by
  intro pre post hreads
  have hpost : post <:+ w.reads := by
    rw [hreads]
    exact (List.suffix_cons _ _).trans (List.suffix_append _ _)
  unfold unread
  split
  · exact hpost
  · have hahead : Handshake.TimeoutAhead post (s.handshakeState w) := ⟨pre, hreads⟩
    have hread := Handshake.reading_timeout (η := η) (σ := σ) post
    have hall := Handshake.all_wp (hread.contract ⟨world, P, w.keys, cfg⟩)
      (hread.keyExchange _ w.sessionB64 _ hahead) hd
    split
    · rename_i hs heq
      rw [Prog.wp_error heq] at hall
      exact hall
    · rename_i hs heq
      rw [Prog.wp_ok heq] at hall
      obtain ⟨pre', hpre⟩ := hall
      obtain ⟨rest, hrest⟩ := readerEvents_append w.seen pre' .elapsed post
      have hevents : (readerEvents w.seen (pre' ++ .elapsed :: post)).map Prod.snd = pre' ++ .elapsed :: post :=
        map_snd_readerEvents w.seen _
      rw [hrest, List.map_append, map_snd_readerEvents, List.map_cons] at hevents
      cases List.append_cancel_left hevents
      rw [hpre, hrest]
      exact (Reader.remaining_timeout w.keys P _ _ rest _).map Prod.snd

end Supervisor

/-! ## A kill that times out -/

/-- An answer that is accepted and has no value. -/
def acceptedAnswer : Bytes :=
  "\x7b\"LL\":\x7b\"code\":\"200\"\x7d\x7d".toList.map fun c => UInt8.ofNat c.toNat

/-- The crates on that answer. -/
def Parsers.accepting : Parsers :=
  Parsers.rejecting.also acceptedAnswer (.obj [("LL".toList, .obj [("code".toList, .str "200".toList)])])

/-- The two frames of that answer. -/
def acceptedFrames : List ReadEvent :=
  [.frame .binary (encodeHeader 0 0 0 21), .frame .text acceptedAnswer]

theorem announceable_acceptedAnswer : Announceable acceptedAnswer := ⟨by decide, by decide⟩

namespace Handshake

variable {C : Crates} {η σ : Type}

section

variable [LoxHandler η] (env : HandshakeEnv C)

theorem readPayload_elapsed {s : HsState η σ} {reads : List ReadEvent} (hr : s.reads = .elapsed :: reads) :
    readPayload s = (.error (.timeout "handshake response".toList), { s with reads }) := by
  obtain ⟨salt, pos, _, writes, handler, shared, texts, commands, exchanges⟩ := s
  cases hr
  rfl

theorem request_elapsed (hC : C.Total) (cmd : Str) {s : HsState η σ} (hw : s.writes = [])
    {reads : List ReadEvent} (hr : s.reads = .elapsed :: reads) :
    ∃ salt pos texts, request env cmd s = (.error (.timeout "handshake response".toList),
      { s with salt, pos, texts, reads, commands := s.commands ++ [cmd] }) := by
  obtain ⟨salt, pos, texts, h⟩ := request_sent env hC cmd hw
  refine ⟨salt, pos, texts, h.trans ?_⟩
  exact Prog.bind_error (readPayload_elapsed (s := { s with salt, pos, texts, commands := _ }) hr) _

/-- A kill that fails is passed over. -/
theorem acquireToken_passed {old : LxToken} {e : Error} {s s' : HsState η σ}
    (h : killToken env old s = (.error e, s')) : acquireToken env (some old) s = acquireToken env none s' := by
  have hpassed : ((killToken env old).attempt : Hs η σ _) s = (.ok (.error e), s') := by
    simp only [Prog.attempt, h]
  rw [acquireToken_eq]
  exact Prog.bind_ok (Prog.bind_ok hpassed _) _

theorem acquireToken_elapsed (hC : C.Total) (old : LxToken) {s : HsState η σ} (hw : s.writes = [])
    {reads : List ReadEvent} (hr : s.reads = .elapsed :: reads) :
    ∃ salt pos texts, acquireToken env (some old) s =
      acquireToken env none { s with salt, pos, texts, reads, commands := s.commands ++ [cmdGetKey] } := by
  obtain ⟨salt, pos, texts, h⟩ := request_elapsed env hC cmdGetKey hw hr
  exact ⟨salt, pos, texts, acquireToken_passed env (Prog.bind_error h _)⟩

theorem acquireToken_unanswered {e : Error} {s s' : HsState η σ}
    (h : request env (cmdGetkey2 env.cfg.username) s = (.error e, s')) :
    acquireToken env none s = (.error (e.inStep "getkey2".toList), s') :=
  Prog.bind_error (Prog.mapErr_error h _) _

theorem authenticate_displaces [TokenStore σ] {s : HsState η σ} (hd : Displaces env.world s.pos s.shared) :
    authenticate env s = replaceToken env (some s.shared.token)
      { s with pos := (SaltState.nowSecs env.world s.pos).2 } := by
  unfold authenticate
  rw [Prog.bind_ok (Prog.get_apply s)]
  rw [if_neg (by simp [hd.1]), Prog.bind_ok (secondsToExpire_eq env _ s), if_pos hd.2]

end

section

variable {env : HandshakeEnv C} (hP : env.parsers = Parsers.accepting) (hC : C.Total)

include hP

/-- The answer is accepted. -/
theorem keyExchange_accepted (sessionB64 : Str) {s : HsState Unit σ} (hw : s.writes = [])
    {reads : List ReadEvent} (hr : s.reads = acceptedFrames ++ reads) (hp : s.handler.panicked = false) :
    ∃ handler texts, handler.panicked = false ∧
      keyExchange env sessionB64 s = (.ok (), { s with reads, handler, texts }) := by
  refine keyExchange_answer LoxHandler.quiet_unit announceable_acceptedAnswer ?_ sessionB64 hw hr hp
  rw [hP, Parsers.accepting, parseJson_also]
  exact ⟨_, rfl⟩

variable (env)

include hC

/-- A handshake whose kill of the displaced token times out goes on to acquire
one. -/
theorem all_displaces [TokenStore σ] {sessionB64 : Str} {s : HsState Unit σ} (hd : Displaces env.world s.pos s.shared)
    (hw : s.writes = []) {reads : List ReadEvent} (hr : s.reads = acceptedFrames ++ .elapsed :: reads)
    (hp : s.handler.panicked = false) :
    ∃ s₁ : HsState Unit σ, s₁.reads = reads ∧ s₁.writes = [] ∧ s₁.handler.panicked = false ∧
      s₁.commands = s.commands ++ [cmdGetKey] ∧ s₁.exchanges = s.exchanges ∧
      ∀ e s', acquireToken env none s₁ = (.error e, s') → all env sessionB64 s = (.error e, s') := by
  obtain ⟨handler, texts₁, hp', hkey⟩ := keyExchange_accepted hP sessionB64 hw hr hp
  let s₀ : HsState Unit σ := { s with reads := .elapsed :: reads, handler, texts := texts₁ }
  obtain ⟨salt, pos, texts, hacquire⟩ := acquireToken_elapsed env hC s.shared.token
    (s := { s₀ with pos := (SaltState.nowSecs env.world s.pos).2 }) hw rfl
  refine ⟨{ s₀ with salt, pos, texts, reads, commands := s.commands ++ [cmdGetKey] }, rfl, hw, hp', rfl, rfl,
    fun e s' h => ?_⟩
  have hauth : authenticate env s₀ = (.error e, s') := by
    rw [authenticate_displaces env (s := s₀) hd]
    exact Prog.bind_error (hacquire.trans h) _
  unfold all
  rw [Prog.bind_ok hkey, Prog.bind_error hauth]

end

end Handshake

namespace Supervisor

variable {σ : Type} [TokenStore σ]

/-- A session whose reads are `reads`, with nothing in the way of its writes. -/
def displacingSession (pos : Pos) (reads : List ReadEvent) : SessionWorld sampleCrates σ where
  setup := .ok ()
  keys := sampleKeys
  sessionB64 := "AAECAw==".toList
  pos := pos
  reads := reads
  writes := []
  seen _ := sampleShared
  tokenOps := id
  stoppedEarly := false
  stopped := false
  joined := true
  connectedFor := 0

/-- A client that holds a token and connects. -/
def displacing (shared : SharedState σ) : Supervisor Unit σ where
  handler := .new ()
  shared := shared
  state := .connecting
  ready := none
  cmdRx := true
  attempt := 0
  everConnected := false
  waits := []

/-- The kill times out, and then the request after it does. -/
def killTimesOut (pos : Pos) : SessionWorld sampleCrates σ :=
  displacingSession pos (acceptedFrames ++ [.elapsed, .elapsed])

theorem unread_killTimesOut (cfg : ConnectConfig) {world : World} {pos : Pos} {shared : SharedState σ}
    (hd : Displaces world pos shared) :
    unread cfg world .accepting (killTimesOut pos) (displacing shared) = [] := by
  have hC := sampleCrates_lawful.toTotal
  obtain ⟨s₁, hreads, hwrites, -, -, -, hall⟩ := Handshake.all_displaces ⟨world, .accepting, sampleKeys, cfg⟩
    rfl hC (s := (displacing shared).handshakeState (killTimesOut pos)) hd rfl rfl rfl
  obtain ⟨salt, pos', texts, hreq⟩ := Handshake.request_elapsed ⟨world, .accepting, sampleKeys, cfg⟩ hC
    (cmdGetkey2 cfg.username) hwrites hreads
  have hend := hall _ _ (Handshake.acquireToken_unanswered _ hreq)
  exact unread_handshake cfg world .accepting (w := killTimesOut pos) rfl hend

theorem not_timeoutTerminal_killTimesOut (cfg : ConnectConfig) {world : World} {pos : Pos} {shared : SharedState σ}
    (hd : Displaces world pos shared) :
    ¬ TimeoutTerminal cfg world .accepting (killTimesOut pos) (displacing shared) := by
  intro h
  have hpost := h acceptedFrames [.elapsed] rfl
  rw [unread_killTimesOut cfg hd] at hpost
  exact absurd hpost.length_le (by decide)

/-- A session reads nothing after a read has timed out, whatever the stream and
the others do, if and only if no token is displaced when it connects. -/
theorem timeout_terminal_iff (cfg : ConnectConfig) (world : World) (pos : Pos) (shared : SharedState σ) :
    (∀ (C : Crates) (P : Parsers) (η : Type) [LoxHandler η] (w : SessionWorld C σ) (s : Supervisor η σ),
        w.pos = pos → s.shared = shared → TimeoutTerminal cfg world P w s) ↔
      ¬ Displaces world pos shared := by
  refine ⟨fun h hd => ?_, fun hd C P η _ w s hpos hshared => ?_⟩
  · exact not_timeoutTerminal_killTimesOut cfg hd (h _ _ _ (killTimesOut pos) (displacing shared) rfl rfl)
  · exact timeoutTerminal_of_not_displaces cfg world P (by rw [hpos, hshared]; exact hd)

/-- The token in the memory of the sample client, which has expired. -/
def expiredToken : SharedState (Option LxToken) := ⟨TokenRace.sampleToken, none⟩

theorem displaces_expiredToken : Displaces sampleWorld Pos.start expiredToken := by
  unfold Displaces
  decide

/-- The kill times out, and `getkey2` is sent and its answer awaited on the same
stream. -/
theorem read_after_timeout :
    (killTimesOut Pos.start : SessionWorld sampleCrates (Option LxToken)).reads =
        acceptedFrames ++ .elapsed :: [.elapsed] ∧
      unread sampleConfig sampleWorld .accepting (killTimesOut Pos.start) (displacing expiredToken) = [] ∧
      ¬ TimeoutTerminal sampleConfig sampleWorld .accepting (killTimesOut Pos.start) (displacing expiredToken) :=
  ⟨rfl, unread_killTimesOut sampleConfig displaces_expiredToken,
    not_timeoutTerminal_killTimesOut sampleConfig displaces_expiredToken⟩

end Supervisor

end Lox
