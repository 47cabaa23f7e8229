import LoxWebsocket.Client.Authenticate
import LoxWebsocket.Client.Losses

/-!
# A killed token is not presented again

A handshake that finds its token close to its expiry kills it, and it may fail
before it has another. The token then stays in memory and in the store. It is
not presented again all the same: of the token in memory the seconds that are
left only grow fewer, so every later handshake that finds it there kills it
again. A handshake sends `killtoken` only if it displaces its token
(`all_kills`), and `authwithtoken` only if it does not (`all_presents`).

The seconds are counted in 64 bits (`LxToken.secondsToExpire`). While the count
does not leave that range, no token is presented after it was killed
(`killed_not_presented`). For a token that expired 2⁶³ seconds ago the count
turns positive, and the token that was killed is presented
(`killed_token_presented`).
-/

namespace Lox

/-! ## The seconds that are left -/

namespace LxToken

/-- The seconds until expiry, as an integer. -/
def secondsLeft (t : LxToken) (now : UInt64) : Int := 1230768000 + t.validUntil.toInt - now.toNat

/-- They fit in 64 bits. -/
def Countable (t : LxToken) (now : UInt64) : Prop := -2 ^ 63 ≤ t.secondsLeft now ∧ t.secondsLeft now < 2 ^ 63

instance (t : LxToken) (now : UInt64) : Decidable (t.Countable now) := inferInstanceAs (Decidable (_ ∧ _))

/-- They are counted modulo 2⁶⁴. -/
theorem toInt_secondsToExpire_bmod (t : LxToken) (now : UInt64) :
    (t.secondsToExpire now).toInt = (t.secondsLeft now).bmod (2 ^ 64) := by
  have hepoch : loxoneEpoch.toInt = 1230768000 := by decide
  have hnow : now.toInt64.toInt = (now.toNat : Int).bmod (2 ^ 64) := BitVec.toInt_eq_toNat_bmod now.toBitVec
  rw [secondsToExpire, Int64.toInt_sub, Int64.toInt_add, hepoch, hnow, Int.bmod_sub_bmod, Int.sub_bmod_bmod,
    secondsLeft]

theorem toInt_secondsToExpire {t : LxToken} {now : UInt64} (h : t.Countable now) :
    (t.secondsToExpire now).toInt = t.secondsLeft now := by
  rw [toInt_secondsToExpire_bmod]
  obtain ⟨hle, hlt⟩ := h
  refine Int.bmod_eq_of_le_mul_two ?_ ?_
  · norm_num at *
    omega
  · norm_num at *
    omega

theorem secondsToExpire_le {t : LxToken} {now now' : UInt64} (hle : now ≤ now') (h : t.Countable now)
    (h' : t.Countable now') : t.secondsToExpire now' ≤ t.secondsToExpire now := by
  rw [Int64.le_iff_toInt_le, toInt_secondsToExpire h, toInt_secondsToExpire h', secondsLeft, secondsLeft]
  have := UInt64.le_iff_toNat_le.mp hle
  omega

end LxToken

/-- A token that was displaced is displaced later, too. -/
theorem Displaces.later {σ : Type} {world : World} {pos pos' : Pos} {shared shared' : SharedState σ}
    (h : Displaces world pos shared) (htoken : shared'.token = shared.token)
    (hle : world.clock pos.ticks ≤ world.clock pos'.ticks)
    (hc : shared.token.Countable (world.clock pos.ticks))
    (hc' : shared'.token.Countable (world.clock pos'.ticks)) : Displaces world pos' shared' := by
  rw [htoken] at hc'
  refine ⟨by rw [htoken]; exact h.1, ?_⟩
  rw [htoken]
  exact Int64.lt_of_le_of_lt (LxToken.secondsToExpire_le hle hc hc') h.2

/-! ## The commands of a handshake -/

namespace Handshake

variable {C : Crates} {η σ : Type}

/-- Only commands in `good` were sent. -/
def Sent (good : Str → Prop) (s : HsState η σ) : Prop := ∀ cmd ∈ s.commands, good cmd

theorem Grew.sent {good : Str → Prop} {s s' : HsState η σ} (h : Grew good s s') (hs : Sent good s) : Sent good s' :=
  fun cmd hcmd => (h.commands cmd hcmd).elim (hs cmd) id

variable [LoxHandler η] (env : HandshakeEnv C)

theorem acquireToken_sent {good : Str → Prop} (hkey : ∀ cmd, cmdGetKeyAndSalt <+: cmd → good cmd)
    (hjwt : ∀ cmd, cmdRequestTokenJwt <+: cmd → good cmd) :
    (acquireToken env none : Hs η σ LxToken).Upholds (Sent good) fun _ s' => Sent good s' := by
  have hfails : ∀ (e : Error) (s : HsState η σ), Sent good s → Sent good s := fun _ _ h => h
  have hsent {cmd : Str} (h : good cmd) (step : Str) :
      (inStep step (request env cmd) : Hs η σ Bytes).Upholds (Sent good) fun _ s' => Sent good s' :=
    ((request_grew env h).mapErr _).upholds (fun _ _ h hs => h.sent hs) hfails
  refine (Prog.upholds_pure ()).bind fun _ => (hsent (hkey _ (List.prefix_append _ _)) _).bind fun getkey2 => ?_
  intro s hs
  rw [Prog.wp_bind, inStep, Prog.wp_mapErr, Prog.wp_lift]
  refine ⟨fun x hx => ?_, fun _ _ => hs⟩
  have htag : cmdRequestTokenJwt <+: x.1 := buildAcquireTokenCmd_prefix _ hx
  refine (hsent (hjwt _ htag) _).bind (fun resp => ?_) s hs
  refine (Prog.upholds_lift hfails _).bind fun token => ?_
  split
  · exact Prog.upholds_fail hfails _
  · exact Prog.upholds_pure _

variable [TokenStore σ]

/-- Without a token to displace nothing is killed. -/
theorem all_kills {sessionB64 : Str} {s : HsState η σ} (hs : s.commands = [])
    (h : ∃ cmd ∈ (all env sessionB64 s).2.commands, cmdKillTokenTag <+: cmd) :
    Displaces env.world s.pos s.shared := by
  by_contra hd
  let good : Str → Prop := fun cmd => ¬ cmdKillTokenTag <+: cmd
  have htag {p : Str} (h₁ : ¬ p <+: cmdKillTokenTag) (h₂ : ¬ cmdKillTokenTag <+: p) : ∀ cmd, p <+: cmd → good cmd :=
    fun _ => not_prefix_of_prefix h₁ h₂
  have hstart : Sent good s := by
    intro cmd hcmd
    rw [hs] at hcmd
    cases hcmd
  have hfails : ∀ (e : Error) (s : HsState η σ), Sent good s → Sent good s := fun _ _ h => h
  have hparts : Parts (η := η) (σ := σ) env (Sent good) fun _ s' => Sent good s' :=
    { congr := fun s s' _ hc _ hs cmd hcmd => hs cmd (hc ▸ hcmd)
      reuseToken := fun token => by
        have hreuse := reuseToken_grew (η := η) (σ := σ) env (show good cmdGetKey by decide)
          (htag (by decide) (by decide)) token
        exact hreuse.upholds (fun _ _ h hs => h.sent hs) hfails
      replaceToken := by
        refine (acquireToken_sent env (htag (by decide) (by decide)) (htag (by decide) (by decide))).bind fun _ => ?_
        exact Prog.upholds_modify fun _ h => h
      enableUpdates := (enableUpdates_grew env (by decide)).upholds (fun _ _ h hs => h.sent hs) hfails }
  have hall : (all env sessionB64).wp (fun _ s' => Sent good s') (fun _ s' => Sent good s') s := by
    refine all_parts hparts ?_ fun h => absurd h hd
    refine Prog.wp_mono ((keyExchange_onlyTalks env sessionB64).wp s) (fun _ s₁ h => ?_) fun _ s₁ h => ?_
    all_goals
      rw [h]
      exact hstart
  obtain ⟨cmd, hcmd, hkill⟩ := h
  exact Prog.of_wp (I := Sent good) hall cmd hcmd hkill

/-- A token that is displaced is not presented. -/
theorem all_presents {sessionB64 : Str} {s : HsState η σ} (hs : s.commands = [])
    (h : ∃ cmd ∈ (all env sessionB64 s).2.commands, cmdAuthWithTokenTag <+: cmd) :
    ¬ Displaces env.world s.pos s.shared := by
  intro hd
  have hstart : Sent AcquireCmd s := by
    intro cmd hcmd
    rw [hs] at hcmd
    cases hcmd
  have hreplace (token : LxToken) {s₁ : HsState η σ} (h₁ : Sent AcquireCmd s₁) :
      (replaceToken env (some token)).wp (fun _ s' => Sent AcquireCmd s') (fun _ s' => Sent AcquireCmd s') s₁ := by
    rw [replaceToken, Prog.wp_bind]
    exact Prog.wp_mono (acquireToken_spec env _ s₁) (fun _ _ h => h.1.sent h₁) fun _ _ h => h.sent h₁
  have hall : (all env sessionB64).wp (fun _ s' => Sent AcquireCmd s') (fun _ s' => Sent AcquireCmd s') s := by
    have hkey := (keyExchange_onlyTalks env sessionB64).wp s
    rw [all, Prog.wp_bind]
    refine Prog.wp_mono hkey (fun _ s₁ h₁ => ?_) fun _ s₁ h₁ => by rw [h₁]; exact hstart
    have hd₁ : Displaces env.world s₁.pos s₁.shared := by
      rw [h₁]
      exact hd
    have hsent₁ : Sent AcquireCmd { s₁ with pos := (SaltState.nowSecs env.world s₁.pos).2 } := by
      rw [h₁]
      exact hstart
    have hauth : (authenticate env).wp (fun _ s' => Sent AcquireCmd s') (fun _ s' => Sent AcquireCmd s') s₁ := by
      have hrun := hreplace s₁.shared.token hsent₁
      unfold Prog.wp at hrun ⊢
      rw [authenticate_displaces env hd₁]
      exact hrun
    rw [Prog.wp_bind]
    refine Prog.wp_mono hauth (fun _ s₂ h₂ => ?_) fun _ _ h => h
    split
    · have hupdates : (enableUpdates env : Hs η σ Unit).Keeps (Grew AcquireCmd) :=
        enableUpdates_grew env (acquireCmd_of_tag (by decide) (by decide) (List.prefix_refl _))
      exact Prog.wp_mono (hupdates.wp s₂) (fun _ _ h => h.sent h₂) fun _ _ h => h.sent h₂
    · exact h₂
  obtain ⟨cmd, hcmd, hauth⟩ := h
  exact Prog.of_wp (I := Sent AcquireCmd) hall cmd hcmd hauth

end Handshake

/-! ## The attempts of a client -/

namespace Supervisor

variable {C : Crates} {η σ : Type} [LoxHandler η] [TokenStore σ] (cfg : ConnectConfig) (world : World)
  (P : Parsers)

/-- The commands that the handshake of a session sends. -/
def Attempt.commands (a : Attempt C η σ) : List Str :=
  match a.session.setup with
  | .error _ => []
  | .ok () => (Handshake.all ⟨world, P, a.session.keys, cfg⟩ a.session.sessionB64
      (a.start.handshakeState a.session)).2.commands

/-- The handshake finds `token` in memory and sends `killtoken` for it. -/
def Attempt.Kills (token : LxToken) (a : Attempt C η σ) : Prop :=
  a.start.shared.token = token ∧ ∃ cmd ∈ a.commands cfg world P, cmdKillTokenTag <+: cmd

/-- The handshake finds `token` in memory and sends `authwithtoken` for it. -/
def Attempt.Presents (token : LxToken) (a : Attempt C η σ) : Prop :=
  a.start.shared.token = token ∧ ∃ cmd ∈ a.commands cfg world P, cmdAuthWithTokenTag <+: cmd

/-- The clock when the handshake looks at the token. -/
def Attempt.now (a : Attempt C η σ) : UInt64 := world.clock a.session.pos.ticks

variable {cfg world P}

theorem Attempt.Kills.displaces {token : LxToken} {a : Attempt C η σ} (h : a.Kills cfg world P token) :
    Displaces world a.session.pos a.start.shared := by
  obtain ⟨-, h⟩ := h
  unfold Attempt.commands at h
  split at h
  · obtain ⟨_, h, -⟩ := h
    cases h
  · exact Handshake.all_kills ⟨world, P, a.session.keys, cfg⟩ (s := a.start.handshakeState a.session) rfl h

theorem Attempt.Presents.not_displaces {token : LxToken} {a : Attempt C η σ} (h : a.Presents cfg world P token) :
    ¬ Displaces world a.session.pos a.start.shared := by
  obtain ⟨-, h⟩ := h
  unfold Attempt.commands at h
  split at h
  · obtain ⟨_, h, -⟩ := h
    cases h
  · exact Handshake.all_presents ⟨world, P, a.session.keys, cfg⟩ (s := a.start.handshakeState a.session) rfl h

variable (cfg world P)

/-- Along a clock that does not run backwards, and while the seconds that tokens
have left can be counted in 64 bits, a token that a handshake has killed is not
presented by a later one. -/
theorem killed_not_presented (setup : Except Error Unit) (rounds : List (Round C σ)) (handler : η)
    (shared : SharedState σ)
    (hclock : (runAttempts cfg world P setup rounds handler shared).Pairwise fun a b => a.now world ≤ b.now world)
    (hcount : ∀ a ∈ runAttempts cfg world P setup rounds handler shared, a.start.shared.token.isEmpty = false →
      a.start.shared.token.Countable (a.now world)) :
    (runAttempts cfg world P setup rounds handler shared).Pairwise fun a b =>
      ∀ token, a.Kills cfg world P token → ¬ b.Presents cfg world P token := by
  refine hclock.imp_of_mem fun {a b} ha hb hle token hkill hpresent => ?_
  have hd := hkill.displaces
  have htoken : b.start.shared.token = a.start.shared.token := hpresent.1.trans hkill.1.symm
  refine hpresent.not_displaces (hd.later htoken hle (hcount a ha hd.1) (hcount b hb ?_))
  rw [htoken]
  exact hd.1

end Supervisor

/-! ## A count that wraps -/

namespace Handshake

variable {C : Crates} {σ : Type} [TokenStore σ] (env : HandshakeEnv C) (hC : C.Total)
  (hexchanged : ∃ ll, (parseJson env.parsers TokenRace.keyAnswer).bind requireLlOk = .ok ll)

include hC hexchanged

/-- The kill is sent, and not answered; nor is `getkey2`. -/
theorem all_kill_unanswered {s : HsState Unit σ} {hash : Str}
    (hhash : buildTokenHash env.parsers TokenRace.keyAnswer s.shared.token = .ok hash)
    (hd : Displaces env.world s.pos s.shared) (hw : s.writes = [])
    (hr : s.reads = answerFrames TokenRace.keyAnswer ++ (answerFrames TokenRace.keyAnswer ++ [.elapsed, .elapsed]))
    (hp : s.handler.panicked = false) (sessionB64 : Str) :
    ∃ e, ∃ s' : HsState Unit σ, e.Plain ∧ all env sessionB64 s = (.error e, s') ∧ s'.shared = s.shared ∧
      s'.handler.panicked = false ∧ cmdKillToken hash env.cfg.username ∈ s'.commands := by
  obtain ⟨g₁, texts₁, hp₁, hkx⟩ := keyExchange_answer LoxHandler.quiet_unit Supervisor.announceable_keyAnswer hexchanged
    sessionB64 hw hr hp
  let s₁ : HsState Unit σ := { s with
    reads := answerFrames TokenRace.keyAnswer ++ [.elapsed, .elapsed], handler := g₁, texts := texts₁ }
  have hauth := authenticate_displaces env (s := s₁) hd
  obtain ⟨salt, pos, texts, g, hp₂, hkey⟩ := request_answer LoxHandler.quiet_unit Supervisor.announceable_keyAnswer env
    hC cmdGetKey (s := { s₁ with pos := (SaltState.nowSecs env.world s₁.pos).2 }) hw rfl hp₁
  let s₂ : HsState Unit σ := { s₁ with
    salt, pos, texts, reads := [.elapsed, .elapsed], handler := g
    commands := s.commands ++ [cmdGetKey], exchanges := s.exchanges ++ [(cmdGetKey, TokenRace.keyAnswer)] }
  obtain ⟨salt, pos, texts, hkill⟩ := request_elapsed env hC (cmdKillToken hash env.cfg.username) (s := s₂) hw rfl
  let s₃ : HsState Unit σ := { s₂ with
    salt, pos, texts, reads := [.elapsed], commands := s₂.commands ++ [cmdKillToken hash env.cfg.username] }
  obtain ⟨salt, pos, texts, hgetkey2⟩ := request_elapsed env hC (cmdGetkey2 env.cfg.username) (s := s₃) hw rfl
  have hkilled : killToken env s.shared.token { s₁ with pos := (SaltState.nowSecs env.world s₁.pos).2 } =
      (.error (.timeout "handshake response".toList), s₃) := by
    rw [killToken, Prog.bind_ok hkey, hhash]
    exact Prog.bind_error hkill _
  have hacquire := (acquireToken_passed env hkilled).trans (acquireToken_unanswered env hgetkey2)
  have hreplace := hauth.trans (Prog.bind_error hacquire _)
  refine ⟨(Error.timeout "handshake response".toList).inStep "getkey2".toList, { s₃ with
    salt, pos, texts, reads := [], commands := s₃.commands ++ [cmdGetkey2 env.cfg.username] }, ⟨rfl, rfl⟩, ?_, rfl,
    hp₂, ?_⟩
  · rw [all, Prog.bind_ok hkx, Prog.bind_error hreplace]
  · exact List.mem_append_left _ (List.mem_append_right _ (List.mem_singleton_self _))

/-- The token is presented, and there is no answer. -/
theorem all_present_unanswered {s : HsState Unit σ} {hash : Str}
    (hhash : buildTokenHash env.parsers TokenRace.keyAnswer s.shared.token = .ok hash)
    (hne : s.shared.token.isEmpty = false) (hd : ¬ Displaces env.world s.pos s.shared) (hw : s.writes = [])
    (hr : s.reads = answerFrames TokenRace.keyAnswer ++ (answerFrames TokenRace.keyAnswer ++ [.elapsed]))
    (hp : s.handler.panicked = false) (sessionB64 : Str) :
    cmdAuthWithToken hash env.cfg.username ∈ (all env sessionB64 s).2.commands := by
  obtain ⟨g₁, texts₁, hp₁, hkx⟩ := keyExchange_answer LoxHandler.quiet_unit Supervisor.announceable_keyAnswer hexchanged
    sessionB64 hw hr hp
  let s₁ : HsState Unit σ := { s with
    pos := (SaltState.nowSecs env.world s.pos).2
    reads := answerFrames TokenRace.keyAnswer ++ [.elapsed], handler := g₁, texts := texts₁ }
  obtain ⟨salt, pos, texts, g, -, hkey⟩ := request_answer LoxHandler.quiet_unit Supervisor.announceable_keyAnswer env
    hC cmdGetKey (s := s₁) hw rfl hp₁
  let s₂ : HsState Unit σ := { s₁ with
    salt, pos, texts, reads := [.elapsed], handler := g
    commands := s.commands ++ [cmdGetKey], exchanges := s.exchanges ++ [(cmdGetKey, TokenRace.keyAnswer)] }
  obtain ⟨salt, pos, texts, hauth⟩ := request_elapsed env hC (cmdAuthWithToken hash env.cfg.username) (s := s₂) hw rfl
  have hlift : (inStep "getkey".toList (Prog.lift (buildTokenHash env.parsers TokenRace.keyAnswer s.shared.token)) :
      Hs Unit σ Str) s₂ = (.ok hash, s₂) := by rw [hhash]; rfl
  have hlong : ¬ s.shared.token.secondsToExpire (SaltState.nowSecs env.world s.pos).1 < tokenMinRemainingSecs :=
    fun hlt => hd ⟨hne, hlt⟩
  have hpresented : (authenticate env { s with
      reads := answerFrames TokenRace.keyAnswer ++ [.elapsed], handler := g₁, texts := texts₁ } : _ × HsState Unit σ) =
      (.error ((Error.timeout "handshake response".toList).inStep "authwithtoken".toList), { s₂ with
        salt, pos, texts, reads := [], commands := s₂.commands ++ [cmdAuthWithToken hash env.cfg.username] }) := by
    rw [authenticate, Prog.bind_ok (Prog.get_apply _), if_neg (by simp [hne]),
      Prog.bind_ok (secondsToExpire_eq env _ _), if_neg hlong]
    refine Prog.bind_error ?_ _
    rw [reuseToken, Prog.bind_ok (inStep_ok hkey _), Prog.bind_ok hlift]
    exact Prog.bind_error (Prog.mapErr_error hauth _) _
  rw [all, Prog.bind_ok hkx, Prog.bind_error hpresented]
  exact List.mem_append_right _ (List.mem_singleton_self _)

end Handshake

namespace Supervisor

/-- The clock, a second later at every reading. -/
def tickingWorld : World := { sampleWorld with clock := fun n => 1700000000 + UInt64.ofNat n }

theorem tickingWorld_le : tickingWorld.clock 0 ≤ tickingWorld.clock 100 ∧
    tickingWorld.clock 0 ≤ tickingWorld.clock 200 ∧ tickingWorld.clock 100 ≤ tickingWorld.clock 200 := by decide

/-- The answer to `authwithtoken` that gives the token a new expiry. -/
def renewalAnswer (validUntil : Int64) : Bytes :=
  ("\x7b\"LL\":\x7b\"value\":\x7b\"validUntil\":".toList ++ showI64 validUntil ++
    "\x7d,\"code\":\"200\"\x7d\x7d".toList).map fun c => UInt8.ofNat c.toNat

def renewalDocument (validUntil : Int64) : Json :=
  .obj [("LL".toList, .obj [("value".toList, .obj [("validUntil".toList, .num validUntil.toInt)]),
    ("code".toList, .str "200".toList)])]

def renewingParsers (validUntil : Int64) : Parsers :=
  TokenRace.sampleParsers.also (renewalAnswer validUntil) (renewalDocument validUntil)

def renewedToken (validUntil : Int64) : LxToken := { TokenRace.refreshedToken with validUntil }

def renewed (validUntil : Int64) : SharedState (Option LxToken) := ⟨renewedToken validUntil, none⟩

/-- Sessions whose handshake is answered up to `getkey`, and no further. -/
def killSession : SessionWorld sampleCrates (Option LxToken) :=
  displacingSession ⟨100, 0⟩ (answerFrames TokenRace.keyAnswer ++ (answerFrames TokenRace.keyAnswer ++
    [.elapsed, .elapsed]))

def presentSession : SessionWorld sampleCrates (Option LxToken) :=
  displacingSession ⟨200, 0⟩ (answerFrames TokenRace.keyAnswer ++ (answerFrames TokenRace.keyAnswer ++ [.elapsed]))

/-- A session that renews the token, and two attempts after it. -/
def killRounds (validUntil : Int64) : List (Round sampleCrates (Option LxToken)) :=
  [⟨false, silentSession Pos.start (renewalAnswer validUntil), false⟩, ⟨false, killSession, false⟩,
    ⟨false, presentSession, false⟩]

section

variable {validUntil : Int64}

variable (validUntil) in
theorem keyAnswer_ne_renewalAnswer : TokenRace.keyAnswer ≠ renewalAnswer validUntil := by
  intro h
  have hkey : TokenRace.keyAnswer[8]? = some 99 := by decide
  have hrenewal : (renewalAnswer validUntil)[8]? = some 118 := rfl
  rw [h, hrenewal] at hkey
  exact absurd hkey (by decide)

theorem takesBack_renewing (ha : Announceable (renewalAnswer validUntil)) :
    TakesBack (renewingParsers validUntil) TokenRace.refreshedToken (renewedToken validUntil) TokenRace.keyAnswer
      TokenRace.keyAnswer (renewalAnswer validUntil) := by
  have hvalid : Json.asI64 (.num validUntil.toInt) = some validUntil := by
    rw [Json.asI64, if_pos (toInt_fits validUntil), Int64.ofInt_toInt]
  have hread : readValidUntil (.obj [("validUntil".toList, .num validUntil.toInt)]) = .ok validUntil := by
    simp only [readValidUntil, Json.get_head, Option.bind_some, hvalid, Option.some_or]
  have hvalue (missing : Str) : llValue (renewingParsers validUntil) (renewalAnswer validUntil) missing =
      .ok (.obj [("validUntil".toList, .num validUntil.toInt)]) := by
    simp only [llValue, renewingParsers, parseJson_also]
    rfl
  refine takesBack_also (keyAnswer_ne_renewalAnswer validUntil) ha ?_ ?_
  · rw [payloadLlStatus, parseJson_also]
    rfl
  · rw [← renewingParsers]
    simp only [applyValidUntil, hvalue, hread, bind, Except.bind]
    rfl

variable (validUntil) in
theorem buildTokenHash_renewing (token : LxToken) :
    ∃ hash, buildTokenHash (renewingParsers validUntil) TokenRace.keyAnswer token = .ok hash :=
  buildTokenHash_also (keyAnswer_ne_renewalAnswer validUntil) token

theorem exchanged_renewing :
    ∃ ll, (parseJson (renewingParsers validUntil) TokenRace.keyAnswer).bind requireLlOk = .ok ll := by
  rw [renewingParsers, parseJson_keyAnswer_also (keyAnswer_ne_renewalAnswer validUntil)]
  exact ⟨_, rfl⟩

/-- The token is killed and not replaced. -/
theorem round_kill {s : Supervisor Unit (Option LxToken)} (hp : s.handler.panicked = false) (hrx : s.cmdRx = true)
    (hev : s.everConnected = true) (hshared : s.shared = renewed validUntil)
    (hd : Displaces tickingWorld ⟨100, 0⟩ (renewed validUntil)) :
    Attempt.Kills (reuseConfig 0) tickingWorld (renewingParsers validUntil) (renewedToken validUntil)
        ⟨killSession, s.starting⟩ ∧
      ∃ s', round (reuseConfig 0) tickingWorld (renewingParsers validUntil) ⟨false, killSession, false⟩ s = (true, s') ∧
        s'.handler.panicked = false ∧ s'.cmdRx = true ∧ s'.shared = renewed validUntil := by
  obtain ⟨hash, hhash⟩ := buildTokenHash_renewing validUntil s.shared.token
  rw [← hshared] at hd
  obtain ⟨e, hs, hplain, hall, hkept, hp', hkill⟩ := Handshake.all_kill_unanswered
    ⟨tickingWorld, renewingParsers validUntil, sampleKeys, reuseConfig 0⟩ sampleCrates_lawful.toTotal
    exchanged_renewing (s := s.handshakeState killSession) hhash hd rfl rfl hp killSession.sessionB64
  have hcommands : Attempt.commands (reuseConfig 0) tickingWorld (renewingParsers validUntil)
      ⟨killSession, s.starting⟩ = hs.commands := congrArg (fun x => x.2.commands) hall
  refine ⟨⟨congrArg SharedState.token hshared, _, hcommands ▸ hkill, Handshake.killToken_tag _ _⟩, ?_⟩
  obtain ⟨-, s₁, hround, hh, hshared₁, hrx₁, hev₁, -, -⟩ := round_failed (reuseConfig 0) tickingWorld
    (renewingParsers validUntil) (r := ⟨false, killSession, false⟩) rfl hp hrx rfl hall
  rw [react_plain _ hplain, if_pos (hev₁.trans hev),
    waitReconnect_goes_on (reuseConfig 0) (s := s₁) rfl .normal] at hround
  exact ⟨_, hround, (congrArg HandlerGuard.panicked hh).trans hp', hrx₁, hshared₁.trans (hkept.trans hshared)⟩

variable (validUntil) in
theorem killRounds_attempts (ha : Announceable (renewalAnswer validUntil))
    (hd : Displaces tickingWorld ⟨100, 0⟩ (renewed validUntil)) :
    ∃ s₁ s₂ : Supervisor Unit (Option LxToken),
      runAttempts (reuseConfig 0) tickingWorld (renewingParsers validUntil) (.ok ()) (killRounds validUntil) ()
          reusing =
        [⟨silentSession Pos.start (renewalAnswer validUntil), (start () reusing).starting⟩, ⟨killSession, s₁⟩,
          ⟨presentSession, s₂⟩] ∧
      Attempt.Kills (reuseConfig 0) tickingWorld (renewingParsers validUntil) (renewedToken validUntil)
        ⟨killSession, s₁⟩ ∧
      s₂.shared = renewed validUntil ∧ s₂.handler.panicked = false := by
  have hstart : ¬ Displaces tickingWorld Pos.start (start () reusing).shared := by
    rintro ⟨-, h⟩
    revert h
    decide
  obtain ⟨s₁, hround₁, hp₁, hrx₁, hshared₁, hev₁, -, -⟩ := round_silent (n := 0)
    (s := start () reusing) rfl rfl rfl hstart (takesBack_renewing ha) rfl
  obtain ⟨hkill, s₂, hround₂, hp₂, hrx₂, hshared₂⟩ := round_kill hp₁ hrx₁ hev₁ hshared₁ hd
  refine ⟨s₁.starting, s₂.starting, ?_, hkill, hshared₂, hp₂⟩
  rw [runAttempts, killRounds, attempts_cons _ _ _ rfl rfl rfl hround₁, attempts_cons _ _ _ rfl hp₁ hrx₁ hround₂,
    attempts_last _ _ _ rfl hp₂ hrx₂]

end

/-- A token with 200 seconds left is killed, and not presented by the next
handshake. -/
theorem killed_not_presented_expiring :
    ∃ a₁ a₂ a₃ : Attempt sampleCrates Unit (Option LxToken),
      runAttempts (reuseConfig 0) tickingWorld (renewingParsers 469232300) (.ok ()) (killRounds 469232300) () reusing =
        [a₁, a₂, a₃] ∧
      a₂.Kills (reuseConfig 0) tickingWorld (renewingParsers 469232300) (renewedToken 469232300) ∧
      ¬ a₃.Presents (reuseConfig 0) tickingWorld (renewingParsers 469232300) (renewedToken 469232300) := by
  obtain ⟨s₁, s₂, hrun, hkill, hshared₂, -⟩ := killRounds_attempts 469232300
    ⟨by decide, by decide⟩ ⟨by decide, by decide⟩
  have hnot := killed_not_presented (reuseConfig 0) tickingWorld (renewingParsers 469232300) (.ok ())
    (killRounds 469232300) () reusing
  rw [hrun] at hnot
  have hcount₁ : reusing.token.Countable (tickingWorld.clock 0) := by decide
  have hcount₂ : (renewedToken 469232300).Countable (tickingWorld.clock 100) := by decide
  have hcount₃ : (renewed 469232300).token.Countable (tickingWorld.clock 200) := by decide
  rw [← hshared₂] at hcount₃
  rw [← hkill.1] at hcount₂
  have hpairs := hnot
    (.cons (List.forall_mem_cons.mpr ⟨tickingWorld_le.1, List.forall_mem_singleton.mpr tickingWorld_le.2.1⟩)
      (List.pairwise_pair.mpr tickingWorld_le.2.2))
    (List.forall_mem_cons.mpr ⟨fun _ => hcount₁, List.forall_mem_cons.mpr ⟨fun _ => hcount₂,
      List.forall_mem_singleton.mpr fun _ => hcount₃⟩⟩)
  exact ⟨_, _, _, hrun, hkill, List.pairwise_pair.mp hpairs.of_cons _ hkill⟩

/-- The token's expiry is 2⁶³ seconds ago less ten when it is killed, and more than
2⁶³ seconds ago when it is presented. -/
theorem killed_token_presented :
    ∃ a₁ a₂ a₃ : Attempt sampleCrates Unit (Option LxToken),
      runAttempts (reuseConfig 0) tickingWorld (renewingParsers (-9223372036385543698)) (.ok ())
          (killRounds (-9223372036385543698)) () reusing = [a₁, a₂, a₃] ∧
      a₁.now tickingWorld ≤ a₂.now tickingWorld ∧ a₂.now tickingWorld ≤ a₃.now tickingWorld ∧
      a₂.Kills (reuseConfig 0) tickingWorld (renewingParsers (-9223372036385543698))
        (renewedToken (-9223372036385543698)) ∧
      a₃.Presents (reuseConfig 0) tickingWorld (renewingParsers (-9223372036385543698))
        (renewedToken (-9223372036385543698)) := by
  obtain ⟨s₁, s₂, hrun, hkill, hshared₂, hp₂⟩ := killRounds_attempts (-9223372036385543698)
    ⟨by decide, by decide⟩ ⟨by decide, by decide⟩
  obtain ⟨hash, hhash⟩ := buildTokenHash_renewing (-9223372036385543698) s₂.shared.token
  have hne : s₂.shared.token.isEmpty = false := by
    rw [hshared₂]
    rfl
  have hkept : ¬ Displaces tickingWorld ⟨200, 0⟩ s₂.shared := by
    rw [hshared₂]
    rintro ⟨-, h⟩
    revert h
    decide
  have hpresents := Handshake.all_present_unanswered
    ⟨tickingWorld, renewingParsers (-9223372036385543698), sampleKeys, reuseConfig 0⟩
    sampleCrates_lawful.toTotal exchanged_renewing (s := s₂.handshakeState presentSession) hhash
    hne hkept rfl rfl hp₂ presentSession.sessionB64
  exact ⟨_, _, _, hrun, tickingWorld_le.1, tickingWorld_le.2.2, hkill, congrArg SharedState.token hshared₂, _,
    hpresents, Handshake.authWithToken_tag _ _⟩

end Supervisor

end Lox
