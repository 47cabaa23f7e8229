import LoxWebsocket.Client.HandshakeParts

/-!
# Authentication keeps or replaces the token

However the answers, the clock and the stream go, a successful
`Handshake.authenticate` leaves a non-empty token: the stored one with the
`authwithtoken` answer applied, or that of the `getjwt` answer. A failed one
leaves the token and its store as they were, unless the Miniserver answered
`authwithtoken` with a status that speaks of the token, which clears it. No
`getjwt` is sent after an `authwithtoken` that was accepted
(`authenticate_token`).

What the handshake does besides sending commands and reading answers is kept by
`Same`; which commands a part of it may send, by `Grew`.
-/

namespace Lox.Handshake

variable {C : Crates} {η σ : Type}

/-! ## Frames leave the token alone -/

/-- The shared state and the records of commands are the same. -/
structure Same (s s' : HsState η σ) : Prop where
  shared : s'.shared = s.shared
  commands : s'.commands = s.commands
  exchanges : s'.exchanges = s.exchanges

theorem Same.trans {a b c : HsState η σ} (h : Same a b) (h' : Same b c) : Same a c :=
  ⟨h'.shared.trans h.shared, h'.commands.trans h.commands, h'.exchanges.trans h.exchanges⟩

instance : IsPreorder (HsState η σ) Same where
  refl _ := ⟨rfl, rfl, rfl⟩
  trans _ _ _ := Same.trans

theorem OnlyReads.same {s s' : HsState η σ} (h : OnlyReads s s') : Same s s' := by
  rw [h]
  exact ⟨rfl, rfl, rfl⟩

theorem sendText_same (text : Str) : (sendText text : Hs η σ Unit).Keeps Same :=
  (sendText_onlyWrites text).mono fun s s' h => by
    rw [h]
    exact ⟨rfl, rfl, rfl⟩

theorem encrypt_same (env : HandshakeEnv C) (cmd : Str) : (encrypt env cmd : Hs η σ Str).Keeps Same :=
  fun _ => ⟨rfl, rfl, rfl⟩

theorem secondsToExpire_same (env : HandshakeEnv C) (token : LxToken) :
    (secondsToExpire env token : Hs η σ Int64).Keeps Same := fun _ => ⟨rfl, rfl, rfl⟩

theorem readPayloadLoop_same [LoxHandler η] (n : Nat) : (readPayloadLoop n : Hs η σ Bytes).Keeps Same :=
  (readPayloadLoop_onlyReads n).mono fun _ _ => OnlyReads.same

/-! ## Commands -/

/-- The shared state is the same, and only commands in `good` were sent and
answered. -/
structure Grew (good : Str → Prop) (s s' : HsState η σ) : Prop where
  shared : s'.shared = s.shared
  commands : ∀ c ∈ s'.commands, c ∈ s.commands ∨ good c
  exchanges : ∀ x ∈ s'.exchanges, x ∈ s.exchanges ∨ good x.1
  recorded : s.exchanges ⊆ s'.exchanges

theorem Grew.trans {good : Str → Prop} {a b c : HsState η σ} (h : Grew good a b) (h' : Grew good b c) :
    Grew good a c :=
  ⟨h'.shared.trans h.shared, fun x hx => (h'.commands x hx).elim (h.commands x) .inr,
    fun x hx => (h'.exchanges x hx).elim (h.exchanges x) .inr, List.Subset.trans h.recorded h'.recorded⟩

instance (good : Str → Prop) : IsPreorder (HsState η σ) (Grew good) where
  refl _ := ⟨rfl, fun _ => .inl, fun _ => .inl, List.Subset.refl _⟩
  trans _ _ _ := Grew.trans

theorem Grew.mono {good good' : Str → Prop} (hg : ∀ c, good c → good' c) {s s' : HsState η σ}
    (h : Grew good s s') : Grew good' s s' :=
  ⟨h.shared, fun c hc => (h.commands c hc).imp_right (hg c),
    fun x hx => (h.exchanges x hx).imp_right (hg x.1), h.recorded⟩

theorem Same.grew {good : Str → Prop} {s s' : HsState η σ} (h : Same s s') : Grew good s s' :=
  ⟨h.shared, fun _ hc => .inl (h.commands ▸ hc), fun _ hx => .inl (h.exchanges ▸ hx),
    h.exchanges ▸ List.Subset.refl _⟩

/-- What an answered request leaves. -/
structure Answered (cmd : Str) (resp : Bytes) (s s' : HsState η σ) : Prop where
  shared : s'.shared = s.shared
  commands : s'.commands = s.commands ++ [cmd]
  exchanges : s'.exchanges = s.exchanges ++ [(cmd, resp)]

theorem Answered.grew {cmd : Str} {resp : Bytes} {s s' : HsState η σ} {good : Str → Prop}
    (h : Answered cmd resp s s') (hg : good cmd) : Grew good s s' := by
  refine ⟨h.shared, fun c hc => ?_, fun x hx => ?_, h.exchanges ▸ List.subset_append_left _ _⟩
  · rw [h.commands, List.mem_append, List.mem_singleton] at hc
    rcases hc with hc | rfl
    · exact .inl hc
    · exact .inr hg
  · rw [h.exchanges, List.mem_append, List.mem_singleton] at hx
    rcases hx with hx | rfl
    · exact .inl hx
    · exact .inr hg

theorem Answered.mem {cmd : Str} {resp : Bytes} {s s' : HsState η σ} (h : Answered cmd resp s s') :
    (cmd, resp) ∈ s'.exchanges := by
  rw [h.exchanges]
  exact List.mem_append_right _ (List.mem_singleton_self _)

/-- What a request without an answer leaves. -/
structure Unanswered (cmd : Str) (s s' : HsState η σ) : Prop where
  shared : s'.shared = s.shared
  commands : ∀ c ∈ s'.commands, c ∈ s.commands ∨ c = cmd
  exchanges : s'.exchanges = s.exchanges

theorem Unanswered.grew {cmd : Str} {s s' : HsState η σ} {good : Str → Prop} (h : Unanswered cmd s s')
    (hg : good cmd) : Grew good s s' := by
  refine ⟨h.shared, fun c hc => ?_, fun x hx => .inl (h.exchanges ▸ hx),
    h.exchanges ▸ List.Subset.refl _⟩
  rcases h.commands c hc with hc | rfl
  · exact .inl hc
  · exact .inr hg

theorem Same.unanswered {cmd : Str} {s s' : HsState η σ} (h : Same s s') : Unanswered cmd s s' :=
  ⟨h.shared, fun _ hc => .inl (h.commands ▸ hc), h.exchanges⟩

variable [LoxHandler η] (env : HandshakeEnv C)

theorem request_spec (cmd : Str) (s : HsState η σ) :
    (request env cmd).wp (fun resp s' => Answered cmd resp s s') (fun _ s' => Unanswered cmd s s') s := by
  unfold request
  rw [Prog.wp_bind]
  refine Prog.wp_mono ((encrypt_same env cmd).wp s) (fun text s₁ h₁ => ?_) fun _ s₁ h₁ => h₁.unanswered
  rw [Prog.wp_bind]
  refine Prog.wp_mono ((sendText_same text).wp s₁) (fun _ s₂ h₂ => ?_) fun _ s₂ h₂ =>
    (h₁.trans h₂).unanswered
  rw [Prog.wp_bind, Prog.wp_modify, Prog.wp_bind]
  have h₀₂ := h₁.trans h₂
  refine Prog.wp_mono ((readPayloadLoop_same _).wp _) (fun resp s₃ h₃ => ?_) fun _ s₃ h₃ => ?_
  · rw [Prog.wp_bind, Prog.wp_modify, Prog.wp_pure]
    refine ⟨h₃.shared.trans h₀₂.shared, h₃.commands.trans (congrArg (· ++ [cmd]) h₀₂.commands), ?_⟩
    exact congrArg (· ++ [(cmd, resp)]) (h₃.exchanges.trans h₀₂.exchanges)
  · refine ⟨h₃.shared.trans h₀₂.shared, fun c hc => ?_, h₃.exchanges.trans h₀₂.exchanges⟩
    rw [h₃.commands, List.mem_append, List.mem_singleton, h₀₂.commands] at hc
    exact hc

/-- A request keeps any `Grew` that allows its command. -/
theorem request_grew {good : Str → Prop} {cmd : Str} (hg : good cmd) :
    (request env cmd : Hs η σ Bytes).Keeps (Grew good) := by
  intro s
  have h := request_spec env cmd s
  unfold Prog.wp at h
  split at h
  · rename_i e; rw [e]; exact h.grew hg
  · rename_i e; rw [e]; exact h.grew hg

/-! ## Which commands the parts send -/

/-- A command that presents `token`. -/
def Presents (token : LxToken) (cmd : Str) : Prop :=
  ∃ keyResp hash, buildTokenHash env.parsers keyResp token = .ok hash ∧
    cmd = cmdAuthWithToken hash env.cfg.username

/-- `token` was presented and answered with a status that speaks of it. -/
def Rejected (token : LxToken) (x : Str × Bytes) : Prop :=
  Presents env token x.1 ∧ ∃ code, payloadLlStatus env.parsers x.2 = some code ∧
    code ∉ ["200".toList, "423".toList, "500".toList, "503".toList, "901".toList]

/-- `token` was presented and accepted. -/
def Accepted (token : LxToken) (x : Str × Bytes) : Prop :=
  Presents env token x.1 ∧ payloadLlStatus env.parsers x.2 = some "200".toList

/-- The commands of `reuseToken`. -/
def ReuseCmd (cmd : Str) : Prop := cmd = cmdGetKey ∨ cmdAuthWithTokenTag <+: cmd

/-- The commands of `acquireToken` do not present a token. -/
def AcquireCmd (cmd : Str) : Prop := ¬ cmdAuthWithTokenTag <+: cmd

/-- No text starts with two tags of which neither starts with the other. -/
theorem not_prefix_of_prefix {p q l : Str} (hpq : ¬ p <+: q) (hqp : ¬ q <+: p) (hp : p <+: l) :
    ¬ q <+: l := fun hq =>
  (List.prefix_or_prefix_of_prefix hp hq).elim hpq hqp

theorem authWithToken_tag (hash username : Str) : cmdAuthWithTokenTag <+: cmdAuthWithToken hash username := by
  rw [cmdAuthWithToken, List.append_assoc, List.append_assoc]
  exact List.prefix_append _ _

theorem Presents.tag {token : LxToken} {cmd : Str} (h : Presents env token cmd) :
    cmdAuthWithTokenTag <+: cmd := by
  obtain ⟨_, hash, -, rfl⟩ := h
  exact authWithToken_tag hash _

theorem ReuseCmd.not_getjwt {cmd : Str} (h : ReuseCmd cmd) : ¬ cmdRequestTokenJwt <+: cmd := by
  rcases h with rfl | h
  · decide
  · exact not_prefix_of_prefix (by decide) (by decide) h

theorem acquireCmd_getKey : AcquireCmd cmdGetKey := by unfold AcquireCmd; decide

theorem acquireCmd_of_tag {p cmd : Str} (h₁ : ¬ p <+: cmdAuthWithTokenTag) (h₂ : ¬ cmdAuthWithTokenTag <+: p)
    (h : p <+: cmd) : AcquireCmd cmd := not_prefix_of_prefix h₁ h₂ h

theorem killToken_tag (hash username : Str) : cmdKillTokenTag <+: cmdKillToken hash username := by
  rw [cmdKillToken, List.append_assoc, List.append_assoc]
  exact List.prefix_append _ _

theorem acquireCmd_kill {cmd : Str} (h : cmdKillTokenTag <+: cmd) : AcquireCmd cmd :=
  acquireCmd_of_tag (by decide) (by decide) h

/-- The kill of a displaced token sends `getkey` and `killtoken`. -/
theorem killDisplaced_grew {good : Str → Prop} (hkey : good cmdGetKey)
    (hkill : ∀ cmd, cmdKillTokenTag <+: cmd → good cmd) (displaced : Option LxToken) :
    (killDisplaced env displaced : Hs η σ Unit).Keeps (Grew good) := by
  cases displaced with
  | none => exact Prog.keeps_pure _
  | some old =>
    have hkilled : (killToken env old : Hs η σ Unit).Keeps (Grew good) := by
      refine (request_grew env hkey).bind fun keyResp => (Prog.keeps_lift _).bind fun hash => ?_
      exact (request_grew env (hkill _ (killToken_tag hash _))).bind fun _ => Prog.keeps_pure _
    exact hkilled.attempt.bind fun _ => Prog.keeps_pure _

theorem reuseToken_grew {good : Str → Prop} (hkey : good cmdGetKey)
    (hauth : ∀ cmd, cmdAuthWithTokenTag <+: cmd → good cmd) (token : LxToken) :
    (reuseToken env token : Hs η σ (Option LxToken)).Keeps (Grew good) := by
  refine ((request_grew env hkey).mapErr _).bind fun keyResp => ((Prog.keeps_lift _).mapErr _).bind fun hash => ?_
  refine ((request_grew env (hauth _ (authWithToken_tag hash _))).mapErr _).bind fun auth => ?_
  split
  · exact ((Prog.keeps_lift _).mapErr _).bind fun token => Prog.keeps_pure _
  · exact Prog.keeps_pure _
  · exact Prog.keeps_fail _

theorem enableUpdates_grew {good : Str → Prop} (h : good cmdEnableUpdates) :
    (enableUpdates env : Hs η σ Unit).Keeps (Grew good) := by
  refine (request_grew env h).bind fun resp => ?_
  split
  · split
    · exact Prog.keeps_fail _
    · exact Prog.keeps_pure _
  · exact Prog.keeps_pure _

/-- An acquired token is non-empty and that of a `getjwt` answer; no token was
presented. -/
theorem acquireToken_spec (displaced : Option LxToken) (s : HsState η σ) :
    (acquireToken env displaced).wp
      (fun token s' => Grew AcquireCmd s s' ∧ token.isEmpty = false ∧
        ∃ x ∈ s'.exchanges, cmdRequestTokenJwt <+: x.1 ∧
          ∃ alg, parseTokenResponse env.parsers x.2 alg = .ok token)
      (fun _ s' => Grew AcquireCmd s s') s := by
  unfold acquireToken
  rw [Prog.wp_bind]
  have hkill : (killDisplaced env displaced : Hs η σ Unit).Keeps (Grew AcquireCmd) :=
    killDisplaced_grew env acquireCmd_getKey (fun _ => acquireCmd_kill) displaced
  refine Prog.wp_mono (hkill.wp s) (fun _ s₁ h₁ => ?_) fun _ _ h => h
  have hk : AcquireCmd (cmdGetkey2 env.cfg.username) :=
    acquireCmd_of_tag (p := cmdGetKeyAndSalt) (by decide) (by decide) (List.prefix_append _ _)
  rw [Prog.wp_bind, inStep, Prog.wp_mapErr]
  refine Prog.wp_mono ((request_grew env hk).wp s₁) (fun getkey2 s₂ h₂ => ?_) fun _ _ h => h₁.trans h
  have h₀₂ := h₁.trans h₂
  rw [Prog.wp_bind, inStep, Prog.wp_mapErr, Prog.wp_lift]
  refine ⟨fun ⟨cmd, alg⟩ hcmd => ?_, fun _ _ => h₀₂⟩
  have hj := buildAcquireTokenCmd_prefix _ hcmd
  have hc : AcquireCmd cmd := acquireCmd_of_tag (by decide) (by decide) hj
  simp only
  rw [Prog.wp_bind, inStep, Prog.wp_mapErr]
  refine Prog.wp_mono (request_spec env cmd s₂) (fun resp s₃ h₃ => ?_) fun _ s₃ h₃ => ?_
  · have h₀₃ := h₀₂.trans (h₃.grew hc)
    rw [Prog.wp_bind, Prog.wp_lift]
    refine ⟨fun token ht => ?_, fun _ _ => h₀₃⟩
    split
    · exact h₀₃
    · exact ⟨h₀₃, by simpa using ‹¬ token.isEmpty = true›, _, h₃.mem, hj, alg, ht⟩
  · exact h₀₂.trans (h₃.grew hc)

/-! ## Presenting the token -/

theorem classify_cases (payload : Bytes) :
    (classify env payload = .ok ∧ payloadLlStatus env.parsers payload = some "200".toList) ∨
    (∃ code, classify env payload = .tokenRejected code ∧
      payloadLlStatus env.parsers payload = some code ∧ llStatusInvalidatesToken code = true) ∨
    (∃ e, classify env payload = .failed e ∧ ∀ code, payloadLlStatus env.parsers payload = some code →
      llStatusInvalidatesToken code = false) := by
  unfold classify
  cases hs : payloadLlStatus env.parsers payload with
  | none => exact .inr (.inr ⟨_, rfl, fun code h => by cases h⟩)
  | some code =>
    simp only
    split
    · rename_i h; exact .inl ⟨rfl, by rw [h]⟩
    · split
      · rename_i h; exact .inr (.inl ⟨code, rfl, rfl, h⟩)
      · rename_i h
        refine .inr (.inr ⟨_, rfl, fun code' e => ?_⟩)
        cases e
        simpa using h

theorem invalidates_iff (code : Str) : llStatusInvalidatesToken code = true ↔
    code ∉ ["200".toList, "423".toList, "500".toList, "503".toList, "901".toList] := by
  simp only [llStatusInvalidatesToken, tokenKeepingCodes, Bool.not_eq_true', List.contains_eq_mem,
    decide_eq_false_iff_not]

omit [LoxHandler η] in
/-- The answer to `authwithtoken` is the only one to a command that presents the
token. -/
theorem presented_once {token : LxToken} {keyResp auth : Bytes} {hash : Str} {s s₁ s₂ : HsState η σ}
    (h₁ : Answered cmdGetKey keyResp s s₁) (h₂ : Answered (cmdAuthWithToken hash env.cfg.username) auth s₁ s₂)
    {bad : Str → Prop} (hauth : ∀ code, payloadLlStatus env.parsers auth = some code → ¬ bad code) :
    ∀ x ∈ s₂.exchanges, x ∈ s.exchanges ∨
      ¬ (Presents env token x.1 ∧ ∃ code, payloadLlStatus env.parsers x.2 = some code ∧ bad code) := by
  intro x hx
  rw [h₂.exchanges, h₁.exchanges, List.mem_append, List.mem_append, List.mem_singleton, List.mem_singleton] at hx
  rcases hx with (hx | rfl) | rfl
  · exact .inl hx
  · exact .inr fun h => acquireCmd_getKey h.1.tag
  · refine .inr ?_
    rintro ⟨-, code, hcode, hbad⟩
    exact hauth code hcode hbad

/-- Presenting the token: it is renewed by the answer, or rejected by it, or
neither was answered so. -/
theorem reuseToken_spec (token : LxToken) (s : HsState η σ) :
    (reuseToken env token).wp
      (fun r s' => Grew ReuseCmd s s' ∧
        match r with
        | some renewed => ∃ x ∈ s'.exchanges, Presents env token x.1 ∧
            applyValidUntil env.parsers token x.2 = .ok renewed
        | none => (∃ x ∈ s'.exchanges, Rejected env token x) ∧
            ∀ x ∈ s'.exchanges, x ∈ s.exchanges ∨ ¬ Accepted env token x)
      (fun _ s' => Grew ReuseCmd s s' ∧ ∀ x ∈ s'.exchanges, x ∈ s.exchanges ∨ ¬ Rejected env token x) s := by
  -- until the token is presented, nothing can be rejected
  have quiet : ∀ {s' : HsState η σ}, Grew (· = cmdGetKey) s s' →
      Grew ReuseCmd s s' ∧ ∀ x ∈ s'.exchanges, x ∈ s.exchanges ∨ ¬ Rejected env token x := by
    intro s' h
    refine ⟨h.mono fun c e => .inl e, fun x hx => (h.exchanges x hx).imp_right fun e hr => ?_⟩
    exact acquireCmd_getKey (e ▸ hr.1.tag)
  unfold reuseToken
  rw [Prog.wp_bind, inStep, Prog.wp_mapErr]
  refine Prog.wp_mono (request_spec env cmdGetKey s) (fun keyResp s₁ h₁ => ?_) fun _ _ h => quiet (h.grew rfl)
  have g₁ : Grew (· = cmdGetKey) s s₁ := h₁.grew rfl
  rw [Prog.wp_bind, inStep, Prog.wp_mapErr, Prog.wp_lift]
  refine ⟨fun hash hh => ?_, fun _ _ => quiet g₁⟩
  rw [Prog.wp_bind, inStep, Prog.wp_mapErr]
  have hp : Presents env token (cmdAuthWithToken hash env.cfg.username) := ⟨keyResp, hash, hh, rfl⟩
  refine Prog.wp_mono (request_spec env _ s₁) (fun auth s₂ h₂ => ?_) fun _ s₂ h₂ => ?_
  · have g₂ : Grew ReuseCmd s s₂ := (g₁.mono fun c e => .inl e).trans (h₂.grew (.inr hp.tag))
    rcases classify_cases env auth with ⟨hc, hs⟩ | ⟨code, hc, hs, hi⟩ | ⟨e, hc, hs⟩
    · have notRejected : ∀ x ∈ s₂.exchanges, x ∈ s.exchanges ∨ ¬ Rejected env token x := by
        refine presented_once env h₁ h₂ fun code hcode hbad => hbad ?_
        rw [hs] at hcode
        cases hcode
        exact List.mem_cons_self
      rw [hc]
      simp only
      rw [Prog.wp_bind, inStep, Prog.wp_mapErr, Prog.wp_lift]
      refine ⟨fun renewed hr => ?_, fun _ _ => ⟨g₂, notRejected⟩⟩
      rw [Prog.wp_pure]
      exact ⟨g₂, _, h₂.mem, hp, hr⟩
    · have hbad := (invalidates_iff code).mp hi
      have notAccepted : ∀ x ∈ s₂.exchanges, x ∈ s.exchanges ∨ ¬ (Presents env token x.1 ∧
          ∃ code, payloadLlStatus env.parsers x.2 = some code ∧ code = "200".toList) := by
        refine presented_once env h₁ h₂ fun code' hcode' hok => hbad ?_
        rw [hs] at hcode'
        cases hcode'
        rw [hok]
        exact List.mem_cons_self
      rw [hc]
      simp only
      rw [Prog.wp_pure]
      refine ⟨g₂, ⟨_, h₂.mem, hp, code, hs, hbad⟩, fun x hx => (notAccepted x hx).imp_right fun h ha => h ?_⟩
      exact ⟨ha.1, _, ha.2, rfl⟩
    · rw [hc]
      simp only
      rw [Prog.wp_fail]
      refine ⟨g₂, presented_once env h₁ h₂ fun code hcode hbad => ?_⟩
      have hkept := hs code hcode
      rw [(invalidates_iff code).mpr hbad] at hkept
      cases hkept
  · refine ⟨(g₁.mono fun c e => .inl e).trans (h₂.grew (.inr hp.tag)), fun x hx => ?_⟩
    exact (quiet g₁).2 x (h₂.exchanges ▸ hx)

/-! ## Authentication -/

variable [TokenStore σ]

/-- The records of commands start empty. -/
def fresh (s : HsState η σ) : HsState η σ := { s with commands := [], exchanges := [] }

/-- What a successful authentication from `s` leaves. -/
structure Granted (s s' : HsState η σ) : Prop where
  nonempty : s'.shared.token.isEmpty = false
  /-- The stored token renewed by the `authwithtoken` answer, or the token of
  the `getjwt` answer. -/
  source : (∃ x ∈ s'.exchanges, Presents env s.shared.token x.1 ∧
      applyValidUntil env.parsers s.shared.token x.2 = .ok s'.shared.token) ∨
    ∃ x ∈ s'.exchanges, cmdRequestTokenJwt <+: x.1 ∧
      ∃ alg, parseTokenResponse env.parsers x.2 alg = .ok s'.shared.token
  /-- The store has it. -/
  shared : s'.shared = s.shared.setToken s'.shared.token ∨
    s'.shared = s.shared.clearToken.setToken s'.shared.token

/-- What a failed authentication from `s` leaves. -/
structure Failed (s s' : HsState η σ) : Prop where
  kept : (∀ x ∈ s'.exchanges, ¬ Rejected env s.shared.token x) → s'.shared = s.shared
  cleared : (∃ x ∈ s'.exchanges, Rejected env s.shared.token x) → s'.shared = s.shared.clearToken

/-- No `getjwt` was sent if the token was accepted. -/
def AcceptedOnce (token : LxToken) (s' : HsState η σ) : Prop :=
  (∃ x ∈ s'.exchanges, Accepted env token x) → ∀ c ∈ s'.commands, ¬ cmdRequestTokenJwt <+: c

theorem replaceToken_spec (displaced : Option LxToken) (s : HsState η σ) :
    (replaceToken env displaced).wp
      (fun _ s' => ∃ token, s'.shared = s.shared.setToken token ∧ token.isEmpty = false ∧
        (∃ x ∈ s'.exchanges, cmdRequestTokenJwt <+: x.1 ∧
          ∃ alg, parseTokenResponse env.parsers x.2 alg = .ok token) ∧
        ∀ x ∈ s'.exchanges, x ∈ s.exchanges ∨ AcquireCmd x.1)
      (fun _ s' => Grew AcquireCmd s s') s := by
  unfold replaceToken
  rw [Prog.wp_bind]
  refine Prog.wp_mono (acquireToken_spec env displaced s) (fun token s₁ h => ?_) fun _ _ h => h
  obtain ⟨hg, hne, hx⟩ := h
  exact ⟨token, congrArg (·.setToken token) hg.shared, hne, hx, hg.exchanges⟩

/-- The end of `authenticate` that replaces the token, when the stored one has
not been accepted: it was rejected and cleared, or it was not. -/
theorem replaceToken_ends {s₀ s : HsState η σ} (displaced : Option LxToken)
    (hs : s.shared = s₀.shared ∧ (∀ x ∈ s.exchanges, ¬ Rejected env s₀.shared.token x) ∨
      s.shared = s₀.shared.clearToken ∧ ∃ x ∈ s.exchanges, Rejected env s₀.shared.token x)
    (hacc : ∀ x ∈ s.exchanges, ¬ Accepted env s₀.shared.token x) :
    (replaceToken env displaced).wp
      (fun _ s' => Granted env s₀ s' ∧ AcceptedOnce env s₀.shared.token s')
      (fun _ s' => Failed env s₀ s' ∧ AcceptedOnce env s₀.shared.token s') s := by
  -- what is new in the records presents no token
  have once : ∀ {s' : HsState η σ}, (∀ x ∈ s'.exchanges, x ∈ s.exchanges ∨ AcquireCmd x.1) →
      AcceptedOnce env s₀.shared.token s' := by
    rintro s' hex ⟨x, hx, ha⟩
    rcases hex x hx with h | h
    · exact absurd ha (hacc x h)
    · exact absurd ha.1.tag h
  refine Prog.wp_mono (replaceToken_spec env displaced s) (fun _ s' h => ?_) fun _ s' h => ?_
  · obtain ⟨token, hsh, hne, hx, hex⟩ := h
    have htok : s'.shared.token = token := by rw [hsh]; rfl
    refine ⟨⟨htok ▸ hne, .inr (htok ▸ hx), ?_⟩, once hex⟩
    rw [htok, hsh]
    rcases hs with ⟨h, -⟩ | ⟨h, -⟩
    · exact .inl (by rw [h])
    · exact .inr (by rw [h])
  · refine ⟨⟨fun hr => ?_, fun ⟨x, hx, hrej⟩ => ?_⟩, once h.exchanges⟩
    · rcases hs with ⟨hsh, -⟩ | ⟨-, x, hx, hrej⟩
      · exact h.shared.trans hsh
      · exact absurd hrej (hr x (h.recorded hx))
    · rcases hs with ⟨-, hno⟩ | ⟨hsh, -⟩
      · rcases h.exchanges x hx with h | h
        · exact absurd hrej (hno x h)
        · exact absurd hrej.1.tag h
      · exact h.shared.trans hsh

/-- On every path of `authenticate`, from the shared state of `s` and without
records. -/
theorem authenticate_ends {s s₀ : HsState η σ} (hshared : s₀.shared = s.shared) (hcommands : s₀.commands = [])
    (hexchanges : s₀.exchanges = []) :
    (authenticate env).wp
      (fun _ s' => Granted env s s' ∧ AcceptedOnce env s.shared.token s')
      (fun _ s' => Failed env s s' ∧ AcceptedOnce env s.shared.token s') s₀ := by
  -- the ways to the two endings that do not replace a rejected token
  have start : ∀ displaced {s₁}, Same s₀ s₁ → (replaceToken env displaced).wp
      (fun _ s' => Granted env s s' ∧ AcceptedOnce env s.shared.token s')
      (fun _ s' => Failed env s s' ∧ AcceptedOnce env s.shared.token s') s₁ := by
    intro displaced s₁ h
    have hx : s₁.exchanges = [] := h.exchanges.trans hexchanges
    refine replaceToken_ends env displaced (.inl ⟨h.shared.trans hshared, ?_⟩) ?_ <;> simp [hx]
  have stop : ∀ {s' : HsState η σ}, s'.shared = s.shared →
      (∀ x ∈ s'.exchanges, ¬ Rejected env s.shared.token x) → (∀ c ∈ s'.commands, ReuseCmd c) →
      Failed env s s' ∧ AcceptedOnce env s.shared.token s' := fun hsh hx hc =>
    ⟨⟨fun _ => hsh, fun ⟨x, hm, hr⟩ => absurd hr (hx x hm)⟩, fun _ c hm => (hc c hm).not_getjwt⟩
  unfold authenticate
  rw [Prog.wp_bind, Prog.wp_get, hshared]
  simp only
  split
  · exact start none (refl_of Same _)
  rename_i hne
  rw [Prog.wp_bind]
  refine Prog.wp_mono ((secondsToExpire_same env _).wp _) (fun remaining s₁ h₁ => ?_) fun _ s₁ h₁ => ?_
  · have hx₁ : s₁.exchanges = [] := h₁.exchanges.trans hexchanges
    have hc₁ : s₁.commands = [] := h₁.commands.trans hcommands
    have hs₁ : s₁.shared = s.shared := h₁.shared.trans hshared
    split
    · exact start _ h₁
    rw [Prog.wp_bind]
    refine Prog.wp_mono (reuseToken_spec env _ _) (fun r s₂ h => ?_) fun _ s₂ h => ?_
    · obtain ⟨hg, hr⟩ := h
      have hc₂ : ∀ c ∈ s₂.commands, ReuseCmd c := fun c hc =>
        (hg.commands c hc).resolve_left (by simp [hc₁])
      cases r with
      | some token =>
        obtain ⟨x, hx, hp, ha⟩ := hr
        refine ⟨⟨isEmpty_applyValidUntil _ (by simpa using hne) ha, .inl ⟨x, hx, hp, ha⟩, .inl ?_⟩,
          fun _ c hm => (hc₂ c hm).not_getjwt⟩
        exact congrArg (·.setToken token) (hg.shared.trans hs₁)
      | none =>
        obtain ⟨hrej, hacc⟩ := hr
        simp only
        rw [Prog.wp_bind, clearToken, Prog.wp_modify]
        refine replaceToken_ends env none (.inr ⟨?_, hrej⟩) fun x hx =>
          (hacc x hx).resolve_left (by simp [hx₁])
        exact congrArg (·.clearToken) (hg.shared.trans hs₁)
    · refine stop (h.1.shared.trans hs₁) (fun x hx => (h.2 x hx).resolve_left (by simp [hx₁])) ?_
      exact fun c hc => (h.1.commands c hc).resolve_left (by simp [hc₁])
  · have hx₁ : s₁.exchanges = [] := h₁.exchanges.trans hexchanges
    have hc₁ : s₁.commands = [] := h₁.commands.trans hcommands
    exact stop (h₁.shared.trans hshared) (by simp [hx₁]) (by simp [hc₁])

/-- On every path of `authenticate`, for every stored token, clock and stream:
success leaves a non-empty token that was renewed or acquired; failure leaves
the token and its store as they were, or cleared if the Miniserver rejected it;
and no `getjwt` follows an accepted `authwithtoken`. -/
theorem authenticate_token (s : HsState η σ) :
    (authenticate env).wp
      (fun _ s' => Granted env s s' ∧ AcceptedOnce env s.shared.token s')
      (fun _ s' => Failed env s s' ∧ AcceptedOnce env s.shared.token s') (fresh s) :=
  authenticate_ends env rfl rfl rfl

end Lox.Handshake
