import LoxWebsocket.Client.Displaced

/-!
# A handshake that reuses its token

A token that is not displaced is offered to the Miniserver with `authwithtoken`.
If the Miniserver takes it back (`TakesBack`), the handshake is completed
(`all_reuses`).
-/

namespace Lox

/-- The answers with which the Miniserver takes back a token: to the key exchange,
`getkey` and `authwithtoken`. -/
structure TakesBack (P : Parsers) (token token' : LxToken) (exchanged key auth : Bytes) : Prop where
  announceable : Announceable exchanged ∧ Announceable key ∧ Announceable auth
  exchanged : ∃ ll, (parseJson P exchanged).bind requireLlOk = .ok ll
  hash : ∃ hash, buildTokenHash P key token = .ok hash
  accepted : payloadLlStatus P auth = some "200".toList
  token : applyValidUntil P token auth = .ok token'

namespace Handshake

variable {C : Crates} {η σ : Type} [LoxHandler η] [TokenStore σ] {env : HandshakeEnv C}

omit [LoxHandler η] [TokenStore σ] in
theorem inStep_ok {α : Type} {x : Hs η σ α} {a : α} {s s' : HsState η σ} (h : x s = (.ok a, s')) (step : Str) :
    inStep step x s = (.ok a, s') := Prog.mapErr_ok h _

omit [TokenStore σ] in
theorem reuseToken_accepted (hq : LoxHandler.Quiet η) (hC : C.Total) {token token' : LxToken}
    {exchanged key auth : Bytes} (h : TakesBack env.parsers token token' exchanged key auth) {s : HsState η σ}
    {reads : List ReadEvent}
    (hw : s.writes = []) (hr : s.reads = answerFrames key ++ (answerFrames auth ++ reads))
    (hp : s.handler.panicked = false) :
    ∃ s', reuseToken env token s = (.ok (some token'), s') ∧ s'.reads = reads ∧ s'.handler.panicked = false ∧
      s'.shared = s.shared := by
  obtain ⟨hash, hhash⟩ := h.hash
  obtain ⟨salt, pos, texts, g, hp₁, hkey⟩ := request_answer hq h.announceable.2.1 env hC cmdGetKey hw hr hp
  let s₁ : HsState η σ := { s with
    salt, pos, texts, reads := answerFrames auth ++ reads, handler := g
    commands := s.commands ++ [cmdGetKey], exchanges := s.exchanges ++ [(cmdGetKey, key)] }
  obtain ⟨salt', pos', texts', g', hp₂, hauth⟩ := request_answer hq h.announceable.2.2 env hC
    (cmdAuthWithToken hash env.cfg.username) (s := s₁) hw rfl hp₁
  have hlift : (inStep "getkey".toList (Prog.lift (buildTokenHash env.parsers key token)) : Hs η σ Str) s₁ =
      (.ok hash, s₁) := by rw [hhash]; rfl
  have hreuse (s₂ : HsState η σ) (hs₂ : request env (cmdAuthWithToken hash env.cfg.username) s₁ = (.ok auth, s₂)) :
      reuseToken env token s = (.ok (some token'), s₂) := by
    unfold reuseToken
    rw [Prog.bind_ok (inStep_ok hkey _), Prog.bind_ok hlift, Prog.bind_ok (inStep_ok hs₂ _)]
    simp only [classify, h.accepted, if_true, h.token]
    rfl
  exact ⟨_, hreuse _ hauth, rfl, hp₂, rfl⟩

variable (env)

/-- The handshake is completed, and the token that came back is shared. -/
theorem all_reuses (hq : LoxHandler.Quiet η) (hC : C.Total) (hupdates : env.cfg.receiveUpdates = false)
    {s : HsState η σ} (hne : s.shared.token.isEmpty = false) (hd : ¬ Displaces env.world s.pos s.shared)
    {token' : LxToken} {exchanged key auth : Bytes}
    (h : TakesBack env.parsers s.shared.token token' exchanged key auth) (hw : s.writes = []) {reads : List ReadEvent}
    (hr : s.reads = answerFrames exchanged ++ (answerFrames key ++ (answerFrames auth ++ reads)))
    (hp : s.handler.panicked = false) (sessionB64 : Str) :
    ∃ s', all env sessionB64 s = (.ok (), s') ∧ s'.reads = reads ∧ s'.handler.panicked = false ∧
      s'.shared = s.shared.setToken token' := by
  obtain ⟨g, texts, hp₁, hkx⟩ := keyExchange_answer hq h.announceable.1 h.exchanged sessionB64 hw hr hp
  obtain ⟨s₂, hreuse, hr₂, hp₂, hsh₂⟩ := reuseToken_accepted hq hC h (s := { s with
    pos := (SaltState.nowSecs env.world s.pos).2
    reads := answerFrames key ++ (answerFrames auth ++ reads), handler := g, texts }) hw rfl hp₁
  have hlong : ¬ s.shared.token.secondsToExpire (SaltState.nowSecs env.world s.pos).1 < tokenMinRemainingSecs :=
    fun hlt => hd ⟨hne, hlt⟩
  refine ⟨{ s₂ with shared := s₂.shared.setToken token' }, ?_, hr₂, hp₂, by rw [hsh₂]⟩
  unfold all
  rw [Prog.bind_ok hkx]
  have hauth : authenticate env { s with
      reads := answerFrames key ++ (answerFrames auth ++ reads), handler := g, texts } =
      (.ok (), { s₂ with shared := s₂.shared.setToken token' }) := by
    unfold authenticate
    rw [Prog.bind_ok (Prog.get_apply _)]
    rw [if_neg (by simp [hne]), Prog.bind_ok (secondsToExpire_eq env _ _), if_neg hlong, Prog.bind_ok hreuse]
    rfl
  rw [Prog.bind_ok hauth, hupdates]
  rfl

end Handshake

end Lox
