import LoxWebsocket.Client.Handshake

/-!
# What the parts of a handshake keep

Reading touches the stream and the handler, and nothing else (`OnlyReads`).
Every part of the handshake stops at the first error, save the kill of a token
that is to be replaced. So what a successful read keeps, each such part keeps,
and what a failed read leaves, it leaves (`Reading`); the same from what
requests keep and leave (`Contract`, `Parts`). What the handler is told while an answer
is read is all that it is told: what that keeps of the handler, the handshake
keeps, however it ends (`Hearing`).
-/

namespace Lox.Handshake

variable {C : Crates} {η σ : Type}

/-! ## Reading -/

/-- Nothing but the stream and the handler has changed. -/
def OnlyReads (s s' : HsState η σ) : Prop := s' = { s with reads := s'.reads, handler := s'.handler }

instance : IsPreorder (HsState η σ) OnlyReads where
  refl _ := rfl
  trans a b c hab hbc := by
    unfold OnlyReads at *
    rw [hbc, hab]

theorem readFrameBytes_onlyReads : (readFrameBytes : Hs η σ Bytes).Keeps OnlyReads := by
  intro s
  simp only [readFrameBytes, Prog.tryAct]
  repeat' split
  all_goals exact rfl

theorem guarded_onlyReads {ρ : Type} (f : Handled η → Option ρ × Handled η) :
    (guarded f : Hs η σ ρ).Keeps OnlyReads := fun _ => rfl

theorem readHeader_onlyReads : (readHeader : Hs η σ WsBinHdr).Keeps OnlyReads := by
  refine readFrameBytes_onlyReads.bind fun bytes => ?_
  split
  · exact Prog.keeps_fail _
  · exact Prog.keeps_pure _
  · exact Prog.keeps_fail _

theorem readBody_onlyReads (hdr : WsBinHdr) : (readBody hdr : Hs η σ Bytes).Keeps OnlyReads := by
  unfold readBody
  split
  · exact Prog.keeps_pure _
  · exact readFrameBytes_onlyReads

theorem readPayloadLoop_onlyReads [LoxHandler η] (n : Nat) :
    (readPayloadLoop n : Hs η σ Bytes).Keeps OnlyReads := by
  induction n with
  | zero => exact Prog.keeps_fail _
  | succ n ih =>
    unfold readPayloadLoop
    refine readHeader_onlyReads.bind fun hdr => ?_
    split
    · exact ih
    split
    · exact Prog.keeps_fail _
    refine (readBody_onlyReads hdr).bind fun payload => ?_
    split
    · exact (guarded_onlyReads _).bind fun _ => Prog.keeps_pure _
    · exact (guarded_onlyReads _).bind fun _ => ih

/-- Sending touches the writes to come and what has been written. -/
theorem sendText_onlyWrites (text : Str) :
    (sendText text : Hs η σ Unit).Keeps fun s s' => s' = { s with writes := s'.writes, texts := s'.texts } := by
  intro s
  simp only [sendText, Prog.tryAct]
  split
  all_goals exact rfl

/-- The key exchange reads and sends, and changes nothing else. -/
def OnlyTalks (s s' : HsState η σ) : Prop :=
  s' = { s with reads := s'.reads, handler := s'.handler, writes := s'.writes, texts := s'.texts }

instance : IsPreorder (HsState η σ) OnlyTalks where
  refl _ := rfl
  trans a b c hab hbc := by
    unfold OnlyTalks at *
    rw [hbc, hab]

theorem keyExchange_onlyTalks [LoxHandler η] (env : HandshakeEnv C) (sessionB64 : Str) :
    (keyExchange env sessionB64 : Hs η σ Unit).Keeps OnlyTalks := by
  refine Prog.Keeps.mapErr ?_ _
  refine ((sendText_onlyWrites _).mono fun s s' h => by unfold OnlyTalks; rw [h]).bind fun _ => ?_
  refine ((readPayloadLoop_onlyReads _).mono fun s s' h => by unfold OnlyTalks; rw [h]).bind fun resp => ?_
  exact (Prog.keeps_lift _).bind fun root => (Prog.keeps_lift _).bind fun _ => Prog.keeps_pure _

/-! ## What a read keeps -/

/-- `I` speaks of the stream; a successful read keeps it, and what a failed one
leaves is in `F`, whatever step it is reported for. -/
structure Reading (I : HsState η σ → Prop) (F : Error → HsState η σ → Prop) : Prop where
  fails : ∀ e s, I s → F e s
  inStep : ∀ e s step, F e s → F (e.inStep step) s
  congr : ∀ s s' : HsState η σ, s'.reads = s.reads → I s → I s'
  read : readFrameBytes.Upholds I F

namespace Reading

variable {I : HsState η σ → Prop} {F : Error → HsState η σ → Prop}

/-- A part that leaves the stream alone. -/
theorem of_keeps (h : Reading I F) {α : Type} {x : Hs η σ α} (hx : x.Keeps fun s s' => s'.reads = s.reads) :
    x.Upholds I F :=
  hx.upholds h.congr h.fails

theorem readHeader (h : Reading I F) : readHeader.Upholds I F := by
  refine h.read.bind fun bytes => ?_
  split
  · exact Prog.upholds_fail h.fails _
  · exact Prog.upholds_pure _
  · exact Prog.upholds_fail h.fails _

theorem readBody (h : Reading I F) (hdr : WsBinHdr) : (readBody hdr).Upholds I F := by
  unfold Handshake.readBody
  split
  · exact Prog.upholds_pure _
  · exact h.read

theorem guarded (h : Reading I F) {ρ : Type} (f : Handled η → Option ρ × Handled η) :
    (guarded f : Hs η σ ρ).Upholds I F := h.of_keeps fun _ => rfl

theorem readPayloadLoop [LoxHandler η] (h : Reading I F) (n : Nat) : (readPayloadLoop n).Upholds I F := by
  induction n with
  | zero => exact Prog.upholds_fail h.fails _
  | succ n ih =>
    unfold Handshake.readPayloadLoop
    refine h.readHeader.bind fun hdr => ?_
    split
    · exact ih
    split
    · exact Prog.upholds_fail h.fails _
    refine (h.readBody hdr).bind fun body => ?_
    split
    · exact (h.guarded _).bind fun _ => Prog.upholds_pure _
    · exact (h.guarded _).bind fun _ => ih

theorem sendText (h : Reading I F) (text : Str) : (sendText text).Upholds I F :=
  h.of_keeps ((sendText_onlyWrites text).mono fun s s' hs => by rw [hs])

theorem keyExchange [LoxHandler η] (h : Reading I F) (env : HandshakeEnv C) (sessionB64 : Str) :
    (keyExchange env sessionB64).Upholds I F := by
  refine Prog.Upholds.mapErr (F := F) ?_ fun e s => h.inStep e s _
  refine (h.sendText _).bind fun _ => (h.readPayloadLoop _).bind fun resp => ?_
  exact (Prog.upholds_lift h.fails _).bind fun root => (Prog.upholds_lift h.fails _).bind fun _ =>
    Prog.upholds_pure _

theorem request [LoxHandler η] (h : Reading I F) (env : HandshakeEnv C) (cmd : Str) :
    (request env cmd).Upholds I F := by
  refine Prog.Upholds.bind (h.of_keeps fun _ => rfl) fun encrypted => (h.sendText encrypted).bind fun _ => ?_
  refine Prog.Upholds.bind (h.of_keeps fun _ => rfl) fun _ => (h.readPayloadLoop _).bind fun resp => ?_
  exact Prog.Upholds.bind (h.of_keeps fun _ => rfl) fun _ => Prog.upholds_pure _

end Reading

/-- What follows the kill of a displaced token is what is done without one. -/
theorem acquireToken_eq [LoxHandler η] (env : HandshakeEnv C) (displaced : Option LxToken) :
    (acquireToken env displaced : Hs η σ LxToken) = (do
      killDisplaced env displaced
      acquireToken env none) := rfl

/-! ## What a request keeps -/

/-- A successful request keeps `I`, and what a failed one leaves is in `F`. The
parts between the requests leave the stream and the records of commands
alone. -/
structure Contract [LoxHandler η] (env : HandshakeEnv C) (I : HsState η σ → Prop)
    (F : Error → HsState η σ → Prop) : Prop where
  fails : ∀ e s, I s → F e s
  inStep : ∀ e s step, F e s → F (e.inStep step) s
  congr : ∀ s s' : HsState η σ, s'.reads = s.reads → s'.commands = s.commands → s'.exchanges = s.exchanges →
    I s → I s'
  request : ∀ cmd, (request env cmd).Upholds I F

theorem Reading.contract [LoxHandler η] {I : HsState η σ → Prop} {F : Error → HsState η σ → Prop}
    (h : Reading I F) (env : HandshakeEnv C) : Contract env I F :=
  ⟨h.fails, h.inStep, fun s s' hr _ _ => h.congr s s' hr, h.request env⟩

namespace Contract

variable [LoxHandler η] {env : HandshakeEnv C} {I : HsState η σ → Prop} {F : Error → HsState η σ → Prop}

theorem step {α : Type} (h : Contract env I F) {x : Hs η σ α} (hx : x.Upholds I F) (name : Str) :
    (Handshake.inStep name x).Upholds I F :=
  hx.mapErr fun e s => h.inStep e s name

theorem lift {α : Type} (h : Contract env I F) (r : Except Error α) : (Prog.lift r : Hs η σ α).Upholds I F :=
  Prog.upholds_lift h.fails r

theorem reuseToken (h : Contract env I F) (token : LxToken) : (reuseToken env token).Upholds I F := by
  refine (h.step (h.request _) _).bind fun keyResp => (h.step (h.lift _) _).bind fun hash => ?_
  refine (h.step (h.request _) _).bind fun auth => ?_
  split
  · exact (h.step (h.lift _) _).bind fun token => Prog.upholds_pure _
  · exact Prog.upholds_pure _
  · exact Prog.upholds_fail h.fails _

theorem killToken (h : Contract env I F) (token : LxToken) : (killToken env token).Upholds I F := by
  refine (h.request _).bind fun keyResp => (h.lift _).bind fun hash => ?_
  exact (h.request _).bind fun _ => Prog.upholds_pure _

/-- A token is acquired, without one to displace. -/
theorem acquireToken (h : Contract env I F) : (acquireToken env none).Upholds I F := by
  refine (Prog.upholds_pure ()).bind fun _ => ?_
  refine (h.step (h.request _) _).bind fun getkey2 => (h.step (h.lift _) _).bind fun x => ?_
  refine (h.step (h.request _) _).bind fun resp => (h.lift _).bind fun token => ?_
  split
  · exact Prog.upholds_fail h.fails _
  · exact Prog.upholds_pure _

theorem replaceToken [TokenStore σ] (h : Contract env I F) : (replaceToken env none).Upholds I F :=
  h.acquireToken.bind fun _ => Prog.upholds_modify fun s => h.congr s _ rfl rfl rfl

theorem enableUpdates (h : Contract env I F) : (enableUpdates env).Upholds I F := by
  refine (h.request _).bind fun resp => ?_
  split
  · split
    · exact Prog.upholds_fail h.fails _
    · exact Prog.upholds_pure _
  · exact Prog.upholds_pure _

end Contract

/-- The parts of a handshake, but for the key exchange and the kill of a
displaced token, keep `I`. -/
structure Parts [LoxHandler η] [TokenStore σ] (env : HandshakeEnv C) (I : HsState η σ → Prop)
    (F : Error → HsState η σ → Prop) : Prop where
  congr : ∀ s s' : HsState η σ, s'.reads = s.reads → s'.commands = s.commands → s'.exchanges = s.exchanges →
    I s → I s'
  reuseToken : ∀ token, (reuseToken env token).Upholds I F
  replaceToken : (replaceToken env none).Upholds I F
  enableUpdates : (enableUpdates env).Upholds I F

theorem Contract.parts [LoxHandler η] [TokenStore σ] {env : HandshakeEnv C} {I : HsState η σ → Prop}
    {F : Error → HsState η σ → Prop} (h : Contract env I F) : Parts env I F :=
  ⟨h.congr, h.reuseToken, h.replaceToken, h.enableUpdates⟩

/-! ## What the handler is told -/

/-- `R` speaks of the handler, and what it is told of a message keeps it. -/
structure Hearing [LoxHandler η] (R : HsState η σ → HsState η σ → Prop) : Prop where
  congr : ∀ s s' : HsState η σ, s'.handler = s.handler → R s s'
  raw : ∀ msgType payload, (guarded fun h => h.call (.onRawPayload msgType payload) : Hs η σ Unit).Keeps R
  event : ∀ msgType payload, (guarded fun h => rawThenEvent msgType payload h : Hs η σ Bool).Keeps R

namespace Hearing

variable [LoxHandler η] {R : HsState η σ → HsState η σ → Prop}

/-- A part that leaves the handler alone. -/
theorem of_keeps (h : Hearing R) {α : Type} {x : Hs η σ α} (hx : x.Keeps fun s s' => s'.handler = s.handler) :
    x.Keeps R := hx.mono h.congr

theorem readFrameBytes (h : Hearing R) : (readFrameBytes : Hs η σ Bytes).Keeps R := by
  refine h.of_keeps fun s => ?_
  simp only [Handshake.readFrameBytes, Prog.tryAct]
  repeat' split
  all_goals exact rfl

theorem sendText (h : Hearing R) (text : Str) : (sendText text : Hs η σ Unit).Keeps R :=
  h.of_keeps ((sendText_onlyWrites text).mono fun s s' hs => by rw [hs])

variable [IsPreorder (HsState η σ) R]

theorem readHeader (h : Hearing R) : (readHeader : Hs η σ WsBinHdr).Keeps R := by
  refine h.readFrameBytes.bind fun bytes => ?_
  split
  · exact Prog.keeps_fail _
  · exact Prog.keeps_pure _
  · exact Prog.keeps_fail _

theorem readBody (h : Hearing R) (hdr : WsBinHdr) : (readBody hdr : Hs η σ Bytes).Keeps R := by
  unfold Handshake.readBody
  split
  · exact Prog.keeps_pure _
  · exact h.readFrameBytes

theorem readPayloadLoop (h : Hearing R) (n : Nat) : (readPayloadLoop n : Hs η σ Bytes).Keeps R := by
  induction n with
  | zero => exact Prog.keeps_fail _
  | succ n ih =>
    unfold Handshake.readPayloadLoop
    refine h.readHeader.bind fun hdr => ?_
    split
    · exact ih
    split
    · exact Prog.keeps_fail _
    refine (h.readBody hdr).bind fun payload => ?_
    split
    · exact (h.raw _ _).bind fun _ => Prog.keeps_pure _
    · exact (h.event _ _).bind fun _ => ih

theorem request (h : Hearing R) (env : HandshakeEnv C) (cmd : Str) : (request env cmd : Hs η σ Bytes).Keeps R := by
  refine Prog.Keeps.bind (h.of_keeps fun _ => rfl) fun encrypted => (h.sendText encrypted).bind fun _ => ?_
  refine Prog.Keeps.bind (h.of_keeps fun _ => rfl) fun _ => (h.readPayloadLoop _).bind fun resp => ?_
  exact Prog.Keeps.bind (h.of_keeps fun _ => rfl) fun _ => Prog.keeps_pure _

theorem keyExchange (h : Hearing R) (env : HandshakeEnv C) (sessionB64 : Str) :
    (keyExchange env sessionB64 : Hs η σ Unit).Keeps R := by
  refine Prog.Keeps.mapErr ?_ _
  refine (h.sendText _).bind fun _ => (h.readPayloadLoop _).bind fun resp => ?_
  exact (Prog.keeps_lift _).bind fun root => (Prog.keeps_lift _).bind fun _ => Prog.keeps_pure _

theorem reuseToken (h : Hearing R) (env : HandshakeEnv C) (token : LxToken) :
    (reuseToken env token : Hs η σ (Option LxToken)).Keeps R := by
  refine ((h.request env _).mapErr _).bind fun keyResp => ((Prog.keeps_lift _).mapErr _).bind fun hash => ?_
  refine ((h.request env _).mapErr _).bind fun auth => ?_
  split
  · exact ((Prog.keeps_lift _).mapErr _).bind fun token => Prog.keeps_pure _
  · exact Prog.keeps_pure _
  · exact Prog.keeps_fail _

theorem killDisplaced (h : Hearing R) (env : HandshakeEnv C) (displaced : Option LxToken) :
    (killDisplaced env displaced : Hs η σ Unit).Keeps R := by
  cases displaced with
  | none => exact Prog.keeps_pure _
  | some old =>
    have hkill : (killToken env old : Hs η σ Unit).Keeps R :=
      (h.request env _).bind fun keyResp => (Prog.keeps_lift _).bind fun hash =>
        (h.request env _).bind fun _ => Prog.keeps_pure _
    exact hkill.attempt.bind fun _ => Prog.keeps_pure _

theorem replaceToken [TokenStore σ] (h : Hearing R) (env : HandshakeEnv C) (displaced : Option LxToken) :
    (replaceToken env displaced : Hs η σ Unit).Keeps R := by
  have hacquire : (acquireToken env displaced : Hs η σ LxToken).Keeps R := by
    refine (h.killDisplaced env displaced).bind fun _ => ((h.request env _).mapErr _).bind fun getkey2 => ?_
    refine ((Prog.keeps_lift _).mapErr _).bind fun x => ((h.request env _).mapErr _).bind fun resp => ?_
    refine (Prog.keeps_lift _).bind fun token => ?_
    split
    · exact Prog.keeps_fail _
    · exact Prog.keeps_pure _
  exact hacquire.bind fun _ => h.of_keeps fun _ => rfl

theorem authenticate [TokenStore σ] (h : Hearing R) (env : HandshakeEnv C) :
    (authenticate env : Hs η σ Unit).Keeps R := by
  refine Prog.Keeps.bind (h.of_keeps fun _ => rfl) fun s => ?_
  dsimp only
  split
  · exact h.replaceToken env none
  refine Prog.Keeps.bind (h.of_keeps fun _ => rfl) fun remaining => ?_
  split
  · exact h.replaceToken env _
  refine (h.reuseToken env _).bind fun token => ?_
  split
  · exact h.of_keeps fun _ => rfl
  · exact Prog.Keeps.bind (h.of_keeps fun _ => rfl) fun _ => h.replaceToken env none

theorem enableUpdates (h : Hearing R) (env : HandshakeEnv C) : (enableUpdates env : Hs η σ Unit).Keeps R := by
  refine (h.request env _).bind fun resp => ?_
  split
  · split
    · exact Prog.keeps_fail _
    · exact Prog.keeps_pure _
  · exact Prog.keeps_pure _

end Hearing

end Lox.Handshake
