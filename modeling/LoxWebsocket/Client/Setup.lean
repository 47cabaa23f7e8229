import LoxWebsocket.Client.Http
import LoxWebsocket.Client.Lifecycle

/-!
# Setting up the sessions

What a session does before its handshake: the probe, the pin, the key of the
Miniserver and the connection (`sessionSetup`). `course` is the loop of the
supervisor with it: the pin and the contacts are those of the whole life of a
client.

In a pinning mode a client speaks to one key for its whole life
(`one_key_for_life`), and a certificate that announces another one ends it
(`pin_mismatch_ends_client`). A probe that answers settles how a session begins
(`probe_settles`). A client only hangs while it connects
(`only_connecting_hangs`).
-/

namespace Lox

/-- Whether a pin still has to be learned. -/
def TlsContext.needsPinBootstrap (tls : TlsContext) : Bool := tls.mode.pins && tls.pinnedSpki.isNone

/-- What all sessions of a client have in common. -/
structure SetupEnv where
  crates : NetCrates
  parsers : Parsers
  rsa : Rsa
  endpoints : Endpoints
  cfg : ConnectConfig

namespace SetupEnv

variable (E : SetupEnv)

def http : HttpClient := .new E.endpoints

/-- What the Miniserver reports against a session. -/
def verdict (info : ApiInfo) : Option Error :=
  if E.cfg.localOnly && info.isLocal = some false then some .notLocal
  else if E.cfg.receiveUpdates && info.hasEventSlots = some false then some .noEventSlots
  else none

/-- Ask the Miniserver about itself. -/
def preflight : NetM Unit := do
  if !E.cfg.receiveUpdates && !E.cfg.localOnly then pure ()
  else
    match ← NetM.caught (E.http.apiInfo E.crates E.parsers) with
    | .error _ => pure ()
    | .ok info =>
      match E.verdict info with
      | some e => NetM.failed e
      | none => pure ()

/-- Learn the pin, if it has to be learned. -/
def bootstrap : NetM Unit := do
  let net ← Prog.get
  if net.tls.needsPinBootstrap then
    match ← NetM.caught (E.http.bootstrapPin E.crates E.parsers E.cfg.username E.cfg.password) with
    | .error (.tlsPinMismatch expected actual) => NetM.failed (.tlsPinMismatch expected actual)
    | _ => pure ()
  else pure ()

/-- All that comes before the handshake: the wrapped session key. -/
def sessionSetup {C : Crates} (keys : SessionKeys C) (seed : Nat) : NetM Str := do
  E.preflight
  E.bootstrap
  let publicKey ← E.http.getPublicKey E.crates E.parsers E.cfg.username E.cfg.password
  let sessionB64 ← NetM.unpanicked (wrapSessionKey E.rsa seed publicKey keys.sessionPayload)
  wsConnect E.crates E.endpoints
  pure sessionB64

end SetupEnv

/-! ## The loop with its connections -/

/-- A round, with how its connections go and what encrypting draws. -/
structure Trial (C : Crates) (σ : Type) where
  round : Round C σ
  dials : List Dial
  seed : Nat

/-- The round with what came of its setup. -/
def Trial.prepared {C : Crates} {σ : Type} (t : Trial C σ) (setup : Except Error Str) : Round C σ :=
  { t.round with
    session := { t.round.session with setup := setup.map fun _ => (), sessionB64 := setup.toOption.getD [] } }

inductive Ending
  | goesOn
  | ended
  | hangs
  | panics
  deriving DecidableEq

structure Course (η σ : Type) where
  ending : Ending
  supervisor : Supervisor η σ
  net : Net

section

variable (E : SetupEnv) {C : Crates} {η σ : Type} [LoxHandler η] [TokenStore σ] (world : World)

/-- After a round that came to its end. -/
def Course.after (d : Bool × Supervisor η σ) (net : Net) : Course η σ :=
  ⟨if d.1 then .goesOn else .ended, d.2, net⟩

/-- One round. -/
def courseRound (t : Trial C σ) (s : Supervisor η σ) (net : Net) : Course η σ :=
  match Supervisor.attempted t.round s with
  | none => .after (Supervisor.round E.cfg world E.parsers t.round s) net
  | some _ =>
    match E.sessionSetup t.round.session.keys t.seed { net with dials := t.dials } with
    | (.ok sessionB64, net) => .after (Supervisor.round E.cfg world E.parsers (t.prepared (.ok sessionB64)) s) net
    | (.error (.failed e), net) => .after (Supervisor.round E.cfg world E.parsers (t.prepared (.error e)) s) net
    | (.error .hangs, net) => ⟨.hangs, s.starting, net⟩
    | (.error .panics, net) => ⟨.panics, s.starting, net⟩

/-- The loop of the supervisor, each session with its setup. -/
def course : List (Trial C σ) → Supervisor η σ → Net → Course η σ
  | [], s, net => ⟨.goesOn, s, net⟩
  | t :: trials, s, net =>
    match courseRound E world t s net with
    | ⟨.goesOn, s, net⟩ => course trials s net
    | c => c

end

/-! ## Whom a setup contacts -/

open Net NetM

namespace SetupEnv

variable (E : SetupEnv)

/-- The request for the Miniserver's certificate. -/
def certificateRequest : Request := E.http.request cmdGetCertificate (some (E.cfg.username, E.cfg.password))

/-- The request for its key. -/
def keyRequest : Request := E.http.request cmdGetPublicKey (some (E.cfg.username, E.cfg.password))

theorem verdict_cases {info : ApiInfo} {e : Error} (h : E.verdict info = some e) :
    e = .notLocal ∨ e = .noEventSlots := by
  unfold verdict at h
  split_ifs at h
  · exact .inl (Option.some.inj h).symm
  · exact .inr (Option.some.inj h).symm

/-- The probe. -/
def IsProbe (r : Request) : Prop := ∃ path ∈ [cmdApiKey, cmdApi], r = E.http.request path none

theorem preflight_grows : E.preflight.Keeps (Grows E.crates E.endpoints E.IsProbe) := by
  unfold preflight
  split_ifs
  · exact Prog.keeps_pure _
  refine (caught_keeps (E.http.apiInfo_grows E.parsers)).bind fun probed => ?_
  cases probed with
  | error e => exact Prog.keeps_pure _
  | ok info =>
    dsimp only
    split
    · exact failed_keeps _
    · exact Prog.keeps_pure _

/-- The certificate is asked for at most once, and only as long as no key is pinned. -/
theorem bootstrap_asks (net : Net) : (E.bootstrap net).2 = net ∨
    net.tls.pin = none ∧ Asks E.crates E.endpoints E.certificateRequest net (E.bootstrap net).2 := by
  unfold bootstrap
  rw [Prog.bind_ok (Prog.get_apply net)]
  split_ifs with hneeds
  · refine .inr ⟨?_, ?_⟩
    · rw [TlsContext.needsPinBootstrap, Bool.and_eq_true, Option.isNone_iff_eq_none] at hneeds
      exact hneeds.2
    · refine Prog.Keeps.bind_of (S := Quiet) (caught_keeps (E.http.bootstrapPin_requests E.parsers _ _).keeps)
        (fun r => ?_) Asks.quiet net
      split
      · exact failed_keeps _
      · exact Prog.keeps_pure _
  · exact .inl rfl

/-- In a pinning mode: the contacts so far are with the pinned key; they name one
host; and only the first may ask for the certificate, or none if a key is pinned from
the start (`fixed`). -/
structure Sound (fixed : Option Fingerprint) (net : Net) : Prop where
  pins : net.tls.mode.pins = true
  known : ∀ c ∈ net.contacts, net.tls.Knows E.crates c.certificate
  host : ∀ c ∈ net.contacts, c.request.host = E.http.authority
  later : ∀ c ∈ net.contacts.drop (if fixed.isSome then 0 else 1), c.request ≠ E.certificateRequest
  pinned : ∀ spki, fixed = some spki → net.tls.pin = some spki

variable {E}

theorem Sound.pin_ne_none {fixed : Option Fingerprint} {net : Net} (h : E.Sound fixed net) (hc : net.contacts ≠ []) :
    net.tls.pin ≠ none := by
  obtain ⟨c, hmem⟩ := List.exists_mem_of_ne_nil _ hc
  obtain ⟨_, spki, -, -, hpin⟩ := h.known c hmem
  rw [hpin]
  exact Option.some_ne_none spki

theorem pin_ne_none_of_holds {tls tls' : TlsContext} (h : tls.Holds tls') (hpin : tls.pin ≠ none) :
    tls'.pin ≠ none := by
  obtain ⟨spki, hspki⟩ := Option.ne_none_iff_exists'.mp hpin
  rw [h.2 spki hspki]
  exact Option.some_ne_none spki

/-- Requests for anything else keep it. -/
theorem Sound.grows {fixed : Option Fingerprint} {net net' : Net} {Q : Request → Prop}
    (htls : E.endpoints.useTls = true) (h : E.Sound fixed net) (hg : Grows E.crates E.endpoints Q net net')
    (hQ : ∀ r, Q r → r.host = E.http.authority ∧ r ≠ E.certificateRequest) : E.Sound fixed net' := by
  obtain ⟨hholds, new, hcontacts, hnew⟩ := hg
  have hpins : net'.tls.mode.pins = true := by rw [hholds.1, h.pins]
  refine ⟨hpins, fun c hc => ?_, fun c hc => ?_, fun c hc => ?_, fun spki hf => hholds.2 spki (h.pinned spki hf)⟩
  · rw [hcontacts] at hc
    rcases List.mem_append.mp hc with hc | hc
    · exact (h.known c hc).mono hholds
    · exact (hnew c hc).2 htls hpins
  · rw [hcontacts] at hc
    rcases List.mem_append.mp hc with hc | hc
    · exact h.host c hc
    · exact (hQ _ (hnew c hc).1).1
  · rw [hcontacts, List.drop_append] at hc
    rcases List.mem_append.mp hc with hc | hc
    · exact h.later c hc
    · exact (hQ _ (hnew c (List.mem_of_mem_drop hc)).1).2

/-- So does the request for the certificate, before any other. -/
theorem Sound.bootstrap {fixed : Option Fingerprint} (htls : E.endpoints.useTls = true) {net : Net}
    (h : E.Sound fixed net) :
    E.Sound fixed (E.bootstrap net).2 := by
  rcases E.bootstrap_asks net with hsame | ⟨hpin, hasks⟩
  · rw [hsame]
    exact h
  have hempty : net.contacts = [] := by
    by_contra hne
    exact h.pin_ne_none hne hpin
  have hfixed : fixed = none := Option.eq_none_iff_forall_ne_some.mpr fun spki hf => by
    rw [h.pinned spki hf] at hpin
    cases hpin
  subst hfixed
  have hpins : (E.bootstrap net).2.tls.mode.pins = true := by rw [hasks.holds.1, h.pins]
  rcases hasks with ⟨-, hcontacts⟩ | ⟨-, certificate, hcontacts, hknows⟩
  all_goals rw [hempty] at hcontacts
  · refine ⟨hpins, ?_, ?_, ?_, nofun⟩
    all_goals rw [hcontacts]
    · exact List.forall_mem_nil _
    · exact List.forall_mem_nil _
    · rw [List.drop_nil]
      exact List.forall_mem_nil _
  · refine ⟨hpins, ?_, ?_, ?_, nofun⟩
    all_goals rw [hcontacts]
    · exact List.forall_mem_singleton.mpr (hknows htls hpins)
    · exact List.forall_mem_singleton.mpr rfl
    · exact List.forall_mem_nil _

theorem IsProbe.plain {r : Request} (h : E.IsProbe r) : r.host = E.http.authority ∧ r ≠ E.certificateRequest := by
  obtain ⟨path, -, rfl⟩ := h
  exact ⟨rfl, fun heq => nomatch heq⟩

theorem keyRequest_plain : E.keyRequest.host = E.http.authority ∧ E.keyRequest ≠ E.certificateRequest := by
  refine ⟨rfl, fun heq => ?_⟩
  have hpath : cmdGetPublicKey = cmdGetCertificate := by injection heq
  exact absurd hpath (by decide)

theorem sessionSetup_sound (fixed : Option Fingerprint) (htls : E.endpoints.useTls = true) {C : Crates}
    (keys : SessionKeys C) (seed : Nat) :
    (E.sessionSetup keys seed).Keeps (Prog.Stays (E.Sound fixed)) := by
  have hasks {α : Type} {r : Request} {x : NetM α} (hx : Requests E.crates E.endpoints r x)
      (hr : r.host = E.http.authority ∧ r ≠ E.certificateRequest) : x.Keeps (Prog.Stays (E.Sound fixed)) :=
    hx.keeps.mono fun _ _ h hs => hs.grows htls h.grows fun _ heq => heq ▸ hr
  refine Prog.Keeps.bind (E.preflight_grows.mono fun _ _ h hs => hs.grows htls h fun _ => IsProbe.plain) fun _ => ?_
  refine Prog.Keeps.bind (fun _ hs => hs.bootstrap htls) fun _ => ?_
  refine Prog.Keeps.bind (hasks (E.http.getPublicKey_requests E.parsers _ _) keyRequest_plain) fun publicKey => ?_
  refine Prog.Keeps.bind (unpanicked_keeps _) fun sessionB64 => ?_
  exact Prog.Keeps.bind (hasks (wsConnect_requests E.endpoints) ⟨rfl, nofun⟩) fun _ => Prog.keeps_pure _

/-- Whatever else, the contacts stay. -/
theorem sessionSetup_grows {C : Crates} (keys : SessionKeys C) (seed : Nat) :
    (E.sessionSetup keys seed).Keeps (Grows E.crates E.endpoints fun _ => True) := by
  have hasks {α : Type} {r : Request} {x : NetM α} (hx : Requests E.crates E.endpoints r x) :
      x.Keeps (Grows E.crates E.endpoints fun _ => True) :=
    hx.keeps.mono fun _ _ h => h.grows.mono fun _ _ => trivial
  refine Prog.Keeps.bind (E.preflight_grows.mono fun _ _ h => h.mono fun _ _ => trivial) fun _ => ?_
  refine Prog.Keeps.bind (fun net => ?_) fun _ => ?_
  · rcases E.bootstrap_asks net with hsame | ⟨-, h⟩
    · rw [hsame]
      exact refl_of _ net
    · exact h.grows.mono fun _ _ => trivial
  refine Prog.Keeps.bind (hasks (E.http.getPublicKey_requests E.parsers _ _)) fun publicKey => ?_
  refine Prog.Keeps.bind (unpanicked_keeps _) fun sessionB64 => ?_
  exact Prog.Keeps.bind (hasks (wsConnect_requests E.endpoints)) fun _ => Prog.keeps_pure _

theorem preflight_raises : Raises Halt.Ordinary E.preflight := by
  unfold preflight
  split_ifs
  · exact pure_raises _
  refine Prog.Upholds.bind ((caught_raises (E.http.apiInfo_raises E.parsers)).mono fun _ h => h.elim) fun probed => ?_
  cases probed with
  | error e => exact pure_raises _
  | ok info =>
    dsimp only
    split
    · rename_i e he
      rcases E.verdict_cases he with rfl | rfl
      · exact failed_raises ⟨_, rfl, nofun⟩
      · exact failed_raises ⟨_, rfl, nofun⟩
    · exact pure_raises _

/-- It only fails as long as no key is pinned. -/
theorem bootstrap_wp (net : Net) :
    E.bootstrap.wp (fun _ _ => True) (fun h _ => (∃ e, h = .failed e) ∧ net.tls.pin = none) net := by
  unfold bootstrap
  rw [Prog.wp_bind, Prog.wp_get]
  split_ifs with hneeds
  · rw [TlsContext.needsPinBootstrap, Bool.and_eq_true, Option.isNone_iff_eq_none] at hneeds
    refine Prog.wp_bind.mpr (Prog.wp_mono (caught_raises (E.http.bootstrapPin_raises E.parsers _ _) net trivial)
      (fun r _ _ => ?_) fun _ _ h => h.elim)
    split
    · exact ⟨⟨_, rfl⟩, hneeds.2⟩
    · trivial
  · trivial

theorem wrapSessionKey_error {R : Rsa} {seed : Nat} {pem payload : Str} {e : Error}
    (h : wrapSessionKey R seed pem payload = some (.error e)) : ∃ m, e = .crypto m := by
  obtain ⟨imported, himport, hwrap⟩ := Option.map_eq_some_iff.mp h
  cases imported with
  | error e' =>
    cases hwrap
    obtain ⟨normalized, -, hparse⟩ := Option.map_eq_some_iff.mp himport
    split at hparse
    · cases hparse
    split at hparse
    · cases hparse
    · cases hparse
      exact ⟨_, rfl⟩
  | ok key =>
    simp only [bind, Except.bind] at hwrap
    split at hwrap
    · cases hwrap
    · cases hwrap
      exact ⟨_, rfl⟩

/-- The pin is only the reason as long as no key is pinned. -/
def Unpinned (net : Net) (h : Halt) : Prop :=
  ∀ expected actual, h = .failed (.tlsPinMismatch expected actual) → net.tls.pin = none

theorem unpinned_of_ordinary {net : Net} {h : Halt} (hh : h = .hangs ∨ h = .panics ∨ h.Ordinary) : Unpinned net h := by
  rintro expected actual rfl
  rcases hh with hh | hh | ⟨e, he, hne⟩
  · cases hh
  · cases hh
  · cases he
    exact absurd rfl (hne expected actual)

/-- A setup that succeeds has sent something. -/
theorem sessionSetup_wp {C : Crates} (keys : SessionKeys C) (seed : Nat) (net : Net) :
    (E.sessionSetup keys seed).wp (fun _ net' => net'.contacts ≠ []) (fun h _ => Unpinned net h) net := by
  refine Prog.wp_bind.mpr (Prog.wp_mono (Prog.wp_and (E.preflight_grows.wp net) (preflight_raises net trivial))
    (fun _ net₁ h₁ => ?_) fun h _ hh => unpinned_of_ordinary (.inr (.inr hh.2)))
  refine Prog.wp_bind.mpr (Prog.wp_mono (bootstrap_wp net₁) (fun _ net₂ _ => ?_) fun h _ hh => ?_)
  · refine Prog.wp_bind.mpr (Prog.wp_mono (E.http.getPublicKey_raises E.parsers _ _ net₂ trivial)
      (fun publicKey net₃ _ => ?_) fun h _ hh => unpinned_of_ordinary (.inr hh))
    have hwrap : Raises (fun h => h = .panics ∨ h.Ordinary)
        (unpanicked (wrapSessionKey E.rsa seed publicKey keys.sessionPayload)) :=
      unpanicked_raises (fun _ => .inl rfl) fun e he => by
        obtain ⟨m, rfl⟩ := wrapSessionKey_error he
        exact .inr ⟨_, rfl, nofun⟩
    refine Prog.wp_bind.mpr (Prog.wp_mono (hwrap net₃ trivial) (fun sessionB64 net₄ _ => ?_)
      fun h _ hh => unpinned_of_ordinary (.inr hh))
    refine Prog.wp_bind.mpr (Prog.wp_mono (Prog.wp_and (wsConnect_requests E.endpoints net₄)
      (wsConnect_raises net₄ trivial)) (fun _ net₅ h₅ => ?_)
      fun h _ hh => unpinned_of_ordinary (hh.2.imp_right .inr))
    obtain ⟨⟨-, certificate, hupgrade, -⟩, -⟩ := h₅
    rw [Prog.wp_pure, hupgrade]
    exact List.append_ne_nil_of_right_ne_nil _ (List.cons_ne_nil _ _)
  · obtain ⟨-, hpin⟩ := hh
    intro expected actual _
    by_contra hne
    exact pin_ne_none_of_holds h₁.1.1 hne hpin

variable (E) in
/-- A setup that waits for the connection of the session: the key was asked for, has
come and was of use, and the peer is not heard of on the next connection, where
nothing is sent yet or the upgrade is the last that was sent. -/
def Connecting {C : Crates} (keys : SessionKeys C) (seed : Nat) (net net' : Net) : Prop :=
  ∃ net₁ net₂ net₃ publicKey sessionB64,
    E.preflight net = (.ok (), net₁) ∧ E.bootstrap net₁ = (.ok (), net₂) ∧
    E.http.getPublicKey E.crates E.parsers E.cfg.username E.cfg.password net₂ = (.ok publicKey, net₃) ∧
    wrapSessionKey E.rsa seed publicKey keys.sessionPayload = some (.ok sessionB64) ∧
    wsConnect E.crates E.endpoints net₃ = (.error .hangs, net') ∧
    ∃ c, net'.contacts.getLast? = some c ∧
      (c.request = E.keyRequest ∧ (net₃.dials.headD .dead).Mute E.endpoints ∨
        c.request = .upgrade E.http.authority ∧ (net₃.dials.headD .dead).ready = .hangs)

theorem sessionSetup_hangs {C : Crates} {keys : SessionKeys C} {seed : Nat} {net net' : Net}
    (h : E.sessionSetup keys seed net = (.error .hangs, net')) : E.Connecting keys seed net net' := by
  have hordinary : ¬ Halt.Ordinary .hangs := nofun
  rcases Prog.bind_eq_error h with h | ⟨_, net₁, h₁, h⟩
  · exact absurd h (preflight_raises.ne_hangs hordinary)
  rcases Prog.bind_eq_error h with h | ⟨_, net₂, h₂, h⟩
  · obtain ⟨⟨e, he⟩, -⟩ := (Prog.wp_error h).mp (bootstrap_wp net₁)
    cases he
  rcases Prog.bind_eq_error h with h | ⟨publicKey, net₃, h₃, h⟩
  · exact absurd h ((E.http.getPublicKey_raises E.parsers _ _).ne_hangs (by simp [hordinary]))
  rcases Prog.bind_eq_error h with h | ⟨sessionB64, net₄, h₄, hrest⟩
  · exact absurd h unpanicked_ne_hangs
  obtain ⟨hwrap, rfl⟩ := unpanicked_eq_ok h₄
  rcases Prog.bind_eq_error hrest with hconnect | ⟨_, _, -, hpure⟩
  · refine ⟨net₁, net₂, net₄, publicKey, sessionB64, h₁, h₂, h₃, hwrap, hconnect, ?_⟩
    obtain ⟨-, certificate, hkey, -⟩ := (Prog.wp_ok h₃).mp (E.http.getPublicKey_requests E.parsers _ _ net₂)
    rcases wsConnect_hangs hconnect with ⟨hsame, hmute⟩ | ⟨⟨certificate', hupgrade⟩, hready⟩
    · rw [hsame, hkey, List.getLast?_concat]
      exact ⟨_, rfl, .inl ⟨rfl, hmute⟩⟩
    · rw [hupgrade, List.getLast?_concat]
      exact ⟨_, rfl, .inr ⟨rfl, hready⟩⟩
  · cases hpure

end SetupEnv

/-! ## Whole lives -/

section

variable {E : SetupEnv} {C : Crates} {η σ : Type} [LoxHandler η] [TokenStore σ] {world : World}

/-- A session whose setup failed is not established. -/
theorem round_setupFailed (E : SetupEnv) (world : World) {t : Trial C σ} {s : Supervisor η σ}
    {a : Supervisor.Attempt C η σ} (ha : Supervisor.attempted t.round s = some a) (e : Error) :
    ∃ s₁ : Supervisor η σ, Supervisor.round E.cfg world E.parsers (t.prepared (.error e)) s =
        Supervisor.react E.cfg t.round.stoppedInWait (.failed e) s₁ ∧
      s₁.everConnected = s.everConnected ∧ s₁.ready = s.ready ∧ s₁.attempt = s.attempt ∧ s₁.waits = s.waits := by
  obtain ⟨htop, hpanic, hrx, -⟩ := Supervisor.attempted_eq_some ha
  have htop' : (t.prepared (.error e)).stoppedAtTop = false := htop
  rw [Supervisor.round_eq E.cfg world E.parsers htop' hpanic hrx]
  exact ⟨_, rfl, rfl, rfl, rfl, rfl⟩

omit [LoxHandler η] [TokenStore σ] in
theorem after_eq_goesOn {d : Bool × Supervisor η σ} {net net' : Net} {s' : Supervisor η σ}
    (h : Course.after d net = ⟨.goesOn, s', net'⟩) : d = (true, s') ∧ net = net' := by
  obtain ⟨_ | _, s⟩ := d
  · cases h
  · cases h
    exact ⟨rfl, rfl⟩

theorem react_failed_everConnected (stopped : Bool) (e : Error) {s s' : Supervisor η σ}
    (h : Supervisor.react E.cfg stopped (.failed e) s = (true, s')) : s'.everConnected = s.everConnected := by
  have hne : (∃ closeCode, SessionOutcome.failed e = .disconnected closeCode) → s.everConnected = true := nofun
  obtain ⟨s₁, htells, -, ⟨s₂, hr, hwaits, -⟩ | ⟨s₂, hr, -⟩⟩ := Supervisor.react_inv E.cfg stopped hne
  · rw [h] at hr
    cases hr
    exact hwaits.everConnected.trans htells.everConnected
  · rw [h] at hr
    cases hr

variable (world)

theorem courseRound_sound {fixed : Option Fingerprint} (htls : E.endpoints.useTls = true) (t : Trial C σ)
    (s : Supervisor η σ) {net : Net} (h : E.Sound fixed net) : E.Sound fixed (courseRound E world t s net).net := by
  unfold courseRound
  split
  · exact h
  have hdials : E.Sound fixed { net with dials := t.dials } := ⟨h.pins, h.known, h.host, h.later, h.pinned⟩
  have hsound := SetupEnv.sessionSetup_sound fixed htls t.round.session.keys t.seed _ hdials
  split
  all_goals
    rename_i heq
    rw [heq] at hsound
    exact hsound

theorem course_sound {fixed : Option Fingerprint} (htls : E.endpoints.useTls = true) (trials : List (Trial C σ))
    (s : Supervisor η σ) {net : Net} (h : E.Sound fixed net) : E.Sound fixed (course E world trials s net).net := by
  induction trials generalizing s net with
  | nil => exact h
  | cons t trials ih =>
    have hround := courseRound_sound world htls t s h
    rw [course]
    split
    · rename_i hc
      rw [hc] at hround
      exact ih _ hround
    · exact hround

/-- As long as nothing was sent no session was established. -/
def Supervisor.Contacted (s : Supervisor η σ) (net : Net) : Prop := s.everConnected = true → net.contacts ≠ []

theorem courseRound_contacted (t : Trial C σ) {s s' : Supervisor η σ} {net net' : Net} (h : s.Contacted net)
    (hgoes : courseRound E world t s net = ⟨.goesOn, s', net'⟩) : s'.Contacted net' := by
  unfold courseRound at hgoes
  split at hgoes
  · rename_i ha
    obtain ⟨s₁, hr, -⟩ := Supervisor.round_unattempted E.cfg world E.parsers ha
    rw [hr] at hgoes
    cases hgoes
  rename_i a ha
  have hwp := SetupEnv.sessionSetup_wp (E := E) t.round.session.keys t.seed { net with dials := t.dials }
  have hgrows := SetupEnv.sessionSetup_grows (E := E) t.round.session.keys t.seed { net with dials := t.dials }
  split at hgoes
  · rename_i sessionB64 net₁ heq
    rw [Prog.wp_ok heq] at hwp
    obtain ⟨-, rfl⟩ := after_eq_goesOn hgoes
    exact fun _ => hwp
  · rename_i e net₁ heq
    rw [heq] at hgrows
    obtain ⟨s₁, hround, hev₁, -⟩ := round_setupFailed E world ha e
    rw [hround] at hgoes
    obtain ⟨hr, rfl⟩ := after_eq_goesOn hgoes
    intro hev
    rw [react_failed_everConnected _ e hr, hev₁] at hev
    obtain ⟨-, new, hcontacts, -⟩ := hgrows
    rw [hcontacts]
    exact List.append_ne_nil_of_left_ne_nil (h hev) new
  · cases hgoes
  · cases hgoes

theorem course_contacted (trials : List (Trial C σ)) {s s' : Supervisor η σ} {net net' : Net} (h : s.Contacted net)
    (hgoes : course E world trials s net = ⟨.goesOn, s', net'⟩) : s'.Contacted net' := by
  induction trials generalizing s net with
  | nil =>
    cases hgoes
    exact h
  | cons t trials ih =>
    rw [course] at hgoes
    split at hgoes
    · exact ih (courseRound_contacted world t h ‹_›) hgoes
    · rename_i hno
      exact (hno s' net' hgoes).elim

/-- The course is that of a supervisor whose loop gives `d`. -/
def Course.Runs (c : Course η σ) (d : Bool × Supervisor η σ) : Prop :=
  match c.ending with
  | .goesOn => d = (true, c.supervisor)
  | .ended => d = (false, c.supervisor)
  | _ => d.1 = true ∧ c.supervisor = d.2.starting

theorem courseRound_cases (t : Trial C σ) (s : Supervisor η σ) (net : Net) :
    (∃ (r : Round C σ) (net' : Net),
      courseRound E world t s net = .after (Supervisor.round E.cfg world E.parsers r s) net') ∨
      ∃ net', courseRound E world t s net = ⟨.hangs, s.starting, net'⟩ ∨
        courseRound E world t s net = ⟨.panics, s.starting, net'⟩ := by
  unfold courseRound
  split
  · exact .inl ⟨_, _, rfl⟩
  split
  · exact .inl ⟨_, _, rfl⟩
  · exact .inl ⟨_, _, rfl⟩
  · exact .inr ⟨_, .inl rfl⟩
  · exact .inr ⟨_, .inr rfl⟩

/-- The rounds that were taken, with what came of their setups, are a run of the
supervisor. -/
theorem course_runs (trials : List (Trial C σ)) (s : Supervisor η σ) (net : Net) :
    ∃ rounds : List (Round C σ),
      (course E world trials s net).Runs (Supervisor.loop E.cfg world E.parsers rounds s) := by
  induction trials generalizing s net with
  | nil => exact ⟨[], rfl⟩
  | cons t trials ih =>
    rw [course]
    rcases courseRound_cases (E := E) world t s net with ⟨r, net', hc⟩ | ⟨net', hc | hc⟩
    · rw [hc]
      rcases hr : Supervisor.round E.cfg world E.parsers r s with ⟨_ | _, s'⟩
      · refine ⟨[r], ?_⟩
        rw [Supervisor.loop, hr]
        rfl
      · obtain ⟨rounds, hruns⟩ := ih s' net'
        refine ⟨r :: rounds, ?_⟩
        rw [Supervisor.loop_cons E.cfg world E.parsers hr]
        exact hruns
    · rw [hc]
      exact ⟨[], rfl, rfl⟩
    · rw [hc]
      exact ⟨[], rfl, rfl⟩

end

/-- Nothing sent yet. -/
def Net.new (mode : TlsMode) : Net := ⟨.new mode, [], []⟩

/-- The key that is pinned from the start. -/
def TlsMode.fixed : TlsMode → Option Fingerprint
  | .pinned spkiSha256 => some spkiSha256
  | _ => none

theorem sound_new (E : SetupEnv) {mode : TlsMode} (hpins : mode.pins = true) : E.Sound mode.fixed (.new mode) where
  pins := by
    cases mode with
    | webPki => cases hpins
    | pinOnFirstUse => rfl
    | pinned configured => rfl
    | insecure => cases hpins
  known := List.forall_mem_nil _
  host := List.forall_mem_nil _
  later := by
    rw [Net.new, List.drop_nil]
    exact List.forall_mem_nil _
  pinned spki h := by
    cases mode with
    | pinned configured => exact h
    | _ => cases h

/-- Over the life of a client that uses TLS in a pinning mode, whatever its peers do:
all its requests, those with the password and the sessions among them, were sent to
the holder of one key, which is the pinned one, and in the mode `pinned` that is the
configured one; they name one host; the certificate is asked for in the first of all
requests if at all, and never in the mode `pinned`. And its supervisor runs as it does
in `Supervisor.loop`. -/
theorem one_key_for_life (E : SetupEnv) (htls : E.endpoints.useTls = true) (mode : TlsMode) (hpins : mode.pins = true)
    {C : Crates} {η σ : Type} [LoxHandler η] [TokenStore σ] (world : World) (trials : List (Trial C σ))
    (s : Supervisor η σ) :
    let c := course E world trials s (.new mode)
    (∀ contact ∈ c.net.contacts, ∃ endEntity spki, contact.certificate = some endEntity ∧
        E.crates.certs.spkiSha256 endEntity = .ok spki ∧ c.net.tls.pinnedSpki = some spki ∧
        (∀ configured, mode = .pinned configured → spki = configured) ∧
        contact.request.host = (HttpClient.new E.endpoints).authority) ∧
      (∀ contact ∈ c.net.contacts.tail, contact.request ≠ E.certificateRequest) ∧
      (∀ configured, mode = .pinned configured → ∀ contact ∈ c.net.contacts, contact.request ≠ E.certificateRequest) ∧
      ∃ rounds : List (Round C σ), c.Runs (Supervisor.loop E.cfg world E.parsers rounds s) := by
  intro c
  have hsound : E.Sound mode.fixed c.net := course_sound world htls trials s (sound_new E hpins)
  refine ⟨fun contact hc => ?_, fun contact hc => ?_, ?_, course_runs world trials s _⟩
  · obtain ⟨endEntity, spki, hcert, hspki, hpin⟩ := hsound.known contact hc
    refine ⟨endEntity, spki, hcert, hspki, hpin, ?_, hsound.host contact hc⟩
    rintro configured rfl
    exact Option.some.inj (hpin.symm.trans (hsound.pinned configured rfl))
  · refine hsound.later contact ?_
    split_ifs
    · exact List.mem_of_mem_tail hc
    · rw [List.drop_one]
      exact hc
  · rintro configured rfl
    exact hsound.later

/-- A peer that shows the certificate of `n` and answers. -/
def sampleDial (n : UInt8) (status : UInt16) (body : Bytes) : Dial :=
  ⟨.gives (), .gives (List.replicate 32 n), .gives (), .gives (), .gives (status, body)⟩

/-- The chain of a Miniserver that has the certificate of 2. -/
def sampleChain : Str := "-----BEGIN CERTIFICATE-----\nAgIC\n-----END CERTIFICATE-----\n".toList

def sampleSetup (cfg : ConnectConfig) (P : Parsers) : SetupEnv where
  crates := ⟨fun _ => .ok (), sampleCertificates, fun _ => "certificate refused".toList,
    fun pem => if pem = utf8 sampleChain then .ok [sampleCertificates.spkiSha256 (List.replicate 32 2)] else .ok []⟩
  parsers := P
  rsa := sampleRsa
  endpoints := ⟨"ms".toList, 443, true⟩
  cfg := cfg

def sampleTrial (dials : List Dial) : Trial sampleCrates (Option LxToken) := ⟨Supervisor.closedRound [], dials, 0⟩

/-- Another peer than the one of the probe. -/
def replacedPeer : List (Trial sampleCrates (Option LxToken)) :=
  [sampleTrial [sampleDial 1 404 [], sampleDial 2 200 []]]

/-- The probe pins the key of the peer, and nobody else is contacted. -/
theorem one_key_for_life_probe :
    ∃ spki, sampleCertificates.spkiSha256 (List.replicate 32 1) = .ok spki ∧
      (course (sampleSetup Supervisor.sampleConfig .rejecting) sampleWorld replacedPeer (.start () ⟨.default, none⟩)
        (.new .pinOnFirstUse)).net.tls.pinnedSpki = some spki := by
  obtain ⟨endEntity, spki, hcert, hspki, hpin, -⟩ := (one_key_for_life
    (sampleSetup Supervisor.sampleConfig .rejecting) rfl .pinOnFirstUse rfl sampleWorld replacedPeer
    (.start () ⟨.default, none⟩)).1 ⟨some (List.replicate 32 1), .get cmdApiKey "ms".toList none⟩
    (List.mem_of_mem_head? rfl)
  cases hcert
  exact ⟨spki, hspki, hpin⟩

/-! ## Setups that do not succeed -/

section

variable {C : Crates} {η σ : Type} [LoxHandler η] [TokenStore σ]

theorem round_sound {cfg : ConnectConfig} {world : World} {P : Parsers} {r : Round C σ} {s s' : Supervisor η σ}
    (h : Supervisor.round cfg world P r s = (true, s')) (hs : s.Sound) : s'.Sound := by
  cases ha : Supervisor.attempted r s with
  | none =>
    obtain ⟨s₁, hr, -⟩ := Supervisor.round_unattempted cfg world P ha
    rw [h] at hr
    cases hr
  | some a =>
    obtain ⟨s₁, hwent, ⟨s₂, hr, hwaits, -⟩ | ⟨s₂, hr, -⟩⟩ := Supervisor.round_attempted cfg world P ha
    · rw [h] at hr
      cases hr
      rw [Supervisor.Sound, hwaits.ready, hwaits.everConnected]
      exact hwent.ready hs
    · rw [h] at hr
      cases hr

theorem course_ready {E : SetupEnv} {world : World} (trials : List (Trial C σ)) {s s' : Supervisor η σ} {net net' : Net}
    (h : s.Sound) (hgoes : course E world trials s net = ⟨.goesOn, s', net'⟩) : s'.Sound := by
  induction trials generalizing s net with
  | nil =>
    cases hgoes
    exact h
  | cons t trials ih =>
    rw [course] at hgoes
    rcases courseRound_cases (E := E) world t s net with ⟨r, net₁, hc⟩ | ⟨net₁, hc | hc⟩
    · rw [hc] at hgoes
      rcases hr : Supervisor.round E.cfg world E.parsers r s with ⟨_ | _, s₁⟩
      · rw [hr] at hgoes
        cases hgoes
      · rw [hr] at hgoes
        exact ih (round_sound hr h) hgoes
    · rw [hc] at hgoes
      cases hgoes
    · rw [hc] at hgoes
      cases hgoes

end

/-- A Miniserver that announces another key than it has shown ends the client: this
happens before anything else was sent and before a session was established, and
`ready` gets the reason. -/
theorem pin_mismatch_ends_client (E : SetupEnv) (htls : E.endpoints.useTls = true) (mode : TlsMode)
    (hpins : mode.pins = true) {C : Crates} {η σ : Type} [LoxHandler η] [TokenStore σ] (world : World)
    (trials : List (Trial C σ)) (handler : η) (shared : SharedState σ) {s : Supervisor η σ} {net : Net}
    (hcourse : course E world trials (.start handler shared) (.new mode) = ⟨.goesOn, s, net⟩) (t : Trial C σ)
    (hopens : (Supervisor.attempted t.round s).isSome = true) {expected actual : Str} {net' : Net}
    (hsetup : E.sessionSetup t.round.session.keys t.seed { net with dials := t.dials } =
      (.error (.failed (.tlsPinMismatch expected actual)), net')) :
    s.everConnected = false ∧ net.contacts = [] ∧ ∃ s', courseRound E world t s net = ⟨.ended, s', net'⟩ ∧
      s'.ready = some (.error (.tlsPinMismatch expected actual)) := by
  have hwp := SetupEnv.sessionSetup_wp (E := E) t.round.session.keys t.seed { net with dials := t.dials }
  rw [Prog.wp_error hsetup] at hwp
  have hpin : net.tls.pin = none := hwp expected actual rfl
  have hsound : E.Sound mode.fixed net := by
    have := course_sound world htls trials (.start handler shared) (sound_new E hpins)
    rw [hcourse] at this
    exact this
  have hempty : net.contacts = [] := by
    by_contra hne
    exact hsound.pin_ne_none hne hpin
  have hstart : (Supervisor.start handler shared).Contacted (.new mode) := fun h => nomatch h
  have hev : s.everConnected = false := by
    by_contra hne
    exact course_contacted world trials hstart hcourse (Bool.eq_true_of_not_eq_false hne) hempty
  obtain ⟨a, ha⟩ := Option.isSome_iff_exists.mp hopens
  have hready : s.Sound := course_ready (s := .start handler shared) trials rfl hcourse
  have hplain : Error.Plain (.tlsPinMismatch expected actual) := ⟨rfl, rfl⟩
  obtain ⟨s₁, hround, hev₁, hready₁, -⟩ := round_setupFailed E world ha (.tlsPinMismatch expected actual)
  have hsound₁ : s₁.Sound := by rw [Supervisor.Sound, hready₁, hev₁, hready]
  refine ⟨hev, hempty, s₁.finish (some (.tlsPinMismatch expected actual)), ?_, ?_⟩
  · rw [courseRound, ha]
    simp only [hsetup]
    rw [hround, Supervisor.react_plain E.cfg hplain, if_neg (by rw [hev₁, hev]; exact Bool.false_ne_true)]
    rfl
  · refine (hsound₁.signal _).trans ?_
    rw [hev₁, hev]
    rfl

/-- A client that does not probe. -/
def unprobing : ConnectConfig := { Supervisor.sampleConfig with receiveUpdates := false }

/-- An answer whose value is spelt `text`. -/
def sampleAnswer (text : Str) : Bytes :=
  utf8 ("\x7b\"LL\":\x7b\"value\":".toList ++ text ++ ",\"Code\":\"200\"\x7d\x7d".toList)

def quoted (text : Str) : Str := "\"".toList ++ text ++ "\"".toList

def sampleDocument (value : Json) : Json :=
  .obj [("LL".toList, .obj [("value".toList, value), ("Code".toList, .str "200".toList)])]

/-- In JSON the line ends of the chain are escaped. -/
def certificateAnswer : Bytes :=
  sampleAnswer (quoted "-----BEGIN CERTIFICATE-----\\nAgIC\\n-----END CERTIFICATE-----\\n".toList)

def certificateParsers : Parsers := Parsers.rejecting.also certificateAnswer (sampleDocument (.str sampleChain))

/-- The peer shows one key and announces another. -/
theorem pin_mismatch_ends_client_first :
    ∃ expected actual net' s', courseRound (sampleSetup unprobing certificateParsers) sampleWorld
        (sampleTrial [sampleDial 1 200 certificateAnswer]) (.start () ⟨.default, none⟩) (.new .pinOnFirstUse) =
          ⟨.ended, s', net'⟩ ∧
      s'.ready = some (.error (.tlsPinMismatch expected actual)) := by
  obtain ⟨-, -, s', hends, hready⟩ := pin_mismatch_ends_client (sampleSetup unprobing certificateParsers) rfl
    .pinOnFirstUse rfl sampleWorld [] () ⟨.default, none⟩ rfl (sampleTrial [sampleDial 1 200 certificateAnswer]) rfl rfl
  exact ⟨_, _, _, s', hends, hready⟩

theorem courseRound_hangs (E : SetupEnv) {C : Crates} {η σ : Type} [LoxHandler η] [TokenStore σ] (world : World)
    (t : Trial C σ) (s : Supervisor η σ) (net : Net) (h : (courseRound E world t s net).ending = .hangs) :
    (Supervisor.attempted t.round s).isSome = true ∧
      E.Connecting t.round.session.keys t.seed { net with dials := t.dials } (courseRound E world t s net).net := by
  have hafter (d : Bool × Supervisor η σ) (net : Net) : (Course.after d net).ending ≠ .hangs := by
    obtain ⟨_ | _, s⟩ := d
    · exact nofun
    · exact nofun
  unfold courseRound at h ⊢
  split at h
  · exact absurd h (hafter _ _)
  rename_i a ha
  refine ⟨by rw [ha]; rfl, ?_⟩
  split at h
  · exact absurd h (hafter _ _)
  · exact absurd h (hafter _ _)
  · rename_i heq
    exact SetupEnv.sessionSetup_hangs heq
  · cases h

theorem courseRound_of_hangs (E : SetupEnv) {C : Crates} {η σ : Type} [LoxHandler η] [TokenStore σ] (world : World)
    {t : Trial C σ} {s : Supervisor η σ} {a : Supervisor.Attempt C η σ} (ha : Supervisor.attempted t.round s = some a)
    {net net' : Net} (h : E.sessionSetup t.round.session.keys t.seed { net with dials := t.dials } =
      (.error .hangs, net')) : courseRound E world t s net = ⟨.hangs, s.starting, net'⟩ := by
  rw [courseRound, ha]
  simp only [h]

/-- A client is held up before a handshake only by the connection of a session: the
rounds before went on, and in this one the key of the Miniserver has come and the
client waits for the next connection. -/
theorem only_connecting_hangs (E : SetupEnv) {C : Crates} {η σ : Type} [LoxHandler η] [TokenStore σ] (world : World)
    (trials : List (Trial C σ)) (s : Supervisor η σ) (net : Net)
    (h : (course E world trials s net).ending = .hangs) :
    ∃ before t after s₀ net₀, trials = before ++ t :: after ∧
      course E world before s net = ⟨.goesOn, s₀, net₀⟩ ∧ (Supervisor.attempted t.round s₀).isSome = true ∧
      E.Connecting t.round.session.keys t.seed { net₀ with dials := t.dials } (course E world trials s net).net := by
  induction trials generalizing s net with
  | nil => cases h
  | cons t trials ih =>
    have hround := courseRound_hangs E world t s net
    rw [course] at h ⊢
    split at h
    · rename_i s₁ net₁ hc
      obtain ⟨before, t', after, s₀, net₀, rfl, hbefore, hopens, hconnecting⟩ := ih s₁ net₁ h
      refine ⟨t :: before, t', after, s₀, net₀, rfl, ?_, hopens, hconnecting⟩
      rw [course, hc]
      exact hbefore
    · exact ⟨[], t, trials, s, net, rfl, rfl, hround h⟩

/-- The answer with the key. -/
def publicKeyAnswer : Bytes := sampleAnswer (quoted samplePem)

def publicKeyParsers : Parsers := Parsers.rejecting.also publicKeyAnswer (sampleDocument (.str samplePem))

theorem publicKeyValue_sample : publicKeyValue publicKeyParsers publicKeyAnswer = .ok samplePem := by
  simp only [publicKeyValue, publicKeyParsers, parseJson_also]
  rfl

/-- The key is normalised when it comes, and again when it is imported. -/
theorem wrapSessionKey_normalized :
    wrapSessionKey sampleRsa 0 (pemText (b64Encode sampleDer)) sampleKeys.sessionPayload =
      some (.ok (b64Encode sampleWrapped)) := by
  have hascii : ∀ c ∈ samplePem, c.toNat < 128 := by
    have hmarkers : ∀ c ∈ beginMarker .certificate ++ endMarker .certificate, c.toNat < 128 :=
      List.all_iff_forall_prop.mp (by decide)
    intro c hc
    rcases List.mem_append.mp hc with hc | hc
    · exact hmarkers c (List.mem_append_left _ hc)
    · rcases List.mem_append.mp hc with hc | hc
      · exact b64_ascii c hc
      · exact hmarkers c (List.mem_append_right _ hc)
  exact wrapSessionKey_sample (normalizePublicKeyPem_idempotent hascii normalizePublicKeyPem_sample)

/-- A client that asks for the key. -/
def asking : SetupEnv := sampleSetup unprobing publicKeyParsers

/-- The peer gives its key and is not seen again. -/
def keyOnly : Net := ⟨.new .insecure, [sampleDial 1 200 publicKeyAnswer], []⟩

theorem sessionSetup_keyOnly : ∃ net, asking.sessionSetup sampleKeys 0 keyOnly = (.error .hangs, net) := by
  obtain ⟨tls, contacts, hbody⟩ : ∃ tls contacts, asking.http.getLl asking.crates cmdGetPublicKey
      (some (asking.cfg.username, asking.cfg.password)) keyOnly = (.ok publicKeyAnswer, ⟨tls, [], contacts⟩) :=
    ⟨_, _, rfl⟩
  have hvalue : Lox.getPublicKey asking.parsers publicKeyAnswer = some (.ok (pemText (b64Encode sampleDer))) := by
    have hparsers : asking.parsers = publicKeyParsers := rfl
    simp only [hparsers, Lox.getPublicKey, publicKeyValue_sample, normalizePublicKeyPem_sample, Option.map_some]
  have hkey : asking.http.getPublicKey asking.crates asking.parsers asking.cfg.username asking.cfg.password keyOnly =
      (.ok (pemText (b64Encode sampleDer)), ⟨tls, [], contacts⟩) := by
    rw [HttpClient.getPublicKey, Prog.bind_ok hbody, hvalue]
    rfl
  have hwrap : unpanicked (wrapSessionKey asking.rsa 0 (pemText (b64Encode sampleDer)) sampleKeys.sessionPayload)
      ⟨tls, [], contacts⟩ = (.ok (b64Encode sampleWrapped), ⟨tls, [], contacts⟩) := by
    have hrsa : asking.rsa = sampleRsa := rfl
    rw [hrsa, wrapSessionKey_normalized]
    rfl
  obtain ⟨net, hconnect⟩ : ∃ net, wsConnect asking.crates asking.endpoints ⟨tls, [], contacts⟩ = (.error .hangs, net) :=
    ⟨_, rfl⟩
  have hpreflight : asking.preflight keyOnly = (.ok (), keyOnly) := rfl
  have hbootstrap : asking.bootstrap keyOnly = (.ok (), keyOnly) := rfl
  refine ⟨net, ?_⟩
  rw [SetupEnv.sessionSetup, Prog.bind_ok hpreflight, Prog.bind_ok hbootstrap, Prog.bind_ok hkey, Prog.bind_ok hwrap,
    Prog.bind_error hconnect]

theorem only_connecting_hangs_key :
    ∃ before t after s₀ net₀, [sampleTrial keyOnly.dials] = before ++ t :: after ∧
      course asking sampleWorld before (.start () ⟨.default, none⟩) (.new .insecure) = ⟨.goesOn, s₀, net₀⟩ ∧
      (Supervisor.attempted t.round s₀).isSome = true ∧
      asking.Connecting t.round.session.keys t.seed { net₀ with dials := t.dials }
        (course asking sampleWorld [sampleTrial keyOnly.dials] (.start () ⟨.default, none⟩) (.new .insecure)).net := by
  refine only_connecting_hangs asking sampleWorld [sampleTrial keyOnly.dials] (.start () ⟨.default, none⟩)
    (.new .insecure) ?_
  obtain ⟨net, hsetup⟩ := sessionSetup_keyOnly
  have hround : courseRound asking sampleWorld (sampleTrial keyOnly.dials) (.start () ⟨.default, none⟩)
      (.new .insecure) = ⟨.hangs, Supervisor.starting (.start () ⟨.default, none⟩), net⟩ :=
    courseRound_of_hangs _ _ rfl hsetup
  rw [course, hround]

/-! ## The verdict of the probe -/

theorem preflight_verdict {E : SetupEnv} {net net' : Net} {info : ApiInfo}
    (hinfo : E.http.apiInfo E.crates E.parsers net = (.ok info, net')) {e : Error} (he : E.verdict info = some e) :
    E.preflight net = (.error (.failed e), net') := by
  have hflags : (!E.cfg.receiveUpdates && !E.cfg.localOnly) = false := by
    unfold SetupEnv.verdict at he
    cases hu : E.cfg.receiveUpdates with
    | true => rfl
    | false =>
      cases hl : E.cfg.localOnly with
      | true => rfl
      | false => simp [hu, hl] at he
  have hcaught : caught (E.http.apiInfo E.crates E.parsers) net = (.ok (.ok info), net') := by
    rw [caught, hinfo]
  unfold SetupEnv.preflight
  rw [if_neg (by rw [hflags]; exact Bool.false_ne_true), Prog.bind_ok hcaught]
  dsimp only
  rw [he]
  rfl

/-- What the probe reports settles a round before anything is confided: only the probe
is sent. A Miniserver that is not local ends a client that is to be local. One
without a free slot ends it if no session was established yet, and else has it wait
for the long time, if there are attempts left, and go on if it is not stopped. -/
theorem probe_settles (E : SetupEnv) {C : Crates} {η σ : Type} [LoxHandler η] [TokenStore σ] (world : World)
    (t : Trial C σ) (s : Supervisor η σ) (net : Net) (hopens : (Supervisor.attempted t.round s).isSome = true)
    {info : ApiInfo} {net' : Net}
    (hinfo : E.http.apiInfo E.crates E.parsers { net with dials := t.dials } = (.ok info, net')) {e : Error}
    (he : E.verdict info = some e) :
    (∃ new, (courseRound E world t s net).net.contacts = net.contacts ++ new ∧
        ∀ c ∈ new, c.request.confides = false) ∧
      (e = .notLocal ∨ s.everConnected = false → (courseRound E world t s net).ending = .ended ∧
        (courseRound E world t s net).supervisor.ready = s.ready.or (some (.error e))) ∧
      (e ≠ .notLocal → s.everConnected = true →
        (courseRound E world t s net).ending =
          (if shouldContinue s.attempt E.cfg.maxReconnectAttempts ∧ t.round.stoppedInWait = false then .goesOn
            else .ended) ∧
        (courseRound E world t s net).supervisor.waits = s.waits ++
          if shouldContinue s.attempt E.cfg.maxReconnectAttempts then [(.long, E.cfg.longBackoffSecs)] else []) := by
  obtain ⟨a, ha⟩ := Option.isSome_iff_exists.mp hopens
  obtain ⟨s₁, hround, hev, hready, hattempt, hwaits⟩ := round_setupFailed E world ha e
  have hsetup : E.sessionSetup t.round.session.keys t.seed { net with dials := t.dials } =
      (.error (.failed e), net') := by
    rw [SetupEnv.sessionSetup, Prog.bind_error (preflight_verdict hinfo he)]
  have hcourse : courseRound E world t s net =
      .after (Supervisor.react E.cfg t.round.stoppedInWait (.failed e) s₁) net' := by
    rw [courseRound, ha]
    simp only [hsetup, hround]
  rw [hcourse]
  refine ⟨?_, ?_, ?_⟩
  · have hgrows := E.http.apiInfo_grows (X := E.crates) E.parsers { net with dials := t.dials }
    rw [hinfo] at hgrows
    obtain ⟨-, new, hcontacts, hnew⟩ := hgrows
    refine ⟨new, hcontacts, fun c hc => ?_⟩
    obtain ⟨path, -, hreq⟩ := (hnew c hc).1
    rw [hreq]
    rfl
  · intro hends
    have hreact : Supervisor.react E.cfg t.round.stoppedInWait (.failed e) s₁ = (false, s₁.finish (some e)) := by
      rcases E.verdict_cases he with rfl | rfl
      · rfl
      · have hev₁ : s₁.everConnected = false := hev.trans (hends.resolve_left nofun)
        simp [Supervisor.react, Supervisor.onOutcome, Error.isTerminal, hev₁]
    rw [hreact]
    refine ⟨rfl, ?_⟩
    rw [← hready]
    rfl
  · intro hne hconnected
    obtain rfl := (E.verdict_cases he).resolve_left hne
    have hreact : Supervisor.react E.cfg t.round.stoppedInWait (.failed .noEventSlots) s₁ =
        Supervisor.waitReconnect E.cfg t.round.stoppedInWait .long s₁ := by
      simp [Supervisor.react, Supervisor.onOutcome, Error.isTerminal, Error.needsLongBackoff, hev.trans hconnected]
    have hwaiting : (s₁.waiting E.cfg .long).waits = s.waits ++ [(.long, E.cfg.longBackoffSecs)] :=
      congrArg (· ++ _) hwaits
    rw [hreact, ← hattempt]
    rcases Supervisor.waitReconnect_cases E.cfg t.round.stoppedInWait .long s₁ with
      ⟨hleft, h⟩ | ⟨hleft, hstopped, h⟩ | ⟨hleft, hstopped, h⟩
    · rw [h, hleft]
      exact ⟨rfl, hwaits.trans (List.append_nil _).symm⟩
    · rw [h, hleft, hstopped]
      exact ⟨rfl, hwaiting⟩
    · rw [h, hleft, hstopped]
      exact ⟨rfl, hwaiting⟩

/-- A client that is to be local. -/
def onlyLocal : ConnectConfig := { unprobing with localOnly := true }

def remoteAnswer : Bytes := sampleAnswer "\x7b\"local\":false\x7d".toList

def remoteParsers : Parsers :=
  Parsers.rejecting.also remoteAnswer (sampleDocument (.obj [("local".toList, .bool false)]))

/-- It is told that it is not. -/
theorem probe_settles_remote :
    (courseRound (sampleSetup onlyLocal remoteParsers) sampleWorld (sampleTrial [sampleDial 1 200 remoteAnswer])
      (.start () ⟨.default, none⟩) (.new .insecure)).supervisor.ready = some (.error .notLocal) :=
  ((probe_settles (sampleSetup onlyLocal remoteParsers) sampleWorld (sampleTrial [sampleDial 1 200 remoteAnswer])
    (.start () ⟨.default, none⟩) (.new .insecure) rfl rfl rfl).2.1 (.inl rfl)).2

end Lox
