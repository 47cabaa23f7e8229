import LoxWebsocket.Client.ApiInfo
import LoxWebsocket.Client.Tls
import LoxWebsocket.Crypto.KeyExchange
import LoxWebsocket.Framework.Prog

/-!
# Connections to the Miniserver

The requests before a session, each over a connection of its own, and the
connection of the session itself. `Dial` is how a connection goes, stage by stage;
`Net` has the pin shared by all of them, and the requests that were sent
(`Contact`), each with the certificate of the connection it was sent over.

What is sent is sent after the certificate was accepted: over TLS and in a pinning
mode, every contact is with the key that is the pin from then on
(`Net.Asked`, `HttpClient.getInner_requests`, `wsConnect_requests`).
-/

namespace Lox

/-- What comes of waiting for the peer. -/
inductive Wait (α : Type)
  | hangs
  | fails (e : Str)
  | gives (a : α)

/-- How a connection goes, as far as it gets. -/
structure Dial where
  tcp : Wait Unit
  /-- The certificate the peer presents. -/
  certificate : Wait Bytes
  /-- The rest of the TLS handshake, with the proof that the peer has the key. -/
  finished : Wait Unit
  /-- The handshake of HTTP or of the WebSocket. -/
  ready : Wait Unit
  answer : Wait (UInt16 × Bytes)

/-- A peer that is not there. -/
def Dial.dead : Dial := ⟨.hangs, .hangs, .hangs, .hangs, .hangs⟩

inductive Request
  | get (path host : Str) (authorization : Option Str)
  | upgrade (host : Str)
  deriving DecidableEq

/-- Whether it has the password, or starts the session. -/
def Request.confides : Request → Bool
  | get _ _ authorization => authorization.isSome
  | upgrade _ => true

def Request.host : Request → Str
  | get _ host _ => host
  | upgrade host => host

/-- A request that was sent, with the certificate of the peer if TLS was used. -/
structure Contact where
  certificate : Option Bytes
  request : Request
  deriving DecidableEq

structure Net where
  tls : TlsContext
  dials : List Dial
  contacts : List Contact

/-- What ends a request but an answer. -/
inductive Halt
  | hangs
  | panics
  | failed (e : Error)

abbrev NetM := Prog Net Halt

/-- What the crates make of addresses and certificates. -/
structure NetCrates where
  /-- `ServerName::try_from`. -/
  serverName : Str → Except Str Unit
  certs : Certificates
  certErrorText : CertError → Str
  /-- The certificates of a chain, each with what `spki_sha256_of` gives. -/
  loadPemChain : Bytes → Except Str (List (Except Error Fingerprint))

/-- The part of the endpoints that connections are made with. -/
structure Endpoints where
  host : Str
  port : UInt16
  useTls : Bool
  deriving DecidableEq

namespace NetM

variable {α : Type}

def failed (e : Error) : NetM α := Prog.fail (.failed e)

def await (w : Wait α) (onError : Str → Error) : NetM α :=
  Prog.lift <|
    match w with
    | .hangs => .error .hangs
    | .fails e => .error (.failed (onError e))
    | .gives a => .ok a

/-- A result with a panic. -/
def unpanicked (r : Option (Except Error α)) : NetM α :=
  Prog.lift <|
    match r with
    | none => .error .panics
    | some (.error e) => .error (.failed e)
    | some (.ok a) => .ok a

/-- The error of `x` as a value. -/
def caught (x : NetM α) : NetM (Except Error α) := fun net =>
  match x net with
  | (.ok a, net) => (.ok (.ok a), net)
  | (.error (.failed e), net) => (.ok (.error e), net)
  | (.error h, net) => (.error h, net)

/-- A step of the TLS context. -/
def onTls (f : TlsContext → α × TlsContext) : NetM α :=
  Prog.act fun net => ((f net.tls).1, { net with tls := (f net.tls).2 })

def nextDial : NetM Dial := Prog.act fun net => (net.dials.headD .dead, { net with dials := net.dials.tail })

def contact (c : Contact) : NetM Unit := Prog.modify fun net => { net with contacts := net.contacts ++ [c] }

end NetM

open NetM

def portText (port : UInt16) : Str := Error.decimal port.toNat

/-- `host:port`. -/
def Endpoints.addr (ep : Endpoints) : Str := ep.host ++ ":".toList ++ portText ep.port

/-- A failed TLS handshake. -/
def tlsHandshake (e : Str) : Error := .tls ("TLS handshake: ".toList ++ e)

variable (X : NetCrates)

/-- A TCP connection, with TLS over it if it is used: the certificate that was
accepted. -/
def openStream (ep : Endpoints) (onTcp onName : Str → Error) (d : Dial) : NetM (Option Bytes) := do
  await d.tcp fun e => onTcp ("TCP connect ".toList ++ ep.addr ++ ": ".toList ++ e)
  if ep.useTls then
    match X.serverName ep.host with
    | .error e => failed (onName ("invalid server name: ".toList ++ e))
    | .ok () =>
      let endEntity ← await d.certificate tlsHandshake
      match ← onTls fun tls => tls.verifyServerCert X.certs endEntity with
      | .error e => failed (tlsHandshake (X.certErrorText e))
      | .ok () =>
        await d.finished tlsHandshake
        pure (some endEntity)
  else pure none

/-! ## HTTP -/

def cmdGetPublicKey : Str := "jdev/sys/getPublicKey".toList
def cmdGetCertificate : Str := "jdev/sys/getcertificate".toList
def cmdApiKey : Str := "jdev/cfg/apiKey".toList
def cmdApi : Str := "jdev/cfg/api".toList

def basicAuth (username password : Str) : Str :=
  "Basic ".toList ++ b64Encode (utf8 (username ++ ":".toList ++ password))

structure HttpClient where
  ep : Endpoints
  authority : Str

namespace HttpClient

def new (ep : Endpoints) : HttpClient :=
  let defaultPort : UInt16 := if ep.useTls then 443 else 80
  ⟨ep, if ep.port = defaultPort then ep.host else ep.addr⟩

variable (c : HttpClient) (P : Parsers)

def getInner (path : Str) (credentials : Option (Str × Str)) : NetM (UInt16 × Bytes) := do
  let d ← nextDial
  let certificate ← openStream X c.ep .http .tls d
  await d.ready .http
  contact ⟨certificate, .get path c.authority (credentials.map fun (username, password) => basicAuth username password)⟩
  await d.answer .http

/-- The request with its timeout. -/
def get (path : Str) (credentials : Option (Str × Str)) : NetM (UInt16 × Bytes) :=
  (c.getInner X path credentials).mapErr fun
    | .hangs => .failed (.timeout ("HTTP GET /".toList ++ path))
    | h => h

def getLl (path : Str) (credentials : Option (Str × Str)) : NetM Bytes := do
  let (status, body) ← c.get X path credentials
  if status ≠ 200 then failed (.httpStatus status ("GET /".toList ++ path)) else pure body

/-- The key of the Miniserver. -/
def getPublicKey (username password : Str) : NetM Str := do
  let body ← c.getLl X cmdGetPublicKey (some (username, password))
  unpanicked (Lox.getPublicKey P body)

/-- The chain in a `getcertificate` answer. -/
def certificateValue (body : Bytes) : Except Error Str := do
  let root ← parseJson P body
  match ((root.get "LL".toList).bind fun ll => ll.get "value".toList).bind Json.asStr with
  | none => .error (.protocol "getcertificate missing LL.value".toList)
  | some chain =>
    if (findFront "BEGIN CERTIFICATE".toList chain).isSome then .ok chain
    else .error (.protocol "getcertificate returned no PEM block".toList)

def getCertificate (username password : Str) : NetM Str := do
  let body ← c.getLl X cmdGetCertificate (some (username, password))
  unpanicked (some (certificateValue P body))

end HttpClient

/-- The fingerprint of the last certificate of a chain, which is the Miniserver's. -/
def spkiSha256FromPemChain (pem : Str) : Except Error Fingerprint :=
  match X.loadPemChain (utf8 pem) with
  | .error e => .error (.tls ("certificate chain parse: ".toList ++ e))
  | .ok chain =>
    match chain.getLast? with
    | none => .error (.tls "certificate chain is empty".toList)
    | some leaf => leaf

namespace HttpClient

variable (c : HttpClient) (P : Parsers)

/-- Learn or confirm the pin. -/
def bootstrapPin (username password : Str) : NetM Fingerprint := do
  let pem ← c.getCertificate X P username password
  let spki ← unpanicked (some (spkiSha256FromPemChain X pem))
  match ← onTls fun tls => tls.adoptSpki spki with
  | .error e => failed e
  | .ok () => pure spki

def fetchApiInfo (path : Str) : NetM ApiInfo := do
  let body ← c.getLl X path none
  unpanicked (some (parseApiInfo P body))

/-- The reachability probe. -/
def apiInfo : NetM ApiInfo := do
  let key ← caught (c.fetchApiInfo X P cmdApiKey)
  let api ← caught (c.fetchApiInfo X P cmdApi)
  match key, api with
  | .ok info, .ok extra => pure (info.fillFrom extra)
  | .ok info, .error _ => pure info
  | .error _, .ok info => pure info
  | .error e, .error _ => failed e

end HttpClient

/-! ## The connection of a session -/

def wsConnect (ep : Endpoints) : NetM Unit := do
  let d ← nextDial
  let hostHeader :=
    if (!ep.useTls && ep.port = 80) || (ep.useTls && ep.port = 443) then ep.host else ep.addr
  let certificate ← openStream X ep .webSocket .webSocket d
  contact ⟨certificate, .upgrade hostHeader⟩
  await d.ready fun e => .webSocket ("WS handshake: ".toList ++ e)

/-! ## Who is contacted -/

variable (ep : Endpoints)

/-- The certificate is one of the pinned key. -/
def TlsContext.Knows (tls : TlsContext) (certificate : Option Bytes) : Prop :=
  ∃ endEntity spki, certificate = some endEntity ∧ X.certs.spkiSha256 endEntity = .ok spki ∧ tls.pin = some spki

theorem TlsContext.Knows.mono {X : NetCrates} {tls tls' : TlsContext} {certificate : Option Bytes}
    (h : tls.Knows X certificate) (hholds : tls.Holds tls') : tls'.Knows X certificate := by
  obtain ⟨endEntity, spki, hc, hspki, hpin⟩ := h
  exact ⟨endEntity, spki, hc, hspki, hholds.2 spki hpin⟩

namespace Net

/-- In between, requests were sent that meet `Q`, over TLS and in a pinning mode all
to the pinned key. -/
def Grows (Q : Request → Prop) (net net' : Net) : Prop :=
  net.tls.Holds net'.tls ∧ ∃ new, net'.contacts = net.contacts ++ new ∧ ∀ c ∈ new, Q c.request ∧
    (ep.useTls = true → net'.tls.mode.pins = true → net'.tls.Knows X c.certificate)

instance (Q : Request → Prop) : IsPreorder Net (Grows X ep Q) where
  refl net := ⟨.refl _, [], (List.append_nil _).symm, fun _ h => nomatch h⟩
  trans a b c := by
    rintro ⟨hab, new, hnew, hq⟩ ⟨hbc, new', hnew', hq'⟩
    refine ⟨hab.trans hbc, new ++ new', by rw [hnew', hnew, List.append_assoc], fun contact hm => ?_⟩
    rcases List.mem_append.mp hm with hm | hm
    · refine ⟨(hq contact hm).1, fun htls hpins => ((hq contact hm).2 htls ?_).mono hbc⟩
      rw [← hbc.1, hpins]
    · exact hq' contact hm

variable {X ep}

theorem grows_of_eq {Q : Request → Prop} {net net' : Net} (htls : net.tls.Holds net'.tls)
    (hcontacts : net'.contacts = net.contacts) : Grows X ep Q net net' :=
  ⟨htls, [], by rw [hcontacts, List.append_nil], fun _ h => nomatch h⟩

/-- Nothing is sent. -/
def Quiet (net net' : Net) : Prop := net.tls.Holds net'.tls ∧ net'.contacts = net.contacts

instance : IsPreorder Net Quiet where
  refl _ := ⟨.refl _, rfl⟩
  trans _ _ _ hab hbc := ⟨hab.1.trans hbc.1, hbc.2.trans hab.2⟩

theorem Grows.mono {Q Q' : Request → Prop} {net net' : Net} (h : Grows X ep Q net net')
    (hq : ∀ r, Q r → Q' r) : Grows X ep Q' net net' := by
  obtain ⟨hholds, new, hnew, hall⟩ := h
  exact ⟨hholds, new, hnew, fun c hc => ⟨hq _ (hall c hc).1, (hall c hc).2⟩⟩

end Net

open Net

namespace NetM

variable {α : Type} {R : Net → Net → Prop} [IsPreorder Net R]

omit [IsPreorder Net R] in
/-- Waiting changes nothing. -/
theorem await_wp {w : Wait α} {onError : Str → Error} {Q : α → Net → Prop} {E : Halt → Net → Prop} {net : Net}
    (hQ : ∀ a, Q a net) (hE : ∀ h, E h net) : (await w onError).wp Q E net :=
  (Prog.wp_lift _).mpr ⟨fun a _ => hQ a, fun h _ => hE h⟩

theorem unpanicked_keeps (r : Option (Except Error α)) : (unpanicked r).Keeps R := Prog.keeps_lift _

theorem failed_keeps (e : Error) : (failed e : NetM α).Keeps R := Prog.keeps_fail _

omit [IsPreorder Net R] in
theorem caught_keeps {x : NetM α} (h : x.Keeps R) : (caught x).Keeps R := by
  intro net
  have hx := h net
  unfold caught
  rcases hr : x net with ⟨(_ | _ | _) | _, net'⟩
  all_goals
    rw [hr] at hx
    exact hx

end NetM

variable {X ep}

theorem verifyServerCert_holds (tls : TlsContext) (endEntity : Bytes) :
    tls.Holds (tls.verifyServerCert X.certs endEntity).2 := TlsContext.apply_holds X.certs tls (.handshake endEntity)

/-- A certificate that is accepted in a pinning mode is one of the pinned key. -/
theorem verifyServerCert_knows (tls : TlsContext) (endEntity : Bytes)
    (h : (tls.verifyServerCert X.certs endEntity).1 = .ok ())
    (hpins : (tls.verifyServerCert X.certs endEntity).2.mode.pins = true) :
    (tls.verifyServerCert X.certs endEntity).2.Knows X (some endEntity) := by
  rw [(verifyServerCert_holds tls endEntity).1] at hpins
  obtain ⟨spki, hspki, hpin⟩ := TlsContext.pin_of_accepted X.certs hpins h
  exact ⟨endEntity, spki, rfl, hspki, hpin⟩

/-- A stream is opened to the pinned key, and nothing is sent over it yet. -/
theorem openStream_wp (onTcp onName : Str → Error) (d : Dial) (net : Net) :
    (openStream X ep onTcp onName d).wp
      (fun certificate net' => Quiet net net' ∧
        (ep.useTls = true → net'.tls.mode.pins = true → net'.tls.Knows X certificate))
      (fun _ net' => Quiet net net') net := by
  unfold openStream
  refine Prog.wp_bind.mpr (await_wp (fun _ => ?_) fun _ => ⟨.refl _, rfl⟩)
  split_ifs with htls
  · split
    · exact ⟨.refl _, rfl⟩
    refine Prog.wp_bind.mpr (await_wp (fun endEntity => ?_) fun _ => ⟨.refl _, rfl⟩)
    have hholds := verifyServerCert_holds (X := X) net.tls endEntity
    have hknows := verifyServerCert_knows (X := X) net.tls endEntity
    rw [Prog.wp_bind, onTls, Prog.wp_act]
    generalize net.tls.verifyServerCert X.certs endEntity = verified at hholds hknows
    obtain ⟨_ | _, tls⟩ := verified
    · exact ⟨hholds, rfl⟩
    · exact Prog.wp_bind.mpr (await_wp (fun _ => ⟨⟨hholds, rfl⟩, fun _ => hknows rfl⟩) fun _ => ⟨hholds, rfl⟩)
  · exact ⟨⟨.refl _, rfl⟩, fun h => absurd h htls⟩

namespace Net

/-- The request `r` was sent, over TLS and in a pinning mode to the pinned key. -/
def Asked (X : NetCrates) (ep : Endpoints) (r : Request) (net net' : Net) : Prop :=
  net.tls.Holds net'.tls ∧ ∃ certificate, net'.contacts = net.contacts ++ [⟨certificate, r⟩] ∧
    (ep.useTls = true → net'.tls.mode.pins = true → net'.tls.Knows X certificate)

/-- At most that. -/
def Asks (X : NetCrates) (ep : Endpoints) (r : Request) (net net' : Net) : Prop :=
  Quiet net net' ∨ Asked X ep r net net'

variable {r : Request} {net net' net'' : Net}

theorem Asks.holds (h : Asks X ep r net net') : net.tls.Holds net'.tls := h.elim And.left And.left

theorem Asked.grows (h : Asked X ep r net net') : Grows X ep (· = r) net net' := by
  obtain ⟨hholds, certificate, hcontacts, hknows⟩ := h
  refine ⟨hholds, _, hcontacts, fun c hc => ?_⟩
  cases List.mem_singleton.mp hc
  exact ⟨rfl, hknows⟩

theorem Asks.grows (h : Asks X ep r net net') : Grows X ep (· = r) net net' :=
  h.elim (fun hq => grows_of_eq hq.1 hq.2) Asked.grows

theorem Asked.quiet (h : Asked X ep r net net') (hq : Quiet net' net'') : Asked X ep r net net'' := by
  obtain ⟨hholds, certificate, hcontacts, hknows⟩ := h
  refine ⟨hholds.trans hq.1, certificate, hq.2.trans hcontacts, fun htls hpins => (hknows htls ?_).mono hq.1⟩
  rw [← hq.1.1, hpins]

theorem Asks.quiet (h : Asks X ep r net net') (hq : Quiet net' net'') : Asks X ep r net net'' :=
  h.imp (fun h => trans_of Quiet h hq) fun h => h.quiet hq

end Net

/-- A program that sends the request `r`, unless it fails before. -/
def NetM.Requests (X : NetCrates) (ep : Endpoints) (r : Request) {α : Type} (x : NetM α) : Prop :=
  ∀ net, x.wp (fun _ net' => Asked X ep r net net') (fun _ net' => Asks X ep r net net') net

namespace NetM.Requests

variable {r : Request} {α β : Type} {x : NetM α}

theorem keeps (h : Requests X ep r x) : x.Keeps (Asks X ep r) := fun net =>
  Prog.of_wp (I := Asks X ep r net) (Prog.wp_mono (h net) (fun _ _ => .inr) fun _ _ => id)

theorem mapErr (h : Requests X ep r x) (f : Halt → Halt) : Requests X ep r (x.mapErr f) := fun net =>
  Prog.wp_mapErr.mpr (h net)

/-- What follows sends nothing. -/
theorem bind {f : α → NetM β} (h : Requests X ep r x) (hf : ∀ a, (f a).Keeps Quiet) : Requests X ep r (x >>= f) :=
  fun net => Prog.wp_bind.mpr (Prog.wp_mono (h net)
    (fun a net' hsent => Prog.wp_mono ((hf a).wp net') (fun _ _ => hsent.quiet) fun _ _ hq => .inr (hsent.quiet hq))
    fun _ _ => id)

end NetM.Requests

namespace HttpClient

variable (c : HttpClient) (P : Parsers)

/-- The request for a path. -/
def request (path : Str) (credentials : Option (Str × Str)) : Request :=
  .get path c.authority (credentials.map fun (username, password) => basicAuth username password)

theorem getInner_requests (path : Str) (credentials : Option (Str × Str)) :
    Requests X c.ep (c.request path credentials) (c.getInner X path credentials) := by
  intro net
  unfold getInner
  rw [Prog.wp_bind, nextDial, Prog.wp_act]
  refine Prog.wp_bind.mpr (Prog.wp_mono (openStream_wp _ _ _ _) (fun certificate net₁ h₁ => ?_) fun _ _ => .inl)
  obtain ⟨⟨hholds, hcontacts⟩, hknows⟩ := h₁
  refine Prog.wp_bind.mpr (await_wp (fun _ => ?_) fun _ => .inl ⟨hholds, hcontacts⟩)
  rw [Prog.wp_bind, contact, Prog.wp_modify]
  have hsent : Asked X c.ep (c.request path credentials) net
      { net₁ with contacts := net₁.contacts ++ [⟨certificate, c.request path credentials⟩] } :=
    ⟨hholds, certificate, by rw [hcontacts], hknows⟩
  exact await_wp (fun _ => hsent) fun _ => .inr hsent

theorem getLl_requests (path : Str) (credentials : Option (Str × Str)) :
    Requests X c.ep (c.request path credentials) (c.getLl X path credentials) := by
  refine ((c.getInner_requests path credentials).mapErr _).bind fun answer => ?_
  obtain ⟨status, body⟩ := answer
  dsimp only
  split_ifs
  · exact failed_keeps _
  · exact Prog.keeps_pure _

theorem getPublicKey_requests (username password : Str) : Requests X c.ep
    (c.request cmdGetPublicKey (some (username, password))) (c.getPublicKey X P username password) :=
  (c.getLl_requests _ _).bind fun _ => unpanicked_keeps _

theorem adoptSpki_quiet (spki : Fingerprint) : (onTls fun tls => tls.adoptSpki spki).Keeps Quiet := fun net =>
  ⟨TlsContext.adoptSpki_holds net.tls spki, rfl⟩

theorem bootstrapPin_requests (username password : Str) : Requests X c.ep
    (c.request cmdGetCertificate (some (username, password))) (c.bootstrapPin X P username password) := by
  have hcertificate : Requests X c.ep (c.request cmdGetCertificate (some (username, password)))
      (c.getCertificate X P username password) := (c.getLl_requests _ _).bind fun _ => unpanicked_keeps _
  refine hcertificate.bind fun pem => Prog.Keeps.bind (unpanicked_keeps _) fun spki =>
    (adoptSpki_quiet spki).bind fun adopted => ?_
  cases adopted with
  | error e => exact failed_keeps e
  | ok => exact Prog.keeps_pure spki

/-- The probe asks for nothing else, and without the password. -/
theorem apiInfo_grows :
    (c.apiInfo X P).Keeps (Grows X c.ep fun r => ∃ path ∈ [cmdApiKey, cmdApi], r = c.request path none) := by
  have hfetch (path : Str) (hp : path ∈ [cmdApiKey, cmdApi]) : (caught (c.fetchApiInfo X P path)).Keeps
      (Grows X c.ep fun r => ∃ path ∈ [cmdApiKey, cmdApi], r = c.request path none) := by
    have hrequests : Requests X c.ep (c.request path none) (c.fetchApiInfo X P path) :=
      (c.getLl_requests _ _).bind fun _ => unpanicked_keeps _
    exact caught_keeps (hrequests.keeps.mono fun _ _ h => h.grows.mono fun _ hr => ⟨path, hp, hr⟩)
  refine (hfetch _ List.mem_cons_self).bind fun key => (hfetch _ (by simp)).bind fun api => ?_
  rcases key with _ | _ <;> rcases api with _ | _
  · exact failed_keeps _
  · exact Prog.keeps_pure _
  · exact Prog.keeps_pure _
  · exact Prog.keeps_pure _

end HttpClient

theorem hostHeader_eq_authority (ep : Endpoints) :
    (if (!ep.useTls && ep.port = 80) || (ep.useTls && ep.port = 443) then ep.host else ep.addr) =
      (HttpClient.new ep).authority := by
  cases htls : ep.useTls with
  | false => simp [HttpClient.new, htls]
  | true => simp [HttpClient.new, htls]

/-- The upgrade names the same host as the other requests. -/
theorem wsConnect_requests (ep : Endpoints) :
    Requests X ep (.upgrade (HttpClient.new ep).authority) (wsConnect X ep) := by
  intro net
  unfold wsConnect
  rw [Prog.wp_bind, nextDial, Prog.wp_act, hostHeader_eq_authority]
  refine Prog.wp_bind.mpr (Prog.wp_mono (openStream_wp _ _ _ _) (fun certificate net₁ h₁ => ?_) fun _ _ => .inl)
  obtain ⟨⟨hholds, hcontacts⟩, hknows⟩ := h₁
  rw [Prog.wp_bind, contact, Prog.wp_modify]
  have hsent : Asked X ep (.upgrade (HttpClient.new ep).authority) net
      { net₁ with contacts := net₁.contacts ++ [⟨certificate, .upgrade (HttpClient.new ep).authority⟩] } :=
    ⟨hholds, certificate, by rw [hcontacts], hknows⟩
  exact await_wp (fun _ => hsent) fun _ => .inr hsent

/-! ## How requests fail -/

/-- An error, but not one of the pin. -/
def Halt.Ordinary (h : Halt) : Prop := ∃ e, h = .failed e ∧ ∀ expected actual, e ≠ .tlsPinMismatch expected actual

/-- A program whose errors are as `H` has it. -/
abbrev NetM.Raises (H : Halt → Prop) {α : Type} (x : NetM α) : Prop := x.Upholds (fun _ => True) fun h _ => H h

namespace NetM

variable {α : Type} {H : Halt → Prop}

theorem await_raises {w : Wait α} {onError : Str → Error} (hhangs : H .hangs) (hfailed : ∀ e, H (.failed (onError e))) :
    Raises H (await w onError) := by
  intro net _
  cases w with
  | hangs => exact hhangs
  | fails e => exact hfailed e
  | gives a => trivial

theorem unpanicked_raises {r : Option (Except Error α)} (hpanics : r = none → H .panics)
    (hfailed : ∀ e, r = some (.error e) → H (.failed e)) : Raises H (unpanicked r) := by
  intro net _
  cases r with
  | none => exact hpanics rfl
  | some r =>
    cases r with
    | error e => exact hfailed e rfl
    | ok a => trivial

theorem Raises.mono {H' : Halt → Prop} {x : NetM α} (h : Raises H x) (hH : ∀ h, H h → H' h) : Raises H' x :=
  fun net hnet => Prog.wp_mono (h net hnet) (fun _ _ => id) fun e _ => hH e

theorem act_raises (f : Net → α × Net) : Raises H (Prog.act f) := fun _ _ => trivial

theorem failed_raises {e : Error} (h : H (.failed e)) : Raises H (failed e : NetM α) := fun _ _ => h

theorem pure_raises (a : α) : Raises H (pure a : NetM α) := fun _ _ => trivial

/-- What only fails with errors does not fail once they are caught. -/
theorem caught_raises {x : NetM α} (h : Raises (fun h => ∃ e, h = .failed e) x) :
    Raises (fun _ => False) (caught x) := by
  intro net _
  have hx := h net trivial
  unfold Prog.wp caught at *
  rcases hr : x net with ⟨(_ | _ | e) | a, net'⟩
  · rw [hr] at hx
    exact nomatch hx
  · rw [hr] at hx
    exact nomatch hx
  · trivial
  · trivial

end NetM

theorem openStream_raises {H : Halt → Prop} {onTcp onName : Str → Error} (hhangs : H .hangs)
    (htcp : ∀ e, H (.failed (onTcp e))) (hname : ∀ e, H (.failed (onName e)))
    (htls : ∀ e, H (.failed (tlsHandshake e))) (d : Dial) : Raises H (openStream X ep onTcp onName d) := by
  refine Prog.Upholds.bind (await_raises hhangs fun _ => htcp _) fun _ => ?_
  split_ifs
  · split
    · exact failed_raises (hname _)
    refine Prog.Upholds.bind (await_raises hhangs htls) fun endEntity => Prog.Upholds.bind (act_raises _)
      fun verified => ?_
    cases verified with
    | error e => exact failed_raises (htls _)
    | ok => exact Prog.Upholds.bind (await_raises hhangs htls) fun _ => pure_raises _
  · exact pure_raises _

namespace HttpClient

variable (c : HttpClient) (P : Parsers)

/-- A request ends with its timeout at the latest. -/
theorem get_raises (path : Str) (credentials : Option (Str × Str)) :
    Raises Halt.Ordinary (c.get X path credentials) := by
  have hinner : Raises (fun h => h = .hangs ∨ h.Ordinary) (c.getInner X path credentials) := by
    refine Prog.Upholds.bind (act_raises _) fun d => Prog.Upholds.bind
      (openStream_raises (.inl rfl) (fun _ => .inr ⟨_, rfl, nofun⟩) (fun _ => .inr ⟨_, rfl, nofun⟩)
        (fun _ => .inr ⟨_, rfl, nofun⟩) d) fun certificate => ?_
    refine Prog.Upholds.bind (await_raises (.inl rfl) fun _ => .inr ⟨_, rfl, nofun⟩) fun _ => ?_
    exact Prog.Upholds.bind (fun _ _ => trivial) fun _ => await_raises (.inl rfl) fun _ => .inr ⟨_, rfl, nofun⟩
  refine hinner.mapErr fun h net hh => ?_
  rcases hh with rfl | ⟨e, rfl, he⟩
  · exact ⟨_, rfl, nofun⟩
  · exact ⟨e, rfl, he⟩

theorem getLl_raises (path : Str) (credentials : Option (Str × Str)) :
    Raises Halt.Ordinary (c.getLl X path credentials) := by
  refine Prog.Upholds.bind (c.get_raises path credentials) fun answer => ?_
  obtain ⟨status, body⟩ := answer
  dsimp only
  split_ifs
  · exact failed_raises ⟨_, rfl, nofun⟩
  · exact pure_raises _

theorem publicKeyValue_error {body : Bytes} {e : Error} (h : publicKeyValue P body = .error e) :
    ∀ expected actual, e ≠ .tlsPinMismatch expected actual := by
  unfold publicKeyValue parseJson at h
  cases hroot : P.fromSlice body with
  | error m =>
    rw [hroot] at h
    cases h
    exact nofun
  | ok root =>
    rw [hroot] at h
    simp only [bind, Except.bind] at h
    split at h
    · cases h
      exact nofun
    split at h
    · cases h
      exact nofun
    split_ifs at h
    cases h
    exact nofun

theorem getPublicKey_raises (username password : Str) :
    Raises (fun h => h = .panics ∨ h.Ordinary) (c.getPublicKey X P username password) := by
  refine Prog.Upholds.bind ((c.getLl_raises _ _).mono fun _ => .inr) fun body =>
    unpanicked_raises (fun _ => .inl rfl) fun e he => .inr ⟨e, rfl, ?_⟩
  unfold Lox.getPublicKey at he
  split at he
  · rename_i e' herror
    cases he
    exact publicKeyValue_error P herror
  · obtain ⟨_, -, hnone⟩ := Option.map_eq_some_iff.mp he
    cases hnone

/-- What comes after the answer of a request only fails with errors. -/
theorem getLl_fails (path : Str) (credentials : Option (Str × Str)) :
    Raises (fun h => ∃ e, h = .failed e) (c.getLl X path credentials) :=
  (c.getLl_raises path credentials).mono fun _ h => ⟨h.choose, h.choose_spec.1⟩

theorem fails_of_some {α : Type} (r : Except Error α) : Raises (fun h => ∃ e, h = .failed e) (unpanicked (some r)) :=
  unpanicked_raises (fun h => nomatch h) fun e _ => ⟨e, rfl⟩

theorem apiInfo_raises : Raises (fun h => ∃ e, h = .failed e) (c.apiInfo X P) := by
  have hfetch (path : Str) : Raises (fun h => ∃ e, h = .failed e) (caught (c.fetchApiInfo X P path)) :=
    (caught_raises (Prog.Upholds.bind (c.getLl_fails _ _) fun _ => fails_of_some _)).mono fun _ h => h.elim
  refine Prog.Upholds.bind (hfetch _) fun key => Prog.Upholds.bind (hfetch _) fun api => ?_
  rcases key with _ | _ <;> rcases api with _ | _
  · exact failed_raises ⟨_, rfl⟩
  · exact pure_raises _
  · exact pure_raises _
  · exact pure_raises _

theorem bootstrapPin_raises (username password : Str) :
    Raises (fun h => ∃ e, h = .failed e) (c.bootstrapPin X P username password) := by
  refine Prog.Upholds.bind (Prog.Upholds.bind (c.getLl_fails _ _) fun _ => fails_of_some _) fun pem => ?_
  refine Prog.Upholds.bind (fails_of_some _) fun spki => Prog.Upholds.bind (act_raises _) fun adopted => ?_
  cases adopted with
  | error e => exact failed_raises ⟨e, rfl⟩
  | ok => exact pure_raises spki

end HttpClient

theorem wsConnect_raises : Raises (fun h => h = .hangs ∨ h.Ordinary) (wsConnect X ep) := by
  refine Prog.Upholds.bind (act_raises _) fun d => Prog.Upholds.bind
    (openStream_raises (.inl rfl) (fun _ => .inr ⟨_, rfl, nofun⟩) (fun _ => .inr ⟨_, rfl, nofun⟩)
      (fun _ => .inr ⟨_, rfl, nofun⟩) d) fun certificate => ?_
  exact Prog.Upholds.bind (fun _ _ => trivial) fun _ => await_raises (.inl rfl) fun _ => .inr ⟨_, rfl, nofun⟩

/-! ## What hangs -/

theorem NetM.Raises.ne_hangs {α : Type} {H : Halt → Prop} {x : NetM α} (hx : Raises H x) (hH : ¬ H .hangs)
    {net net' : Net} : x net ≠ (.error .hangs, net') := fun h => hH ((Prog.wp_error h).mp (hx net trivial))

theorem unpanicked_ne_hangs {α : Type} {r : Option (Except Error α)} {net net' : Net} :
    unpanicked r net ≠ (.error .hangs, net') := by
  intro h
  rcases r with _ | _ | _
  · cases h
  · cases h
  · cases h

theorem unpanicked_eq_ok {α : Type} {r : Option (Except Error α)} {a : α} {net net' : Net}
    (h : unpanicked r net = (.ok a, net')) : r = some (.ok a) ∧ net' = net := by
  rcases r with _ | _ | _
  · cases h
  · cases h
  · cases h
    exact ⟨rfl, rfl⟩

theorem await_hangs {α : Type} {w : Wait α} {onError : Str → Error} {net net' : Net}
    (h : await w onError net = (.error .hangs, net')) : w = .hangs ∧ net' = net := by
  cases w with
  | hangs =>
    cases h
    exact ⟨rfl, rfl⟩
  | fails e => cases h
  | gives a => cases h

/-- The peer is not heard of while the stream is opened. -/
def Dial.Mute (ep : Endpoints) (d : Dial) : Prop :=
  d.tcp = .hangs ∨ ep.useTls = true ∧ (d.certificate = .hangs ∨ d.finished = .hangs)

theorem openStream_hangs {onTcp onName : Str → Error} {d : Dial} {net net' : Net}
    (h : openStream X ep onTcp onName d net = (.error .hangs, net')) : d.Mute ep := by
  rcases Prog.bind_eq_error h with h | ⟨_, _, -, h⟩
  · exact .inl (await_hangs h).1
  split_ifs at h with htls
  · refine .inr ⟨htls, ?_⟩
    rcases hname : X.serverName ep.host with e | _
    · rw [hname] at h
      cases h
    rw [hname] at h
    rcases Prog.bind_eq_error h with h | ⟨endEntity, _, -, h⟩
    · exact .inl (await_hangs h).1
    rcases Prog.bind_eq_error h with h | ⟨verified, _, -, h⟩
    · cases h
    cases verified with
    | error e => cases h
    | ok =>
      rcases Prog.bind_eq_error h with h | ⟨_, _, -, h⟩
      · exact .inr (await_hangs h).1
      · cases h
  · cases h

/-- The connection of a session hangs before anything is sent over it, or after the
upgrade. -/
theorem wsConnect_hangs {net net' : Net} (h : wsConnect X ep net = (.error .hangs, net')) :
    net'.contacts = net.contacts ∧ (net.dials.headD .dead).Mute ep ∨
      (∃ certificate, net'.contacts = net.contacts ++ [⟨certificate, .upgrade (HttpClient.new ep).authority⟩]) ∧
        (net.dials.headD .dead).ready = .hangs := by
  have hquiet : (openStream X ep .webSocket .webSocket (net.dials.headD .dead)).wp _ _
    { net with dials := net.dials.tail } := openStream_wp _ _ _ _
  unfold wsConnect at h
  rw [hostHeader_eq_authority] at h
  rcases Prog.bind_eq_error h with h | ⟨d, net₁, hdial, h⟩
  · cases h
  cases hdial
  rcases Prog.bind_eq_error h with h | ⟨certificate, net₂, hopen, h⟩
  · rw [Prog.wp_error h] at hquiet
    exact .inl ⟨hquiet.2, openStream_hangs h⟩
  rw [Prog.wp_ok hopen] at hquiet
  rcases Prog.bind_eq_error h with h | ⟨_, net₃, hsent, h⟩
  · cases h
  cases hsent
  obtain ⟨hready, rfl⟩ := await_hangs h
  refine .inr ⟨⟨certificate, ?_⟩, hready⟩
  rw [← hquiet.1.2]

end Lox
