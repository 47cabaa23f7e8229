import LoxWebsocket.Framework.Codec
import LoxWebsocket.Error

/-!
# The certificate pin

In the pinning modes one slot holds the fingerprint of the Miniserver's public
key. The verifier of certificates and `adoptSpki` both fill it and compare with
it. Over any order of connections and adoptions the slot is filled at most once,
and every certificate that is accepted has the fingerprint in it (`one_pin`).
-/

namespace Lox

/-- SHA-256 over a public key. -/
abbrev Fingerprint := Vector UInt8 32

inductive TlsMode
  | webPki
  | pinOnFirstUse
  | pinned (spkiSha256 : Fingerprint)
  | insecure
  deriving DecidableEq

def TlsMode.pins : TlsMode → Bool
  | pinOnFirstUse => true
  | pinned _ => true
  | _ => false

inductive CertError
  | general (message : Str)
  | applicationVerificationFailure
  | webPki
  deriving DecidableEq

/-- What the crates make of a certificate: the fingerprint of its public key, and
whether it passes WebPKI verification. -/
structure Certificates where
  spkiSha256 : Bytes → Except Error Fingerprint
  webPki : Bytes → Bool

/-- The mode, and the pin shared by all connections. -/
structure TlsContext where
  mode : TlsMode
  pin : Option Fingerprint
  deriving DecidableEq

namespace TlsContext

def new (mode : TlsMode) : TlsContext :=
  match mode with
  | .pinned spkiSha256 => ⟨mode, some spkiSha256⟩
  | _ => ⟨mode, none⟩

def pinnedSpki (ctx : TlsContext) : Option Fingerprint := ctx.pin

/-- The verifier of the pinning modes; with `learn` it fills an empty slot. -/
def verifyPin (ctx : TlsContext) (learn : Bool) (presented : Fingerprint) : Except CertError Unit × TlsContext :=
  match ctx.pin with
  | some expected =>
    if expected = presented then (.ok (), ctx) else (.error .applicationVerificationFailure, ctx)
  | none =>
    if learn then (.ok (), { ctx with pin := some presented }) else (.error .applicationVerificationFailure, ctx)

def verifyServerCert (certs : Certificates) (ctx : TlsContext) (endEntity : Bytes) :
    Except CertError Unit × TlsContext :=
  match ctx.mode with
  | .webPki => (if certs.webPki endEntity then .ok () else .error .webPki, ctx)
  | .insecure => (.ok (), ctx)
  | mode =>
    match certs.spkiSha256 endEntity with
    | .error e => (.error (.general e.display), ctx)
    | .ok presented => ctx.verifyPin (decide (mode = .pinOnFirstUse)) presented

/-- Adopt `spki` as the pin, or fail if a different one is already enforced. -/
def adoptSpki (ctx : TlsContext) (spki : Fingerprint) : Except Error Unit × TlsContext :=
  if !ctx.mode.pins then (.ok (), ctx)
  else
    match ctx.pin with
    | some existing =>
      if existing = spki then (.ok (), ctx)
      else (.error (.tlsPinMismatch (hexEncode existing.toList) (hexEncode spki.toList)), ctx)
    | none => (.ok (), { ctx with pin := some spki })

/-! ## One event -/

inductive Event
  /-- A TLS handshake in which the peer presents a certificate. -/
  | handshake (endEntity : Bytes)
  | adopt (spki : Fingerprint)

variable (certs : Certificates)

def apply (ctx : TlsContext) : Event → TlsContext
  | .handshake endEntity => (ctx.verifyServerCert certs endEntity).2
  | .adopt spki => (ctx.adoptSpki spki).2

/-- The context after the events, in order. -/
def after (ctx : TlsContext) (events : List Event) : TlsContext := events.foldl (apply certs) ctx

/-- The mode stays, and so does a pin that is there. -/
def Holds (ctx ctx' : TlsContext) : Prop := ctx'.mode = ctx.mode ∧ ∀ pin, ctx.pin = some pin → ctx'.pin = some pin

theorem Holds.refl (ctx : TlsContext) : ctx.Holds ctx := ⟨rfl, fun _ => id⟩

theorem Holds.trans {a b c : TlsContext} (h : a.Holds b) (h' : b.Holds c) : a.Holds c :=
  ⟨h'.1.trans h.1, fun pin hp => h'.2 pin (h.2 pin hp)⟩

theorem verifyPin_holds (ctx : TlsContext) (learn : Bool) (presented : Fingerprint) :
    ctx.Holds (ctx.verifyPin learn presented).2 := by
  unfold verifyPin
  split
  · split_ifs
    · exact .refl ctx
    · exact .refl ctx
  · rename_i hpin
    split_ifs
    · exact ⟨rfl, fun pin hp => by rw [hpin] at hp; cases hp⟩
    · exact .refl ctx

theorem adoptSpki_holds (ctx : TlsContext) (spki : Fingerprint) : ctx.Holds (ctx.adoptSpki spki).2 := by
  unfold adoptSpki
  split_ifs
  · exact .refl ctx
  · split
    · split_ifs
      · exact .refl ctx
      · exact .refl ctx
    · rename_i hpin
      exact ⟨rfl, fun pin hp => by rw [hpin] at hp; cases hp⟩

theorem apply_holds (ctx : TlsContext) (event : Event) : ctx.Holds (ctx.apply certs event) := by
  cases event with
  | adopt spki => exact adoptSpki_holds ctx spki
  | handshake endEntity =>
    rw [apply, verifyServerCert]
    split
    · exact .refl ctx
    · exact .refl ctx
    · split
      · exact .refl ctx
      · exact verifyPin_holds ctx _ _

theorem after_holds (ctx : TlsContext) (events : List Event) : ctx.Holds (ctx.after certs events) := by
  induction events generalizing ctx with
  | nil => exact .refl ctx
  | cons event events ih => exact (apply_holds certs ctx event).trans (ih _)

theorem after_append (ctx : TlsContext) (events later : List Event) :
    ctx.after certs (events ++ later) = (ctx.after certs events).after certs later := List.foldl_append

theorem pin_of_verifyPin {ctx : TlsContext} {learn : Bool} {presented : Fingerprint}
    (h : (ctx.verifyPin learn presented).1 = .ok ()) : (ctx.verifyPin learn presented).2.pin = some presented := by
  unfold verifyPin at h ⊢
  cases hpin : ctx.pin with
  | none =>
    simp only [hpin] at h ⊢
    split_ifs at h with hlearn
    rw [if_pos hlearn]
  | some expected =>
    simp only [hpin] at h ⊢
    split_ifs at h with heq
    rw [if_pos heq, hpin, heq]

/-- A certificate that is accepted has the fingerprint that is then in the slot. -/
theorem pin_of_accepted {ctx : TlsContext} (hpins : ctx.mode.pins = true) {endEntity : Bytes}
    (h : (ctx.verifyServerCert certs endEntity).1 = .ok ()) :
    ∃ spki, certs.spkiSha256 endEntity = .ok spki ∧ (ctx.verifyServerCert certs endEntity).2.pin = some spki := by
  unfold verifyServerCert at h ⊢
  split at h
  · rename_i hmode
    rw [hmode] at hpins
    cases hpins
  · rename_i hmode
    rw [hmode] at hpins
    cases hpins
  · cases hspki : certs.spkiSha256 endEntity with
    | error e =>
      rw [hspki] at h
      cases h
    | ok presented =>
      rw [hspki] at h
      exact ⟨presented, rfl, pin_of_verifyPin h⟩

/-- An adoption fails if and only if another fingerprint is in the slot. -/
theorem adoptSpki_mismatch {ctx : TlsContext} (hpins : ctx.mode.pins = true) (spki : Fingerprint) :
    ((∃ expected actual, (ctx.adoptSpki spki).1 = .error (.tlsPinMismatch expected actual)) ↔
        ∃ existing, ctx.pin = some existing ∧ existing ≠ spki) ∧
      ∀ e, (ctx.adoptSpki spki).1 = .error e → (ctx.adoptSpki spki).2 = ctx := by
  unfold adoptSpki
  rw [hpins]
  cases ctx.pin with
  | none => simp
  | some existing =>
    by_cases heq : existing = spki
    · simp [heq]
    · simp [heq]

end TlsContext

open TlsContext

/-- In the pinning modes, over any handshakes and adoptions: a pin that is there
stays; every certificate that is accepted has the fingerprint that is the pin from
then on, and in the mode `pinned` it is the configured one; and an adoption fails,
and changes nothing, if and only if another fingerprint is pinned. -/
theorem one_pin (certs : Certificates) (mode : TlsMode) (hpins : mode.pins = true) (events : List Event) :
    (∀ pin later, ((new mode).after certs events).pinnedSpki = some pin →
        ((new mode).after certs (events ++ later)).pinnedSpki = some pin) ∧
      (∀ endEntity later, (((new mode).after certs events).verifyServerCert certs endEntity).1 = .ok () →
        ∃ spki, certs.spkiSha256 endEntity = .ok spki ∧
          ((new mode).after certs (events ++ .handshake endEntity :: later)).pinnedSpki = some spki ∧
          ∀ configured, mode = .pinned configured → spki = configured) ∧
      ∀ spki, ((∃ expected actual,
          (((new mode).after certs events).adoptSpki spki).1 = .error (.tlsPinMismatch expected actual)) ↔
            ∃ existing, ((new mode).after certs events).pinnedSpki = some existing ∧ existing ≠ spki) ∧
        ∀ e, (((new mode).after certs events).adoptSpki spki).1 = .error e →
          (((new mode).after certs events).adoptSpki spki).2 = (new mode).after certs events := by
  have hnew : (new mode).mode = mode := by
    cases mode with
    | webPki => rfl
    | pinOnFirstUse => rfl
    | pinned spkiSha256 => rfl
    | insecure => rfl
  have hmode : ((new mode).after certs events).mode.pins = true := by
    rw [(after_holds certs _ events).1, hnew, hpins]
  refine ⟨fun pin later hpin => ?_, fun endEntity later haccepted => ?_, fun spki => adoptSpki_mismatch hmode spki⟩
  · rw [after_append]
    exact (after_holds certs _ later).2 pin hpin
  · obtain ⟨spki, hspki, hpin⟩ := pin_of_accepted certs hmode haccepted
    have hlast : ((new mode).after certs (events ++ .handshake endEntity :: later)).pin = some spki := by
      rw [after_append]
      exact (after_holds certs _ later).2 spki hpin
    refine ⟨spki, hspki, hlast, ?_⟩
    rintro configured rfl
    have hconfigured := (after_holds certs (new (.pinned configured)) (events ++ .handshake endEntity :: later)).2
      configured rfl
    exact Option.some.inj (hlast.symm.trans hconfigured)

/-- A certificate is its own fingerprint, if it is long enough. -/
def sampleCertificates : Certificates where
  spkiSha256 cert := if h : cert.length = 32 then .ok ⟨cert.toArray, h⟩ else .error (.tls "certificate parse".toList)
  webPki _ := true

/-- The first connection pins a key, and another one is refused from then on. -/
theorem one_pin_first_use :
    ∃ spki, sampleCertificates.spkiSha256 (List.replicate 32 1) = .ok spki ∧
      ((new .pinOnFirstUse).after sampleCertificates
        [.handshake (List.replicate 32 1), .handshake (List.replicate 32 2)]).pinnedSpki = some spki := by
  obtain ⟨spki, hspki, hpin, -⟩ := (one_pin sampleCertificates .pinOnFirstUse rfl []).2.1
    (List.replicate 32 1) [.handshake (List.replicate 32 2)] (by decide)
  exact ⟨spki, hspki, hpin⟩

end Lox
