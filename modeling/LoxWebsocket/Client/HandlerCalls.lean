import LoxWebsocket.Client.HandshakeParts
import LoxWebsocket.Client.Supervisor

/-!
# The callbacks of a session

The handshake and the reader call the handler through its guard, with what the
Miniserver sends: what such calls keep of the guard (`HandlerGuard.Lent`), the
handshake and the reader keep (`Handshake.all_between`, `Reader.run_between`).

They announce nothing: `onEvent` is called by the supervisor alone
(`Handshake.all_unannounced`, `Reader.run_unannounced`).
-/

namespace Lox

/-- The lifecycle events among callbacks. -/
def lifecycleEvents (calls : List Call) : List ClientEvent :=
  calls.filterMap fun
    | .onEvent event => some event
    | _ => none

@[simp] theorem lifecycleEvents_append (l m : List Call) :
    lifecycleEvents (l ++ m) = lifecycleEvents l ++ lifecycleEvents m := List.filterMap_append

theorem lifecycleEvents_eventCalls {msgType : UInt8} {payload : Bytes} {calls : List Call}
    (h : eventCalls msgType payload = some calls) : lifecycleEvents calls = [] := by
  rw [eventCalls] at h
  split at h
  all_goals first | cases h; simp [lifecycleEvents] | cases h

variable {η : Type} [LoxHandler η]

/-- No lifecycle event has been delivered in between. -/
def Unannounced (h h' : Handled η) : Prop := lifecycleEvents h'.calls = lifecycleEvents h.calls

namespace Handled

theorem calls_call (c : Call) (h : Handled η) : (h.call c).2.calls = h.calls ++ [c] := rfl

theorem unannounced_call {c : Call} (hc : lifecycleEvents [c] = []) (h : Handled η) :
    Unannounced h (h.call c).2 := by
  rw [Unannounced, calls_call, lifecycleEvents_append, hc, List.append_nil]

theorem unannounced_callAll {cs : List Call} (hcs : lifecycleEvents cs = []) (h : Handled η) :
    Unannounced h (callAll cs h).2 := by
  induction cs generalizing h with
  | nil => exact Eq.refl _
  | cons c cs ih =>
    have hsplit : lifecycleEvents [c] ++ lifecycleEvents cs = [] := by
      rw [← lifecycleEvents_append]
      exact hcs
    obtain ⟨hc, hrest⟩ := List.append_eq_nil_iff.mp hsplit
    have hcall := unannounced_call hc h
    rw [callAll]
    split
    · rename_i h₁ heq
      rw [heq] at hcall
      exact (ih hrest h₁).trans hcall
    · rename_i h₁ heq
      rw [heq] at hcall
      exact hcall

theorem unannounced_rawThenEvent (msgType : UInt8) (payload : Bytes) (h : Handled η) :
    Unannounced h (rawThenEvent msgType payload h).2 := by
  have hraw := unannounced_call (c := .onRawPayload msgType payload) rfl h
  rw [rawThenEvent]
  split
  · rename_i h₁ heq
    rw [heq] at hraw
    refine Eq.trans ?_ hraw
    rw [dispatchEvent]
    split
    · exact rfl
    · rename_i calls hcalls
      have hall := unannounced_callAll (lifecycleEvents_eventCalls hcalls)
        { h₁ with dispatched := h₁.dispatched ++ [(msgType, payload)] }
      split
      · rename_i heq'
        rw [heq'] at hall
        exact hall
      · rename_i heq'
        rw [heq'] at hall
        exact hall
  · rename_i h₁ heq
    rw [heq] at hraw
    exact hraw

end Handled

omit [LoxHandler η] in
theorem HandlerGuard.unannounced_guardOrFail {ρ : Type} {f : Handled η → Option ρ × Handled η}
    (hf : ∀ h, Unannounced h (f h).2) (g : HandlerGuard η) :
    Unannounced g.toHandled (g.guardOrFail f).2.toHandled := by
  have h := hf g.toHandled
  unfold HandlerGuard.guardOrFail HandlerGuard.guard
  split_ifs
  · exact rfl
  · rcases heq : f g.toHandled with ⟨_ | _, h'⟩
    · rw [heq] at h
      exact h
    · rw [heq] at h
      exact h

theorem HandlerGuard.calls_lifecycle (g : HandlerGuard η) (event : ClientEvent) :
    (g.lifecycle event).calls = g.calls ++ [.onEvent event] := by
  have hcall : (g.toHandled.call (.onEvent event)).2.calls = g.calls ++ [.onEvent event] := rfl
  unfold HandlerGuard.lifecycle
  rcases heq : g.toHandled.call (.onEvent event) with ⟨_ | _, h⟩
  all_goals
    rw [heq] at hcall
    exact hcall

/-- A lifecycle event is delivered, whatever the handler does with it. -/
theorem HandlerGuard.lifecycleEvents_lifecycle (g : HandlerGuard η) (event : ClientEvent) :
    lifecycleEvents (g.lifecycle event).calls = lifecycleEvents g.calls ++ [event] := by
  rw [calls_lifecycle, lifecycleEvents_append]
  rfl

/-! ## What a session does with the handler -/

/-- `R` is kept by a callback with what the Miniserver sends, and by those of a
message. -/
structure HandlerGuard.Lent (R : HandlerGuard η → HandlerGuard η → Prop) : Prop where
  call : ∀ c : Call, (∀ event, c ≠ .onEvent event) → ∀ g, R g (g.guardOrFail fun h => h.call c).2
  event : ∀ msgType payload g, R g (g.guardOrFail fun h => rawThenEvent msgType payload h).2

variable {σ : Type} {C : Crates} {R : HandlerGuard η → HandlerGuard η → Prop} [IsPreorder (HandlerGuard η) R]

namespace Handshake

omit [LoxHandler η] in
/-- `R` holds between the handlers. -/
def Between (R : HandlerGuard η → HandlerGuard η → Prop) (s s' : HsState η σ) : Prop := R s.handler s'.handler

omit [LoxHandler η] in
instance : IsPreorder (HsState η σ) (Between R) where
  refl s := refl_of R s.handler
  trans _ _ _ h h' := trans_of R h h'

theorem hearing_between (h : HandlerGuard.Lent R) : Hearing (Between R (σ := σ)) where
  congr s s' heq := by
    rw [Between, heq]
    exact refl_of R _
  raw msgType payload s := h.call (.onRawPayload msgType payload) (by simp) s.handler
  event msgType payload s := h.event msgType payload s.handler

theorem all_between [TokenStore σ] (h : HandlerGuard.Lent R) (env : HandshakeEnv C) (sessionB64 : Str) :
    (all env sessionB64 : Hs η σ Unit).Keeps (Between R) := by
  have hhear : Hearing (Between R (σ := σ)) := hearing_between h
  refine (hhear.keyExchange env sessionB64).bind fun _ => (hhear.authenticate env).bind fun _ => ?_
  split
  · exact hhear.enableUpdates env
  · exact Prog.keeps_pure _

end Handshake

namespace Reader

variable (keys : SessionKeys C) (P : Parsers)

omit [LoxHandler η] in
/-- `R` holds between the handlers. -/
def Between (R : HandlerGuard η → HandlerGuard η → Prop) (s s' : ReaderState η) : Prop := R s.handler s'.handler

omit [LoxHandler η] in
instance : IsPreorder (ReaderState η) (Between R) where
  refl s := refl_of R s.handler
  trans _ _ _ h h' := trans_of R h h'

omit [LoxHandler η] in
theorem between_of_eq {s s' : ReaderState η} (h : s'.handler = s.handler) : Between R s s' := by
  rw [Between, h]
  exact refl_of R _

omit [LoxHandler η] in
theorem handler_releaseVisu (payload : Bytes) (s : ReaderState η) : (releaseVisu P payload s).handler = s.handler := by
  unfold releaseVisu
  dsimp only
  split
  · rfl
  · rfl

theorem onTextMessage_between (h : HandlerGuard.Lent R) (payload : Bytes) :
    (onTextMessage keys P payload : Rd η Unit).Keeps (Between R) := by
  intro s
  rcases hr : resolveText keys s.shared.pending payload with ⟨_ | resolved, pending⟩
  · rw [onTextMessage_unsolicited P hr]
    exact h.call (.onJson payload) (by simp) s.handler
  · rw [onTextMessage_resolved P hr]
    dsimp only
    split
    · exact between_of_eq (handler_releaseVisu P _ _)
    · exact between_of_eq rfl

theorem dispatch_between (h : HandlerGuard.Lent R) (msgType : UInt8) (payload : Bytes) :
    (dispatch keys P msgType payload : Rd η Unit).Keeps (Between R) := by
  refine Prog.Keeps.bind (fun s => h.event msgType payload s.handler) fun dispatched => ?_
  split
  · exact Prog.keeps_pure _
  split
  · exact onTextMessage_between keys P h payload
  · exact Prog.Keeps.bind (fun _ => between_of_eq rfl) fun _ => fun s => h.call .onKeepalive (by simp) s.handler
  · exact Prog.keeps_pure _

theorem onDataFrame_between (h : HandlerGuard.Lent R) (frame : Bytes) :
    (onDataFrame keys P frame : Rd η (Option ReadOutcome)).Keeps (Between R) := by
  have hexpect (expect : FrameExpect) : (setExpect expect : Rd η Unit).Keeps (Between R) := fun _ => between_of_eq rfl
  refine Prog.Keeps.bind (fun _ => between_of_eq rfl) fun s => ?_
  split
  · unfold onHeader
    split
    · split_ifs
      · exact (hexpect _).bind fun _ => Prog.keeps_pure _
      · exact Prog.keeps_pure _
      · exact (dispatch_between keys P h _ _).bind fun _ => (hexpect _).bind fun _ => Prog.keeps_pure _
      · exact (hexpect _).bind fun _ => Prog.keeps_pure _
    · exact Prog.keeps_pure _
    · exact Prog.keeps_pure _
  · exact (dispatch_between keys P h _ _).bind fun _ => (hexpect _).bind fun _ => Prog.keeps_pure _

theorem run_between (h : HandlerGuard.Lent R) (events : List (ReaderShared × ReadEvent)) (s : ReaderState η) :
    Between R s (run keys P events s).2 := by
  induction events generalizing s with
  | nil => exact between_of_eq rfl
  | cons x events ih =>
    obtain ⟨shared, event⟩ := x
    cases event with
    | elapsed => exact between_of_eq rfl
    | failed m => exact between_of_eq rfl
    | frame op payload =>
      have hframe := onDataFrame_between keys P h payload { s with shared }
      have hskipped : Between R s (run keys P events { s with shared }).2 := ih { s with shared }
      rcases hd : onDataFrame keys P payload { s with shared } with ⟨_ | _ | _, s₁⟩
      all_goals
        rw [hd] at hframe
        cases op
        all_goals simp only [run, hd]
        all_goals first
          | exact trans_of (Between R) hframe (ih _)
          | exact hskipped
          | exact hframe
          | exact between_of_eq rfl

end Reader

/-! ## Nothing is announced in a session -/

theorem HandlerGuard.lent_unannounced : Lent fun g g' : HandlerGuard η => Unannounced g.toHandled g'.toHandled where
  call c hc g := by
    refine g.unannounced_guardOrFail (Handled.unannounced_call ?_)
    cases c with
    | onEvent event => exact absurd rfl (hc event)
    | _ => rfl
  event msgType payload g := g.unannounced_guardOrFail (Handled.unannounced_rawThenEvent msgType payload)

omit [LoxHandler η] in
instance : IsPreorder (HandlerGuard η) fun g g' => Unannounced g.toHandled g'.toHandled where
  refl _ := rfl
  trans _ _ _ h h' := h'.trans h

namespace Handshake

/-- Nothing has been announced in between. -/
def Silent (s s' : HsState η σ) : Prop := Unannounced s.handler.toHandled s'.handler.toHandled

/-- The handshake announces nothing. -/
theorem all_unannounced [TokenStore σ] (env : HandshakeEnv C) (sessionB64 : Str) :
    (all env sessionB64 : Hs η σ Unit).Keeps Silent := all_between HandlerGuard.lent_unannounced env sessionB64

end Handshake

namespace Reader

def Silent (s s' : ReaderState η) : Prop := Unannounced s.handler.toHandled s'.handler.toHandled

/-- The reader announces nothing. -/
theorem run_unannounced (keys : SessionKeys C) (P : Parsers) (events : List (ReaderShared × ReadEvent))
    (s : ReaderState η) : Silent s (run keys P events s).2 := run_between keys P HandlerGuard.lent_unannounced events s

end Reader

end Lox
