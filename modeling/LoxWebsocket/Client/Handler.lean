import LoxWebsocket.Proto.Tables

/-!
# The event handler and its guard

A consumer implements `LoxHandler`: what each callback does to its state, and
whether it unwinds. `HandlerGuard` absorbs the unwind and hands no more
messages to a handler that has unwound; lifecycle events still reach it.
`Handled` keeps, beside the handler, the callbacks made and the messages given
to `dispatchEvent`, for statements about them.
-/

namespace Lox

inductive ClientEvent
  | connected
  | reconnected
  | connectionClosed (closeCode : Option UInt16)
  | closed
  deriving DecidableEq

/-- A callback with its arguments. -/
inductive Call
  | onValue (record : ValueRecord)
  | onText (record : TextRecord)
  | onDaytimer (event : DaytimerEvent)
  | onWeather (event : WeatherEvent)
  | onJson (payload : Bytes)
  | onBinary (payload : Bytes)
  | onKeepalive
  | onEvent (event : ClientEvent)
  | onRawPayload (msgType : UInt8) (payload : Bytes)
  deriving DecidableEq

/-- The consumer's callbacks: whether one unwinds, and the state it leaves. -/
class LoxHandler (η : Type) where
  call : η → Call → Bool × η

/-- A handler, with the callbacks made so far and the messages handed to
`dispatchEvent`. -/
structure Handled (η : Type) where
  handler : η
  calls : List Call
  dispatched : List (UInt8 × Bytes)

structure HandlerGuard (η : Type) extends Handled η where
  panicked : Bool

variable {η : Type} [LoxHandler η]

namespace Handled

/-- One callback; `none` if it unwinds. -/
def call (c : Call) (h : Handled η) : Option Unit × Handled η :=
  let (unwound, handler) := LoxHandler.call h.handler c
  (if unwound then none else some (), { h with handler, calls := h.calls ++ [c] })

/-- Callbacks in turn, up to one that unwinds. -/
def callAll : List Call → Handled η → Option Unit × Handled η
  | [], h => (some (), h)
  | c :: cs, h =>
    match h.call c with
    | (some (), h) => callAll cs h
    | (none, h) => (none, h)

end Handled

/-- The callbacks of an event table; `none` for a message that is no event. -/
def eventCalls (msgType : UInt8) (payload : Bytes) : Option (List Call) :=
  match MessageType.fromU8 msgType with
  | some .binaryFile => some [.onBinary payload]
  | some .valueStates => some ((walkValues payload).map .onValue)
  | some .textStates => some ((walkTexts payload).map .onText)
  | some .daytimerStates => some ((walkDaytimers payload).map .onDaytimer)
  | some .weatherStates => some ((walkWeather payload).map .onWeather)
  | _ => none

/-- Hand an event-table payload to the handler; false for message types that
are not events. -/
def dispatchEvent (msgType : UInt8) (payload : Bytes) (h : Handled η) : Option Bool × Handled η :=
  let h := { h with dispatched := h.dispatched ++ [(msgType, payload)] }
  match eventCalls msgType payload with
  | none => (some false, h)
  | some calls =>
    match Handled.callAll calls h with
    | (some (), h) => (some true, h)
    | (none, h) => (none, h)

/-- `onRawPayload`, then the event table: the body of the guard around a
message. -/
def rawThenEvent (msgType : UInt8) (payload : Bytes) (h : Handled η) : Option Bool × Handled η :=
  match h.call (.onRawPayload msgType payload) with
  | (some (), h) => dispatchEvent msgType payload h
  | (none, h) => (none, h)

namespace HandlerGuard

def new (handler : η) : HandlerGuard η := ⟨⟨handler, [], []⟩, false⟩

/-- Call into the handler, absorbing an unwind; nothing after one. -/
def guard {ρ : Type} (g : HandlerGuard η) (f : Handled η → Option ρ × Handled η) :
    Option ρ × HandlerGuard η :=
  if g.panicked then (none, g)
  else
    match f g.toHandled with
    | (some r, h) => (some r, ⟨h, false⟩)
    | (none, h) => (none, ⟨h, true⟩)

def guardOrFail {ρ : Type} (g : HandlerGuard η) (f : Handled η → Option ρ × Handled η) :
    Except Error ρ × HandlerGuard η :=
  match g.guard f with
  | (some r, g) => (.ok r, g)
  | (none, g) => (.error .handlerPanic, g)

/-- Deliver a lifecycle event, even to a handler that already panicked. -/
def lifecycle (g : HandlerGuard η) (event : ClientEvent) : HandlerGuard η :=
  match g.toHandled.call (.onEvent event) with
  | (some (), h) => { g with toHandled := h }
  | (none, h) => ⟨h, true⟩

end HandlerGuard

/-! ## Handlers that do not unwind -/

/-- No callback of the handler unwinds. -/
def LoxHandler.Quiet (η : Type) [LoxHandler η] : Prop := ∀ (h : η) (c : Call), (LoxHandler.call h c).1 = false

/-- The trait's default methods: every callback does nothing. -/
instance : LoxHandler Unit := ⟨fun h _ => (false, h)⟩

theorem LoxHandler.quiet_unit : LoxHandler.Quiet Unit := fun _ _ => rfl

/-- The pairs given to `onRawPayload`. -/
def rawPayloads (calls : List Call) : List (UInt8 × Bytes) :=
  calls.filterMap fun
    | .onRawPayload msgType payload => some (msgType, payload)
    | _ => none

@[simp] theorem rawPayloads_append (l m : List Call) :
    rawPayloads (l ++ m) = rawPayloads l ++ rawPayloads m := List.filterMap_append

theorem rawPayloads_eventCalls {msgType : UInt8} {payload : Bytes} {calls : List Call}
    (h : eventCalls msgType payload = some calls) : rawPayloads calls = [] := by
  rw [eventCalls] at h
  split at h
  all_goals first | cases h; simp [rawPayloads] | cases h

section

variable (hq : LoxHandler.Quiet η)

include hq

theorem Handled.call_quiet (c : Call) (h : Handled η) :
    ∃ handler, h.call c = (some (), ⟨handler, h.calls ++ [c], h.dispatched⟩) := by
  have hc := hq h.handler c
  rw [Handled.call]
  cases hr : LoxHandler.call h.handler c with
  | mk unwound handler =>
    rw [hr] at hc
    cases hc
    exact ⟨handler, rfl⟩

theorem Handled.callAll_quiet (cs : List Call) (h : Handled η) :
    ∃ handler, callAll cs h = (some (), ⟨handler, h.calls ++ cs, h.dispatched⟩) := by
  induction cs generalizing h with
  | nil => exact ⟨h.handler, by rw [callAll, List.append_nil]⟩
  | cons c cs ih =>
    obtain ⟨handler, hc⟩ := h.call_quiet hq c
    obtain ⟨handler', hcs⟩ := ih ⟨handler, h.calls ++ [c], h.dispatched⟩
    refine ⟨handler', ?_⟩
    rw [callAll, hc]
    simp only [hcs, List.append_assoc, List.singleton_append]

/-- A message reaches `onRawPayload` once and `dispatchEvent` once. -/
theorem rawThenEvent_quiet (msgType : UInt8) (payload : Bytes) (h : Handled η) :
    ∃ h', rawThenEvent msgType payload h = (some (eventCalls msgType payload).isSome, h') ∧
      rawPayloads h'.calls = rawPayloads h.calls ++ [(msgType, payload)] ∧
      h'.dispatched = h.dispatched ++ [(msgType, payload)] := by
  obtain ⟨handler, hc⟩ := h.call_quiet hq (.onRawPayload msgType payload)
  rw [rawThenEvent, hc]
  simp only [dispatchEvent]
  cases he : eventCalls msgType payload with
  | none => exact ⟨_, rfl, by simp [rawPayloads], rfl⟩
  | some calls =>
    obtain ⟨handler', hcs⟩ := Handled.callAll_quiet hq calls
      ⟨handler, h.calls ++ [.onRawPayload msgType payload], h.dispatched ++ [(msgType, payload)]⟩
    simp only [hcs]
    refine ⟨_, rfl, ?_, rfl⟩
    simp only [rawPayloads_append, rawPayloads_eventCalls he, List.append_nil]
    rfl

end

end Lox
