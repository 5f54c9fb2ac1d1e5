import Opbox.Log.Writer

/-!
# The engine's control of the outbox

The engine keeps at most one outbox reservation in flight and releases every reservation when the
log writer disconnects.  This is the part of the engine loop that reacts to writer events, to the
responses of `read_outbox` and `release_outbox`, to `OutboxReady` and to the writer's reconnect
timer (`engine/actor.rs`).
-/

namespace Opbox

/-- `LinkRuntimeState`. -/
inductive LinkRuntimeState where
  /-- The actor reported a connection. -/
  | online
  /-- A connection is being opened. -/
  | reconnecting
  /-- The connection was lost; the retry timer decides. -/
  | offline
  deriving DecidableEq, Repr

/-- `READ_OUTBOX_BATCH_SIZE`. -/
def readOutboxBatchSize : Nat := 1024

/-- The requests on the outbox the engine puts on the semantic actor's queue. -/
inductive OutboxRequest where
  /-- `SemanticRequest::ReadOutbox`. -/
  | readOutbox (numMessages : Nat)
  /-- `SemanticRequest::ReleaseOutbox`. -/
  | releaseOutbox
  /-- `SemanticRequest::TrimOutbox`. -/
  | trimOutbox (through : OutboxId)
  deriving DecidableEq, Repr

/-- The engine fields that drive the outbox. -/
structure OutboxControl where
  /-- `connectivity.writer.state`. -/
  writer : LinkRuntimeState
  /-- The `WriterReconnect` timer is armed. -/
  writerReconnectArmed : Bool
  /-- A `read_outbox` request is unanswered. -/
  outboxReadInFlight : Bool
  /-- Another `read_outbox` is wanted. -/
  outboxReadRequested : Bool
  /-- A `release_outbox` request is unanswered. -/
  outboxReleaseInFlight : Bool
  /-- Another `release_outbox` is wanted. -/
  outboxReleaseRequested : Bool
  deriving DecidableEq, Repr

/-- What a handler leaves: the new fields, the requests for the semantic actor and the requests
for the log writer, both in sending order. -/
structure OutboxEffect (M : Type) where
  /-- The new fields. -/
  control : OutboxControl
  /-- Requests for the semantic actor. -/
  semantic : List OutboxRequest := []
  /-- Requests for the log writer. -/
  writer : List (LogWriterRequest M) := []

namespace OutboxControl

variable {M : Type}

/-- The fields of a new engine. -/
def new : OutboxControl := ⟨.reconnecting, false, false, false, false, false⟩

/-- The test of `maybe_start_outbox_read`. -/
def canStartOutboxRead (e : OutboxControl) : Bool :=
  e.outboxReadRequested && !e.outboxReadInFlight && !e.outboxReleaseInFlight &&
    !e.outboxReleaseRequested && decide (e.writer = .online)

/-- `maybe_start_outbox_read`. -/
def maybeStartOutboxRead (e : OutboxControl) : OutboxEffect M :=
  if e.canStartOutboxRead then
    { control := { e with outboxReadRequested := false, outboxReadInFlight := true }
      semantic := [.readOutbox readOutboxBatchSize] }
  else { control := e }

/-- `request_outbox_read`. -/
def requestOutboxRead (e : OutboxControl) : OutboxEffect M :=
  maybeStartOutboxRead { e with outboxReadRequested := true }

/-- `maybe_start_outbox_release`. -/
def maybeStartOutboxRelease (e : OutboxControl) : OutboxEffect M :=
  if e.outboxReleaseRequested && !e.outboxReleaseInFlight then
    { control := { e with outboxReleaseRequested := false, outboxReleaseInFlight := true }
      semantic := [.releaseOutbox] }
  else { control := e }

/-- `request_outbox_release`. -/
def requestOutboxRelease (e : OutboxControl) : OutboxEffect M :=
  maybeStartOutboxRelease { e with outboxReleaseRequested := true }

/-- Run a second handler on what the first one left. -/
def andThen (r : OutboxEffect M) (f : OutboxControl → OutboxEffect M) : OutboxEffect M :=
  let r' := f r.control
  { control := r'.control
    semantic := r.semantic ++ r'.semantic
    writer := r.writer ++ r'.writer }

/-- `mark_link_disconnected` for the writer: offline, the retry timer armed, all reservations to be
released. -/
def markWriterDisconnected (e : OutboxControl) : OutboxEffect M :=
  requestOutboxRelease
    { e with writer := .offline, writerReconnectArmed := true, outboxReadRequested := true }

/-- The writer event branch of `Engine::run`. -/
def onWriterEvent (e : OutboxControl) : LogWriterResponse → OutboxEffect M
  | .connected => maybeStartOutboxRead { e with writer := .online }
  | .disconnected => markWriterDisconnected e
  | .durable through => { control := e, semantic := [.trimOutbox through] }

/-- The `WriterReconnect` branch of the timer. -/
def onWriterReconnect (e : OutboxControl) : OutboxEffect M :=
  if e.writer = .offline then
    { control := { e with writer := .reconnecting, writerReconnectArmed := false }
      writer := [.reconnect] }
  else { control := { e with writerReconnectArmed := false } }

/-- The `OutboxReady` event. -/
def onOutboxReady (e : OutboxControl) (numMessages : Nat) : OutboxEffect M :=
  if 0 < numMessages then requestOutboxRead e else { control := e }

/-- The `ReadOutbox` response: an online writer gets the messages, otherwise the reservation is
given back; `none` when the engine stops. -/
def onReadOutbox (e : OutboxControl)
    (result : Except SemanticTransactionError (List (OutboxId × M))) : Option (OutboxEffect M) :=
  if e.outboxReadInFlight then
    match result with
    | .error _ => none
    | .ok messages =>
      let e := { e with outboxReadInFlight := false }
      let sent : OutboxEffect M :=
        if e.writer = .online then
          { control := e, writer := messages.map appendRequest }
        else if messages ≠ [] then requestOutboxRelease e
        else { control := e }
      let asked : OutboxEffect M :=
        if messages ≠ [] then
          { sent with control := { sent.control with outboxReadRequested := true } }
        else sent
      some (andThen asked maybeStartOutboxRead)
  else none

/-- The `ReleaseOutbox` response; `none` when the engine stops. -/
def onReleaseOutbox (e : OutboxControl) : Option (OutboxEffect M) :=
  if e.outboxReleaseInFlight then
    some (andThen (maybeStartOutboxRelease { e with outboxReleaseInFlight := false })
      maybeStartOutboxRead)
  else none

/-! ## What the handlers leave of the link -/

section Link

variable (e : OutboxControl)

@[simp] theorem maybeStartOutboxRead_writer :
    (e.maybeStartOutboxRead : OutboxEffect M).writer = [] := by
  unfold maybeStartOutboxRead
  split_ifs <;> rfl

@[simp] theorem maybeStartOutboxRead_control_writer :
    (e.maybeStartOutboxRead : OutboxEffect M).control.writer = e.writer := by
  unfold maybeStartOutboxRead
  split_ifs <;> rfl

@[simp] theorem maybeStartOutboxRead_control_armed :
    (e.maybeStartOutboxRead : OutboxEffect M).control.writerReconnectArmed =
      e.writerReconnectArmed := by
  unfold maybeStartOutboxRead
  split_ifs <;> rfl

@[simp] theorem maybeStartOutboxRelease_writer :
    (e.maybeStartOutboxRelease : OutboxEffect M).writer = [] := by
  unfold maybeStartOutboxRelease
  split_ifs <;> rfl

@[simp] theorem maybeStartOutboxRelease_control_writer :
    (e.maybeStartOutboxRelease : OutboxEffect M).control.writer = e.writer := by
  unfold maybeStartOutboxRelease
  split_ifs <;> rfl

@[simp] theorem maybeStartOutboxRelease_control_armed :
    (e.maybeStartOutboxRelease : OutboxEffect M).control.writerReconnectArmed =
      e.writerReconnectArmed := by
  unfold maybeStartOutboxRelease
  split_ifs <;> rfl

@[simp] theorem maybeStartOutboxRelease_control_readInFlight :
    (e.maybeStartOutboxRelease : OutboxEffect M).control.outboxReadInFlight =
      e.outboxReadInFlight := by
  unfold maybeStartOutboxRelease
  split_ifs <;> rfl

/-- What the engine's outbox handlers leave of the link when they only talk to the semantic
actor. -/
structure KeepsLink (r : OutboxEffect M) : Prop where
  /-- Nothing is sent to the writer. -/
  writer : r.writer = []
  /-- The link state stays. -/
  link : r.control.writer = e.writer
  /-- The retry timer stays. -/
  armed : r.control.writerReconnectArmed = e.writerReconnectArmed

theorem onOutboxReady_keepsLink (n : Nat) : e.KeepsLink (e.onOutboxReady n : OutboxEffect M) := by
  unfold onOutboxReady requestOutboxRead
  split_ifs <;> constructor <;> simp

theorem onReleaseOutbox_keepsLink {r : OutboxEffect M} (h : e.onReleaseOutbox = some r) :
    e.KeepsLink r := by
  unfold onReleaseOutbox at h
  split_ifs at h
  cases h
  constructor <;> simp [andThen]

/-- The three outcomes of a `ReadOutbox` response. -/
theorem onReadOutbox_eq {messages : List (OutboxId × M)} {r : OutboxEffect M}
    (h : e.onReadOutbox (.ok messages) = some r) :
    e.outboxReadInFlight = true ∧
      ((e.writer = .online ∧ r = andThen
          { control := { e with
              outboxReadInFlight := false
              outboxReadRequested := e.outboxReadRequested || decide (messages ≠ []) }
            writer := messages.map appendRequest } maybeStartOutboxRead) ∨
        (e.writer ≠ .online ∧ messages ≠ [] ∧ r = andThen
          { (requestOutboxRelease { e with outboxReadInFlight := false } : OutboxEffect M) with
            control := { (requestOutboxRelease
                { e with outboxReadInFlight := false } : OutboxEffect M).control with
              outboxReadRequested := true } } maybeStartOutboxRead) ∨
        (e.writer ≠ .online ∧ messages = [] ∧ r = andThen
          { control := { e with outboxReadInFlight := false } } maybeStartOutboxRead)) := by
  unfold onReadOutbox at h
  split_ifs at h with hin
  refine ⟨hin, ?_⟩
  by_cases hon : e.writer = .online
  · refine .inl ⟨hon, ?_⟩
    cases messages <;> simpa [hon] using h.symm
  · cases messages with
    | nil => exact .inr (.inr ⟨hon, rfl, by simpa [hon] using h.symm⟩)
    | cons m ms => exact .inr (.inl ⟨hon, by simp, by simpa [hon] using h.symm⟩)

theorem onReadOutbox_link {messages : List (OutboxId × M)} {r : OutboxEffect M}
    (h : e.onReadOutbox (.ok messages) = some r) :
    r.writer = (if e.writer = .online then messages.map appendRequest else []) ∧
      r.control.writer = e.writer ∧ r.control.writerReconnectArmed = e.writerReconnectArmed := by
  obtain ⟨-, ⟨hon, rfl⟩ | ⟨hon, -, rfl⟩ | ⟨hon, -, rfl⟩⟩ := onReadOutbox_eq e h <;>
    simp [andThen, requestOutboxRelease, hon]

end Link

end OutboxControl

end Opbox
