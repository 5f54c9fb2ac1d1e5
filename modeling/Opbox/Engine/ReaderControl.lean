import Opbox.Engine.OutboxControl
import Opbox.Engine.SharedMessageBuffer

/-!
# The engine's control of the log reader

The engine buffers what the log reader delivers, hands the buffer to the semantic actor as one
batch at a time when the drain timer fires, and after a disconnect restarts the reader at the
cursor the database holds.  This is the part of the engine loop that reacts to reader events, to
the responses of `apply_shared_message_batch` and `read_stable_cursor`, and to the drain and
reconnect timers (`engine/actor.rs`).
-/

namespace Opbox

/-- `LogReaderRequest`, without the status probe the sync engine never sends. -/
inductive LogReaderRequest where
  /-- Open a new read session. -/
  | reconnect (startAt : SequenceNumber)
  deriving DecidableEq, Repr

/-- `LogReaderEvent`, without the answers to status probes and the end of a bounded read, which a
sync engine's reader never reports. -/
inductive LogReaderEvent (M : Type) where
  /-- The read session is open. -/
  | connected
  /-- The session, or the attempt to open one, failed. -/
  | disconnected
  /-- A record. -/
  | read (envelope : SharedMessageEnvelope M)
  deriving DecidableEq, Repr

/-- The requests on the log position the engine puts on the semantic actor's queue. -/
inductive ReaderRequest (M : Type) where
  /-- `SemanticRequest::ApplySharedMessageBatch`. -/
  | applySharedMessageBatch (batch : SharedMessageBatch M)
  /-- `SemanticRequest::ReadStableCursor`. -/
  | readStableCursor

/-- Why the engine loop has returned. -/
inductive ReaderStop where
  /-- `SharedMessageBatch::try_from` failed. -/
  | batch (message : String)
  /-- The semantic actor answered with an error. -/
  | semantic (e : SemanticTransactionError)
  /-- An assertion failed. -/
  | panic
  deriving DecidableEq, Repr

/-- The engine fields that drive the log reader. -/
structure ReaderControl (M : Type) (size : M → Nat) where
  /-- `connectivity.reader.state`. -/
  reader : LinkRuntimeState
  /-- The `ReaderReconnect` timer is armed. -/
  readerReconnectArmed : Bool
  /-- The `SharedMessageBufferDrain` timer is armed. -/
  drainArmed : Bool
  /-- A `read_stable_cursor` request is unanswered. -/
  readerReconnectCursorInFlight : Bool
  /-- The number of unanswered `apply_shared_message_batch` requests. -/
  inFlightApplySharedMessageBatch : Nat
  /-- Messages waiting to be handed to the semantic actor. -/
  sharedMessageBuffer : SharedMessageBuffer M size

namespace ReaderControl

variable {M : Type} {size : M → Nat}

/-- The fields of a new engine. -/
def new : ReaderControl M size := ⟨.reconnecting, false, false, false, 0, .new⟩

/-- `can_accept_apply_shared_message_batch`. -/
def canAcceptApplySharedMessageBatch (e : ReaderControl M size) : Bool :=
  decide (e.inFlightApplySharedMessageBatch = 0)

/-- `MAX_SHARED_MESSAGE_BUFFER_MS`, in milliseconds. -/
def maxSharedMessageBufferMs : Nat := 10

/-- The reader event branch of `Engine::run`. -/
def onReaderEvent (e : ReaderControl M size) (now : Nat) :
    LogReaderEvent M → ReaderControl M size
  | .connected => { e with reader := .online }
  | .disconnected => { e with reader := .offline, readerReconnectArmed := true }
  | .read envelope =>
    let e := { e with sharedMessageBuffer := e.sharedMessageBuffer.insert now envelope }
    if e.canAcceptApplySharedMessageBatch then { e with drainArmed := true } else e

/-- The `SharedMessageBufferDrain` branch of the timer: hand the buffer over as one batch if none
is in flight. -/
def onDrain (e : ReaderControl M size) :
    Except ReaderStop (ReaderControl M size × List (ReaderRequest M)) :=
  let e := { e with drainArmed := false }
  if e.canAcceptApplySharedMessageBatch then
    let (envelopes, buffer) := e.sharedMessageBuffer.drain
    if envelopes = [] then .error .panic
    else
      match SharedMessageBatch.tryFrom envelopes with
      | .error message => .error (.batch message)
      | .ok batch => .ok ({ e with
          sharedMessageBuffer := buffer
          inFlightApplySharedMessageBatch := e.inFlightApplySharedMessageBatch + 1 },
          [.applySharedMessageBatch batch])
  else .ok (e, [])

/-- The `ReaderReconnect` branch of the timer. -/
def onReaderReconnect (e : ReaderControl M size) :
    ReaderControl M size × List (ReaderRequest M) :=
  if e.reader = .offline ∧ e.readerReconnectCursorInFlight = false then
    ({ e with
      reader := .reconnecting
      readerReconnectArmed := false
      readerReconnectCursorInFlight := true }, [.readStableCursor])
  else ({ e with readerReconnectArmed := false }, [])

/-- The `ApplySharedMessageBatch` response. -/
def onApplySharedMessageBatch (e : ReaderControl M size) (now : Nat)
    (result : Except SemanticTransactionError Unit) : Except ReaderStop (ReaderControl M size) :=
  match e.inFlightApplySharedMessageBatch, result with
  | 0, _ => .error .panic
  | _ + 1, .error err => .error (.semantic err)
  | n + 1, .ok () =>
    let e := { e with inFlightApplySharedMessageBatch := n }
    if (e.sharedMessageBuffer.nextFireAt maxSharedMessageBufferMs now).isSome then
      .ok { e with drainArmed := true }
    else .ok e

/-- The `ReadStableCursor` response. -/
def onReadStableCursor (e : ReaderControl M size)
    (result : Except SemanticTransactionError SequenceNumber) :
    Except ReaderStop (ReaderControl M size × List LogReaderRequest) :=
  if e.readerReconnectCursorInFlight then
    match result with
    | .error err => .error (.semantic err)
    | .ok cursor =>
      let e := { e with readerReconnectCursorInFlight := false }
      if e.reader = .reconnecting then .ok (e, [.reconnect cursor]) else .ok (e, [])
  else .error .panic

end ReaderControl

end Opbox
