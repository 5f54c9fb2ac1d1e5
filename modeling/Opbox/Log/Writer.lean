import Opbox.Semantic.Outbox

/-!
# The log writer actor

`LogWriterActor` owns the producer session on the shared log.  While connected it takes append
requests in order, one big upload at a time, and reports acknowledgements in order; a lost
connection drops everything it had accepted, and until the next `Reconnect` request every append
it receives is discarded (`log/writer.rs`).
-/

namespace Opbox

/-- `LogWriterRequest`, without the status probe the engine never sends. -/
inductive LogWriterRequest (M : Type) where
  /-- Open a new connection. -/
  | reconnect
  /-- Append one outbox row to the log. -/
  | append (outboxId : OutboxId) (sharedMessage : M)
  deriving DecidableEq, Repr

/-- The append request of a record. -/
def appendRequest {M : Type} (e : OutboxId × M) : LogWriterRequest M := .append e.1 e.2

/-- `LogWriterResponse`. -/
inductive LogWriterResponse where
  /-- The producer session is open. -/
  | connected
  /-- The connection, or the attempt to open one, failed. -/
  | disconnected
  /-- Everything appended up to `through` is durable. -/
  | durable (through : OutboxId)
  deriving DecidableEq, Repr

variable {M : Type}

/-- The local state of `run_connected`. -/
structure WriterConnection (M : Type) where
  /-- The id the next append must carry, once there was one. -/
  nextExpectedOutboxId : Option OutboxId
  /-- The message whose parts are being uploaded. -/
  bigUpload : Option (OutboxId × M)
  /-- Submitted records that are not acknowledged yet, oldest first. -/
  pendingAppends : List (OutboxId × M)
  deriving DecidableEq, Repr

/-- A connection that has accepted nothing. -/
def WriterConnection.fresh : WriterConnection M := ⟨none, none, []⟩

/-- `run_connected` on one request: a message that fits a record is submitted, a larger one starts
an upload; `none` when the contiguity assertion or the id overflow check fails. -/
def WriterConnection.receive (inlined : M → Bool) (c : WriterConnection M) :
    LogWriterRequest M → Option (WriterConnection M)
  | .reconnect => some c
  | .append outboxId sharedMessage =>
    if c.nextExpectedOutboxId.all (· = outboxId) then
      outboxId.checkedNext.map fun next =>
        if inlined sharedMessage then
          { c with
            nextExpectedOutboxId := some next
            pendingAppends := c.pendingAppends ++ [(outboxId, sharedMessage)] }
        else
          { c with
            nextExpectedOutboxId := some next
            bigUpload := some (outboxId, sharedMessage) }
    else none

/-- What the writer task is doing. -/
inductive LogWriter (M : Type) where
  /-- In `run_connected`, before the session is open. -/
  | connecting
  /-- In the loop of `run_connected`. -/
  | connected (c : WriterConnection M)
  /-- In `wait_for_reconnect`. -/
  | waiting
  /-- An assertion failed. -/
  | panicked
  deriving DecidableEq, Repr

/-- The records the connection has accepted and the log has not acknowledged. -/
def WriterConnection.accepted (c : WriterConnection M) : List (OutboxId × M) :=
  c.pendingAppends ++ c.bigUpload.toList

/-- An accepted append is queued behind what was accepted before. -/
theorem WriterConnection.receive_append {inlined : M → Bool} {c c' : WriterConnection M}
    {outboxId : OutboxId} {sharedMessage : M} (hbig : c.bigUpload = none)
    (h : c.receive inlined (.append outboxId sharedMessage) = some c') :
    c'.accepted = c.accepted ++ [(outboxId, sharedMessage)] := by
  simp only [receive] at h
  split at h
  · obtain ⟨next, -, rfl⟩ := Option.map_eq_some_iff.mp h
    cases hin : inlined sharedMessage <;> simp [accepted, hbig]
  · cases h

end Opbox
