import Opbox.Foundation.Machine
import Opbox.Engine.ReaderControl

/-!
# Log reader, engine and semantic lane

The product of the three tasks a log record passes through on its way into the database.  The
reader delivers the records of the log in order from where its session started; its events and
requests are queues.  The semantic actor serves its queue one request at a time, in order, at any
speed, and its answers reach the engine in any order.
-/

namespace Opbox

/-- `LogReaderActor`. -/
inductive LogReader where
  /-- In `run_connected`, before the session is open. -/
  | connecting (startAt : SequenceNumber)
  /-- In the loop of `run_connected`; the next record it delivers. -/
  | connected (next : SequenceNumber)
  /-- In `wait_for_reconnect`. -/
  | waiting
  deriving DecidableEq, Repr

/-- The state of the product. -/
structure ReaderLoop (M : Type) (size : M → Nat) where
  /-- The engine's fields. -/
  control : ReaderControl M size
  /-- Why the engine loop has returned, if it has. -/
  stopped : Option ReaderStop
  /-- `daemon_state.stable_cursor`: the records below it have been applied. -/
  stableCursor : SequenceNumber
  /-- History: the records applied to the database, oldest first. -/
  applied : List (SharedMessageEnvelope M)
  /-- The semantic actor's queue. -/
  lane : List (ReaderRequest M)
  /-- `ApplySharedMessageBatch` responses the engine has not taken. -/
  applyReplies : List (Except SemanticTransactionError Unit)
  /-- `ReadStableCursor` responses the engine has not taken. -/
  cursorReplies : List (Except SemanticTransactionError SequenceNumber)
  /-- The log reader. -/
  reader : LogReader
  /-- Requests the log reader has not taken. -/
  readerRequests : List LogReaderRequest
  /-- Reader events the engine has not taken. -/
  readerEvents : List (LogReaderEvent M)
  /-- The shared log. -/
  log : List (LogRecord M)

/-- One turn of one of the tasks. -/
inductive ReaderAction (M : Type) where
  /-- The engine takes a reader event. -/
  | takeReaderEvent (now : Nat)
  /-- The engine takes an `ApplySharedMessageBatch` response. -/
  | takeApplyReply (now : Nat)
  /-- The engine takes a `ReadStableCursor` response. -/
  | takeCursorReply
  /-- The `SharedMessageBufferDrain` timer fires. -/
  | fireDrain
  /-- The `ReaderReconnect` timer fires. -/
  | fireReaderReconnect
  /-- The semantic actor serves the first request of its queue. -/
  | serve
  /-- The transaction of the first request fails for a reason of its own. -/
  | serveFails (e : SemanticTransactionError)
  /-- The reader opens its session. -/
  | connect
  /-- The reader delivers a record. -/
  | deliver
  /-- The reader's session, or the attempt to open one, fails. -/
  | disconnect
  /-- The reader takes a request. -/
  | receive
  /-- Some daemon appends a record to the log. -/
  | append (record : LogRecord M)
  /-- The daemon stops at any point and starts again. -/
  | restart

namespace ReaderLoop

variable {M : Type} {size : M → Nat}

/-- A daemon that has just been started on a database: `Engine::new`, and a reader that starts at
the stable cursor. -/
def start (stableCursor : SequenceNumber) (applied : List (SharedMessageEnvelope M))
    (log : List (LogRecord M)) : ReaderLoop M size :=
  { control := .new
    stopped := none
    stableCursor := stableCursor
    applied := applied
    lane := []
    applyReplies := []
    cursorReplies := []
    reader := .connecting stableCursor
    readerRequests := []
    readerEvents := []
    log := log }

/-- The cursor check of `apply_shared_message_batch_tx`. -/
def unexpectedBatch (stableCursor : SequenceNumber) (batch : SharedMessageBatch M) :
    SemanticTransactionError :=
  .invariantViolation
    s!"unexpected batch; stable_cursor=..{stableCursor}, batch.sequence_range={batch.first}..={batch.next - 1}"

/-- The semantic actor serves one request. -/
def serveRequest (s : ReaderLoop M size) : ReaderRequest M → ReaderLoop M size
  | .applySharedMessageBatch batch =>
    if s.stableCursor ≠ batch.first then
      { s with applyReplies := s.applyReplies ++ [.error (unexpectedBatch s.stableCursor batch)] }
    else
      { s with
        stableCursor := batch.next
        applied := s.applied ++ batch.messages
        applyReplies := s.applyReplies ++ [.ok ()] }
  | .readStableCursor => { s with cursorReplies := s.cursorReplies ++ [.ok s.stableCursor] }

/-- The transaction of a request fails: nothing changes and the answer is the error. -/
def failRequest (s : ReaderLoop M size) (e : SemanticTransactionError) :
    ReaderRequest M → ReaderLoop M size
  | .applySharedMessageBatch _ => { s with applyReplies := s.applyReplies ++ [.error e] }
  | .readStableCursor => { s with cursorReplies := s.cursorReplies ++ [.error e] }

/-- One turn. -/
def step (s : ReaderLoop M size) : ReaderAction M → Option (ReaderLoop M size)
  | .takeReaderEvent now =>
    match s.stopped, s.readerEvents with
    | none, event :: events =>
      if s.control.sharedMessageBuffer.hasCapacity then
        some { s with readerEvents := events, control := s.control.onReaderEvent now event }
      else none
    | _, _ => none
  | .takeApplyReply now =>
    match s.stopped, s.applyReplies with
    | none, result :: replies =>
      match s.control.onApplySharedMessageBatch now result with
      | .ok control => some { s with applyReplies := replies, control := control }
      | .error why => some { s with applyReplies := replies, stopped := some why }
    | _, _ => none
  | .takeCursorReply =>
    match s.stopped, s.cursorReplies with
    | none, result :: replies =>
      match s.control.onReadStableCursor result with
      | .ok (control, requests) =>
        some { s with
          cursorReplies := replies
          control := control
          readerRequests := s.readerRequests ++ requests }
      | .error why => some { s with cursorReplies := replies, stopped := some why }
    | _, _ => none
  | .fireDrain =>
    match s.stopped, s.control.drainArmed with
    | none, true =>
      match s.control.onDrain with
      | .ok (control, requests) => some { s with control := control, lane := s.lane ++ requests }
      | .error why => some { s with stopped := some why }
    | _, _ => none
  | .fireReaderReconnect =>
    match s.stopped, s.control.readerReconnectArmed with
    | none, true =>
      some { s with
        control := s.control.onReaderReconnect.1
        lane := s.lane ++ s.control.onReaderReconnect.2 }
    | _, _ => none
  | .serve =>
    match s.lane with
    | request :: requests => some (({ s with lane := requests }).serveRequest request)
    | [] => none
  | .serveFails e =>
    match s.lane with
    | request :: requests => some (({ s with lane := requests }).failRequest e request)
    | [] => none
  | .connect =>
    match s.reader with
    | .connecting startAt =>
      some { s with
        reader := .connected startAt
        readerEvents := s.readerEvents ++ [.connected] }
    | _ => none
  | .deliver =>
    match s.reader with
    | .connected next =>
      match s.log[next]? with
      | some record =>
        some { s with
          reader := .connected (next + 1)
          readerEvents := s.readerEvents ++ [.read (record.envelope next)] }
      | none => none
    | _ => none
  | .disconnect =>
    match s.reader with
    | .waiting => none
    | _ => some { s with reader := .waiting, readerEvents := s.readerEvents ++ [.disconnected] }
  | .receive =>
    match s.reader, s.readerRequests with
    | .waiting, .reconnect startAt :: requests =>
      some { s with reader := .connecting startAt, readerRequests := requests }
    | .connected _, .reconnect _ :: requests => some { s with readerRequests := requests }
    | _, _ => none
  | .append record => some { s with log := s.log ++ [record] }
  | .restart => some (start s.stableCursor s.applied s.log)

/-- The product as a machine: it starts on a database that has applied a prefix of the log. -/
def machine (size : M → Nat) : Machine (ReaderLoop M size) (ReaderAction M) where
  initial s := ∃ (log : List (LogRecord M)) (cursor : SequenceNumber), cursor ≤ log.length ∧
    s = start cursor (envelopesFrom 0 (log.take cursor)) log
  step := step

/-- Everything one turn can do. -/
inductive Turn (s : ReaderLoop M size) : ReaderAction M → ReaderLoop M size → Prop
  /-- The engine handled a reader event. -/
  | readerEvent {now : Nat} {event : LogReaderEvent M} {events : List (LogReaderEvent M)}
      (hrun : s.stopped = none) (he : s.readerEvents = event :: events) :
      Turn s (.takeReaderEvent now)
        { s with readerEvents := events, control := s.control.onReaderEvent now event }
  /-- The engine handled the response of a batch. -/
  | applyReply {now : Nat} {result : Except SemanticTransactionError Unit}
      {replies : List (Except SemanticTransactionError Unit)} {control : ReaderControl M size}
      (hrun : s.stopped = none) (he : s.applyReplies = result :: replies)
      (hr : s.control.onApplySharedMessageBatch now result = .ok control) :
      Turn s (.takeApplyReply now) { s with applyReplies := replies, control := control }
  /-- The response of a batch stopped the engine. -/
  | applyStops {now : Nat} {result : Except SemanticTransactionError Unit}
      {replies : List (Except SemanticTransactionError Unit)} {why : ReaderStop}
      (hrun : s.stopped = none) (he : s.applyReplies = result :: replies)
      (hr : s.control.onApplySharedMessageBatch now result = .error why) :
      Turn s (.takeApplyReply now) { s with applyReplies := replies, stopped := some why }
  /-- The engine handled the response of a cursor read. -/
  | cursorReply {result : Except SemanticTransactionError SequenceNumber}
      {replies : List (Except SemanticTransactionError SequenceNumber)}
      {control : ReaderControl M size} {requests : List LogReaderRequest}
      (hrun : s.stopped = none) (he : s.cursorReplies = result :: replies)
      (hr : s.control.onReadStableCursor result = .ok (control, requests)) :
      Turn s .takeCursorReply
        { s with
          cursorReplies := replies
          control := control
          readerRequests := s.readerRequests ++ requests }
  /-- The response of a cursor read stopped the engine. -/
  | cursorStops {result : Except SemanticTransactionError SequenceNumber}
      {replies : List (Except SemanticTransactionError SequenceNumber)} {why : ReaderStop}
      (hrun : s.stopped = none) (he : s.cursorReplies = result :: replies)
      (hr : s.control.onReadStableCursor result = .error why) :
      Turn s .takeCursorReply { s with cursorReplies := replies, stopped := some why }
  /-- The drain timer fired. -/
  | drain {control : ReaderControl M size} {requests : List (ReaderRequest M)}
      (hrun : s.stopped = none) (harmed : s.control.drainArmed = true)
      (hr : s.control.onDrain = .ok (control, requests)) :
      Turn s .fireDrain { s with control := control, lane := s.lane ++ requests }
  /-- The drain timer stopped the engine. -/
  | drainStops {why : ReaderStop} (hrun : s.stopped = none) (harmed : s.control.drainArmed = true)
      (hr : s.control.onDrain = .error why) :
      Turn s .fireDrain { s with stopped := some why }
  /-- The reconnect timer fired. -/
  | readerReconnect (hrun : s.stopped = none) (harmed : s.control.readerReconnectArmed = true) :
      Turn s .fireReaderReconnect
        { s with
          control := s.control.onReaderReconnect.1
          lane := s.lane ++ s.control.onReaderReconnect.2 }
  /-- The semantic actor served a request. -/
  | serve {request : ReaderRequest M} {requests : List (ReaderRequest M)}
      (hlane : s.lane = request :: requests) :
      Turn s .serve (({ s with lane := requests }).serveRequest request)
  /-- The transaction of a request failed. -/
  | serveFails {e : SemanticTransactionError} {request : ReaderRequest M}
      {requests : List (ReaderRequest M)} (hlane : s.lane = request :: requests) :
      Turn s (.serveFails e) (({ s with lane := requests }).failRequest e request)
  /-- The reader connected. -/
  | connect {startAt : SequenceNumber} (hr : s.reader = .connecting startAt) :
      Turn s .connect
        { s with reader := .connected startAt, readerEvents := s.readerEvents ++ [.connected] }
  /-- The reader delivered a record. -/
  | deliver {next : SequenceNumber} {record : LogRecord M} (hr : s.reader = .connected next)
      (hlog : s.log[next]? = some record) :
      Turn s .deliver
        { s with
          reader := .connected (next + 1)
          readerEvents := s.readerEvents ++ [.read (record.envelope next)] }
  /-- The reader failed to connect or lost its session. -/
  | disconnect (hr : s.reader ≠ .waiting) :
      Turn s .disconnect
        { s with reader := .waiting, readerEvents := s.readerEvents ++ [.disconnected] }
  /-- The waiting reader took a reconnect request. -/
  | reconnect {startAt : SequenceNumber} {requests : List LogReaderRequest}
      (hr : s.reader = .waiting) (hreq : s.readerRequests = .reconnect startAt :: requests) :
      Turn s .receive { s with reader := .connecting startAt, readerRequests := requests }
  /-- The connected reader ignored a reconnect request. -/
  | ignore {next startAt : SequenceNumber} {requests : List LogReaderRequest}
      (hr : s.reader = .connected next)
      (hreq : s.readerRequests = .reconnect startAt :: requests) :
      Turn s .receive { s with readerRequests := requests }
  /-- The log grew. -/
  | append {record : LogRecord M} : Turn s (.append record) { s with log := s.log ++ [record] }
  /-- The daemon was restarted. -/
  | restart : Turn s .restart (start s.stableCursor s.applied s.log)

/-- A turn of the machine does one of the things listed by `Turn`. -/
theorem turn_of_step {s s' : ReaderLoop M size} {a : ReaderAction M} (h : step s a = some s') :
    Turn s a s' := by
  cases a <;> simp only [step] at h
  case takeReaderEvent now =>
    split at h
    · split_ifs at h
      cases h
      exact .readerEvent ‹_› ‹_›
    · cases h
  case takeApplyReply now =>
    split at h
    · split at h <;> cases h
      · exact .applyReply ‹_› ‹_› ‹_›
      · exact .applyStops ‹_› ‹_› ‹_›
    · cases h
  case takeCursorReply =>
    split at h
    · split at h <;> cases h
      · exact .cursorReply ‹_› ‹_› ‹_›
      · exact .cursorStops ‹_› ‹_› ‹_›
    · cases h
  case fireDrain =>
    split at h
    · split at h <;> cases h
      · exact .drain ‹_› ‹_› ‹_›
      · exact .drainStops ‹_› ‹_› ‹_›
    · cases h
  case fireReaderReconnect =>
    split at h <;> cases h
    exact .readerReconnect ‹_› ‹_›
  case serve =>
    split at h <;> cases h
    exact .serve ‹_›
  case serveFails e =>
    split at h <;> cases h
    exact .serveFails ‹_›
  case connect =>
    split at h <;> cases h
    exact .connect ‹_›
  case deliver =>
    split at h
    · split at h <;> cases h
      exact .deliver ‹_› ‹_›
    · cases h
  case disconnect =>
    split at h <;> cases h
    exact .disconnect ‹_›
  case receive =>
    split at h <;> cases h
    · exact .reconnect ‹_› ‹_›
    · exact .ignore ‹_› ‹_›
  case append record =>
    cases h
    exact .append
  case restart =>
    cases h
    exact .restart

end ReaderLoop

end Opbox
