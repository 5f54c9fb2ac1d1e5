import Opbox.Foundation.Machine
import Opbox.Engine.OutboxControl

/-!
# Engine, semantic lane and log writer

The product of the three tasks an outbox row passes through.  The semantic actor serves its queue
one request at a time, in order, at any speed, and local mutations run on the same lane; its
answers reach the engine in any order.  The writer's requests and events are queues.  Acknowledged
log records are collected in `durable`.
-/

namespace Opbox

/-- The state of the product. -/
structure OutboxLoop (M : Type) where
  /-- The engine's fields. -/
  control : OutboxControl
  /-- The engine loop has not returned or panicked. -/
  engineRunning : Bool
  /-- The outbox in the database. -/
  outbox : Outbox M
  /-- The semantic actor's queue. -/
  lane : List OutboxRequest
  /-- `ReadOutbox` responses the engine has not taken. -/
  readReplies : List (Except SemanticTransactionError (List (OutboxId × M)))
  /-- `ReleaseOutbox` responses the engine has not taken. -/
  releaseReplies : List Nat
  /-- `OutboxReady` events the engine has not taken. -/
  readyEvents : List Nat
  /-- The log writer. -/
  writer : LogWriter M
  /-- Requests the log writer has not taken. -/
  writerRequests : List (LogWriterRequest M)
  /-- Writer events the engine has not taken. -/
  writerEvents : List LogWriterResponse
  /-- The log records acknowledged as durable. -/
  durable : List (OutboxId × M)
  /-- History: a disconnect was handled since the outstanding `read_outbox` was requested. -/
  staleRead : Bool

/-- One turn of one of the tasks. -/
inductive OutboxAction (M : Type) where
  /-- The engine takes a writer event. -/
  | takeWriterEvent
  /-- The engine takes a `ReadOutbox` response. -/
  | takeReadReply
  /-- The engine takes a `ReleaseOutbox` response. -/
  | takeReleaseReply
  /-- The engine takes an `OutboxReady` event. -/
  | takeReadyEvent
  /-- The `WriterReconnect` timer fires. -/
  | fireWriterReconnect
  /-- The semantic actor serves the first request of its queue. -/
  | serve
  /-- A transaction of the semantic actor queues messages for the log. -/
  | mutate (messages : List M)
  /-- The writer opens its session. -/
  | connect
  /-- The writer fails to open its session. -/
  | connectFail
  /-- The writer takes a request. -/
  | receive
  /-- The writer's big upload is complete. -/
  | uploaded
  /-- The log acknowledges the oldest submitted record. -/
  | acknowledge
  /-- The writer's connection is lost. -/
  | disconnect
  /-- The daemon stops at any point and starts again. -/
  | restart
  deriving DecidableEq, Repr

namespace OutboxLoop

variable {M : Type}

/-- Carry out what an engine handler decided. -/
def emit (s : OutboxLoop M) (r : OutboxEffect M) : OutboxLoop M :=
  { s with
    control := r.control
    lane := s.lane ++ r.semantic
    writerRequests := s.writerRequests ++ r.writer }

/-- The semantic actor serves one request. -/
def serveRequest (s : OutboxLoop M) : OutboxRequest → OutboxLoop M
  | .readOutbox numMessages =>
    match s.outbox.reserveOutboxMessages numMessages with
    | .ok (outbox, messages) =>
      { s with outbox := outbox, readReplies := s.readReplies ++ [.ok messages] }
    | .error e => { s with readReplies := s.readReplies ++ [.error e] }
  | .releaseOutbox =>
    { s with
      outbox := s.outbox.releaseOutboxMessages.1
      releaseReplies := s.releaseReplies ++ [s.outbox.releaseOutboxMessages.2] }
  | .trimOutbox through => { s with outbox := s.outbox.trimOutbox through }

/-- A daemon that has just been started on a database: `clear_startup_scratch_tables` has given all
reservations back, and `Engine::run` has asked for the outbox. -/
def start (outbox : Outbox M) (durable : List (OutboxId × M)) : OutboxLoop M :=
  { control := (OutboxControl.new.requestOutboxRead : OutboxEffect M).control
    engineRunning := true
    outbox := outbox.releaseOutboxMessages.1
    lane := (OutboxControl.new.requestOutboxRead : OutboxEffect M).semantic
    readReplies := []
    releaseReplies := []
    readyEvents := []
    writer := .connecting
    writerRequests := []
    writerEvents := []
    durable := durable
    staleRead := false }

/-- One turn; `inlined` tells which messages fit a log record. -/
def step (inlined : M → Bool) (s : OutboxLoop M) : OutboxAction M → Option (OutboxLoop M)
  | .takeWriterEvent =>
    match s.engineRunning, s.writerEvents with
    | true, event :: events =>
      some { ({ s with writerEvents := events }).emit (s.control.onWriterEvent event) with
        staleRead :=
          if event = .disconnected then s.control.outboxReadInFlight else s.staleRead }
    | _, _ => none
  | .takeReadReply =>
    match s.engineRunning, s.readReplies with
    | true, result :: replies =>
      match s.control.onReadOutbox result with
      | some r => some { ({ s with readReplies := replies }).emit r with staleRead := false }
      | none => some { s with engineRunning := false }
    | _, _ => none
  | .takeReleaseReply =>
    match s.engineRunning, s.releaseReplies with
    | true, _ :: replies =>
      match s.control.onReleaseOutbox with
      | some r => some (({ s with releaseReplies := replies }).emit r)
      | none => some { s with engineRunning := false }
    | _, _ => none
  | .takeReadyEvent =>
    match s.engineRunning, s.readyEvents with
    | true, numMessages :: events =>
      some (({ s with readyEvents := events }).emit (s.control.onOutboxReady numMessages))
    | _, _ => none
  | .fireWriterReconnect =>
    if s.engineRunning && s.control.writerReconnectArmed then
      some (s.emit s.control.onWriterReconnect)
    else none
  | .serve =>
    match s.lane with
    | request :: requests => some (({ s with lane := requests }).serveRequest request)
    | [] => none
  | .mutate messages =>
    match s.outbox.pushOutboxMessages messages with
    | .ok outbox =>
      some { s with outbox := outbox, readyEvents := s.readyEvents ++ [messages.length] }
    | .error _ => none
  | .connect =>
    match s.writer with
    | .connecting =>
      some { s with
        writer := .connected .fresh
        writerEvents := s.writerEvents ++ [.connected] }
    | _ => none
  | .connectFail =>
    match s.writer with
    | .connecting =>
      some { s with writer := .waiting, writerEvents := s.writerEvents ++ [.disconnected] }
    | _ => none
  | .receive =>
    match s.writer, s.writerRequests with
    | .connected c, request :: requests =>
      if c.bigUpload.isSome then none
      else
        match c.receive inlined request with
        | some c => some { s with writer := .connected c, writerRequests := requests }
        | none => some { s with writer := .panicked, writerRequests := requests }
    | .waiting, .reconnect :: requests =>
      some { s with writer := .connecting, writerRequests := requests }
    | .waiting, .append _ _ :: requests => some { s with writerRequests := requests }
    | _, _ => none
  | .uploaded =>
    match s.writer with
    | .connected c =>
      match c.bigUpload with
      | some pointer =>
        some { s with
          writer := .connected { c with
            bigUpload := none
            pendingAppends := c.pendingAppends ++ [pointer] } }
      | none => none
    | _ => none
  | .acknowledge =>
    match s.writer with
    | .connected c =>
      match c.pendingAppends with
      | record :: records =>
        some { s with
          writer := .connected { c with pendingAppends := records }
          writerEvents := s.writerEvents ++ [.durable record.1]
          durable := record :: s.durable }
      | [] => none
    | _ => none
  | .disconnect =>
    match s.writer with
    | .connected _ =>
      some { s with writer := .waiting, writerEvents := s.writerEvents ++ [.disconnected] }
    | _ => none
  | .restart => some (start s.outbox s.durable)

/-- The product as a machine: it starts on the outbox of a new database. -/
def machine (inlined : M → Bool) : Machine (OutboxLoop M) (OutboxAction M) where
  initial s := s = start Outbox.empty []
  step := step inlined

/-- Everything one turn can do. -/
inductive Turn (inlined : M → Bool) (s : OutboxLoop M) : OutboxAction M → OutboxLoop M → Prop
  /-- The engine handled a writer event. -/
  | writerEvent {event : LogWriterResponse} {events : List LogWriterResponse}
      (hrun : s.engineRunning = true) (he : s.writerEvents = event :: events) :
      Turn inlined s .takeWriterEvent
        { ({ s with writerEvents := events }).emit (s.control.onWriterEvent event) with
          staleRead :=
            if event = .disconnected then s.control.outboxReadInFlight else s.staleRead }
  /-- The engine handled a read response. -/
  | readReply {messages : List (OutboxId × M)}
      {replies : List (Except SemanticTransactionError (List (OutboxId × M)))}
      {r : OutboxEffect M} (hrun : s.engineRunning = true)
      (he : s.readReplies = .ok messages :: replies)
      (hr : s.control.onReadOutbox (.ok messages) = some r) :
      Turn inlined s .takeReadReply
        { ({ s with readReplies := replies }).emit r with staleRead := false }
  /-- The engine handled a release response. -/
  | releaseReply {released : Nat} {replies : List Nat} {r : OutboxEffect M}
      (hrun : s.engineRunning = true) (he : s.releaseReplies = released :: replies)
      (hr : s.control.onReleaseOutbox = some r) :
      Turn inlined s .takeReleaseReply (({ s with releaseReplies := replies }).emit r)
  /-- A response stopped the engine. -/
  | engineStops {a : OutboxAction M} : Turn inlined s a { s with engineRunning := false }
  /-- The engine handled an `OutboxReady` event. -/
  | readyEvent {numMessages : Nat} {events : List Nat}
      (hrun : s.engineRunning = true) (he : s.readyEvents = numMessages :: events) :
      Turn inlined s .takeReadyEvent
        (({ s with readyEvents := events }).emit (s.control.onOutboxReady numMessages))
  /-- The reconnect timer fired. -/
  | writerReconnect (hrun : s.engineRunning = true)
      (harmed : s.control.writerReconnectArmed = true) :
      Turn inlined s .fireWriterReconnect (s.emit s.control.onWriterReconnect)
  /-- The semantic actor reserved a batch. -/
  | serveRead {numMessages : Nat} {requests : List OutboxRequest} {outbox : Outbox M}
      {messages : List (OutboxId × M)} (hlane : s.lane = .readOutbox numMessages :: requests)
      (hres : s.outbox.reserveOutboxMessages numMessages = .ok (outbox, messages)) :
      Turn inlined s .serve
        { s with lane := requests, outbox := outbox,
                 readReplies := s.readReplies ++ [.ok messages] }
  /-- The semantic actor could not reserve a batch. -/
  | serveReadFails {numMessages : Nat} {requests : List OutboxRequest}
      {e : SemanticTransactionError} (hlane : s.lane = .readOutbox numMessages :: requests) :
      Turn inlined s .serve
        { s with lane := requests, readReplies := s.readReplies ++ [.error e] }
  /-- The semantic actor released all reservations. -/
  | serveRelease {requests : List OutboxRequest} (hlane : s.lane = .releaseOutbox :: requests) :
      Turn inlined s .serve
        { s with lane := requests, outbox := s.outbox.releaseOutboxMessages.1,
                 releaseReplies := s.releaseReplies ++ [s.outbox.releaseOutboxMessages.2] }
  /-- The semantic actor trimmed the outbox. -/
  | serveTrim {through : OutboxId} {requests : List OutboxRequest}
      (hlane : s.lane = .trimOutbox through :: requests) :
      Turn inlined s .serve { s with lane := requests, outbox := s.outbox.trimOutbox through }
  /-- A local mutation queued messages. -/
  | mutate {messages : List M} {outbox : Outbox M}
      (hpush : s.outbox.pushOutboxMessages messages = .ok outbox) :
      Turn inlined s (.mutate messages)
        { s with outbox := outbox, readyEvents := s.readyEvents ++ [messages.length] }
  /-- The writer connected. -/
  | connect (hw : s.writer = .connecting) :
      Turn inlined s .connect
        { s with writer := .connected .fresh, writerEvents := s.writerEvents ++ [.connected] }
  /-- The writer failed to connect or lost its connection. -/
  | writerLost {a : OutboxAction M} (hw : s.writer = .connecting ∨ ∃ c, s.writer = .connected c) :
      Turn inlined s a
        { s with writer := .waiting, writerEvents := s.writerEvents ++ [.disconnected] }
  /-- The connected writer took a request. -/
  | accept {c c' : WriterConnection M} {request : LogWriterRequest M}
      {requests : List (LogWriterRequest M)} (hw : s.writer = .connected c)
      (hreq : s.writerRequests = request :: requests) (hbig : c.bigUpload = none)
      (hc : c.receive inlined request = some c') :
      Turn inlined s .receive { s with writer := .connected c', writerRequests := requests }
  /-- The connected writer panicked on a request. -/
  | writerPanics {c : WriterConnection M} {request : LogWriterRequest M}
      {requests : List (LogWriterRequest M)} (hw : s.writer = .connected c)
      (hreq : s.writerRequests = request :: requests) (hbig : c.bigUpload = none)
      (hc : c.receive inlined request = none) :
      Turn inlined s .receive { s with writer := .panicked, writerRequests := requests }
  /-- The waiting writer took a reconnect request. -/
  | reconnect {requests : List (LogWriterRequest M)} (hw : s.writer = .waiting)
      (hreq : s.writerRequests = .reconnect :: requests) :
      Turn inlined s .receive { s with writer := .connecting, writerRequests := requests }
  /-- The waiting writer discarded an append. -/
  | discard {outboxId : OutboxId} {sharedMessage : M} {requests : List (LogWriterRequest M)}
      (hw : s.writer = .waiting)
      (hreq : s.writerRequests = .append outboxId sharedMessage :: requests) :
      Turn inlined s .receive { s with writerRequests := requests }
  /-- A big upload was completed. -/
  | uploaded {c : WriterConnection M} {pointer : OutboxId × M} (hw : s.writer = .connected c)
      (hbig : c.bigUpload = some pointer) :
      Turn inlined s .uploaded
        { s with writer := .connected { c with
            bigUpload := none
            pendingAppends := c.pendingAppends ++ [pointer] } }
  /-- The log acknowledged a record. -/
  | acknowledge {c : WriterConnection M} {record : OutboxId × M} {records : List (OutboxId × M)}
      (hw : s.writer = .connected c) (hp : c.pendingAppends = record :: records) :
      Turn inlined s .acknowledge
        { s with
          writer := .connected { c with pendingAppends := records }
          writerEvents := s.writerEvents ++ [.durable record.1]
          durable := record :: s.durable }
  /-- The daemon was restarted. -/
  | restart : Turn inlined s .restart (start s.outbox s.durable)

/-- A turn of the machine does one of the things listed by `Turn`. -/
theorem turn_of_step {inlined : M → Bool} {s s' : OutboxLoop M} {a : OutboxAction M}
    (h : step inlined s a = some s') : Turn inlined s a s' := by
  cases a <;> simp only [step] at h
  case takeWriterEvent =>
    split at h <;> cases h
    exact .writerEvent ‹_› ‹_›
  case takeReadReply =>
    split at h
    · next result replies hrun he =>
      split at h <;> cases h
      · next r hr =>
        cases result with
        | ok messages => exact .readReply hrun he hr
        | error e => simp [OutboxControl.onReadOutbox] at hr
      · exact .engineStops
    · cases h
  case takeReleaseReply =>
    split at h
    · next he =>
      split at h <;> cases h
      · exact .releaseReply ‹_› he ‹_›
      · exact .engineStops
    · cases h
  case takeReadyEvent =>
    split at h <;> cases h
    exact .readyEvent ‹_› ‹_›
  case fireWriterReconnect =>
    split_ifs at h with hc
    cases h
    exact .writerReconnect (by simp_all) (by simp_all)
  case serve =>
    split at h
    · next request requests hlane =>
      cases h
      cases request with
      | readOutbox numMessages =>
        simp only [serveRequest]
        split
        · exact .serveRead hlane ‹_›
        · exact .serveReadFails hlane
      | releaseOutbox => exact .serveRelease hlane
      | trimOutbox through => exact .serveTrim hlane
    · cases h
  case mutate =>
    split at h <;> cases h
    exact .mutate ‹_›
  case connect =>
    split at h <;> cases h
    exact .connect ‹_›
  case connectFail =>
    split at h <;> cases h
    exact .writerLost (.inl ‹_›)
  case receive =>
    split at h
    · next c request requests hw hreq =>
      split_ifs at h with hbig
      split at h <;> cases h
      · exact .accept hw hreq (by simpa using hbig) ‹_›
      · exact .writerPanics hw hreq (by simpa using hbig) ‹_›
    · next hw hreq =>
      cases h
      exact .reconnect hw hreq
    · next hw hreq =>
      cases h
      exact .discard hw hreq
    · cases h
  case uploaded =>
    split at h
    · next hw =>
      split at h <;> cases h
      exact .uploaded hw ‹_›
    · cases h
  case acknowledge =>
    split at h
    · next hw =>
      split at h <;> cases h
      exact .acknowledge hw ‹_›
    · cases h
  case disconnect =>
    split at h <;> cases h
    exact .writerLost (.inr ⟨_, ‹_›⟩)
  case restart =>
    cases h
    exact .restart

end OutboxLoop

end Opbox
