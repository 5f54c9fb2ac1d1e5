import Opbox.Engine.ReaderLoop

/-!
# The log is applied without gaps and without repetition

Between the cursor in the database and the next record the reader delivers lie the records of the
batch in flight, of the engine's buffer and of the queued reader events.  While the engine runs,
they are consecutive and start at the cursor.  A reconnect drops the reader's position and restarts
it at the cursor the database holds: this is right when nothing but batches already queued before
the cursor read lies in between, that is, when the buffer is empty.
-/

namespace Opbox

variable {M : Type} {size : M → Nat}

/-- The batches queued for the semantic actor. -/
def laneBatches (lane : List (ReaderRequest M)) : List (SharedMessageBatch M) :=
  lane.filterMap fun
    | .applySharedMessageBatch batch => some batch
    | .readStableCursor => none

/-- The number of cursor reads queued for the semantic actor. -/
def laneCursorReads (lane : List (ReaderRequest M)) : Nat :=
  lane.countP fun
    | .applySharedMessageBatch _ => false
    | .readStableCursor => true

/-- The request is a batch. -/
def ReaderRequest.isBatch : ReaderRequest M → Bool
  | .applySharedMessageBatch _ => true
  | .readStableCursor => false

theorem laneBatches_eq_nil_iff {lane : List (ReaderRequest M)} :
    laneBatches lane = [] ↔ ∀ q ∈ lane, q.isBatch = false := by
  rw [laneBatches, List.filterMap_eq_nil_iff]
  refine forall₂_congr fun q _ => ?_
  cases q <;> simp [ReaderRequest.isBatch]

theorem laneCursorReads_eq_zero_iff {lane : List (ReaderRequest M)} :
    laneCursorReads lane = 0 ↔ ∀ q ∈ lane, q.isBatch = true := by
  rw [laneCursorReads, List.countP_eq_zero]
  refine forall₂_congr fun q _ => ?_
  cases q <;> simp [ReaderRequest.isBatch]

/-- The records queued for the engine. -/
def eventReads (events : List (LogReaderEvent M)) : List (SharedMessageEnvelope M) :=
  events.filterMap fun
    | .read envelope => some envelope
    | _ => none

@[simp] theorem eventReads_map (reads : List (SharedMessageEnvelope M)) :
    eventReads (reads.map .read) = reads := by
  simp [eventReads, List.filterMap_map]

@[simp] theorem eventReads_append (xs ys : List (LogReaderEvent M)) :
    eventReads (xs ++ ys) = eventReads xs ++ eventReads ys := List.filterMap_append

@[simp] theorem laneBatches_append (xs ys : List (ReaderRequest M)) :
    laneBatches (xs ++ ys) = laneBatches xs ++ laneBatches ys := List.filterMap_append

@[simp] theorem laneCursorReads_append (xs ys : List (ReaderRequest M)) :
    laneCursorReads (xs ++ ys) = laneCursorReads xs + laneCursorReads ys := List.countP_append

@[simp] theorem laneBatches_nil : laneBatches ([] : List (ReaderRequest M)) = [] := rfl

@[simp] theorem laneCursorReads_nil : laneCursorReads ([] : List (ReaderRequest M)) = 0 := rfl

@[simp] theorem laneBatches_apply (batch : SharedMessageBatch M) (lane : List (ReaderRequest M)) :
    laneBatches (.applySharedMessageBatch batch :: lane) = batch :: laneBatches lane := rfl

@[simp] theorem laneBatches_cursor (lane : List (ReaderRequest M)) :
    laneBatches (.readStableCursor :: lane) = laneBatches lane := rfl

@[simp] theorem laneCursorReads_apply (batch : SharedMessageBatch M)
    (lane : List (ReaderRequest M)) :
    laneCursorReads (.applySharedMessageBatch batch :: lane) = laneCursorReads lane := by
  simp [laneCursorReads]

@[simp] theorem laneCursorReads_cursor (lane : List (ReaderRequest M)) :
    laneCursorReads (.readStableCursor :: lane) = laneCursorReads lane + 1 := by
  simp [laneCursorReads]

/-- How the engine's link state, its outstanding cursor read, the reader, its requests and its
events can be combined. -/
inductive ReaderLinked : LinkRuntimeState → Bool → LogReader → List LogReaderRequest →
    List (LogReaderEvent M) → Prop
  /-- The reader is connecting and the engine waits for the outcome. -/
  | connecting (startAt : SequenceNumber) :
      ReaderLinked .reconnecting false (.connecting startAt) [] []
  /-- The reader has connected, the engine has not heard of it. -/
  | opened {events : List (LogReaderEvent M)} (next : SequenceNumber)
      (reads : List (SharedMessageEnvelope M)) (he : events = .connected :: reads.map .read) :
      ReaderLinked .reconnecting false (.connected next) [] events
  /-- Both sides know of the session. -/
  | online {events : List (LogReaderEvent M)} (next : SequenceNumber)
      (reads : List (SharedMessageEnvelope M)) (he : events = reads.map .read) :
      ReaderLinked .online false (.connected next) [] events
  /-- The session was lost before the engine heard of it. -/
  | lostUnseen {events : List (LogReaderEvent M)} (reads : List (SharedMessageEnvelope M))
      (he : events = .connected :: (reads.map .read ++ [.disconnected])) :
      ReaderLinked .reconnecting false .waiting [] events
  /-- The attempt to connect failed, the engine has not heard of it. -/
  | failed : ReaderLinked .reconnecting false .waiting [] [.disconnected]
  /-- The session was lost, the engine has not heard of it. -/
  | lost {events : List (LogReaderEvent M)} (reads : List (SharedMessageEnvelope M))
      (he : events = reads.map .read ++ [.disconnected]) :
      ReaderLinked .online false .waiting [] events
  /-- Both sides know of the loss. -/
  | offline : ReaderLinked .offline false .waiting [] []
  /-- The engine waits for the cursor. -/
  | asking : ReaderLinked .reconnecting true .waiting [] []
  /-- The engine has asked the reader to reconnect. -/
  | asked (startAt : SequenceNumber) :
      ReaderLinked .reconnecting false .waiting [.reconnect startAt] []

namespace ReaderLinked

variable {link : LinkRuntimeState} {asks : Bool} {reader : LogReader}
  {requests : List LogReaderRequest} {events : List (LogReaderEvent M)}

/-- The engine hears of the session. -/
theorem hear_connected (h : ReaderLinked link asks reader requests (.connected :: events)) :
    ReaderLinked .online asks reader requests events := by
  generalize he : LogReaderEvent.connected :: events = evs at h
  cases h with
  | connecting | offline | asking | asked | failed => cases he
  | opened next reads hreads =>
    rw [hreads, List.cons.injEq] at he
    exact .online next reads he.2
  | online next reads hreads => cases reads <;> simp [hreads] at he
  | lostUnseen reads hreads =>
    rw [hreads, List.cons.injEq] at he
    exact .lost reads he.2
  | lost reads hreads => cases reads <;> simp [hreads] at he

/-- The engine hears of the loss. -/
theorem hear_disconnected
    (h : ReaderLinked link asks reader requests (.disconnected :: events)) :
    events = [] ∧ asks = false ∧ ReaderLinked .offline false reader requests events := by
  generalize he : LogReaderEvent.disconnected :: events = evs at h
  cases h with
  | connecting | offline | asking | asked => cases he
  | opened next reads hreads => simp [hreads] at he
  | online next reads hreads => cases reads <;> simp [hreads] at he
  | lostUnseen reads hreads => simp [hreads] at he
  | failed =>
    cases he
    exact ⟨rfl, rfl, .offline⟩
  | lost reads hreads =>
    cases reads with
    | nil =>
      simp only [hreads, List.map_nil, List.nil_append, List.cons.injEq, true_and] at he
      exact ⟨he, rfl, he ▸ .offline⟩
    | cons e reads => simp [hreads] at he

/-- The engine takes a record. -/
theorem hear_read {envelope : SharedMessageEnvelope M}
    (h : ReaderLinked link asks reader requests (.read envelope :: events)) :
    ReaderLinked link asks reader requests events := by
  generalize he : LogReaderEvent.read envelope :: events = evs at h
  cases h with
  | connecting | offline | asking | asked | failed => cases he
  | opened next reads hreads => simp [hreads] at he
  | online next reads hreads =>
    cases reads with
    | nil => simp [hreads] at he
    | cons e reads =>
      simp only [hreads, List.map_cons, List.cons.injEq] at he
      exact .online next reads he.2
  | lostUnseen reads hreads => simp [hreads] at he
  | lost reads hreads =>
    cases reads with
    | nil => simp [hreads] at he
    | cons e reads =>
      simp only [hreads, List.map_cons, List.cons_append, List.cons.injEq] at he
      exact .lost reads he.2

/-- While a cursor read is outstanding the reader waits and no event is queued. -/
theorem of_asking (h : ReaderLinked link true reader requests events) :
    link = .reconnecting ∧ reader = .waiting ∧ requests = [] ∧ events = [] := by
  cases h
  exact ⟨rfl, rfl, rfl, rfl⟩

/-- While the engine holds the link for offline the reader waits and no event is queued. -/
theorem of_offline (h : ReaderLinked .offline asks reader requests events) :
    asks = false ∧ reader = .waiting ∧ requests = [] ∧ events = [] := by
  cases h
  exact ⟨rfl, rfl, rfl, rfl⟩

/-- The reader opens its session. -/
theorem connect {startAt : SequenceNumber}
    (h : ReaderLinked link asks (.connecting startAt) requests events) :
    ReaderLinked link asks (.connected startAt) requests (events ++ [.connected]) := by
  cases h
  exact .opened startAt [] rfl

/-- The reader delivers a record. -/
theorem deliver {next next' : SequenceNumber} {envelope : SharedMessageEnvelope M}
    (h : ReaderLinked link asks (.connected next) requests events) :
    ReaderLinked link asks (.connected next') requests (events ++ [.read envelope]) := by
  cases h with
  | opened next reads he => exact .opened next' (reads ++ [envelope]) (by simp [he])
  | online next reads he => exact .online next' (reads ++ [envelope]) (by simp [he])

/-- The reader fails to connect or loses its session. -/
theorem disconnect (hr : reader ≠ .waiting) (h : ReaderLinked link asks reader requests events) :
    ReaderLinked link asks .waiting requests (events ++ [.disconnected]) := by
  cases h with
  | connecting => exact .failed
  | opened next reads he => exact .lostUnseen reads (by simp [he])
  | online next reads he => exact .lost reads (by simp [he])
  | lostUnseen | failed | lost | offline | asking | asked => exact absurd rfl hr

/-- The waiting reader takes the only request there is. -/
theorem reconnect {startAt : SequenceNumber}
    (h : ReaderLinked link asks .waiting (.reconnect startAt :: requests) events) :
    requests = [] ∧ events = [] ∧
      ReaderLinked link asks (.connecting startAt) requests events := by
  cases h
  exact ⟨rfl, rfl, .connecting startAt⟩

/-- A reader that is not waiting has no requests. -/
theorem requests_eq_nil (hr : reader ≠ .waiting)
    (h : ReaderLinked link asks reader requests events) : requests = [] := by
  cases h with
  | connecting | opened | online => rfl
  | lostUnseen | failed | lost | offline | asking | asked => exact absurd rfl hr

end ReaderLinked

namespace ReaderLoop

open ReaderControl

variable {s s' : ReaderLoop M size} {a : ReaderAction M}

/-- The records on their way from the reader into the database. -/
def pending (s : ReaderLoop M size) : List (SharedMessageEnvelope M) :=
  (laneBatches s.lane).flatMap SharedMessageBatch.messages ++
    (s.control.sharedMessageBuffer.envelopes ++ eventReads s.readerEvents)

/-- The record the reader's session delivers next. -/
def position : LogReader → Option SequenceNumber
  | .connecting startAt => some startAt
  | .connected next => some next
  | .waiting => none

/-- The records under way continue the database's prefix of the log, and the reader continues
them. -/
structure Chain (s : ReaderLoop M size) : Prop where
  /-- The records under way start at the cursor. -/
  consecutive : Consecutive s.stableCursor s.pending
  /-- They are records of the log. -/
  genuine : ∀ e ∈ s.pending, Genuine s.log e
  /-- The reader continues where they end. -/
  position : ∀ n, position s.reader = some n → n = s.stableCursor + s.pending.length
  /-- A queued cursor read finds everything under way queued before it. -/
  asking : 0 < laneCursorReads s.lane → s.control.sharedMessageBuffer.envelopes = []
  /-- An answered cursor is the position of the next record that is not under way. -/
  answered : ∀ n, .ok n ∈ s.cursorReplies → n = s.stableCursor ∧ s.pending = []
  /-- So is the position the reader is asked to restart at. -/
  asked : ∀ n, .reconnect n ∈ s.readerRequests → n = s.stableCursor ∧ s.pending = []

/-- The invariant of the runs that restart the reader on an empty buffer. -/
structure ReaderInv (s : ReaderLoop M size) : Prop where
  /-- The link invariant. -/
  linked : ReaderLinked s.control.reader s.control.readerReconnectCursorInFlight s.reader
    s.readerRequests s.readerEvents
  /-- At most one batch is under way. -/
  batches_le : (laneBatches s.lane).length + s.applyReplies.length ≤ 1
  /-- The engine counts it. -/
  batches : s.stopped = none → (laneBatches s.lane).length + s.applyReplies.length =
    s.control.inFlightApplySharedMessageBatch
  /-- The engine knows whether a cursor read is under way. -/
  cursors : s.stopped = none → laneCursorReads s.lane + s.cursorReplies.length =
    s.control.readerReconnectCursorInFlight.toNat
  /-- No batch is queued behind a cursor read. -/
  order : s.lane.Pairwise fun x y => x.isBatch = false → y.isBatch = false
  /-- The drain timer runs on a non-empty buffer. -/
  drain : s.stopped = none → s.control.drainArmed = true →
    s.control.sharedMessageBuffer.envelopes ≠ []
  /-- The database has applied the log up to its cursor. -/
  applied : s.applied = envelopesFrom 0 (s.log.take s.stableCursor)
  /-- The cursor lies within the log. -/
  cursor_le : s.stableCursor ≤ s.log.length
  /-- A queued batch starts at the cursor. -/
  lane : ∀ batch ∈ laneBatches s.lane,
    batch.first = s.stableCursor ∧ ∀ e ∈ batch.messages, Genuine s.log e
  /-- The engine has not stopped over a batch or an assertion. -/
  stop : (∀ message, s.stopped ≠ some (.batch message)) ∧ s.stopped ≠ some .panic
  /-- As long as the engine runs and no batch has failed, the records under way are a chain. -/
  chain : s.stopped = none → (∀ result ∈ s.applyReplies, result = .ok ()) → s.Chain

/-- The records of the log reach the database in order, each once: batches are well formed, start
at the cursor they are applied to, and the database holds a prefix of the log. -/
structure GapFree (s : ReaderLoop M size) : Prop where
  /-- `SharedMessageBatch::try_from` and the assertions of the engine have not failed. -/
  stop : (∀ message, s.stopped ≠ some (.batch message)) ∧ s.stopped ≠ some .panic
  /-- The cursor check of `apply_shared_message_batch_tx` passes. -/
  expected : ∀ batch ∈ laneBatches s.lane, batch.first = s.stableCursor
  /-- No record has been applied twice or skipped. -/
  applied : s.applied = envelopesFrom 0 (s.log.take s.stableCursor)

/-- The step does not restart the reader at the cursor while the engine still holds records past
it. -/
def RestartsDrained (s : ReaderLoop M size) (a : ReaderAction M) : Prop :=
  match a with
  | .fireReaderReconnect =>
    s.control.reader = .offline → s.control.readerReconnectCursorInFlight = false →
      s.control.sharedMessageBuffer.envelopes = []
  | _ => True

/-! ## The parts of the invariant under the turns -/

theorem readerInv_start {cursor : SequenceNumber} {log : List (LogRecord M)}
    (h : cursor ≤ log.length) :
    (start cursor (envelopesFrom 0 (log.take cursor)) log : ReaderLoop M size).ReaderInv where
  linked := .connecting cursor
  batches_le := Nat.zero_le 1
  batches := fun _ => rfl
  cursors := fun _ => rfl
  order := List.Pairwise.nil
  drain := fun _ hd => absurd hd Bool.false_ne_true
  applied := rfl
  cursor_le := h
  lane := fun _ hb => absurd hb List.not_mem_nil
  stop := ⟨fun _ => nofun, nofun⟩
  chain := fun _ _ =>
    { consecutive := trivial
      genuine := fun _ he => absurd he List.not_mem_nil
      position := fun _ hn => (Option.some.inj hn).symm
      asking := fun hz => absurd hz (Nat.lt_irrefl 0)
      answered := fun _ hn => absurd hn List.not_mem_nil
      asked := fun _ hn => absurd hn List.not_mem_nil }

/-- Every turn keeps the link invariant. -/
theorem linked_turn (hl : ReaderLinked s.control.reader s.control.readerReconnectCursorInFlight
    s.reader s.readerRequests s.readerEvents) (ht : Turn s a s') :
    ReaderLinked s'.control.reader s'.control.readerReconnectCursorInFlight s'.reader
      s'.readerRequests s'.readerEvents := by
  cases ht with
  | @readerEvent now event events hrun he =>
    rw [he] at hl
    cases event with
    | connected => exact hl.hear_connected
    | disconnected =>
      obtain ⟨-, hasks, hoff⟩ := hl.hear_disconnected
      simpa [onReaderEvent, hasks] using hoff
    | read envelope =>
      simp only [onReaderEvent]
      split_ifs <;> exact hl.hear_read
  | @applyReply now result replies control hrun he hr =>
    unfold onApplySharedMessageBatch at hr
    split at hr
    · cases hr
    · cases hr
    · simp only at hr
      split_ifs at hr <;> (cases hr; exact hl)
  | @cursorReply result replies control requests hrun he hr =>
    unfold onReadStableCursor at hr
    split_ifs at hr with hasks
    rw [hasks] at hl
    obtain ⟨hlink, hreader, hreq, hev⟩ := hl.of_asking
    cases result with
    | error e => cases hr
    | ok cursor =>
      simp only [hlink, if_true] at hr
      cases hr
      simp only [hreader, hreq, hev]
      exact .asked cursor
  | drain hrun harmed hr =>
    unfold onDrain at hr
    simp only at hr
    split_ifs at hr
    · split at hr
      · cases hr
      · cases hr
        exact hl
    · cases hr
      exact hl
  | readerReconnect hrun harmed =>
    unfold onReaderReconnect
    split_ifs with hoff
    · rw [hoff.1] at hl
      obtain ⟨-, hreader, hreq, hev⟩ := hl.of_offline
      simp only [hreader, hreq, hev]
      exact .asking
    · exact hl
  | @serve request requests hlane =>
    cases request with
    | applySharedMessageBatch batch =>
      simp only [serveRequest]
      split_ifs <;> exact hl
    | readStableCursor => exact hl
  | @serveFails e request requests hlane => cases request <;> exact hl
  | connect hr =>
    rw [hr] at hl
    exact hl.connect
  | deliver hr hlog =>
    rw [hr] at hl
    exact hl.deliver
  | disconnect hr => exact hl.disconnect hr
  | reconnect hr hreq =>
    rw [hr, hreq] at hl
    exact hl.reconnect.2.2
  | ignore hr hreq =>
    have hnil := hl.requests_eq_nil (by simp [hr])
    rw [hreq] at hnil
    cases hnil
  | applyStops | cursorStops | drainStops | append => exact hl
  | restart => exact .connecting _

/-- A turn that moves no record and neither answers a cursor read nor asks for a reconnect. -/
theorem Chain.of_eq (h : s.Chain) (hc : s'.stableCursor = s.stableCursor) (hlog : s'.log = s.log)
    (hp : s'.pending = s.pending)
    (hpos : ∀ n, ReaderLoop.position s'.reader = some n → ReaderLoop.position s.reader = some n)
    (hask : 0 < laneCursorReads s'.lane → s'.control.sharedMessageBuffer.envelopes = [])
    (hans : ∀ n, .ok n ∈ s'.cursorReplies → .ok n ∈ s.cursorReplies)
    (hasked : ∀ n, .reconnect n ∈ s'.readerRequests → .reconnect n ∈ s.readerRequests) :
    s'.Chain where
  consecutive := by
    rw [hc, hp]
    exact h.consecutive
  genuine := by
    rw [hlog, hp]
    exact h.genuine
  position := by
    rw [hc, hp]
    exact fun n hn => h.position n (hpos n hn)
  asking := hask
  answered := by
    rw [hc, hp]
    exact fun n hn => h.answered n (hans n hn)
  asked := by
    rw [hc, hp]
    exact fun n hn => h.asked n (hasked n hn)

/-- While an event is queued no cursor read is under way. -/
theorem ReaderInv.no_cursorRead (h : s.ReaderInv) (hrun : s.stopped = none)
    (hne : s.reader ≠ .waiting ∨ s.readerEvents ≠ []) :
    laneCursorReads s.lane = 0 ∧ s.cursorReplies = [] := by
  have hcount := h.cursors hrun
  have hl := h.linked
  cases hasks : s.control.readerReconnectCursorInFlight with
  | true =>
    rw [hasks] at hl
    obtain ⟨-, hreader, -, hev⟩ := hl.of_asking
    exact absurd hev (hne.resolve_left fun hr => hr hreader)
  | false =>
    rw [hasks, Bool.toNat_false] at hcount
    exact ⟨by omega, List.length_eq_zero_iff.mp (by omega)⟩

/-- The engine handled a reader event. -/
theorem ReaderInv.readerEvent {now : Nat} {event : LogReaderEvent M}
    {events : List (LogReaderEvent M)} (h : s.ReaderInv) (hrun : s.stopped = none)
    (he : s.readerEvents = event :: events)
    (hs' : s' = { s with readerEvents := events, control := s.control.onReaderEvent now event })
    (hlinked : ReaderLinked s'.control.reader s'.control.readerReconnectCursorInFlight s'.reader
      s'.readerRequests s'.readerEvents) : s'.ReaderInv := by
  have hasks := (h.no_cursorRead hrun (.inr (by simp [he]))).1
  have hkeep : s'.control.inFlightApplySharedMessageBatch =
        s.control.inFlightApplySharedMessageBatch ∧
      s'.control.readerReconnectCursorInFlight = s.control.readerReconnectCursorInFlight ∧
      s'.pending = s.pending ∧ (s'.control.drainArmed = true →
        s'.control.sharedMessageBuffer.envelopes ≠ []) := by
    rw [hs']
    have hdrain := h.drain hrun
    cases event with
    | connected =>
      exact ⟨rfl, rfl, by rw [pending, pending, he]; rfl, hdrain⟩
    | disconnected =>
      exact ⟨rfl, rfl, by rw [pending, pending, he]; rfl, hdrain⟩
    | read envelope =>
      have hp : ∀ b : SharedMessageBuffer M size,
          (b.insert now envelope).envelopes ++ eventReads events =
            b.envelopes ++ eventReads (.read envelope :: events) := by
        intro b
        rw [SharedMessageBuffer.insert, List.append_assoc]
        rfl
      simp only [onReaderEvent]
      split_ifs <;> refine ⟨rfl, rfl, ?_, fun _ => by simp [SharedMessageBuffer.insert]⟩ <;>
        rw [pending, pending, he] <;> exact congrArg _ (hp _)
  obtain ⟨h1, h2, h3, h4⟩ := hkeep
  subst hs'
  exact
    { linked := hlinked
      batches_le := h.batches_le
      batches := fun hr => (h.batches hr).trans h1.symm
      cursors := fun hr => (h.cursors hr).trans (congrArg _ h2.symm)
      order := h.order
      drain := fun _ => h4
      applied := h.applied
      cursor_le := h.cursor_le
      lane := h.lane
      stop := h.stop
      chain := fun hr hok => (h.chain hr hok).of_eq rfl rfl h3 (fun _ => id)
        (fun hz => absurd hz (by simp [hasks])) (fun _ => id) fun _ => id }

/-- The engine handled the response of a batch. -/
theorem ReaderInv.applyReply {now : Nat} {result : Except SemanticTransactionError Unit}
    {replies : List (Except SemanticTransactionError Unit)} {control : ReaderControl M size}
    (h : s.ReaderInv) (hrun : s.stopped = none) (he : s.applyReplies = result :: replies)
    (hr : s.control.onApplySharedMessageBatch now result = .ok control)
    (hs' : s' = { s with applyReplies := replies, control := control })
    (hlinked : ReaderLinked s'.control.reader s'.control.readerReconnectCursorInFlight s'.reader
      s'.readerRequests s'.readerEvents) : s'.ReaderInv := by
  have hle := h.batches_le
  have hcount := h.batches hrun
  rw [he, List.length_cons] at hle hcount
  have hkeep : result = .ok () ∧ control.inFlightApplySharedMessageBatch + 1 =
        s.control.inFlightApplySharedMessageBatch ∧
      control.readerReconnectCursorInFlight = s.control.readerReconnectCursorInFlight ∧
      control.sharedMessageBuffer = s.control.sharedMessageBuffer ∧
      (control.drainArmed = true → control.sharedMessageBuffer.envelopes ≠ []) := by
    have hdrain := h.drain hrun
    unfold onApplySharedMessageBatch at hr
    split at hr
    · cases hr
    · cases hr
    · next n hn =>
      simp only at hr
      split_ifs at hr with hfire
      · cases hr
        refine ⟨rfl, hn.symm, rfl, rfl, fun _ hnil => ?_⟩
        rw [SharedMessageBuffer.nextFireAt_eq_none_iff.mpr hnil] at hfire
        exact Bool.false_ne_true hfire
      · cases hr
        exact ⟨rfl, hn.symm, rfl, rfl, hdrain⟩
  obtain ⟨rfl, h1, h2, h3, h4⟩ := hkeep
  subst hs'
  exact
    { linked := hlinked
      batches_le := Nat.le_of_succ_le hle
      batches := fun _ => by
        show (laneBatches s.lane).length + replies.length = control.inFlightApplySharedMessageBatch
        omega
      cursors := fun hr => (h.cursors hr).trans (congrArg _ h2.symm)
      order := h.order
      drain := fun _ => h4
      applied := h.applied
      cursor_le := h.cursor_le
      lane := h.lane
      stop := h.stop
      chain := fun hr hok => by
        have hall : ∀ r ∈ s.applyReplies, r = .ok () := by
          rw [he]
          exact fun r hr => (List.mem_cons.mp hr).elim id (hok r)
        have hchain := h.chain hrun hall
        refine hchain.of_eq rfl rfl (by simp only [pending, h3]) (fun _ => id) ?_ (fun _ => id)
          fun _ => id
        simp only [h3]
        exact hchain.asking }

/-- The engine stopped over an error of the semantic actor. -/
theorem ReaderInv.stops {e : SemanticTransactionError} (h : s.ReaderInv)
    (hs' : s' = { s with
      applyReplies := s'.applyReplies
      cursorReplies := s'.cursorReplies
      stopped := some (.semantic e) })
    (hle : s'.applyReplies.length ≤ s.applyReplies.length) : s'.ReaderInv := by
  have hne : s'.stopped ≠ none := by rw [hs']; simp
  have hbatches := h.batches_le
  rw [hs']
  exact
    { linked := h.linked
      batches_le := by
        show (laneBatches s.lane).length + s'.applyReplies.length ≤ 1
        omega
      batches := nofun
      cursors := nofun
      order := h.order
      drain := nofun
      applied := h.applied
      cursor_le := h.cursor_le
      lane := h.lane
      stop := ⟨fun _ => nofun, nofun⟩
      chain := nofun }

/-- The engine handled the response of a cursor read. -/
theorem ReaderInv.cursorReply {result : Except SemanticTransactionError SequenceNumber}
    {replies : List (Except SemanticTransactionError SequenceNumber)}
    {control : ReaderControl M size} {requests : List LogReaderRequest} (h : s.ReaderInv)
    (hrun : s.stopped = none) (he : s.cursorReplies = result :: replies)
    (hr : s.control.onReadStableCursor result = .ok (control, requests))
    (hs' : s' = { s with
      cursorReplies := replies
      control := control
      readerRequests := s.readerRequests ++ requests })
    (hlinked : ReaderLinked s'.control.reader s'.control.readerReconnectCursorInFlight s'.reader
      s'.readerRequests s'.readerEvents) : s'.ReaderInv := by
  have hcount := h.cursors hrun
  have hl := h.linked
  rw [he, List.length_cons] at hcount
  have hkeep : ∃ cursor, result = .ok cursor ∧ requests = [.reconnect cursor] ∧
      control = { s.control with readerReconnectCursorInFlight := false } ∧
      s.control.readerReconnectCursorInFlight = true := by
    unfold onReadStableCursor at hr
    split_ifs at hr with hasks
    rw [hasks] at hl
    cases result with
    | error e => cases hr
    | ok cursor =>
      simp only [hl.of_asking.1, if_true] at hr
      cases hr
      exact ⟨cursor, rfl, rfl, by simp only [hl.of_asking.1], hasks⟩
  obtain ⟨cursor, rfl, rfl, rfl, hasks⟩ := hkeep
  rw [hasks, Bool.toNat_true] at hcount
  subst hs'
  exact
    { linked := hlinked
      batches_le := h.batches_le
      batches := h.batches
      cursors := fun _ => by
        show laneCursorReads s.lane + replies.length = 0
        omega
      order := h.order
      drain := h.drain
      applied := h.applied
      cursor_le := h.cursor_le
      lane := h.lane
      stop := h.stop
      chain := fun hr hok => by
        have hchain := h.chain hr hok
        refine ⟨hchain.consecutive, hchain.genuine, hchain.position, hchain.asking,
          fun n hn => hchain.answered n (by rw [he]; exact List.mem_cons_of_mem _ hn), fun n hn => ?_⟩
        rcases List.mem_append.mp hn with hn | hn
        · exact hchain.asked n hn
        · rw [List.mem_singleton, LogReaderRequest.reconnect.injEq] at hn
          exact hchain.answered n (by rw [he, hn]; exact List.mem_cons_self) }

/-- While the engine may drain, the buffer continues the database's prefix of the log. -/
theorem ReaderInv.buffer (h : s.ReaderInv) (hrun : s.stopped = none)
    (hzero : s.control.inFlightApplySharedMessageBatch = 0) :
    laneBatches s.lane = [] ∧ s.applyReplies = [] ∧
      s.pending = s.control.sharedMessageBuffer.envelopes ++ eventReads s.readerEvents ∧
      s.Chain := by
  have hcount := h.batches hrun
  rw [hzero] at hcount
  have hlane : laneBatches s.lane = [] := List.length_eq_zero_iff.mp (by omega)
  have hreplies : s.applyReplies = [] := List.length_eq_zero_iff.mp (by omega)
  exact ⟨hlane, hreplies, by simp [pending, hlane], h.chain hrun (by simp [hreplies])⟩

/-- The drain timer fired. -/
theorem ReaderInv.fireDrain {control : ReaderControl M size} {requests : List (ReaderRequest M)}
    (h : s.ReaderInv) (hrun : s.stopped = none) (harmed : s.control.drainArmed = true)
    (hr : s.control.onDrain = .ok (control, requests))
    (hs' : s' = { s with control := control, lane := s.lane ++ requests })
    (hlinked : ReaderLinked s'.control.reader s'.control.readerReconnectCursorInFlight s'.reader
      s'.readerRequests s'.readerEvents) : s'.ReaderInv := by
  have hne := h.drain hrun harmed
  unfold onDrain at hr
  simp only [canAcceptApplySharedMessageBatch, decide_eq_true_eq] at hr
  by_cases hzero : s.control.inFlightApplySharedMessageBatch = 0
  · obtain ⟨hlane, hreplies, hpending, hchain⟩ := h.buffer hrun hzero
    have hconsecutive := hchain.consecutive
    rw [hpending, consecutive_append] at hconsecutive
    obtain ⟨batch, hbatch, hfirst, hmessages⟩ :=
      SharedMessageBatch.tryFrom_of_consecutive hne hconsecutive.1
    simp only [hzero, if_true, SharedMessageBuffer.drain, hne, if_false, hbatch] at hr
    cases hr
    have hreads : laneCursorReads s.lane = 0 := by
      by_contra hpos
      exact hne (hchain.asking (Nat.pos_of_ne_zero hpos))
    have hpending' : s'.pending = s.pending := by
      rw [hpending, hs']
      simp [pending, hlane, hmessages, SharedMessageBuffer.new]
    subst hs'
    exact
      { linked := hlinked
        batches_le := by simp [hlane, hreplies]
        batches := fun _ => by simp [hlane, hreplies]
        cursors := fun hr => by simpa using h.cursors hr
        order := by
          refine List.pairwise_append.mpr ⟨h.order, List.pairwise_singleton _ _, ?_⟩
          rintro x hx y - hbatch
          rw [laneCursorReads_eq_zero_iff.mp hreads x hx] at hbatch
          exact absurd hbatch (by simp)
        drain := fun _ hd => absurd hd Bool.false_ne_true
        applied := h.applied
        cursor_le := h.cursor_le
        lane := by
          simp only [laneBatches_append, hlane, List.nil_append, laneBatches_apply,
            laneBatches_nil, List.mem_singleton, forall_eq]
          refine ⟨hfirst, fun e he => hchain.genuine e ?_⟩
          rw [hpending]
          exact List.mem_append_left _ (hmessages ▸ he)
        stop := h.stop
        chain := fun _ _ => hchain.of_eq rfl rfl hpending' (fun _ => id)
          (fun _ => rfl) (fun _ => id) fun _ => id }
  · simp only [hzero, if_false] at hr
    cases hr
    subst hs'
    simp only [List.append_nil]
    exact
      { linked := hlinked
        batches_le := h.batches_le
        batches := h.batches
        cursors := h.cursors
        order := h.order
        drain := fun _ hd => absurd hd Bool.false_ne_true
        applied := h.applied
        cursor_le := h.cursor_le
        lane := h.lane
        stop := h.stop
        chain := fun hr hok => (h.chain hr hok).of_eq rfl rfl rfl (fun _ => id)
          (h.chain hr hok).asking (fun _ => id) fun _ => id }

/-- The drain timer does not stop the engine. -/
theorem ReaderInv.onDrain_ok (h : s.ReaderInv) (hrun : s.stopped = none)
    (harmed : s.control.drainArmed = true) (why : ReaderStop) : s.control.onDrain ≠ .error why := by
  intro hr
  have hne := h.drain hrun harmed
  unfold onDrain at hr
  simp only [canAcceptApplySharedMessageBatch, decide_eq_true_eq] at hr
  by_cases hzero : s.control.inFlightApplySharedMessageBatch = 0
  · obtain ⟨-, -, hpending, hchain⟩ := h.buffer hrun hzero
    have hconsecutive := hchain.consecutive
    rw [hpending, consecutive_append] at hconsecutive
    obtain ⟨batch, hbatch, -⟩ := SharedMessageBatch.tryFrom_of_consecutive hne hconsecutive.1
    simp only [hzero, if_true, SharedMessageBuffer.drain, hne, if_false, hbatch] at hr
    cases hr
  · simp only [hzero, if_false] at hr
    cases hr

/-- The reconnect timer fired on an empty buffer. -/
theorem ReaderInv.readerReconnect (h : s.ReaderInv) (hrun : s.stopped = none)
    (hP : s.RestartsDrained .fireReaderReconnect)
    (hs' : s' = { s with
      control := s.control.onReaderReconnect.1
      lane := s.lane ++ s.control.onReaderReconnect.2 })
    (hlinked : ReaderLinked s'.control.reader s'.control.readerReconnectCursorInFlight s'.reader
      s'.readerRequests s'.readerEvents) : s'.ReaderInv := by
  have hcount := h.cursors hrun
  unfold onReaderReconnect at hs'
  split_ifs at hs' with hoff
  · have hempty := hP hoff.1 hoff.2
    rw [hoff.2, Bool.toNat_false] at hcount
    have hpending' : s'.pending = s.pending := by
      rw [hs']
      simp [pending]
    subst hs'
    exact
      { linked := hlinked
        batches_le := by simpa using h.batches_le
        batches := fun hr => by simpa using h.batches hr
        cursors := fun _ => by
          simp only [laneCursorReads_append, laneCursorReads_cursor, laneCursorReads_nil,
            Bool.toNat_true]
          omega
        order := by
          refine List.pairwise_append.mpr ⟨h.order, List.pairwise_singleton _ _, ?_⟩
          rintro x - y hy -
          rw [List.mem_singleton.mp hy]
          rfl
        drain := h.drain
        applied := h.applied
        cursor_le := h.cursor_le
        lane := by simpa using h.lane
        stop := h.stop
        chain := fun hr hok => (h.chain hr hok).of_eq rfl rfl hpending' (fun _ => id)
          (fun _ => hempty) (fun _ => id) fun _ => id }
  · subst hs'
    simp only [List.append_nil]
    exact
      { linked := hlinked
        batches_le := h.batches_le
        batches := h.batches
        cursors := h.cursors
        order := h.order
        drain := h.drain
        applied := h.applied
        cursor_le := h.cursor_le
        lane := h.lane
        stop := h.stop
        chain := fun hr hok => (h.chain hr hok).of_eq rfl rfl rfl (fun _ => id)
          (h.chain hr hok).asking (fun _ => id) fun _ => id }

/-- The semantic actor applied a batch. -/
theorem ReaderInv.serveBatch {batch : SharedMessageBatch M} {requests : List (ReaderRequest M)}
    (h : s.ReaderInv) (hlane : s.lane = .applySharedMessageBatch batch :: requests)
    (hs' : s' = ({ s with lane := requests }).serveRequest (.applySharedMessageBatch batch))
    (hlinked : ReaderLinked s'.control.reader s'.control.readerReconnectCursorInFlight s'.reader
      s'.readerRequests s'.readerEvents) : s'.ReaderInv := by
  have hle := h.batches_le
  have hbatches := h.batches
  have hcursors := h.cursors
  have horder := h.order
  have hlaneInv := h.lane
  rw [hlane] at hle hbatches hcursors horder hlaneInv
  simp only [laneBatches_apply, List.length_cons, laneCursorReads_apply] at hle hbatches hcursors
  have hrest : laneBatches requests = [] := List.length_eq_zero_iff.mp (by omega)
  have hreplies : s.applyReplies = [] := List.length_eq_zero_iff.mp (by omega)
  obtain ⟨hfirst, hgenuine⟩ := hlaneInv batch (by simp)
  obtain ⟨hpiece, hend⟩ := batch.consecutive.eq_envelopesFrom hgenuine
  have hlt := hend batch.nonempty
  simp only [serveRequest, hfirst, ne_eq, not_true_eq_false, if_false] at hs'
  have hpending : s.pending = batch.messages ++ s'.pending := by
    rw [hs']
    simp [pending, hlane]
  subst hs'
  exact
    { linked := hlinked
      batches_le := by simp [hrest, hreplies]
      batches := fun hr => by
        have := hbatches hr
        simp only [hrest, hreplies, List.length_nil, List.nil_append, List.length_singleton] at this ⊢
        omega
      cursors := hcursors
      order := (List.pairwise_cons.mp horder).2
      drain := h.drain
      applied := by
        show s.applied ++ batch.messages =
          envelopesFrom 0 (s.log.take (batch.first + batch.messages.length))
        rw [h.applied, List.take_add, envelopesFrom_append, List.length_take,
          Nat.min_eq_left (Nat.le_of_add_right_le hlt), Nat.zero_add, ← hpiece, hfirst]
      cursor_le := hlt
      lane := by simp [hrest]
      stop := h.stop
      chain := fun hr _ => by
        have hchain := h.chain hr (by simp [hreplies])
        have hconsecutive := hchain.consecutive
        rw [hpending, consecutive_append, ← hfirst] at hconsecutive
        have hbusy : ∀ {p : Prop}, s.pending = [] → p := fun hnil => by
          rw [hpending] at hnil
          exact absurd (List.append_eq_nil_iff.mp hnil).1 batch.nonempty
        exact
          { consecutive := hconsecutive.2
            genuine := fun e he => hchain.genuine e (by
              rw [hpending]
              exact List.mem_append_right _ he)
            position := fun n hn => by
              have := hchain.position n hn
              rw [hpending, List.length_append, ← hfirst] at this
              exact this.trans (Nat.add_assoc _ _ _).symm
            asking := fun hz => hchain.asking (by rw [hlane]; simpa using hz)
            answered := fun n hn => hbusy (hchain.answered n hn).2
            asked := fun n hn => hbusy (hchain.asked n hn).2 } }

/-- The semantic actor read the cursor. -/
theorem ReaderInv.serveCursor {requests : List (ReaderRequest M)}
    {result : Except SemanticTransactionError SequenceNumber} (h : s.ReaderInv)
    (hlane : s.lane = .readStableCursor :: requests)
    (hresult : ∀ n, result = .ok n → n = s.stableCursor)
    (hs' : s' = { s with lane := requests, cursorReplies := s.cursorReplies ++ [result] })
    (hlinked : ReaderLinked s'.control.reader s'.control.readerReconnectCursorInFlight s'.reader
      s'.readerRequests s'.readerEvents) : s'.ReaderInv := by
  have hle := h.batches_le
  have hbatches := h.batches
  have hcursors := h.cursors
  have horder := h.order
  have hlaneInv := h.lane
  rw [hlane] at hle hbatches hcursors horder hlaneInv
  simp only [laneBatches_cursor, laneCursorReads_cursor] at hle hbatches hcursors hlaneInv
  have hrest : laneBatches requests = [] :=
    laneBatches_eq_nil_iff.mpr fun q hq => (List.pairwise_cons.mp horder).1 q hq rfl
  have hpending : s'.pending = s.pending := by
    rw [hs']
    simp [pending, hlane]
  subst hs'
  exact
    { linked := hlinked
      batches_le := hle
      batches := hbatches
      cursors := fun hr => by
        have := hcursors hr
        simp only [List.length_append, List.length_singleton]
        omega
      order := (List.pairwise_cons.mp horder).2
      drain := h.drain
      applied := h.applied
      cursor_le := h.cursor_le
      lane := hlaneInv
      stop := h.stop
      chain := fun hr hok => by
        have hchain := h.chain hr hok
        have hone := hcursors hr
        have hl := h.linked
        have hasks : s.control.readerReconnectCursorInFlight = true := by
          by_contra hf
          rw [Bool.not_eq_true] at hf
          rw [hf, Bool.toNat_false] at hone
          omega
        rw [hasks] at hl
        -- nothing is left under way: the queue, the buffer and the events are empty
        have hnil : s.pending = [] := by
          rw [pending, hlane, laneBatches_cursor, hrest,
            hchain.asking (by rw [hlane]; simp), hl.of_asking.2.2.2]
          rfl
        refine ⟨hpending ▸ hchain.consecutive, hpending ▸ hchain.genuine,
          hpending ▸ hchain.position, fun hz => hchain.asking (by rw [hlane]; simp),
          fun n hn => ?_, hpending ▸ hchain.asked⟩
        rcases List.mem_append.mp hn with hn | hn
        · exact hpending ▸ hchain.answered n hn
        · exact ⟨hresult n (List.mem_singleton.mp hn).symm, hpending.trans hnil⟩ }

/-- The transaction of a batch failed. -/
theorem ReaderInv.batchFails {e : SemanticTransactionError} {batch : SharedMessageBatch M}
    {requests : List (ReaderRequest M)} (h : s.ReaderInv)
    (hlane : s.lane = .applySharedMessageBatch batch :: requests)
    (hs' : s' = { s with lane := requests, applyReplies := s.applyReplies ++ [.error e] })
    (hlinked : ReaderLinked s'.control.reader s'.control.readerReconnectCursorInFlight s'.reader
      s'.readerRequests s'.readerEvents) : s'.ReaderInv := by
  have hle := h.batches_le
  have hbatches := h.batches
  have hcursors := h.cursors
  have horder := h.order
  have hlaneInv := h.lane
  rw [hlane] at hle hbatches hcursors horder hlaneInv
  simp only [laneBatches_apply, List.length_cons, laneCursorReads_apply] at hle hbatches hcursors
  subst hs'
  exact
    { linked := hlinked
      batches_le := by
        simp only [List.length_append, List.length_singleton]
        omega
      batches := fun hr => by
        have := hbatches hr
        simp only [List.length_append, List.length_singleton]
        omega
      cursors := hcursors
      order := (List.pairwise_cons.mp horder).2
      drain := h.drain
      applied := h.applied
      cursor_le := h.cursor_le
      lane := fun b hb => hlaneInv b (by simpa using .inr hb)
      stop := h.stop
      chain := fun _ hok => by
        have := hok (.error e) (List.mem_append_right _ (List.mem_singleton_self _))
        cases this }

/-- A turn of the reader or of the log that delivers no record. -/
theorem ReaderInv.readerTurn {reader : LogReader} {requests : List LogReaderRequest}
    {events : List (LogReaderEvent M)} {log : List (LogRecord M)} (h : s.ReaderInv)
    (hs' : s' = { s with
      reader := reader, readerRequests := requests, readerEvents := events, log := log })
    (hlinked : ReaderLinked s'.control.reader s'.control.readerReconnectCursorInFlight s'.reader
      s'.readerRequests s'.readerEvents)
    (hlog : log = s.log ∨ ∃ record, log = s.log ++ [record])
    (hchain : s.stopped = none → s.Chain → s'.Chain) : s'.ReaderInv := by
  have htake : log.take s.stableCursor = s.log.take s.stableCursor := by
    rcases hlog with rfl | ⟨record, rfl⟩
    · rfl
    · exact List.take_append_of_le_length h.cursor_le
  have hlen : s.log.length ≤ log.length := by
    rcases hlog with rfl | ⟨record, rfl⟩ <;> simp
  have hgenuine : ∀ e, Genuine s.log e → Genuine log e := by
    rcases hlog with rfl | ⟨record, rfl⟩
    · exact fun _ => id
    · exact fun e he => he.append record
  subst hs'
  exact
    { linked := hlinked
      batches_le := h.batches_le
      batches := h.batches
      cursors := h.cursors
      order := h.order
      drain := h.drain
      applied := h.applied.trans (congrArg _ htake.symm)
      cursor_le := h.cursor_le.trans hlen
      lane := fun b hb => ⟨(h.lane b hb).1, fun e he => hgenuine e ((h.lane b hb).2 e he)⟩
      stop := h.stop
      chain := fun hr hok => hchain hr (h.chain hr hok) }

/-- The reader delivered a record. -/
theorem ReaderInv.deliver {next : Nat} {record : LogRecord M} (h : s.ReaderInv)
    (hreader : s.reader = .connected next) (hlog : s.log[next]? = some record)
    (hs' : s' = { s with
      reader := .connected (next + 1)
      readerEvents := s.readerEvents ++ [.read (record.envelope next)] })
    (hlinked : ReaderLinked s'.control.reader s'.control.readerReconnectCursorInFlight s'.reader
      s'.readerRequests s'.readerEvents) : s'.ReaderInv := by
  refine h.readerTurn hs' hlinked (.inl rfl) fun hrun hchain => ?_
  have hpending : s'.pending = s.pending ++ [record.envelope next] := by
    rw [hs']
    simp [pending, eventReads]
  have hpos := hchain.position next (by rw [hreader]; rfl)
  have hreqs := h.linked.requests_eq_nil (by simp [hreader])
  have hcursor := (h.no_cursorRead hrun (.inl (by simp [hreader])))
  subst hs'
  refine ⟨?_, ?_, ?_, fun hz => absurd hz (by simp [hcursor.1]), fun n hn => ?_, fun n hn => ?_⟩
  · rw [hpending, consecutive_append]
    exact ⟨hchain.consecutive, hpos, trivial⟩
  · intro e he
    rw [hpending] at he
    rcases List.mem_append.mp he with he | he
    · exact hchain.genuine e he
    · rw [List.mem_singleton.mp he]
      exact ⟨record, hlog, rfl⟩
  · intro n hn
    rw [hpending, List.length_append, List.length_singleton]
    have : n = next + 1 := (Option.some.inj hn).symm
    rw [this, hpos, Nat.add_assoc]
  · rw [hcursor.2] at hn
    cases hn
  · rw [hreqs] at hn
    cases hn

/-- The waiting reader restarts where it was asked to. -/
theorem ReaderInv.reconnect {startAt : SequenceNumber} {requests : List LogReaderRequest}
    (h : s.ReaderInv) (hreq : s.readerRequests = .reconnect startAt :: requests)
    (hs' : s' = { s with reader := .connecting startAt, readerRequests := requests })
    (hlinked : ReaderLinked s'.control.reader s'.control.readerReconnectCursorInFlight s'.reader
      s'.readerRequests s'.readerEvents) : s'.ReaderInv := by
  refine h.readerTurn hs' hlinked (.inl rfl) fun _ hchain => ?_
  obtain ⟨hstart, hnil⟩ := hchain.asked startAt (by rw [hreq]; exact List.mem_cons_self)
  have hpending : s'.pending = s.pending := by rw [hs']; rfl
  subst hs'
  refine ⟨hpending ▸ hchain.consecutive, hpending ▸ hchain.genuine, fun n hn => ?_,
    hchain.asking, hpending ▸ hchain.answered, fun n hn => ?_⟩
  · rw [hpending, hnil]
    exact (Option.some.inj hn).symm.trans hstart
  · exact hpending ▸ hchain.asked n (by rw [hreq]; exact List.mem_cons_of_mem _ hn)

/-! ## Runs -/

/-- Every turn that restarts the reader on an empty buffer keeps the invariant. -/
theorem ReaderInv.turn (h : s.ReaderInv) (hP : s.RestartsDrained a) (ht : Turn s a s') :
    s'.ReaderInv := by
  have hlinked := linked_turn h.linked ht
  cases ht with
  | readerEvent hrun he => exact h.readerEvent hrun he rfl hlinked
  | applyReply hrun he hr => exact h.applyReply hrun he hr rfl hlinked
  | @applyStops now result replies why hrun he hr =>
    have hcount := h.batches hrun
    rw [he, List.length_cons] at hcount
    unfold onApplySharedMessageBatch at hr
    split at hr
    · omega
    · cases hr
      exact h.stops rfl (by rw [he]; exact Nat.le_succ _)
    · simp only at hr
      split_ifs at hr
  | cursorReply hrun he hr => exact h.cursorReply hrun he hr rfl hlinked
  | @cursorStops result replies why hrun he hr =>
    have hcount := h.cursors hrun
    rw [he, List.length_cons] at hcount
    unfold onReadStableCursor at hr
    split_ifs at hr with hasks
    · cases result with
      | error e =>
        cases hr
        exact h.stops rfl le_rfl
      | ok cursor =>
        simp only at hr
        split_ifs at hr
    · rw [Bool.not_eq_true] at hasks
      rw [hasks, Bool.toNat_false] at hcount
      omega
  | drain hrun harmed hr => exact h.fireDrain hrun harmed hr rfl hlinked
  | drainStops hrun harmed hr => exact absurd hr (h.onDrain_ok hrun harmed _)
  | readerReconnect hrun harmed => exact h.readerReconnect hrun hP rfl hlinked
  | @serve request requests hlane =>
    cases request with
    | applySharedMessageBatch batch => exact h.serveBatch hlane rfl hlinked
    | readStableCursor =>
      exact h.serveCursor hlane (fun n hn => (Except.ok.inj hn).symm) rfl hlinked
  | @serveFails e request requests hlane =>
    cases request with
    | applySharedMessageBatch batch => exact h.batchFails hlane rfl hlinked
    | readStableCursor => exact h.serveCursor hlane (fun n hn => by cases hn) rfl hlinked
  | @connect startAt hr =>
    refine h.readerTurn rfl hlinked (.inl rfl) fun _ hchain => ?_
    refine hchain.of_eq rfl rfl (by simp [pending, eventReads]) (fun n hn => ?_) hchain.asking
      (fun _ => id) fun _ => id
    rw [hr]
    exact hn
  | deliver hr hlog => exact h.deliver hr hlog rfl hlinked
  | disconnect hr =>
    refine h.readerTurn rfl hlinked (.inl rfl) fun _ hchain => ?_
    exact hchain.of_eq rfl rfl (by simp [pending, eventReads]) (fun n hn => absurd hn (by simp [ReaderLoop.position]))
      hchain.asking (fun _ => id) fun _ => id
  | reconnect hr hreq => exact h.reconnect hreq rfl hlinked
  | ignore hr hreq =>
    have hnil := h.linked.requests_eq_nil (by simp [hr])
    rw [hreq] at hnil
    cases hnil
  | @append record =>
    refine h.readerTurn rfl hlinked (.inr ⟨record, rfl⟩) fun _ hchain => ?_
    exact ⟨hchain.consecutive, fun e he => (hchain.genuine e he).append record, hchain.position,
      hchain.asking, hchain.answered, hchain.asked⟩
  | restart =>
    rw [h.applied]
    exact readerInv_start h.cursor_le

/-- The invariant holds along every run that restarts the reader on an empty buffer only. -/
theorem readerInv_of_reachable (h : (machine size).Reachable RestartsDrained s) : s.ReaderInv := by
  refine h.invariant ?_ fun s a s' _ hs hP hstep => hs.turn hP (turn_of_step hstep)
  rintro s ⟨log, cursor, hle, rfl⟩
  exact readerInv_start hle

/-- In every run that asks for the restart cursor only while the buffer is empty, every batch the
engine submits is contiguous and expected, and the database holds a prefix of the log. -/
theorem reads_gap_free (h : (machine size).Reachable RestartsDrained s) : s.GapFree := by
  have hinv := readerInv_of_reachable h
  exact ⟨hinv.stop, fun batch hb => (hinv.lane batch hb).1, hinv.applied⟩

/-! ## A clean reconnect and the reconnect that repeats a record -/

/-- A log of two records; a message is its number, and a byte long. -/
def sampleLog : List (LogRecord Nat) := [⟨0, ⟨[1], 0⟩, 10⟩, ⟨1, ⟨[1], 1⟩, 11⟩]

/-- The session is lost with one record in the lane; the cursor read waits behind it and the reader
restarts past it. -/
def cleanReconnectRun : List (ReaderAction Nat) :=
  [.connect, .deliver, .takeReaderEvent 0, .takeReaderEvent 0, .fireDrain, .disconnect,
    .takeReaderEvent 0, .fireReaderReconnect, .serve, .serve, .takeCursorReply, .receive, .connect,
    .deliver, .takeReaderEvent 0, .takeReaderEvent 0, .takeApplyReply 1, .fireDrain, .serve]

instance (s : ReaderLoop Nat fun _ => 1) (a : ReaderAction Nat) : Decidable (s.RestartsDrained a) :=
  match a with
  | .fireReaderReconnect => inferInstanceAs (Decidable (_ → _ → _))
  | .takeReaderEvent _ | .takeApplyReply _ | .takeCursorReply | .fireDrain | .serve | .serveFails _
  | .connect | .deliver | .disconnect | .receive | .append _ | .restart =>
    inferInstanceAs (Decidable True)

theorem reads_gap_free_cleanReconnectRun : ∃ s : ReaderLoop Nat fun _ => 1,
    (machine fun _ => 1).exec (start 0 [] sampleLog) cleanReconnectRun = some s ∧
      s.stableCursor = 2 ∧ s.GapFree := by
  have hmeets : (machine fun _ => 1).Meets RestartsDrained (start 0 [] sampleLog)
      cleanReconnectRun := by decide
  have hcursor : ((machine fun _ => 1).exec (start 0 [] sampleLog) cleanReconnectRun).map
      ReaderLoop.stableCursor = some 2 := by decide
  obtain ⟨s, hs, hcursor⟩ := Option.map_eq_some_iff.mp hcursor
  have hinit : (machine fun _ : Nat => 1).initial (start 0 [] sampleLog) :=
    ⟨sampleLog, 0, Nat.zero_le _, rfl⟩
  have hreach := Machine.Reachable.exec (.init hinit) hmeets hs
  exact ⟨s, hs, hcursor, reads_gap_free hreach⟩

/-- The session is lost with one record in the lane and the next one in the buffer; the reader
restarts at the record in the buffer. -/
def bufferedReconnectRun : List (ReaderAction Nat) :=
  [.connect, .deliver, .deliver, .takeReaderEvent 0, .takeReaderEvent 0, .fireDrain,
    .takeReaderEvent 0, .disconnect, .takeReaderEvent 0, .fireReaderReconnect, .serve, .serve,
    .takeCursorReply, .receive, .connect, .deliver, .takeReaderEvent 0, .takeReaderEvent 0,
    .takeApplyReply 1, .fireDrain]

/-- Not every run reads the log without repetition: after `bufferedReconnectRun` the engine stops
over a batch that holds one record twice. -/
theorem not_reads_gap_free : ¬∀ s : ReaderLoop Nat fun _ => 1,
    (machine fun _ => 1).Reached s → s.GapFree := by
  intro h
  have hstop : ((machine fun _ => 1).exec (start 0 [] sampleLog) bufferedReconnectRun).map
      ReaderLoop.stopped = some (some (.batch "sequence numbers not contiguous")) := by decide
  obtain ⟨s, hs, hstop⟩ := Option.map_eq_some_iff.mp hstop
  have hinit : (machine fun _ : Nat => 1).initial (start 0 [] sampleLog) :=
    ⟨sampleLog, 0, Nat.zero_le _, rfl⟩
  have hreach := Machine.reached_of_exec hinit hs
  exact (h s hreach).stop.1 _ hstop

end ReaderLoop

end Opbox
