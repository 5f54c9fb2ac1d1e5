import Opbox.Crdt.Snapshots
import Opbox.Engine.SharedMessageBuffer
import Opbox.Foundation.Machine
import Opbox.Semantic.Batch

/-!
# Cloning: the shared log is pulled into an empty database

Before a clone projects anything it applies the shared log (`engine/clone.rs`), up to a bound of the
reader or up to the tail the log had when the clone started.  The two loops are one machine here;
the reader is any reader that delivers the records of the log in order from the first, with its
other events in any order, and the semantic actor is the transaction on the database.
-/

namespace Opbox

variable {D : Type} [TextCrdt D]

/-- `MAX_SHARED_MESSAGE_BUFFER_MS`. -/
def maxSharedMessageBufferMs : Nat := 500

/-- The sequence number after the last buffered message. -/
def SharedMessageBuffer.lastSequenceEnd {M : Type} {size : M → Nat}
    (b : SharedMessageBuffer M size) : Option SequenceNumber :=
  b.envelopes.getLast?.map (·.sequenceNumber + 1)

/-- `LogReaderEvent`, with the events that only a clone takes. -/
inductive CloneReaderEvent (M : Type) where
  | connected
  | disconnected (reason : String)
  | status (tail : SequenceNumber)
  | read (envelope : SharedMessageEnvelope M)
  | ended (cursor : SequenceNumber)

/-- The record of a read. -/
def CloneReaderEvent.read? {M : Type} : CloneReaderEvent M → Option (SharedMessageEnvelope M)
  | .read envelope => some envelope
  | _ => none

/-- The tail of a status. -/
def CloneReaderEvent.tail? {M : Type} : CloneReaderEvent M → Option SequenceNumber
  | .status tail => some tail
  | _ => none

/-- The records some events deliver. -/
def readsOf {M : Type} (events : List (CloneReaderEvent M)) : List (SharedMessageEnvelope M) :=
  events.filterMap CloneReaderEvent.read?

/-- Which of the two loops runs. -/
inductive CloneBound where
  /-- `pull_shared_log_to_reader_end`: the log reader stops at a bound. -/
  | readerEnd
  /-- `pull_shared_log_to_start_tail`. -/
  | startTail
  deriving DecidableEq, Repr

/-- What a loop says when the reader is gone. -/
def CloneBound.readerStoppedText : CloneBound → String
  | .readerEnd => "log reader stopped while clone waited for read bound"
  | .startTail => "log reader stopped while clone waited for shared log"

/-- Why a clone fails. -/
inductive CloneError where
  /-- The clone bails. -/
  | report (text : String)
  /-- The transaction of a batch has failed. -/
  | semantic (e : SemanticTransactionError)

/-- Where the clone is. -/
inductive ClonePhase (D : Type) [TextCrdt D] where
  /-- At the head of the loop. -/
  | pulling
  /-- In `flush_shared_message_buffer`, with the batch handed to the semantic actor; a flush for an
  `Ended` event ends the loop at its cursor. -/
  | flushing (nextEnd : SequenceNumber) (batch : SharedMessageBatch (SharedMessage D))
    (ended : Option SequenceNumber)
  /-- The loop has returned this cursor. -/
  | returned (cursor : SequenceNumber)
  /-- The clone has failed. -/
  | failed (why : CloneError)
  /-- The flush assertion was hit. -/
  | panicked

/-- The cursor the loop has returned, if it has. -/
def ClonePhase.returned? : ClonePhase D → Option SequenceNumber
  | .returned cursor => some cursor
  | _ => none

theorem ClonePhase.of_returned? {phase : ClonePhase D} {cursor : SequenceNumber}
    (h : phase.returned? = some cursor) : phase = .returned cursor := by
  cases phase with
  | returned n =>
    cases h
    rfl
  | pulling | flushing | failed | panicked => cases h

/-- What the head of a loop decides. -/
inductive CloneHead where
  /-- Return this cursor. -/
  | finish (cursor : SequenceNumber)
  /-- Flush the buffer. -/
  | flush
  /-- Wait for the deadline of the buffer or for an event. -/
  | wait

/-- A clone that pulls the shared log. -/
structure CloneLoop (D : Type) [TextCrdt D] (size : SharedMessage D → Nat) where
  /-- Which loop runs. -/
  bound : CloneBound
  /-- Where it is. -/
  phase : ClonePhase D
  /-- `target_tail`. -/
  targetTail : Option SequenceNumber
  /-- `applied_end`. -/
  appliedEnd : SequenceNumber
  /-- `buffer`. -/
  buffer : SharedMessageBuffer (SharedMessage D) size
  /-- The database of the semantic actor. -/
  db : Db D
  /-- Reader events the clone has not taken. -/
  events : List (CloneReaderEvent (SharedMessage D))
  /-- History: the reader events it has taken, oldest first. -/
  taken : List (CloneReaderEvent (SharedMessage D))
  /-- History: the batches handed to the semantic actor, oldest first. -/
  handed : List (SharedMessageBatch (SharedMessage D))
  /-- History: the records applied to the database, oldest first. -/
  applied : List (SharedMessageEnvelope (SharedMessage D))

/-- One turn of one of the tasks. -/
inductive CloneAction (D : Type) [TextCrdt D] where
  /-- The head of the loop returns or flushes. -/
  | turn
  /-- The deadline of the buffer has passed. -/
  | deadline (now : Nat)
  /-- The clone takes a reader event. -/
  | takeEvent (now : Nat)
  /-- The reader is gone, and its events are taken. -/
  | readerStopped
  /-- The semantic actor applies the batch. -/
  | serve
  /-- The transaction of the batch fails for a reason of its own, or the actor has stopped. -/
  | serveFails (why : CloneError)
  /-- The reader sends an event. -/
  | emit (event : CloneReaderEvent (SharedMessage D))

namespace CloneLoop

variable {size : SharedMessage D → Nat}

/-- A clone on a database that has just been created. -/
def start (bound : CloneBound) (db : Db D) : CloneLoop D size :=
  { bound := bound
    phase := .pulling
    targetTail := none
    appliedEnd := 0
    buffer := .new
    db := db
    events := []
    taken := []
    handed := []
    applied := [] }

/-- The records the reader has delivered. -/
def delivered (s : CloneLoop D size) : List (SharedMessageEnvelope (SharedMessage D)) :=
  readsOf (s.taken ++ s.events)

/-- The checks at the head of a loop. -/
def head (s : CloneLoop D size) : CloneHead :=
  match s.bound, s.targetTail with
  | .startTail, some tail =>
    if tail ≤ s.appliedEnd then .finish s.appliedEnd
    else if s.buffer.lastSequenceEnd.any fun bufferedEnd => tail ≤ bufferedEnd then .flush
    else if s.buffer.hasCapacity then .wait
    else .flush
  | _, _ => if s.buffer.hasCapacity then .wait else .flush

/-- `flush_shared_message_buffer`, until the batch is handed over. -/
def flush (s : CloneLoop D size) (ended : Option SequenceNumber) : CloneLoop D size :=
  match s.buffer.lastSequenceEnd with
  | none => { s with phase := .panicked }
  | some nextEnd =>
    match SharedMessageBatch.tryFrom s.buffer.drain.1 with
    | .error why => { s with buffer := s.buffer.drain.2, phase := .failed (.report why) }
    | .ok batch =>
      { s with
        buffer := s.buffer.drain.2
        phase := .flushing nextEnd batch ended
        handed := s.handed ++ [batch] }

/-- The bounded loop ends if everything below the bound is applied. -/
def finishEnded (s : CloneLoop D size) (cursor : SequenceNumber) : CloneLoop D size :=
  if s.appliedEnd ≠ cursor then
    let appliedEnd := s.appliedEnd
    { s with
      phase := .failed (.report
        s!"clone bounded read ended at cursor ..{cursor}, but applied cursor is ..{appliedEnd}") }
  else { s with phase := .returned cursor }

/-- The handler of a reader event: the match of the bounded loop, or `handle_log_reader_event`. -/
def onEvent (s : CloneLoop D size) (now : Nat) :
    CloneReaderEvent (SharedMessage D) → CloneLoop D size
  | .connected => s
  | .disconnected reason =>
    { s with phase := .failed (.report s!"log reader disconnected during clone: {reason}") }
  | .status tail =>
    match s.bound with
    | .readerEnd =>
      { s with
        phase := .failed (.report
          s!"clone received unexpected log reader status for bounded read; tail=..{tail}") }
    | .startTail => { s with targetTail := some tail }
  | .read envelope => { s with buffer := s.buffer.insert now envelope }
  | .ended cursor =>
    match s.bound with
    | .readerEnd =>
      if s.buffer.envelopes = [] then s.finishEnded cursor else s.flush (some cursor)
    | .startTail =>
      { s with
        phase := .failed (.report s!"clone received unexpected bounded read end: ..{cursor}") }

/-- The flush has been answered. -/
def flushed (s : CloneLoop D size) (nextEnd : SequenceNumber) :
    Option SequenceNumber → CloneLoop D size
  | none => { s with appliedEnd := nextEnd, phase := .pulling }
  | some cursor => ({ s with appliedEnd := nextEnd }).finishEnded cursor

/-- The reader may send the event: records are delivered in order, from the first of the log. -/
def MayEmit (s : CloneLoop D size) (event : CloneReaderEvent (SharedMessage D)) : Prop :=
  ∀ envelope ∈ event.read?, envelope.sequenceNumber = s.delivered.length

instance (s : CloneLoop D size) (event : CloneReaderEvent (SharedMessage D)) :
    Decidable (s.MayEmit event) :=
  inferInstanceAs (Decidable (∀ envelope ∈ event.read?, _))

/-- One turn. -/
def step (s : CloneLoop D size) : CloneAction D → Option (CloneLoop D size)
  | .turn =>
    match s.phase, s.head with
    | .pulling, .finish cursor => some { s with phase := .returned cursor }
    | .pulling, .flush => some (s.flush none)
    | _, _ => none
  | .deadline now =>
    match s.phase, s.head, s.buffer.nextFireAt maxSharedMessageBufferMs now with
    | .pulling, .wait, some deadline => if deadline ≤ now then some (s.flush none) else none
    | _, _, _ => none
  | .takeEvent now =>
    match s.phase, s.head, s.events with
    | .pulling, .wait, event :: events =>
      some (({ s with events := events, taken := s.taken ++ [event] }).onEvent now event)
    | _, _, _ => none
  | .readerStopped =>
    match s.phase, s.head, s.events with
    | .pulling, .wait, [] =>
      some { s with phase := .failed (.report s.bound.readerStoppedText) }
    | _, _, _ => none
  | .serve =>
    match s.phase with
    | .flushing nextEnd batch ended =>
      match (applySharedMessageBatchTx batch).run s.db with
      | .ok (_, db) =>
        some (({ s with db := db, applied := s.applied ++ batch.messages }).flushed nextEnd ended)
      | .error e => some { s with phase := .failed (.semantic e) }
    | _ => none
  | .serveFails why =>
    match s.phase with
    | .flushing _ _ _ => some { s with phase := .failed why }
    | _ => none
  | .emit event => if s.MayEmit event then some { s with events := s.events ++ [event] } else none

/-- A clone as a machine. -/
def machine (size : SharedMessage D → Nat) (bound : CloneBound) (db : Db D) :
    Machine (CloneLoop D size) (CloneAction D) where
  initial s := s = start bound db
  step := step

/-! ## What the clone has done -/

/-- What a clone that has returned the cursor `n` has done to the database `db` it started on. -/
structure ReturnedPrefix (db : Db D) (s : CloneLoop D size) (n : SequenceNumber) : Prop where
  /-- The database is at the returned cursor. -/
  cursor : s.db.stableCursor = n
  /-- The records below it have been delivered. -/
  delivered : n ≤ s.delivered.length
  /-- They have been applied, in order and once, and no others. -/
  applied : s.applied = s.delivered.take n
  /-- They were handed over in the batches. -/
  handed : recordsOf s.handed = s.delivered.take n
  /-- The stable documents hold their operations, and no others. -/
  content : s.db.stableOps =
    db.stableOps ∪ messageOps (foreignMessages db.writerId (s.delivered.take n))
  /-- Without a bound, the cursor is not below the tail that was captured. -/
  tail : s.bound = .startTail →
    ∃ tail, (s.taken.filterMap CloneReaderEvent.tail?).getLast? = some tail ∧ tail ≤ n
  /-- With a bound, everything that was delivered before the end has been applied. -/
  ended : s.bound = .readerEnd →
    ∃ before, s.taken = before ++ [.ended n] ∧ s.applied = readsOf before

theorem readsOf_append {M : Type} {events events' : List (CloneReaderEvent M)} :
    readsOf (events ++ events') = readsOf events ++ readsOf events' := List.filterMap_append

/-- The last of consecutive envelopes ends where they end. -/
theorem lastSequenceEnd_of_consecutive {M : Type} {size : M → Nat}
    {b : SharedMessageBuffer M size} {first : SequenceNumber} (h : Consecutive first b.envelopes) (hne : b.envelopes ≠ []) :
    b.lastSequenceEnd = some (first + b.envelopes.length) := by
  have hb := List.dropLast_append_getLast hne
  generalize b.envelopes.getLast hne = last at hb
  generalize b.envelopes.dropLast = before at hb
  rw [← hb, consecutive_append] at h
  rw [SharedMessageBuffer.lastSequenceEnd, ← hb, List.getLast?_concat, Option.map_some, h.2.1,
    List.length_append]
  rfl

theorem envelopes_ne_nil_of_full {M : Type} {size : M → Nat} {b : SharedMessageBuffer M size}
    (h : b.hasCapacity = false) : b.envelopes ≠ [] := by
  intro hnil
  have hsize : b.sizeBytes = 0 := by rw [b.size_eq, hnil]; rfl
  rw [SharedMessageBuffer.hasCapacity, hsize] at h
  exact absurd h (by decide)

/-! ## The invariant -/

section Invariant

variable {db : Db D} {s s' : CloneLoop D size}

/-- At the head of the loop: what was taken is applied or buffered. -/
structure Pulling (s : CloneLoop D size) : Prop where
  /-- `applied_end` is the number of records applied. -/
  appliedEnd : s.appliedEnd = s.applied.length
  /-- Every batch has been applied. -/
  handed : recordsOf s.handed = s.applied
  /-- What was taken is applied or buffered. -/
  taken : readsOf s.taken = s.applied ++ s.buffer.envelopes

/-- During a flush: what was taken is applied or in the batch. -/
structure Flushing (s : CloneLoop D size) (nextEnd : SequenceNumber)
    (batch : SharedMessageBatch (SharedMessage D)) (ended : Option SequenceNumber) : Prop where
  /-- The buffer has been drained. -/
  buffer : s.buffer.envelopes = []
  /-- Every batch but this one has been applied. -/
  handed : recordsOf s.handed = s.applied ++ batch.messages
  /-- What was taken is applied or in the batch. -/
  taken : readsOf s.taken = s.applied ++ batch.messages
  /-- The batch starts after what is applied. -/
  first : batch.first = s.applied.length
  /-- The clone knows where the batch ends. -/
  nextEnd : nextEnd = batch.next
  /-- A flush at the end is for the event that was taken last. -/
  ended : ∀ cursor ∈ ended, s.bound = .readerEnd ∧ ∃ before, s.taken = before ++ [.ended cursor]

/-- What holds in the phase of the clone. -/
def PhaseInv (db : Db D) (s : CloneLoop D size) : Prop :=
  match s.phase with
  | .pulling => s.Pulling
  | .flushing nextEnd batch ended => s.Flushing nextEnd batch ended
  | .returned n => s.ReturnedPrefix db n
  | .failed _ => True
  | .panicked => False

/-- What holds in every state of a clone that was started on `db`. -/
structure Inv (db : Db D) (s : CloneLoop D size) : Prop where
  /-- The records are delivered in order. -/
  delivered : Consecutive 0 s.delivered
  /-- The batches follow each other. -/
  chained : BatchesFrom 0 s.handed
  /-- The database is at the number of records applied. -/
  cursor : s.db.stableCursor = s.applied.length
  /-- It keeps its writer. -/
  writer : s.db.writerId = db.writerId
  /-- It holds the operations of the records applied. -/
  content : s.db.stableOps = db.stableOps ∪ messageOps (foreignMessages db.writerId s.applied)
  /-- The target is the tail captured last. -/
  target : s.bound = .startTail →
    s.targetTail = (s.taken.filterMap CloneReaderEvent.tail?).getLast?
  /-- What holds in the phase of the clone. -/
  phase : s.PhaseInv db

/-- A loop flushes only what it has buffered. -/
theorem envelopes_ne_nil_of_head (h : s.head = .flush) : s.buffer.envelopes ≠ [] := by
  unfold head at h
  split at h
  · next tail htail =>
    split_ifs at h with happlied hbuffered hcap
    · intro hnil
      simp [SharedMessageBuffer.lastSequenceEnd, hnil] at hbuffered
    · exact envelopes_ne_nil_of_full (Bool.eq_false_iff.mpr hcap)
  · split_ifs at h with hcap
    exact envelopes_ne_nil_of_full (Bool.eq_false_iff.mpr hcap)

/-- A loop returns what it has applied, once it has reached the target. -/
theorem of_head_finish {n : SequenceNumber} (h : s.head = .finish n) :
    s.bound = .startTail ∧ s.appliedEnd = n ∧ ∃ tail, s.targetTail = some tail ∧ tail ≤ n := by
  unfold head at h
  split at h
  · next tail hbound htail =>
    split_ifs at h with happlied
    cases h
    exact ⟨hbound, rfl, tail, htail, happlied⟩
  · split_ifs at h

theorem Pulling.buffered (h : s.Pulling) (hd : Consecutive 0 s.delivered) :
    Consecutive s.applied.length s.buffer.envelopes := by
  rw [CloneLoop.delivered, readsOf_append, h.taken, List.append_assoc, consecutive_append,
    consecutive_append, Nat.zero_add] at hd
  exact hd.2.1

/-- A flush of a non-empty buffer hands its messages over as one batch. -/
theorem Inv.flush {ended : Option SequenceNumber} (h : s.Inv db) (hp : s.Pulling)
    (hne : s.buffer.envelopes ≠ [])
    (hended : ∀ cursor ∈ ended, s.bound = .readerEnd ∧ ∃ before, s.taken = before ++ [.ended cursor]) :
    (s.flush ended).Inv db := by
  have hconsecutive := hp.buffered h.delivered
  obtain ⟨batch, hbatch, hfirst, hmessages⟩ :=
    SharedMessageBatch.tryFrom_of_consecutive hne hconsecutive
  have hflush : s.flush ended =
      { s with
        buffer := .new
        phase := .flushing (s.applied.length + s.buffer.envelopes.length) batch ended
        handed := s.handed ++ [batch] } := by
    rw [CloneLoop.flush, lastSequenceEnd_of_consecutive hconsecutive hne]
    simp only [SharedMessageBuffer.drain, hbatch]
  rw [hflush]
  refine ⟨h.delivered, ?_, h.cursor, h.writer, h.content, h.target, ?_⟩
  · rw [batchesFrom_append, hp.handed, Nat.zero_add]
    exact ⟨h.chained, hfirst, trivial⟩
  · refine ⟨rfl, ?_, ?_, hfirst, ?_, hended⟩
    · rw [recordsOf_append, hp.handed]
      simp [recordsOf]
    · rw [hmessages]
      exact hp.taken
    · rw [SharedMessageBatch.next, hfirst, hmessages]

/-- The end of the bounded loop: it returns only what it has applied. -/
theorem Inv.finishEnded {cursor : SequenceNumber} (h : s.Inv db) (hp : s.Pulling)
    (hempty : s.buffer.envelopes = []) (hbound : s.bound = .readerEnd)
    (hended : ∃ before, s.taken = before ++ [.ended cursor]) : (s.finishEnded cursor).Inv db := by
  unfold CloneLoop.finishEnded
  split_ifs with hne
  · exact ⟨h.delivered, h.chained, h.cursor, h.writer, h.content, h.target, trivial⟩
  rw [not_not] at hne
  refine ⟨h.delivered, h.chained, h.cursor, h.writer, h.content, h.target, ?_⟩
  have hn : cursor = s.applied.length := hne.symm.trans hp.appliedEnd
  have htaken : readsOf s.taken = s.applied := by rw [hp.taken, hempty, List.append_nil]
  have htake : s.delivered.take cursor = s.applied := by
    rw [CloneLoop.delivered, readsOf_append, htaken, hn, List.take_left]
  refine ⟨h.cursor.trans hn.symm, ?_, htake.symm, hp.handed.trans htake.symm, ?_, fun hstart => ?_,
    fun _ => ?_⟩
  · show cursor ≤ s.delivered.length
    rw [CloneLoop.delivered, readsOf_append, htaken, List.length_append, hn]
    exact Nat.le_add_right _ _
  · show s.db.stableOps = db.stableOps ∪ messageOps (foreignMessages db.writerId (s.delivered.take _))
    rw [htake]
    exact h.content
  · cases hbound.symm.trans hstart
  · obtain ⟨before, hbefore⟩ := hended
    refine ⟨before, hbefore, ?_⟩
    have hreads : readsOf (before ++ [.ended cursor]) = readsOf before := by
      rw [readsOf_append]
      exact List.append_nil _
    rw [← hreads, ← hbefore]
    exact htaken.symm

/-- A clone that only changes its phase, to a failure. -/
theorem Inv.fail (h : s.Inv db) (why : CloneError) : ({ s with phase := .failed why }).Inv db :=
  ⟨h.delivered, h.chained, h.cursor, h.writer, h.content, h.target, trivial⟩

theorem Inv.pulling (h : s.Inv db) (hphase : s.phase = .pulling) : s.Pulling := by
  have hphaseInv := h.phase
  rwa [PhaseInv, hphase] at hphaseInv

theorem Pulling.phaseInv (h : s.Pulling) (hphase : s.phase = .pulling) : s.PhaseInv db := by
  rwa [PhaseInv, hphase]

theorem finishEnded_phase (phase : ClonePhase D) (cursor : SequenceNumber) :
    ({ s with phase := phase }).finishEnded cursor = s.finishEnded cursor := by
  unfold CloneLoop.finishEnded
  split_ifs <;> rfl

/-- The reader sends an event. -/
theorem Inv.emit {event : CloneReaderEvent (SharedMessage D)} (h : s.Inv db)
    (hmay : s.MayEmit event) : Inv db { s with events := s.events ++ [event] } := by
  have hdelivered : CloneLoop.delivered { s with events := s.events ++ [event] } =
      s.delivered ++ event.read?.toList := by
    rw [CloneLoop.delivered, CloneLoop.delivered, ← List.append_assoc, readsOf_append]
    congr 1
  have hconsecutive : Consecutive 0 (CloneLoop.delivered { s with events := s.events ++ [event] }) := by
    rw [hdelivered, consecutive_append, Nat.zero_add]
    refine ⟨h.delivered, ?_⟩
    cases hread : event.read? with
    | none => trivial
    | some envelope => exact ⟨hmay envelope hread, trivial⟩
  refine ⟨hconsecutive, h.chained, h.cursor, h.writer, h.content, h.target, ?_⟩
  have hphase := h.phase
  unfold PhaseInv at hphase ⊢
  cases hcase : s.phase with
  | pulling =>
    rw [hcase] at hphase
    exact ⟨hphase.appliedEnd, hphase.handed, hphase.taken⟩
  | flushing nextEnd batch ended =>
    rw [hcase] at hphase
    exact ⟨hphase.buffer, hphase.handed, hphase.taken, hphase.first, hphase.nextEnd, hphase.ended⟩
  | returned n =>
    rw [hcase] at hphase
    -- the records below the cursor are already delivered
    have htake : (s.delivered ++ event.read?.toList).take n = s.delivered.take n :=
      List.take_append_of_le_length hphase.delivered
    have hle : n ≤ (s.delivered ++ event.read?.toList).length := by
      rw [List.length_append]
      exact Nat.le_add_right_of_le hphase.delivered
    rw [← hdelivered] at htake hle
    exact ⟨hphase.cursor, hle, hphase.applied.trans htake.symm, hphase.handed.trans htake.symm,
      hphase.content.trans (htake ▸ rfl), hphase.tail, hphase.ended⟩
  | failed why => trivial
  | panicked =>
    rw [hcase] at hphase
    exact hphase

/-- The clone takes an event. -/
theorem Inv.takeEvent {event : CloneReaderEvent (SharedMessage D)}
    {events : List (CloneReaderEvent (SharedMessage D))} {now : Nat} (h : s.Inv db)
    (hphase : s.phase = .pulling) (he : s.events = event :: events) :
    (({ s with events := events, taken := s.taken ++ [event] }).onEvent now event).Inv db := by
  have hp := h.pulling hphase
  have hdelivered : readsOf ((s.taken ++ [event]) ++ events) = s.delivered := by
    rw [CloneLoop.delivered, he, List.append_assoc]
    rfl
  have hconsecutive : Consecutive 0 (readsOf ((s.taken ++ [event]) ++ events)) :=
    hdelivered ▸ h.delivered
  have htail : event.tail? = none → s.bound = .startTail →
      s.targetTail = ((s.taken ++ [event]).filterMap CloneReaderEvent.tail?).getLast? := by
    intro hnone hbound
    rw [h.target hbound, List.filterMap_append, List.filterMap_cons_none hnone]
    simp
  have hreads : event.read? = none → readsOf (s.taken ++ [event]) = readsOf s.taken := by
    intro hnone
    rw [readsOf_append, readsOf, readsOf, List.filterMap_cons_none hnone]
    simp
  cases event with
  | connected =>
    refine ⟨hconsecutive, h.chained, h.cursor, h.writer, h.content, htail rfl, ?_⟩
    exact Pulling.phaseInv ⟨hp.appliedEnd, hp.handed, (hreads rfl).trans hp.taken⟩ hphase
  | disconnected reason =>
    exact ⟨hconsecutive, h.chained, h.cursor, h.writer, h.content, htail rfl, trivial⟩
  | status tail =>
    simp only [onEvent]
    split
    · next hbound =>
      refine ⟨hconsecutive, h.chained, h.cursor, h.writer, h.content, fun hstart => ?_, trivial⟩
      exact absurd (hbound.symm.trans hstart) nofun
    · refine ⟨hconsecutive, h.chained, h.cursor, h.writer, h.content, fun _ => ?_, ?_⟩
      · show some tail =
          ((s.taken ++ [CloneReaderEvent.status tail]).filterMap CloneReaderEvent.tail?).getLast?
        rw [List.filterMap_append]
        exact List.getLast?_concat.symm
      · exact Pulling.phaseInv ⟨hp.appliedEnd, hp.handed, (hreads rfl).trans hp.taken⟩ hphase
  | read envelope =>
    refine ⟨hconsecutive, h.chained, h.cursor, h.writer, h.content, htail rfl, ?_⟩
    refine Pulling.phaseInv ⟨hp.appliedEnd, hp.handed, ?_⟩ hphase
    show readsOf (s.taken ++ [.read envelope]) = s.applied ++ (s.buffer.envelopes ++ [envelope])
    rw [readsOf_append, hp.taken, List.append_assoc]
    rfl
  | ended cursor =>
    have hp' : Pulling { s with events := events, taken := s.taken ++ [.ended cursor] } :=
      ⟨hp.appliedEnd, hp.handed, (hreads rfl).trans hp.taken⟩
    have hs : Inv db { s with events := events, taken := s.taken ++ [.ended cursor] } :=
      ⟨hconsecutive, h.chained, h.cursor, h.writer, h.content, htail rfl, hp'.phaseInv hphase⟩
    simp only [onEvent]
    split
    · next hbound =>
      split_ifs with hempty
      · exact hs.finishEnded hp' hempty hbound ⟨s.taken, rfl⟩
      · refine hs.flush hp' hempty fun cursor' hcursor => ⟨hbound, s.taken, ?_⟩
        rw [Option.mem_some_iff] at hcursor
        rw [hcursor]
    · exact hs.fail _

/-- The semantic actor has applied the batch of a flush. -/
theorem Inv.serve {nextEnd : SequenceNumber} {batch : SharedMessageBatch (SharedMessage D)}
    {ended : Option SequenceNumber} {effects : SemanticEffects} {db' : Db D} (h : s.Inv db)
    (hphase : s.phase = .flushing nextEnd batch ended)
    (hrun : (applySharedMessageBatchTx batch).run s.db = .ok (effects, db')) :
    (({ s with db := db', applied := s.applied ++ batch.messages }).flushed nextEnd ended).Inv
      db := by
  have hf : s.Flushing nextEnd batch ended := by
    have hphaseInv := h.phase
    rwa [PhaseInv, hphase] at hphaseInv
  obtain ⟨docs, happlied, -, -⟩ := runs_applySharedMessageBatchTx hrun
  have hwriter : db'.writerId = db.writerId := by
    rw [happlied.eq]
    exact h.writer
  have hnext : batch.next = (s.applied ++ batch.messages).length := by
    rw [SharedMessageBatch.next, hf.first, List.length_append]
  have hcursor : db'.stableCursor = (s.applied ++ batch.messages).length := by
    rw [happlied.eq]
    exact hnext
  have hcontent : db'.stableOps =
      db.stableOps ∪ messageOps (foreignMessages db.writerId (s.applied ++ batch.messages)) := by
    rw [happlied.stableOps, h.content, h.writer, Set.union_assoc, ← messageOps_append]
    simp only [foreignMessages, List.filter_append, List.map_append]
  have hp : Pulling
      ({ s with
        db := db'
        applied := s.applied ++ batch.messages
        appliedEnd := nextEnd
        phase := .pulling } : CloneLoop D size) := by
    refine ⟨hf.nextEnd.trans hnext, hf.handed, ?_⟩
    show readsOf s.taken = (s.applied ++ batch.messages) ++ s.buffer.envelopes
    rw [hf.buffer, List.append_nil]
    exact hf.taken
  cases ended with
  | none => exact ⟨h.delivered, h.chained, hcursor, hwriter, hcontent, h.target, hp⟩
  | some cursor =>
    obtain ⟨hbound, hended⟩ := hf.ended cursor rfl
    have hs : Inv db
        ({ s with
          db := db'
          applied := s.applied ++ batch.messages
          appliedEnd := nextEnd
          phase := .pulling } : CloneLoop D size) :=
      ⟨h.delivered, h.chained, hcursor, hwriter, hcontent, h.target, hp⟩
    rw [flushed, ← finishEnded_phase .pulling]
    exact hs.finishEnded hp hf.buffer hbound hended

theorem inv_start {bound : CloneBound} (hcursor : db.stableCursor = 0) :
    (start bound db : CloneLoop D size).Inv db where
  delivered := trivial
  chained := trivial
  cursor := hcursor
  writer := rfl
  content := by simp [start, foreignMessages]
  target := fun _ => rfl
  phase := ⟨rfl, rfl, rfl⟩

/-- Every turn keeps the invariant. -/
theorem Inv.step {a : CloneAction D} (h : s.Inv db) (hstep : s.step a = some s') : s'.Inv db := by
  cases a with
  | turn =>
    simp only [CloneLoop.step] at hstep
    split at hstep
    · next n hphase hhead =>
      cases hstep
      have hp := h.pulling hphase
      obtain ⟨hbound, hend, tail, htail, hle⟩ := of_head_finish hhead
      have hn : n = s.applied.length := hend.symm.trans hp.appliedEnd
      have htake : s.delivered.take n = s.applied := by
        rw [CloneLoop.delivered, readsOf_append, hp.taken, List.append_assoc, hn, List.take_left]
      refine ⟨h.delivered, h.chained, h.cursor, h.writer, h.content, h.target, ?_⟩
      refine ⟨h.cursor.trans hn.symm, ?_, htake.symm, hp.handed.trans htake.symm, ?_, fun _ => ?_,
        fun hended => ?_⟩
      · show n ≤ s.delivered.length
        rw [CloneLoop.delivered, readsOf_append, hp.taken, List.append_assoc, List.length_append, hn]
        exact Nat.le_add_right _ _
      · show s.db.stableOps =
          db.stableOps ∪ messageOps (foreignMessages db.writerId (s.delivered.take n))
        rw [htake]
        exact h.content
      · exact ⟨tail, (h.target hbound).symm.trans htail, hle⟩
      · exact absurd (hbound.symm.trans hended) nofun
    · next hphase hhead =>
      cases hstep
      exact h.flush (h.pulling hphase) (envelopes_ne_nil_of_head hhead) nofun
    · cases hstep
  | deadline now =>
    simp only [CloneLoop.step] at hstep
    split at hstep
    · next deadline hphase hhead hfire =>
      split_ifs at hstep
      cases hstep
      refine h.flush (h.pulling hphase) (fun hnil => ?_) nofun
      rw [SharedMessageBuffer.nextFireAt_eq_none_iff.mpr hnil] at hfire
      cases hfire
    · cases hstep
  | takeEvent now =>
    simp only [CloneLoop.step] at hstep
    split at hstep
    · next hphase hhead he =>
      cases hstep
      exact h.takeEvent hphase he
    · cases hstep
  | readerStopped =>
    simp only [CloneLoop.step] at hstep
    split at hstep <;> cases hstep
    exact h.fail _
  | serve =>
    simp only [CloneLoop.step] at hstep
    split at hstep
    · next hphase =>
      split at hstep <;> cases hstep
      · next hrun => exact h.serve hphase hrun
      · exact h.fail _
    · cases hstep
  | serveFails why =>
    simp only [CloneLoop.step] at hstep
    split at hstep <;> cases hstep
    exact h.fail _
  | emit event =>
    simp only [CloneLoop.step] at hstep
    split_ifs at hstep with hmay
    cases hstep
    exact h.emit hmay

/-- In every run of a clone on an empty database every batch handed to the semantic actor starts
where the one before it ended, the flush assertion is not hit, and a clone that returns `..n` has
applied the records below `n`, each once: at least those below the tail it captured, or all that
were delivered before the end of a bounded read. -/
theorem applies_returned_prefix {bound : CloneBound} (hdb : db.stableCursor = 0)
    (h : (machine size bound db).Reached s) :
    BatchesFrom 0 s.handed ∧ s.phase ≠ .panicked ∧
      ∀ n, s.phase = .returned n → s.ReturnedPrefix db n := by
  have hs : s.Inv db := by
    refine h.invariant ?_ fun s a s' _ hs _ hstep => hs.step hstep
    rintro s rfl
    exact inv_start hdb
  refine ⟨hs.chained, fun hpanicked => ?_, fun n hn => ?_⟩
  · have hphase := hs.phase
    rwa [PhaseInv, hpanicked] at hphase
  · have hphase := hs.phase
    rwa [PhaseInv, hn] at hphase

end Invariant

section Run

open Snapshots

/-- A log of two namespace updates. -/
def sampleEnvelope (n : Nat) : SharedMessageEnvelope (SharedMessage Doc) :=
  ⟨n, n, ⟨[9], n + 1⟩, .namespaceUpdate ∅⟩

/-- The tail is captured after one record; two records are applied, by the deadline and at the
tail. -/
def startTailRun : List (CloneAction Doc) :=
  [.emit .connected, .emit (.read (sampleEnvelope 0)), .takeEvent 0, .takeEvent 1, .deadline 700,
    .serve, .emit (.status 2), .emit (.read (sampleEnvelope 1)), .takeEvent 701, .takeEvent 702,
    .turn, .serve, .turn]

theorem applies_returned_prefix_startTailRun : ∃ s : CloneLoop Doc fun _ => 1,
    (machine (fun _ => 1) .startTail (Db.initialized Doc [1] 0)).exec
        (start .startTail (Db.initialized Doc [1] 0)) startTailRun = some s ∧
      s.handed.length = 2 ∧ BatchesFrom 0 s.handed ∧
      s.ReturnedPrefix (Db.initialized Doc [1] 0) 2 := by
  have hrun : ((machine (fun _ => 1) .startTail (Db.initialized Doc [1] 0)).exec
      (start .startTail (Db.initialized Doc [1] 0)) startTailRun).any (fun s =>
        decide (s.handed.length = 2 ∧ s.phase.returned? = some 2)) = true := by decide +kernel
  obtain ⟨s, hs, hp⟩ := Machine.exists_exec hrun
  obtain ⟨hbatches, hreturned⟩ := of_decide_eq_true hp
  obtain ⟨hchained, -, hbegins⟩ :=
    applies_returned_prefix rfl (Machine.reached_of_exec rfl hs)
  exact ⟨s, hs, hbatches, hchained, hbegins 2 (ClonePhase.of_returned? hreturned)⟩

end Run

end CloneLoop

end Opbox
