import Opbox.Foundation.Machine
import Opbox.Semantic.Publication

/-!
# The daemons of a workspace

Any number of daemons share one append-only log.  A step is a request served by one of them, the
append of a row of an outbox to the log, the append of a record once more, a trim of rows that are
in the log, a batch read from the log at the stable cursor, or a restart.
-/

namespace Opbox

variable {ι D : Type}

/-- The daemons of a workspace and the log they share. -/
structure Workspace (ι D : Type) where
  /-- The semantic actor of each daemon. -/
  daemons : ι → SemanticActor D
  /-- The shared log. -/
  log : List (LogRecord (SharedMessage D))

/-- What can happen in a workspace. -/
inductive WorkspaceAction (ι D : Type) where
  /-- A daemon serves a request that neither reads the log nor trims the outbox. -/
  | serve (i : ι) (request : SemanticRequest D)
  /-- A row of an outbox is appended to the log. -/
  | append (i : ι) (outboxId : OutboxId) (timestamp : Nat)
  /-- A record of the log is appended once more. -/
  | duplicate (n : SequenceNumber) (timestamp : Nat)
  /-- A daemon trims its outbox. -/
  | trim (i : ι) (through : OutboxId)
  /-- A daemon applies the next records of the log. -/
  | read (i : ι) (count : Nat)
  /-- A daemon stops, at any point, and starts again on its database. -/
  | restart (i : ι)

/-- The record of a row of an outbox. -/
def Db.record (db : Db D) (row : OutboxRow (SharedMessage D)) (timestamp : Nat) :
    LogRecord (SharedMessage D) :=
  ⟨timestamp, ⟨db.writerId, row.outboxId⟩, row.sharedMessage⟩

/-- The row was appended to the log. -/
def Db.Appended [DecidableEq D] (db : Db D) (log : List (LogRecord (SharedMessage D)))
    (row : OutboxRow (SharedMessage D)) : Bool :=
  log.any fun r => decide (r.origin = ⟨db.writerId, row.outboxId⟩ ∧
    r.sharedMessage = row.sharedMessage)

namespace Workspace

variable [DecidableEq ι]

/-- The workspace with another state of one daemon. -/
def setDaemon (w : Workspace ι D) (i : ι) (s : SemanticActor D) : Workspace ι D :=
  ⟨Function.update w.daemons i s, w.log⟩

@[simp] theorem setDaemon_log (w : Workspace ι D) (i : ι) (s : SemanticActor D) :
    (w.setDaemon i s).log = w.log := rfl

@[simp] theorem setDaemon_daemons_self (w : Workspace ι D) (i : ι) (s : SemanticActor D) :
    (w.setDaemon i s).daemons i = s := Function.update_self ..

theorem setDaemon_daemons_of_ne (w : Workspace ι D) {i j : ι} (h : j ≠ i) (s : SemanticActor D) :
    (w.setDaemon i s).daemons j = w.daemons j := Function.update_of_ne h ..

variable [TextCrdt D] [CharDiff] [Xxh3] [DecidableEq D]

/-- The next `count` records of the log, as the reader hands them to a daemon. -/
def nextRecords (w : Workspace ι D) (i : ι) (count : Nat) :
    List (SharedMessageEnvelope (SharedMessage D)) :=
  envelopesFrom (w.daemons i).db.stableCursor ((w.log.drop (w.daemons i).db.stableCursor).take count)

/-- One step of the workspace. -/
def step (w : Workspace ι D) : WorkspaceAction ι D → Option (Workspace ι D)
  | .serve i request =>
    if request.isLocal then ((w.daemons i).step request).map (w.setDaemon i) else none
  | .append i outboxId timestamp =>
    ((w.daemons i).db.outbox.rows.find? outboxId).map fun row =>
      { w with log := w.log ++ [(w.daemons i).db.record row timestamp] }
  | .duplicate n timestamp =>
    w.log[n]?.map fun r => { w with log := w.log ++ [{ r with timestamp := timestamp }] }
  | .trim i through =>
    if (w.daemons i).db.outbox.rows.rows.all fun row =>
        !(decide (row.outboxId ≤ through) && row.inflight) || (w.daemons i).db.Appended w.log row
    then ((w.daemons i).step (.trimOutbox through)).map (w.setDaemon i)
    else none
  | .read i count =>
    match SharedMessageBatch.tryFrom (w.nextRecords i count) with
    | .ok batch => ((w.daemons i).step (.applySharedMessageBatch batch)).map (w.setDaemon i)
    | .error _ => none
  | .restart i => some (w.setDaemon i (.start (w.daemons i).db))

end Workspace

/-- The writer ids of the daemons of a workspace. -/
structure WriterIds (ι : Type) where
  /-- The writer id of a daemon. -/
  id : ι → DaemonWriterId
  /-- Different daemons have different client ids in the documents. -/
  clientId_injective : Function.Injective fun i => clientIdForWriter (id i)

/-- Different daemons have different writer ids. -/
theorem WriterIds.id_injective (writers : WriterIds ι) : Function.Injective writers.id :=
  fun _ _ h => writers.clientId_injective (congrArg clientIdForWriter h)

/-- The runs of a workspace from its beginning: an empty log, and daemons with new databases. -/
def workspaceMachine [DecidableEq ι] [TextCrdt D] [CharDiff] [Xxh3] [DecidableEq D]
    (writers : WriterIds ι) : Machine (Workspace ι D) (WorkspaceAction ι D) where
  initial w := w.log = [] ∧ ∀ i, w.daemons i = .start (Db.initialized D (writers.id i) 0)
  step := Workspace.step

end Opbox
