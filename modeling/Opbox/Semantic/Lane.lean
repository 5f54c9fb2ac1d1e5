import Opbox.Semantic.Runtime

/-!
# The lane of the semantic actor

The actor takes the requests of the engine from its mailbox one at a time (`semantic/actor.rs`):
it starts a request only when nothing runs, the transaction of the request commits, and then the
actor finishes the request, emits its effects and sends its reply.  The commit of an epoch that
still misses results is deferred until they have come in.

A request that runs is pending under the same id, so the pending operation and the running one are
one here.  A transaction that fails is not a step.
-/

namespace Opbox

variable {D : Type}

/-- The requests that have nothing to do with epochs. -/
inductive ServiceCall (D : Type) where
  | applySharedMessageBatch (batch : SharedMessageBatch (SharedMessage D))
  | readOutbox (numMessages : Nat)
  | releaseOutbox
  | trimOutbox (through : OutboxId)
  | readStableCursor

/-- `SemanticRequest` in the mailbox.  A request for the next work carries the boundary its reply is
bound to, and the commit of an action says whether it is replied to. -/
inductive SemanticMessage (D : Type) where
  | applyInitScan (scan : ScanResult)
  | applyScan (scan : ScanResult)
  | commitImportAction (result : ImportActionResult) (checked : Bool)
  | commitImportEpoch (epoch : Nat)
  | commitProjectionAction (result : ProjectionActionResult) (checked : Bool)
  | commitProjectionEpoch (epoch : Nat) (reason : ProjectionEpochEndReason)
  | getNextWork (boundary : Nat)
  | readStableNamespace
  | service (call : ServiceCall D)

/-- `SemanticClientResponse`. -/
inductive SemanticResponse (D : Type) where
  | applyInitScan (work : NextWork D)
  | applyScan (work : NextWork D)
  | commitImportAction
  | commitImportEpoch
  | commitProjectionAction
  | commitProjectionEpoch
  | getNextWork (boundary : Nat) (work : NextWork D)
  | readStableNamespace
  | service (call : ServiceCall D)

/-- `SemanticEvent`. -/
inductive SemanticEvent where
  | projectionChanged (generation : SequenceNumber)
  | outboxReady (numMessages : Nat)
  deriving DecidableEq, Repr

/-- `SemanticEffects::emit`. -/
def SemanticEffects.emit (effects : SemanticEffects) : List SemanticEvent :=
  effects.projectionChanged.toList.map .projectionChanged ++
    effects.outboxReady.toList.map .outboxReady

/-- A request that was started, with what its checks have given. -/
inductive SemanticTask (D : Type) where
  | applyInitScan (scan : ScanResult) (epoch : Nat)
  | applyScan (scan : ScanResult) (epoch : Nat)
  | commitImportAction (context : ImportActionContext) (result : ImportActionResult)
      (checked : Bool)
  | commitImportEpoch (completed : CompletedImportEpoch)
  | commitProjectionAction (context : ProjectionActionCommitContext D)
      (result : ProjectionActionResult) (checked : Bool)
  | commitProjectionEpoch (completed : CompletedProjectionEpoch D)
      (reason : ProjectionEpochEndReason)
  | getNextWork (epoch boundary : Nat)
  | readStableNamespace
  | service (call : ServiceCall D)

/-- `SemanticTaskResult`: what a committed transaction gives. -/
inductive SemanticTaskResult (D : Type) where
  | applyInitScan (started : ImportEpochStarted)
  | applyScan (output : ApplyScanOutput D)
  | commitImportAction (id : ImportActionId) (checked : Bool)
  | commitImportEpoch (effects : SemanticEffects)
  | commitProjectionAction (result : ProjectionActionResult) (checked : Bool)
  | commitProjectionEpoch
  | getNextWork (boundary : Nat) (work : NextWork D)
  | readStableNamespace
  | service (call : ServiceCall D) (effects : SemanticEffects)

/-- What runs on the lane. -/
inductive RunningOp (D : Type) where
  /-- The transaction has not committed yet. -/
  | started (task : SemanticTask D)
  /-- It has committed, and the actor has not been told. -/
  | committed (result : SemanticTaskResult D)

section Tasks

variable [TextCrdt D] [CharDiff] [Xxh3] [DecidableEq D]

/-- The transaction of a request that has nothing to do with epochs. -/
def ServiceCall.run : ServiceCall D → Tx D SemanticEffects
  | applySharedMessageBatch batch => applySharedMessageBatchTx batch
  | readOutbox numMessages => do
    SemanticActor.outboxTx fun o => (o.reserveOutboxMessages numMessages).map Prod.fst
    pure ⟨none, none⟩
  | releaseOutbox => do
    SemanticActor.outboxTx fun o => .ok o.releaseOutboxMessages.1
    pure ⟨none, none⟩
  | trimOutbox through => do
    SemanticActor.outboxTx fun o => o.trimOutboxTx through
    pure ⟨none, none⟩
  | readStableCursor => pure ⟨none, none⟩

/-- The transaction of a task, at a time and with the identifiers it generates. -/
def SemanticTask.run (now : Timestamp) (objectId : ObjectId) (claimId : NamespaceClaimId) :
    SemanticTask D → Tx D (SemanticTaskResult D)
  | applyInitScan scan epoch => do
    let started ← Opbox.applyInitScan scan epoch
    pure (.applyInitScan started)
  | applyScan scan epoch => do
    let output ← Opbox.applyScan scan epoch now
    pure (.applyScan output)
  | commitImportAction context result checked => do
    let id ← Opbox.commitImportAction context result now objectId claimId
    pure (.commitImportAction id checked)
  | commitImportEpoch completed => do
    let effects ← Opbox.commitImportEpoch completed now
    pure (.commitImportEpoch effects)
  | commitProjectionAction context result checked => do
    Opbox.commitProjectionAction context result
    pure (.commitProjectionAction result checked)
  | commitProjectionEpoch completed reason => do
    commitProjectionEpochTx completed reason now
    pure .commitProjectionEpoch
  | getNextWork epoch boundary => do
    let work ← getNextWorkTx epoch
    pure (.getNextWork boundary work)
  | readStableNamespace => pure .readStableNamespace
  | service call => do
    let effects ← call.run
    pure (.service call effects)

end Tasks

/-- `SemanticActor`: the database, the epochs, the deferred commits and what runs. -/
structure SemanticLane (D : Type) where
  /-- The local database. -/
  db : Db D
  /-- `runtime_state`. -/
  runtime : SemanticRuntimeState D
  /-- `deferred_import_epoch_commit`. -/
  deferredImportEpochCommit : Option Nat
  /-- `deferred_projection_epoch_commit`. -/
  deferredProjectionEpochCommit : Option (Nat × ProjectionEpochEndReason)
  /-- What runs, if anything. -/
  running : Option (RunningOp D)

namespace SemanticLane

/-- A new actor on a database. -/
def new (db : Db D) : SemanticLane D := ⟨db, .default, none, none, none⟩

/-- `projection_action_commits_in_flight`. -/
def projectionActionCommitsInFlight (lane : SemanticLane D) : Bool :=
  match lane.running with
  | some (.started (.commitProjectionAction _ _ _)) => true
  | some (.committed (.commitProjectionAction _ _)) => true
  | _ => false

/-- `projection_epoch_ready_to_commit`. -/
def projectionEpochReadyToCommit (lane : SemanticLane D) (epoch : Nat)
    (reason : ProjectionEpochEndReason) : Except RuntimePanic Bool := do
  let _ ← lane.runtime.validateProjectionEpochCommit epoch
  if lane.projectionActionCommitsInFlight then pure false
  else
    match reason with
    | .planExhausted => lane.runtime.projectionEpochComplete epoch
    | .actionInvalidatedProjection _ => pure true

/-- Run a task. -/
def push (lane : SemanticLane D) (task : SemanticTask D) : SemanticLane D :=
  { lane with running := some (.started task) }

/-- `start_commit_import_epoch`. -/
def startCommitImportEpoch (lane : SemanticLane D) (epoch : Nat) :
    Except RuntimePanic (SemanticLane D) := do
  let (completed, rt) ← lane.runtime.finishImportEpoch epoch
  pure ({ lane with runtime := rt }.push (.commitImportEpoch completed))

/-- `start_commit_projection_epoch`. -/
def startCommitProjectionEpoch (lane : SemanticLane D) (epoch : Nat)
    (reason : ProjectionEpochEndReason) : Except RuntimePanic (SemanticLane D) := do
  let (completed, rt) ← lane.runtime.finishProjectionEpoch epoch reason
  pure ({ lane with runtime := rt }.push (.commitProjectionEpoch completed reason))

/-- `start_request`. -/
def startRequest (lane : SemanticLane D) : SemanticMessage D → Except RuntimePanic (SemanticLane D)
  | .applyInitScan scan => do
    let (epoch, rt) ← lane.runtime.reserveImportEpoch
    pure ({ lane with runtime := rt }.push (.applyInitScan scan epoch))
  | .applyScan scan => do
    let (epoch, rt) ← lane.runtime.reserveImportEpoch
    pure ({ lane with runtime := rt }.push (.applyScan scan epoch))
  | .commitImportAction result checked => do
    let context ← lane.runtime.validateImportAction result
    pure (lane.push (.commitImportAction context result checked))
  | .commitImportEpoch epoch => do
    let _ ← lane.runtime.validateImportEpochCommit epoch
    require (lane.deferredImportEpochCommit = none) ⟨.importing, .duplicateDeferredCommit⟩
    let complete ← lane.runtime.importEpochComplete epoch
    if complete then lane.startCommitImportEpoch epoch
    else pure { lane with deferredImportEpochCommit := some epoch }
  | .commitProjectionAction result checked => do
    let context ← lane.runtime.validateProjectionAction result
    pure (lane.push (.commitProjectionAction context result checked))
  | .commitProjectionEpoch epoch reason => do
    let _ ← lane.runtime.validateProjectionEpochCommit epoch
    require (lane.deferredProjectionEpochCommit = none) ⟨.projecting, .duplicateDeferredCommit⟩
    let ready ← lane.projectionEpochReadyToCommit epoch reason
    if ready then lane.startCommitProjectionEpoch epoch reason
    else pure { lane with deferredProjectionEpochCommit := some (epoch, reason) }
  | .getNextWork boundary => do
    let (epoch, rt) ← lane.runtime.reserveProjectionEpoch
    pure ({ lane with runtime := rt }.push (.getNextWork epoch boundary))
  | .readStableNamespace => pure (lane.push .readStableNamespace)
  | .service call => pure (lane.push (.service call))

/-- `start_ready_deferred_import_epoch_commit`. -/
def startReadyDeferredImportEpochCommit (lane : SemanticLane D) :
    Except RuntimePanic (SemanticLane D) :=
  match lane.deferredImportEpochCommit with
  | none => pure lane
  | some epoch => do
    let complete ← lane.runtime.importEpochComplete epoch
    if complete then
      startCommitImportEpoch { lane with deferredImportEpochCommit := none } epoch
    else pure lane

/-- `start_ready_deferred_projection_epoch_commit`. -/
def startReadyDeferredProjectionEpochCommit (lane : SemanticLane D) :
    Except RuntimePanic (SemanticLane D) :=
  match lane.deferredProjectionEpochCommit with
  | none => pure lane
  | some (epoch, reason) => do
    let ready ← lane.projectionEpochReadyToCommit epoch reason
    if ready then
      startCommitProjectionEpoch { lane with deferredProjectionEpochCommit := none } epoch reason
    else pure lane

/-- What the actor leaves when it has finished a request. -/
structure Finished (D : Type) where
  /-- The actor. -/
  lane : SemanticLane D
  /-- The events it emits. -/
  events : List SemanticEvent
  /-- The replies it sends. -/
  replies : List (SemanticResponse D)

/-- `finish_task_result`, when nothing runs any more. -/
def finishTaskResult (lane : SemanticLane D) :
    SemanticTaskResult D → Except RuntimePanic (Finished D)
  | .applyInitScan started => do
    let rt ← lane.runtime.installImportEpoch started .init
    pure ⟨{ lane with runtime := rt }, [], [.applyInitScan (.importEpoch started)]⟩
  | .applyScan output => do
    let rt ←
      match output.nextWork with
      | .importEpoch started => lane.runtime.installImportEpoch started .sync
      | _ => pure lane.runtime
    pure ⟨{ lane with runtime := rt }, output.effects.emit, [.applyScan output.nextWork]⟩
  | .commitImportAction id checked => do
    let rt ← lane.runtime.finishImportAction id
    let lane' ← startReadyDeferredImportEpochCommit { lane with runtime := rt }
    pure ⟨lane', [], if checked then [.commitImportAction] else []⟩
  | .commitImportEpoch effects => pure ⟨lane, effects.emit, [.commitImportEpoch]⟩
  | .commitProjectionAction result checked => do
    let rt ← lane.runtime.finishProjectionAction result
    let lane' ← startReadyDeferredProjectionEpochCommit { lane with runtime := rt }
    pure ⟨lane', [], if checked then [.commitProjectionAction] else []⟩
  | .commitProjectionEpoch => pure ⟨lane, [], [.commitProjectionEpoch]⟩
  | .getNextWork boundary work => do
    let rt ←
      match work with
      | .project started => lane.runtime.installProjectionEpoch started
      | _ => pure lane.runtime
    pure ⟨{ lane with runtime := rt }, [], [.getNextWork boundary work]⟩
  | .readStableNamespace => pure ⟨lane, [], [.readStableNamespace]⟩
  | .service call effects =>
    pure ⟨lane, effects.emit,
      match call with
      | .trimOutbox _ => []
      | call => [.service call]⟩

end SemanticLane

end Opbox
