import Opbox.Semantic.Lane

/-!
# The phases of the engine

The engine is in one phase at a time and waits in it for one kind of response (`engine/actor.rs`);
every phase ends at a boundary, where the engine scans if a scan is pending and asks for the next
work otherwise.  The handlers stop the engine on a response that does not fit its phase; here they
return an error that says which check failed.

The filesystem client counts its requests of the phases apart from its cleanup (`fs/client.rs`).
The outbox and the links to the shared log do not touch the phase and are not part of this file.
-/

namespace Opbox

variable {D : Type}

/-! ## Scan scopes -/

/-- `subtree_contains_scope`. -/
def subtreeContainsScope (subtree : RelativePath) : ScanScope → Bool
  | .full => false
  | .singleFile path => decide (path = subtree) || subtree.components.isPrefixOf path.components
  | .subtree path => decide (path = subtree) || subtree.components.isPrefixOf path.components

/-- The last cases of `coalesce_scan_scopes`. -/
def coalesceSubtrees (left right : ScanScope) : ScanScope :=
  match left, right with
  | .subtree leftPath, .subtree rightPath =>
    if subtreeContainsScope leftPath right then left
    else if subtreeContainsScope rightPath left then right
    else .full
  | .subtree leftPath, scope => if subtreeContainsScope leftPath scope then left else .full
  | scope, .subtree rightPath => if subtreeContainsScope rightPath scope then right else .full
  | _, _ => .full

/-- `coalesce_scan_scopes`. -/
def coalesceScanScopes (left right : ScanScope) : ScanScope :=
  match left, right with
  | .full, _ => .full
  | _, .full => .full
  | .singleFile leftPath, .singleFile rightPath =>
    if leftPath = rightPath then left else coalesceSubtrees left right
  | _, _ => coalesceSubtrees left right

/-! ## The filesystem client -/

/-- A request of the filesystem client without an answer. -/
inductive FsCall (D : Type) where
  | scan (scope : ScanScope)
  | importAction (action : ImportAction)
  | projectionAction (action : ProjectionAction D)
  | deleteIfExists (path : RelativePath)

/-- `FsClientResponse`. -/
inductive FsClientResponse where
  | scan (result : ScanResult)
  | applyImportAction (result : ImportActionResult)
  | applyProjectionAction (result : ProjectionActionResult)
  | deleteIfExists (path : RelativePath)

/-- The request belongs to a phase and not to the cleanup. -/
def FsCall.isPhase : FsCall D → Bool
  | deleteIfExists _ => false
  | _ => true

/-- The responses a request can get: of its kind and with its action, and any result. -/
def FsCall.answeredBy : FsCall D → FsClientResponse → Bool
  | scan scope, .scan result => decide (result.scope = scope)
  | importAction action, .applyImportAction result =>
    decide (result.actionId = action.id) &&
      match action.kind, result with
      | .read _ _, .read _ _ => true
      | .stat _, .stat _ => true
      | _, _ => false
  | projectionAction action, .applyProjectionAction result =>
    decide (result.actionId = action.id) &&
      match action.kind, result with
      | .writeFile _ _ _, .writeFile _ _ => true
      | .deleteFile _ _, .deleteFile _ _ => true
      | _, .failed _ _ => true
      | _, _ => false
  | deleteIfExists path, .deleteIfExists path' => decide (path' = path)
  | _, _ => false

/-- `MAX_CLEANUP_IN_FLIGHT`. -/
def maxCleanupInFlight : Nat := 16

/-- `FsClient`. -/
structure FsClient (D : Type) where
  /-- The requests without an answer. -/
  pending : List (FsCall D)
  /-- `phase_inflight`. -/
  phaseInflight : Nat
  /-- `cleanup_inflight`. -/
  cleanupInflight : Nat

namespace FsClient

/-- A new client. -/
def new : FsClient D := ⟨[], 0, 0⟩

/-- `can_accept_projection`. -/
def canAcceptProjection (fs : FsClient D) : Bool := decide (fs.phaseInflight = 0)

/-- `can_accept_import`. -/
def canAcceptImport (fs : FsClient D) : Bool := decide (fs.phaseInflight = 0)

/-- `can_accept_cleanup`. -/
def canAcceptCleanup (fs : FsClient D) : Bool := decide (fs.cleanupInflight < maxCleanupInFlight)

/-- A request of a phase. -/
def request (fs : FsClient D) (call : FsCall D) : FsClient D :=
  { fs with pending := fs.pending ++ [call], phaseInflight := fs.phaseInflight + 1 }

/-- `scan`. -/
def scan (fs : FsClient D) (scope : ScanScope) : FsClient D := fs.request (.scan scope)

/-- `apply_import_action`. -/
def applyImportAction (fs : FsClient D) (action : ImportAction) : FsClient D :=
  fs.request (.importAction action)

/-- `apply_projection_action`. -/
def applyProjectionAction (fs : FsClient D) (action : ProjectionAction D) : FsClient D :=
  fs.request (.projectionAction action)

end FsClient

/-- `invalidates_import`: the file changed while it was read. -/
def ImportActionResult.invalidatesImport : ImportActionResult → Bool
  | read _ (.completed (.changedBetweenStats _ _)) => true
  | read _ (.completed (.conflictBeforeRead _)) => true
  | _ => false

/-- The temporary file a conflict before the swap has left. -/
def ProjectionActionResult.cleanupPath : ProjectionActionResult → Option RelativePath
  | writeFile _ (.conflictBeforeSwap swapPath _) => some swapPath
  | _ => none

/-! ## The phases -/

/-- `ImportPhase`. -/
inductive ImportPhase where
  | dispatching (epoch : Nat) (queue : List ImportAction) (inFlight : List ImportActionId)
  | committing (epoch : Nat)

/-- `ProjectionPhase`. -/
inductive ProjectionPhase (D : Type) where
  | dispatching (epoch : Nat) (generation : SequenceNumber) (plan : List (ProjectionAction D))
      (inFlight : List ProjectionActionId)
  /-- An action invalidated the epoch: the plan is dropped. -/
  | draining (epoch : Nat) (generation : SequenceNumber) (reason : ProjectionEpochEndReason)
      (inFlight : List ProjectionActionId)
  | committing (epoch : Nat) (generation : SequenceNumber)

/-- `EnginePhase`. -/
inductive EnginePhase (D : Type) where
  /-- No work and nothing pending. -/
  | idle
  /-- One `get_next_work` in flight; dirty if the stable state has changed since. -/
  | awaitingNextWork (boundary : Nat) (dirty : Bool)
  | scanning (scope : ScanScope)
  | planningImport
  | importing (phase : ImportPhase)
  | projecting (phase : ProjectionPhase D)

/-- The engine has no work. -/
def EnginePhase.isIdle : EnginePhase D → Bool
  | idle => true
  | _ => false

theorem EnginePhase.isIdle_iff {phase : EnginePhase D} : phase.isIdle = true ↔ phase = .idle := by
  cases phase <;> simp [EnginePhase.isIdle]

/-- The check that stopped the engine. -/
inductive EngineBail where
  /-- `get-next-work response … while engine was not awaiting next work`. -/
  | nextWorkNotAwaited (boundary : Nat)
  /-- `get-next-work response for boundary …, but engine is awaiting boundary …`. -/
  | nextWorkForOtherBoundary (boundary awaited : Nat)
  /-- `get-next-work returned import epoch …; imports start from scans`. -/
  | nextWorkIsImport (epoch : Nat)
  /-- `scan completed while engine was not scanning`. -/
  | scanWhileNotScanning
  /-- `import action … completed while engine was not dispatching imports`. -/
  | importActionWhileNotDispatching (id : ImportActionId)
  /-- `import action completed for epoch …, but current epoch is …`. -/
  | importActionOfOtherEpoch (epoch current : Nat)
  /-- `import action … completed but was not in-flight`. -/
  | importActionNotInFlight (id : ImportActionId)
  /-- `projection action completed for epoch …, but current epoch is …`. -/
  | projectionActionOfOtherEpoch (epoch current : Nat)
  /-- `projection action … completed but was not in-flight`. -/
  | projectionActionNotInFlight (id : ProjectionActionId)
  /-- `projection action … completed while engine was not draining or dispatching projections`. -/
  | projectionActionWhileNotProjecting (id : ProjectionActionId)
  /-- `sync engine received init-only semantic response`. -/
  | initOnlyResponse
  /-- `apply-scan response while engine was not planning an import`. -/
  | applyScanWhileNotPlanning
  /-- `apply-scan returned projection epoch …; projections start at boundaries`. -/
  | applyScanIsProjection (epoch : Nat)
  /-- `sync engine received bootstrap-only commit import action response`. -/
  | bootstrapOnlyImportAction
  /-- `import epoch commit response while engine was not committing an import epoch`. -/
  | importCommitWhileNotCommitting
  /-- `sync engine received bootstrap-only commit projection action response`. -/
  | bootstrapOnlyProjectionAction
  /-- `projection epoch commit response while engine was not committing a projection epoch`. -/
  | projectionCommitWhileNotCommitting
  /-- `sync engine received startup-only stable namespace response`. -/
  | startupOnlyNamespace
  /-- `phase fs in-flight underflow`. -/
  | phaseInflightUnderflow
  /-- `cleanup fs in-flight underflow`. -/
  | cleanupInflightUnderflow
  /-- `cleanup delete requested while cleanup pipeline is full`. -/
  | cleanupPipelineFull
  deriving DecidableEq, Repr

namespace FsClient

/-- `delete_if_exists`. -/
def deleteIfExists (fs : FsClient D) (path : RelativePath) : Except EngineBail (FsClient D) := do
  require (fs.canAcceptCleanup = true) EngineBail.cleanupPipelineFull
  pure { fs with
    pending := fs.pending ++ [.deleteIfExists path], cleanupInflight := fs.cleanupInflight + 1 }

/-- `next`: the answer of a pending request comes in. -/
def next (fs : FsClient D) (n : Nat) (call : FsCall D) : Except EngineBail (FsClient D) :=
  if call.isPhase then do
    require (0 < fs.phaseInflight) EngineBail.phaseInflightUnderflow
    pure { fs with pending := fs.pending.eraseIdx n, phaseInflight := fs.phaseInflight - 1 }
  else do
    require (0 < fs.cleanupInflight) EngineBail.cleanupInflightUnderflow
    pure { fs with pending := fs.pending.eraseIdx n, cleanupInflight := fs.cleanupInflight - 1 }

end FsClient

/-- The engine with its clients, as far as the phases go. -/
structure Engine (D : Type) where
  /-- `phase`. -/
  phase : EnginePhase D
  /-- `next_boundary`. -/
  nextBoundary : Nat
  /-- `pending_scan_scope`. -/
  pendingScanScope : Option ScanScope
  /-- `cleanup_queue`. -/
  cleanupQueue : List RelativePath
  /-- `fs_client`. -/
  fsClient : FsClient D
  /-- The requests `semantic_client` has sent and the semantic actor has not taken. -/
  mailbox : List (SemanticMessage D)

namespace Engine

/-- `Engine::new`. -/
def new : Engine D := ⟨.idle, 0, none, [], .new, []⟩

/-- Send a request to the semantic actor. -/
def send (e : Engine D) (message : SemanticMessage D) : Engine D :=
  { e with mailbox := e.mailbox ++ [message] }

/-- `set_phase`. -/
def setPhase (e : Engine D) (phase : EnginePhase D) : Engine D := { e with phase := phase }

/-- `enter_boundary`. -/
def enterBoundary (e : Engine D) : Engine D :=
  match e.pendingScanScope with
  | some scope =>
    { e with
      pendingScanScope := none
      fsClient := e.fsClient.scan scope
      phase := .scanning scope }
  | none =>
    { e with
      nextBoundary := e.nextBoundary + 1
      mailbox := e.mailbox ++ [.getNextWork (e.nextBoundary + 1)]
      phase := .awaitingNextWork (e.nextBoundary + 1) false }

/-- Coalesce a scope with the pending one. -/
def addScanScope (e : Engine D) (scope : ScanScope) : Engine D :=
  { e with
    pendingScanScope := some
      (match e.pendingScanScope with
      | some pending => coalesceScanScopes pending scope
      | none => scope) }

/-- `request_scan`. -/
def requestScan (e : Engine D) (scope : ScanScope) : Engine D :=
  match e.phase with
  | .idle => (e.addScanScope scope).enterBoundary
  | _ => e.addScanScope scope

/-! ## Driving a phase -/

/-- Dispatch imports while the filesystem client takes them. -/
def dispatchImports (fs : FsClient D) (inFlight : List ImportActionId) :
    List ImportAction → FsClient D × List ImportAction × List ImportActionId
  | [] => (fs, [], inFlight)
  | action :: queue =>
    if fs.canAcceptImport then
      dispatchImports (fs.applyImportAction action) (inFlight ++ [action.id]) queue
    else (fs, action :: queue, inFlight)

/-- Dispatch projections while the filesystem client takes them. -/
def dispatchProjections (fs : FsClient D) (inFlight : List ProjectionActionId) :
    List (ProjectionAction D) →
      FsClient D × List (ProjectionAction D) × List ProjectionActionId
  | [] => (fs, [], inFlight)
  | action :: plan =>
    if fs.canAcceptProjection then
      dispatchProjections (fs.applyProjectionAction action) (inFlight ++ [action.id]) plan
    else (fs, action :: plan, inFlight)

/-- The first half of `drive_phase`: dispatch admissible work. -/
def dispatch (e : Engine D) : Engine D :=
  match e.phase with
  | .importing (.dispatching epoch queue inFlight) =>
    let (fs, queue, inFlight) := dispatchImports e.fsClient inFlight queue
    { e with fsClient := fs, phase := .importing (.dispatching epoch queue inFlight) }
  | .projecting (.dispatching epoch generation plan inFlight) =>
    let (fs, plan, inFlight) := dispatchProjections e.fsClient inFlight plan
    { e with fsClient := fs, phase := .projecting (.dispatching epoch generation plan inFlight) }
  | _ => e

/-- The second half of `drive_phase`: request the commit of an epoch that has nothing left. -/
def requestCommit (e : Engine D) : Engine D :=
  match e.phase with
  | .importing (.dispatching epoch [] []) =>
    (e.send (.commitImportEpoch epoch)).setPhase (.importing (.committing epoch))
  | .projecting (.dispatching epoch generation [] []) =>
    (e.send (.commitProjectionEpoch epoch .planExhausted)).setPhase
      (.projecting (.committing epoch generation))
  | .projecting (.draining epoch generation reason []) =>
    (e.send (.commitProjectionEpoch epoch reason)).setPhase
      (.projecting (.committing epoch generation))
  | _ => e

/-- `drive_phase`. -/
def drivePhase (e : Engine D) : Engine D := e.dispatch.requestCommit

/-- The loop of `drive_cleanup`. -/
def cleanup (fs : FsClient D) :
    List RelativePath → Except EngineBail (FsClient D × List RelativePath)
  | [] => .ok (fs, [])
  | path :: queue =>
    if fs.canAcceptCleanup then do
      let fs' ← fs.deleteIfExists path
      cleanup fs' queue
    else .ok (fs, path :: queue)

/-- `drive_cleanup`. -/
def driveCleanup (e : Engine D) : Except EngineBail (Engine D) := do
  let (fs, queue) ← cleanup e.fsClient e.cleanupQueue
  pure { e with fsClient := fs, cleanupQueue := queue }

/-- The top of the loop of `Engine::run`. -/
def drive (e : Engine D) : Except EngineBail (Engine D) := do
  let e' ← e.driveCleanup
  pure e'.drivePhase

/-! ## Responses of the semantic actor -/

/-- `handle_get_next_work_response`. -/
def handleGetNextWorkResponse (e : Engine D) (responseBoundary : Nat) (work : NextWork D) :
    Except EngineBail (Engine D) :=
  match e.phase with
  | .awaitingNextWork boundary dirty => do
    require (responseBoundary = boundary) (.nextWorkForOtherBoundary responseBoundary boundary)
    match work with
    | .project started =>
      pure (e.setPhase
        (.projecting (.dispatching started.epoch started.generation started.actions [])))
    | .importEpoch started => throw (.nextWorkIsImport started.epoch)
    | .none =>
      if dirty || e.pendingScanScope.isSome then pure e.enterBoundary
      else pure (e.setPhase .idle)
  | _ => .error (.nextWorkNotAwaited responseBoundary)

/-- The `ApplyScan` response. -/
def handleApplyScanResponse (e : Engine D) (work : NextWork D) : Except EngineBail (Engine D) :=
  match e.phase with
  | .planningImport =>
    match work with
    | .importEpoch started =>
      .ok (e.setPhase (.importing (.dispatching started.epoch started.actions [])))
    | .none => .ok e.enterBoundary
    | .project started => .error (.applyScanIsProjection started.epoch)
  | _ => .error .applyScanWhileNotPlanning

/-- The semantic response branch of `Engine::run`. -/
def handleSemanticResponse (e : Engine D) : SemanticResponse D → Except EngineBail (Engine D)
  | .applyInitScan _ => .error .initOnlyResponse
  | .applyScan work => e.handleApplyScanResponse work
  | .commitImportAction => .error .bootstrapOnlyImportAction
  | .commitImportEpoch =>
    match e.phase with
    | .importing (.committing _) => .ok e.enterBoundary
    | _ => .error .importCommitWhileNotCommitting
  | .commitProjectionAction => .error .bootstrapOnlyProjectionAction
  | .commitProjectionEpoch =>
    match e.phase with
    | .projecting (.committing _ _) => .ok e.enterBoundary
    | _ => .error .projectionCommitWhileNotCommitting
  | .getNextWork boundary work => e.handleGetNextWorkResponse boundary work
  | .readStableNamespace => .error .startupOnlyNamespace
  | .service _ => .ok e

/-- `handle_projection_changed`. -/
def handleProjectionChanged (e : Engine D) : Engine D :=
  match e.phase with
  | .idle => e.enterBoundary
  | .awaitingNextWork boundary _ => e.setPhase (.awaitingNextWork boundary true)
  | _ => e

/-- The semantic event branch of `Engine::run`. -/
def handleSemanticEvent (e : Engine D) : SemanticEvent → Engine D
  | .projectionChanged _ => e.handleProjectionChanged
  | .outboxReady _ => e

/-! ## Responses of the filesystem -/

/-- An import action has completed. -/
def handleImportAction (e : Engine D) (result : ImportActionResult) :
    Except EngineBail (Engine D) :=
  let id := result.actionId
  match e.phase with
  | .importing (.dispatching epoch queue inFlight) => do
    require (id.epoch = epoch) (EngineBail.importActionOfOtherEpoch id.epoch epoch)
    require (id ∈ inFlight) (EngineBail.importActionNotInFlight id)
    let e := e.setPhase (.importing (.dispatching epoch queue (inFlight.erase id)))
    let e := if result.invalidatesImport then e.requestScan .full else e
    pure (e.send (.commitImportAction result false))
  | _ => .error (.importActionWhileNotDispatching id)

/-- The phase after a projection action has completed. -/
def projectionPhaseAfter (result : ProjectionActionResult) :
    EnginePhase D → Except EngineBail (EnginePhase D)
  | .projecting (.dispatching epoch generation plan inFlight) => do
    let id := result.actionId
    require (id.epoch = epoch) (EngineBail.projectionActionOfOtherEpoch id.epoch epoch)
    require (id ∈ inFlight) (EngineBail.projectionActionNotInFlight id)
    -- Draining drops the plan, so that nothing of the epoch is dispatched any more.
    if result.invalidatesProjection then
      pure (.projecting (.draining epoch generation (.actionInvalidatedProjection id)
        (inFlight.erase id)))
    else pure (.projecting (.dispatching epoch generation plan (inFlight.erase id)))
  | .projecting (.draining epoch generation reason inFlight) => do
    let id := result.actionId
    require (id.epoch = epoch) (EngineBail.projectionActionOfOtherEpoch id.epoch epoch)
    require (id ∈ inFlight) (EngineBail.projectionActionNotInFlight id)
    pure (.projecting (.draining epoch generation reason (inFlight.erase id)))
  | _ => .error (.projectionActionWhileNotProjecting result.actionId)

/-- A projection action has completed. -/
def handleProjectionAction (e : Engine D) (result : ProjectionActionResult) :
    Except EngineBail (Engine D) := do
  let phase ← projectionPhaseAfter result e.phase
  let e := e.setPhase phase
  let e := { e with cleanupQueue := e.cleanupQueue ++ result.cleanupPath.toList }
  let e := if result.invalidatesProjection then e.requestScan .full else e
  pure (e.send (.commitProjectionAction result false))

/-- `handle_fs_response`. -/
def handleFsResponse (e : Engine D) : FsClientResponse → Except EngineBail (Engine D)
  | .scan result =>
    match e.phase with
    | .scanning _ => .ok ((e.send (.applyScan result)).setPhase .planningImport)
    | _ => .error .scanWhileNotScanning
  | .applyImportAction result => e.handleImportAction result
  | .applyProjectionAction result => e.handleProjectionAction result
  | .deleteIfExists _ => .ok e

/-- A response of the filesystem client comes in. -/
def takeFsResponse (e : Engine D) (n : Nat) (call : FsCall D) (response : FsClientResponse) :
    Except EngineBail (Engine D) := do
  let fs ← e.fsClient.next n call
  { e with fsClient := fs }.handleFsResponse response

end Engine

end Opbox
