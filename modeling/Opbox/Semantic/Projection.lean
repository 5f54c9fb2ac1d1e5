import Opbox.Semantic.Import

/-!
# Projections

Planning and committing projection epochs (`semantic/service.rs`).  The plan compares the stable
tree with the live rows of the prior tree: it writes the files whose object or document differs and
deletes those that are placed nowhere.  Writes are recorded as intents when they are planned and
marked as applied when they have landed; only the commit of the whole epoch advances the prior
tree.
-/

namespace Opbox

variable {D : Type}

/-! ## Planning -/

/-- `expected_before` of a write to a path of the stable tree; nothing is to be written where the
accepted file has the object and its stable document. -/
def Db.expectedBefore [TextCrdt D] [DecidableEq D] (db : Db D) (row : StableTreeRow) : Option ExpectedBefore :=
  match db.priorTreeLiveFile row.path with
  | none => some .missing
  | some prior =>
    if prior.objectId = row.objectId ∧ db.priorText prior.objectId = db.stableText row.objectId then
      none
    else some (.presentWithFingerprint prior.fingerprint)

/-- An action of a projection before it is numbered. -/
abbrev PlannedProjection (D : Type) := ProjectionActionKind × ProjectionActionCommitContext D

/-- The write of the stable text to a path of the stable tree. -/
def Db.plannedWrite [TextCrdt D] (db : Db D) (row : StableTreeRow)
    (expectedBefore : ExpectedBefore) : PlannedProjection D :=
  (.writeFile row.path (TextCrdt.getText (db.stableText row.objectId)) expectedBefore,
    ⟨row.path, row.claimedPath, row.claimId, row.objectId, some (db.stableText row.objectId)⟩)

/-- The delete of an accepted file. -/
def plannedDelete (prior : PriorTreeRow) : PlannedProjection D :=
  (.deleteFile prior.path (.presentWithFingerprint prior.fingerprint),
    ⟨prior.path, prior.claimedPath, prior.claimId, prior.objectId, none⟩)

/-- The rows of the stable tree that are to be written, with the preconditions. -/
def Db.rowsToWrite [TextCrdt D] [DecidableEq D] (db : Db D) : List (StableTreeRow × ExpectedBefore) :=
  db.stableTreeFiles.filterMap fun row => (db.expectedBefore row).map (row, ·)

/-- The accepted files that are placed nowhere, in path order. -/
def Db.rowsToDelete (db : Db D) : List PriorTreeRow :=
  (db.priorTreeLiveFiles.filter fun prior => (db.stableTreeFile prior.path).isNone).insertionSort
    fun a b => a.path ≤ b.path

/-- The whole plan. -/
def Db.plannedProjections [TextCrdt D] [DecidableEq D] (db : Db D) : List (PlannedProjection D) :=
  (db.rowsToWrite.map fun (row, expected) => db.plannedWrite row expected) ++
    db.rowsToDelete.map plannedDelete

/-- Number the actions of a plan. -/
def projectionActions (epoch : Nat) (planned : List (PlannedProjection D)) :
    List (ProjectionAction D) :=
  planned.zipIdx.map fun (p, seq) => ⟨⟨epoch, seq⟩, p.1, p.2⟩

/-- The intent of a write. -/
def Db.writeIntent [TextCrdt D] [Xxh3] (db : Db D) (row : StableTreeRow) : WriteIntentRow D :=
  ⟨row.path, Xxh3.xxh3_64 (TextCrdt.getText (db.stableText row.objectId)), row.objectId,
    db.stableText row.objectId⟩

/-- `get_next_work_tx`. -/
def getNextWorkTx [TextCrdt D] [Xxh3] [DecidableEq D] (projectionEpoch : Nat) :
    Tx D (NextWork D) := do
  let db ← get
  forM db.rowsToWrite fun (row, _) =>
    let intent := db.writeIntent row
    upsertProjectionWriteIntent intent.path intent.targetHash intent.objectId intent.targetDocBlob
  let actions := projectionActions projectionEpoch db.plannedProjections
  if actions = [] then pure .none
  else pure (.project ⟨projectionEpoch, db.stableCursor, db.stableNamespace, actions⟩)

/-! ## Committing -/

/-- `commit_projection_action`: a write that landed is marked as applied. -/
def commitProjectionAction (context : ProjectionActionCommitContext D)
    (result : ProjectionActionResult) : Tx D PUnit :=
  match result with
  | .writeFile _ (.written fingerprint) =>
    markProjectionWriteIntentApplied context.path fingerprint
  | .writeFile _ (.alreadyApplied fingerprint) =>
    markProjectionWriteIntentApplied context.path fingerprint
  | _ => pure ⟨⟩

/-- An action id as the debug format prints it. -/
def ProjectionActionId.shown (id : ProjectionActionId) : String :=
  s!"ProjectionActionId \x7b epoch: ProjectionEpoch({id.epoch}), seq: {id.seq} \x7d"

/-- The name of a write result. -/
def GuardedWriteResult.name : GuardedWriteResult → String
  | written _ => "written"
  | alreadyApplied _ => "already_applied"
  | conflictBeforeSwap _ _ => "conflict_before_swap"
  | conflictAfterSwap _ => "conflict_after_swap"
  | conflict _ => "conflict"

/-- The prior tree accepts a write: the document, the row, and no more intents for the path. -/
def acceptWrite (action : CompletedProjectionAction D) (fingerprint : FileFingerprint)
    (acceptedAt : Timestamp) : Tx D PUnit :=
  let context := action.commitContext
  let shown := action.actionId.shown
  match context.targetTextDocBlob with
  | none =>
    throw (.invariantViolation s!"write projection action {shown} missing target text doc blob")
  | some doc => do
    upsertPriorTextObject context.objectId doc
    upsertPriorTreeFile context.path context.claimedPath context.claimId context.objectId
      fingerprint acceptedAt
    deleteProjectionWriteIntentsForPath context.path

/-- The prior tree accepts a delete. -/
def acceptDelete (action : CompletedProjectionAction D) (acceptedAt : Timestamp) : Tx D PUnit := do
  tombstonePriorTreeFile action.commitContext.path acceptedAt
  deleteProjectionWriteIntentsForPath action.commitContext.path

/-- `commit_completed_projection_action_tx`. -/
def commitCompletedProjectionActionTx (acceptedAt : Timestamp)
    (action : CompletedProjectionAction D) : Tx D PUnit :=
  let shown := action.actionId.shown
  match action.result with
  | .writeFile _ (.written fingerprint) => acceptWrite action fingerprint acceptedAt
  | .writeFile _ (.alreadyApplied fingerprint) => acceptWrite action fingerprint acceptedAt
  | .writeFile _ result =>
    let name := result.name
    throw (.invariantViolation
      s!"cannot commit invalidated projection write result for action {shown}: {name}")
  | .deleteFile _ .deleted => acceptDelete action acceptedAt
  | .deleteFile _ .alreadyDeleted => acceptDelete action acceptedAt
  | .deleteFile _ (.conflict _) =>
    throw (.invariantViolation
      s!"cannot commit invalidated projection delete result for action {shown}")
  | .failed _ _ =>
    throw (.invariantViolation s!"cannot commit failed projection action {shown}")

/-- `commit_projection_epoch_tx`: an invalidated epoch leaves the prior tree as it is. -/
def commitProjectionEpochTx (completed : CompletedProjectionEpoch D)
    (reason : ProjectionEpochEndReason) (acceptedAt : Timestamp) : Tx D PUnit :=
  match reason with
  | .actionInvalidatedProjection _ => pure ⟨⟩
  | .planExhausted => do
    updatePriorNamespace completed.targetNamespaceDocBlob
    forM completed.actions (commitCompletedProjectionActionTx acceptedAt)

/-! ## What planning and committing do -/

section Spec

variable {db db' : Db D}

theorem mem_rowsToWrite [TextCrdt D] [DecidableEq D] {row : StableTreeRow} {e : ExpectedBefore} :
    (row, e) ∈ db.rowsToWrite ↔ row ∈ db.stableTree.table ∧ db.expectedBefore row = some e := by
  simp [Db.rowsToWrite]

theorem mem_rowsToDelete {prior : PriorTreeRow} :
    prior ∈ db.rowsToDelete ↔
      (prior ∈ db.priorTree ∧ prior.deletedAt = none) ∧ db.stableTreeFile prior.path = none := by
  simp [Db.rowsToDelete]

/-- A planned write expects what the live row of its path says, and nothing where there is none. -/
theorem expectedBefore_eq_some [TextCrdt D] [DecidableEq D] {row : StableTreeRow} {e : ExpectedBefore}
    (h : db.expectedBefore row = some e) :
    (db.priorTreeLiveFile row.path = none ∧ e = .missing) ∨
      ∃ prior, db.priorTreeLiveFile row.path = some prior ∧
        ¬(prior.objectId = row.objectId ∧
          db.priorText prior.objectId = db.stableText row.objectId) ∧
        e = .presentWithFingerprint prior.fingerprint := by
  unfold Db.expectedBefore at h
  split at h
  next hnone =>
    cases h
    exact .inl ⟨hnone, rfl⟩
  next prior hprior =>
    split_ifs at h with hsame
    cases h
    exact .inr ⟨prior, hprior, hsame, rfl⟩

/-- Numbered actions are the planned ones. -/
theorem mem_projectionActions {epoch : Nat} {planned : List (PlannedProjection D)}
    {action : ProjectionAction D} (h : action ∈ projectionActions epoch planned) :
    (action.kind, action.commitContext) ∈ planned ∧ action.id.epoch = epoch := by
  obtain ⟨⟨p, seq⟩, hp, rfl⟩ := List.mem_map.mp h
  exact ⟨List.fst_mem_of_mem_zipIdx hp, rfl⟩

/-- Without their numbers the actions are the planned ones. -/
theorem map_projectionActions (epoch : Nat) (planned : List (PlannedProjection D)) :
    (projectionActions epoch planned).map (fun action => (action.kind, action.commitContext)) =
      planned := by
  rw [projectionActions, List.map_map]
  exact List.zipIdx_map_fst 0 planned

theorem projectionActions_eq_nil_iff {epoch : Nat} {planned : List (PlannedProjection D)} :
    projectionActions epoch planned = [] ↔ planned = [] := by
  rw [projectionActions, List.map_eq_nil_iff, List.zipIdx_eq_nil_iff]

/-- The actions of a plan have different ids. -/
theorem nodup_projectionActions (epoch : Nat) (planned : List (PlannedProjection D)) :
    ((projectionActions epoch planned).map ProjectionAction.id).Nodup := by
  have hids : (projectionActions epoch planned).map ProjectionAction.id =
      (List.range planned.length).map fun seq => ⟨epoch, seq⟩ := by
    rw [projectionActions, List.map_map, List.range_eq_range', ← List.zipIdx_map_snd 0 planned,
      List.map_map]
    rfl
  rw [hids]
  exact List.nodup_range.map fun a b h => by simpa using h

/-- Planning records the intents of the writes and nothing else. -/
theorem runs_getNextWorkTx [TextCrdt D] [Xxh3] [DecidableEq D] {epoch : Nat} {work : NextWork D}
    (h : Runs (getNextWorkTx epoch) db work db') :
    db' = { db with projectionWriteIntents :=
        db.projectionWriteIntents.putAll (db.rowsToWrite.map fun r => db.writeIntent r.1) } ∧
      work = if db.plannedProjections = [] then .none
        else .project ⟨epoch, db.stableCursor, db.stableNamespace,
          projectionActions epoch db.plannedProjections⟩ := by
  simp only [getNextWorkTx, Runs.bind_iff, Runs.get_iff, projectionActions_eq_nil_iff] at h
  obtain ⟨db, _, ⟨rfl, rfl⟩, ⟨⟩, t, hloop, h⟩ := h
  have ht : t = { db with projectionWriteIntents :=
      db.projectionWriteIntents.putAll (db.rowsToWrite.map fun r => db.writeIntent r.1) } := by
    refine Runs.forM_invariant (fun done t => t = { db with
      projectionWriteIntents :=
        db.projectionWriteIntents.putAll (done.map fun r => db.writeIntent r.1) }) hloop rfl ?_
    intro done r rest t t' _ ht hrun
    rw [upsertProjectionWriteIntent, Runs.modify_iff] at hrun
    rw [hrun, ht, List.map_append, Table.putAll_append]
    rfl
  rw [← ht]
  split_ifs at h ⊢
  · rw [Runs.pure_iff] at h
    exact ⟨h.2.symm, h.1.symm⟩
  · rw [Runs.pure_iff] at h
    exact ⟨h.2.symm, h.1.symm⟩

/-- Planning does not fail. -/
theorem exists_runs_getNextWorkTx [TextCrdt D] [Xxh3] [DecidableEq D] (db : Db D) (epoch : Nat) :
    ∃ work db', Runs (getNextWorkTx epoch) db work db' := by
  obtain ⟨t, hloop, -⟩ : ∃ t, Runs (forM db.rowsToWrite fun (row, _) =>
      let intent := db.writeIntent row
      upsertProjectionWriteIntent intent.path intent.targetHash intent.objectId
        intent.targetDocBlob) db ⟨⟩ t ∧ True :=
    Runs.exists_forM (fun _ _ => True) trivial fun _ _ _ _ _ _ =>
      ⟨_, Runs.modify_iff.mpr rfl, trivial⟩
  refine ⟨if projectionActions epoch db.plannedProjections = [] then .none
    else .project ⟨epoch, db.stableCursor, db.stableNamespace,
      projectionActions epoch db.plannedProjections⟩, t, ?_⟩
  simp only [getNextWorkTx, Runs.bind_iff, Runs.get_iff]
  refine ⟨db, db, ⟨rfl, rfl⟩, ⟨⟩, t, hloop, ?_⟩
  split_ifs
  · exact Runs.pure_iff.mpr ⟨rfl, rfl⟩
  · exact Runs.pure_iff.mpr ⟨rfl, rfl⟩

/-- The fingerprint of a write that landed. -/
def ProjectionActionResult.landed : ProjectionActionResult → Option FileFingerprint
  | .writeFile _ (.written fingerprint) => some fingerprint
  | .writeFile _ (.alreadyApplied fingerprint) => some fingerprint
  | _ => none

/-- The delete reached its target. -/
def ProjectionActionResult.deleted : ProjectionActionResult → Bool
  | .deleteFile _ .deleted => true
  | .deleteFile _ .alreadyDeleted => true
  | _ => false

/-- The result of an action is recorded only where a planned write landed. -/
theorem runs_commitProjectionAction {context : ProjectionActionCommitContext D}
    {result : ProjectionActionResult} {u : PUnit}
    (h : Runs (commitProjectionAction context result) db u db') :
    (result.landed = none ∧ db' = db) ∨
      ∃ stat hash, result.landed = some (.statAndContent stat hash) ∧
        db' = if (db.projectionWriteIntents.find? (context.path, hash)).isSome then
          { db with projectionAppliedWriteIntents :=
              db.projectionAppliedWriteIntents.put ⟨context.path, hash, stat⟩ }
          else db := by
  unfold commitProjectionAction at h
  split at h
  · obtain ⟨stat, hash, rfl, heq⟩ := runs_markProjectionWriteIntentApplied h
    exact .inr ⟨stat, hash, rfl, heq⟩
  · obtain ⟨stat, hash, rfl, heq⟩ := runs_markProjectionWriteIntentApplied h
    exact .inr ⟨stat, hash, rfl, heq⟩
  next hwritten happlied =>
    rw [Runs.pure_iff] at h
    refine .inl ⟨?_, h.2.symm⟩
    unfold ProjectionActionResult.landed
    split
    · exact absurd rfl (hwritten _ _)
    · exact absurd rfl (happlied _ _)
    · rfl

/-- The database after the prior tree has accepted a write. -/
def Db.writeAccepted (db : Db D) (context : ProjectionActionCommitContext D) (doc : D)
    (fingerprint : FileFingerprint) (acceptedAt : Timestamp) : Db D :=
  { db with
    priorTextObjects := db.priorTextObjects.put ⟨context.objectId, doc⟩
    priorTree := db.priorTree.put
      ⟨context.path, context.claimedPath, context.claimId, context.objectId, fingerprint, acceptedAt,
        none⟩
    projectionWriteIntents :=
      db.projectionWriteIntents.deleteWhere fun r => decide (r.path = context.path)
    projectionAppliedWriteIntents :=
      db.projectionAppliedWriteIntents.deleteWhere fun r => decide (r.path = context.path) }

/-- The database after the prior tree has accepted a delete. -/
def Db.deleteAccepted (db : Db D) (path : RelativePath) (acceptedAt : Timestamp) : Db D :=
  { db with
    priorTree := tombstoneAt db.priorTree path acceptedAt
    projectionWriteIntents :=
      db.projectionWriteIntents.deleteWhere fun r => decide (r.path = path)
    projectionAppliedWriteIntents :=
      db.projectionAppliedWriteIntents.deleteWhere fun r => decide (r.path = path) }

theorem runs_acceptWrite {action : CompletedProjectionAction D} {fingerprint : FileFingerprint}
    {acceptedAt : Timestamp} {u : PUnit}
    (h : Runs (acceptWrite action fingerprint acceptedAt) db u db') :
    ∃ doc stat hash, action.commitContext.targetTextDocBlob = some doc ∧
      fingerprint = .statAndContent stat hash ∧
      db' = db.writeAccepted action.commitContext doc fingerprint acceptedAt := by
  unfold acceptWrite at h
  dsimp only at h
  split at h
  · exact absurd h Runs.throw_iff
  next doc hdoc =>
    simp only [upsertPriorTextObject, deleteProjectionWriteIntentsForPath, Runs.bind_iff,
      Runs.modify_iff] at h
    obtain ⟨⟨⟩, _, rfl, ⟨⟩, t, hupsert, rfl⟩ := h
    obtain ⟨⟨stat, hash, hfp⟩, rfl⟩ := runs_upsertPriorTreeFile hupsert
    exact ⟨doc, stat, hash, hdoc, hfp, rfl⟩

theorem runs_acceptDelete {action : CompletedProjectionAction D} {acceptedAt : Timestamp} {u : PUnit}
    (h : Runs (acceptDelete action acceptedAt) db u db') :
    db' = db.deleteAccepted action.commitContext.path acceptedAt := by
  simp only [acceptDelete, deleteProjectionWriteIntentsForPath, Runs.bind_iff, Runs.modify_iff] at h
  obtain ⟨⟨⟩, t, htomb, rfl⟩ := h
  rw [runs_tombstonePriorTreeFile htomb]
  rfl

/-- An action of a committed epoch landed a write or reached its delete, and the prior tree accepts
it. -/
theorem runs_commitCompletedProjectionActionTx {action : CompletedProjectionAction D}
    {acceptedAt : Timestamp} {u : PUnit}
    (h : Runs (commitCompletedProjectionActionTx acceptedAt action) db u db') :
    (∃ doc stat hash, action.result.landed = some (.statAndContent stat hash) ∧
        action.commitContext.targetTextDocBlob = some doc ∧
        db' = db.writeAccepted action.commitContext doc (.statAndContent stat hash) acceptedAt) ∨
      (action.result.deleted = true ∧
        db' = db.deleteAccepted action.commitContext.path acceptedAt) := by
  unfold commitCompletedProjectionActionTx at h
  dsimp only at h
  split at h
  next hresult =>
    obtain ⟨doc, stat, hash, hdoc, rfl, heq⟩ := runs_acceptWrite h
    exact .inl ⟨doc, stat, hash, by rw [hresult]; rfl, hdoc, heq⟩
  next hresult =>
    obtain ⟨doc, stat, hash, hdoc, rfl, heq⟩ := runs_acceptWrite h
    exact .inl ⟨doc, stat, hash, by rw [hresult]; rfl, hdoc, heq⟩
  · exact absurd h Runs.throw_iff
  next hresult => exact .inr ⟨by rw [hresult]; rfl, runs_acceptDelete h⟩
  next hresult => exact .inr ⟨by rw [hresult]; rfl, runs_acceptDelete h⟩
  · exact absurd h Runs.throw_iff
  · exact absurd h Runs.throw_iff

/-- A result is recorded only if its fingerprint can be stored, and changes nothing else. -/
theorem frame_of_commitProjectionAction {context : ProjectionActionCommitContext D}
    {result : ProjectionActionResult} {db' : Db D} {u : PUnit}
    (h : Runs (commitProjectionAction context result) db u db') :
    (db'.priorTree = db.priorTree ∧ db'.priorTextObjects = db.priorTextObjects) ∧
      ∀ fingerprint, result.landed = some fingerprint →
        ∃ columns, fingerprintColumns "prior_tree" fingerprint = .ok columns := by
  have hmark : ∀ path fingerprint, Runs (markProjectionWriteIntentApplied path fingerprint) db u db' →
      ∃ columns, fingerprintColumns "prior_tree" fingerprint = .ok columns := by
    intro path fingerprint hrun
    simp only [markProjectionWriteIntentApplied, Runs.bind_iff, Runs.liftExcept_iff] at hrun
    obtain ⟨columns, -, ⟨hcolumns, -⟩, -⟩ := hrun
    exact ⟨columns, fingerprintColumns_table hcolumns⟩
  refine ⟨?_, fun fingerprint hlanded => ?_⟩
  · rcases runs_commitProjectionAction h with ⟨-, rfl⟩ | ⟨stat, hash, -, rfl⟩
    · exact ⟨rfl, rfl⟩
    · split_ifs
      · exact ⟨rfl, rfl⟩
      · exact ⟨rfl, rfl⟩
  · unfold ProjectionActionResult.landed at hlanded
    split at hlanded
    · cases hlanded
      exact hmark _ _ h
    · cases hlanded
      exact hmark _ _ h
    · cases hlanded

/-- The commit of an epoch: an invalidated one changes nothing; an exhausted plan moves the prior
namespace to its target and the prior tree over its actions, one after the other. -/
theorem runs_commitProjectionEpochTx {completed : CompletedProjectionEpoch D}
    {reason : ProjectionEpochEndReason} {acceptedAt : Timestamp} {u : PUnit}
    (h : Runs (commitProjectionEpochTx completed reason acceptedAt) db u db') :
    (reason ≠ .planExhausted ∧ db' = db) ∨
      (reason = .planExhausted ∧
        Runs (forM completed.actions (commitCompletedProjectionActionTx acceptedAt))
          { db with priorNamespace := completed.targetNamespaceDocBlob } ⟨⟩ db') := by
  cases reason with
  | actionInvalidatedProjection id =>
    rw [commitProjectionEpochTx, Runs.pure_iff] at h
    exact .inl ⟨nofun, h.2.symm⟩
  | planExhausted =>
    simp only [commitProjectionEpochTx, updatePriorNamespace, Runs.bind_iff, Runs.modify_iff] at h
    obtain ⟨⟨⟩, _, rfl, h⟩ := h
    exact .inr ⟨rfl, h⟩

theorem priorTreeLiveFile_writeAccepted {context : ProjectionActionCommitContext D} {doc : D}
    {fingerprint : FileFingerprint} {now : Timestamp} (path : RelativePath) :
    (db.writeAccepted context doc fingerprint now).priorTreeLiveFile path =
      if context.path = path then
        some ⟨context.path, context.claimedPath, context.claimId, context.objectId, fingerprint, now,
          none⟩
      else db.priorTreeLiveFile path := by
  rw [Db.priorTreeLiveFile, Db.writeAccepted, Table.find?_put]
  split_ifs
  · rfl
  · rfl

theorem priorTreeLiveFile_deleteAccepted {path : RelativePath} {now : Timestamp}
    (path' : RelativePath) :
    (db.deleteAccepted path now).priorTreeLiveFile path' =
      if path = path' then none else db.priorTreeLiveFile path' := by
  rw [Db.priorTreeLiveFile, Db.deleteAccepted, tombstoneAt, Table.find?_updateWhere,
    Db.priorTreeLiveFile]
  cases hfind : db.priorTree.find? path' with
  | none => simp
  | some row =>
    obtain ⟨-, rfl⟩ := Table.find?_eq_some_iff.mp hfind
    by_cases hpath : path = row.path
    · subst hpath
      by_cases hlive : row.deletedAt = none
      · simp [liveAt, hlive, PriorTreeRow.tombstone]
      · simp [liveAt, hlive]
    · have hother : liveAt path row = false := by simp [liveAt, Ne.symm hpath]
      simp [hother, hpath]

/-- A write that landed is accepted. -/
theorem runs_commit_of_landed {id : ProjectionActionId} {context : ProjectionActionCommitContext D}
    {result : ProjectionActionResult} {fingerprint : FileFingerprint} {doc : D} {now : Timestamp}
    {columns : FileStatFingerprint × FileHash} (hlanded : result.landed = some fingerprint)
    (hdoc : context.targetTextDocBlob = some doc)
    (hcolumns : fingerprintColumns "prior_tree" fingerprint = .ok columns) :
    Runs (commitCompletedProjectionActionTx now ⟨id, context, result⟩) db ⟨⟩
      (db.writeAccepted context doc fingerprint now) := by
  have haccept : Runs (acceptWrite ⟨id, context, result⟩ fingerprint now) db ⟨⟩
      (db.writeAccepted context doc fingerprint now) := by
    simp only [acceptWrite, hdoc, upsertPriorTextObject, upsertPriorTreeFile,
      deleteProjectionWriteIntentsForPath, Runs.bind_iff, Runs.modify_iff, Runs.liftExcept_iff]
    exact ⟨⟨⟩, _, rfl, ⟨⟩, _, ⟨columns, _, ⟨hcolumns, rfl⟩, rfl⟩, rfl⟩
  unfold ProjectionActionResult.landed at hlanded
  split at hlanded
  · cases hlanded
    exact haccept
  · cases hlanded
    exact haccept
  · cases hlanded

/-- A delete that reached its target is accepted, unless the clock has gone back. -/
theorem runs_commit_of_deleted {id : ProjectionActionId} {context : ProjectionActionCommitContext D}
    {result : ProjectionActionResult} {now : Timestamp} (hdeleted : result.deleted = true)
    (hclock : ∀ row, db.priorTreeLiveFile context.path = some row → row.acceptedAt ≤ now) :
    Runs (commitCompletedProjectionActionTx now ⟨id, context, result⟩) db ⟨⟩
      (db.deleteAccepted context.path now) := by
  have hcheck : ¬(db.priorTreeLiveFile context.path).any
      (fun row => decide (now < row.acceptedAt)) = true := by
    intro hany
    obtain ⟨row, hrow, hlt⟩ := Option.any_eq_true _ _ |>.mp hany
    exact absurd (hclock row hrow) (not_le.mpr (of_decide_eq_true hlt))
  have haccept : Runs (acceptDelete ⟨id, context, result⟩ now) db ⟨⟩
      (db.deleteAccepted context.path now) := by
    simp only [acceptDelete, tombstonePriorTreeFile, deleteProjectionWriteIntentsForPath,
      Runs.bind_iff, Runs.get_iff, Runs.modify_iff, Runs.ite_iff]
    refine ⟨⟨⟩, _, ⟨db, db, ⟨rfl, rfl⟩, .inr ⟨hcheck, runs_set_iff.mpr rfl⟩⟩, rfl⟩
  unfold ProjectionActionResult.deleted at hdeleted
  split at hdeleted
  · exact haccept
  · exact haccept
  · cases hdeleted

end Spec

end Opbox
