import Opbox.Semantic.CompletedProjection
import Opbox.Semantic.ScanDrift

/-!
# What a request does to the tables about the disk

What was accepted of the disk, what is staged from it and what is to be written to it change in a
few ways only: a scan tombstones rows and plans reads, a read is staged or realigns a row, an import
is committed, a projection is planned, its results are recorded, and it is committed.  `DiskStep`
lists them with the active epoch before and after, and the invariants about the disk are derived
from it.
-/

namespace Opbox

variable {D : Type}

/-- The tables about the disk. -/
structure DiskTables (D : Type) where
  /-- The accepted files. -/
  priorTree : Table PriorTreeRow.path
  /-- Their documents. -/
  priorTextObjects : Table (TextObjectRow.objectId (D := D))
  /-- What is staged. -/
  importStagedFiles : ImportStagedFiles D
  /-- What is to be written. -/
  projectionWriteIntents : Table (WriteIntentRow.key (D := D))
  /-- What has been written. -/
  projectionAppliedWriteIntents : Table AppliedIntentRow.key

/-- The tables about the disk. -/
def Db.disk (db : Db D) : DiskTables D :=
  ⟨db.priorTree, db.priorTextObjects, db.importStagedFiles, db.projectionWriteIntents,
    db.projectionAppliedWriteIntents⟩

/-- What an accepted file is read from. -/
theorem priorText_of_disk [TextCrdt D] {db db' : Db D} {id : ObjectId}
    (h : db'.disk.priorTextObjects = db.disk.priorTextObjects) : db'.priorText id = db.priorText id := by
  have htexts : db'.priorTextObjects = db.priorTextObjects := h
  rw [Db.priorText, Db.priorTextObjectDoc, htexts]
  rfl

variable [TextCrdt D] [CharDiff] [Xxh3] [DecidableEq D]

/-- What a request does to the tables about the disk and to the active epoch. -/
inductive DiskStep (s s' : SemanticActor D) : SemanticRequest D → Prop
  /-- Nothing, if it is about the shared log. -/
  | shared {request : SemanticRequest D} (isShared : request.isShared = true)
      (disk : s'.db.disk = s.db.disk) (active : s'.active = s.active) : DiskStep s s' request
  /-- The first scan plans reads of files it found. -/
  | initScan {scan : ScanResult} (files : List ObservedFile) (found : files ⊆ scan.tree.files)
      (disk : s'.db.disk = s.db.disk)
      (active : s'.active =
        .install .init ⟨s.nextImportEpoch, readActions s.nextImportEpoch files⟩)
      (idle : s.active = .idle) : DiskStep s s' (.applyInitScan scan)
  /-- A scan tombstones the missing rows and plans reads of the files that drifted. -/
  | scan {scan : ScanResult} {now : Timestamp} (idle : s.active = .idle)
      (disk : s'.db.disk = { s.db.disk with
        priorTree := tombstoneAll s.db.priorTree ((s.db.missingPrior scan).map PriorTreeRow.path) now })
      (active : s'.active = if s.db.plannedReads scan = [] then .idle
        else .install .sync ⟨s.nextImportEpoch, readActions s.nextImportEpoch (s.db.plannedReads scan)⟩) :
      DiskStep s s' (.applyScan scan now)
  /-- A file that was read is staged. -/
  | stage {result : ImportActionResult} {now : Timestamp} {objectId : ObjectId}
      {claimId : NamespaceClaimId} (active : ActiveImportEpoch) (context : ImportActionContext)
      (plan : ImportActionStagePlan) (rows : ImportStagedFiles D)
      (importing : s.active = .importing active) (expected : active.context result = some context)
      (decided : prepareImportActionStage context result = .ok (.stage plan))
      (inserted : s.db.importStagedFiles.insert
        (stagedRow plan (s.db.stagedTextImport plan now objectId claimId)) = .ok rows)
      (disk : s'.db.disk = { s.db.disk with importStagedFiles := rows })
      (active' : s'.active =
        .importing { active with completed := result.actionId :: active.completed }) :
      DiskStep s s' (.commitImportAction result now objectId claimId)
  /-- A file that was read is a projection write that was never committed. -/
  | realign {result : ImportActionResult} {now : Timestamp} {objectId : ObjectId}
      {claimId : NamespaceClaimId} (active : ActiveImportEpoch) (context : ImportActionContext)
      (plan : ImportActionStagePlan) (stat : FileStatFingerprint) (hash : FileHash)
      (row : StableTreeRow) (doc : D) (importing : s.active = .importing active)
      (expected : active.context result = some context)
      (decided : prepareImportActionStage context result = .ok (.stage plan))
      (fingerprint : plan.fingerprint = .statAndContent stat hash)
      (realignment : s.db.realignment plan (s.db.appliedIntent plan.path stat hash) = some (row, doc))
      (disk : s'.db.disk = (s.db.realigned plan row doc now).disk)
      (active' : s'.active =
        .importing { active with completed := result.actionId :: active.completed }) :
      DiskStep s s' (.commitImportAction result now objectId claimId)
  /-- A file that was read is not imported. -/
  | skip {result : ImportActionResult} {now : Timestamp} {objectId : ObjectId}
      {claimId : NamespaceClaimId} (active : ActiveImportEpoch) (context : ImportActionContext)
      (importing : s.active = .importing active) (expected : active.context result = some context)
      (decided : ∀ plan, prepareImportActionStage context result ≠ .ok (.stage plan))
      (disk : s'.db.disk = s.db.disk)
      (active' : s'.active =
        .importing { active with completed := result.actionId :: active.completed }) :
      DiskStep s s' (.commitImportAction result now objectId claimId)
  /-- An import is committed. -/
  | commit {now : Timestamp} (active : ActiveImportEpoch) (importing : s.active = .importing active)
      (disk : s'.db.disk = { s.db.disk with
        priorTree := s.db.priorTree.putAll
          ((s.db.importStagedFiles.ofEpoch active.epoch).map (StagedRow.priorRow now))
        priorTextObjects := s.db.priorTextObjects.putAll
          ((s.db.importStagedFiles.ofEpoch active.epoch).map StagedRow.priorText)
        importStagedFiles := s.db.importStagedFiles.deleteEpoch active.epoch })
      (active' : s'.active = .idle) : DiskStep s s' (.commitImportEpoch now)
  /-- A projection is planned, and its writes are intended. -/
  | plan (idle : s.active = .idle)
      (disk : s'.db.disk = { s.db.disk with
        projectionWriteIntents :=
          s.db.projectionWriteIntents.putAll (s.db.rowsToWrite.map fun r => s.db.writeIntent r.1) })
      (active : s'.active = if s.db.plannedProjections = [] then .idle
        else .projecting ⟨⟨s.nextProjectionEpoch, s.db.stableCursor, s.db.stableNamespace,
          projectionActions s.nextProjectionEpoch s.db.plannedProjections⟩, []⟩) :
      DiskStep s s' .getNextWork
  /-- A result of a projection is recorded if it is a planned write that landed. -/
  | record {result : ProjectionActionResult} (active : ActiveProjectionEpoch D)
      (context : ProjectionActionCommitContext D) (projecting : s.active = .projecting active)
      (expected : active.context result = some context)
      (disk : s'.db.disk = s.db.disk ∨ ∃ stat hash,
        result.landed = some (.statAndContent stat hash) ∧
        (s.db.projectionWriteIntents.find? (context.path, hash)).isSome ∧
        s'.db.disk = { s.db.disk with
          projectionAppliedWriteIntents :=
            s.db.projectionAppliedWriteIntents.put ⟨context.path, hash, stat⟩ })
      (active' : s'.active = .projecting { active with completed := result :: active.completed }) :
      DiskStep s s' (.commitProjectionAction result)
  /-- A projection that did not reach its target is dropped. -/
  | drop {reason : ProjectionEpochEndReason} {now : Timestamp} (active : ActiveProjectionEpoch D)
      (projecting : s.active = .projecting active) (disk : s'.db.disk = s.db.disk)
      (active' : s'.active = .idle) : DiskStep s s' (.commitProjectionEpoch reason now)
  /-- A projection is committed, action by action. -/
  | project {now : Timestamp} (active : ActiveProjectionEpoch D)
      (projecting : s.active = .projecting active)
      (run : Runs (forM active.finish.actions (commitCompletedProjectionActionTx now))
        { s.db with priorNamespace := active.finish.targetNamespaceDocBlob } ⟨⟩ s'.db)
      (active' : s'.active = .idle) : DiskStep s s' (.commitProjectionEpoch .planExhausted now)

variable {s s' : SemanticActor D}

/-- What a request does to the tables about the disk. -/
theorem Served.diskStep {request : SemanticRequest D} (h : Served s request s') :
    DiskStep s s' request := by
  cases h with
  | @applyInitScan scan started db hidle hrun =>
    obtain ⟨heq, ⟨files, hfound, rfl⟩, -⟩ := runs_applyInitScan hrun
    refine .initScan files hfound ?_ rfl hidle
    show db.disk = s.db.disk
    rw [heq]
    rfl
  | @applyScan scan now output db hidle hrun =>
    obtain ⟨hdeleted, hwork⟩ := runs_applyScan hrun
    refine .scan hidle ?_ ?_
    · show db.disk = _
      rw [hdeleted.eq]
      rfl
    · have hwork' : output.nextWork =
          if readActions s.nextImportEpoch (s.db.plannedReads scan) = [] then .none
          else .importEpoch ⟨s.nextImportEpoch,
            readActions s.nextImportEpoch (s.db.plannedReads scan)⟩ := hwork
      show ActiveEpoch.ofNextWork output.nextWork = _
      rw [hwork']
      by_cases hnil : s.db.plannedReads scan = []
      · rw [if_pos hnil, if_pos (readActions_eq_nil_iff.mpr hnil)]
        rfl
      · rw [if_neg hnil, if_neg (fun h => hnil (readActions_eq_nil_iff.mp h))]
        rfl
  | @commitImportAction result now objectId claimId active context id db hactive hcontext hrun =>
    obtain ⟨rfl, ⟨plan, t, hplan, hstage, heq⟩ | ⟨hnone, heq⟩⟩ := runs_commitImportAction hrun
    · obtain ⟨stat, hash, hfp, ⟨-, row, doc, hrealign, rfl⟩ | ⟨-, rows, hrows, rfl⟩⟩ :=
        runs_stageImportActionTx hstage
      · refine .realign active context plan stat hash row doc hactive hcontext hplan hfp hrealign ?_
          rfl
        show db.disk = _
        rw [heq]
        rfl
      · refine .stage active context plan rows hactive hcontext hplan hrows ?_ rfl
        show db.disk = _
        rw [heq]
        rfl
    · refine .skip active context hactive hcontext hnone ?_ rfl
      show db.disk = _
      rw [heq]
      rfl
  | @commitImportEpoch now active effects db hactive hcomplete hrun =>
    refine .commit active hactive ?_ rfl
    show db.disk = _
    rcases runs_commitImportEpoch hrun with ⟨-, n, hrun⟩ | ⟨-, n, hrun⟩
    · rw [(runs_commitInitImportEpochTx hrun).1.eq]
      rfl
    · rw [(runs_commitSyncImportEpochTx hrun).1.eq]
      rfl
  | @getNextWork work db hidle hrun =>
    obtain ⟨heq, hwork⟩ := runs_getNextWorkTx hrun
    refine .plan hidle ?_ ?_
    · show db.disk = _
      rw [heq]
      rfl
    · show ActiveEpoch.ofNextWork work = _
      rw [hwork]
      by_cases hnil : s.db.plannedProjections = []
      · rw [if_pos hnil, if_pos hnil]
        rfl
      · rw [if_neg hnil, if_neg hnil]
        rfl
  | @commitProjectionAction result active context u db hactive hcontext hrun =>
    refine .record active context hactive hcontext ?_ rfl
    rcases runs_commitProjectionAction hrun with ⟨-, rfl⟩ | ⟨stat, hash, hlanded, heq⟩
    · exact .inl rfl
    · by_cases hplanned : (s.db.projectionWriteIntents.find? (context.path, hash)).isSome
      · rw [if_pos hplanned] at heq
        refine .inr ⟨stat, hash, hlanded, hplanned, ?_⟩
        show db.disk = _
        rw [heq]
        rfl
      · rw [if_neg hplanned] at heq
        exact .inl (congrArg Db.disk heq)
  | @commitProjectionEpoch reason now active u db hactive hcomplete hrun =>
    rcases runs_commitProjectionEpochTx hrun with ⟨-, rfl⟩ | ⟨rfl, hrun⟩
    · exact .drop active hactive rfl rfl
    · exact .project active hactive hrun rfl
  | @applySharedMessageBatch batch effects db hrun =>
    obtain ⟨docs, happlied, -⟩ := runs_applySharedMessageBatchTx hrun
    refine .shared rfl ?_ rfl
    show db.disk = _
    rw [happlied.eq]
    rfl
  | readOutbox => exact .shared rfl rfl rfl
  | releaseOutbox => exact .shared rfl rfl rfl
  | trimOutbox => exact .shared rfl rfl rfl

end Opbox
