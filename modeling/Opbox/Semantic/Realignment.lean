import Opbox.Semantic.DiskStep

/-!
# Realignment

A projection whose commit never came leaves files on disk that the daemon wrote itself.  When such a
file is read, the prior tree is moved to it and nothing is imported.  What allows this is an invariant
of the write intents: whatever plans, writes, dropped epochs and commits have come and gone, every
intent is filed under the hash of the text of its document.  So a file with the hash of an intent has
the text of its document, and a realignment never swallows an edit.
-/

namespace Opbox

open TextCrdt

section Realignments

variable {D : Type} [TextCrdt D] [CharDiff] [Xxh3] [DecidableEq D]

/-! ## Write intents -/

omit [CharDiff] [DecidableEq D] in
/-- Every intent is filed under the hash of the text of its document. -/
def IntentsHashed (intents : Table (WriteIntentRow.key (D := D))) : Prop :=
  ∀ intent ∈ intents, intent.targetHash = Xxh3.xxh3_64 (getText intent.targetDocBlob)

section Intents

variable {db db' : Db D} {intents : Table (WriteIntentRow.key (D := D))}

omit [CharDiff] [DecidableEq D] in
theorem IntentsHashed.deleteWhere (h : IntentsHashed intents) (p : WriteIntentRow D → Bool) :
    IntentsHashed (intents.deleteWhere p) :=
  fun intent hintent => h intent (Table.mem_deleteWhere.mp hintent).1

omit [CharDiff] in
/-- What a plan intends is filed under its hash. -/
theorem IntentsHashed.plan (h : IntentsHashed db.projectionWriteIntents) :
    IntentsHashed
      (db.projectionWriteIntents.putAll (db.rowsToWrite.map fun r => db.writeIntent r.1)) := by
  intro intent hintent
  rcases Table.mem_of_mem_putAll hintent with hplanned | ⟨hintent, -⟩
  · obtain ⟨r, -, rfl⟩ := List.mem_map.mp hplanned
    rfl
  · exact h intent hintent

omit [CharDiff] [DecidableEq D] in
/-- Accepting actions takes intents away. -/
theorem IntentsHashed.commit {actions : List (CompletedProjectionAction D)} {now : Timestamp}
    (h : IntentsHashed db.projectionWriteIntents)
    (hrun : Runs (forM actions (commitCompletedProjectionActionTx now)) db ⟨⟩ db') :
    IntentsHashed db'.projectionWriteIntents := by
  refine Runs.forM_preserves (fun t => IntentsHashed t.projectionWriteIntents) hrun h ?_
  intro action _ t t' ht hstep
  rcases runs_commitCompletedProjectionActionTx hstep with ⟨doc, stat, hash, -, -, rfl⟩ | ⟨-, rfl⟩
  · exact ht.deleteWhere _
  · exact ht.deleteWhere _

end Intents

variable {s s' : SemanticActor D} {writer : DaemonWriterId}

/-- Every request keeps the intents filed under their hashes. -/
theorem IntentsHashed.served {request : SemanticRequest D}
    (h : IntentsHashed s.db.projectionWriteIntents) (hserved : Served s request s') :
    IntentsHashed s'.db.projectionWriteIntents := by
  -- Most requests leave the table alone.
  have hsame : s'.db.disk.projectionWriteIntents = s.db.disk.projectionWriteIntents →
      IntentsHashed s'.db.projectionWriteIntents := by
    intro heq
    rw [show s'.db.projectionWriteIntents = s.db.projectionWriteIntents from heq]
    exact h
  cases hserved.diskStep with
  | realign active context plan stat hash row doc importing expected decided fingerprint realignment
      disk =>
    rw [show s'.db.projectionWriteIntents = _ from congrArg DiskTables.projectionWriteIntents disk]
    exact h.deleteWhere _
  | plan idle disk =>
    rw [show s'.db.projectionWriteIntents = _ from congrArg DiskTables.projectionWriteIntents disk]
    exact h.plan
  | record active context projecting expected disk =>
    rcases disk with disk | ⟨_, _, -, -, disk⟩
    · exact hsame (by rw [disk])
    · exact hsame (by rw [disk])
  | project active projecting run =>
    have hopened : IntentsHashed ({ s.db with
        priorNamespace := active.finish.targetNamespaceDocBlob } : Db D).projectionWriteIntents := h
    exact hopened.commit run
  | shared isShared disk => exact hsame (by rw [disk])
  | initScan files found disk => exact hsame (by rw [disk])
  | scan idle disk => exact hsame (by rw [disk])
  | stage active context plan rows importing expected decided inserted disk =>
    exact hsame (by rw [disk])
  | skip active context importing expected decided disk => exact hsame (by rw [disk])
  | commit active importing disk => exact hsame (by rw [disk])
  | drop active projecting disk => exact hsame (by rw [disk])

/-- In every run the intents are filed under their hashes. -/
theorem intentsHashed_of_reached (h : (daemonMachine D writer).Reached s) :
    IntentsHashed s.db.projectionWriteIntents := by
  refine Machine.Reachable.invariant (I := fun s => IntentsHashed s.db.projectionWriteIntents)
    ?_ ?_ h
  · rintro s rfl
    exact nofun
  · intro s action s' _ hs _ hstep
    cases action with
    | serve request => exact hs.served (served_of_step hstep)
    | restart =>
      cases hstep
      exact hs

/-! ## Realignments -/

omit [TextCrdt D] [CharDiff] [Xxh3] [DecidableEq D] in
/-- An applied intent is a planned one. -/
theorem exists_of_appliedIntent {db : Db D} {path : RelativePath} {stat : FileStatFingerprint}
    {hash : FileHash} {id : ObjectId} {doc : D} (h : db.appliedIntent path stat hash = some (id, doc)) :
    ∃ intent ∈ db.projectionWriteIntents, intent.path = path ∧ intent.targetHash = hash ∧
      intent.objectId = id ∧ intent.targetDocBlob = doc := by
  unfold Db.appliedIntent at h
  split at h
  next planned applied hplanned happlied =>
    split_ifs at h
    cases h
    have hkey := Table.key_of_find? hplanned
    exact ⟨planned, Table.mem_of_find? hplanned, congrArg Prod.fst hkey, congrArg Prod.snd hkey, rfl,
      rfl⟩
  · cases h

omit [CharDiff] in
/-- A file that realigns the prior tree has the text of the stable document. -/
theorem getText_of_realignment (hinj : Function.Injective Xxh3.xxh3_64) {db : Db D}
    (h : IntentsHashed db.projectionWriteIntents) {plan : ImportActionStagePlan}
    {stat : FileStatFingerprint} {row : StableTreeRow} {doc : D}
    (hrealign : db.realignment plan (db.appliedIntent plan.path stat (Xxh3.xxh3_64 plan.content)) =
      some (row, doc)) : getText doc = plan.content := by
  obtain ⟨hintent, -, -⟩ := realignment_eq_some hrealign
  obtain ⟨intent, hmem, -, hhash, -, rfl⟩ := exists_of_appliedIntent hintent
  exact hinj ((h intent hmem).symm.trans hhash)

/-- What is read has the hash of its bytes, as `guardedRead_ends_hashed` says of every read. -/
def ImportActionResult.HashesContent : ImportActionResult → Prop
  | read _ (.completed result) => result.HashesContent
  | _ => True

omit [Xxh3] [CharDiff] in
/-- What a realignment of a file to a row shows about the database before it, and what it leaves. -/
structure RealignedTo (db db' : Db D) (plan : ImportActionStagePlan) (now : Timestamp)
    (row : StableTreeRow) : Prop where
  /-- The row is what the stable tree places at the path. -/
  placed : db.stableTreeFile plan.path = some row
  /-- The file holds the stable text of the object. -/
  content : getText (db.stableText row.objectId) = plan.content
  /-- The file is accepted with the object. -/
  priorRow : db'.priorTreeLiveFile plan.path = some ⟨plan.path, row.claimedPath, row.claimId,
    row.objectId, plan.fingerprint, now, none⟩
  /-- And with its text. -/
  priorText : getText (db'.priorText row.objectId) = plan.content
  /-- Nothing is planned for the path. -/
  noAction : ∀ planned ∈ db'.plannedProjections, planned.1.path ≠ plan.path
  /-- Nothing is intended for it. -/
  noIntent : ∀ intent ∈ db'.projectionWriteIntents, intent.path ≠ plan.path
  /-- And nothing is recorded of it. -/
  noAppliedIntent : ∀ intent ∈ db'.projectionAppliedWriteIntents, intent.path ≠ plan.path
  /-- The stable state stays. -/
  stableNamespace : db'.stableNamespace = db.stableNamespace
  stableTree : db'.stableTree = db.stableTree
  stableTextObjects : db'.stableTextObjects = db.stableTextObjects
  stableCursor : db'.stableCursor = db.stableCursor
  objects : db'.objects = db.objects
  /-- So does the outbox, and nothing is staged. -/
  outbox : db'.outbox = db.outbox
  importStagedFiles : db'.importStagedFiles = db.importStagedFiles

omit [CharDiff] in
/-- A realignment is sound on a database whose intents are filed under their hashes. -/
theorem realignedTo_of_realignment (hinj : Function.Injective Xxh3.xxh3_64) {db : Db D}
    (h : IntentsHashed db.projectionWriteIntents) {plan : ImportActionStagePlan}
    {stat : FileStatFingerprint} {row : StableTreeRow} {doc : D} {now : Timestamp}
    {ignored : Table IgnoredRow.path}
    (hrealign : db.realignment plan (db.appliedIntent plan.path stat (Xxh3.xxh3_64 plan.content)) =
      some (row, doc)) :
    RealignedTo db { db.realigned plan row doc now with ignoredFiles := ignored } plan now row := by
  have htext := getText_of_realignment hinj h hrealign
  obtain ⟨-, hrow, hdoc⟩ := realignment_eq_some hrealign
  have hstable : db.stableText row.objectId = doc := by rw [Db.stableText, hdoc]; rfl
  have hlive : ({ db.realigned plan row doc now with ignoredFiles := ignored } :
      Db D).priorTreeLiveFile plan.path = some ⟨plan.path, row.claimedPath, row.claimId,
        row.objectId, plan.fingerprint, now, none⟩ := by
    refine Db.priorTreeLiveFile_eq_some_iff.mpr ⟨Table.mem_put.mpr (.inl rfl), rfl, rfl⟩
  have hprior : ({ db.realigned plan row doc now with ignoredFiles := ignored } :
      Db D).priorText row.objectId = doc := by
    exact (priorText_put rfl row.objectId).trans (if_pos rfl)
  have hdeleted : ∀ {r : WriteIntentRow D},
      r ∈ db.projectionWriteIntents.deleteWhere (fun r => decide (r.path = plan.path)) →
        r.path ≠ plan.path := by
    intro r hr
    simpa using (Table.mem_deleteWhere.mp hr).2
  exact {
    placed := hrow
    content := by rw [hstable, htext]
    priorRow := hlive
    priorText := by rw [hprior, htext]
    noAction := by
      refine path_ne_of_snapshot_eq ?_
      have hplaced : ({ db.realigned plan row doc now with ignoredFiles := ignored } :
          Db D).stableSnapshot plan.path = some (row.objectId, db.stableText row.objectId) := by
        show (db.stableTreeFile plan.path).map _ = _
        rw [hrow]
        rfl
      rw [hplaced, Db.priorSnapshot, hlive, Option.map_some, hprior, hstable]
    noIntent := fun _ hintent => hdeleted hintent
    noAppliedIntent := fun intent hintent => by
      simpa using (Table.mem_deleteWhere.mp hintent).2
    stableNamespace := rfl
    stableTree := rfl
    stableTextObjects := rfl
    stableCursor := rfl
    objects := rfl
    outbox := rfl
    importStagedFiles := rfl }

/-- Realignment is sound: where it consumes the import of a file, the file holds the stable text of
the object that is placed there, and the prior tree is moved to it while the stable state and the
outbox stay. -/
theorem realignment_sound (hinj : Function.Injective Xxh3.xxh3_64)
    (h : (daemonMachine D writer).Reached s) {active : ActiveImportEpoch}
    {context : ImportActionContext} {result : ImportActionResult} {plan : ImportActionStagePlan}
    {now : Timestamp} {objectId : ObjectId} {claimId : NamespaceClaimId} {t : Db D}
    (hactive : s.active = .importing active) (hcontext : active.context result = some context)
    (hplan : prepareImportActionStage context result = .ok (.stage plan))
    (hhash : result.HashesContent) (hrealign : Runs (realignTx plan now) s.db true t) :
    ∃ s' row, s.step (.commitImportAction result now objectId claimId) = some s' ∧
      RealignedTo s.db s'.db plan now row := by
  obtain ⟨-, stat, hash, -, hfp, -, hresult, -⟩ := stage_of_prepareImportActionStage hplan
  -- The fingerprint has the hash of the content.
  have hhash' : hash = Xxh3.xxh3_64 plan.content := by
    rw [hresult, hfp] at hhash
    exact hhash stat hash rfl
  have hrealign' : Runs (realignPriorFromWriteIntentTx plan now) s.db true t := by
    unfold realignTx at hrealign
    split at hrealign
    · rw [Runs.pure_iff] at hrealign
      exact absurd hrealign.1 Bool.false_ne_true
    · exact hrealign
  obtain ⟨stat', hash', hfp', ⟨hfalse, -⟩ | ⟨-, row, doc, hsome, rfl⟩⟩ :=
    runs_realignPriorFromWriteIntentTx hrealign'
  · exact absurd hfalse Bool.true_eq_false.mp
  · rw [hfp'] at hfp
    cases hfp
    subst hhash'
    have hrun : Runs (commitImportAction context result now objectId claimId) s.db result.actionId
        { s.db.realigned plan row doc now with
          ignoredFiles := s.db.ignoredFiles.deleteWhere fun r => decide (r.path = plan.path) } := by
      have hid := actionId_of_prepareImportActionStage hplan
      simp only [commitImportAction, stageImportActionTx, Runs.bind_iff, Runs.liftExcept_iff]
      refine ⟨.stage plan, _, ⟨hplan, rfl⟩, ?_⟩
      simp only [deleteIgnoredFile, Runs.bind_iff, Runs.modify_iff, Runs.pure_iff]
      exact ⟨⟨⟩, _, ⟨true, _, hrealign, rfl⟩, ⟨⟩, _, rfl, hid, rfl⟩
    have hsound : RealignedTo s.db { s.db.realigned plan row doc now with
        ignoredFiles := s.db.ignoredFiles.deleteWhere fun r => decide (r.path = plan.path) }
        plan now row :=
      realignedTo_of_realignment hinj (intentsHashed_of_reached h) hsome
    refine ⟨{ s with
        db := _
        active := .importing { active with completed := result.actionId :: active.completed } },
      row, ?_, hsound⟩
    · unfold SemanticActor.step
      rw [hactive]
      dsimp only
      rw [hcontext, Option.bind_some, attempt_eq_some_iff.mpr hrun]
      rfl

end Realignments

/-! ## A write whose commit never came -/

open Snapshots

/-- Another daemon claims a file with a text.  The file is written, but its epoch is invalidated, so a
scan finds the file as one it has never seen. -/
def lostWriteRun : List (DaemonAction Doc) :=
  serveBatch (foreignBatch 0 [.namespaceUpdate (NamespaceDoc.mintedOps 77 0
    [.object [3] ⟨.text, [9]⟩, .claim [4] ⟨[3], rootFile 1⟩]),
    .textObjectUpdate [3] (Doc.write (new : Doc) 77 [104])]) ++
  [.serve .getNextWork,
    .serve (.commitProjectionAction (.writeFile ⟨0, 0⟩
      (.written (.statAndContent (fileStat 7 1 0) [104])))),
    .serve (.commitProjectionEpoch (.actionInvalidatedProjection ⟨0, 0⟩) 0),
    .serve (.applyScan (scanOf .full [(rootFile 1, fileStat 7 1 0)]) 1)]

/-- The read of the file. -/
def lostWriteRead : ImportActionResult :=
  .read ⟨0, 0⟩ (.completed (.read [104] (.statAndContent (fileStat 7 1 0) [104])))

/-- What the file is staged as. -/
def lostWritePlan : ImportActionStagePlan where
  actionId := ⟨0, 0⟩
  epochKind := .sync
  path := rootFile 1
  content := [104]
  fingerprint := .statAndContent (fileStat 7 1 0) [104]

/-- `realignment_sound` where the file is read. -/
theorem realignment_sound_lostWrite : ∃ s s' : SemanticActor Doc,
    (daemonMachine Doc [0, 0, 0, 1]).exec (.start (Db.initialized Doc [0, 0, 0, 1] 0)) lostWriteRun =
        some s ∧
      ∃ row, s.step (.commitImportAction lostWriteRead 2 [5] [6]) = some s' ∧
        RealignedTo s.db s'.db lostWritePlan 2 row := by
  have hrun : ((daemonMachine Doc [0, 0, 0, 1]).exec
      (.start (Db.initialized Doc [0, 0, 0, 1] 0)) lostWriteRun).any (fun s => s.active.importing?.any fun active =>
        (active.context lostWriteRead).any fun context =>
          decide (prepareImportActionStage context lostWriteRead = .ok (.stage lostWritePlan)) &&
          (attempt (realignTx lostWritePlan 2) s.db).any fun r => r.1) = true := by decide +kernel
  obtain ⟨s, hs, hrun⟩ := Machine.exists_exec hrun
  obtain ⟨active, himporting, hrun⟩ := (Option.any_eq_true _ _).mp hrun
  have hactive := ActiveEpoch.importing?_eq_some_iff.mp himporting
  obtain ⟨context, hcontext, hrun⟩ := (Option.any_eq_true _ _).mp hrun
  obtain ⟨hplan, hrealign⟩ := (Bool.and_eq_true_iff).mp hrun
  obtain ⟨⟨realigned, t⟩, hattempt, rfl⟩ := (Option.any_eq_true _ _).mp hrealign
  have hhash : lostWriteRead.HashesContent := by
    intro stat hash hfp
    cases hfp
    rfl
  obtain ⟨s', row, hstep, hsound⟩ : ∃ s' row,
      s.step (.commitImportAction lostWriteRead 2 [5] [6]) = some s' ∧
        RealignedTo s.db s'.db lostWritePlan 2 row :=
    realignment_sound Function.injective_id (Machine.reached_of_exec rfl hs) hactive hcontext
      (of_decide_eq_true hplan) hhash (attempt_eq_some_iff.mp hattempt)
  exact ⟨s, s', hs, row, hstep, hsound⟩

end Opbox
