import Opbox.Semantic.Scan

/-!
# Staging the files of an import

What becomes of a file that an import has read (`semantic/service.rs`).  The bytes must be text.  A
file that the daemon itself wrote in a projection that never committed realigns the prior tree and
is not imported.  Any other file is staged: as an update of the live row of its path, as the
resurrection of a recent tombstone of its path or its file key, or as a new object.
-/

namespace Opbox

variable {D : Type}

/-- `RECENT_TOMBSTONE_REUSE_WINDOW_SECS`, in nanoseconds. -/
def recentTombstoneReuseWindow : Timestamp := 5 * 60 * 1000000000

/-! ## Text -/

/-- The ranges of the bytes that follow a leading byte in well-formed UTF-8. -/
def utf8Tail (lead : Nat) : Option (List (Nat × Nat)) :=
  if lead < 0x80 then some []
  else if lead < 0xC2 then none
  else if lead < 0xE0 then some [(0x80, 0xBF)]
  else if lead = 0xE0 then some [(0xA0, 0xBF), (0x80, 0xBF)]
  else if lead = 0xED then some [(0x80, 0x9F), (0x80, 0xBF)]
  else if lead < 0xF0 then some [(0x80, 0xBF), (0x80, 0xBF)]
  else if lead = 0xF0 then some [(0x90, 0xBF), (0x80, 0xBF), (0x80, 0xBF)]
  else if lead < 0xF4 then some [(0x80, 0xBF), (0x80, 0xBF), (0x80, 0xBF)]
  else if lead = 0xF4 then some [(0x80, 0x8F), (0x80, 0xBF), (0x80, 0xBF)]
  else none

/-- The bytes are the expected tail followed by well-formed UTF-8. -/
def isUtf8From : List (Nat × Nat) → Bytes → Bool
  | [], [] => true
  | _ :: _, [] => false
  | [], b :: bs =>
    match utf8Tail b.val with
    | none => false
    | some ranges => isUtf8From ranges bs
  | (lo, hi) :: ranges, b :: bs =>
    decide (lo ≤ b.val) && decide (b.val ≤ hi) && isUtf8From ranges bs

/-- `String::from_utf8` succeeds. -/
def isUtf8 (bytes : Bytes) : Bool := isUtf8From [] bytes

/-! ## The decision about a read -/

/-- `ImportActionStagePlan`. -/
structure ImportActionStagePlan where
  /-- The action. -/
  actionId : ImportActionId
  /-- The kind of the epoch. -/
  epochKind : ImportEpochKind
  /-- The file. -/
  path : RelativePath
  /-- The file as it was read. -/
  fingerprint : FileFingerprint
  /-- Its text. -/
  content : Bytes
  deriving DecidableEq

/-- `ImportActionStageDecision`. -/
inductive ImportActionStageDecision where
  | stage (plan : ImportActionStagePlan)
  | ignore (actionId : ImportActionId)
  | ignorePersist (actionId : ImportActionId) (path : RelativePath) (stat : FileStatFingerprint)
      (reason : IgnoredReason)
  deriving DecidableEq

/-- The action a decision belongs to. -/
def ImportActionStageDecision.actionId : ImportActionStageDecision → ImportActionId
  | stage plan => plan.actionId
  | ignore actionId => actionId
  | ignorePersist actionId _ _ _ => actionId

/-- An action id as the debug format prints it. -/
def ImportActionId.shown (id : ImportActionId) : String :=
  s!"ImportActionId \x7b epoch: ImportEpoch({id.epoch}), seq: {id.seq} \x7d"

/-- `prepare_import_action_stage`. -/
def prepareImportActionStage (context : ImportActionContext) (result : ImportActionResult) :
    Except SemanticTransactionError ImportActionStageDecision :=
  match context.actionKind, result with
  | .read path expected, .read actionId outcome =>
    match outcome with
    | .completed (.read bytes fingerprint) =>
      let shown := actionId.shown
      if !fingerprint.satisfies expected then
        .error (.fatal
          s!"import read {shown} returned fingerprint that does not satisfy expected fingerprint")
      else
        match fingerprint with
        | .statOnly _ => .error (.fatal s!"import read {shown} returned stat-only fingerprint")
        | .statAndContent stat content =>
          if maxSyncFileSize < stat.size then .ok (.ignorePersist actionId path stat .tooLarge)
          else if isUtf8 bytes then
            .ok (.stage ⟨actionId, context.epochKind, path, .statAndContent stat content, bytes⟩)
          else .ok (.ignorePersist actionId path stat .nonUtf8)
    -- A file that changes under the import waits for the scan that its change causes.
    | .completed (.changedBetweenStats _ _) => .ok (.ignore actionId)
    | .completed (.conflictBeforeRead _) => .ok (.ignore actionId)
    | .failed permissionDenied error =>
      if permissionDenied then .ok (.ignorePersist actionId path expected.stat .permissionDenied)
      else .error (.fatal error)
  | .stat _, .stat actionId =>
    let shown := actionId.shown
    .error (.fatal s!"import stat actions are not supported yet: {shown}")
  | _, result =>
    let shown := result.actionId.shown
    .error (.fatal
      s!"import action result {shown} did not match expected import action context")

/-! ## Staging -/

/-- `StagedTextImport`. -/
structure StagedTextImport (D : Type) where
  /-- What the import does. -/
  stageKind : StageKind
  /-- The object. -/
  objectId : ObjectId
  /-- The claim. -/
  claimId : NamespaceClaimId
  /-- The document after the import. -/
  priorDocBlob : D
  /-- The operations of the import. -/
  textUpdate : Option D

/-- `stage_new_text_file`: a new object and a new claim, with the whole document as update. -/
def stageNewTextFile [TextCrdt D] (client : Nat) (content : Bytes) (objectId : ObjectId)
    (claimId : NamespaceClaimId) : StagedTextImport D :=
  let doc := TextDoc.textStateFromContent client content
  ⟨.new, objectId, claimId, doc, some doc⟩

/-- The stable document of an object, a missing one counting as empty. -/
def Db.stableText [TextCrdt D] (db : Db D) (id : ObjectId) : D :=
  (db.stableTextObjectDoc id).getD TextDoc.emptyTextState

/-- The prior document of an object, a missing one counting as empty. -/
def Db.priorText [TextCrdt D] (db : Db D) (id : ObjectId) : D :=
  (db.priorTextObjectDoc id).getD TextDoc.emptyTextState

/-- `stage_existing_text_file`: the edit from the text last accepted for the object of a row. -/
def stageExistingTextFile [TextCrdt D] [CharDiff] (db : Db D) (client : Nat)
    (plan : ImportActionStagePlan) (prior : PriorTreeRow) (stageKind : StageKind) (claimId : NamespaceClaimId) :
    StagedTextImport D :=
  let priorDoc := db.priorText prior.objectId
  match TextDoc.captureTextChange client priorDoc (TextCrdt.getText priorDoc) plan.content with
  | some capture =>
    ⟨stageKind, prior.objectId, claimId, capture.fullStateBytes, some capture.updateBytes⟩
  | none => ⟨stageKind, prior.objectId, claimId, priorDoc, none⟩

/-- The recent tombstone whose object a new file takes over: of its path, or else of its file key. -/
def Db.reusableTombstone (db : Db D) (plan : ImportActionStagePlan) (now : Timestamp) :
    Option PriorTreeRow :=
  let cutoff := now - recentTombstoneReuseWindow
  (db.recentTombstonedFile plan.path cutoff).or
    (db.recentTombstonedFileByFileKey plan.fingerprint.stat.fileKey cutoff)

/-- What a file is staged as; `objectId` and `claimId` are generated. -/
def Db.stagedTextImport [TextCrdt D] [CharDiff] (db : Db D) (plan : ImportActionStagePlan)
    (now : Timestamp) (objectId : ObjectId) (claimId : NamespaceClaimId) : StagedTextImport D :=
  let client := clientIdForWriter db.writerId
  match plan.epochKind with
  | .init => stageNewTextFile client plan.content objectId claimId
  | .sync =>
    match db.priorTreeLiveFile plan.path with
    | some prior => stageExistingTextFile db client plan prior .update prior.claimId
    | none =>
      match db.reusableTombstone plan now with
      | some prior => stageExistingTextFile db client plan prior .resurrect claimId
      | none => stageNewTextFile client plan.content objectId claimId

/-- A file is staged as a new one or over the object of a row. -/
theorem stagedTextImport_cases [TextCrdt D] [CharDiff] (db : Db D) (plan : ImportActionStagePlan)
    (now : Timestamp) (objectId : ObjectId) (claimId : NamespaceClaimId) :
    db.stagedTextImport plan now objectId claimId =
        stageNewTextFile (clientIdForWriter db.writerId) plan.content objectId claimId ∨
      ∃ prior kind claim, kind ≠ StageKind.new ∧ db.stagedTextImport plan now objectId claimId =
        stageExistingTextFile db (clientIdForWriter db.writerId) plan prior kind claim := by
  unfold Db.stagedTextImport
  cases plan.epochKind with
  | init => exact .inl rfl
  | sync =>
    dsimp only
    split
    · exact .inr ⟨_, _, _, by decide, rfl⟩
    · split
      · exact .inr ⟨_, _, _, by decide, rfl⟩
      · exact .inl rfl

/-- Over an object the edit is captured, or there is none. -/
theorem stageExistingTextFile_cases [TextCrdt D] [CharDiff] (db : Db D) (client : Nat)
    (plan : ImportActionStagePlan) (prior : PriorTreeRow) (kind : StageKind)
    (claimId : NamespaceClaimId) :
    (∃ capture, TextDoc.captureTextChange client (db.priorText prior.objectId)
          (TextCrdt.getText (db.priorText prior.objectId)) plan.content = some capture ∧
        stageExistingTextFile db client plan prior kind claimId =
          ⟨kind, prior.objectId, claimId, capture.fullStateBytes, some capture.updateBytes⟩) ∨
      stageExistingTextFile db client plan prior kind claimId =
        ⟨kind, prior.objectId, claimId, db.priorText prior.objectId, none⟩ := by
  unfold stageExistingTextFile
  dsimp only
  cases hcapture : TextDoc.captureTextChange client (db.priorText prior.objectId)
      (TextCrdt.getText (db.priorText prior.objectId)) plan.content with
  | some capture => exact .inl ⟨capture, rfl, rfl⟩
  | none => exact .inr rfl

/-- The row of `import_staged_files` for a staged file. -/
def stagedRow (plan : ImportActionStagePlan) (staged : StagedTextImport D) : StagedRow D :=
  ⟨plan.actionId.epoch, plan.actionId.seq, plan.path, staged.objectId, staged.claimId,
    staged.stageKind, plan.fingerprint, staged.priorDocBlob, staged.textUpdate⟩

/-- What the file should realign the prior tree to: the stable row of the path and the stable
document, if the file is an applied projection write and nothing has moved on since. -/
def Db.realignment [DecidableEq D] (db : Db D) (plan : ImportActionStagePlan)
    (intent : Option (ObjectId × D)) : Option (StableTreeRow × D) := do
  let (intentObjectId, targetDocBlob) ← intent
  let row ← (db.stableTreeFile plan.path).filter fun row => row.objectId = intentObjectId
  let stableDocBlob ← db.stableTextObjectDoc intentObjectId
  if stableDocBlob = targetDocBlob then some (row, stableDocBlob) else none

/-- `realign_prior_from_write_intent_tx`; whether the import of the file is consumed. -/
def realignPriorFromWriteIntentTx [DecidableEq D] (plan : ImportActionStagePlan) (now : Timestamp) :
    Tx D Bool := do
  let intent ← selectAppliedProjectionWriteIntent plan.path plan.fingerprint
  let db ← get
  match db.realignment plan intent with
  | none => pure false
  | some (row, stableDocBlob) =>
    upsertPriorTextObject row.objectId stableDocBlob
    upsertPriorTreeFile plan.path row.claimedPath row.claimId row.objectId plan.fingerprint now
    deleteProjectionWriteIntentsForPath plan.path
    pure true

/-- The file goes through the realignment first: in the epochs of a running daemon. -/
def realignTx [DecidableEq D] (plan : ImportActionStagePlan) (now : Timestamp) : Tx D Bool :=
  match plan.epochKind with
  | .init => pure false
  | .sync => realignPriorFromWriteIntentTx plan now

/-- `stage_import_action_tx`. -/
def stageImportActionTx [TextCrdt D] [CharDiff] [DecidableEq D] (plan : ImportActionStagePlan)
    (now : Timestamp) (objectId : ObjectId) (claimId : NamespaceClaimId) : Tx D PUnit := do
  let realigned ← realignTx plan now
  if realigned then pure ⟨⟩
  else do
    let db ← get
    insertImportStagedFile (stagedRow plan (db.stagedTextImport plan now objectId claimId))

/-- `commit_import_action`. -/
def commitImportAction [TextCrdt D] [CharDiff] [DecidableEq D] (context : ImportActionContext)
    (result : ImportActionResult) (now : Timestamp) (objectId : ObjectId)
    (claimId : NamespaceClaimId) : Tx D ImportActionId := do
  let decision ← prepareImportActionStage context result
  match decision with
  | .stage plan =>
    stageImportActionTx plan now objectId claimId
    deleteIgnoredFile plan.path
  | .ignorePersist _ path stat reason => upsertIgnoredFile path reason stat
  | .ignore _ => pure ⟨⟩
  pure decision.actionId

/-! ## What staging does -/

section Spec

variable {db db' : Db D}

/-- A file is realigned to the stable row of its path and the stable document of its object. -/
theorem realignment_eq_some [DecidableEq D] {plan : ImportActionStagePlan}
    {intent : Option (ObjectId × D)} {row : StableTreeRow} {doc : D}
    (h : db.realignment plan intent = some (row, doc)) :
    intent = some (row.objectId, doc) ∧ db.stableTreeFile plan.path = some row ∧
      db.stableTextObjectDoc row.objectId = some doc := by
  simp only [Db.realignment, Option.bind_eq_bind, Option.bind_eq_some_iff,
    Option.filter_eq_some_iff, decide_eq_true_eq] at h
  obtain ⟨⟨object, target⟩, rfl, row', ⟨hrow, rfl⟩, doc', hdoc, h⟩ := h
  split_ifs at h with heq
  simp only [Option.some.injEq, Prod.mk.injEq] at h
  obtain ⟨rfl, rfl⟩ := h
  exact ⟨by rw [heq], hrow, hdoc⟩

/-- The database after a realignment of a path. -/
def Db.realigned (db : Db D) (plan : ImportActionStagePlan) (row : StableTreeRow) (doc : D)
    (now : Timestamp) : Db D :=
  { db with
    priorTextObjects := db.priorTextObjects.put ⟨row.objectId, doc⟩
    priorTree := db.priorTree.put
      ⟨plan.path, row.claimedPath, row.claimId, row.objectId, plan.fingerprint, now, none⟩
    projectionWriteIntents :=
      db.projectionWriteIntents.deleteWhere fun r => decide (r.path = plan.path)
    projectionAppliedWriteIntents :=
      db.projectionAppliedWriteIntents.deleteWhere fun r => decide (r.path = plan.path) }

/-- Either the file has no realignment and nothing changes, or the prior tree is realigned. -/
theorem runs_realignPriorFromWriteIntentTx [DecidableEq D] {plan : ImportActionStagePlan}
    {now : Timestamp} {b : Bool}
    (h : Runs (realignPriorFromWriteIntentTx (D := D) plan now) db b db') :
    ∃ stat hash, plan.fingerprint = .statAndContent stat hash ∧
      ((b = false ∧ db' = db ∧
          db.realignment plan (db.appliedIntent plan.path stat hash) = none) ∨
        (b = true ∧ ∃ row doc,
          db.realignment plan (db.appliedIntent plan.path stat hash) = some (row, doc) ∧
          db' = db.realigned plan row doc now)) := by
  simp only [realignPriorFromWriteIntentTx, Runs.bind_iff, Runs.get_iff] at h
  obtain ⟨intent, t, hselect, db, _, ⟨rfl, rfl⟩, h⟩ := h
  obtain ⟨rfl, stat, hash, hfp, rfl⟩ := runs_selectAppliedProjectionWriteIntent hselect
  refine ⟨stat, hash, hfp, ?_⟩
  split at h
  next hnone =>
    rw [Runs.pure_iff] at h
    obtain ⟨rfl, rfl⟩ := h
    exact .inl ⟨rfl, rfl, hnone⟩
  next row doc hsome =>
    simp only [upsertPriorTextObject, deleteProjectionWriteIntentsForPath, Runs.bind_iff,
      Runs.modify_iff, Runs.pure_iff] at h
    obtain ⟨⟨⟩, _, rfl, ⟨⟩, t, hupsert, ⟨⟩, _, rfl, rfl, rfl⟩ := h
    obtain ⟨-, rfl⟩ := runs_upsertPriorTreeFile hupsert
    exact .inr ⟨rfl, row, doc, hsome, rfl⟩

/-- What staging a file does: it realigns the prior tree, or adds one staged row. -/
theorem runs_stageImportActionTx [TextCrdt D] [CharDiff] [DecidableEq D]
    {plan : ImportActionStagePlan} {now : Timestamp} {objectId : ObjectId} {claimId : NamespaceClaimId} {u : PUnit}
    (h : Runs (stageImportActionTx (D := D) plan now objectId claimId) db u db') :
    ∃ stat hash, plan.fingerprint = .statAndContent stat hash ∧
      ((plan.epochKind = .sync ∧ ∃ row doc,
          db.realignment plan (db.appliedIntent plan.path stat hash) = some (row, doc) ∧
          db' = db.realigned plan row doc now) ∨
        ((plan.epochKind = .sync →
            db.realignment plan (db.appliedIntent plan.path stat hash) = none) ∧
          ∃ rows, db.importStagedFiles.insert
              (stagedRow plan (db.stagedTextImport plan now objectId claimId)) = .ok rows ∧
            db' = { db with importStagedFiles := rows })) := by
  simp only [stageImportActionTx, Runs.bind_iff] at h
  obtain ⟨b, t, hrealign, h⟩ := h
  unfold realignTx at hrealign
  cases hkind : plan.epochKind with
  | init =>
    rw [hkind, Runs.pure_iff] at hrealign
    obtain ⟨rfl, rfl⟩ := hrealign
    simp only [Bool.false_eq_true, if_false, Runs.bind_iff, Runs.get_iff] at h
    obtain ⟨db, _, ⟨rfl, rfl⟩, h⟩ := h
    obtain ⟨⟨stat, hash, hfp⟩, rows, hrows, rfl⟩ := runs_insertImportStagedFile h
    exact ⟨stat, hash, hfp, .inr ⟨by rintro ⟨⟩, rows, hrows, rfl⟩⟩
  | sync =>
    rw [hkind] at hrealign
    obtain ⟨stat, hash, hfp, ⟨rfl, rfl, hnone⟩ | ⟨rfl, row, doc, hsome, rfl⟩⟩ :=
      runs_realignPriorFromWriteIntentTx hrealign
    · simp only [Bool.false_eq_true, if_false, Runs.bind_iff, Runs.get_iff] at h
      obtain ⟨db, _, ⟨rfl, rfl⟩, h⟩ := h
      obtain ⟨-, rows, hrows, rfl⟩ := runs_insertImportStagedFile h
      exact ⟨stat, hash, hfp, .inr ⟨fun _ => hnone, rows, hrows, rfl⟩⟩
    · simp only [if_true, Runs.pure_iff] at h
      obtain ⟨-, rfl⟩ := h
      exact ⟨stat, hash, hfp, .inl ⟨rfl, row, doc, hsome, rfl⟩⟩

/-- A decision keeps the id of its result. -/
theorem actionId_of_prepareImportActionStage {context : ImportActionContext}
    {result : ImportActionResult} {decision : ImportActionStageDecision}
    (h : prepareImportActionStage context result = .ok decision) :
    decision.actionId = result.actionId := by
  unfold prepareImportActionStage at h
  split at h
  · split at h
    next bytes fingerprint =>
      cases fingerprint with
      | statOnly stat => split_ifs at h
      | statAndContent stat content =>
        dsimp only at h
        split_ifs at h <;> cases h <;> rfl
    · cases h; rfl
    · cases h; rfl
    · split_ifs at h
      cases h
      rfl
  · cases h
  · cases h

/-- A file is staged only as the read that its action asked for, with text that is small enough. -/
theorem stage_of_prepareImportActionStage {context : ImportActionContext}
    {result : ImportActionResult} {plan : ImportActionStagePlan}
    (h : prepareImportActionStage context result = .ok (.stage plan)) :
    ∃ expected stat hash, context.actionKind = .read plan.path expected ∧
      plan.fingerprint = .statAndContent stat hash ∧ plan.epochKind = context.epochKind ∧
      result = .read plan.actionId (.completed (.read plan.content plan.fingerprint)) ∧
      plan.fingerprint.satisfies expected = true ∧ isUtf8 plan.content = true ∧
      stat.size ≤ maxSyncFileSize := by
  unfold prepareImportActionStage at h
  split at h
  next path expected actionId outcome hkind =>
    split at h
    next bytes fingerprint =>
      cases fingerprint with
      | statOnly stat => split_ifs at h
      | statAndContent stat content =>
        dsimp only at h
        split_ifs at h with hsat hsize hutf
        · cases h
        · rw [Except.ok.injEq, ImportActionStageDecision.stage.injEq] at h
          subst h
          exact ⟨expected, _, _, hkind, rfl, rfl, rfl, by simpa using hsat, hutf, not_lt.mp hsize⟩
        · cases h
    · cases h
    · cases h
    · split_ifs at h
      cases h
  · cases h
  · cases h

/-- What committing the result of a read does: it stages the file, or touches the entries of
ignored files only. -/
theorem runs_commitImportAction [TextCrdt D] [CharDiff] [DecidableEq D]
    {context : ImportActionContext} {result : ImportActionResult} {now : Timestamp} {objectId : ObjectId}
    {claimId : NamespaceClaimId} {id : ImportActionId}
    (h : Runs (commitImportAction (D := D) context result now objectId claimId) db id db') :
    id = result.actionId ∧
      ((∃ plan t, prepareImportActionStage context result = .ok (.stage plan) ∧
          Runs (stageImportActionTx plan now objectId claimId) db ⟨⟩ t ∧
          db' = { t with ignoredFiles := db'.ignoredFiles }) ∨
        ((∀ plan, prepareImportActionStage context result ≠ .ok (.stage plan)) ∧
          db' = { db with ignoredFiles := db'.ignoredFiles })) := by
  simp only [commitImportAction, Runs.bind_iff, Runs.liftExcept_iff] at h
  obtain ⟨decision, _, ⟨hdecision, rfl⟩, h⟩ := h
  have hid := actionId_of_prepareImportActionStage hdecision
  cases decision with
  | stage plan =>
    simp only [Runs.bind_iff, deleteIgnoredFile, Runs.modify_iff, Runs.pure_iff] at h
    obtain ⟨⟨⟩, t, hstage, ⟨⟩, _, rfl, rfl, rfl⟩ := h
    exact ⟨hid, .inl ⟨plan, t, hdecision, hstage, rfl⟩⟩
  | ignore actionId =>
    rw [Runs.pure_iff] at h
    obtain ⟨rfl, rfl⟩ := h
    exact ⟨hid, .inr ⟨fun plan hplan => by simp [hdecision] at hplan, rfl⟩⟩
  | ignorePersist actionId path stat reason =>
    simp only [Runs.bind_iff, Runs.pure_iff] at h
    obtain ⟨⟨⟩, t, hupsert, rfl, rfl⟩ := h
    rw [runs_upsertIgnoredFile hupsert]
    exact ⟨hid, .inr ⟨fun plan hplan => by simp [hdecision] at hplan, rfl⟩⟩

end Spec

end Opbox
