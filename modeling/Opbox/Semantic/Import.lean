import Opbox.Semantic.Staging

/-!
# Committing an import

The commit of an import epoch (`semantic/service.rs`).  The staged files of the epoch enter the
namespaces, the text documents and the prior tree, and the same operations enter the outbox, all in
one transaction.
-/

namespace Opbox

variable {D : Type}

/-! ## Validation -/

/-- A stage kind as the debug format prints it. -/
def StageKind.shown : StageKind → String
  | new => "New"
  | resurrect => "Resurrect"
  | update => "Update"

/-- The checks on the completed actions. -/
def validateCompletedActions (epochKind : ImportEpochKind) (completed : CompletedImportEpoch) :
    List ImportAction → Except SemanticTransactionError PUnit
  | [] => .ok ⟨⟩
  | action :: actions =>
    let what := match epochKind with | .init => "import" | .sync => "sync import"
    let shown := action.id.shown
    if action.id.epoch ≠ completed.epoch then
      .error (.invariantViolation
        s!"completed {what} action {shown} is not in epoch ImportEpoch({completed.epoch})")
    else
      match epochKind, action.kind with
      | .sync, .stat _ =>
        .error (.invariantViolation s!"sync import epoch cannot commit stat action {shown}")
      | _, _ => validateCompletedActions epochKind completed actions

/-- The checks on one staged row: it has a completed read action of its path, and the first import
stages new files only. -/
def validateStagedRow (epochKind : ImportEpochKind) (completed : CompletedImportEpoch)
    (row : StagedRow D) : Except SemanticTransactionError PUnit :=
  let staged := match epochKind with | .init => "init import" | .sync => "sync import"
  let what := match epochKind with | .init => "import" | .sync => "sync import"
  let id : ImportActionId := ⟨row.importEpoch, row.actionSeq⟩
  let shown := id.shown
  match completed.actions.find? fun action => action.id = id with
  | none =>
    .error (.invariantViolation
      s!"staged {staged} row epoch=ImportEpoch({row.importEpoch}) seq={row.actionSeq} has no completed action")
  | some action =>
    if row.importEpoch ≠ completed.epoch then
      .error (.invariantViolation
        s!"staged {staged} row {shown} is not in epoch ImportEpoch({completed.epoch})")
    else if epochKind = .init ∧ row.stageKind ≠ .new then
      let kind := row.stageKind.shown
      .error (.invariantViolation s!"init import action {shown} staged non-new row: {kind}")
    else
      match action.kind with
      | .read path _ =>
        if path = row.path then .ok ⟨⟩
        else
          let path := String.ofList path.toDbPath
          let stagedPath := String.ofList row.path.toDbPath
          .error (.invariantViolation
            s!"completed {what} action {shown} path {path} does not match staged path {stagedPath}")
      | .stat _ =>
        .error (.invariantViolation s!"{staged} epoch cannot commit stat action {shown}")

/-- `validate_init_staged_rows` and `validate_sync_staged_rows`. -/
def validateStagedRows (epochKind : ImportEpochKind) (completed : CompletedImportEpoch)
    (staged : List (StagedRow D)) : Except SemanticTransactionError PUnit := do
  validateCompletedActions epochKind completed completed.actions
  forM staged (validateStagedRow epochKind completed)

/-! ## The operations of an import -/

/-- The namespace entries of a staged row: a new file brings an object and a claim, a resurrected
one a claim. -/
def StagedRow.entries (creator : DaemonWriterId) (row : StagedRow D) : List NsEntry :=
  match row.stageKind with
  | .new => [.object row.objectId ⟨.text, creator⟩, .claim row.claimId ⟨row.objectId, row.path⟩]
  | .resurrect => [.claim row.claimId ⟨row.objectId, row.path⟩]
  | .update => []

/-- Add the objects and claims of a staged row. -/
def addStaged (client : Nat) (creator : DaemonWriterId) (doc : NamespaceDoc) (row : StagedRow D) :
    NamespaceDoc :=
  match row.stageKind with
  | .new =>
    NamespaceDoc.addNewClaim client
      (NamespaceDoc.addNewObject client doc row.objectId .text creator) row.claimId row.objectId
      row.path
  | .resurrect => NamespaceDoc.addNewClaim client doc row.claimId row.objectId row.path
  | .update => doc

/-- The stable document after a staged row. -/
def stagedStableDoc [TextCrdt D] (stable : Option D) (row : StagedRow D) : D :=
  match row.textUpdate with
  | none => stable.getD TextDoc.emptyTextState
  | some update => TextDoc.applyTextUpdate (stable.getD TextDoc.emptyTextState) update

/-- The text part of the commit of one staged row. -/
def commitStagedRow [TextCrdt D] (now : Timestamp) (row : StagedRow D) : Tx D PUnit := do
  let db ← get
  upsertStableTextObject row.objectId
    (stagedStableDoc (db.stableTextObjectDoc row.objectId) row)
  upsertPriorTextObject row.objectId row.priorDocBlob
  upsertPriorTreeFile row.path row.path row.claimId row.objectId row.fingerprint now

/-- The text messages of an import. -/
def textMessages (staged : List (StagedRow D)) : List (SharedMessage D) :=
  staged.filterMap fun row => row.textUpdate.map fun update => .textObjectUpdate row.objectId update

/-- The namespace phase of `commit_sync_import_epoch_tx`; the namespace messages. -/
def commitStagedNamespace (staged : List (StagedRow D)) (now : Timestamp) :
    Tx D (List (SharedMessage D)) := do
  if staged.any fun row => decide (row.stageKind ≠ .update) then do
    let db ← get
    let client := clientIdForWriter db.writerId
    let priorDoc := staged.foldl (addStaged client db.writerId) db.priorNamespace
    let update := priorDoc.encodeUpdateSince db.priorNamespace.stateVector
    if update = ∅ then
      throw (.invariantViolation
        "sync import marked namespace changed but encoded empty namespace update")
    else do
      updatePriorNamespace priorDoc
      writeStableNamespaceProjectionTx (db.stableNamespace.applyUpdate update) now
      pure [.namespaceUpdate update]
  else pure []

/-- `commit_sync_import_epoch_tx`; the number of outbox messages. -/
def commitSyncImportEpochTx [TextCrdt D] (completed : CompletedImportEpoch) (now : Timestamp) :
    Tx D Nat := do
  let db ← get
  let staged := db.importStagedFiles.ofEpoch completed.epoch
  liftM (validateStagedRows .sync completed staged)
  if staged = [] then do
    deleteImportStagedFiles completed.epoch
    pure 0
  else do
    let namespaceMessages ← commitStagedNamespace staged now
    forM staged (commitStagedRow now)
    pushOutbox (namespaceMessages ++ textMessages staged)
    deleteImportStagedFiles completed.epoch
    pure (namespaceMessages ++ textMessages staged).length

/-- The rows of one file of the first import. -/
def commitInitRow (creator : DaemonWriterId) (now : Timestamp) (row : StagedRow D) : Tx D PUnit := do
  insertObject row.objectId .text creator
  insertStableTextObject row.objectId row.priorDocBlob
  insertPriorTextObject row.objectId row.priorDocBlob
  insertStableTreeFile ⟨row.path, row.path, row.claimId, row.objectId, now⟩
  insertPriorTreeFile row.path row.path row.claimId row.objectId row.fingerprint now

/-- The text message of a file of the first import. -/
def initTextMessage [TextCrdt D] (row : StagedRow D) : SharedMessage D :=
  .textObjectUpdate row.objectId (row.textUpdate.getD TextDoc.emptyTextState)

/-- `commit_init_import_epoch_tx`; the number of outbox messages. -/
def commitInitImportEpochTx [TextCrdt D] (completed : CompletedImportEpoch) (now : Timestamp) :
    Tx D Nat := do
  let db ← get
  let staged := db.importStagedFiles.ofEpoch completed.epoch
  liftM (validateStagedRows .init completed staged)
  if staged = [] then do
    deleteImportStagedFiles completed.epoch
    pure 0
  else if db.stableNamespace ≠ db.priorNamespace then
    throw (.invariantViolation "init import requires prior/stable namespace to match")
  else do
    let client := clientIdForWriter db.writerId
    let doc := staged.foldl (fun doc row =>
      NamespaceDoc.addNewClaim client
        (NamespaceDoc.addNewObject client doc row.objectId .text db.writerId) row.claimId
        row.objectId row.path) db.stableNamespace
    let update := doc.encodeUpdateSince db.stableNamespace.stateVector
    if update = ∅ then
      throw (.invariantViolation "init import namespace update unexpectedly empty")
    else do
      updateStableNamespace doc
      updatePriorNamespace doc
      forM staged (commitInitRow db.writerId now)
      pushOutbox (.namespaceUpdate update :: staged.map initTextMessage)
      deleteImportStagedFiles completed.epoch
      pure (staged.length + 1)

/-- `commit_import_epoch`. -/
def commitImportEpoch [TextCrdt D] (completed : CompletedImportEpoch) (now : Timestamp) :
    Tx D SemanticEffects := do
  let messages ← match completed.kind with
    | .init => commitInitImportEpochTx completed now
    | .sync => commitSyncImportEpochTx completed now
  pure ⟨none, nonzeroU64 messages⟩

/-! ## What a commit does -/

section Spec

variable {db db' : Db D}

/-- The row of `prior_tree` of an accepted file. -/
def StagedRow.priorRow (now : Timestamp) (row : StagedRow D) : PriorTreeRow :=
  ⟨row.path, row.path, row.claimId, row.objectId, row.fingerprint, now, none⟩

/-- The row of `prior_text_objects` of an accepted file. -/
def StagedRow.priorText (row : StagedRow D) : TextObjectRow D := ⟨row.objectId, row.priorDocBlob⟩

/-- The stable documents after the staged rows. -/
def mergeStaged [TextCrdt D] (texts : Table (TextObjectRow.objectId (D := D)))
    (staged : List (StagedRow D)) : Table (TextObjectRow.objectId (D := D)) :=
  staged.foldl (fun t row =>
    t.put ⟨row.objectId, stagedStableDoc ((t.find? row.objectId).map TextObjectRow.docBlob) row⟩)
    texts

/-- The namespace entries of an import. -/
def importEntries (creator : DaemonWriterId) (staged : List (StagedRow D)) : List NsEntry :=
  staged.flatMap (StagedRow.entries creator)

/-- The namespace operations of an import, as the daemon mints them. -/
def Db.importOps (db : Db D) (staged : List (StagedRow D)) : NamespaceDoc :=
  NamespaceDoc.mintedOps (clientIdForWriter db.writerId)
    (db.priorNamespace.stateVector (clientIdForWriter db.writerId))
    (importEntries db.writerId staged)

/-- The namespace messages of an import. -/
def Db.importNamespaceMessages (db : Db D) (staged : List (StagedRow D)) : List (SharedMessage D) :=
  if importEntries db.writerId staged = [] then [] else [.namespaceUpdate (db.importOps staged)]

theorem foldl_addStaged (client : Nat) (creator : DaemonWriterId) (doc : NamespaceDoc)
    (staged : List (StagedRow D)) :
    staged.foldl (addStaged client creator) doc =
      NamespaceDoc.mintAll client doc (importEntries creator staged) := by
  induction staged generalizing doc with
  | nil => rfl
  | cons row staged ih =>
    have hrow : addStaged client creator doc row =
        NamespaceDoc.mintAll client doc (row.entries creator) := by
      unfold addStaged StagedRow.entries
      cases row.stageKind <;> rfl
    rw [List.foldl_cons, ih, hrow]
    exact List.foldl_append.symm

/-- An import has namespace entries exactly if it has a file that is not an update. -/
theorem importEntries_eq_nil_iff {creator : DaemonWriterId} {staged : List (StagedRow D)} :
    importEntries creator staged = [] ↔ ∀ row ∈ staged, row.stageKind = .update := by
  rw [importEntries, List.flatMap_eq_nil_iff]
  refine forall₂_congr fun row _ => ?_
  unfold StagedRow.entries
  cases row.stageKind <;> simp

/-- What the commit of a sync import leaves. -/
structure SyncImported [TextCrdt D] (db db' : Db D) (epoch : Nat) (staged : List (StagedRow D))
    (now : Timestamp) : Prop where
  /-- What changes, and what does not. -/
  eq : db' = { db with
    priorNamespace := db.priorNamespace ∪ db.importOps staged
    stableNamespace := db.stableNamespace ∪ db.importOps staged
    objects := db'.objects
    stableTree := db'.stableTree
    stableTextObjects := mergeStaged db.stableTextObjects staged
    priorTextObjects := db.priorTextObjects.putAll (staged.map StagedRow.priorText)
    priorTree := db.priorTree.putAll (staged.map (StagedRow.priorRow now))
    outbox := db'.outbox
    importStagedFiles := db.importStagedFiles.deleteEpoch epoch }
  /-- Without namespace entries the stable tree stays. -/
  stableTree_nil : importEntries db.writerId staged = [] → db'.stableTree = db.stableTree
  /-- With namespace entries it is the materialization of the new namespace. -/
  stableTree_written : importEntries db.writerId staged ≠ [] →
    StableTreeWritten db.stableTree db'.stableTree (db.stableNamespace ∪ db.importOps staged) now
  /-- The operations are in the outbox. -/
  outbox : db.outbox.pushOutboxMessages
    (db.importNamespaceMessages staged ++ textMessages staged) = .ok db'.outbox
  /-- The stable tree still names objects with rows only. -/
  objectsKnown : db.ObjectsKnown → db'.ObjectsKnown

theorem SyncImported.treeSynced [TextCrdt D] {epoch : Nat} {staged : List (StagedRow D)}
    {now : Timestamp} (h : SyncImported db db' epoch staged now)
    (hdb : TreeSynced db.stableTree db.stableNamespace) :
    TreeSynced db'.stableTree db'.stableNamespace := by
  have hns : db'.stableNamespace = db.stableNamespace ∪ db.importOps staged := by rw [h.eq]
  rw [hns]
  by_cases hentries : importEntries db.writerId staged = []
  · rw [h.stableTree_nil hentries, Db.importOps, hentries]
    simpa [NamespaceDoc.mintedOps] using hdb
  · exact (h.stableTree_written hentries).treeSynced

/-- What the namespace phase does. -/
theorem runs_commitStagedNamespace {staged : List (StagedRow D)} {now : Timestamp}
    {messages : List (SharedMessage D)}
    (h : Runs (commitStagedNamespace staged now) db messages db') :
    messages = db.importNamespaceMessages staged ∧
      db' = { db with
        priorNamespace := db.priorNamespace ∪ db.importOps staged
        stableNamespace := db.stableNamespace ∪ db.importOps staged
        objects := db'.objects
        stableTree := db'.stableTree } ∧
      (importEntries db.writerId staged = [] → db'.stableTree = db.stableTree) ∧
      (importEntries db.writerId staged ≠ [] → StableTreeWritten db.stableTree db'.stableTree
        (db.stableNamespace ∪ db.importOps staged) now) ∧
      (db.ObjectsKnown → db'.ObjectsKnown) := by
  have hany : (staged.any fun row => decide (row.stageKind ≠ .update)) = true ↔
      importEntries db.writerId staged ≠ [] := by
    rw [Ne, importEntries_eq_nil_iff]
    simp
  rw [commitStagedNamespace, Runs.ite_iff, hany, not_not] at h
  rcases h with ⟨hentries, h⟩ | ⟨hentries, h⟩
  · simp only [Runs.bind_iff, Runs.get_iff] at h
    obtain ⟨db, _, ⟨rfl, rfl⟩, h⟩ := h
    have hupdate : (staged.foldl (addStaged (clientIdForWriter db.writerId) db.writerId)
        db.priorNamespace).encodeUpdateSince db.priorNamespace.stateVector = db.importOps staged := by
      rw [foldl_addStaged, NamespaceDoc.encodeUpdateSince_mintAll, Db.importOps]
    have hprior : staged.foldl (addStaged (clientIdForWriter db.writerId) db.writerId)
        db.priorNamespace = db.priorNamespace ∪ db.importOps staged := by
      rw [foldl_addStaged, NamespaceDoc.mintAll_eq, Db.importOps]
    have hne : db.importOps staged ≠ ∅ := fun h => hentries (NamespaceDoc.mintedOps_eq_empty.mp h)
    rw [hupdate, hprior] at h
    simp only [if_neg hne, updatePriorNamespace, Runs.bind_iff, Runs.modify_iff, Runs.pure_iff] at h
    obtain ⟨⟨⟩, _, rfl, ⟨⟩, t, hwrite, rfl, rfl⟩ := h
    obtain ⟨heq, hwritten, hknown⟩ := runs_writeStableNamespaceProjectionTx hwrite
    refine ⟨by rw [Db.importNamespaceMessages, if_neg hentries], ?_, fun h => absurd h hentries,
      fun _ => hwritten, fun _ => hknown⟩
    rw [heq]
    rfl
  · rw [Runs.pure_iff] at h
    obtain ⟨rfl, rfl⟩ := h
    refine ⟨by rw [Db.importNamespaceMessages, if_pos hentries], ?_, fun _ => rfl,
      fun h => absurd hentries h, id⟩
    rw [Db.importOps, hentries]
    simp [NamespaceDoc.mintedOps]

/-- What committing the staged rows does to the tables. -/
theorem runs_commitStagedRows [TextCrdt D] {staged : List (StagedRow D)} {now : Timestamp}
    {u : PUnit} (h : Runs (forM staged (commitStagedRow now)) db u db') :
    (∀ row ∈ staged, ∃ stat hash, row.fingerprint = .statAndContent stat hash) ∧
    db' = { db with
      stableTextObjects := mergeStaged db.stableTextObjects staged
      priorTextObjects := db.priorTextObjects.putAll (staged.map StagedRow.priorText)
      priorTree := db.priorTree.putAll (staged.map (StagedRow.priorRow now)) } := by
  refine Runs.forM_invariant (fun done t =>
    (∀ row ∈ done, ∃ stat hash, row.fingerprint = .statAndContent stat hash) ∧
    t = { db with
      stableTextObjects := mergeStaged db.stableTextObjects done
      priorTextObjects := db.priorTextObjects.putAll (done.map StagedRow.priorText)
      priorTree := db.priorTree.putAll (done.map (StagedRow.priorRow now)) })
    h ⟨by simp, rfl⟩ ?_
  intro done row rest t t' _ ⟨hfp, ht⟩ hrun
  simp only [commitStagedRow, upsertStableTextObject, upsertPriorTextObject, Runs.bind_iff,
    Runs.get_iff, Runs.modify_iff] at hrun
  obtain ⟨t, _, ⟨rfl, rfl⟩, ⟨⟩, _, rfl, ⟨⟩, _, rfl, hupsert⟩ := hrun
  obtain ⟨hrow, rfl⟩ := runs_upsertPriorTreeFile hupsert
  subst ht
  refine ⟨fun r hr => ?_, ?_⟩
  · rcases List.mem_append.mp hr with hr | hr
    · exact hfp r hr
    · exact List.mem_singleton.mp hr ▸ hrow
  · simp only [mergeStaged, List.foldl_append, List.map_append, Table.putAll_append]
    rfl

/-- What the commit of a sync import does. -/
theorem runs_commitSyncImportEpochTx [TextCrdt D] {completed : CompletedImportEpoch}
    {now : Timestamp} {n : Nat} (h : Runs (commitSyncImportEpochTx (D := D) completed now) db n db') :
    SyncImported db db' completed.epoch (db.importStagedFiles.ofEpoch completed.epoch) now ∧
      ∀ row ∈ db.importStagedFiles.ofEpoch completed.epoch,
        ∃ stat hash, row.fingerprint = .statAndContent stat hash := by
  simp only [commitSyncImportEpochTx, Runs.bind_iff, Runs.get_iff, Runs.liftExcept_iff] at h
  obtain ⟨db, _, ⟨rfl, rfl⟩, ⟨⟩, _, ⟨-, rfl⟩, h⟩ := h
  generalize db.importStagedFiles.ofEpoch completed.epoch = staged at h ⊢
  rw [Runs.ite_iff] at h
  rcases h with ⟨rfl, h⟩ | ⟨-, h⟩
  · simp only [deleteImportStagedFiles, Runs.bind_iff, Runs.modify_iff, Runs.pure_iff] at h
    obtain ⟨⟨⟩, _, rfl, rfl, rfl⟩ := h
    refine ⟨⟨?_, fun _ => rfl, fun h => absurd rfl h, rfl, id⟩, by simp⟩
    simp [Db.importOps, importEntries, NamespaceDoc.mintedOps, mergeStaged]
  · simp only [deleteImportStagedFiles, Runs.bind_iff, Runs.modify_iff, Runs.pure_iff] at h
    obtain ⟨messages, db₁, hns, ⟨⟩, db₂, hrows, ⟨⟩, db₃, hpush, ⟨⟩, _, rfl, rfl, rfl⟩ := h
    obtain ⟨rfl, h₁, hnil, hwritten, hknown⟩ := runs_commitStagedNamespace hns
    obtain ⟨hfp, rfl⟩ := runs_commitStagedRows hrows
    obtain ⟨outbox, houtbox, rfl⟩ := runs_pushOutbox hpush
    rw [h₁] at houtbox
    refine ⟨⟨?_, hnil, hwritten, houtbox, hknown⟩, hfp⟩
    rw [h₁]

/-- What the commit of the first import leaves. -/
structure InitImported [TextCrdt D] (db db' : Db D) (epoch : Nat) (staged : List (StagedRow D))
    (now : Timestamp) : Prop where
  /-- What changes, and what does not. -/
  eq : db' = { db with
    priorNamespace := db.priorNamespace ∪ db.importOps staged
    stableNamespace := db.stableNamespace ∪ db.importOps staged
    objects := db'.objects
    stableTree := db'.stableTree
    stableTextObjects := db.stableTextObjects.putAll (staged.map StagedRow.priorText)
    priorTextObjects := db.priorTextObjects.putAll (staged.map StagedRow.priorText)
    priorTree := db.priorTree.putAll (staged.map (StagedRow.priorRow now))
    outbox := db'.outbox
    importStagedFiles := db.importStagedFiles.deleteEpoch epoch }
  /-- The documents of the files are new. -/
  new_texts : ∀ row ∈ staged, db.stableTextObjects.find? row.objectId = none
  /-- A path of the stable tree holds the staged file, or else what it held. -/
  stableTree : ∀ p, db'.stableTree.table.find? p =
    ((staged.find? fun row => row.path = p).map fun row =>
      ⟨row.path, row.path, row.claimId, row.objectId, now⟩).or (db.stableTree.table.find? p)
  /-- The operations are in the outbox. -/
  outbox : db.outbox.pushOutboxMessages
    (if staged = [] then []
      else .namespaceUpdate (db.importOps staged) :: staged.map initTextMessage) = .ok db'.outbox
  /-- The stable tree still names objects with rows only. -/
  objectsKnown : db.ObjectsKnown → db'.ObjectsKnown

/-- The first import stages new files only. -/
theorem new_of_validateStagedRows {completed : CompletedImportEpoch} {staged : List (StagedRow D)}
    (h : validateStagedRows .init completed staged = .ok ⟨⟩) : ∀ row ∈ staged, row.stageKind = .new := by
  have hrow : ∀ row : StagedRow D, validateStagedRow .init completed row = .ok ⟨⟩ →
      row.stageKind = .new := by
    intro row hok
    unfold validateStagedRow at hok
    dsimp only at hok
    split at hok
    · cases hok
    · by_contra hne
      by_cases hepoch : row.importEpoch = completed.epoch <;> simp [hne, hepoch] at hok
  have hall : ∀ rows : List (StagedRow D), forM rows (validateStagedRow .init completed) = .ok ⟨⟩ →
      ∀ row ∈ rows, row.stageKind = .new := by
    intro rows
    induction rows with
    | nil => simp
    | cons row rows ih =>
      intro hok
      rw [List.forM_cons] at hok
      cases hv : validateStagedRow .init completed row with
      | error e => rw [hv] at hok; cases hok
      | ok u =>
        rw [hv] at hok
        rw [List.forall_mem_cons]
        exact ⟨hrow row hv, ih hok⟩
  unfold validateStagedRows at h
  cases hv : validateCompletedActions .init completed completed.actions with
  | error e => rw [hv] at h; cases h
  | ok u =>
    rw [hv] at h
    exact hall staged h

/-- What committing the rows of the first import does. -/
theorem runs_commitInitRows {staged : List (StagedRow D)} {creator : DaemonWriterId}
    {now : Timestamp} {u : PUnit} (h : Runs (forM staged (commitInitRow creator now)) db u db') :
    db' = { db with
      objects := db'.objects
      stableTree := db'.stableTree
      stableTextObjects := db.stableTextObjects.putAll (staged.map StagedRow.priorText)
      priorTextObjects := db.priorTextObjects.putAll (staged.map StagedRow.priorText)
      priorTree := db.priorTree.putAll (staged.map (StagedRow.priorRow now)) } ∧
    (∀ row ∈ staged, ∃ stat hash, row.fingerprint = .statAndContent stat hash) ∧
    (∀ row ∈ staged, db.stableTextObjects.find? row.objectId = none) ∧
    (∀ p, db'.stableTree.table.find? p =
      ((staged.find? fun row => row.path = p).map fun row =>
        ⟨row.path, row.path, row.claimId, row.objectId, now⟩).or (db.stableTree.table.find? p)) ∧
    (db.ObjectsKnown → db'.ObjectsKnown) := by
  refine Runs.forM_invariant (fun done t =>
    t = { db with
      objects := t.objects
      stableTree := t.stableTree
      stableTextObjects := db.stableTextObjects.putAll (done.map StagedRow.priorText)
      priorTextObjects := db.priorTextObjects.putAll (done.map StagedRow.priorText)
      priorTree := db.priorTree.putAll (done.map (StagedRow.priorRow now)) } ∧
    (∀ row ∈ done, ∃ stat hash, row.fingerprint = .statAndContent stat hash) ∧
    (∀ row ∈ done, db.stableTextObjects.find? row.objectId = none) ∧
    (∀ p, t.stableTree.table.find? p =
      ((done.find? fun row => row.path = p).map fun row =>
        ⟨row.path, row.path, row.claimId, row.objectId, now⟩).or (db.stableTree.table.find? p)) ∧
    (db.ObjectsKnown → t.ObjectsKnown))
    h ⟨rfl, by simp, by simp, by simp, id⟩ ?_
  rintro done row rest t t' _ ⟨ht, hfps, hnew, hfind, hknown⟩ hrun
  simp only [commitInitRow, Runs.bind_iff] at hrun
  obtain ⟨⟨⟩, t₁, hobject, ⟨⟩, t₂, hstable, ⟨⟩, t₃, hprior, ⟨⟩, t₄, htree, hrow⟩ := hrun
  obtain ⟨-, rfl⟩ := runs_insertObject hobject
  obtain ⟨hfree, rfl⟩ := runs_insertStableTextObject hstable
  obtain ⟨-, rfl⟩ := runs_insertPriorTextObject hprior
  obtain ⟨tree, hins, rfl⟩ := runs_insertStableTreeFile htree
  obtain ⟨hfp, -, rfl⟩ := runs_insertPriorTreeFile hrow
  have htexts : t.stableTextObjects =
      db.stableTextObjects.putAll (done.map StagedRow.priorText) := by rw [ht]
  have htrees := (StableTree.insert_eq_ok hins).1
  have hnone := Table.find?_eq_none_of_insert? htrees
  refine ⟨?_, ?_, ?_, fun p => ?_, fun hdb => ?_⟩
  · rw [ht]
    simp only [List.map_append, Table.putAll_append]
    rfl
  · intro r hr
    rcases List.mem_append.mp hr with hr | hr
    · exact hfps r hr
    · exact List.mem_singleton.mp hr ▸ hfp
  · intro r hr
    rcases List.mem_append.mp hr with hr | hr
    · exact hnew r hr
    · rw [List.mem_singleton.mp hr]
      have hfree' : t.stableTextObjects.find? row.objectId = none := hfree
      rw [htexts, Table.find?_putAll_eq_none_iff] at hfree'
      exact hfree'.1
  · have hnone' : t.stableTree.table.find? row.path = none := hnone
    rw [hfind, Option.or_eq_none_iff, Option.map_eq_none_iff] at hnone'
    show tree.table.find? p = _
    rw [Table.find?_insert? htrees, List.find?_append]
    show (if row.path = p then _ else t.stableTree.table.find? p) = _
    by_cases hp : row.path = p
    · subst hp
      rw [if_pos rfl, hnone'.1]
      simp
    · rw [if_neg hp, hfind]
      simp [hp]
  · intro r hr
    have hr' : r ∈ tree.table := hr
    rcases (Table.mem_insert? htrees).mp hr' with rfl | hr'
    · exact ⟨_, Table.mem_put.mpr (.inl rfl), rfl⟩
    · obtain ⟨o, ho, hid⟩ := hknown hdb r hr'
      by_cases hkey : o.objectId = row.objectId
      · exact ⟨_, Table.mem_put.mpr (.inl rfl), hkey.symm.trans hid⟩
      · exact ⟨o, Table.mem_put.mpr (.inr ⟨ho, hkey⟩), hid⟩

/-- What the commit of the first import does. -/
theorem runs_commitInitImportEpochTx [TextCrdt D] {completed : CompletedImportEpoch}
    {now : Timestamp} {n : Nat} (h : Runs (commitInitImportEpochTx (D := D) completed now) db n db') :
    InitImported db db' completed.epoch (db.importStagedFiles.ofEpoch completed.epoch) now ∧
      (db.importStagedFiles.ofEpoch completed.epoch ≠ [] →
        db.stableNamespace = db.priorNamespace) ∧
      (∀ row ∈ db.importStagedFiles.ofEpoch completed.epoch, row.stageKind = .new) ∧
      ∀ row ∈ db.importStagedFiles.ofEpoch completed.epoch,
        ∃ stat hash, row.fingerprint = .statAndContent stat hash := by
  simp only [commitInitImportEpochTx, Runs.bind_iff, Runs.get_iff, Runs.liftExcept_iff] at h
  obtain ⟨db, _, ⟨rfl, rfl⟩, ⟨⟩, _, ⟨hvalid, rfl⟩, h⟩ := h
  have hkinds := new_of_validateStagedRows hvalid
  generalize db.importStagedFiles.ofEpoch completed.epoch = staged at h hkinds ⊢
  rw [Runs.ite_iff] at h
  rcases h with ⟨rfl, h⟩ | ⟨hne, h⟩
  · simp only [deleteImportStagedFiles, Runs.bind_iff, Runs.modify_iff, Runs.pure_iff] at h
    obtain ⟨⟨⟩, _, rfl, rfl, rfl⟩ := h
    refine ⟨⟨?_, by simp, by simp, rfl, id⟩, fun h => absurd rfl h, by simp, by simp⟩
    simp [Db.importOps, importEntries, NamespaceDoc.mintedOps]
  · simp only [Runs.ite_iff, Runs.throw_iff, and_false, false_or, not_not] at h
    obtain ⟨hsame, hupdate, h⟩ := h
    have hfold : (staged.foldl (fun doc row =>
        NamespaceDoc.addNewClaim (clientIdForWriter db.writerId)
          (NamespaceDoc.addNewObject (clientIdForWriter db.writerId) doc row.objectId .text
            db.writerId) row.claimId row.objectId row.path) db.stableNamespace) =
        staged.foldl (addStaged (clientIdForWriter db.writerId) db.writerId) db.stableNamespace := by
      refine List.foldl_ext _ _ _ fun doc row hrow => ?_
      rw [addStaged, hkinds row hrow]
    rw [hfold, foldl_addStaged, NamespaceDoc.encodeUpdateSince_mintAll, NamespaceDoc.mintAll_eq,
      hsame] at h
    simp only [updateStableNamespace, updatePriorNamespace, deleteImportStagedFiles, Runs.bind_iff,
      Runs.modify_iff, Runs.pure_iff] at h
    obtain ⟨⟨⟩, _, rfl, ⟨⟩, _, rfl, ⟨⟩, t, hrows, ⟨⟩, t', hpush, ⟨⟩, _, rfl, rfl, rfl⟩ := h
    obtain ⟨ht, hfps, hnew, htree, hknown⟩ := runs_commitInitRows hrows
    obtain ⟨outbox, houtbox, rfl⟩ := runs_pushOutbox hpush
    refine ⟨⟨?_, hnew, htree, ?_, hknown⟩, fun _ => hsame, hkinds, hfps⟩
    · rw [ht, hsame]
      rfl
    · rw [if_neg hne]
      rw [ht] at houtbox
      exact houtbox

theorem runs_commitImportEpoch [TextCrdt D] {completed : CompletedImportEpoch} {now : Timestamp}
    {effects : SemanticEffects} (h : Runs (commitImportEpoch (D := D) completed now) db effects db') :
    (completed.kind = .init ∧ ∃ n, Runs (commitInitImportEpochTx completed now) db n db') ∨
      (completed.kind = .sync ∧ ∃ n, Runs (commitSyncImportEpochTx completed now) db n db') := by
  simp only [commitImportEpoch] at h
  split at h
  next hkind =>
    simp only [Runs.bind_iff, Runs.pure_iff] at h
    obtain ⟨n, _, hrun, -, rfl⟩ := h
    exact .inl ⟨hkind, n, hrun⟩
  next hkind =>
    simp only [Runs.bind_iff, Runs.pure_iff] at h
    obtain ⟨n, _, hrun, -, rfl⟩ := h
    exact .inr ⟨hkind, n, hrun⟩

/-! ## The stable tree after the first import -/

theorem mem_importEntries_of_new (creator : DaemonWriterId) {staged : List (StagedRow D)}
    (hnew : ∀ row ∈ staged, row.stageKind = .new) {entry : NsEntry} :
    entry ∈ importEntries creator staged ↔ ∃ row ∈ staged,
      entry = .object row.objectId ⟨.text, creator⟩ ∨
        entry = .claim row.claimId ⟨row.objectId, row.path⟩ := by
  rw [importEntries, List.mem_flatMap]
  constructor
  · rintro ⟨row, hrow, hentry⟩
    rw [StagedRow.entries, hnew row hrow] at hentry
    exact ⟨row, hrow, by simpa using hentry⟩
  · rintro ⟨row, hrow, hentry⟩
    refine ⟨row, hrow, ?_⟩
    rw [StagedRow.entries, hnew row hrow]
    simpa using hentry

/-- In a namespace of new files every file has its claim, at the path it asks for. -/
theorem materializationClaim_mintedOps (client clock : Nat) (creator : DaemonWriterId)
    {staged : List (StagedRow D)} (hnew : ∀ row ∈ staged, row.stageKind = .new)
    (hclaims : (staged.map StagedRow.claimId).Nodup) {row : StagedRow D} (hrow : row ∈ staged) :
    (NamespaceDoc.mintedOps client clock (importEntries creator staged)).materializationClaim
      row.claimId = .ok ⟨row.claimId, row.objectId, row.path, ⟨.text, creator⟩⟩ := by
  refine NamespaceDoc.materializationClaim_eq_ok.mpr ⟨rfl, ?_, ?_⟩
  · obtain ⟨op, hop, hentry⟩ := NamespaceDoc.exists_mem_mintedOps client clock
      ((mem_importEntries_of_new creator hnew).mpr ⟨row, hrow, .inr rfl⟩)
    refine NamespaceDoc.mapGet_eq_some hop (by simp [hentry, NsEntry.record?]) ?_
    intro op' hop' record hrecord
    obtain ⟨row', hrow', hentry' | hentry'⟩ :=
      (mem_importEntries_of_new creator hnew).mp (NamespaceDoc.mem_mintedOps hop').2.2
    · simp [hentry', NsEntry.record?] at hrecord
    · simp only [hentry', NsEntry.record?] at hrecord
      split_ifs at hrecord with hid
      cases hrecord
      rw [List.inj_on_of_nodup_map hclaims hrow' hrow hid]
  · obtain ⟨op, hop, hentry⟩ := NamespaceDoc.exists_mem_mintedOps client clock
      ((mem_importEntries_of_new creator hnew).mpr ⟨row, hrow, .inl rfl⟩)
    refine NamespaceDoc.mapGet_eq_some hop (by simp [hentry, NsEntry.meta?]) ?_
    intro op' hop' objectMeta hmeta
    obtain ⟨row', hrow', hentry' | hentry'⟩ :=
      (mem_importEntries_of_new creator hnew).mp (NamespaceDoc.mem_mintedOps hop').2.2
    · simp only [hentry', NsEntry.meta?] at hmeta
      split_ifs at hmeta with hid
      cases hmeta
      rfl
    · simp [hentry', NsEntry.meta?] at hmeta

/-- The active claims of a namespace of new files are those of the files. -/
theorem mem_activeClaimIds_mintedOps (client clock : Nat) (creator : DaemonWriterId)
    {staged : List (StagedRow D)} (hnew : ∀ row ∈ staged, row.stageKind = .new)
    {id : NamespaceClaimId} :
    id ∈ (NamespaceDoc.mintedOps client clock (importEntries creator staged)).activeClaimIds ↔
      ∃ row ∈ staged, row.claimId = id := by
  rw [NamespaceDoc.activeClaimIds, Finset.mem_sdiff, NamespaceDoc.claimIds,
    NamespaceDoc.removedClaimIds, NamespaceDoc.mem_values, NamespaceDoc.mem_values]
  constructor
  · rintro ⟨⟨op, hop, hid⟩, -⟩
    obtain ⟨row, hrow, hentry | hentry⟩ :=
      (mem_importEntries_of_new creator hnew).mp (NamespaceDoc.mem_mintedOps hop).2.2
    · simp [hentry, NsEntry.claim?] at hid
    · exact ⟨row, hrow, by simpa [hentry, NsEntry.claim?] using hid⟩
  · rintro ⟨row, hrow, rfl⟩
    obtain ⟨op, hop, hentry⟩ := NamespaceDoc.exists_mem_mintedOps client clock
      ((mem_importEntries_of_new creator hnew).mpr ⟨row, hrow, .inr rfl⟩)
    refine ⟨⟨op, hop, by simp [hentry, NsEntry.claim?]⟩, ?_⟩
    rintro ⟨op', hop', hid'⟩
    obtain ⟨row', -, hentry' | hentry'⟩ :=
      (mem_importEntries_of_new creator hnew).mp (NamespaceDoc.mem_mintedOps hop').2.2 <;>
      simp [hentry', NsEntry.removed?] at hid'

/-- The first import of an empty namespace leaves the stable tree in line with it. -/
theorem InitImported.treeSynced [TextCrdt D] {epoch : Nat} {staged : List (StagedRow D)}
    {now : Timestamp} (h : InitImported db db' epoch staged now)
    (hnew : ∀ row ∈ staged, row.stageKind = .new)
    (hpaths : (staged.map StagedRow.path).Nodup) (hclaims : (staged.map StagedRow.claimId).Nodup)
    (hempty : db.stableNamespace = ∅) (hdb : TreeSynced db.stableTree db.stableNamespace) :
    TreeSynced db'.stableTree db'.stableNamespace := by
  have hns : db'.stableNamespace = db.importOps staged := by
    rw [h.eq]
    exact (congrArg (· ∪ db.importOps staged) hempty).trans (Finset.empty_union _)
  have hbefore : ∀ p, db.stableTree.table.find? p = none := by
    intro p
    rw [hempty] at hdb
    have hfind := hdb.find?_eq treeSynced_initial p
    exact Option.map_eq_none_iff.mp (hfind.trans rfl)
  have hclaim : ∀ row ∈ staged, (db.importOps staged).materializationClaim row.claimId =
      .ok ⟨row.claimId, row.objectId, row.path, ⟨.text, db.writerId⟩⟩ :=
    fun row hrow => materializationClaim_mintedOps _ _ _ hnew hclaims hrow
  have hactive : ∀ id, id ∈ (db.importOps staged).activeClaimIds ↔ ∃ row ∈ staged, row.claimId = id :=
    fun id => mem_activeClaimIds_mintedOps _ _ _ hnew
  rw [hns]
  obtain ⟨projection, hproj, hnodup, hplacements⟩ :=
    materialize_of_distinct_paths (db.importOps staged)
      (fun id hid => by
        obtain ⟨row, hrow, rfl⟩ := (hactive id).mp hid
        exact ⟨_, hclaim row hrow⟩)
      (fun id hid id' hid' c c' hc hc' hpath => by
        obtain ⟨row, hrow, rfl⟩ := (hactive id).mp hid
        obtain ⟨row', hrow', rfl⟩ := (hactive id').mp hid'
        rw [hclaim row hrow, Except.ok.injEq] at hc
        rw [hclaim row' hrow', Except.ok.injEq] at hc'
        subst hc hc'
        rw [List.inj_on_of_nodup_map hpaths hrow hrow' hpath])
  have hmem : ∀ p, p ∈ projection.placements ↔ ∃ row ∈ staged,
      p = ⟨row.path, row.path, row.claimId, row.objectId, .text⟩ := by
    intro p
    rw [hplacements]
    constructor
    · rintro ⟨id, hid, c, hc, rfl⟩
      obtain ⟨row, hrow, rfl⟩ := (hactive id).mp hid
      rw [hclaim row hrow, Except.ok.injEq] at hc
      subst hc
      exact ⟨row, hrow, rfl⟩
    · rintro ⟨row, hrow, rfl⟩
      exact ⟨row.claimId, (hactive _).mpr ⟨row, hrow, rfl⟩, _, hclaim row hrow, rfl⟩
  refine treeSynced_of_mem hproj (fun p hp => ?_) hnodup fun d => ?_
  · obtain ⟨row, -, rfl⟩ := (hmem p).mp hp
    rfl
  · constructor
    · rintro ⟨r, hr, rfl⟩
      have hfind := h.stableTree r.path
      rw [Table.find?_key hr, hbefore, Option.or_none] at hfind
      obtain ⟨row, hrow, rfl⟩ := Option.map_eq_some_iff.mp hfind.symm
      exact ⟨_, (hmem _).mpr ⟨row, List.mem_of_find?_eq_some hrow, rfl⟩, rfl⟩
    · rintro ⟨p, hp, rfl⟩
      obtain ⟨row, hrow, rfl⟩ := (hmem p).mp hp
      have hfind := h.stableTree row.path
      cases hf : staged.find? fun r => r.path = row.path with
      | none => simpa using List.find?_eq_none.mp hf row hrow
      | some r =>
        have hpath : r.path = row.path := by simpa using List.find?_some hf
        have hr := List.inj_on_of_nodup_map hpaths (List.mem_of_find?_eq_some hf) hrow hpath
        subst hr
        rw [hf] at hfind
        exact ⟨_, Table.mem_of_find? hfind, rfl⟩

end Spec

end Opbox
