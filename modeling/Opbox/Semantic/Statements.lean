import Opbox.Crdt.TextDoc
import Opbox.Semantic.Db

/-!
# Statements

The queries and updates of `semantic/transaction.rs` other than those on the outbox.  A query is a
function of the database and an update is a transaction; an update that breaks a constraint of the
schema fails.
-/

namespace Opbox

variable {D : Type}

/-! ## Queries -/

namespace Db

/-- `select_stable_tree_files`, in the order of the path text. -/
def stableTreeFiles (db : Db D) : List StableTreeRow :=
  db.stableTree.table.rows.insertionSort fun a b => a.path.toDbPath ≤ b.path.toDbPath

/-- `select_prior_tree_live_files`, in the order of the path text. -/
def priorTreeLiveFiles (db : Db D) : List PriorTreeRow :=
  (db.priorTree.select fun r => r.deletedAt.isNone).insertionSort
    fun a b => a.path.toDbPath ≤ b.path.toDbPath

/-- `select_prior_tree_live_file`. -/
def priorTreeLiveFile (db : Db D) (path : RelativePath) : Option PriorTreeRow :=
  (db.priorTree.find? path).filter fun r => r.deletedAt.isNone

/-- A tombstone at or after the cutoff. -/
def recentTombstone (cutoff : Timestamp) (r : PriorTreeRow) : Bool :=
  r.deletedAt.any fun t => decide (cutoff ≤ t)

/-- `select_recent_tombstoned_prior_tree_file`. -/
def recentTombstonedFile (db : Db D) (path : RelativePath) (cutoff : Timestamp) :
    Option PriorTreeRow :=
  (db.priorTree.find? path).filter (recentTombstone cutoff)

/-- The order of `select_recent_tombstoned_prior_tree_file_by_file_key`: newest first, then by the
path text. -/
def tombstoneBefore (a b : PriorTreeRow) : Prop :=
  b.deletedAt.getD 0 < a.deletedAt.getD 0 ∨
    (b.deletedAt.getD 0 = a.deletedAt.getD 0 ∧ a.path.toDbPath ≤ b.path.toDbPath)

instance (a b : PriorTreeRow) : Decidable (tombstoneBefore a b) :=
  inferInstanceAs (Decidable (_ ∨ _))

/-- `select_recent_tombstoned_prior_tree_file_by_file_key`. -/
def recentTombstonedFileByFileKey (db : Db D) (fileKey : FileKey) (cutoff : Timestamp) :
    Option PriorTreeRow :=
  ((db.priorTree.select fun r =>
    decide (r.fingerprint.stat.fileKey = fileKey) && recentTombstone cutoff r).insertionSort
      tombstoneBefore).head?

/-- `select_stable_tree_file`. -/
def stableTreeFile (db : Db D) (path : RelativePath) : Option StableTreeRow :=
  db.stableTree.table.find? path

/-- `select_stable_text_object_doc`. -/
def stableTextObjectDoc (db : Db D) (id : ObjectId) : Option D :=
  (db.stableTextObjects.find? id).map TextObjectRow.docBlob

/-- `select_prior_text_object_doc`. -/
def priorTextObjectDoc (db : Db D) (id : ObjectId) : Option D :=
  (db.priorTextObjects.find? id).map TextObjectRow.docBlob

/-- `select_all_ignored_files`. -/
def allIgnoredFiles (db : Db D) : List IgnoredRow :=
  db.ignoredFiles.rows.insertionSort fun a b => a.path.toDbPath ≤ b.path.toDbPath

@[simp] theorem mem_priorTreeLiveFiles {db : Db D} {r : PriorTreeRow} :
    r ∈ db.priorTreeLiveFiles ↔ r ∈ db.priorTree ∧ r.deletedAt = none := by
  simp [priorTreeLiveFiles]

@[simp] theorem mem_stableTreeFiles {db : Db D} {r : StableTreeRow} :
    r ∈ db.stableTreeFiles ↔ r ∈ db.stableTree.table := by
  simp [stableTreeFiles, Table.mem_rows]

@[simp] theorem priorTreeLiveFile_eq_some_iff {db : Db D} {path : RelativePath} {r : PriorTreeRow} :
    db.priorTreeLiveFile path = some r ↔
      r ∈ db.priorTree ∧ r.path = path ∧ r.deletedAt = none := by
  simp [priorTreeLiveFile, Option.filter_eq_some_iff, Table.find?_eq_some_iff, and_assoc]

theorem mem_of_recentTombstonedFile {db : Db D} {path : RelativePath} {cutoff : Timestamp}
    {r : PriorTreeRow} (h : db.recentTombstonedFile path cutoff = some r) :
    r ∈ db.priorTree ∧ r.path = path ∧ recentTombstone cutoff r = true := by
  obtain ⟨hfind, hrecent⟩ := Option.filter_eq_some_iff.mp h
  exact ⟨Table.mem_of_find? hfind, Table.key_of_find? hfind, hrecent⟩

theorem mem_of_recentTombstonedFileByFileKey {db : Db D} {key : FileKey} {cutoff : Timestamp}
    {r : PriorTreeRow} (h : db.recentTombstonedFileByFileKey key cutoff = some r) :
    r ∈ db.priorTree ∧ r.fingerprint.stat.fileKey = key ∧ recentTombstone cutoff r = true := by
  have hmem := List.mem_of_head? h
  rw [List.mem_insertionSort, Table.mem_select, Bool.and_eq_true, decide_eq_true_eq] at hmem
  exact hmem

/-- A tombstone is not live. -/
theorem ne_none_of_recentTombstone {cutoff : Timestamp} {r : PriorTreeRow}
    (h : recentTombstone cutoff r = true) : r.deletedAt ≠ none := by
  intro hn
  simp [recentTombstone, hn] at h

end Db

/-! ## Updates -/

/-- The stat and hash columns of a fingerprint, `staged_file_fingerprint_parts` with the conversion
of the size: the hash must be known, and times and sizes must fit a database integer. -/
def fingerprintColumns (table : String) (fingerprint : FileFingerprint) :
    Except SemanticTransactionError (FileStatFingerprint × FileHash) :=
  match fingerprint with
  | .statOnly _ =>
    .error (.invariantViolation "import staged file fingerprint must include content hash")
  | .statAndContent stat content =>
    if stat.mtime < -(2 ^ 63) ∨ 2 ^ 63 ≤ stat.mtime then
      .error (.fatal "import_staged_files.mtime unix timestamp ns out of range")
    else if i64Max < stat.size then
      .error (.invariantViolation s!"{table}.size_bytes out of range")
    else .ok (stat, content)

theorem eq_of_fingerprintColumns {table : String} {fingerprint : FileFingerprint}
    {columns : FileStatFingerprint × FileHash} (h : fingerprintColumns table fingerprint = .ok columns) :
    fingerprint = .statAndContent columns.1 columns.2 := by
  unfold fingerprintColumns at h
  split at h
  · cases h
  · split_ifs at h
    cases h
    rfl

/-- The columns of a fingerprint do not depend on the table. -/
theorem fingerprintColumns_table {table table' : String} {fingerprint : FileFingerprint}
    {columns : FileStatFingerprint × FileHash}
    (h : fingerprintColumns table fingerprint = .ok columns) :
    fingerprintColumns table' fingerprint = .ok columns := by
  unfold fingerprintColumns at h ⊢
  split at h
  · cases h
  · split_ifs at h ⊢
    exact h

/-- `update_stable_namespace`. -/
def updateStableNamespace (doc : NamespaceDoc) : Tx D PUnit :=
  modify fun db => { db with stableNamespace := doc }

/-- `update_prior_namespace`. -/
def updatePriorNamespace (doc : NamespaceDoc) : Tx D PUnit :=
  modify fun db => { db with priorNamespace := doc }

/-- `insert_object`. -/
def insertObject (id : ObjectId) (kind : ObjectKind) (creator : DaemonWriterId) : Tx D PUnit := do
  let db ← get
  match db.objects.insert? ⟨id, kind, creator⟩ with
  | some objects => set { db with objects := objects }
  | none => throw (.constraint "objects" "object_id")

/-- `insert_or_ignore_object`. -/
def insertOrIgnoreObject (id : ObjectId) (kind : ObjectKind) (creator : DaemonWriterId) :
    Tx D PUnit :=
  modify fun db =>
    match db.objects.insert? ⟨id, kind, creator⟩ with
    | some objects => { db with objects := objects }
    | none => db

/-- `insert_stable_text_object`. -/
def insertStableTextObject (id : ObjectId) (doc : D) : Tx D PUnit := do
  let db ← get
  match db.stableTextObjects.insert? ⟨id, doc⟩ with
  | some rows => set { db with stableTextObjects := rows }
  | none => throw (.constraint "stable_text_objects" "object_id")

/-- `upsert_stable_text_object`. -/
def upsertStableTextObject (id : ObjectId) (doc : D) : Tx D PUnit :=
  modify fun db => { db with stableTextObjects := db.stableTextObjects.put ⟨id, doc⟩ }

/-- `insert_prior_text_object`. -/
def insertPriorTextObject (id : ObjectId) (doc : D) : Tx D PUnit := do
  let db ← get
  match db.priorTextObjects.insert? ⟨id, doc⟩ with
  | some rows => set { db with priorTextObjects := rows }
  | none => throw (.constraint "prior_text_objects" "object_id")

/-- `upsert_prior_text_object`. -/
def upsertPriorTextObject (id : ObjectId) (doc : D) : Tx D PUnit :=
  modify fun db => { db with priorTextObjects := db.priorTextObjects.put ⟨id, doc⟩ }

/-- `insert_stable_tree_file`. -/
def insertStableTreeFile (row : StableTreeRow) : Tx D PUnit := do
  let db ← get
  let stableTree ← db.stableTree.insert row
  set { db with stableTree := stableTree }

/-- `delete_stable_tree_file`. -/
def deleteStableTreeFile (path : RelativePath) : Tx D PUnit :=
  modify fun db => { db with stableTree := db.stableTree.delete path }

/-- `insert_prior_tree_file`. -/
def insertPriorTreeFile (path claimedPath : RelativePath) (claimId : NamespaceClaimId)
    (objectId : ObjectId) (fingerprint : FileFingerprint) (acceptedAt : Timestamp) :
    Tx D PUnit := do
  let _ ← fingerprintColumns "prior_tree" fingerprint
  let db ← get
  match db.priorTree.insert? ⟨path, claimedPath, claimId, objectId, fingerprint, acceptedAt, none⟩ with
  | some rows => set { db with priorTree := rows }
  | none => throw (.constraint "prior_tree" "path")

/-- `upsert_prior_tree_file`: the row becomes live. -/
def upsertPriorTreeFile (path claimedPath : RelativePath) (claimId : NamespaceClaimId)
    (objectId : ObjectId) (fingerprint : FileFingerprint) (acceptedAt : Timestamp) :
    Tx D PUnit := do
  let _ ← fingerprintColumns "prior_tree" fingerprint
  modify fun db => { db with
    priorTree :=
      db.priorTree.put ⟨path, claimedPath, claimId, objectId, fingerprint, acceptedAt, none⟩ }

/-- Set the delete time of a row. -/
def PriorTreeRow.tombstone (deletedAt : Timestamp) (r : PriorTreeRow) : PriorTreeRow :=
  { r with deletedAt := some deletedAt }

@[simp] theorem PriorTreeRow.tombstone_path (deletedAt : Timestamp) (r : PriorTreeRow) :
    (r.tombstone deletedAt).path = r.path := rfl

/-- The live row of a path, as a filter of the tombstoning update. -/
def liveAt (path : RelativePath) (r : PriorTreeRow) : Bool :=
  decide (r.path = path) && r.deletedAt.isNone

/-- The prior tree with the live row of a path tombstoned. -/
def tombstoneAt (t : Table PriorTreeRow.path) (path : RelativePath) (deletedAt : Timestamp) :
    Table PriorTreeRow.path :=
  t.updateWhere (liveAt path) (PriorTreeRow.tombstone deletedAt)
    (PriorTreeRow.tombstone_path deletedAt)

/-- `tombstone_prior_tree_file`; a delete before the acceptance of the row breaks a check of the
schema. -/
def tombstonePriorTreeFile (path : RelativePath) (deletedAt : Timestamp) : Tx D PUnit := do
  let db ← get
  if (db.priorTreeLiveFile path).any fun r => decide (deletedAt < r.acceptedAt) then
    throw (.constraint "prior_tree" "deleted_at_ns >= accepted_at_ns")
  else set { db with priorTree := tombstoneAt db.priorTree path deletedAt }

/-- `upsert_projection_write_intent`. -/
def upsertProjectionWriteIntent (path : RelativePath) (targetHash : FileHash) (objectId : ObjectId)
    (targetDocBlob : D) : Tx D PUnit :=
  modify fun db => { db with
    projectionWriteIntents :=
      db.projectionWriteIntents.put ⟨path, targetHash, objectId, targetDocBlob⟩ }

/-- `mark_projection_write_intent_applied`: nothing is recorded without a planned intent. -/
def markProjectionWriteIntentApplied (path : RelativePath) (fingerprint : FileFingerprint) :
    Tx D PUnit := do
  let (stat, hash) ← fingerprintColumns "projection_applied_write_intents" fingerprint
  modify fun db =>
    if (db.projectionWriteIntents.find? (path, hash)).isSome then
      { db with
        projectionAppliedWriteIntents := db.projectionAppliedWriteIntents.put ⟨path, hash, stat⟩ }
    else db

/-- The planned and applied intent of a path that a file with this stat and hash fulfils. -/
def Db.appliedIntent (db : Db D) (path : RelativePath) (stat : FileStatFingerprint)
    (hash : FileHash) : Option (ObjectId × D) :=
  match db.projectionWriteIntents.find? (path, hash),
    db.projectionAppliedWriteIntents.find? (path, hash) with
  | some planned, some applied =>
    if applied.stat = stat then some (planned.objectId, planned.targetDocBlob) else none
  | _, _ => none

/-- `select_applied_projection_write_intent`. -/
def selectAppliedProjectionWriteIntent (path : RelativePath) (fingerprint : FileFingerprint) :
    Tx D (Option (ObjectId × D)) := do
  let (stat, hash) ← fingerprintColumns "projection_applied_write_intents" fingerprint
  let db ← get
  pure (db.appliedIntent path stat hash)

/-- `delete_projection_write_intents_for_path`. -/
def deleteProjectionWriteIntentsForPath (path : RelativePath) : Tx D PUnit :=
  modify fun db => { db with
    projectionAppliedWriteIntents :=
      db.projectionAppliedWriteIntents.deleteWhere fun r => decide (r.path = path)
    projectionWriteIntents :=
      db.projectionWriteIntents.deleteWhere fun r => decide (r.path = path) }

/-- `insert_import_staged_file`. -/
def insertImportStagedFile (row : StagedRow D) : Tx D PUnit := do
  let _ ← fingerprintColumns "import_staged_files" row.fingerprint
  let db ← get
  let rows ← db.importStagedFiles.insert row
  set { db with importStagedFiles := rows }

/-- `delete_import_staged_files`. -/
def deleteImportStagedFiles (epoch : Nat) : Tx D PUnit :=
  modify fun db => { db with importStagedFiles := db.importStagedFiles.deleteEpoch epoch }

/-- `upsert_ignored_file`. -/
def upsertIgnoredFile (path : RelativePath) (reason : IgnoredReason) (stat : FileStatFingerprint) :
    Tx D PUnit := do
  if stat.mtime < -(2 ^ 63) ∨ 2 ^ 63 ≤ stat.mtime then
    throw (.fatal "ignored_files.mtime unix timestamp ns out of range")
  else if i64Max < stat.size then
    throw (.invariantViolation "ignored_files.size_bytes out of range")
  else modify fun db => { db with ignoredFiles := db.ignoredFiles.put ⟨path, reason, stat⟩ }

/-- `delete_ignored_file`. -/
def deleteIgnoredFile (path : RelativePath) : Tx D PUnit :=
  modify fun db => { db with
    ignoredFiles := db.ignoredFiles.deleteWhere fun r => decide (r.path = path) }

/-- `update_stable_cursor`, from the start of an applied range past its end. -/
def updateStableCursor (first next : SequenceNumber) : Tx D PUnit := do
  let db ← get
  if db.stableCursor = first then set { db with stableCursor := next }
  else throw (.invariantViolation "update stable_cursor failed")

/-- The outbox phase of a local mutation: `reserve_outbox_ids` and `insert_outbox_message`. -/
def pushOutbox (messages : List (SharedMessage D)) : Tx D PUnit := do
  let db ← get
  let outbox ← db.outbox.pushOutboxMessages messages
  set { db with outbox := outbox }

/-! ## Runs of updates -/

section Runs

variable {db db' : Db D}

@[simp] theorem runs_set_iff {t : Db D} {u : PUnit} :
    Runs (set t : Tx D PUnit) db u db' ↔ db' = t := by
  have hrun : Runs (set t : Tx D PUnit) db u db' ↔
      Except.ok (ε := SemanticTransactionError) (PUnit.unit, t) = .ok (u, db') := Iff.rfl
  rw [hrun, Except.ok.injEq, Prod.mk.injEq]
  exact ⟨fun h => h.2.symm, fun h => ⟨rfl, h.symm⟩⟩

theorem runs_upsertPriorTreeFile {path claimedPath : RelativePath} {claimId : NamespaceClaimId}
    {objectId : ObjectId} {fingerprint : FileFingerprint} {acceptedAt : Timestamp} {u : PUnit}
    (h : Runs (upsertPriorTreeFile (D := D) path claimedPath claimId objectId fingerprint acceptedAt)
      db u db') :
    (∃ stat hash, fingerprint = .statAndContent stat hash) ∧
      db' = { db with
        priorTree := db.priorTree.put
          ⟨path, claimedPath, claimId, objectId, fingerprint, acceptedAt, none⟩ } := by
  simp only [upsertPriorTreeFile, Runs.bind_iff, Runs.liftExcept_iff, Runs.modify_iff] at h
  obtain ⟨columns, t, ⟨hcolumns, rfl⟩, rfl⟩ := h
  exact ⟨⟨_, _, eq_of_fingerprintColumns hcolumns⟩, rfl⟩

theorem runs_insertPriorTreeFile {path claimedPath : RelativePath} {claimId : NamespaceClaimId}
    {objectId : ObjectId} {fingerprint : FileFingerprint} {acceptedAt : Timestamp} {u : PUnit}
    (h : Runs (insertPriorTreeFile (D := D) path claimedPath claimId objectId fingerprint acceptedAt)
      db u db') :
    (∃ stat hash, fingerprint = .statAndContent stat hash) ∧ db.priorTree.find? path = none ∧
      db' = { db with
        priorTree := db.priorTree.put
          ⟨path, claimedPath, claimId, objectId, fingerprint, acceptedAt, none⟩ } := by
  simp only [insertPriorTreeFile, Runs.bind_iff, Runs.liftExcept_iff, Runs.get_iff] at h
  obtain ⟨columns, t, ⟨hcolumns, rfl⟩, db, t', ⟨rfl, rfl⟩, h⟩ := h
  split at h
  next rows hrows =>
    rw [runs_set_iff] at h
    exact ⟨⟨_, _, eq_of_fingerprintColumns hcolumns⟩, Table.find?_eq_none_of_insert? hrows,
      Table.eq_put_of_insert? hrows ▸ h⟩
  next => exact absurd h Runs.throw_iff

theorem runs_insertObject {id : ObjectId} {kind : ObjectKind} {creator : DaemonWriterId} {u : PUnit}
    (h : Runs (insertObject (D := D) id kind creator) db u db') :
    db.objects.find? id = none ∧
      db' = { db with objects := db.objects.put ⟨id, kind, creator⟩ } := by
  simp only [insertObject, Runs.bind_iff, Runs.get_iff] at h
  obtain ⟨db, t', ⟨rfl, rfl⟩, h⟩ := h
  split at h
  next rows hrows =>
    rw [runs_set_iff] at h
    exact ⟨Table.find?_eq_none_of_insert? hrows, Table.eq_put_of_insert? hrows ▸ h⟩
  next => exact absurd h Runs.throw_iff

theorem runs_insertStableTextObject {id : ObjectId} {doc : D} {u : PUnit}
    (h : Runs (insertStableTextObject id doc) db u db') :
    db.stableTextObjects.find? id = none ∧
      db' = { db with stableTextObjects := db.stableTextObjects.put ⟨id, doc⟩ } := by
  simp only [insertStableTextObject, Runs.bind_iff, Runs.get_iff] at h
  obtain ⟨db, t', ⟨rfl, rfl⟩, h⟩ := h
  split at h
  next rows hrows =>
    rw [runs_set_iff] at h
    exact ⟨Table.find?_eq_none_of_insert? hrows, Table.eq_put_of_insert? hrows ▸ h⟩
  next => exact absurd h Runs.throw_iff

theorem runs_insertPriorTextObject {id : ObjectId} {doc : D} {u : PUnit}
    (h : Runs (insertPriorTextObject id doc) db u db') :
    db.priorTextObjects.find? id = none ∧
      db' = { db with priorTextObjects := db.priorTextObjects.put ⟨id, doc⟩ } := by
  simp only [insertPriorTextObject, Runs.bind_iff, Runs.get_iff] at h
  obtain ⟨db, t', ⟨rfl, rfl⟩, h⟩ := h
  split at h
  next rows hrows =>
    rw [runs_set_iff] at h
    exact ⟨Table.find?_eq_none_of_insert? hrows, Table.eq_put_of_insert? hrows ▸ h⟩
  next => exact absurd h Runs.throw_iff

theorem runs_insertStableTreeFile {row : StableTreeRow} {u : PUnit}
    (h : Runs (insertStableTreeFile (D := D) row) db u db') :
    ∃ stableTree, db.stableTree.insert row = .ok stableTree ∧
      db' = { db with stableTree := stableTree } := by
  simp only [insertStableTreeFile, Runs.bind_iff, Runs.liftExcept_iff, Runs.get_iff,
    runs_set_iff] at h
  obtain ⟨db, t, ⟨rfl, rfl⟩, stableTree, t, ⟨hrow, rfl⟩, rfl⟩ := h
  exact ⟨stableTree, hrow, rfl⟩

theorem runs_upsertIgnoredFile {path : RelativePath} {reason : IgnoredReason}
    {stat : FileStatFingerprint} {u : PUnit}
    (h : Runs (upsertIgnoredFile (D := D) path reason stat) db u db') :
    db' = { db with ignoredFiles := db.ignoredFiles.put ⟨path, reason, stat⟩ } := by
  simp only [upsertIgnoredFile, Runs.ite_iff, Runs.throw_iff, and_false, false_or,
    Runs.modify_iff] at h
  exact h.2.2

theorem runs_updateStableCursor {first next : SequenceNumber} {u : PUnit}
    (h : Runs (updateStableCursor (D := D) first next) db u db') :
    db.stableCursor = first ∧ db' = { db with stableCursor := next } := by
  simp only [updateStableCursor, Runs.bind_iff, Runs.get_iff, Runs.ite_iff, Runs.throw_iff,
    and_false, or_false, runs_set_iff] at h
  obtain ⟨db, t, ⟨rfl, rfl⟩, hcursor, rfl⟩ := h
  exact ⟨hcursor, rfl⟩

/-- Tombstoning changes the live row of the path and no other. -/
theorem runs_tombstonePriorTreeFile {path : RelativePath} {deletedAt : Timestamp} {u : PUnit}
    (h : Runs (tombstonePriorTreeFile (D := D) path deletedAt) db u db') :
    db' = { db with priorTree := tombstoneAt db.priorTree path deletedAt } := by
  simp only [tombstonePriorTreeFile, Runs.bind_iff, Runs.get_iff, Runs.ite_iff, Runs.throw_iff,
    and_false, false_or, runs_set_iff] at h
  obtain ⟨db, t, ⟨rfl, rfl⟩, -, rfl⟩ := h
  rfl

theorem runs_markProjectionWriteIntentApplied {path : RelativePath} {fingerprint : FileFingerprint}
    {u : PUnit} (h : Runs (markProjectionWriteIntentApplied (D := D) path fingerprint) db u db') :
    ∃ stat hash, fingerprint = .statAndContent stat hash ∧
      db' = if (db.projectionWriteIntents.find? (path, hash)).isSome then
        { db with
          projectionAppliedWriteIntents :=
            db.projectionAppliedWriteIntents.put ⟨path, hash, stat⟩ }
        else db := by
  simp only [markProjectionWriteIntentApplied, Runs.bind_iff, Runs.liftExcept_iff,
    Runs.modify_iff] at h
  obtain ⟨⟨stat, hash⟩, t, ⟨hcolumns, rfl⟩, rfl⟩ := h
  exact ⟨stat, hash, eq_of_fingerprintColumns hcolumns, rfl⟩

theorem runs_selectAppliedProjectionWriteIntent {path : RelativePath}
    {fingerprint : FileFingerprint} {r : Option (ObjectId × D)}
    (h : Runs (selectAppliedProjectionWriteIntent (D := D) path fingerprint) db r db') :
    db' = db ∧ ∃ stat hash, fingerprint = .statAndContent stat hash ∧
      r = db.appliedIntent path stat hash := by
  simp only [selectAppliedProjectionWriteIntent, Runs.bind_iff, Runs.liftExcept_iff, Runs.get_iff,
    Runs.pure_iff] at h
  obtain ⟨⟨stat, hash⟩, t, ⟨hcolumns, rfl⟩, db, t', ⟨rfl, rfl⟩, rfl, rfl⟩ := h
  exact ⟨rfl, stat, hash, eq_of_fingerprintColumns hcolumns, rfl⟩

theorem runs_insertImportStagedFile {row : StagedRow D} {u : PUnit}
    (h : Runs (insertImportStagedFile row) db u db') :
    (∃ stat hash, row.fingerprint = .statAndContent stat hash) ∧
      ∃ rows, db.importStagedFiles.insert row = .ok rows ∧
        db' = { db with importStagedFiles := rows } := by
  simp only [insertImportStagedFile, Runs.bind_iff, Runs.liftExcept_iff, Runs.get_iff,
    runs_set_iff] at h
  obtain ⟨columns, t, ⟨hcolumns, rfl⟩, db, t', ⟨rfl, rfl⟩, rows, t, ⟨hrows, rfl⟩, rfl⟩ := h
  exact ⟨⟨_, _, eq_of_fingerprintColumns hcolumns⟩, rows, hrows, rfl⟩

theorem runs_pushOutbox {messages : List (SharedMessage D)} {u : PUnit}
    (h : Runs (pushOutbox messages) db u db') :
    ∃ outbox, db.outbox.pushOutboxMessages messages = .ok outbox ∧
      db' = { db with outbox := outbox } := by
  simp only [pushOutbox, Runs.bind_iff, Runs.liftExcept_iff, Runs.get_iff, runs_set_iff] at h
  obtain ⟨db, t, ⟨rfl, rfl⟩, outbox, t, ⟨houtbox, rfl⟩, rfl⟩ := h
  exact ⟨outbox, houtbox, rfl⟩

end Runs

end Opbox
