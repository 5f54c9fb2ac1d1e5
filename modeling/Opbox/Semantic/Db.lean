import Opbox.Crdt.NamespaceDoc
import Opbox.Foundation.Transaction
import Opbox.Fs.Types
import Opbox.Semantic.Outbox

/-!
# The local database

The tables of a workspace (`semantic/table/sql/schema.sql`) and the single statements that the
transactions are made of (`semantic/transaction.rs`).  The primary keys and the uniqueness
constraints of the schema are fields of the table types.
-/

namespace Opbox

/-- The CRDT operation stored in the shared log. -/
inductive SharedMessage (D : Type) where
  /-- An update of the namespace document. -/
  | namespaceUpdate (yjsUpdate : NamespaceDoc)
  /-- An update of one text object. -/
  | textObjectUpdate (objectId : ObjectId) (yjsUpdate : D)
  /-- A whole binary object. -/
  | binaryObjectPut (objectId : ObjectId) (wallTime : Timestamp) (writerId : DaemonWriterId)
      (blob : Bytes)
  deriving DecidableEq

/-! ## Rows -/

/-- A row of `objects`. -/
structure ObjectRow where
  /-- The primary key. -/
  objectId : ObjectId
  /-- What the object holds. -/
  objectKind : ObjectKind
  /-- Who created it. -/
  creatorWriterId : DaemonWriterId
  deriving DecidableEq

/-- A row of `stable_text_objects` or `prior_text_objects`. -/
structure TextObjectRow (D : Type) where
  /-- The primary key. -/
  objectId : ObjectId
  /-- The text document. -/
  docBlob : D
  deriving DecidableEq

/-- A row of `stable_tree`. -/
structure StableTreeRow where
  /-- The rendered path, the primary key. -/
  path : RelativePath
  /-- The path the claim asks for. -/
  claimedPath : RelativePath
  /-- The claim. -/
  claimId : NamespaceClaimId
  /-- The object placed there. -/
  objectId : ObjectId
  /-- When the row was written. -/
  updatedAt : Timestamp
  deriving DecidableEq

/-- A row of `prior_tree`. -/
structure PriorTreeRow where
  /-- The disk path, the primary key. -/
  path : RelativePath
  /-- The path the claim asks for. -/
  claimedPath : RelativePath
  /-- The claim. -/
  claimId : NamespaceClaimId
  /-- The object at the path. -/
  objectId : ObjectId
  /-- The accepted file. -/
  fingerprint : FileFingerprint
  /-- When it was accepted. -/
  acceptedAt : Timestamp
  /-- When its delete was accepted or observed. -/
  deletedAt : Option Timestamp
  deriving DecidableEq

/-- What an import does with a file. -/
inductive StageKind where
  | new
  | resurrect
  | update
  deriving DecidableEq, Repr

/-- A row of `import_staged_files`. -/
structure StagedRow (D : Type) where
  /-- The import epoch. -/
  importEpoch : Nat
  /-- The action within the epoch. -/
  actionSeq : Nat
  /-- The file. -/
  path : RelativePath
  /-- Its object. -/
  objectId : ObjectId
  /-- Its claim. -/
  claimId : NamespaceClaimId
  /-- What the import does. -/
  stageKind : StageKind
  /-- The file as it was read. -/
  fingerprint : FileFingerprint
  /-- The document of the file after the import. -/
  priorDocBlob : D
  /-- The operations of the import; nothing is the empty byte string. -/
  textUpdate : Option D
  deriving DecidableEq

/-- A row of `projection_write_intents`. -/
structure WriteIntentRow (D : Type) where
  /-- The path to be written. -/
  path : RelativePath
  /-- The hash of the bytes to be written. -/
  targetHash : FileHash
  /-- The object placed there. -/
  objectId : ObjectId
  /-- The document whose text is written. -/
  targetDocBlob : D
  deriving DecidableEq

/-- A row of `projection_applied_write_intents`. -/
structure AppliedIntentRow where
  /-- The path. -/
  path : RelativePath
  /-- The hash of the bytes. -/
  targetHash : FileHash
  /-- The stat of the file that landed on disk. -/
  stat : FileStatFingerprint
  deriving DecidableEq

/-- Why a file is not synced. -/
inductive IgnoredReason where
  | nonUtf8
  | permissionDenied
  | tooLarge
  deriving DecidableEq, Repr

/-- A row of `ignored_files`. -/
structure IgnoredRow where
  /-- The primary key. -/
  path : RelativePath
  /-- Why. -/
  reason : IgnoredReason
  /-- The stat of the file then. -/
  stat : FileStatFingerprint
  deriving DecidableEq

/-- The primary key of `projection_write_intents`. -/
def WriteIntentRow.key {D : Type} (r : WriteIntentRow D) : RelativePath × FileHash :=
  (r.path, r.targetHash)

/-- The primary key of `projection_applied_write_intents`. -/
def AppliedIntentRow.key (r : AppliedIntentRow) : RelativePath × FileHash := (r.path, r.targetHash)

/-! ## Tables with more than a primary key -/

theorem nodup_map_append_singleton {α β : Type} {f : α → β} {l : List α} {a : α}
    (h : (l.map f).Nodup) (ha : f a ∉ l.map f) : ((l ++ [a]).map f).Nodup := by
  rw [List.map_append, List.map_singleton]
  exact List.Nodup.append h (List.nodup_singleton _)
    fun b hb hb' => ha (List.mem_singleton.mp hb' ▸ hb)

/-- `stable_tree`: paths and claims are unique. -/
structure StableTree where
  /-- The rows. -/
  table : Table StableTreeRow.path
  /-- `claim_id` is unique. -/
  claims_nodup : (table.rows.map StableTreeRow.claimId).Nodup

namespace StableTree

/-- The table without rows. -/
def empty : StableTree := ⟨Table.empty, List.nodup_nil⟩

/-- `insert_stable_tree_file`. -/
def insert (t : StableTree) (row : StableTreeRow) : Except SemanticTransactionError StableTree :=
  match h : t.table.insert? row with
  | none => .error (.constraint "stable_tree" "path")
  | some table =>
    if hc : row.claimId ∈ t.table.rows.map StableTreeRow.claimId then
      .error (.constraint "stable_tree" "claim_id")
    else
      .ok ⟨table, by
        rw [(Table.insert?_eq_some_iff.mp h).2]
        exact nodup_map_append_singleton t.claims_nodup hc⟩

/-- `delete_stable_tree_file`. -/
def delete (t : StableTree) (path : RelativePath) : StableTree where
  table := t.table.deleteWhere fun r => decide (r.path = path)
  claims_nodup := t.claims_nodup.sublist (List.filter_sublist.map _)

/-- An insertion succeeds exactly on a new path and a new claim. -/
theorem insert_eq_ok {t t' : StableTree} {row : StableTreeRow} (h : t.insert row = .ok t') :
    t.table.insert? row = some t'.table ∧ row.claimId ∉ t.table.rows.map StableTreeRow.claimId := by
  unfold insert at h
  split at h
  · cases h
  next table ht =>
    split_ifs at h with hc
    cases h
    exact ⟨ht, hc⟩

end StableTree

/-- `import_staged_files`: within an epoch actions, paths, objects and claims are unique. -/
structure ImportStagedFiles (D : Type) where
  /-- The rows. -/
  rows : List (StagedRow D)
  /-- The primary key. -/
  seqs_nodup : (rows.map fun r => (r.importEpoch, r.actionSeq)).Nodup
  /-- `UNIQUE (import_epoch, path)`. -/
  paths_nodup : (rows.map fun r => (r.importEpoch, r.path)).Nodup
  /-- `UNIQUE (import_epoch, object_id)`. -/
  objects_nodup : (rows.map fun r => (r.importEpoch, r.objectId)).Nodup
  /-- `UNIQUE (import_epoch, claim_id)`. -/
  claims_nodup : (rows.map fun r => (r.importEpoch, r.claimId)).Nodup

namespace ImportStagedFiles

variable {D : Type}

/-- The table without rows. -/
def empty : ImportStagedFiles D :=
  ⟨[], List.nodup_nil, List.nodup_nil, List.nodup_nil, List.nodup_nil⟩

theorem rows_nodup (t : ImportStagedFiles D) : t.rows.Nodup := t.seqs_nodup.of_map

/-- `insert_import_staged_file`, past the conversion of the fingerprint. -/
def insert (t : ImportStagedFiles D) (row : StagedRow D) :
    Except SemanticTransactionError (ImportStagedFiles D) :=
  if hs : (row.importEpoch, row.actionSeq) ∈ t.rows.map fun r => (r.importEpoch, r.actionSeq) then
    .error (.constraint "import_staged_files" "import_epoch, action_seq")
  else if hp : (row.importEpoch, row.path) ∈ t.rows.map fun r => (r.importEpoch, r.path) then
    .error (.constraint "import_staged_files" "import_epoch, path")
  else if ho : (row.importEpoch, row.objectId) ∈ t.rows.map fun r => (r.importEpoch, r.objectId) then
    .error (.constraint "import_staged_files" "import_epoch, object_id")
  else if hc : (row.importEpoch, row.claimId) ∈ t.rows.map fun r => (r.importEpoch, r.claimId) then
    .error (.constraint "import_staged_files" "import_epoch, claim_id")
  else
    .ok ⟨t.rows ++ [row], nodup_map_append_singleton t.seqs_nodup hs,
      nodup_map_append_singleton t.paths_nodup hp, nodup_map_append_singleton t.objects_nodup ho,
      nodup_map_append_singleton t.claims_nodup hc⟩

/-- `delete_import_staged_files`. -/
def deleteEpoch (t : ImportStagedFiles D) (epoch : Nat) : ImportStagedFiles D where
  rows := t.rows.filter fun r => r.importEpoch ≠ epoch
  seqs_nodup := t.seqs_nodup.sublist (List.filter_sublist.map _)
  paths_nodup := t.paths_nodup.sublist (List.filter_sublist.map _)
  objects_nodup := t.objects_nodup.sublist (List.filter_sublist.map _)
  claims_nodup := t.claims_nodup.sublist (List.filter_sublist.map _)

/-- `select_import_staged_files`: the rows of an epoch in the order of its actions. -/
def ofEpoch (t : ImportStagedFiles D) (epoch : Nat) : List (StagedRow D) :=
  (t.rows.filter fun r => r.importEpoch = epoch).insertionSort fun a b => a.actionSeq ≤ b.actionSeq

@[simp] theorem mem_ofEpoch {t : ImportStagedFiles D} {epoch : Nat} {r : StagedRow D} :
    r ∈ t.ofEpoch epoch ↔ r ∈ t.rows ∧ r.importEpoch = epoch := by
  simp [ofEpoch]

theorem nodup_map_ofEpoch {K : Type} {t : ImportStagedFiles D} {f : StagedRow D → K}
    (h : (t.rows.map fun r => (r.importEpoch, f r)).Nodup) (epoch : Nat) :
    ((t.ofEpoch epoch).map f).Nodup := by
  have hperm := List.perm_insertionSort (fun a b : StagedRow D => a.actionSeq ≤ b.actionSeq)
    (t.rows.filter fun r => r.importEpoch = epoch)
  refine (hperm.map f).nodup_iff.mpr (List.Nodup.map_on ?_ (t.rows_nodup.filter _))
  intro r hr s hs hrs
  rw [List.mem_filter, decide_eq_true_eq] at hr hs
  exact List.inj_on_of_nodup_map h hr.1 hs.1 (Prod.ext (hr.2.trans hs.2.symm) hrs)

@[simp] theorem mem_deleteEpoch {t : ImportStagedFiles D} {epoch : Nat} {r : StagedRow D} :
    r ∈ (t.deleteEpoch epoch).rows ↔ r ∈ t.rows ∧ r.importEpoch ≠ epoch := by
  simp [deleteEpoch]

/-- A successful insertion appends the row, whose object and claim are new in its epoch. -/
theorem insert_eq_ok {t t' : ImportStagedFiles D} {row : StagedRow D} (h : t.insert row = .ok t') :
    t'.rows = t.rows ++ [row] := by
  unfold insert at h
  split_ifs at h
  cases h
  rfl

end ImportStagedFiles

/-- The local database of a workspace. -/
structure Db (D : Type) where
  /-- Append-only synced object identities. -/
  objects : Table ObjectRow.objectId
  /-- The shared log up to the cursor with the local outbox mutations. -/
  stableNamespace : NamespaceDoc
  /-- The last accepted or projected local namespace. -/
  priorNamespace : NamespaceDoc
  /-- Stable text, by object. -/
  stableTextObjects : Table (TextObjectRow.objectId (D := D))
  /-- The merge base of local imports, by object. -/
  priorTextObjects : Table (TextObjectRow.objectId (D := D))
  /-- The desired filesystem projection. -/
  stableTree : StableTree
  /-- The last accepted or projected disk state. -/
  priorTree : Table PriorTreeRow.path
  /-- What an import epoch has collected. -/
  importStagedFiles : ImportStagedFiles D
  /-- Planned projection writes. -/
  projectionWriteIntents : Table (WriteIntentRow.key (D := D))
  /-- Planned projection writes that landed on disk. -/
  projectionAppliedWriteIntents : Table AppliedIntentRow.key
  /-- Shared-log records not yet acknowledged. -/
  outbox : Outbox (SharedMessage D)
  /-- Files that are not synced. -/
  ignoredFiles : Table IgnoredRow.path
  /-- `daemon_state.writer_id`. -/
  writerId : DaemonWriterId
  /-- `daemon_state.stable_cursor`. -/
  stableCursor : SequenceNumber

/-- A transaction on the local database. -/
abbrev Tx (D : Type) := Transaction (Db D) SemanticTransactionError

/-- The database of a new workspace. -/
def Db.initialized (D : Type) (writerId : DaemonWriterId) (stableCursor : SequenceNumber) : Db D where
  objects := Table.empty
  stableNamespace := NamespaceDoc.emptyNamespaceState
  priorNamespace := NamespaceDoc.emptyNamespaceState
  stableTextObjects := Table.empty
  priorTextObjects := Table.empty
  stableTree := StableTree.empty
  priorTree := Table.empty
  importStagedFiles := ImportStagedFiles.empty
  projectionWriteIntents := Table.empty
  projectionAppliedWriteIntents := Table.empty
  outbox := Outbox.empty
  ignoredFiles := Table.empty
  writerId := writerId
  stableCursor := stableCursor

/-- `clear_startup_scratch_tables`, at every start of the daemon. -/
def Db.clearStartupScratchTables {D : Type} (db : Db D) : Db D :=
  { db with
    importStagedFiles := ImportStagedFiles.empty
    outbox := db.outbox.releaseOutboxMessages.1 }

end Opbox
