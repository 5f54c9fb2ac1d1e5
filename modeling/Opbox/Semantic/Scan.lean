import Opbox.Semantic.StableTree
import Opbox.Semantic.Types

/-!
# Scans

What the semantic service makes of a scan (`semantic/service.rs`): `apply_init_scan` plans the
first import of an empty workspace, and `apply_scan` compares the scan with the live rows of the
prior tree.  A live row in scope whose file was not observed is missing and becomes a local delete
at once; a file observed with another stat, or without a live row, is planned for an import.
-/

namespace Opbox

variable {D : Type}

/-- `MAX_SYNC_FILE_SIZE`: 20 MiB. -/
def maxSyncFileSize : Nat := 20 * 1024 * 1024

/-- A file of a scan. -/
structure ObservedFile where
  /-- The path. -/
  path : RelativePath
  /-- What the scan saw. -/
  fingerprint : FileFingerprint
  deriving DecidableEq

/-- The file an entry stands for. -/
def TreeEntry.file? (e : TreeEntry) : Option ObservedFile :=
  match e.kind with
  | .directory => none
  | .file fingerprint => some ⟨e.path, fingerprint⟩

/-- `observed_files`: the files of a tree, in path order. -/
def Tree.files (t : Tree) : List ObservedFile := t.entries.filterMap TreeEntry.file?

/-- The file is known not to sync: it has an entry with its stat, and not for a denied permission,
which the stat would not show. -/
def knownIgnored (ignored : List IgnoredRow) (f : ObservedFile) : Bool :=
  ignored.any fun r => decide (r.path = f.path) && decide (f.fingerprint.stat = r.stat) &&
    decide (r.reason ≠ .permissionDenied)

/-- What to do with a file that is not known to be unchanged. -/
inductive ReadDecision where
  /-- It is known not to sync. -/
  | skip
  /-- It is too large to sync. -/
  | tooLarge
  /-- Its bytes are to be read. -/
  | read
  deriving DecidableEq, Repr

/-- The decision about a file. -/
def readDecision (ignored : List IgnoredRow) (f : ObservedFile) : ReadDecision :=
  if knownIgnored ignored f then .skip
  else if maxSyncFileSize < f.fingerprint.stat.size then .tooLarge
  else .read

/-- The read actions of an epoch, numbered in order. -/
def readActions (epoch : Nat) (files : List ObservedFile) : List ImportAction :=
  files.zipIdx.map fun (f, seq) => ⟨⟨epoch, seq⟩, .read f.path f.fingerprint⟩

/-- Plan the reads of files, and remember those that are too large. -/
def planReads (epoch : Nat) (ignored : List IgnoredRow) (files : List ObservedFile) :
    Tx D (List ImportAction) := do
  forM (files.filter fun f => readDecision ignored f = .tooLarge) fun f =>
    upsertIgnoredFile f.path .tooLarge f.fingerprint.stat
  pure (readActions epoch (files.filter fun f => readDecision ignored f = .read))

/-! ## The first scan -/

/-- The tables that must be empty before the first import, with their row counts. -/
def Db.semanticTables (db : Db D) : List (String × Nat) :=
  [("objects", db.objects.rows.length),
    ("stable_text_objects", db.stableTextObjects.rows.length),
    ("prior_text_objects", db.priorTextObjects.rows.length),
    ("stable_tree", db.stableTree.table.rows.length),
    ("prior_tree", db.priorTree.rows.length),
    ("import_staged_files", db.importStagedFiles.rows.length),
    ("outbox", db.outbox.rows.rows.length)]

/-- The check of one table. -/
def requireEmptyTable (table : String × Nat) : Except SemanticTransactionError PUnit :=
  let (name, count) := table
  if count ≠ 0 then
    .error (.invariantViolation s!"init requires empty semantic table {name}, found {count} rows")
  else .ok ⟨⟩

/-- `apply_init_scan`. -/
def applyInitScan (scan : ScanResult) (epoch : Nat) : Tx D ImportEpochStarted := do
  let db ← get
  forM db.semanticTables fun table => liftM (requireEmptyTable table)
  if db.stableNamespace ≠ NamespaceDoc.emptyNamespaceState ∨
      db.priorNamespace ≠ NamespaceDoc.emptyNamespaceState then
    throw (.invariantViolation "init requires empty prior/stable namespaces")
  else do
    let actions ← planReads epoch db.allIgnoredFiles scan.tree.files
    pure ⟨epoch, actions⟩

/-! ## Scans of a running daemon -/

/-- A path as the debug format prints it. -/
def RelativePath.shown (path : RelativePath) : String :=
  let components := (String.ofList path.toDbPath).quote
  s!"RelativePath \x7b components: {components} \x7d"

/-- A scope as the debug format prints it. -/
def ScanScope.shown : ScanScope → String
  | .full => "Full"
  | .subtree path =>
    let path := path.shown
    s!"Subtree({path})"
  | .singleFile path =>
    let path := path.shown
    s!"SingleFile({path})"

/-- No entry of a scan is out of its scope. -/
def checkScope (scan : ScanResult) : Except SemanticTransactionError PUnit :=
  match scan.tree.entries.find? fun e => !scan.scope.containsPath e.path with
  | none => .ok ⟨⟩
  | some e =>
    let scope := scan.scope.shown
    let path := String.ofList e.path.toDbPath
    .error (.invariantViolation
      s!"scan result for scope {scope} contained out-of-scope path {path}")

/-- What a scan saw at a path. -/
def ScanResult.observed (scan : ScanResult) (path : RelativePath) : Option ObservedFile :=
  scan.tree.files.find? fun f => f.path = path

/-- The live rows a scan speaks about. -/
def Db.priorInScope (db : Db D) (scan : ScanResult) : List PriorTreeRow :=
  db.priorTreeLiveFiles.filter fun r => scan.scope.containsPath r.path

/-- `missing_prior`: the live rows in scope whose file was not observed. -/
def Db.missingPrior (db : Db D) (scan : ScanResult) : List PriorTreeRow :=
  (db.priorInScope scan).filter fun r => (scan.observed r.path).isNone

/-- The files of live rows that were observed with another stat. -/
def Db.changedFiles (db : Db D) (scan : ScanResult) : List ObservedFile :=
  (db.priorInScope scan).filterMap fun r =>
    (scan.observed r.path).filter fun f => f.fingerprint.stat ≠ r.fingerprint.stat

/-- The observed files without a live row. -/
def Db.newFiles (db : Db D) (scan : ScanResult) : List ObservedFile :=
  scan.tree.files.filter fun f => (db.priorInScope scan).all fun r => r.path ≠ f.path

/-- `ignored_in_scope`. -/
def Db.ignoredInScope (db : Db D) (scan : ScanResult) : List IgnoredRow :=
  db.allIgnoredFiles.filter fun r => scan.scope.containsPath r.path

/-- The entries of ignored files that the scan did not see. -/
def Db.staleIgnored (db : Db D) (scan : ScanResult) : List RelativePath :=
  ((db.ignoredInScope scan).filter fun r =>
    !scan.tree.entries.any fun e => e.path = r.path).map IgnoredRow.path

/-- The namespace entries that remove the claims of rows. -/
def removals (rows : List PriorTreeRow) : List NsEntry := rows.map fun r => .removed r.claimId

/-- The prior namespace without the claims of the missing rows. -/
def removeClaims (client : Nat) (doc : NamespaceDoc) (rows : List PriorTreeRow) : NamespaceDoc :=
  rows.foldl (fun doc r => NamespaceDoc.removeClaim client doc r.claimId) doc

/-- `apply_missing_prior_paths_as_local_deletes_tx`; the number of outbox messages. -/
def applyMissingPriorPathsAsLocalDeletesTx (missingPrior : List PriorTreeRow) (now : Timestamp) :
    Tx D Nat := do
  if missingPrior = [] then pure 0
  else do
    let db ← get
    let client := clientIdForWriter db.writerId
    let priorDoc := removeClaims client db.priorNamespace missingPrior
    let update := priorDoc.encodeUpdateSince db.priorNamespace.stateVector
    updatePriorNamespace priorDoc
    if update = ∅ then pure ⟨⟩
    else writeStableNamespaceProjectionTx (db.stableNamespace.applyUpdate update) now
    forM missingPrior fun r => tombstonePriorTreeFile r.path now
    if update = ∅ then pure 0
    else do
      pushOutbox [.namespaceUpdate update]
      pure 1

/-- `ApplyScanOutput`. -/
structure ApplyScanOutput (D : Type) where
  /-- The import to do, if there is one. -/
  nextWork : NextWork D
  /-- What the engine is told. -/
  effects : SemanticEffects

/-- `apply_scan`. -/
def applyScan (scan : ScanResult) (epoch : Nat) (now : Timestamp) : Tx D (ApplyScanOutput D) := do
  liftM (checkScope scan)
  let db ← get
  let actions ← planReads epoch (db.ignoredInScope scan) (db.changedFiles scan ++ db.newFiles scan)
  forM (db.staleIgnored scan) deleteIgnoredFile
  let messages ← applyMissingPriorPathsAsLocalDeletesTx (db.missingPrior scan) now
  let nextWork := if actions = [] then .none else .importEpoch ⟨epoch, actions⟩
  pure ⟨nextWork, ⟨none, nonzeroU64 messages⟩⟩

/-! ## What a scan changes -/

section Spec

variable {db db' : Db D}

@[simp] theorem mem_priorInScope {scan : ScanResult} {r : PriorTreeRow} :
    r ∈ db.priorInScope scan ↔
      (r ∈ db.priorTree ∧ r.deletedAt = none) ∧ scan.scope.containsPath r.path = true := by
  simp [Db.priorInScope]

/-- A live row is missing exactly when it is in scope and its file was not observed. -/
theorem mem_missingPrior {scan : ScanResult} {r : PriorTreeRow} :
    r ∈ db.missingPrior scan ↔ (r ∈ db.priorTree ∧ r.deletedAt = none) ∧
      scan.scope.containsPath r.path = true ∧ scan.observed r.path = none := by
  simp [Db.missingPrior, and_assoc]

theorem path_of_observed {scan : ScanResult} {path : RelativePath} {f : ObservedFile}
    (h : scan.observed path = some f) : f ∈ scan.tree.files ∧ f.path = path :=
  ⟨List.mem_of_find?_eq_some h, by simpa using List.find?_some h⟩

/-- Nothing is observed at a path without a file entry. -/
theorem observed_eq_none_iff {scan : ScanResult} {path : RelativePath} :
    scan.observed path = none ↔ ∀ e ∈ scan.tree.entries, ∀ fp, e.kind = .file fp → e.path ≠ path := by
  rw [ScanResult.observed, List.find?_eq_none]
  simp only [Tree.files, List.mem_filterMap, decide_eq_true_eq]
  constructor
  · intro h e he fp hkind
    exact h ⟨e.path, fp⟩ ⟨e, he, by simp [TreeEntry.file?, hkind]⟩
  · rintro h f ⟨e, he, hf⟩
    unfold TreeEntry.file? at hf
    split at hf
    · cases hf
    next fp hkind =>
      cases hf
      exact h e he fp hkind

/-- Planning reads touches the entries of ignored files only. -/
theorem runs_planReads {epoch : Nat} {ignored : List IgnoredRow} {files : List ObservedFile}
    {actions : List ImportAction} (h : Runs (planReads (D := D) epoch ignored files) db actions db') :
    db' = { db with ignoredFiles := db'.ignoredFiles } ∧
      actions = readActions epoch (files.filter fun f => readDecision ignored f = .read) := by
  simp only [planReads, Runs.bind_iff, Runs.pure_iff] at h
  obtain ⟨⟨⟩, t, hloop, rfl, rfl⟩ := h
  refine ⟨?_, rfl⟩
  refine Runs.forM_preserves (fun t => t = { db with ignoredFiles := t.ignoredFiles }) hloop rfl ?_
  intro f _ t t' ht hrun
  rw [runs_upsertIgnoredFile hrun, ht]

theorem runs_deleteIgnoredFiles {paths : List RelativePath} {u : PUnit}
    (h : Runs (forM paths (deleteIgnoredFile (D := D))) db u db') :
    db' = { db with ignoredFiles := db'.ignoredFiles } := by
  refine Runs.forM_preserves (fun t => t = { db with ignoredFiles := t.ignoredFiles }) h rfl ?_
  intro path _ t t' ht hrun
  rw [deleteIgnoredFile, Runs.modify_iff] at hrun
  rw [hrun, ht]

/-- The prior tree with the live rows of several paths tombstoned. -/
def tombstoneAll (t : Table PriorTreeRow.path) (paths : List RelativePath) (now : Timestamp) :
    Table PriorTreeRow.path :=
  paths.foldl (fun t path => tombstoneAt t path now) t

/-- Tombstoning paths changes the live rows there. -/
theorem find?_tombstoneAll (t : Table PriorTreeRow.path) (paths : List RelativePath)
    (now : Timestamp) (p : RelativePath) :
    (tombstoneAll t paths now).find? p = (t.find? p).map fun r =>
      if p ∈ paths ∧ r.deletedAt = none then r.tombstone now else r := by
  induction paths generalizing t with
  | nil => simp [tombstoneAll]
  | cons path paths ih =>
    have hstep : tombstoneAll t (path :: paths) now =
        tombstoneAll (tombstoneAt t path now) paths now := rfl
    rw [hstep, ih, tombstoneAt, Table.find?_updateWhere, Option.map_map]
    refine Option.map_congr fun r hr => ?_
    have hpath : r.path = p := Table.key_of_find? hr
    by_cases hp : p = path <;> by_cases hlive : r.deletedAt = none <;>
      simp [liveAt, hpath, hp, hlive, PriorTreeRow.tombstone]

theorem runs_tombstones {paths : List PriorTreeRow} {now : Timestamp} {u : PUnit}
    (h : Runs (forM paths fun r => tombstonePriorTreeFile (D := D) r.path now) db u db') :
    db' = { db with priorTree := tombstoneAll db.priorTree (paths.map PriorTreeRow.path) now } := by
  refine Runs.forM_invariant (fun done t => t = { db with
    priorTree := tombstoneAll db.priorTree (done.map PriorTreeRow.path) now }) h rfl ?_
  intro done r rest t t' _ ht hrun
  rw [runs_tombstonePriorTreeFile hrun, ht]
  simp [tombstoneAll]

theorem removeClaims_eq (client : Nat) (doc : NamespaceDoc) (rows : List PriorTreeRow) :
    removeClaims client doc rows = NamespaceDoc.mintAll client doc (removals rows) := by
  induction rows generalizing doc with
  | nil => rfl
  | cons r rows ih => exact ih _

/-- The operations that remove the claims of rows, as the daemon mints them. -/
def Db.removalOps (db : Db D) (rows : List PriorTreeRow) : NamespaceDoc :=
  NamespaceDoc.mintedOps (clientIdForWriter db.writerId)
    (db.priorNamespace.stateVector (clientIdForWriter db.writerId)) (removals rows)

@[simp] theorem removalOps_nil : db.removalOps [] = ∅ := rfl

theorem removalOps_eq_empty {rows : List PriorTreeRow} : db.removalOps rows = ∅ ↔ rows = [] := by
  rw [Db.removalOps, NamespaceDoc.mintedOps_eq_empty, removals, List.map_eq_nil_iff]

/-- The outbox messages of local deletes. -/
def Db.removalMessages (db : Db D) (rows : List PriorTreeRow) : List (SharedMessage D) :=
  if rows = [] then [] else [.namespaceUpdate (db.removalOps rows)]

/-- What a transaction with local deletes leaves: the removals join both namespaces and the outbox,
the rows are tombstoned, and the stable tree is written if there was something to delete. -/
structure LocallyDeleted (db db' : Db D) (rows : List PriorTreeRow) (now : Timestamp) : Prop where
  /-- What changes, and what does not. -/
  eq : db' = { db with
    priorNamespace := db.priorNamespace ∪ db.removalOps rows
    stableNamespace := db.stableNamespace ∪ db.removalOps rows
    objects := db'.objects
    stableTree := db'.stableTree
    priorTree := tombstoneAll db.priorTree (rows.map PriorTreeRow.path) now
    outbox := db'.outbox
    ignoredFiles := db'.ignoredFiles }
  /-- Without missing rows the stable tree stays. -/
  stableTree_nil : rows = [] → db'.stableTree = db.stableTree
  /-- With missing rows it is the materialization of the new namespace. -/
  stableTree_written : rows ≠ [] →
    StableTreeWritten db.stableTree db'.stableTree (db.stableNamespace ∪ db.removalOps rows) now
  /-- The removals are in the outbox. -/
  outbox : db.outbox.pushOutboxMessages (db.removalMessages rows) = .ok db'.outbox
  /-- The stable tree still names objects with rows only. -/
  objectsKnown : db.ObjectsKnown → db'.ObjectsKnown

/-- The transaction of local deletes: the removals are written to both namespaces, the rows are
tombstoned, and the removals are pushed. -/
theorem runs_localDeletes_iff {rows : List PriorTreeRow} (hrows : rows ≠ []) {now : Timestamp}
    {n : Nat} : Runs (applyMissingPriorPathsAsLocalDeletesTx (D := D) rows now) db n db' ↔ n = 1 ∧
      ∃ db₁ db₂, Runs (writeStableNamespaceProjectionTx (D := D)
          (db.stableNamespace.applyUpdate (db.removalOps rows)) now)
          { db with priorNamespace := db.priorNamespace ∪ db.removalOps rows } ⟨⟩ db₁ ∧
        Runs (forM rows fun r => tombstonePriorTreeFile (D := D) r.path now) db₁ ⟨⟩ db₂ ∧
        Runs (pushOutbox (D := D) [.namespaceUpdate (db.removalOps rows)]) db₂ ⟨⟩ db' := by
  have hupdate : (removeClaims (clientIdForWriter db.writerId) db.priorNamespace
      rows).encodeUpdateSince db.priorNamespace.stateVector = db.removalOps rows := by
    rw [removeClaims_eq, NamespaceDoc.encodeUpdateSince_mintAll, Db.removalOps]
  have hprior : removeClaims (clientIdForWriter db.writerId) db.priorNamespace rows =
      db.priorNamespace ∪ db.removalOps rows := by
    rw [removeClaims_eq, NamespaceDoc.mintAll_eq, Db.removalOps]
  have hne : db.removalOps rows ≠ ∅ := fun h => hrows (removalOps_eq_empty.mp h)
  unfold applyMissingPriorPathsAsLocalDeletesTx
  rw [if_neg hrows]
  simp only [Runs.bind_iff, Runs.get_iff]
  constructor
  · rintro ⟨db, _, ⟨rfl, rfl⟩, h⟩
    rw [hupdate, hprior] at h
    simp only [if_neg hne, updatePriorNamespace, Runs.bind_iff, Runs.modify_iff, Runs.pure_iff] at h
    obtain ⟨⟨⟩, _, rfl, ⟨⟩, db₁, hwrite, ⟨⟩, db₂, htombs, ⟨⟩, db₃, hpush, rfl, rfl⟩ := h
    exact ⟨rfl, db₁, db₂, hwrite, htombs, hpush⟩
  · rintro ⟨rfl, db₁, db₂, hwrite, htombs, hpush⟩
    refine ⟨db, db, ⟨rfl, rfl⟩, ?_⟩
    rw [hupdate, hprior]
    simp only [if_neg hne, updatePriorNamespace, Runs.bind_iff, Runs.modify_iff, Runs.pure_iff]
    exact ⟨⟨⟩, _, rfl, ⟨⟩, db₁, hwrite, ⟨⟩, db₂, htombs, ⟨⟩, db', hpush, trivial, rfl⟩

/-- Local deletes keep the stable tree in line with the namespace. -/
theorem LocallyDeleted.treeSynced {rows : List PriorTreeRow} {now : Timestamp}
    (h : LocallyDeleted db db' rows now) (hdb : TreeSynced db.stableTree db.stableNamespace) :
    TreeSynced db'.stableTree db'.stableNamespace := by
  have hns : db'.stableNamespace = db.stableNamespace ∪ db.removalOps rows := by rw [h.eq]
  rw [hns]
  by_cases hrows : rows = []
  · rw [h.stableTree_nil hrows, hrows, removalOps_nil, Finset.union_empty]
    exact hdb
  · exact (h.stableTree_written hrows).treeSynced

theorem pushOutboxMessages_nil (o : Outbox (SharedMessage D)) : o.pushOutboxMessages [] = .ok o := rfl

theorem runs_applyMissingPriorPathsAsLocalDeletesTx {rows : List PriorTreeRow} {now : Timestamp}
    {n : Nat} (h : Runs (applyMissingPriorPathsAsLocalDeletesTx (D := D) rows now) db n db') :
    LocallyDeleted db db' rows now ∧ db'.ignoredFiles = db.ignoredFiles := by
  by_cases hrows : rows = []
  · unfold applyMissingPriorPathsAsLocalDeletesTx at h
    rw [if_pos hrows, Runs.pure_iff] at h
    obtain ⟨rfl, rfl⟩ := h
    subst hrows
    refine ⟨⟨?_, fun _ => rfl, fun hne => absurd rfl hne, rfl, id⟩, rfl⟩
    simp [tombstoneAll]
  · obtain ⟨-, db₁, db₂, hwrite, htombs, hpush⟩ := (runs_localDeletes_iff hrows).mp h
    obtain ⟨hdb₁, hwritten, hknown⟩ := runs_writeStableNamespaceProjectionTx hwrite
    have hdb₂ := runs_tombstones htombs
    obtain ⟨outbox, houtbox, hdb₃⟩ := runs_pushOutbox hpush
    subst hdb₃
    subst hdb₂
    refine ⟨⟨?_, fun h => absurd h hrows, fun _ => hwritten, ?_, fun _ => hknown⟩, ?_⟩
    · rw [hdb₁]
      rfl
    · rw [Db.removalMessages, if_neg hrows]
      rw [hdb₁] at houtbox
      exact houtbox
    · rw [hdb₁]

/-- What `apply_scan` does: the missing rows become local deletes, and the other differences are
planned for an import. -/
theorem runs_applyScan {scan : ScanResult} {epoch : Nat} {now : Timestamp}
    {output : ApplyScanOutput D} (h : Runs (applyScan scan epoch now) db output db') :
    LocallyDeleted db db' (db.missingPrior scan) now ∧
      output.nextWork =
        if readActions epoch ((db.changedFiles scan ++ db.newFiles scan).filter fun f =>
            readDecision (db.ignoredInScope scan) f = .read) = [] then .none
        else .importEpoch ⟨epoch, readActions epoch
          ((db.changedFiles scan ++ db.newFiles scan).filter fun f =>
            readDecision (db.ignoredInScope scan) f = .read)⟩ := by
  simp only [applyScan, Runs.bind_iff, Runs.liftExcept_iff, Runs.get_iff, Runs.pure_iff] at h
  obtain ⟨⟨⟩, _, ⟨-, rfl⟩, db, _, ⟨rfl, rfl⟩, actions, db₁, hplan, ⟨⟩, db₂, hstale, n, db₃, hdelete,
    rfl, rfl⟩ := h
  obtain ⟨h₁, rfl⟩ := runs_planReads hplan
  have h₂ := runs_deleteIgnoredFiles hstale
  obtain ⟨⟨heq, hnil, hwritten, houtbox, hknown⟩, -⟩ :=
    runs_applyMissingPriorPathsAsLocalDeletesTx hdelete
  have hdb₂ : db₂ = { db with ignoredFiles := db₂.ignoredFiles } := by rw [h₂, h₁]
  refine ⟨?_, rfl⟩
  rw [hdb₂] at heq hnil hwritten houtbox hknown
  exact ⟨heq, hnil, hwritten, houtbox, hknown⟩

/-- The read actions of an epoch carry its number. -/
theorem epoch_of_mem_readActions {epoch : Nat} {files : List ObservedFile} {action : ImportAction}
    (h : action ∈ readActions epoch files) : action.id.epoch = epoch := by
  obtain ⟨⟨f, seq⟩, -, rfl⟩ := List.mem_map.mp h
  rfl

/-- `apply_init_scan` touches the entries of ignored files only, and plans reads of files it found. -/
theorem runs_applyInitScan {scan : ScanResult} {epoch : Nat} {started : ImportEpochStarted}
    (h : Runs (applyInitScan (D := D) scan epoch) db started db') :
    db' = { db with ignoredFiles := db'.ignoredFiles } ∧
      (∃ files, files ⊆ scan.tree.files ∧ started = ⟨epoch, readActions epoch files⟩) ∧
      db.stableNamespace = ∅ ∧ db.priorNamespace = ∅ := by
  simp only [applyInitScan, Runs.bind_iff, Runs.get_iff] at h
  obtain ⟨db, _, ⟨rfl, rfl⟩, ⟨⟩, t, hcheck, h⟩ := h
  have ht : db = t := Runs.forM_preserves (fun t => db = t) hcheck rfl fun table _ s s' hs hrun => by
    rw [Runs.liftExcept_iff] at hrun
    exact hs.trans hrun.2
  subst ht
  simp only [Runs.ite_iff, Runs.throw_iff, and_false, false_or, Runs.bind_iff, Runs.pure_iff,
    not_or, not_not] at h
  obtain ⟨⟨hstable, hprior⟩, actions, t, hplan, rfl, rfl⟩ := h
  obtain ⟨hdb, rfl⟩ := runs_planReads hplan
  exact ⟨hdb, ⟨_, List.filter_sublist.subset, rfl⟩, hstable, hprior⟩

end Spec

end Opbox
