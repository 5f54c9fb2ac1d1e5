import Opbox.Semantic.ImportCapture
import Opbox.Semantic.StagingTable

/-!
# Renames

A scan observes a renamed file as two things: its old path is missing, and at an untracked path there
is a file with its file key.  The scan tombstones the old row, and the read of the new file finds this
tombstone by the key, if it comes in within the reuse window.  So every renamed file of a scan takes over
its own object, in whatever order the reads come in: as long as the epoch goes on, the tombstone is the
only one with the key, and nothing else becomes known at the new path.
-/

namespace Opbox

open TextCrdt

section Renames

variable {D : Type}

/-- A renamed file as a scan observes it: the live row of the old path, and the file at the new one. -/
structure Renamed (db : Db D) (scan : ScanResult) (prior : PriorTreeRow) (file : ObservedFile) :
    Prop where
  /-- The old path is tracked. -/
  mem : prior ∈ db.priorTree
  live : prior.deletedAt = none
  /-- Its file is missing. -/
  missing : scan.observed prior.path = none
  /-- The new file is there. -/
  found : file ∈ scan.tree.files
  /-- Its path is not tracked. -/
  untracked : db.priorTreeLiveFile file.path = none
  /-- It has the file key of the row. -/
  sameKey : file.fingerprint.stat.fileKey = prior.fingerprint.stat.fileKey
  /-- No other row has this key. -/
  onlyRow : ∀ row ∈ db.priorTree, row.fingerprint.stat.fileKey = prior.fingerprint.stat.fileKey →
    row = prior
  /-- No write to the new path is intended. -/
  noIntent : ∀ intent ∈ db.projectionWriteIntents, intent.path ≠ file.path

instance (db : Db D) (scan : ScanResult) (prior : PriorTreeRow) (file : ObservedFile) :
    Decidable (Renamed db scan prior file) :=
  decidable_of_iff (prior ∈ db.priorTree.rows ∧ prior.deletedAt = none ∧
      scan.observed prior.path = none ∧ file ∈ scan.tree.files ∧
      db.priorTreeLiveFile file.path = none ∧
      file.fingerprint.stat.fileKey = prior.fingerprint.stat.fileKey ∧
      (∀ row ∈ db.priorTree.rows,
        row.fingerprint.stat.fileKey = prior.fingerprint.stat.fileKey → row = prior) ∧
      ∀ intent ∈ db.projectionWriteIntents.rows, intent.path ≠ file.path)
    ⟨fun ⟨h₁, h₂, h₃, h₄, h₅, h₆, h₇, h₈⟩ => ⟨h₁, h₂, h₃, h₄, h₅, h₆, h₇, h₈⟩,
      fun h => ⟨h.mem, h.live, h.missing, h.found, h.untracked, h.sameKey, h.onlyRow, h.noIntent⟩⟩

/-- What a scan leaves of a renamed file until its epoch is committed. -/
structure RenameOpen (db₀ : Db D) (scannedAt : Timestamp) (prior : PriorTreeRow) (file : ObservedFile)
    (db : Db D) : Prop where
  /-- The old row is a tombstone. -/
  tombstone : prior.tombstone scannedAt ∈ db.priorTree
  /-- There is no other tombstone with its file key. -/
  onlyTombstone : ∀ row ∈ db.priorTree, row.deletedAt ≠ none →
    row.fingerprint.stat.fileKey = prior.fingerprint.stat.fileKey → row = prior.tombstone scannedAt
  /-- What is known at the new path is what was. -/
  newPath : db.priorTree.find? file.path = db₀.priorTree.find? file.path
  /-- No write to the new path is intended. -/
  noIntent : ∀ intent ∈ db.projectionWriteIntents, intent.path ≠ file.path

section Open

variable {db₀ db : Db D} {scan : ScanResult} {scannedAt stagedAt : Timestamp} {prior : PriorTreeRow}
  {file : ObservedFile} {plan : ImportActionStagePlan}

/-- A full scan leaves its renamed files open. -/
theorem Renamed.tombstoned (h : Renamed db₀ scan prior file) (hfull : scan.scope = .full)
    (hdeleted : LocallyDeleted db₀ db (db₀.missingPrior scan) scannedAt) :
    RenameOpen db₀ scannedAt prior file db := by
  have hmissing : db₀.Missing scan prior := by
    refine mem_missingPrior_iff.mp (mem_missingPrior.mpr ⟨⟨h.mem, h.live⟩, ?_, h.missing⟩)
    rw [hfull]
    rfl
  have htree : db.priorTree = tombstoneAll db₀.priorTree
      ((db₀.missingPrior scan).map PriorTreeRow.path) scannedAt := by rw [hdeleted.eq]
  refine ⟨?_, ?_, ?_, ?_⟩
  · rw [htree]
    exact mem_tombstoneAll_missingPrior.mpr (.inr ⟨prior, hmissing, rfl⟩)
  · intro row hrow hdead hkey
    rw [htree] at hrow
    rcases mem_tombstoneAll_missingPrior.mp hrow with ⟨hrow, -⟩ | ⟨row', hmissing', rfl⟩
    · rw [h.onlyRow row hrow hkey] at hdead
      exact absurd h.live hdead
    · rw [h.onlyRow row' hmissing'.1 hkey]
  · rw [htree, find?_tombstoneAll]
    cases hfind : db₀.priorTree.find? file.path with
    | none => rfl
    | some row =>
      have hdead : row.deletedAt ≠ none := by
        intro hlive
        have hnone := h.untracked
        rw [Db.priorTreeLiveFile, hfind] at hnone
        simp [Option.filter, hlive] at hnone
      rw [Option.map_some, if_neg fun hcase => hdead hcase.2]
  · rw [show db.projectionWriteIntents = db₀.projectionWriteIntents by rw [hdeleted.eq]]
    exact h.noIntent

/-- The renamed file takes over the object of its old row. -/
theorem RenameOpen.reusableTombstone (h : RenameOpen db₀ scannedAt prior file db)
    (huntracked : db₀.priorTreeLiveFile file.path = none) (hpath : plan.path = file.path)
    (hkey : plan.fingerprint.stat.fileKey = prior.fingerprint.stat.fileKey)
    (htime : stagedAt - recentTombstoneReuseWindow ≤ scannedAt)
    (hnone : db₀.recentTombstonedFile file.path (stagedAt - recentTombstoneReuseWindow) = none) :
    db.priorTreeLiveFile plan.path = none ∧
      db.reusableTombstone plan stagedAt = some (prior.tombstone scannedAt) := by
  refine ⟨?_, ?_⟩
  · rw [Db.priorTreeLiveFile, hpath, h.newPath]
    exact huntracked
  · have hbyPath : db.recentTombstonedFile plan.path (stagedAt - recentTombstoneReuseWindow) =
        none := by
      rw [Db.recentTombstonedFile, hpath, h.newPath]
      exact hnone
    rw [Db.reusableTombstone, hbyPath, Option.none_or]
    have hrecent : Db.recentTombstone (stagedAt - recentTombstoneReuseWindow)
        (prior.tombstone scannedAt) = true := decide_eq_true htime
    unfold Db.recentTombstonedFileByFileKey
    have hmem : prior.tombstone scannedAt ∈ (db.priorTree.select fun r =>
        decide (r.fingerprint.stat.fileKey = plan.fingerprint.stat.fileKey) &&
          Db.recentTombstone (stagedAt - recentTombstoneReuseWindow) r).insertionSort
        Db.tombstoneBefore := by
      rw [List.mem_insertionSort, Table.mem_select]
      exact ⟨h.tombstone, by rw [hrecent, Bool.and_true]; exact decide_eq_true hkey.symm⟩
    -- The candidates are this tombstone and nothing else.
    cases hhead : ((db.priorTree.select fun r =>
        decide (r.fingerprint.stat.fileKey = plan.fingerprint.stat.fileKey) &&
          Db.recentTombstone (stagedAt - recentTombstoneReuseWindow) r).insertionSort
        Db.tombstoneBefore).head? with
    | none => rw [List.head?_eq_none_iff.mp hhead] at hmem; cases hmem
    | some row =>
      obtain ⟨hrow, hrowKey, hrowRecent⟩ := Db.mem_of_recentTombstonedFileByFileKey hhead
      rw [h.onlyTombstone row hrow (Db.ne_none_of_recentTombstone hrowRecent)
        (hrowKey.trans hkey)]

end Open

variable [TextCrdt D] [CharDiff] [Xxh3] [DecidableEq D]

omit [TextCrdt D] [CharDiff] [Xxh3] [DecidableEq D] in
/-- A renamed file stays open while reads come in. -/
theorem RenameOpen.stretch {db₀ : Db D} {scannedAt : Timestamp} {prior : PriorTreeRow}
    {file : ObservedFile} {active : ActiveImportEpoch} {s t : SemanticActor D}
    (h : RenameOpen db₀ scannedAt prior file s.db) (hstretch : ImportStretch active s t)
    (hunread : ∀ action ∈ active.expected, ∀ expected, action.kind ≠ .read prior.path expected) :
    RenameOpen db₀ scannedAt prior file t.db where
  tombstone := by
    have hfind : s.db.priorTree.find? prior.path = some (prior.tombstone scannedAt) :=
      Table.find?_key h.tombstone
    rcases hstretch.priorTree prior.path with hsame | ⟨-, ⟨action, haction, fp, hread⟩, -⟩
    · exact Table.mem_of_find? (hsame.trans hfind)
    · exact absurd hread (hunread action haction fp)
  onlyTombstone row hrow hdead hkey := by
    have hfind := Table.find?_key hrow
    rcases hstretch.priorTree row.path with hsame | ⟨-, -, row', hrow', hlive⟩
    · exact h.onlyTombstone row (Table.mem_of_find? (hsame.symm.trans hfind)) hdead hkey
    · rw [hfind] at hrow'
      cases hrow'
      exact absurd hlive hdead
  newPath := by
    rcases hstretch.priorTree file.path with hsame | ⟨⟨intent, hintent, hpath⟩, -⟩
    · exact hsame.trans h.newPath
    · exact absurd hpath (h.noIntent intent hintent)
  noIntent intent hintent := h.noIntent intent (hstretch.intents intent hintent)

/-- The epoch that a scan has opened, at any point of its run. -/
structure EpochOfScan (s : SemanticActor D) (scan : ScanResult) (scannedAt : Timestamp)
    (active : ActiveImportEpoch) (t : SemanticActor D) : Prop where
  /-- It reads what the scan planned. -/
  planned : active = ⟨s.nextImportEpoch, .sync,
    readActions s.nextImportEpoch (s.db.plannedReads scan), []⟩
  /-- It goes on. -/
  continues : ∃ completed, t.active = .importing { active with completed := completed }
  /-- The renamed files are open. -/
  renames : ∀ prior file, Renamed s.db scan prior file →
    RenameOpen s.db scannedAt prior file t.db

section Epoch

variable {s s₁ t : SemanticActor D} {scan : ScanResult} {scannedAt stagedAt : Timestamp}
  {active : ActiveImportEpoch} {writer : DaemonWriterId} {prior : PriorTreeRow} {file : ObservedFile}
  {result : ImportActionResult} {plan : ImportActionStagePlan} {objectId : ObjectId}
  {claimId : NamespaceClaimId}

omit [TextCrdt D] [CharDiff] [Xxh3] [DecidableEq D] in
theorem mem_files_of_plannedReads {db : Db D} {f : ObservedFile} (h : f ∈ db.plannedReads scan) :
    f ∈ scan.tree.files := by
  rcases List.mem_append.mp (List.mem_of_mem_filter h) with hchanged | hnew
  · exact (mem_changedFiles.mp hchanged).1
  · exact (mem_newFiles.mp hnew).1

/-- A full scan leaves its renamed files open over the whole run of its epoch. -/
theorem epochOfScan (hscan : s.step (.applyScan scan scannedAt) = some s₁)
    (hfull : scan.scope = .full) (hopen : s₁.active = .importing active)
    (hstretch : ImportStretch active s₁ t) : EpochOfScan s scan scannedAt active t := by
  have hserved := served_of_step hscan
  have hplanned : active = ⟨s.nextImportEpoch, .sync,
      readActions s.nextImportEpoch (s.db.plannedReads scan), []⟩ := by
    cases hserved.diskStep with
    | shared isShared disk active' => cases isShared
    | scan idle disk active' =>
      rw [hopen] at active'
      split_ifs at active'
      cases active'
      rfl
  have hdeleted : LocallyDeleted s.db s₁.db (s.db.missingPrior scan) scannedAt := by
    cases hserved with
    | applyScan hidle hscanned => exact (runs_applyScan hscanned).1
  refine ⟨hplanned, hstretch.continues, fun prior file hrenamed => ?_⟩
  refine (hrenamed.tombstoned hfull hdeleted).stretch hstretch fun action haction expected hread => ?_
  -- The old path is missing, so it is not among the paths that are read.
  rw [hplanned] at haction
  have hpath : prior.path ∈ (readActions s.nextImportEpoch (s.db.plannedReads scan)).map
      fun action => action.kind.path :=
    List.mem_map.mpr ⟨action, haction, by rw [hread]; rfl⟩
  rw [paths_readActions] at hpath
  obtain ⟨f, hf, hfpath⟩ := List.mem_map.mp hpath
  have hseen := observed_eq_some_iff.mpr ⟨mem_files_of_plannedReads hf, hfpath⟩
  rw [hrenamed.missing] at hseen
  cases hseen

omit [TextCrdt D] [CharDiff] [Xxh3] [DecidableEq D] in
/-- The read of a file has the file key that the scan observed. -/
theorem EpochOfScan.fileKey (h : EpochOfScan s scan scannedAt active t)
    (hplan : t.stagePlan result = some plan) (hfile : file ∈ scan.tree.files)
    (hpath : plan.path = file.path) :
    plan.epochKind = .sync ∧
      plan.fingerprint.stat.fileKey = file.fingerprint.stat.fileKey := by
  obtain ⟨active', context, hactive', hcontext, hdecided⟩ := stagePlan_eq_some_iff.mp hplan
  obtain ⟨completed, hactive⟩ := h.continues
  rw [hactive] at hactive'
  cases hactive'
  obtain ⟨action, haction, -, rfl⟩ := action_of_context hcontext
  obtain ⟨fp, stat, hash, hread, -, hkind, -, hsat, -⟩ := stage_of_prepareImportActionStage hdecided
  have hexpected : action ∈ readActions s.nextImportEpoch (s.db.plannedReads scan) := by
    rw [h.planned] at haction
    exact haction
  have hread' : action.kind ∈ (readActions s.nextImportEpoch (s.db.plannedReads scan)).map
      ImportAction.kind := List.mem_map_of_mem hexpected
  rw [kinds_readActions] at hread'
  obtain ⟨f, hf, hfkind⟩ := List.mem_map.mp hread'
  have hsame : ImportActionKind.read f.path f.fingerprint = .read plan.path fp := hfkind.trans hread
  obtain ⟨hfpath, rfl⟩ := ImportActionKind.read.inj hsame
  rw [eq_of_path_eq (mem_files_of_plannedReads hf) hfile (hfpath.trans hpath)] at hsat
  refine ⟨hkind.trans ?_, ?_⟩
  · rw [h.planned]
  · rw [FileFingerprint.stat_eq_of_satisfies hsat]

omit [Xxh3] in
/-- The read of a renamed file takes over the object of its old row, whatever came in before it. -/
theorem EpochOfScan.stagedTextImport (h : EpochOfScan s scan scannedAt active t)
    (hrenamed : Renamed s.db scan prior file) (hplan : t.stagePlan result = some plan)
    (hpath : plan.path = file.path)
    (htime : stagedAt - recentTombstoneReuseWindow ≤ scannedAt)
    (hnone : s.db.recentTombstonedFile file.path (stagedAt - recentTombstoneReuseWindow) = none) :
    t.db.stagedTextImport plan stagedAt objectId claimId = stageExistingTextFile t.db
        (clientIdForWriter t.db.writerId) plan (prior.tombstone scannedAt) .resurrect claimId ∧
      t.realignedTo (.commitImportAction result stagedAt objectId claimId) = none := by
  obtain ⟨hsync, hkey⟩ := h.fileKey hplan hrenamed.found hpath
  have hrename := h.renames prior file hrenamed
  obtain ⟨huntracked, htombstone⟩ := hrename.reusableTombstone hrenamed.untracked hpath
    (hkey.trans hrenamed.sameKey) htime hnone
  refine ⟨?_, ?_⟩
  · unfold Db.stagedTextImport
    rw [hsync]
    dsimp only
    rw [huntracked, htombstone]
  · -- No write to the path is intended, so there is nothing to realign it to.
    obtain ⟨_, _, -, -, hdecided⟩ := stagePlan_eq_some_iff.mp hplan
    obtain ⟨-, stat, hash, -, hfp, -⟩ := stage_of_prepareImportActionStage hdecided
    simp only [SemanticActor.realignedTo, hplan, Option.bind_some, hsync, hfp, Option.map_eq_none_iff]
    cases hrealign : t.db.realignment plan (t.db.appliedIntent plan.path stat hash) with
    | none => rfl
    | some target =>
      obtain ⟨intent, hintent, hintentPath, -⟩ :=
        exists_of_appliedIntent (realignment_eq_some hrealign).1
      exact absurd (hintentPath.trans hpath) (hrename.noIntent intent hintent)

omit [TextCrdt D] [CharDiff] [Xxh3] [DecidableEq D] in
/-- An edit of an object keeps the object. -/
theorem stageExistingTextFile_ids [TextCrdt D] [CharDiff] (db : Db D) (client : Nat)
    (plan : ImportActionStagePlan) (prior : PriorTreeRow) (kind : StageKind)
    (claimId : NamespaceClaimId) :
    (stageExistingTextFile db client plan prior kind claimId).stageKind = kind ∧
      (stageExistingTextFile db client plan prior kind claimId).objectId = prior.objectId ∧
      (stageExistingTextFile db client plan prior kind claimId).claimId = claimId := by
  rcases stageExistingTextFile_cases db client plan prior kind claimId with ⟨capture, -, heq⟩ | heq
  · rw [heq]
    exact ⟨rfl, rfl, rfl⟩
  · rw [heq]
    exact ⟨rfl, rfl, rfl⟩

end Epoch

/-! ## The commit -/

/-- What becomes of a renamed file whose read was staged with a generated claim. -/
structure RenameKept (prior : PriorTreeRow) (plan : ImportActionStagePlan) (base : D)
    (claimId : NamespaceClaimId) (now : Timestamp) (db db' : Db D) : Prop where
  /-- It was staged as a resurrection of the object of its old row. -/
  staged : ∃ row ∈ db.importStagedFiles.rows, row.path = plan.path ∧ row.stageKind = .resurrect ∧
    row.objectId = prior.objectId ∧ row.claimId = claimId
  /-- The claim of the old row is removed. -/
  removed : prior.claimId ∈ db'.stableNamespace.removedClaimIds
  /-- A fresh claim places the object at the new path. -/
  claimed : claimId ∉ db.stableNamespace.claimIds → claimId ∉ db.stableNamespace.removedClaimIds →
    db'.stableNamespace.getClaim claimId = some ⟨prior.objectId, plan.path⟩ ∧
      claimId ∈ db'.stableNamespace.activeClaimIds
  /-- The file is accepted at the new path with the object. -/
  live : db'.priorTreeLiveFile plan.path =
    some ⟨plan.path, plan.path, claimId, prior.objectId, plan.fingerprint, now, none⟩
  /-- A file with the text of its object adds no text operation. -/
  noTextRow : getText base = plan.content → ∀ r ∈ db'.outbox.rows, r ∉ db.outbox.rows →
    ¬r.sharedMessage.IsTextOf prior.objectId

section Commit

variable {db db' : Db D} {epoch : Nat} {staged : List (StagedRow D)} {now : Timestamp}
  {row : StagedRow D}

omit [TextCrdt D] [CharDiff] [Xxh3] [DecidableEq D] in
/-- A claim of a staged row is the claim of its file. -/
theorem claim_of_mem_entries {creator : DaemonWriterId} {id : NamespaceClaimId}
    {record : ClaimRecord} (h : .claim id record ∈ row.entries creator) :
    id = row.claimId ∧ record = ⟨row.objectId, row.path⟩ := by
  unfold StagedRow.entries at h
  cases hkind : row.stageKind <;> simp_all

omit [TextCrdt D] [CharDiff] [Xxh3] [DecidableEq D] in
/-- An import removes no claim. -/
theorem removed_notMem_importEntries {creator : DaemonWriterId} {id : NamespaceClaimId} :
    .removed id ∉ importEntries creator staged := by
  intro h
  obtain ⟨row, -, hentry⟩ := List.mem_flatMap.mp h
  unfold StagedRow.entries at hentry
  cases hkind : row.stageKind <;> simp_all

omit [CharDiff] [Xxh3] [DecidableEq D] in
/-- The claim of a resurrected file, when it is fresh. -/
theorem SyncImported.getClaim (h : SyncImported db db' epoch staged now)
    (hclaims : (staged.map StagedRow.claimId).Nodup) (hrow : row ∈ staged)
    (hkind : row.stageKind = .resurrect) (hfresh : row.claimId ∉ db.stableNamespace.claimIds)
    (hkept : row.claimId ∉ db.stableNamespace.removedClaimIds) :
    db'.stableNamespace.getClaim row.claimId = some ⟨row.objectId, row.path⟩ ∧
      row.claimId ∈ db'.stableNamespace.activeClaimIds := by
  have hns : db'.stableNamespace = db.stableNamespace ∪ db.importOps staged := by rw [h.eq]
  have hentry : NsEntry.claim row.claimId ⟨row.objectId, row.path⟩ ∈
      importEntries db.writerId staged := by
    refine List.mem_flatMap.mpr ⟨row, hrow, ?_⟩
    rw [StagedRow.entries, hkind]
    exact List.mem_cons_self
  obtain ⟨op, hop, hopEntry⟩ := NamespaceDoc.exists_mem_mintedOps (clientIdForWriter db.writerId)
    (db.priorNamespace.stateVector (clientIdForWriter db.writerId)) hentry
  have hmem : op ∈ db'.stableNamespace := by
    rw [hns]
    exact Finset.mem_union_right _ hop
  -- An operation that was minted for the claim was minted for this row.
  have hminted : ∀ op' ∈ db.importOps staged, ∀ record,
      op'.entry = .claim row.claimId record → record = ⟨row.objectId, row.path⟩ := by
    intro op' hop' record hrecord
    obtain ⟨-, -, hentry'⟩ := NamespaceDoc.mem_mintedOps hop'
    rw [hrecord] at hentry'
    obtain ⟨row', hrow', hclaim⟩ := List.mem_flatMap.mp hentry'
    obtain ⟨hid, hrecord'⟩ := claim_of_mem_entries hclaim
    rw [hrecord', List.inj_on_of_nodup_map hclaims hrow' hrow hid.symm]
  refine ⟨NamespaceDoc.mapGet_eq_some hmem (by simp [hopEntry, NsEntry.record?]) ?_, ?_⟩
  · intro op' hop' record hrecord
    have hclaim : op'.entry = .claim row.claimId record := by
      unfold NsEntry.record? at hrecord
      split at hrecord
      · split_ifs at hrecord with hid
        cases hrecord
        subst hid
        assumption
      · cases hrecord
    rw [hns, Finset.mem_union] at hop'
    rcases hop' with hold | hnew
    · refine absurd (NamespaceDoc.mem_values.mpr ⟨op', hold, ?_⟩) hfresh
      rw [hclaim]
      rfl
    · exact hminted op' hnew record hclaim
  · rw [NamespaceDoc.activeClaimIds, Finset.mem_sdiff]
    refine ⟨NamespaceDoc.mem_values.mpr ⟨op, hmem, by rw [hopEntry]; rfl⟩, ?_⟩
    rw [NamespaceDoc.removedClaimIds, hns, NamespaceDoc.values_union, Finset.mem_union]
    rintro (hold | hnew)
    · exact hkept hold
    · obtain ⟨op', hop', hremoved⟩ := NamespaceDoc.mem_values.mp hnew
      obtain ⟨-, -, hentry'⟩ := NamespaceDoc.mem_mintedOps hop'
      unfold NsEntry.removed? at hremoved
      split at hremoved
      next id heq =>
        rw [heq] at hentry'
        exact removed_notMem_importEntries hentry'
      · cases hremoved

end Commit

/-! ## All renamed files of a scan -/

/-- The requests of an epoch with these renamed files: none commits it, and the reads come in within the
reuse window of the scan, when the new paths have no recent tombstones of their own. -/
structure WithinReuseWindow (db : Db D) (scannedAt : Timestamp)
    (renames : List (PriorTreeRow × ObservedFile)) (requests : List (SemanticRequest D)) : Prop where
  goesOn : ∀ request ∈ requests, request.endsImport = false
  inTime : ∀ result stagedAt objectId claimId,
    .commitImportAction result stagedAt objectId claimId ∈ requests →
      stagedAt - recentTombstoneReuseWindow ≤ scannedAt
  noTombstone : ∀ result stagedAt objectId claimId,
    .commitImportAction result stagedAt objectId claimId ∈ requests → ∀ r ∈ renames,
      db.recentTombstonedFile r.2.path (stagedAt - recentTombstoneReuseWindow) = none

section Run

variable {s s₁ s₂ s₃ t : SemanticActor D} {scan : ScanResult} {scannedAt stagedAt now : Timestamp}
  {active : ActiveImportEpoch} {writer : DaemonWriterId}
  {renames : List (PriorTreeRow × ObservedFile)} {requests : List (SemanticRequest D)}

/-- Whatever is staged at the new path of a renamed file has the object of its old row. -/
theorem objectId_of_staged (h : (daemonMachine D writer).Reached s)
    (hscan : s.step (.applyScan scan scannedAt) = some s₁) (hfull : scan.scope = .full)
    (hopen : s₁.active = .importing active)
    (hrenamed : ∀ r ∈ renames, Renamed s.db scan r.1 r.2)
    (hrun : (daemonMachine D writer).exec s₁ (requests.map .serve) = some t)
    (hwindow : WithinReuseWindow s.db scannedAt renames requests) :
    ∀ row ∈ t.db.importStagedFiles.rows, ∀ r ∈ renames, row.path = r.2.path →
      row.objectId = r.1.objectId := by
  have hmeets : (daemonMachine D writer).Meets
      (fun _ action => ∃ request ∈ requests, action = .serve request) s₁ (requests.map .serve) := by
    refine Machine.meets_of_forall_mem fun action haction _ => ?_
    obtain ⟨request, hrequest, rfl⟩ := List.mem_map.mp haction
    exact ⟨request, hrequest, rfl⟩
  refine (hmeets.invariant (I := fun u => ImportStretch active s₁ u ∧
    ∀ row ∈ u.db.importStagedFiles.rows, ∀ r ∈ renames, row.path = r.2.path →
      row.objectId = r.1.objectId) ⟨importStretch_refl hopen, ?_⟩ ?_ hrun).2
  · -- Nothing is staged when the epoch opens.
    intro row hrow
    cases (served_of_step hscan).diskStep with
    | shared isShared disk active' => cases isShared
    | scan idle disk active' =>
      rw [show s₁.db.importStagedFiles = s.db.importStagedFiles from
        congrArg DiskTables.importStagedFiles disk,
        (stagingTidy_of_reached h).staged_eq_nil (by rw [idle]; nofun)] at hrow
      cases hrow
  · rintro u action u' ⟨hstretch, hrows⟩ ⟨request, hrequest, rfl⟩ hstep
    have hserved := served_of_step hstep
    have hends := hwindow.goesOn request hrequest
    refine ⟨hstretch.served hserved hends, ?_⟩
    have hsame : u'.db.importStagedFiles = u.db.importStagedFiles →
        ∀ row ∈ u'.db.importStagedFiles.rows, ∀ r ∈ renames, row.path = r.2.path →
          row.objectId = r.1.objectId := fun heq => heq ▸ hrows
    cases hserved.diskStep with
    | @stage result stagedAt objectId claimId active' context plan rows importing expected decided
        inserted disk active'' =>
      intro row hrow r hr hpath
      rw [show u'.db.importStagedFiles = rows from congrArg DiskTables.importStagedFiles disk,
        ImportStagedFiles.insert_eq_ok inserted, List.mem_append, List.mem_singleton] at hrow
      rcases hrow with hrow | rfl
      · exact hrows row hrow r hr hpath
      · have hstaged : u.db.stagedTextImport plan stagedAt objectId claimId = _ :=
          ((epochOfScan hscan hfull hopen hstretch).stagedTextImport (hrenamed r hr)
            (stagePlan_eq_some_iff.mpr ⟨active', context, importing, expected, decided⟩) hpath
            (hwindow.inTime _ _ _ _ hrequest) (hwindow.noTombstone _ _ _ _ hrequest r hr)).1
        rw [hstaged]
        exact (stageExistingTextFile_ids ..).2.1
    | commit active' importing disk active'' => cases hends
    | project active' projecting run active'' =>
      obtain ⟨completed, hactive⟩ := hstretch.continues
      rw [hactive] at projecting
      cases projecting
    | shared isShared disk active' => exact hsame (congrArg DiskTables.importStagedFiles disk)
    | initScan files found disk active' idle => exact hsame (congrArg DiskTables.importStagedFiles disk)
    | scan idle disk active' => exact hsame (congrArg DiskTables.importStagedFiles disk)
    | realign active' context plan stat hash row doc importing expected decided fingerprint realignment
        disk active'' => exact hsame (congrArg DiskTables.importStagedFiles disk)
    | skip active' context importing expected decided disk active'' =>
      exact hsame (congrArg DiskTables.importStagedFiles disk)
    | plan idle disk active' => exact hsame (congrArg DiskTables.importStagedFiles disk)
    | record active' context projecting expected disk active'' =>
      obtain ⟨completed, hactive⟩ := hstretch.continues
      rw [hactive] at projecting
      cases projecting
    | drop active' projecting disk active'' => exact hsame (congrArg DiskTables.importStagedFiles disk)

/-- The read of a renamed file is accepted exactly if its object is staged for renamed files only, when
no file is staged with its generated claim. -/
theorem exists_stage_of_renamed (h : (daemonMachine D writer).Reached s)
    (hscan : s.step (.applyScan scan scannedAt) = some s₁) (hfull : scan.scope = .full)
    (hopen : s₁.active = .importing active)
    (hrenamed : ∀ r ∈ renames, Renamed s.db scan r.1 r.2)
    (hobjects : (renames.map fun r => r.1.objectId).Nodup)
    (hrun : (daemonMachine D writer).exec s₁ (requests.map .serve) = some t)
    (hwindow : WithinReuseWindow s.db scannedAt renames requests)
    {result : ImportActionResult} {plan : ImportActionStagePlan} {objectId : ObjectId}
    {claimId : NamespaceClaimId} {columns : FileStatFingerprint × FileHash}
    (hplan : t.stagePlan result = some plan)
    (hcolumns : fingerprintColumns "import_staged_files" plan.fingerprint = .ok columns)
    {r : PriorTreeRow × ObservedFile} (hr : r ∈ renames) (hpath : plan.path = r.2.path)
    (htime : stagedAt - recentTombstoneReuseWindow ≤ scannedAt)
    (hnone : s.db.recentTombstonedFile r.2.path (stagedAt - recentTombstoneReuseWindow) = none)
    (hclaim : ∀ row ∈ t.db.importStagedFiles.rows, row.claimId ≠ claimId) :
    (∃ t', t.step (.commitImportAction result stagedAt objectId claimId) = some t') ↔
      ∀ row ∈ t.db.importStagedFiles.rows, row.objectId = r.1.objectId →
        ∃ r' ∈ renames, row.path = r'.2.path := by
  have hstretch := (importStretch_refl hopen).run hrun hwindow.goesOn
  have hepoch := epochOfScan hscan hfull hopen hstretch
  have hreached : (daemonMachine D writer).Reached t :=
    Machine.Reachable.exec (h.step (a := .serve (.applyScan scan scannedAt)) trivial hscan)
      (Machine.meets_true _ _) hrun
  obtain ⟨hstaged, hrealign⟩ : t.db.stagedTextImport plan stagedAt objectId claimId = _ ∧
      t.realignedTo (.commitImportAction result stagedAt objectId claimId) = none :=
    hepoch.stagedTextImport (hrenamed r hr) hplan hpath htime hnone
  obtain ⟨active', context, hactive', hcontext, hdecided⟩ := stagePlan_eq_some_iff.mp hplan
  have hkind : active'.kind = .sync := by
    obtain ⟨completed, hactive⟩ := hepoch.continues
    rw [hactive] at hactive'
    cases hactive'
    rw [hepoch.planned]
  obtain ⟨-, hobject, hclaim'⟩ := stageExistingTextFile_ids t.db (clientIdForWriter t.db.writerId)
    plan (r.1.tombstone scannedAt) .resurrect claimId
  have hunread := fun row (hrow : row ∈ t.db.importStagedFiles.rows) =>
    ((stagedByPlan_of_reached hreached).row_ne hactive' hkind hcontext hdecided hrow).2
  rw [exists_stage_iff hreached hactive' hkind hcontext hdecided hcolumns hrealign, hstaged, hobject,
    hclaim']
  refine ⟨fun hfree row hrow heq => absurd heq (hfree row hrow).1, fun hother row hrow =>
    ⟨fun heq => ?_, hclaim row hrow⟩⟩
  -- The object is staged for a renamed file, so for this one, whose path is not staged yet.
  obtain ⟨r', hr', hpath'⟩ := hother row hrow heq
  have hown := objectId_of_staged h hscan hfull hopen hrenamed hrun hwindow row hrow r' hr' hpath'
  have hsame : r' = r := List.inj_on_of_nodup_map hobjects hr' hr (hown.symm.trans heq)
  subst hsame
  exact hunread row hrow (hpath'.trans hpath.symm)

/-- The claim of a renamed file's old row is removed by the scan, and stays removed. -/
theorem removed_of_renamed (h : (daemonMachine D writer).Reached s)
    (hscan : s.step (.applyScan scan scannedAt) = some s₁) (hfull : scan.scope = .full)
    {prior : PriorTreeRow} {file : ObservedFile} (hrenamed : Renamed s.db scan prior file)
    (hrun : (daemonMachine D writer).exec s₁ (requests.map .serve) = some t) :
    prior.claimId ∈ t.db.stableNamespace.removedClaimIds := by
  have hdeleted : LocallyDeleted s.db s₁.db (s.db.missingPrior scan) scannedAt := by
    cases served_of_step hscan with
    | applyScan hidle hscanned => exact (runs_applyScan hscanned).1
  have hmissing : prior ∈ s.db.missingPrior scan := by
    refine mem_missingPrior.mpr ⟨⟨hrenamed.mem, hrenamed.live⟩, ?_, hrenamed.missing⟩
    rw [hfull]
    rfl
  have hremoved : prior.claimId ∈ s₁.db.stableNamespace.removedClaimIds := by
    have hns : s₁.db.stableNamespace =
        s.db.stableNamespace ∪ s.db.removalOps (s.db.missingPrior scan) := by rw [hdeleted.eq]
    rw [hns, NamespaceDoc.removedClaimIds, NamespaceDoc.values_union, Finset.mem_union]
    exact .inr (removedClaimIds_removalOps.mpr ⟨prior, hmissing, rfl⟩)
  obtain ⟨op, hop, hid⟩ := NamespaceDoc.mem_values.mp hremoved
  have hsubset := stableNamespace_subset_of_run
    (h.step (a := .serve (.applyScan scan scannedAt)) trivial hscan) hrun
  exact NamespaceDoc.mem_values.mpr ⟨op, hsubset hop, hid⟩

/-- A renamed file whose read is staged in an epoch that is committed keeps its object. -/
theorem renameKept_of_staged (h : (daemonMachine D writer).Reached s)
    (hscan : s.step (.applyScan scan scannedAt) = some s₁) (hfull : scan.scope = .full)
    (hopen : s₁.active = .importing active) {prior : PriorTreeRow} {file : ObservedFile}
    (hrenamed : Renamed s.db scan prior file) {before after : List (SemanticRequest D)}
    (hbefore : (daemonMachine D writer).exec s₁ (before.map .serve) = some t)
    {result : ImportActionResult} {plan : ImportActionStagePlan} {objectId : ObjectId}
    {claimId : NamespaceClaimId}
    (hends : ∀ request ∈ before ++ .commitImportAction result stagedAt objectId claimId :: after,
      request.endsImport = false)
    {t' : SemanticActor D} (hplan : t.stagePlan result = some plan)
    (hpath : plan.path = file.path)
    (htime : stagedAt - recentTombstoneReuseWindow ≤ scannedAt)
    (hnone : s.db.recentTombstonedFile file.path (stagedAt - recentTombstoneReuseWindow) = none)
    (hstage : t.step (.commitImportAction result stagedAt objectId claimId) = some t')
    (hafter : (daemonMachine D writer).exec t' (after.map .serve) = some s₂)
    (hcommit : s₂.step (.commitImportEpoch now) = some s₃) :
    RenameKept prior plan (t.db.priorText prior.objectId) claimId now s₂.db s₃.db := by
  have hs₁ : (daemonMachine D writer).Reached s₁ :=
    h.step (a := .serve (.applyScan scan scannedAt)) trivial hscan
  have ht : (daemonMachine D writer).Reached t :=
    Machine.Reachable.exec hs₁ (Machine.meets_true _ _) hbefore
  have ht' : (daemonMachine D writer).Reached t' :=
    ht.step (a := .serve (.commitImportAction result stagedAt objectId claimId)) trivial hstage
  have hs₂ : (daemonMachine D writer).Reached s₂ :=
    Machine.Reachable.exec ht' (Machine.meets_true _ _) hafter
  have hepoch := epochOfScan hscan hfull hopen ((importStretch_refl hopen).run hbefore
    fun request hrequest => hends request (List.mem_append_left _ hrequest))
  obtain ⟨hstaged, hrealign⟩ : t.db.stagedTextImport plan stagedAt objectId claimId = _ ∧
      t.realignedTo (.commitImportAction result stagedAt objectId claimId) = none :=
    hepoch.stagedTextImport hrenamed hplan hpath htime hnone
  obtain ⟨hsync, -⟩ := hepoch.fileKey hplan hrenamed.found hpath
  obtain ⟨hkindRow, hobject, hclaim⟩ := stageExistingTextFile_ids t.db
    (clientIdForWriter t.db.writerId) plan (prior.tombstone scannedAt) .resurrect claimId
  obtain ⟨active', context, hactive', hcontext, hdecided⟩ := stagePlan_eq_some_iff.mp hplan
  have hkind : active'.kind = .sync := by
    obtain ⟨completed, hactive⟩ := hepoch.continues
    rw [hactive] at hactive'
    cases hactive'
    rw [hepoch.planned]
  obtain ⟨hrows, hactive''⟩ := staged_of_step hactive' hkind hcontext hdecided hrealign hstage
  have hstretch := (importStretch_refl hactive'').run hafter fun request hrequest =>
    hends request (List.mem_append_right _ (List.mem_cons_of_mem _ hrequest))
  obtain ⟨completed, hactive₂⟩ := hstretch.continues
  have hedit : (stagedRow plan (t.db.stagedTextImport plan stagedAt objectId claimId)).EditOf
      (t.db.importBase plan stagedAt) plan.content := editOf_stagedTextImport hsync
  have hbase : t.db.importBase plan stagedAt =
      t.db.priorText (t.db.stagedTextImport plan stagedAt objectId claimId).objectId :=
    importBase_of_ne_new hsync (by rw [hstaged, hkindRow]; decide)
  rw [hstaged] at hrows hedit hbase
  rw [hbase, hobject] at hedit
  -- The row that is staged.
  generalize hrow : stagedRow plan (stageExistingTextFile t.db (clientIdForWriter t.db.writerId) plan
    (prior.tombstone scannedAt) .resurrect claimId) = row at hrows hedit
  have hrowPath : row.path = plan.path := by rw [← hrow]; rfl
  have hrowFp : row.fingerprint = plan.fingerprint := by rw [← hrow]; rfl
  have hrowKind : row.stageKind = .resurrect := by rw [← hrow]; exact hkindRow
  have hrowObject : row.objectId = prior.objectId := by rw [← hrow]; exact hobject
  have hrowClaim : row.claimId = claimId := by rw [← hrow]; exact hclaim
  have hmem : row ∈ s₂.db.importStagedFiles.rows :=
    hstretch.staged (by rw [hrows]; exact List.mem_append_right _ List.mem_cons_self)
  have hcaptured := importCaptured_of_commit hs₂ hactive₂ hkind hmem hedit hcommit
  have himported := (syncImported_of_commit hactive₂ hkind hcommit).1
  have hmem' := ImportStagedFiles.mem_ofEpoch.mpr
    ⟨hmem, (stagingTidy_of_reached hs₂).epoch_eq hactive₂ hmem⟩
  -- The whole run, from the scan to the commit.
  let whole : List (SemanticRequest D) := before ++
    .commitImportAction result stagedAt objectId claimId :: (after ++ [.commitImportEpoch now])
  have hwhole : (daemonMachine D writer).exec s₁ (whole.map .serve) = some s₃ := by
    rw [List.map_append, Machine.exec_append, hbefore, Option.bind_some, List.map_cons,
      List.map_append, Machine.exec]
    refine Option.bind_eq_some_iff.mpr ⟨t', hstage, ?_⟩
    rw [Machine.exec_append, hafter, Option.bind_some]
    exact Option.bind_eq_some_iff.mpr ⟨s₃, hcommit, rfl⟩
  refine ⟨⟨row, hmem, hrowPath, hrowKind, hrowObject, hrowClaim⟩, ?_, fun hfresh hkept => ?_, ?_, ?_⟩
  · exact removed_of_renamed h hscan hfull hrenamed hwhole
  · have hclaimed := himported.getClaim
      (ImportStagedFiles.nodup_map_ofEpoch s₂.db.importStagedFiles.claims_nodup _) hmem' hrowKind
      (by rwa [hrowClaim]) (by rwa [hrowClaim])
    rwa [hrowClaim, hrowObject, hrowPath] at hclaimed
  · have hlive := hcaptured.priorRow
    rwa [hrowPath, hrowClaim, hrowObject, hrowFp] at hlive
  · intro hsame r hr hnew
    have hnone := hcaptured.noTextRow (fun hchanged => ?_) r hr hnew
    · rwa [hrowObject] at hnone
    · rcases hchanged with hnewKind | hne
      · rw [hrowKind] at hnewKind
        cases hnewKind
      · exact hne hsame

/-- Renames keep identity, as many as a full scan finds: after any requests of the epoch, the read of a
renamed file is accepted exactly if no other file has taken over its object, and then the commit of the
epoch leaves the object at the new path. -/
theorem renames_keep_identity (h : (daemonMachine D writer).Reached s)
    (hscan : s.step (.applyScan scan scannedAt) = some s₁) (hfull : scan.scope = .full)
    (hopen : s₁.active = .importing active)
    (hrenamed : ∀ r ∈ renames, Renamed s.db scan r.1 r.2)
    (hobjects : (renames.map fun r => r.1.objectId).Nodup)
    {before after : List (SemanticRequest D)} {result : ImportActionResult}
    {plan : ImportActionStagePlan} {objectId : ObjectId} {claimId : NamespaceClaimId}
    (hwindow : WithinReuseWindow s.db scannedAt renames
      (before ++ .commitImportAction result stagedAt objectId claimId :: after))
    (hbefore : (daemonMachine D writer).exec s₁ (before.map .serve) = some t)
    (hplan : t.stagePlan result = some plan) {columns : FileStatFingerprint × FileHash}
    (hcolumns : fingerprintColumns "import_staged_files" plan.fingerprint = .ok columns)
    {r : PriorTreeRow × ObservedFile} (hr : r ∈ renames) (hpath : plan.path = r.2.path)
    (hclaim : ∀ row ∈ t.db.importStagedFiles.rows, row.claimId ≠ claimId) :
    ((∃ t', t.step (.commitImportAction result stagedAt objectId claimId) = some t') ↔
      ∀ row ∈ t.db.importStagedFiles.rows, row.objectId = r.1.objectId →
        ∃ r' ∈ renames, row.path = r'.2.path) ∧
    ∀ t' s₂ s₃ now, t.step (.commitImportAction result stagedAt objectId claimId) = some t' →
      (daemonMachine D writer).exec t' (after.map .serve) = some s₂ →
        s₂.step (.commitImportEpoch now) = some s₃ →
          RenameKept r.1 plan (t.db.priorText r.1.objectId) claimId now s₂.db s₃.db := by
  have hmem : .commitImportAction result stagedAt objectId claimId ∈
      before ++ .commitImportAction result stagedAt objectId claimId :: after :=
    List.mem_append_right _ List.mem_cons_self
  have htime := hwindow.inTime result stagedAt objectId claimId hmem
  have hnone := hwindow.noTombstone result stagedAt objectId claimId hmem r hr
  have hwindow' : WithinReuseWindow s.db scannedAt renames before :=
    ⟨fun request hrequest => hwindow.goesOn request (List.mem_append_left _ hrequest),
      fun result' stagedAt' objectId' claimId' hrequest =>
        hwindow.inTime result' stagedAt' objectId' claimId' (List.mem_append_left _ hrequest),
      fun result' stagedAt' objectId' claimId' hrequest =>
        hwindow.noTombstone result' stagedAt' objectId' claimId' (List.mem_append_left _ hrequest)⟩
  refine ⟨exists_stage_of_renamed h hscan hfull hopen hrenamed hobjects hbefore hwindow' hplan hcolumns
    hr hpath htime hnone hclaim, fun t' s₂ s₃ now hstage hafter hcommit => ?_⟩
  exact renameKept_of_staged h hscan hfull hopen (hrenamed r hr) hbefore hwindow.goesOn hplan hpath
    htime hnone hstage hafter hcommit

end Run

end Renames

/-! ## Two files that change their names, and a file whose object is taken -/

open Snapshots

/-- Two files are imported, and then a scan finds both under new names. -/
def renamedRun : List (DaemonAction Doc) :=
  [.serve (.applyInitScan (scanOf .full [(rootFile 1, fileStat 7 1 0), (rootFile 2, fileStat 8 1 0)])),
    .serve (.commitImportAction (.read ⟨0, 0⟩ (.completed (.read [97]
      (.statAndContent (fileStat 7 1 0) [97])))) 0 [1] [2]),
    .serve (.commitImportAction (.read ⟨0, 1⟩ (.completed (.read [98]
      (.statAndContent (fileStat 8 1 0) [98])))) 0 [3] [4]),
    .serve (.commitImportEpoch 0)]

/-- What the scan finds: the file that was `1` is `4`, and the one that was `2` is `3`. -/
def renamedScan : ScanResult :=
  scanOf .full [(rootFile 3, fileStat 8 1 0), (rootFile 4, fileStat 7 1 0)]

/-- The row of the file that was `1`. -/
def renamedRow : PriorTreeRow :=
  ⟨rootFile 1, rootFile 1, [2], [1], .statAndContent (fileStat 7 1 0) [97], 0, none⟩

/-- The row of the file that was `2`. -/
def renamedRow' : PriorTreeRow :=
  ⟨rootFile 2, rootFile 2, [4], [3], .statAndContent (fileStat 8 1 0) [98], 0, none⟩

/-- The renamed files. -/
def renamedFiles : List (PriorTreeRow × ObservedFile) :=
  [(renamedRow, ⟨rootFile 4, .statOnly (fileStat 7 1 0)⟩),
    (renamedRow', ⟨rootFile 3, .statOnly (fileStat 8 1 0)⟩)]

/-- The read of `4`, which comes in first. -/
def firstRename : SemanticRequest Doc :=
  .commitImportAction (.read ⟨1, 1⟩ (.completed (.read [97]
    (.statAndContent (fileStat 7 1 0) [97])))) 2 [5] [6]

/-- The read of `3`. -/
def secondRead : ImportActionResult :=
  .read ⟨1, 0⟩ (.completed (.read [98] (.statAndContent (fileStat 8 1 0) [98])))

/-- What `3` is staged as. -/
def secondPlan : ImportActionStagePlan where
  actionId := ⟨1, 0⟩
  epochKind := .sync
  path := rootFile 3
  content := [98]
  fingerprint := .statAndContent (fileStat 8 1 0) [98]

/-- `renames_keep_identity` for the second of the two reads: it is accepted, and both files keep their
objects. -/
theorem renames_keep_identity_swapped : ∃ t t' s₃ : SemanticActor Doc,
    (daemonMachine Doc [0, 0, 0, 1]).exec (.start (Db.initialized Doc [0, 0, 0, 1] 0)) (renamedRun ++
        [.serve (.applyScan renamedScan 1), .serve firstRename]) = some t ∧
      t.step (.commitImportAction secondRead 3 [7] [8]) = some t' ∧
      t'.step (.commitImportEpoch 4) = some s₃ ∧
      RenameKept renamedRow' secondPlan (t.db.priorText [3]) [8] 4 t'.db s₃.db := by
  have hrun : ((daemonMachine Doc [0, 0, 0, 1]).exec
      (.start (Db.initialized Doc [0, 0, 0, 1] 0)) renamedRun).any (fun s =>
        decide (∀ r ∈ renamedFiles, Renamed s.db renamedScan r.1 r.2) &&
        decide (∀ r ∈ renamedFiles, s.db.recentTombstonedFile r.2.path
          (2 - recentTombstoneReuseWindow) = none ∧
          s.db.recentTombstonedFile r.2.path (3 - recentTombstoneReuseWindow) = none) &&
        (s.step (.applyScan renamedScan 1)).any fun s₁ => s₁.active.importing?.any fun _ =>
          (s₁.step firstRename).any fun t =>
            decide (t.stagePlan secondRead = some secondPlan) &&
            decide (∀ row ∈ t.db.importStagedFiles.rows, row.claimId ≠ [8]) &&
            decide (∀ row ∈ t.db.importStagedFiles.rows, row.objectId = [3] →
              ∃ r' ∈ renamedFiles, row.path = r'.2.path) &&
            (t.step (.commitImportAction secondRead 3 [7] [8])).any fun t' =>
              (t'.step (.commitImportEpoch 4)).isSome) = true := by decide +kernel
  obtain ⟨s, hs, hrun⟩ := Machine.exists_exec hrun
  obtain ⟨hchecked, hrun⟩ := Bool.and_eq_true_iff.mp hrun
  obtain ⟨hrenamed, htombstones⟩ := Bool.and_eq_true_iff.mp hchecked
  obtain ⟨s₁, hscan, hrun⟩ := (Option.any_eq_true _ _).mp hrun
  obtain ⟨active, himporting, hrun⟩ := (Option.any_eq_true _ _).mp hrun
  have hopen := ActiveEpoch.importing?_eq_some_iff.mp himporting
  obtain ⟨t, hfirst, hrun⟩ := (Option.any_eq_true _ _).mp hrun
  obtain ⟨hchecked', hrun⟩ := Bool.and_eq_true_iff.mp hrun
  obtain ⟨hchecked', hother⟩ := Bool.and_eq_true_iff.mp hchecked'
  obtain ⟨hplan, hclaim⟩ := Bool.and_eq_true_iff.mp hchecked'
  obtain ⟨t', hstage, hrun⟩ := (Option.any_eq_true _ _).mp hrun
  obtain ⟨s₃, hcommit⟩ := Option.isSome_iff_exists.mp hrun
  have hbefore : (daemonMachine Doc [0, 0, 0, 1]).exec s₁ ([firstRename].map .serve) = some t :=
    Option.bind_eq_some_iff.mpr ⟨t, hfirst, rfl⟩
  have hnone := of_decide_eq_true htombstones
  have hrequests : ∀ result stagedAt objectId claimId,
      (.commitImportAction result stagedAt objectId claimId : SemanticRequest Doc) ∈
        [firstRename] ++ .commitImportAction secondRead 3 [7] [8] :: [] →
      stagedAt = 2 ∨ stagedAt = 3 := by
    intro result stagedAt objectId claimId hmem
    rcases List.mem_cons.mp hmem with heq | hmem
    · cases heq
      exact .inl rfl
    · cases List.mem_singleton.mp hmem
      exact .inr rfl
  have hwindow : WithinReuseWindow s.db 1 renamedFiles
      ([firstRename] ++ .commitImportAction secondRead 3 [7] [8] :: []) := by
    refine ⟨by decide, fun result stagedAt objectId claimId hmem => ?_,
      fun result stagedAt objectId claimId hmem r hr => ?_⟩
    · rcases hrequests result stagedAt objectId claimId hmem with rfl | rfl <;> decide
    · rcases hrequests result stagedAt objectId claimId hmem with rfl | rfl
      · exact (hnone r hr).1
      · exact (hnone r hr).2
  have hkept := (renames_keep_identity (Machine.reached_of_exec rfl hs) hscan rfl hopen
    (of_decide_eq_true hrenamed) (by decide) hwindow hbefore (of_decide_eq_true hplan) rfl
    (r := (renamedRow', ⟨rootFile 3, .statOnly (fileStat 8 1 0)⟩))
    (List.mem_cons_of_mem _ List.mem_cons_self) rfl (of_decide_eq_true hclaim)).2 t' t' s₃ 4 hstage rfl
      hcommit
  refine ⟨t, t', s₃, ?_, hstage, hcommit, hkept⟩
  rw [Machine.exec_append, hs, Option.bind_some]
  exact Option.bind_eq_some_iff.mpr ⟨s₁, hscan, hbefore⟩

/-- A file is imported as `1`, and another daemon moves its object to `2`.  Both actions of the
projection succeed. -/
def takenRun : List (DaemonAction Doc) :=
  [.serve (.applyInitScan (scanOf .full [(rootFile 1, fileStat 7 1 0)])),
    .serve (.commitImportAction (.read ⟨0, 0⟩ (.completed (.read [97]
      (.statAndContent (fileStat 7 1 0) [97])))) 0 [1] [2]),
    .serve (.commitImportEpoch 0)] ++
  serveBatch (foreignBatch 0 [.namespaceUpdate (NamespaceDoc.mintedOps 77 0
    [.removed [2], .claim [4] ⟨[1], rootFile 2⟩])]) ++
  [.serve .getNextWork,
    .serve (.commitProjectionAction (.writeFile ⟨0, 0⟩
      (.written (.statAndContent (fileStat 8 1 0) [97])))),
    .serve (.commitProjectionAction (.deleteFile ⟨0, 1⟩ .deleted)),
    .serve (.commitProjectionEpoch .planExhausted 0)]

/-- The file is renamed to `3`, and a new file appears at `1`. -/
def takenScan : ScanResult :=
  scanOf .full [(rootFile 1, fileStat 9 1 0), (rootFile 3, fileStat 8 1 0)]

/-- The row of the file that was renamed. -/
def takenRow : PriorTreeRow :=
  ⟨rootFile 2, rootFile 2, [4], [1], .statAndContent (fileStat 8 1 0) [97], 0, none⟩

/-- The file under its new name. -/
def takenFile : ObservedFile := ⟨rootFile 3, .statOnly (fileStat 8 1 0)⟩

/-- The read of the new file at `1`. -/
def takingRead : SemanticRequest Doc :=
  .commitImportAction (.read ⟨1, 0⟩ (.completed (.read [98]
    (.statAndContent (fileStat 9 1 0) [98])))) 2 [5] [6]

/-- The read of the renamed file. -/
def takenRead : SemanticRequest Doc :=
  .commitImportAction (.read ⟨1, 1⟩ (.completed (.read [97]
    (.statAndContent (fileStat 8 1 0) [97])))) 2 [7] [8]

/-- The new file at `1` takes over the object that was there a moment ago, so the read of the renamed
file is refused. -/
theorem rename_is_refused : ∃ s s₁ t : SemanticActor Doc,
    (daemonMachine Doc [0, 0, 0, 1]).exec (.start (Db.initialized Doc [0, 0, 0, 1] 0)) takenRun =
        some s ∧
      Renamed s.db takenScan takenRow takenFile ∧
      s.db.recentTombstonedFile takenFile.path (2 - recentTombstoneReuseWindow) = none ∧
      s.step (.applyScan takenScan 1) = some s₁ ∧ s₁.step takingRead = some t ∧
      t.step takenRead = none ∧ (s₁.step takenRead).isSome = true := by
  have hrun : ((daemonMachine Doc [0, 0, 0, 1]).exec
      (.start (Db.initialized Doc [0, 0, 0, 1] 0)) takenRun).any (fun s =>
        decide (Renamed s.db takenScan takenRow takenFile) &&
        decide (s.db.recentTombstonedFile takenFile.path (2 - recentTombstoneReuseWindow) = none) &&
        (s.step (.applyScan takenScan 1)).any fun s₁ => (s₁.step takenRead).isSome &&
          (s₁.step takingRead).any fun t => (t.step takenRead).isNone) = true := by decide +kernel
  obtain ⟨s, hs, hrun⟩ := Machine.exists_exec hrun
  obtain ⟨hchecked, hrun⟩ := Bool.and_eq_true_iff.mp hrun
  obtain ⟨hrenamed, hnone⟩ := Bool.and_eq_true_iff.mp hchecked
  obtain ⟨s₁, hscan, hrun⟩ := (Option.any_eq_true _ _).mp hrun
  obtain ⟨halone, hrun⟩ := Bool.and_eq_true_iff.mp hrun
  obtain ⟨t, htaking, hrefused⟩ := (Option.any_eq_true _ _).mp hrun
  exact ⟨s, s₁, t, hs, of_decide_eq_true hrenamed, of_decide_eq_true hnone, hscan, htaking,
    Option.isNone_iff_eq_none.mp hrefused, halone⟩

end Opbox
