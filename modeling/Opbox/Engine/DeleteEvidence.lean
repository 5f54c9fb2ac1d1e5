import Opbox.Fs.ScopedScan
import Opbox.Semantic.ScanDrift

/-!
# What counts as deleted

`apply_scan` takes the live rows of the prior tree in its scope that the scan has no file for as deleted
by the user.  A scan leaves a path out for other reasons than absence: the rules ignore it, or a directory
on the way inside the scope is ignored or is none, as behind a link.  A file that is still there, as the
guarded calls of the file layer resolve its path, is then deleted for everybody.
-/

namespace Opbox

variable {D : Type} {disk disk' : Disk} {path : RelativePath} {scope : ScanScope}

/-- The full way from the scope to a file is open to a scan. -/
def Disk.Reached [Gitignore] (disk : Disk) (rules : IgnoreRules) (scope : ScanScope)
    (path : RelativePath) : Prop :=
  rules.isIgnored path false = false ∧
    ∀ dir, dir.IsAbove path → scope.containsPath dir = true → disk.Open rules dir

section Scan

variable [Gitignore] {rules : IgnoreRules} {fuel : Nat} {result : ScanResult}

/-- A scan has a file at a path of its scope exactly if there is one and it is reached. -/
theorem exists_file_iff (hrules : (IgnoreRules.load : Fio Disk _).exec disk = (.ok rules, disk))
    (hscan : (scan fuel scope : Fio Disk _).exec disk = (.ok (some result), disk'))
    (hscope : scope.containsPath path = true) :
    (∃ f ∈ result.tree.files, f.path = path) ↔
      (∃ stat, disk.metadata path = .ok (.file stat)) ∧ disk.Reached rules scope path := by
  obtain ⟨-, -, hfinds⟩ := scan_eq_some hscan hrules
  constructor
  · rintro ⟨f, hf, rfl⟩
    obtain ⟨entry, hentry, hpath, hkind⟩ := mem_files_iff.mp hf
    obtain ⟨-, hkept, hdirs⟩ := (hfinds entry).mp hentry
    rw [hpath] at hdirs
    have hfile : entry = ⟨f.path, .file f.fingerprint⟩ := by
      rw [← hpath, ← hkind]
    obtain ⟨stat, -, hmetadata, hignored⟩ := kept_file_iff.mp (hfile ▸ hkept)
    exact ⟨⟨stat, hmetadata⟩, hignored, hdirs⟩
  · rintro ⟨⟨stat, hmetadata⟩, hignored, hdirs⟩
    have hkept : disk.Kept rules ⟨path, .file (.statOnly stat)⟩ :=
      kept_file_iff.mpr ⟨stat, rfl, hmetadata, hignored⟩
    have hentry := (hfinds ⟨path, .file (.statOnly stat)⟩).mpr ⟨hscope, hkept, hdirs⟩
    exact ⟨⟨path, .statOnly stat⟩, mem_files_iff.mpr ⟨_, hentry, rfl, rfl⟩, rfl⟩

end Scan

section Apply

variable {db db' : Db D} {result : ScanResult} {epoch : Nat} {now : Timestamp}
  {output : ApplyScanOutput D} {row : PriorTreeRow}

/-- A live row is gone after a scan is applied exactly if it was missing. -/
theorem priorTreeLiveFile_applyScan (happly : Runs (applyScan result epoch now) db output db')
    (hlive : db.priorTreeLiveFile path = some row) :
    db'.priorTreeLiveFile path = none ↔ db.Missing result row := by
  obtain ⟨hmem, rfl, hrow⟩ := Db.priorTreeLiveFile_eq_some_iff.mp hlive
  obtain ⟨hdeleted, -⟩ := runs_applyScan happly
  have htree : db'.priorTree = tombstoneAll db.priorTree
      ((db.missingPrior result).map PriorTreeRow.path) now := by rw [hdeleted.eq]
  have hfind : db.priorTree.find? row.path = some row := Table.find?_key hmem
  have hpaths : row.path ∈ (db.missingPrior result).map PriorTreeRow.path ↔ db.Missing result row := by
    rw [List.mem_map]
    constructor
    · rintro ⟨other, hother, hpath⟩
      have hmissing := mem_missingPrior_iff.mp hother
      rwa [Table.eq_of_key_eq hmem hmissing.1 hpath.symm]
    · exact fun hmissing => ⟨row, mem_missingPrior_iff.mpr hmissing, rfl⟩
  rw [Db.priorTreeLiveFile, htree, find?_tombstoneAll, hfind, Option.map_some, ← hpaths]
  by_cases hcase : row.path ∈ (db.missingPrior result).map PriorTreeRow.path
  · simp [hcase, hrow, PriorTreeRow.tombstone]
  · simp [hcase, hrow]

/-- The claim of a missing row is removed for everybody. -/
theorem removed_of_missing (happly : Runs (applyScan result epoch now) db output db')
    (hmissing : db.Missing result row) :
    row.claimId ∈ db'.stableNamespace.removedClaimIds ∧
      ∃ ops, row.claimId ∈ ops.removedClaimIds ∧
        ∃ outboxId, ⟨outboxId, .namespaceUpdate ops, false⟩ ∈ db'.outbox.rows.rows := by
  obtain ⟨hdeleted, -⟩ := runs_applyScan happly
  have hmem := mem_missingPrior_iff.mpr hmissing
  have hremoved : row.claimId ∈ (db.removalOps (db.missingPrior result)).removedClaimIds :=
    removedClaimIds_removalOps.mpr ⟨row, hmem, rfl⟩
  refine ⟨?_, db.removalOps (db.missingPrior result), hremoved, db.outbox.nextOutboxId, ?_⟩
  · have hstable : db'.stableNamespace = db.stableNamespace ∪
        db.removalOps (db.missingPrior result) := by rw [hdeleted.eq]
    rw [hstable, NamespaceDoc.removedClaimIds, NamespaceDoc.values_union, Finset.mem_union]
    exact .inr hremoved
  · have hpush := hdeleted.outbox
    rw [Db.removalMessages, if_neg (List.ne_nil_of_mem hmem)] at hpush
    rw [rows_of_pushOutboxMessages hpush]
    exact List.mem_append_right _ (List.mem_singleton_self _)

/-- What a scan keeps that takes nothing as deleted. -/
structure Unchanged (db db' : Db D) : Prop where
  /-- The accepted files are the same. -/
  priorTree : db'.priorTree = db.priorTree
  priorNamespace : db'.priorNamespace = db.priorNamespace
  priorTextObjects : db'.priorTextObjects = db.priorTextObjects
  /-- The shared state is the same. -/
  stableNamespace : db'.stableNamespace = db.stableNamespace
  stableTree : db'.stableTree = db.stableTree
  stableTextObjects : db'.stableTextObjects = db.stableTextObjects
  /-- Nothing is published. -/
  outbox : db'.outbox = db.outbox

/-- Without missing rows nothing changes but the entries of ignored files. -/
theorem unchanged_of_applyScan (happly : Runs (applyScan result epoch now) db output db')
    (hmissing : db.missingPrior result = []) : Unchanged db db' := by
  obtain ⟨hdeleted, -⟩ := runs_applyScan happly
  rw [hmissing] at hdeleted
  have heq := hdeleted.eq
  refine ⟨?_, ?_, ?_, ?_, hdeleted.stableTree_nil rfl, ?_, ?_⟩
  · rw [heq]
    rfl
  · rw [heq]
    exact Finset.union_empty _
  · rw [heq]
  · rw [heq]
    exact Finset.union_empty _
  · rw [heq]
  · have hpush := hdeleted.outbox
    rw [Db.removalMessages, if_pos rfl, pushOutboxMessages_nil] at hpush
    exact (Except.ok.inj hpush).symm

end Apply

/-- A scan that is applied takes a live row away exactly if its path is in the scope and either no file
is there or the scan does not reach it; then the removal of its claim is published. -/
theorem delete_evidence_iff [Gitignore] {rules : IgnoreRules} {fuel epoch : Nat}
    {result : ScanResult} {db db' : Db D} {now : Timestamp} {output : ApplyScanOutput D}
    {row : PriorTreeRow} (hrules : (IgnoreRules.load : Fio Disk _).exec disk = (.ok rules, disk))
    (hscan : (scan fuel scope : Fio Disk _).exec disk = (.ok (some result), disk'))
    (happly : Runs (applyScan result epoch now) db output db')
    (hlive : db.priorTreeLiveFile path = some row) :
    (db'.priorTreeLiveFile path = none ↔ scope.containsPath path = true ∧
      ((∀ stat, disk.metadata path ≠ .ok (.file stat)) ∨ ¬disk.Reached rules scope path)) ∧
    (db'.priorTreeLiveFile path = none → row.claimId ∈ db'.stableNamespace.removedClaimIds ∧
      ∃ ops, row.claimId ∈ ops.removedClaimIds ∧
        ∃ outboxId, ⟨outboxId, .namespaceUpdate ops, false⟩ ∈ db'.outbox.rows.rows) := by
  have hmissing := priorTreeLiveFile_applyScan happly hlive
  refine ⟨hmissing.trans ?_, fun hnone => removed_of_missing happly (hmissing.mp hnone)⟩
  obtain ⟨hmem, hpath, hrow⟩ := Db.priorTreeLiveFile_eq_some_iff.mp hlive
  obtain ⟨-, hresult, -⟩ := scan_eq_some hscan hrules
  rw [Db.Missing, hresult, hpath]
  constructor
  · rintro ⟨-, -, hscope, hnone⟩
    refine ⟨hscope, ?_⟩
    by_contra hboth
    rw [not_or, not_forall, not_not] at hboth
    obtain ⟨⟨stat, hstat⟩, hreached⟩ := hboth
    obtain ⟨f, hf, hfpath⟩ := (exists_file_iff hrules hscan hscope).mpr
      ⟨⟨stat, not_not.mp hstat⟩, hreached⟩
    exact hnone f hf hfpath
  · rintro ⟨hscope, hcase⟩
    refine ⟨hmem, hrow, hscope, fun f hf hfpath => ?_⟩
    obtain ⟨⟨stat, hstat⟩, hreached⟩ := (exists_file_iff hrules hscan hscope).mp ⟨f, hf, hfpath⟩
    exact hcase.elim (fun hno => hno stat hstat) fun hno => hno hreached

/-! ## A tracked file behind a link -/

open Snapshots NoPatterns

/-- A workspace that tracks the file behind the link of `linkedDisk`. -/
def linkedDb : Db Doc :=
  let doc := NamespaceDoc.mintedOps 9 0 [.object [3] ⟨.text, [9]⟩, .claim [4] ⟨[3], fileIn 1 2⟩]
  { Db.initialized Doc [9] 0 with
    stableNamespace := doc
    priorNamespace := doc
    priorTree := ⟨[⟨fileIn 1 2, fileIn 1 2, [4], [3], .statOnly (fileStat 7 0 0), 0, none⟩], by decide⟩ }

/-- What the full scan of `linkedDisk` finds. -/
def linkedScan : ScanResult := scanOf .full [(rootFile 3, fileStat 8 0 0)]

theorem load_linkedDisk : (IgnoreRules.load : Fio Disk _).exec linkedDisk = (.ok ⟨()⟩, linkedDisk) := rfl

/-- The result of a scan is its entries. -/
theorem exec_scan_of_scanned {rules : IgnoreRules} {fuel : Nat} {result : ScanResult}
    {entries : List TreeEntry} (hrules : (IgnoreRules.load : Fio Disk _).exec disk = (.ok rules, disk))
    (h : scanned ((scan fuel scope).exec disk) = some entries) (hscope : result.scope = scope)
    (hentries : result.tree.entries = entries) :
    (scan fuel scope : Fio Disk _).exec disk = (.ok (some result), disk) := by
  obtain ⟨found, disk', hscan, hfound⟩ := exists_of_scanned h
  obtain ⟨rfl, hfoundScope, -⟩ := scan_eq_some hscan hrules
  rw [hscan]
  obtain ⟨scope, entries, sorted⟩ := found
  obtain ⟨scope', entries', sorted'⟩ := result
  cases hscope
  cases hfoundScope
  cases hentries
  cases hfound
  rfl

theorem scan_full_linkedDisk : (scan 9 .full : Fio Disk _).exec linkedDisk =
    (.ok (some linkedScan), linkedDisk) := by
  have hentries : linkedScan.tree.entries = [⟨rootFile 3, .file (.statOnly (fileStat 8 0 0))⟩] := by
    decide +kernel
  exact exec_scan_of_scanned load_linkedDisk scanned_full_linkedDisk rfl hentries

/-- `delete_evidence_iff` there: the file is at its path, and the full scan takes its row away. -/
theorem delete_evidence_iff_linkedDisk : ∃ output db',
    Runs (applyScan linkedScan 1 8) linkedDb output db' ∧
      linkedDisk.metadata (fileIn 1 2) = .ok (.file (fileStat 7 0 0)) ∧
      db'.priorTreeLiveFile (fileIn 1 2) = none ∧ [4] ∈ db'.stableNamespace.removedClaimIds := by
  have hrun : (attempt (applyScan linkedScan 1 8) linkedDb).isSome = true := by decide +kernel
  obtain ⟨⟨output, db'⟩, hsome⟩ := Option.isSome_iff_exists.mp hrun
  have hruns := attempt_eq_some_iff.mp hsome
  have hlive : linkedDb.priorTreeLiveFile (fileIn 1 2) =
      some ⟨fileIn 1 2, fileIn 1 2, [4], [3], .statOnly (fileStat 7 0 0), 0, none⟩ := rfl
  obtain ⟨hiff, hremoved⟩ :=
    delete_evidence_iff load_linkedDisk scan_full_linkedDisk hruns hlive
  have hlink : linkedDisk.metadata (rootFile 1) ≠ .ok .directory := by decide +kernel
  have hnone := hiff.mpr ⟨rfl, .inr fun hreached =>
    hlink (hreached.2 (rootFile 1) ⟨[], rfl⟩ rfl).1⟩
  exact ⟨output, db', hruns, by decide +kernel, hnone, (hremoved hnone).1⟩

end Opbox
