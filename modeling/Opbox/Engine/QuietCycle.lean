import Opbox.Engine.IdleWork
import Opbox.Engine.ImportCycle
import Opbox.Engine.PlanExecution

/-!
# A daemon that comes to rest

When a plan has landed and is committed, the prior tree is the stable tree and the volume has its files.
A scan of a volume that mirrors the prior tree finds nothing to import and nothing deleted, if it reaches
every tracked file.  So without changes from outside one projection is enough: the scan after it plans
nothing, and there is no next work.

The other way round, a quiet scan need not mean that the volume mirrors the prior tree: it passes over
ignored files, and over a content that has changed under the same stat.  Those are exactly the files at
which the guards of the next plan fail.
-/

namespace Opbox

variable {D : Type}

/-! ## A scan of a volume that mirrors the prior tree -/

/-- The metadata of a file on a plain disk is that of the file at the path. -/
theorem Disk.Plain.exists_fileAt {disk : Disk} (hplain : disk.Plain) {path : RelativePath}
    {stat : FileStatFingerprint} (h : disk.metadata path = .ok (.file stat)) :
    ∃ bytes, disk.fileAt path = some (stat, bytes) := by
  by_cases hblocked : disk.Blocked path
  · rw [hplain.metadata_of_blocked hblocked] at h
    cases h
  · cases hfile : disk.fileAt path with
    | some file =>
      rw [hplain.metadata_of_file hfile] at h
      cases h
      exact ⟨file.2, rfl⟩
    | none =>
      cases hdir : disk.dirAt path with
      | true =>
        rw [hplain.metadata_of_dir hdir] at h
        cases h
      | false =>
        rw [hplain.metadata_of_missing hblocked hfile hdir] at h
        cases h

section Scan

variable [Gitignore] [Xxh3] {volume : Volume} {disk' : Disk} {db db' : Db D} {rules : IgnoreRules}
  {fuel epoch : Nat} {scope : ScanScope} {result : ScanResult} {now : Timestamp}
  {output : ApplyScanOutput D}

/-- The tracked files of a scope are reached by a scan. -/
def Tracked (disk : Disk) (rules : IgnoreRules) (scope : ScanScope) (db : Db D) : Prop :=
  ∀ path, db.priorTreeLiveFile path ≠ none → scope.containsPath path = true →
    isHardIgnored path = false ∧ disk.Reached rules scope path

/-- A scan of a volume that mirrors the prior tree changes nothing, if it reaches the tracked files. -/
theorem unchanged_of_mirrors (hplain : volume.disk.Plain) (hmirrors : volume.Mirrors db)
    (hrules : (IgnoreRules.load : Fio Disk _).exec volume.disk = (.ok rules, volume.disk))
    (hscan : (scan fuel scope : Fio Disk _).exec volume.disk = (.ok (some result), disk'))
    (htracked : Tracked volume.disk rules scope db)
    (happly : Runs (applyScan result epoch now) db output db') :
    output.nextWork = .none ∧ Unchanged db db' := by
  obtain ⟨-, hresult, hfinds⟩ := scan_eq_some hscan hrules
  obtain ⟨hscope, -⟩ := ignoredFiles_of_applyScan happly
  -- Every file that is found has a live row with its stat.
  have hreads : db.plannedReads result = [] := by
    rw [List.eq_nil_iff_forall_not_mem]
    intro f hf
    obtain ⟨hfile, hdrifted, -, -⟩ := (mem_plannedReads hscope).mp hf
    obtain ⟨stat, hstat, hmetadata, hignored⟩ := found_of_scanned hrules hscan hfile
    obtain ⟨bytes, hbytes⟩ := hplain.exists_fileAt hmetadata
    have hnotHard : isHardIgnored f.path = false := (Bool.or_eq_false_iff.mp hignored).1
    have hrow := hmirrors f.path hnotHard
    rw [hbytes, Option.map_some] at hrow
    obtain ⟨row, hlive, hfingerprint⟩ := Option.map_eq_some_iff.mp hrow.symm
    obtain ⟨hmem, hrowPath, hnotDeleted⟩ := Db.priorTreeLiveFile_eq_some_iff.mp hlive
    refine hdrifted row hmem hnotDeleted hrowPath ?_
    rw [hfingerprint, hstat]
    rfl
  -- Every live row of the scope has a file that is found.
  have hmissing : db.missingPrior result = [] := by
    rw [List.eq_nil_iff_forall_not_mem]
    intro row hrow
    obtain ⟨hmem, hlive, hin, hnone⟩ := mem_missingPrior_iff.mp hrow
    have hfind : db.priorTreeLiveFile row.path = some row :=
      Db.priorTreeLiveFile_eq_some_iff.mpr ⟨hmem, rfl, hlive⟩
    rw [hresult] at hin
    obtain ⟨hnotHard, hreached⟩ := htracked row.path (by rw [hfind]; exact Option.some_ne_none _) hin
    have hsome : volume.disk.fileAt row.path ≠ none := by
      rw [Ne, hmirrors.fileAt_eq_none_iff hnotHard, hfind]
      exact Option.some_ne_none _
    obtain ⟨file, hfile⟩ := Option.ne_none_iff_exists'.mp hsome
    obtain ⟨f, hf, hpath⟩ := (exists_file_iff hrules hscan hin).mpr
      ⟨⟨file.1, hplain.metadata_of_file hfile⟩, hreached⟩
    exact hnone f hf hpath
  refine ⟨?_, unchanged_of_applyScan happly hmissing⟩
  rw [nextWork_of_applyScan happly, if_pos hreads]

/-! ## Guards after a quiet scan -/

/-- A scan passed over the file at a path.  If no file was accepted there, the scan does not reach it or
it is known to be ignored; if one was, it has another stat and is known to be ignored, or it has the
stat and another content. -/
def Overlooked (disk : Disk) (rules : IgnoreRules) (db : Db D) (path : RelativePath) : Prop :=
  ∃ stat bytes, disk.fileAt path = some (stat, bytes) ∧
    ((db.priorTreeLiveFile path = none ∧
        (¬disk.Reached rules .full path ∨ db.KnownIgnored ⟨path, .statOnly stat⟩)) ∨
      ∃ row, db.priorTreeLiveFile path = some row ∧
        (row.fingerprint.stat ≠ stat ∧ db.KnownIgnored ⟨path, .statOnly stat⟩ ∨
          row.fingerprint.stat = stat ∧
            (statAndContentFingerprint stat bytes).satisfies row.fingerprint = false))

omit [Gitignore] [Xxh3] in
/-- The guard of an action is the live row of its path. -/
theorem guard_of_planned [TextCrdt D] [DecidableEq D] {planned : PlannedProjection D}
    (h : planned ∈ db.plannedProjections) : planned.1.expectedBefore =
      (db.priorTreeLiveFile planned.1.path).elim .missing
        fun row => .presentWithFingerprint row.fingerprint := by
  rw [Db.plannedProjections, List.mem_append, List.mem_map, List.mem_map] at h
  rcases h with ⟨⟨row, expected⟩, hrow, rfl⟩ | ⟨prior, hprior, rfl⟩
  · change expected = (db.priorTreeLiveFile row.path).elim _ _
    rcases expectedBefore_eq_some (mem_rowsToWrite.mp hrow).2 with
      ⟨hnone, rfl⟩ | ⟨prior, hprior, -, rfl⟩
    · rw [hnone]
      rfl
    · rw [hprior]
      rfl
  · obtain ⟨⟨hmem, hlive⟩, -⟩ := mem_rowsToDelete.mp hprior
    have hfind : db.priorTreeLiveFile prior.path = some prior :=
      Db.priorTreeLiveFile_eq_some_iff.mpr ⟨hmem, rfl, hlive⟩
    change ExpectedBefore.presentWithFingerprint prior.fingerprint =
      (db.priorTreeLiveFile prior.path).elim _ _
    rw [hfind]
    rfl

end Scan

/-! ## A binary file where another daemon places a text -/

section Binary

open Snapshots NoPatterns

/-- A sync root with a file that is no text. -/
def Volume.binaryRoot : Volume := ⟨⟨⟨[⟨[], .directory true true⟩,
  ⟨[digitName 1], .file (fileStat 7 1 0) [255] true⟩], by decide⟩, []⟩, 0⟩

theorem Volume.plain_binaryRoot : Volume.binaryRoot.disk.Plain := by
  have hnode : ∀ location, binaryRoot.disk.node? location = if [] = location then
      some (.directory true true) else if [digitName 1] = location then
        some (.file (fileStat 7 1 0) [255] true) else none := by
    intro location
    simp only [Disk.node?, Table.find?, binaryRoot, List.find?_cons, List.find?_nil]
    by_cases hroot : [] = location
    · simp [hroot]
    · by_cases hfile : [digitName 1] = location
      · simp [hfile, hroot]
      · simp [hfile, hroot]
  refine ⟨rfl, fun names found hne hfound => ?_, fun names name hsome => ?_⟩
  · change binaryRoot.disk.node? names = some found at hfound
    rw [hnode, if_neg hne.symm] at hfound
    split_ifs at hfound
    · cases hfound
      exact .inr ⟨_, _, rfl⟩
  · change binaryRoot.disk.node? (names ++ [name]) ≠ none at hsome
    change binaryRoot.disk.node? names = _
    rw [hnode, if_neg (by simp)] at hsome
    split_ifs at hsome with hlast
    · have hnil : names = [] := by
        have hlength := congrArg List.length hlast
        simpa using hlength
      rw [hnil]
      rfl
    · exact absurd rfl hsome

/-- What the full scan of it finds. -/
def binaryScan : ScanResult := scanOf .full [(rootFile 1, fileStat 7 1 0)]

/-- Another daemon places a text at the path of the binary file, and the file is read. -/
def binaryRun : List (DaemonAction Doc) :=
  serveBatch (foreignBatch 0 [.namespaceUpdate (NamespaceDoc.mintedOps 77 0
      [.object [3] ⟨.text, [9]⟩, .claim [4] ⟨[3], rootFile 1⟩]),
    .textObjectUpdate [3] ((TextCrdt.new : Doc).write 77 [104, 105])]) ++
  [.serve (.applyScan binaryScan 1),
    .serve (.commitImportAction (applyImportAction
      ⟨⟨0, 0⟩, .read (rootFile 1) (.statOnly (fileStat 7 1 0))⟩ Volume.binaryRoot.disk).1 1 [11] [12]),
    .serve (.commitImportEpoch 1)]

end Binary

/-! ## After a plan has landed -/

section Rest

variable [TextCrdt D] [Xxh3] [DecidableEq D] {db db' : Db D} {volume : Volume} {epoch : Nat}
  {random : ProjectionActionId → Fin (2 ^ 64)} {now : Timestamp}

omit [TextCrdt D] [Xxh3] [DecidableEq D] in
/-- The commit of a plan leaves the stable state. -/
theorem stable_of_commit {plan : List (CompletedProjectionAction D)}
    (h : Runs (forM plan (commitCompletedProjectionActionTx now)) db ⟨⟩ db') :
    db'.stableTree = db.stableTree ∧ db'.stableTextObjects = db.stableTextObjects := by
  refine Runs.forM_preserves (fun t => t.stableTree = db.stableTree ∧
    t.stableTextObjects = db.stableTextObjects) h ⟨rfl, rfl⟩ fun action _ t t' ht hrun => ?_
  rcases runs_commitCompletedProjectionActionTx hrun with ⟨doc, stat, hash, -, -, rfl⟩ | ⟨-, rfl⟩
  · exact ht
  · exact ht

omit [TextCrdt D] [DecidableEq D] in
/-- An action that has its target succeeded. -/
theorem ProjectionAction.Achieved.succeeds {action : ProjectionAction D}
    {result : ProjectionActionResult} {file : Option (FileStatFingerprint × Bytes)}
    (h : action.Achieved result file) : result.succeeds action.kind = true := by
  obtain ⟨-, h⟩ := h
  cases hkind : action.kind with
  | writeFile path bytes expected =>
    rw [hkind] at h
    obtain ⟨stat, -, hlanded⟩ := h
    rw [ProjectionActionResult.succeeds, hlanded]
    rfl
  | deleteFile path expected =>
    rw [hkind] at h
    exact h.2

/-- A plan that has landed is committed, unless a fingerprint cannot be stored or the clock has gone
back. -/
theorem exists_commit_landed
    {results : List ProjectionActionResult} {disk' : Disk}
    (hlanded : PlanLanded (projectionActions epoch db.plannedProjections) results volume.disk disk')
    (hstorable : ∀ result ∈ results, ∀ f, result.landed = some f →
      ∃ columns, fingerprintColumns "prior_tree" f = .ok columns)
    (hclock : ∀ row ∈ db.priorTree, row.acceptedAt ≤ now) (generation : SequenceNumber) :
    ∃ db', Runs (commitProjectionEpochTx ⟨epoch, generation, db.stableNamespace,
        completedActions (projectionActions epoch db.plannedProjections) results⟩ .planExhausted now)
        db ⟨⟩ db' ∧ db'.plannedProjections = [] ∧ db'.priorSnapshot = db.stableSnapshot := by
  obtain ⟨hlength, hachieved⟩ := List.forall₂_iff_zip.mp hlanded.achieved
  have hactions : ∀ completed ∈ completedActions (projectionActions epoch db.plannedProjections) results,
      ∃ action ∈ projectionActions epoch db.plannedProjections, ∃ result ∈ results,
        completed = ⟨action.id, action.commitContext, result⟩ ∧
          result.succeeds action.kind = true := by
    intro completed hcompleted
    rw [completedActions, ← List.map_uncurry_zip_eq_zipWith, List.mem_map] at hcompleted
    obtain ⟨⟨action, result⟩, hmem, rfl⟩ := hcompleted
    exact ⟨action, (List.of_mem_zip hmem).1, result, (List.of_mem_zip hmem).2, rfl,
      (hachieved hmem).succeeds⟩
  obtain ⟨t, hloop, hsettled⟩ : ∃ t, Runs (forM
      (completedActions (projectionActions epoch db.plannedProjections) results)
      (commitCompletedProjectionActionTx now)) { db with priorNamespace := db.stableNamespace } ⟨⟩ t ∧
        Settled db (completedActions (projectionActions epoch db.plannedProjections) results) t := by
    refine Runs.exists_forM (fun done t => Settled db done t) (settled_nil rfl rfl)
      fun done completed rest t hsplit ht => ?_
    obtain ⟨action, haction, result, hresult, rfl, hsucceeds⟩ :=
      hactions completed (by rw [hsplit]; simp)
    exact ht.accept haction hsucceeds (hstorable result hresult) hclock
  have hcovered : ∀ planned ∈ db.plannedProjections, ∃ completed ∈
      completedActions (projectionActions epoch db.plannedProjections) results,
        completed.commitContext = planned.2 := by
    intro planned hplanned
    rw [← map_projectionActions epoch db.plannedProjections, List.mem_map] at hplanned
    obtain ⟨action, haction, rfl⟩ := hplanned
    obtain ⟨n, hn, rfl⟩ := List.getElem_of_mem haction
    refine ⟨⟨_, _, results[n]⟩, List.mem_iff_getElem.mpr ⟨n, ?_, List.getElem_zipWith⟩, rfl⟩
    rw [completedActions, List.length_zipWith, ← hlength, min_self]
    exact hn
  have hprior := hsettled.priorSnapshot hcovered
  obtain ⟨htree, htexts⟩ := stable_of_commit hloop
  have hstable : t.stableSnapshot = db.stableSnapshot := by
    funext path
    simp only [Db.stableSnapshot, Db.stableTreeFile, Db.stableText, Db.stableTextObjectDoc, htree,
      htexts]
  refine ⟨t, ?_, plannedProjections_eq_nil_iff.mpr (hstable.trans hprior.symm), hprior⟩
  simp only [commitProjectionEpochTx, updatePriorNamespace, Runs.bind_iff, Runs.modify_iff]
  exact ⟨⟨⟩, _, rfl, hloop⟩

end Rest

/-! ## A new file in a new directory, once more -/

section Placed

open Snapshots NoPatterns

/-- The full scan and the rules it loads, where both succeed. -/
def scanSucceeds (disk : Disk) : Bool :=
  ((IgnoreRules.load : Fio Disk _).exec disk).1.toOption.isSome &&
    (scanned ((scan 9 .full).exec disk)).isSome

end Placed

end Opbox
