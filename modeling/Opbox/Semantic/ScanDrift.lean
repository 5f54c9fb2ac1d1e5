import Opbox.Crdt.Snapshots
import Opbox.Semantic.Scan

/-!
# The drift of a scan

`apply_scan` compares three tables with the files of a scan.  What it plans and changes is stated
here row by row: a file *drifted* when no live row of the prior tree has its stat, and a live row in
scope is *missing* when nothing was observed at its path.
-/

namespace Opbox

variable {D : Type}

/-- No live row of the prior tree has the stat of the file: it has no row, or another stat. -/
def Db.Drifted (db : Db D) (f : ObservedFile) : Prop :=
  ∀ r ∈ db.priorTree, r.deletedAt = none → r.path = f.path → r.fingerprint.stat ≠ f.fingerprint.stat

/-- An entry with the stat of the file says that it does not sync, and not for a permission. -/
def Db.KnownIgnored (db : Db D) (f : ObservedFile) : Prop :=
  ∃ r ∈ db.ignoredFiles, r.path = f.path ∧ r.stat = f.fingerprint.stat ∧ r.reason ≠ .permissionDenied

/-- The row is live and in scope, and no file was observed at its path. -/
def Db.Missing (db : Db D) (scan : ScanResult) (r : PriorTreeRow) : Prop :=
  r ∈ db.priorTree ∧ r.deletedAt = none ∧ scan.scope.containsPath r.path = true ∧
    ∀ f ∈ scan.tree.files, f.path ≠ r.path

/-- The files of a scan that differ from the prior tree, in the order of `apply_scan`. -/
def Db.drift (db : Db D) (scan : ScanResult) : List ObservedFile :=
  db.changedFiles scan ++ db.newFiles scan

/-- The path of an action. -/
def ImportActionKind.path : ImportActionKind → RelativePath
  | read path _ => path
  | stat path => path

/-- The entry of a file that is too large. -/
def ObservedFile.tooLargeRow (f : ObservedFile) : IgnoredRow := ⟨f.path, .tooLarge, f.fingerprint.stat⟩

variable {db db' : Db D} {scan : ScanResult}

/-! ## The files that drifted -/

theorem mem_files_iff {f : ObservedFile} :
    f ∈ scan.tree.files ↔ ∃ e ∈ scan.tree.entries, e.path = f.path ∧ e.kind = .file f.fingerprint := by
  rw [Tree.files, List.mem_filterMap]
  constructor
  · rintro ⟨e, he, hf⟩
    unfold TreeEntry.file? at hf
    split at hf
    · cases hf
    next fp hkind =>
      cases hf
      exact ⟨e, he, rfl, hkind⟩
  · rintro ⟨e, he, hpath, hkind⟩
    refine ⟨e, he, ?_⟩
    rw [TreeEntry.file?, hkind, hpath]

/-- A tree has one file at a path. -/
theorem pairwise_files (t : Tree) : t.files.Pairwise fun f f' => f.path ≠ f'.path := by
  refine t.sorted.filterMap _ fun e e' hlt f hf f' hf' => ?_
  unfold TreeEntry.file? at hf hf'
  split at hf <;> cases hf
  split at hf' <;> cases hf'
  exact hlt.ne

theorem eq_of_path_eq {f f' : ObservedFile} (hf : f ∈ scan.tree.files) (hf' : f' ∈ scan.tree.files)
    (h : f.path = f'.path) : f = f' := by
  have hnodup : (scan.tree.files.map ObservedFile.path).Nodup :=
    List.pairwise_map.mpr (pairwise_files scan.tree)
  exact List.inj_on_of_nodup_map hnodup hf hf' h

/-- What was observed at a path is the file there. -/
theorem observed_eq_some_iff {path : RelativePath} {f : ObservedFile} :
    scan.observed path = some f ↔ f ∈ scan.tree.files ∧ f.path = path := by
  refine ⟨path_of_observed, fun ⟨hf, hpath⟩ => ?_⟩
  cases h : scan.observed path with
  | none =>
    rw [ScanResult.observed, List.find?_eq_none] at h
    exact absurd (decide_eq_true hpath) (h f hf)
  | some f' =>
    obtain ⟨hf', hpath'⟩ := path_of_observed h
    rw [eq_of_path_eq hf hf' (hpath.trans hpath'.symm)]

theorem mem_missingPrior_iff {r : PriorTreeRow} : r ∈ db.missingPrior scan ↔ db.Missing scan r := by
  rw [mem_missingPrior, Db.Missing, and_assoc, ScanResult.observed, List.find?_eq_none]
  simp only [decide_eq_true_eq, ne_eq]

theorem mem_changedFiles {f : ObservedFile} :
    f ∈ db.changedFiles scan ↔ f ∈ scan.tree.files ∧ scan.scope.containsPath f.path = true ∧
      ∃ r ∈ db.priorTree, r.deletedAt = none ∧ r.path = f.path ∧
        r.fingerprint.stat ≠ f.fingerprint.stat := by
  simp only [Db.changedFiles, List.mem_filterMap, mem_priorInScope, Option.filter_eq_some_iff,
    observed_eq_some_iff, decide_eq_true_eq]
  constructor
  · rintro ⟨r, ⟨⟨hr, hlive⟩, hscope⟩, ⟨hf, hpath⟩, hstat⟩
    exact ⟨hf, hpath ▸ hscope, r, hr, hlive, hpath.symm, hstat.symm⟩
  · rintro ⟨hf, hscope, r, hr, hlive, hpath, hstat⟩
    exact ⟨r, ⟨⟨hr, hlive⟩, hpath ▸ hscope⟩, ⟨hf, hpath.symm⟩, hstat.symm⟩

theorem mem_newFiles {f : ObservedFile} :
    f ∈ db.newFiles scan ↔ f ∈ scan.tree.files ∧
      ∀ r ∈ db.priorTree, r.deletedAt = none → scan.scope.containsPath r.path = true →
        r.path ≠ f.path := by
  simp only [Db.newFiles, List.mem_filter, List.all_eq_true, mem_priorInScope, decide_eq_true_eq,
    and_imp]

/-- A scan without entries out of its scope finds exactly the files that drifted. -/
theorem mem_drift (hscope : ∀ e ∈ scan.tree.entries, scan.scope.containsPath e.path = true)
    {f : ObservedFile} : f ∈ db.drift scan ↔ f ∈ scan.tree.files ∧ db.Drifted f := by
  rw [Db.drift, List.mem_append, mem_changedFiles, mem_newFiles]
  constructor
  · rintro (⟨hf, -, r, hr, hlive, hpath, hstat⟩ | ⟨hf, hnone⟩)
    · refine ⟨hf, fun r' hr' hlive' hpath' => ?_⟩
      rw [Table.eq_of_key_eq hr' hr (hpath'.trans hpath.symm)]
      exact hstat
    · refine ⟨hf, fun r hr hlive hpath => ?_⟩
      obtain ⟨e, he, hepath, -⟩ := mem_files_iff.mp hf
      have hin : scan.scope.containsPath r.path = true := by rw [hpath, ← hepath]; exact hscope e he
      exact absurd hpath (hnone r hr hlive hin)
  · rintro ⟨hf, hdrift⟩
    by_cases hrow : ∃ r ∈ db.priorTree, r.deletedAt = none ∧ r.path = f.path
    · obtain ⟨r, hr, hlive, hpath⟩ := hrow
      obtain ⟨e, he, hepath, -⟩ := mem_files_iff.mp hf
      exact .inl ⟨hf, hepath ▸ hscope e he, r, hr, hlive, hpath, hdrift r hr hlive hpath⟩
    · exact .inr ⟨hf, fun r hr hlive _ hpath => hrow ⟨r, hr, hlive, hpath⟩⟩

theorem pairwise_priorInScope (db : Db D) (scan : ScanResult) :
    (db.priorInScope scan).Pairwise fun r r' => r.path ≠ r'.path := by
  have hrows : db.priorTree.rows.Pairwise fun r r' => r.path ≠ r'.path :=
    List.pairwise_map.mp db.priorTree.keys_nodup
  have hlive : db.priorTreeLiveFiles.Pairwise fun r r' => r.path ≠ r'.path :=
    (List.perm_insertionSort _ _).symm.pairwise (hrows.filter _) fun h => h.symm
  exact hlive.filter _

/-- No path is in the drift twice. -/
theorem pairwise_drift (db : Db D) (scan : ScanResult) :
    (db.drift scan).Pairwise fun f f' => f.path ≠ f'.path := by
  refine List.pairwise_append.mpr ⟨?_, (pairwise_files scan.tree).filter _, ?_⟩
  · refine (pairwise_priorInScope db scan).filterMap _ fun r r' hne f hf f' hf' => ?_
    have hpath := (observed_eq_some_iff.mp (Option.filter_eq_some_iff.mp hf).1).2
    have hpath' := (observed_eq_some_iff.mp (Option.filter_eq_some_iff.mp hf').1).2
    rwa [hpath, hpath']
  · intro f hf f' hf'
    obtain ⟨-, hscope, r, hr, hlive, hpath, -⟩ := mem_changedFiles.mp hf
    rw [← hpath]
    exact (mem_newFiles.mp hf').2 r hr hlive (hpath ▸ hscope)

/-! ## The decision about a file -/

theorem knownIgnored_iff (hscope : ∀ e ∈ scan.tree.entries, scan.scope.containsPath e.path = true)
    {f : ObservedFile} (hf : f ∈ scan.tree.files) :
    knownIgnored (db.ignoredInScope scan) f = true ↔ db.KnownIgnored f := by
  obtain ⟨e, he, hepath, -⟩ := mem_files_iff.mp hf
  have hin : scan.scope.containsPath f.path = true := hepath ▸ hscope e he
  simp only [knownIgnored, List.any_eq_true, Db.ignoredInScope, Db.allIgnoredFiles, List.mem_filter,
    List.mem_insertionSort, Bool.and_eq_true, decide_eq_true_eq, Table.mem_rows, Db.KnownIgnored]
  constructor
  · rintro ⟨r, ⟨hr, -⟩, ⟨hpath, hstat⟩, hreason⟩
    exact ⟨r, hr, hpath, hstat.symm, hreason⟩
  · rintro ⟨r, hr, hpath, hstat, hreason⟩
    exact ⟨r, ⟨hr, hpath ▸ hin⟩, ⟨hpath, hstat.symm⟩, hreason⟩

theorem readDecision_eq_read_iff {ignored : List IgnoredRow} {f : ObservedFile} :
    readDecision ignored f = .read ↔
      ¬knownIgnored ignored f = true ∧ f.fingerprint.stat.size ≤ maxSyncFileSize := by
  unfold readDecision
  split_ifs with hknown hsize
  · simp [hknown]
  · simp [hsize]
  · simp [hknown, Nat.le_of_not_lt hsize]

theorem readDecision_eq_tooLarge_iff {ignored : List IgnoredRow} {f : ObservedFile} :
    readDecision ignored f = .tooLarge ↔
      ¬knownIgnored ignored f = true ∧ maxSyncFileSize < f.fingerprint.stat.size := by
  unfold readDecision
  split_ifs with hknown hsize
  · simp [hknown]
  · simp [hknown, hsize]
  · simp [hsize]

/-! ## The actions -/

/-- The actions of an epoch have different ids. -/
theorem nodup_readActions (epoch : Nat) (files : List ObservedFile) :
    ((readActions epoch files).map ImportAction.id).Nodup := by
  have hseq : (readActions epoch files).map ImportAction.id =
      (List.range files.length).map fun seq => ⟨epoch, seq⟩ := by
    rw [readActions, List.map_map, List.range_eq_range', ← List.zipIdx_map_snd 0 files, List.map_map]
    rfl
  rw [hseq]
  exact List.nodup_range.map fun _ _ h => (ImportActionId.mk.inj h).2

theorem kinds_readActions (epoch : Nat) (files : List ObservedFile) :
    (readActions epoch files).map ImportAction.kind =
      files.map fun f => .read f.path f.fingerprint := by
  rw [readActions, List.map_map, ← List.zipIdx_map_fst 0 files, List.map_map]
  simp only [List.zipIdx_map_fst]
  rfl

theorem readActions_eq_nil_iff {epoch : Nat} {files : List ObservedFile} :
    readActions epoch files = [] ↔ files = [] := by
  rw [readActions, List.map_eq_nil_iff, List.zipIdx_eq_nil_iff]

theorem paths_readActions (epoch : Nat) (files : List ObservedFile) :
    ((readActions epoch files).map fun action => action.kind.path) =
      files.map ObservedFile.path := by
  have hkinds := congrArg (List.map ImportActionKind.path) (kinds_readActions epoch files)
  rw [List.map_map, List.map_map] at hkinds
  exact hkinds

/-! ## The tables -/

/-- Planning reads remembers the files that are too large. -/
theorem ignoredFiles_of_planReads {epoch : Nat} {ignored : List IgnoredRow}
    {files : List ObservedFile} {actions : List ImportAction}
    (h : Runs (planReads (D := D) epoch ignored files) db actions db') :
    db'.ignoredFiles = db.ignoredFiles.putAll
      ((files.filter fun f => readDecision ignored f = .tooLarge).map ObservedFile.tooLargeRow) := by
  simp only [planReads, Runs.bind_iff, Runs.pure_iff] at h
  obtain ⟨⟨⟩, t, hloop, -, rfl⟩ := h
  refine Runs.forM_invariant (fun done t => t.ignoredFiles =
    db.ignoredFiles.putAll (done.map ObservedFile.tooLargeRow)) hloop rfl ?_
  intro done f rest t t' _ ht hrun
  rw [runs_upsertIgnoredFile hrun, List.map_append, Table.putAll_append, ← ht]
  rfl

/-- Deleting entries of ignored files takes them away, and no others. -/
theorem find?_of_deleteIgnoredFiles {paths : List RelativePath} {u : PUnit}
    (h : Runs (forM paths (deleteIgnoredFile (D := D))) db u db') (p : RelativePath) :
    db'.ignoredFiles.find? p = if p ∈ paths then none else db.ignoredFiles.find? p := by
  refine Runs.forM_invariant (fun done t => t.ignoredFiles.find? p =
    if p ∈ done then none else db.ignoredFiles.find? p) h (if_neg List.not_mem_nil).symm ?_
  intro done path rest t t' _ ht hrun
  rw [deleteIgnoredFile, Runs.modify_iff] at hrun
  rw [hrun, Table.find?_deleteWhere, ht]
  by_cases hdone : p ∈ done
  · rw [if_pos hdone, if_pos (List.mem_append_left _ hdone), Option.filter_none]
  · rw [if_neg hdone]
    by_cases hp : p = path
    · rw [if_pos (hp ▸ List.mem_append_right _ List.mem_cons_self), Option.filter_eq_none_iff]
      intro r hr
      rw [Table.key_of_find? hr, hp]
      simp
    · rw [if_neg (by simp [hdone, hp])]
      cases hr : db.ignoredFiles.find? p with
      | none => rfl
      | some r => rw [Option.filter_some, Table.key_of_find? hr, decide_eq_false hp]; rfl

theorem mem_staleIgnored {p : RelativePath} :
    p ∈ db.staleIgnored scan ↔ (∃ r ∈ db.ignoredFiles, r.path = p) ∧
      scan.scope.containsPath p = true ∧ ∀ e ∈ scan.tree.entries, e.path ≠ p := by
  simp only [Db.staleIgnored, Db.ignoredInScope, Db.allIgnoredFiles, List.mem_map, List.mem_filter,
    List.mem_insertionSort, Table.mem_rows, Bool.not_eq_true', List.any_eq_false, decide_eq_true_eq]
  constructor
  · rintro ⟨r, ⟨⟨hr, hin⟩, hunseen⟩, rfl⟩
    exact ⟨⟨r, hr, rfl⟩, hin, hunseen⟩
  · rintro ⟨⟨r, hr, rfl⟩, hin, hunseen⟩
    exact ⟨r, ⟨⟨hr, hin⟩, hunseen⟩, rfl⟩

/-- The removals of rows name the claims of the rows, and set nothing else. -/
theorem entry_of_mem_removalOps {rows : List PriorTreeRow} {op : NsOp} (h : op ∈ db.removalOps rows) :
    ∃ r ∈ rows, op.entry = .removed r.claimId := by
  obtain ⟨-, -, hentry⟩ := NamespaceDoc.mem_mintedOps h
  obtain ⟨r, hr, heq⟩ := List.mem_map.mp hentry
  exact ⟨r, hr, heq.symm⟩

theorem removedClaimIds_removalOps {rows : List PriorTreeRow} {id : NamespaceClaimId} :
    id ∈ (db.removalOps rows).removedClaimIds ↔ ∃ r ∈ rows, r.claimId = id := by
  rw [NamespaceDoc.removedClaimIds, NamespaceDoc.mem_values]
  constructor
  · rintro ⟨op, hop, hid⟩
    obtain ⟨r, hr, hentry⟩ := entry_of_mem_removalOps hop
    rw [hentry] at hid
    exact ⟨r, hr, Option.some.inj hid⟩
  · rintro ⟨r, hr, rfl⟩
    obtain ⟨op, hop, hentry⟩ := NamespaceDoc.exists_mem_mintedOps
      (clientIdForWriter db.writerId) (db.priorNamespace.stateVector (clientIdForWriter db.writerId))
      (List.mem_map_of_mem (f := fun r : PriorTreeRow => NsEntry.removed r.claimId) hr)
    exact ⟨op, hop, by rw [hentry]; rfl⟩

/-- Only the claims of the rows are removed: objects and claims stay as they are. -/
theorem mapGet_union_removalOps {rows : List PriorTreeRow} {V : Type} [LinearOrder V]
    (doc : NamespaceDoc) {f : NsEntry → Option V} (hf : ∀ id, f (.removed id) = none) :
    (doc ∪ db.removalOps rows).mapGet f = doc.mapGet f := by
  refine NamespaceDoc.mapGet_union fun op hop => ?_
  obtain ⟨r, -, hentry⟩ := entry_of_mem_removalOps hop
  rw [hentry, hf]

/-- One message is one row at the end of the outbox. -/
theorem rows_of_pushOutboxMessages {o o' : Outbox (SharedMessage D)} {message : SharedMessage D}
    (h : o.pushOutboxMessages [message] = .ok o') :
    o'.rows.rows = o.rows.rows ++ [⟨o.nextOutboxId, message, false⟩] := by
  rw [Outbox.pushOutboxMessages, Outbox.reserveOutboxIds,
    if_neg (by simp : ¬[message].length = 0)] at h
  split_ifs at h with hmax
  · replace h : Outbox.insertOutboxMessages { o with nextOutboxId := o.nextOutboxId + 1 }
      o.nextOutboxId [message] = .ok o' := h
    rw [Outbox.insertOutboxMessages, Outbox.insertOutboxMessage] at h
    split at h
    next rows hrows =>
      cases h
      exact (Table.insert?_eq_some_iff.mp hrows).2
    next => cases h
  · cases h

theorem checkScope_eq_ok : checkScope scan = .ok ⟨⟩ ↔
    ∀ e ∈ scan.tree.entries, scan.scope.containsPath e.path = true := by
  unfold checkScope
  split
  next hnone =>
    refine iff_of_true rfl fun e he => ?_
    simpa using List.find?_eq_none.mp hnone e he
  next e hsome =>
    refine iff_of_false nofun fun hscope => ?_
    have hout := List.find?_some hsome
    rw [hscope e (List.mem_of_find?_eq_some hsome)] at hout
    cases hout

/-! ## `apply_scan` -/

variable {epoch : Nat} {now : Timestamp} {output : ApplyScanOutput D}

/-- The reads that are planned: the files that drifted, without those known to be ignored and those
that are too large. -/
def Db.plannedReads (db : Db D) (scan : ScanResult) : List ObservedFile :=
  (db.drift scan).filter fun f => readDecision (db.ignoredInScope scan) f = .read

/-- What `apply_scan` does to the entries of ignored files. -/
theorem ignoredFiles_of_applyScan (h : Runs (applyScan scan epoch now) db output db') :
    (∀ e ∈ scan.tree.entries, scan.scope.containsPath e.path = true) ∧ ∀ p, db'.ignoredFiles.find? p =
      if p ∈ db.staleIgnored scan then none
      else (db.ignoredFiles.putAll (((db.drift scan).filter fun f =>
        readDecision (db.ignoredInScope scan) f = .tooLarge).map
          ObservedFile.tooLargeRow)).find? p := by
  simp only [applyScan, Runs.bind_iff, Runs.liftExcept_iff, Runs.get_iff, Runs.pure_iff] at h
  obtain ⟨⟨⟩, _, ⟨hcheck, rfl⟩, db, _, ⟨rfl, rfl⟩, actions, db₁, hplan, ⟨⟩, db₂, hstale, n, db₃,
    hdelete, -, rfl⟩ := h
  refine ⟨checkScope_eq_ok.mp hcheck, fun p => ?_⟩
  rw [(runs_applyMissingPriorPathsAsLocalDeletesTx hdelete).2, find?_of_deleteIgnoredFiles hstale,
    ignoredFiles_of_planReads hplan]
  rfl

/-- A file of the drift that is too large to be read. -/
def Db.TooLarge (db : Db D) (scan : ScanResult) (f : ObservedFile) : Prop :=
  f ∈ scan.tree.files ∧ db.Drifted f ∧ ¬db.KnownIgnored f ∧
    maxSyncFileSize < f.fingerprint.stat.size

/-- What `apply_scan` plans and changes; `ops` are the operations that it adds to the namespace. -/
structure DriftPlanned (db db' : Db D) (scan : ScanResult) (epoch : Nat) (now : Timestamp)
    (actions : List ImportAction) (ops : NamespaceDoc) : Prop where
  /-- The actions have different ids of the epoch. -/
  ids_nodup : (actions.map ImportAction.id).Nodup
  epoch_eq : ∀ action ∈ actions, action.id.epoch = epoch
  /-- No path is read twice. -/
  paths_nodup : (actions.map fun action => action.kind.path).Nodup
  /-- The reads that are planned. -/
  reads : ∀ kind, (∃ id, ⟨id, kind⟩ ∈ actions) ↔ ∃ f ∈ scan.tree.files,
    kind = .read f.path f.fingerprint ∧ db.Drifted f ∧ ¬db.KnownIgnored f ∧
      f.fingerprint.stat.size ≤ maxSyncFileSize
  /-- The other files of the drift are remembered as too large. -/
  tooLarge : ∀ f, db.TooLarge scan f → ⟨f.path, .tooLarge, f.fingerprint.stat⟩ ∈ db'.ignoredFiles
  /-- An entry in scope that the scan did not see is gone. -/
  unseen : ∀ p, scan.scope.containsPath p = true → (∀ e ∈ scan.tree.entries, e.path ≠ p) →
    db'.ignoredFiles.find? p = none
  /-- The other entries stay. -/
  seen : ∀ e ∈ scan.tree.entries, (∀ f, db.TooLarge scan f → f.path ≠ e.path) →
    db'.ignoredFiles.find? e.path = db.ignoredFiles.find? e.path
  outOfScope : ∀ p, scan.scope.containsPath p = false →
    db'.ignoredFiles.find? p = db.ignoredFiles.find? p
  /-- The missing rows are tombstoned, and the other rows stay. -/
  priorTree : ∀ r', r' ∈ db'.priorTree ↔ (r' ∈ db.priorTree ∧ ¬db.Missing scan r') ∨
    ∃ r, db.Missing scan r ∧ r' = r.tombstone now
  /-- The operations remove the claims of the missing rows. -/
  ops_entry : ∀ op ∈ ops, op.client = clientIdForWriter db.writerId ∧
    ∃ r, db.Missing scan r ∧ op.entry = .removed r.claimId
  stableNamespace : db'.stableNamespace = db.stableNamespace ∪ ops
  removedClaims : ∀ id, id ∈ db'.stableNamespace.removedClaimIds ↔
    id ∈ db.stableNamespace.removedClaimIds ∨ ∃ r, db.Missing scan r ∧ r.claimId = id
  getClaim : ∀ id, db'.stableNamespace.getClaim id = db.stableNamespace.getClaim id
  getObject : ∀ id, db'.stableNamespace.getObject id = db.stableNamespace.getObject id
  /-- They are one row of the outbox, if there are any. -/
  outbox_nil : (¬∃ r, db.Missing scan r) → db'.outbox = db.outbox
  outbox_row : (∃ r, db.Missing scan r) → db'.outbox.rows.rows =
    db.outbox.rows.rows ++ [⟨db.outbox.nextOutboxId, .namespaceUpdate ops, false⟩]

theorem mem_plannedReads (hscope : ∀ e ∈ scan.tree.entries, scan.scope.containsPath e.path = true)
    {f : ObservedFile} : f ∈ db.plannedReads scan ↔ f ∈ scan.tree.files ∧ db.Drifted f ∧
      ¬db.KnownIgnored f ∧ f.fingerprint.stat.size ≤ maxSyncFileSize := by
  rw [Db.plannedReads, List.mem_filter, mem_drift hscope, decide_eq_true_eq,
    readDecision_eq_read_iff, and_assoc]
  refine and_congr_right fun hf => ?_
  rw [knownIgnored_iff hscope hf]

theorem mem_tooLargeFiles (hscope : ∀ e ∈ scan.tree.entries, scan.scope.containsPath e.path = true)
    {f : ObservedFile} :
    f ∈ (db.drift scan).filter (fun f => readDecision (db.ignoredInScope scan) f = .tooLarge) ↔
      db.TooLarge scan f := by
  rw [List.mem_filter, mem_drift hscope, decide_eq_true_eq, readDecision_eq_tooLarge_iff, and_assoc,
    Db.TooLarge]
  refine and_congr_right fun hf => ?_
  rw [knownIgnored_iff hscope hf]

/-- Tombstoning the missing rows changes them and no others. -/
theorem mem_tombstoneAll_missingPrior {r' : PriorTreeRow} :
    r' ∈ tombstoneAll db.priorTree ((db.missingPrior scan).map PriorTreeRow.path) now ↔
      (r' ∈ db.priorTree ∧ ¬db.Missing scan r') ∨ ∃ r, db.Missing scan r ∧ r' = r.tombstone now := by
  have hhit : ∀ {r : PriorTreeRow}, r ∈ db.priorTree →
      ((r.path ∈ (db.missingPrior scan).map PriorTreeRow.path ∧ r.deletedAt = none) ↔
        db.Missing scan r) := by
    intro r hr
    rw [List.mem_map]
    constructor
    · rintro ⟨⟨s, hs, hpath⟩, -⟩
      have hmissing := mem_missingPrior_iff.mp hs
      rwa [Table.eq_of_key_eq hr hmissing.1 hpath.symm]
    · intro hmissing
      exact ⟨⟨r, mem_missingPrior_iff.mpr hmissing, rfl⟩, hmissing.2.1⟩
  constructor
  · intro h
    have hfind := Table.find?_key h
    rw [find?_tombstoneAll, Option.map_eq_some_iff] at hfind
    obtain ⟨r, hr, heq⟩ := hfind
    have hpath := Table.key_of_find? hr
    have hmem := Table.mem_of_find? hr
    rw [← hpath] at heq
    split_ifs at heq with hcase
    · exact .inr ⟨r, (hhit hmem).mp hcase, heq.symm⟩
    · subst heq
      exact .inl ⟨hmem, fun hmissing => hcase ((hhit hmem).mpr hmissing)⟩
  · intro h
    have hrow : ∀ r ∈ db.priorTree, r.path = r'.path →
        (if r.path ∈ (db.missingPrior scan).map PriorTreeRow.path ∧ r.deletedAt = none
          then r.tombstone now else r) = r' →
        r' ∈ tombstoneAll db.priorTree ((db.missingPrior scan).map PriorTreeRow.path) now := by
      intro r hr hpath heq
      refine Table.mem_of_find? (k := r.path) ?_
      rw [find?_tombstoneAll, Table.find?_key hr, Option.map_some, heq]
    rcases h with ⟨hr, hnot⟩ | ⟨r, hmissing, rfl⟩
    · exact hrow r' hr rfl (if_neg fun hcase => hnot ((hhit hr).mp hcase))
    · exact hrow r hmissing.1 rfl (if_pos ((hhit hmissing.1).mpr hmissing))

/-- A scan that is applied plans exactly the drift. -/
theorem apply_scan_plans_drift (h : Runs (applyScan scan epoch now) db output db') :
    ∃ actions ops, output.nextWork =
        (if actions = [] then .none else .importEpoch ⟨epoch, actions⟩) ∧
      DriftPlanned db db' scan epoch now actions ops := by
  obtain ⟨hscope, hignored⟩ := ignoredFiles_of_applyScan h
  obtain ⟨hdeleted, hwork⟩ := runs_applyScan h
  have hstable : db'.stableNamespace = db.stableNamespace ∪ db.removalOps (db.missingPrior scan) := by
    rw [hdeleted.eq]
  have hkinds := kinds_readActions epoch (db.plannedReads scan)
  have hlarge : ∀ p, p ∉ (((db.drift scan).filter fun f =>
      readDecision (db.ignoredInScope scan) f = .tooLarge).map ObservedFile.tooLargeRow).map
        IgnoredRow.path ↔ ∀ f, db.TooLarge scan f → f.path ≠ p := by
    intro p
    simp only [List.map_map, List.mem_map, mem_tooLargeFiles hscope, not_exists, not_and]
    rfl
  have hseen : ∀ f, f ∈ scan.tree.files → f.path ∉ db.staleIgnored scan := by
    intro f hf hstale
    obtain ⟨e, he, hpath, -⟩ := mem_files_iff.mp hf
    exact (mem_staleIgnored.mp hstale).2.2 e he hpath
  refine ⟨readActions epoch (db.plannedReads scan), db.removalOps (db.missingPrior scan), hwork, ?_⟩
  constructor
  case ids_nodup => exact nodup_readActions epoch _
  case epoch_eq => exact fun _ => epoch_of_mem_readActions
  case paths_nodup =>
    rw [paths_readActions]
    exact List.pairwise_map.mpr ((pairwise_drift db scan).filter _)
  case reads =>
    intro kind
    have hmem : (∃ id, ⟨id, kind⟩ ∈ readActions epoch (db.plannedReads scan)) ↔
        kind ∈ (readActions epoch (db.plannedReads scan)).map ImportAction.kind := by
      rw [List.mem_map]
      exact ⟨fun ⟨id, hid⟩ => ⟨_, hid, rfl⟩, fun ⟨⟨id, _⟩, hid, rfl⟩ => ⟨id, hid⟩⟩
    rw [hmem, hkinds, List.mem_map]
    constructor
    · rintro ⟨f, hf, rfl⟩
      obtain ⟨hfile, hrest⟩ := (mem_plannedReads hscope).mp hf
      exact ⟨f, hfile, rfl, hrest⟩
    · rintro ⟨f, hfile, rfl, hrest⟩
      exact ⟨f, (mem_plannedReads hscope).mpr ⟨hfile, hrest⟩, rfl⟩
  case tooLarge =>
    intro f hf
    have hnodup : ((((db.drift scan).filter fun f =>
        readDecision (db.ignoredInScope scan) f = .tooLarge).map ObservedFile.tooLargeRow).map
          IgnoredRow.path).Nodup := by
      rw [List.map_map]
      exact List.pairwise_map.mpr ((pairwise_drift db scan).filter _)
    refine Table.mem_of_find? (k := f.path) ?_
    rw [hignored, if_neg (hseen f hf.1)]
    exact Table.find?_putAll_of_mem hnodup
      (List.mem_map_of_mem ((mem_tooLargeFiles hscope).mpr hf)) _
  case unseen =>
    intro p hin hunseen
    rw [hignored]
    split_ifs with hstale
    · rfl
    · rw [Table.find?_putAll_of_notMem, Table.find?_eq_none_iff]
      · exact fun r hr hpath => hstale (mem_staleIgnored.mpr ⟨⟨r, hr, hpath⟩, hin, hunseen⟩)
      · rw [hlarge]
        rintro f ⟨hf, -⟩ rfl
        obtain ⟨e, he, hpath, -⟩ := mem_files_iff.mp hf
        exact hunseen e he hpath
  case seen =>
    intro e he hsmall
    rw [hignored, if_neg fun hstale => (mem_staleIgnored.mp hstale).2.2 e he rfl,
      Table.find?_putAll_of_notMem ((hlarge _).mpr hsmall)]
  case outOfScope =>
    intro p hout
    have hnever : ¬scan.scope.containsPath p = true := by rw [hout]; exact Bool.false_ne_true
    rw [hignored, if_neg fun hstale => hnever (mem_staleIgnored.mp hstale).2.1,
      Table.find?_putAll_of_notMem]
    rw [hlarge]
    rintro f ⟨hf, -⟩ rfl
    obtain ⟨e, he, hpath, -⟩ := mem_files_iff.mp hf
    exact hnever (hpath ▸ hscope e he)
  case priorTree =>
    intro r'
    have hprior : db'.priorTree = tombstoneAll db.priorTree
        ((db.missingPrior scan).map PriorTreeRow.path) now := by rw [hdeleted.eq]
    rw [hprior, mem_tombstoneAll_missingPrior]
  case ops_entry =>
    intro op hop
    obtain ⟨r, hr, hentry⟩ := entry_of_mem_removalOps hop
    exact ⟨(NamespaceDoc.mem_mintedOps hop).1, r, mem_missingPrior_iff.mp hr, hentry⟩
  case stableNamespace => exact hstable
  case removedClaims =>
    intro id
    rw [hstable, NamespaceDoc.removedClaimIds, NamespaceDoc.values_union, Finset.mem_union]
    refine or_congr Iff.rfl (removedClaimIds_removalOps.trans ?_)
    simp only [mem_missingPrior_iff]
  case getClaim => exact fun id => by rw [hstable]; exact mapGet_union_removalOps _ fun _ => rfl
  case getObject => exact fun id => by rw [hstable]; exact mapGet_union_removalOps _ fun _ => rfl
  case outbox_nil =>
    intro hnone
    have hrows : db.missingPrior scan = [] :=
      List.eq_nil_iff_forall_not_mem.mpr fun r hr => hnone ⟨r, mem_missingPrior_iff.mp hr⟩
    have hpush := hdeleted.outbox
    rw [Db.removalMessages, if_pos hrows] at hpush
    exact (Except.ok.inj hpush).symm
  case outbox_row =>
    rintro ⟨r, hr⟩
    have hrows : db.missingPrior scan ≠ [] := List.ne_nil_of_mem (mem_missingPrior_iff.mpr hr)
    have hpush := hdeleted.outbox
    rw [Db.removalMessages, if_neg hrows] at hpush
    exact rows_of_pushOutboxMessages hpush

open Snapshots

/-- A workspace with two tracked files. -/
def trackedDb : Db Doc :=
  let doc := NamespaceDoc.mintedOps 9 0 [.object [3] ⟨.text, [9]⟩, .claim [4] ⟨[3], rootFile 1⟩,
    .object [5] ⟨.text, [9]⟩, .claim [6] ⟨[5], rootFile 2⟩]
  { Db.initialized Doc [9] 0 with
    stableNamespace := doc
    priorNamespace := doc
    priorTree := ⟨[⟨rootFile 1, rootFile 1, [4], [3], .statOnly (fileStat 1 5 0), 0, none⟩,
      ⟨rootFile 2, rootFile 2, [6], [5], .statOnly (fileStat 2 5 0), 0, none⟩], by decide⟩
    ignoredFiles := ⟨[⟨rootFile 4, .nonUtf8, fileStat 4 5 0⟩], by decide⟩ }

/-- The first file has grown, the second one is gone, and a third one is new. -/
def driftedScan : ScanResult :=
  scanOf .full [(rootFile 1, fileStat 1 6 1), (rootFile 3, fileStat 3 7 1)]

/-- `apply_scan_plans_drift` for a scan that finds one file of each kind. -/
theorem apply_scan_plans_drift_oneOfEach : ∃ db' output actions ops,
    Runs (applyScan driftedScan 1 8) trackedDb output db' ∧
      output.nextWork = (if actions = [] then .none else .importEpoch ⟨1, actions⟩) ∧
      DriftPlanned trackedDb db' driftedScan 1 8 actions ops := by
  have hrun : (attempt (applyScan driftedScan 1 8) trackedDb).isSome = true := by decide +kernel
  obtain ⟨⟨output, db'⟩, hsome⟩ := Option.isSome_iff_exists.mp hrun
  have hruns := attempt_eq_some_iff.mp hsome
  obtain ⟨actions, ops, hwork, hplanned⟩ := apply_scan_plans_drift hruns
  exact ⟨db', output, actions, ops, hruns, hwork, hplanned⟩

end Opbox
