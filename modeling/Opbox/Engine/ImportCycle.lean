import Opbox.Engine.DeleteEvidence
import Opbox.Fs.Answers
import Opbox.Fs.Termination
import Opbox.Semantic.ImportRun

/-!
# An import that settles

A scan that is applied plans reads, the engine hands them to the file layer (`apply_import_action` of
`fs/client.rs`), and each result is committed before the epoch is.  One import is enough on a disk that
stays as it is: a scan after it plans only the files again that could not be read for lack of a
permission, and takes nothing as deleted.  Batches of the shared log may be applied at any point in
between.
-/

namespace Opbox

variable {D : Type}

/-! ## Reading a file that a scan has found -/

/-- `apply_import_action`. -/
def applyImportAction {σ : Type} [Syscalls σ] [Xxh3] (action : ImportAction) (files : σ) :
    ImportActionResult × σ :=
  match action.kind with
  | .read path expected =>
    let (read, files) := (guardedRead path expected).exec files
    (.read action.id (importReadOutcome read), files)
  | .stat path => (.stat action.id, ((statPath path).exec files).2)

/-- The file cannot be read for lack of a permission. -/
def Disk.Denied (disk : Disk) (f : ObservedFile) : Prop :=
  disk.readFile f.path = .error .permissionDenied

section Reading

variable {disk : Disk} {path : RelativePath} {stat : FileStatFingerprint}

/-- A file is read, unless the permission is denied. -/
theorem Disk.readFile_of_metadata (h : disk.metadata path = .ok (.file stat)) :
    (∃ bytes, disk.readFile path = .ok bytes) ∨ disk.readFile path = .error .permissionDenied := by
  obtain ⟨dir, readable, node, hparent, hdir, hnode, hmetadata⟩ := metadata_eq_ok h
  cases node with
  | directory readable searchable => cases hmetadata
  | symlink target => cases hmetadata
  | other => cases hmetadata
  | file stat bytes readable' =>
    have hnames : path.names = path.names.dropLast ++ [.utf8 path.fileName] := by
      rw [RelativePath.names, ← List.map_dropLast]
      conv_lhs => rw [← RelativePath.dropLast_append_fileName path]
      rw [List.map_append, List.map_singleton]
    have hlookup : disk.lookup dir (.utf8 path.fileName) = .ok (.file stat bytes readable') := by
      rw [lookup, hdir, hnode]
      rfl
    have hresolve : disk.resolve disk.root path.names = .ok (dir ++ [.utf8 path.fileName]) := by
      rw [parentOf] at hparent
      rw [hnames, resolve_append, hparent]
      simp only [bind, Except.bind, resolve, hlookup, follow]
    rw [readFile, hresolve]
    simp only [bind, Except.bind, contents, hnode]
    cases readable' with
    | true => exact .inl ⟨bytes, rfl⟩
    | false => exact .inr rfl

variable [Xxh3]

theorem satisfies_statOnly_self (stat : FileStatFingerprint) (bytes : Bytes) :
    (statAndContentFingerprint stat bytes).satisfies (.statOnly stat) = true := by
  simp [statAndContentFingerprint, FileFingerprint.satisfies]

/-- The bytes of a file come with its stat. -/
theorem exec_guardedRead_of_bytes (h : disk.metadata path = .ok (.file stat)) {bytes : Bytes}
    (hbytes : disk.readFile path = .ok bytes) :
    (guardedRead path (.statOnly stat) : Fio Disk _).exec disk =
      (.ok (.read bytes (statAndContentFingerprint stat bytes)), disk) := by
  have hstat : (statPath path : Fio Disk _).exec disk =
      (.ok (some ⟨path, .file (.statOnly stat)⟩), disk) := by
    rw [exec_statPath, Disk.statEntry, h]
    rfl
  have hread : (Syscalls.read path disk : _ × Disk) = (.ok bytes, disk) := by
    rw [← hbytes]
    rfl
  rw [guardedRead, Effect.exec_bind_ok hstat]
  simp only [Option.bind_some, TreeEntry.fileStat, FileFingerprint.stat_statOnly]
  rw [if_neg (not_not_intro rfl), Effect.exec_bind, Effect.exec_call, hread]
  simp only
  rw [Effect.exec_bind_ok hstat, if_neg (not_not_intro rfl)]
  rw [if_pos (satisfies_statOnly_self stat bytes)]
  rfl

theorem exec_guardedRead_of_denied (h : disk.metadata path = .ok (.file stat))
    (hdenied : disk.readFile path = .error .permissionDenied) :
    (guardedRead path (.statOnly stat) : Fio Disk _).exec disk =
      (.error (.io .permissionDenied), disk) := by
  have hstat : (statPath path : Fio Disk _).exec disk =
      (.ok (some ⟨path, .file (.statOnly stat)⟩), disk) := by
    rw [exec_statPath, Disk.statEntry, h]
    rfl
  have hread : (Syscalls.read path disk : _ × Disk) = (.error .permissionDenied, disk) := by
    rw [← hdenied]
    rfl
  rw [guardedRead, Effect.exec_bind_ok hstat]
  simp only [Option.bind_some, TreeEntry.fileStat, FileFingerprint.stat_statOnly]
  rw [if_neg (not_not_intro rfl), Effect.exec_bind, Effect.exec_call, hread]
  rfl

/-- What the semantic actor makes of the read of a file: it stages the file as it is, or it remembers
that it does not sync, for a denied permission exactly if the permission was denied. -/
theorem prepareImportActionStage_of_file {f : ObservedFile} (hstat : f.fingerprint = .statOnly stat)
    (h : disk.metadata f.path = .ok (.file stat)) (id : ImportActionId) (kind : ImportEpochKind) :
    let result := (applyImportAction ⟨id, .read f.path f.fingerprint⟩ disk).1
    (∃ plan, prepareImportActionStage ⟨kind, .read f.path f.fingerprint⟩ result = .ok (.stage plan) ∧
      plan.path = f.path ∧ plan.fingerprint.stat = stat ∧ ¬disk.Denied f) ∨
    ∃ reason, prepareImportActionStage ⟨kind, .read f.path f.fingerprint⟩ result =
      .ok (.ignorePersist id f.path stat reason) ∧ (reason = .permissionDenied ↔ disk.Denied f) := by
  intro result
  rcases disk.readFile_of_metadata h with ⟨bytes, hbytes⟩ | hdenied
  · have hresult : result = .read id (.completed (.read bytes (statAndContentFingerprint stat bytes))) := by
      simp only [result, applyImportAction, hstat]
      rw [exec_guardedRead_of_bytes h hbytes]
      rfl
    have hopen : ¬disk.Denied f := by
      rw [Disk.Denied, hbytes]
      exact nofun
    have hsatisfies := satisfies_statOnly_self stat bytes
    rw [hresult, hstat]
    rw [statAndContentFingerprint] at hsatisfies ⊢
    unfold prepareImportActionStage
    dsimp only
    rw [hsatisfies, Bool.not_true, if_neg Bool.false_ne_true]
    split_ifs
    · exact .inr ⟨_, rfl, iff_of_false nofun hopen⟩
    · exact .inl ⟨_, rfl, rfl, rfl, hopen⟩
    · exact .inr ⟨_, rfl, iff_of_false nofun hopen⟩
  · have hresult : result = .read id (.failed true (IoErrorKind.permissionDenied).shown) := by
      simp only [result, applyImportAction, hstat]
      rw [exec_guardedRead_of_denied h hdenied]
      rfl
    refine .inr ⟨.permissionDenied, ?_, iff_of_true rfl hdenied⟩
    rw [hresult, hstat]
    unfold prepareImportActionStage
    dsimp only
    rw [if_pos rfl]
    rfl

end Reading

/-! ## What a read changes -/

section Paths

variable {db db' : Db D} {f : ObservedFile}

/-- Whether a file drifted depends on the row of its path. -/
theorem drifted_congr (h : db'.priorTree.find? f.path = db.priorTree.find? f.path) :
    db'.Drifted f ↔ db.Drifted f := by
  have hrow : ∀ db : Db D, db.Drifted f ↔ ∀ r, db.priorTree.find? f.path = some r →
      r.deletedAt = none → r.fingerprint.stat ≠ f.fingerprint.stat := by
    intro db
    constructor
    · intro hdrifted r hr hlive
      exact hdrifted r (Table.mem_of_find? hr) hlive (Table.key_of_find? hr)
    · intro hrows r hr hlive hpath
      exact hrows r (by rw [← hpath]; exact Table.find?_key hr) hlive
  rw [hrow, hrow, h]

/-- Whether it is known to be ignored depends on the entry of its path. -/
theorem knownIgnored_iff_find? : db.KnownIgnored f ↔ ∃ r, db.ignoredFiles.find? f.path = some r ∧
    r.stat = f.fingerprint.stat ∧ r.reason ≠ .permissionDenied := by
  constructor
  · rintro ⟨r, hr, hpath, hrest⟩
    exact ⟨r, by rw [← hpath]; exact Table.find?_key hr, hrest⟩
  · rintro ⟨r, hr, hrest⟩
    exact ⟨r, Table.mem_of_find? hr, Table.key_of_find? hr, hrest⟩

theorem knownIgnored_congr (h : db'.ignoredFiles.find? f.path = db.ignoredFiles.find? f.path) :
    db'.KnownIgnored f ↔ db.KnownIgnored f := by
  rw [knownIgnored_iff_find?, knownIgnored_iff_find?, h]

/-- A file is accounted for: it is staged, a live row has its stat, it is known to be ignored, or it
cannot be read. -/
def Db.Accounts (db : Db D) (disk : Disk) (f : ObservedFile) : Prop :=
  (∃ row ∈ db.importStagedFiles.rows, row.path = f.path) ∨ ¬db.Drifted f ∨ db.KnownIgnored f ∨
    disk.Denied f

/-- The commit of the read of a file. -/
structure ReadCommitted (disk : Disk) (f : ObservedFile) (db db' : Db D) : Prop where
  /-- The rows and entries of the other paths stay. -/
  others : ∀ p, f.path ≠ p → db'.priorTree.find? p = db.priorTree.find? p ∧
    db'.ignoredFiles.find? p = db.ignoredFiles.find? p
  /-- What is staged stays staged. -/
  kept : db.importStagedFiles.rows ⊆ db'.importStagedFiles.rows
  /-- No other file is staged. -/
  staged : ∀ row ∈ db'.importStagedFiles.rows, row ∈ db.importStagedFiles.rows ∨
    row.path = f.path ∧ row.fingerprint.stat = f.fingerprint.stat ∧ ¬disk.Denied f
  /-- The file is accounted for. -/
  accounted : db'.Accounts disk f
  /-- A file that cannot be read is not remembered as one that does not sync. -/
  denied : disk.Denied f → db'.priorTree = db.priorTree ∧ ¬db'.KnownIgnored f

variable [TextCrdt D] [CharDiff] [DecidableEq D] {context : ImportActionContext}
  {result : ImportActionResult} {now : Timestamp} {objectId : ObjectId} {claimId : NamespaceClaimId}
  {id : ImportActionId}

/-- What the commit of a decision does. -/
def ImportActionStageDecision.Applied (now : Timestamp) (objectId : ObjectId) (claimId : NamespaceClaimId)
    (db db' : Db D) : ImportActionStageDecision → Prop
  | stage plan => ∃ t, Runs (stageImportActionTx plan now objectId claimId) db ⟨⟩ t ∧
    db' = { t with ignoredFiles := t.ignoredFiles.deleteWhere fun r => decide (r.path = plan.path) }
  | ignorePersist _ path stat reason =>
    db' = { db with ignoredFiles := db.ignoredFiles.put ⟨path, reason, stat⟩ }
  | ignore _ => db' = db

theorem applied_of_runs {decision : ImportActionStageDecision}
    (hdecision : prepareImportActionStage context result = .ok decision)
    (h : Runs (commitImportAction (D := D) context result now objectId claimId) db id db') :
    decision.Applied now objectId claimId db db' := by
  simp only [commitImportAction, Runs.bind_iff, Runs.liftExcept_iff] at h
  obtain ⟨decision', _, ⟨hdecision', rfl⟩, h⟩ := h
  rw [hdecision] at hdecision'
  cases hdecision'
  cases decision with
  | stage plan =>
    simp only [Runs.bind_iff, deleteIgnoredFile, Runs.modify_iff, Runs.pure_iff] at h
    obtain ⟨⟨⟩, t, hstage, ⟨⟩, _, rfl, -, rfl⟩ := h
    exact ⟨t, hstage, rfl⟩
  | ignore actionId =>
    rw [Runs.pure_iff] at h
    exact h.2.symm
  | ignorePersist actionId path stat reason =>
    simp only [Runs.bind_iff, Runs.pure_iff] at h
    obtain ⟨⟨⟩, t, hupsert, -, rfl⟩ := h
    exact runs_upsertIgnoredFile hupsert

/-- The read of a file that a scan has found is committed. -/
theorem readCommitted_of_runs [Xxh3] {disk : Disk} {stat : FileStatFingerprint} {kind : ImportEpochKind}
    {action : ImportAction} (hkind : action.kind = .read f.path f.fingerprint)
    (hstat : f.fingerprint = .statOnly stat) (hmetadata : disk.metadata f.path = .ok (.file stat))
    (h : Runs (commitImportAction (D := D) ⟨kind, action.kind⟩ (applyImportAction action disk).1 now
      objectId claimId) db id db') : ReadCommitted disk f db db' := by
  obtain ⟨actionId, actionKind⟩ := action
  cases hkind
  have hsame : f.fingerprint.stat = stat := by
    rw [hstat]
    rfl
  rcases prepareImportActionStage_of_file hstat hmetadata actionId kind with
    ⟨plan, hplan, hpath, hfingerprint, hopen⟩ | ⟨reason, hignored, hreason⟩
  · obtain ⟨t, hstage, rfl⟩ := applied_of_runs hplan h
    have hignored : ∀ p, f.path ≠ p → (db.ignoredFiles.deleteWhere
        fun r => decide (r.path = plan.path)).find? p = db.ignoredFiles.find? p := by
      intro p hp
      rw [Table.find?_deleteWhere]
      cases hr : db.ignoredFiles.find? p with
      | none => rfl
      | some r =>
        have hne : r.path ≠ plan.path := by
          rw [Table.key_of_find? hr, hpath]
          exact hp.symm
        rw [Option.filter_some, decide_eq_false hne]
        rfl
    obtain ⟨stat', hash, hfp, ⟨-, row, doc, -, rfl⟩ | ⟨-, rows, hrows, rfl⟩⟩ :=
      runs_stageImportActionTx hstage
    · refine ⟨fun p hp => ⟨?_, hignored p hp⟩, List.Subset.refl _, fun row hrow => .inl hrow,
        .inr (.inl fun hdrifted => ?_), fun hdenied => absurd hdenied hopen⟩
      · change (db.priorTree.put _).find? p = _
        rw [Table.find?_put, if_neg]
        change plan.path ≠ p
        rw [hpath]
        exact hp
      · refine hdrifted ⟨plan.path, row.claimedPath, row.claimId, row.objectId, plan.fingerprint, now,
          none⟩ (Table.mem_put.mpr (.inl rfl)) rfl hpath ?_
        rw [hsame]
        exact hfingerprint
    · have hinserted := ImportStagedFiles.insert_eq_ok hrows
      refine ⟨fun p hp => ⟨rfl, hignored p hp⟩, ?_, fun row hrow => ?_, .inl ?_,
        fun hdenied => absurd hdenied hopen⟩
      · change db.importStagedFiles.rows ⊆ rows.rows
        rw [hinserted]
        exact List.subset_append_left _ _
      · change row ∈ rows.rows at hrow
        rw [hinserted] at hrow
        refine (List.mem_append.mp hrow).imp_right fun hrow => ?_
        rw [List.mem_singleton.mp hrow]
        exact ⟨hpath, hfingerprint.trans hsame.symm, hopen⟩
      · refine ⟨stagedRow plan (db.stagedTextImport plan now objectId claimId), ?_, hpath⟩
        change _ ∈ rows.rows
        rw [hinserted]
        exact List.mem_append_right _ List.mem_cons_self
  · have heq : db' = { db with ignoredFiles := db.ignoredFiles.put ⟨f.path, reason, stat⟩ } :=
      applied_of_runs hignored h
    subst heq
    have hfind : (db.ignoredFiles.put ⟨f.path, reason, stat⟩).find? f.path =
        some ⟨f.path, reason, stat⟩ := by
      rw [Table.find?_put]
      exact if_pos rfl
    refine ⟨fun p hp => ⟨rfl, ?_⟩, List.Subset.refl _, fun row hrow => .inl hrow, ?_,
      fun hdenied => ⟨rfl, fun hknown => ?_⟩⟩
    · change (db.ignoredFiles.put _).find? p = _
      rw [Table.find?_put, if_neg]
      exact hp
    · by_cases hdenied : disk.Denied f
      · exact .inr (.inr (.inr hdenied))
      · refine .inr (.inr (.inl (knownIgnored_iff_find?.mpr ⟨_, hfind, hsame.symm, ?_⟩)))
        exact fun heq => hdenied (hreason.mp heq)
    · obtain ⟨r, hr, -, hne⟩ := knownIgnored_iff_find?.mp hknown
      have hrow := hr.symm.trans hfind
      cases hrow
      exact hne (hreason.mpr hdenied)

end Paths

/-! ## The stretch of an import -/

section Progress

variable {disk : Disk} {files : List ObservedFile} {active : ActiveImportEpoch} {db₁ : Db D}
  {s s' : SemanticActor D}

/-- An epoch that reads files of a disk. -/
structure ReadPlan (disk : Disk) (files : List ObservedFile) (active : ActiveImportEpoch) : Prop where
  /-- It belongs to a running daemon. -/
  sync : active.kind = .sync
  /-- It has a read for each file. -/
  kinds : active.expected.map ImportAction.kind = files.map fun f => .read f.path f.fingerprint
  /-- No id is used twice. -/
  ids : (active.expected.map ImportAction.id).Nodup
  /-- No path is read twice. -/
  paths : (files.map ObservedFile.path).Nodup
  /-- The files are there. -/
  files : ∀ f ∈ files, ∃ stat, f.fingerprint = .statOnly stat ∧
    disk.metadata f.path = .ok (.file stat)

/-- A request during an import of the files of a disk: what it commits was read there, and it is not the
commit of the import. -/
def SemanticRequest.Imports [Xxh3] (disk : Disk) (active : ActiveImportEpoch) :
    SemanticRequest D → Prop
  | .commitImportAction result _ _ _ => ∃ action ∈ active.expected,
    result = (applyImportAction action disk).1
  | .commitImportEpoch _ => False
  | _ => True

/-- How far an import is. -/
structure ImportProgress (disk : Disk) (files : List ObservedFile) (active : ActiveImportEpoch)
    (db₁ : Db D) (completed : List ImportActionId) (s : SemanticActor D) : Prop where
  /-- The epoch goes on. -/
  continues : s.active = .importing { active with completed := completed }
  /-- Its results came once each. -/
  nodup : completed.Nodup
  subset : completed ⊆ active.expected.map ImportAction.id
  /-- What was read is accounted for. -/
  accounted : ∀ f ∈ files, ∀ action ∈ active.expected, action.kind = .read f.path f.fingerprint →
    action.id ∈ completed → s.db.Accounts disk f
  /-- What is staged was read. -/
  staged : ∀ row ∈ s.db.importStagedFiles.rows, ∃ f ∈ files, row.path = f.path ∧
    row.fingerprint.stat = f.fingerprint.stat ∧ ¬disk.Denied f
  /-- What cannot be read stays as it was. -/
  denied : ∀ f ∈ files, disk.Denied f →
    s.db.priorTree.find? f.path = db₁.priorTree.find? f.path ∧ ¬s.db.KnownIgnored f
  /-- So do the other paths. -/
  others : ∀ p, (∀ f ∈ files, f.path ≠ p) → s.db.priorTree.find? p = db₁.priorTree.find? p ∧
    s.db.ignoredFiles.find? p = db₁.ignoredFiles.find? p

/-- The read of an action belongs to one file. -/
theorem ReadPlan.exists_file (h : ReadPlan disk files active) {action : ImportAction}
    (haction : action ∈ active.expected) :
    ∃ f ∈ files, action.kind = .read f.path f.fingerprint := by
  have hmem : action.kind ∈ files.map fun f => ImportActionKind.read f.path f.fingerprint := by
    rw [← h.kinds]
    exact List.mem_map_of_mem haction
  obtain ⟨f, hf, hkind⟩ := List.mem_map.mp hmem
  exact ⟨f, hf, hkind.symm⟩

/-- The read of a file belongs to an action. -/
theorem ReadPlan.exists_action (h : ReadPlan disk files active) {f : ObservedFile} (hf : f ∈ files) :
    ∃ action ∈ active.expected, action.kind = .read f.path f.fingerprint := by
  have hmem : ImportActionKind.read f.path f.fingerprint ∈ active.expected.map ImportAction.kind := by
    rw [h.kinds]
    exact List.mem_map_of_mem (f := fun f => ImportActionKind.read f.path f.fingerprint) hf
  exact List.mem_map.mp hmem

theorem ReadPlan.eq_of_path (h : ReadPlan disk files active) {f f' : ObservedFile} (hf : f ∈ files)
    (hf' : f' ∈ files) (hpath : f.path = f'.path) : f = f' :=
  List.inj_on_of_nodup_map h.paths hf hf' hpath

/-- A file stays accounted for while its path is left alone. -/
theorem Db.Accounts.congr {db db' : Db D} {f : ObservedFile} (h : db.Accounts disk f)
    (hstaged : db.importStagedFiles.rows ⊆ db'.importStagedFiles.rows)
    (htree : db'.priorTree.find? f.path = db.priorTree.find? f.path)
    (hignored : db'.ignoredFiles.find? f.path = db.ignoredFiles.find? f.path) :
    db'.Accounts disk f := by
  rcases h with ⟨row, hrow, hpath⟩ | haccepted | hknown | hdenied
  · exact .inl ⟨row, hstaged hrow, hpath⟩
  · exact .inr (.inl fun hdrifted => haccepted ((drifted_congr htree).mp hdrifted))
  · exact .inr (.inr (.inl ((knownIgnored_congr hignored).mpr hknown)))
  · exact .inr (.inr (.inr hdenied))

/-- A result takes an import further. -/
theorem ImportProgress.read {completed : List ImportActionId} (hplan : ReadPlan disk files active)
    (h : ImportProgress disk files active db₁ completed s) {f : ObservedFile} (hf : f ∈ files)
    {action : ImportAction} (haction : action ∈ active.expected)
    (hkind : action.kind = .read f.path f.fingerprint) (hnew : action.id ∉ completed)
    (hcommitted : ReadCommitted disk f s.db s'.db)
    (hactive : s'.active = .importing { active with completed := action.id :: completed }) :
    ImportProgress disk files active db₁ (action.id :: completed) s' where
  continues := hactive
  nodup := List.nodup_cons.mpr ⟨hnew, h.nodup⟩
  subset := List.cons_subset.mpr ⟨List.mem_map_of_mem haction, h.subset⟩
  accounted f' hf' action' haction' hkind' hid := by
    by_cases hpath : f.path = f'.path
    · rw [← hplan.eq_of_path hf hf' hpath]
      exact hcommitted.accounted
    · have hid' : action'.id ∈ completed := by
        rcases List.mem_cons.mp hid with heq | hid
        · have hsame := List.inj_on_of_nodup_map hplan.ids haction' haction heq
          rw [hsame, hkind] at hkind'
          exact absurd (ImportActionKind.read.inj hkind').1 hpath
        · exact hid
      obtain ⟨htree, hignored⟩ := hcommitted.others f'.path hpath
      exact (h.accounted f' hf' action' haction' hkind' hid').congr hcommitted.kept htree hignored
  staged row hrow := by
    rcases hcommitted.staged row hrow with hold | hrow
    · exact h.staged row hold
    · exact ⟨f, hf, hrow⟩
  denied f' hf' hdenied := by
    obtain ⟨htree, hknown⟩ := h.denied f' hf' hdenied
    by_cases hpath : f.path = f'.path
    · have hsame := hplan.eq_of_path hf hf' hpath
      subst hsame
      obtain ⟨hrows, hunknown⟩ := hcommitted.denied hdenied
      exact ⟨by rw [hrows, htree], hunknown⟩
    · obtain ⟨htree', hignored⟩ := hcommitted.others f'.path hpath
      exact ⟨htree'.trans htree, fun h => hknown ((knownIgnored_congr hignored).mp h)⟩
  others p hp := by
    obtain ⟨htree, hignored⟩ := hcommitted.others p (hp f hf)
    obtain ⟨htree₁, hignored₁⟩ := h.others p hp
    exact ⟨htree.trans htree₁, hignored.trans hignored₁⟩

/-- A step that leaves the tables about the disk alone leaves an import where it is. -/
theorem ImportProgress.of_eq {completed : List ImportActionId}
    (h : ImportProgress disk files active db₁ completed s) (hactive : s'.active = s.active)
    (htree : s'.db.priorTree = s.db.priorTree)
    (hstaged : s'.db.importStagedFiles = s.db.importStagedFiles)
    (hignored : s'.db.ignoredFiles = s.db.ignoredFiles) :
    ImportProgress disk files active db₁ completed s' where
  continues := hactive.trans h.continues
  nodup := h.nodup
  subset := h.subset
  accounted f hf action haction hkind hid := by
    refine (h.accounted f hf action haction hkind hid).congr ?_ ?_ ?_
    · rw [hstaged]
      exact List.Subset.refl _
    · rw [htree]
    · rw [hignored]
  staged := by
    rw [hstaged]
    exact h.staged
  denied f hf hdenied := by
    obtain ⟨hrow, hknown⟩ := h.denied f hf hdenied
    refine ⟨by rw [htree, hrow], fun hknown' => hknown ((knownIgnored_congr ?_).mp hknown')⟩
    rw [hignored]
  others p hp := by
    rw [htree, hignored]
    exact h.others p hp

variable [TextCrdt D] [CharDiff] [Xxh3] [DecidableEq D]

/-- The step of an import: a result that was read on the disk, or a request about the shared log. -/
theorem ImportProgress.served {completed : List ImportActionId} {request : SemanticRequest D}
    (hplan : ReadPlan disk files active) (h : ImportProgress disk files active db₁ completed s)
    (hserved : Served s request s') (himports : request.Imports disk active) :
    ∃ completed', ImportProgress disk files active db₁ completed' s' := by
  have hactive := h.continues
  have hidle : s.active ≠ .idle := by
    rw [hactive]
    nofun
  cases hserved with
  | applyInitScan hidle' hrun => exact absurd hidle' hidle
  | applyScan hidle' hrun => exact absurd hidle' hidle
  | getNextWork hidle' hrun => exact absurd hidle' hidle
  | commitImportEpoch hactive' hcomplete hrun => exact himports.elim
  | commitProjectionAction hprojecting hcontext hrun =>
    rw [hactive] at hprojecting
    cases hprojecting
  | commitProjectionEpoch hprojecting hcomplete hrun =>
    rw [hactive] at hprojecting
    cases hprojecting
  | applySharedMessageBatch hrun =>
    obtain ⟨docs, happlied, -⟩ := runs_applySharedMessageBatchTx hrun
    refine ⟨completed, h.of_eq rfl ?_ ?_ ?_⟩
    · rw [happlied.eq]
    · rw [happlied.eq]
    · rw [happlied.eq]
  | readOutbox hread => exact ⟨completed, h.of_eq rfl rfl rfl rfl⟩
  | releaseOutbox => exact ⟨completed, h.of_eq rfl rfl rfl rfl⟩
  | trimOutbox hbound => exact ⟨completed, h.of_eq rfl rfl rfl rfl⟩
  | @commitImportAction result now objectId claimId active' context id db hactive' hcontext hrun =>
    rw [hactive] at hactive'
    cases hactive'
    obtain ⟨action, haction, rfl⟩ := himports
    obtain ⟨f, hf, hkind⟩ := hplan.exists_file haction
    obtain ⟨stat, hstat, hmetadata⟩ := hplan.files f hf
    have hid : (applyImportAction action disk).1.actionId = action.id := by
      rw [applyImportAction, hkind]
      rfl
    obtain ⟨rfl, -⟩ := runs_commitImportAction hrun
    unfold ActiveImportEpoch.context at hcontext
    rw [hid] at hcontext hrun
    split_ifs at hcontext with hdone
    obtain ⟨action', hfound, rfl⟩ := Option.map_eq_some_iff.mp hcontext
    have hsame : action' = action := List.inj_on_of_nodup_map hplan.ids
      (List.mem_of_find?_eq_some hfound) haction (by simpa using List.find?_some hfound)
    subst hsame
    have hcommitted : ReadCommitted disk f s.db db := readCommitted_of_runs hkind hstat hmetadata hrun
    exact ⟨_, h.read hplan hf haction hkind hdone hcommitted (by rw [hid])⟩

/-- The run of it. -/
theorem ImportProgress.run {completed : List ImportActionId} {writer : DaemonWriterId}
    {requests : List (SemanticRequest D)} (hplan : ReadPlan disk files active)
    (h : ImportProgress disk files active db₁ completed s)
    (hrun : (daemonMachine D writer).exec s (requests.map .serve) = some s')
    (himports : ∀ request ∈ requests, request.Imports disk active) :
    ∃ completed', ImportProgress disk files active db₁ completed' s' := by
  induction requests generalizing s completed with
  | nil =>
    cases hrun
    exact ⟨completed, h⟩
  | cons request requests ih =>
    rw [List.map_cons, Machine.exec, Option.bind_eq_some_iff] at hrun
    obtain ⟨t, hstep, hrun⟩ := hrun
    obtain ⟨completed', ht⟩ :=
      h.served hplan (served_of_step hstep) (himports request List.mem_cons_self)
    exact ih ht hrun fun r hr => himports r (List.mem_cons_of_mem _ hr)

end Progress

/-! ## The scan before -/

section Before

variable {db db' : Db D} {scan : ScanResult} {epoch : Nat} {now : Timestamp}
  {output : ApplyScanOutput D} {f : ObservedFile}

/-- The work after a scan is to read what drifted. -/
theorem nextWork_of_applyScan (happly : Runs (applyScan scan epoch now) db output db') :
    output.nextWork = if db.plannedReads scan = [] then .none
      else .importEpoch ⟨epoch, readActions epoch (db.plannedReads scan)⟩ := by
  have hwork : output.nextWork = if readActions epoch (db.plannedReads scan) = [] then .none
      else .importEpoch ⟨epoch, readActions epoch (db.plannedReads scan)⟩ := (runs_applyScan happly).2
  rw [hwork]
  simp only [readActions_eq_nil_iff]

/-- A scan that is applied leaves the row of a file that it found. -/
theorem find?_priorTree_of_applyScan (happly : Runs (applyScan scan epoch now) db output db')
    (hf : f ∈ scan.tree.files) : db'.priorTree.find? f.path = db.priorTree.find? f.path := by
  obtain ⟨hdeleted, -⟩ := runs_applyScan happly
  have htree : db'.priorTree = tombstoneAll db.priorTree
      ((db.missingPrior scan).map PriorTreeRow.path) now := by rw [hdeleted.eq]
  have hseen : f.path ∉ (db.missingPrior scan).map PriorTreeRow.path := by
    intro hmem
    obtain ⟨row, hrow, hpath⟩ := List.mem_map.mp hmem
    exact (mem_missingPrior_iff.mp hrow).2.2.2 f hf hpath.symm
  rw [htree, find?_tombstoneAll]
  simp [hseen]

/-- It leaves the entry of the file too, unless the file is too large. -/
theorem find?_ignoredFiles_of_applyScan (happly : Runs (applyScan scan epoch now) db output db')
    (hf : f ∈ scan.tree.files) (hsmall : ¬db.TooLarge scan f) :
    db'.ignoredFiles.find? f.path = db.ignoredFiles.find? f.path := by
  obtain ⟨hscope, hignored⟩ := ignoredFiles_of_applyScan happly
  obtain ⟨e, he, hpath, -⟩ := mem_files_iff.mp hf
  have hstale : f.path ∉ db.staleIgnored scan := fun h => (mem_staleIgnored.mp h).2.2 e he hpath
  rw [hignored, if_neg hstale, Table.find?_putAll_of_notMem]
  intro hmem
  rw [List.map_map, List.mem_map] at hmem
  obtain ⟨f', hf', hpath'⟩ := hmem
  have hlarge := (mem_tooLargeFiles hscope).mp hf'
  rw [eq_of_path_eq hlarge.1 hf hpath'] at hlarge
  exact hsmall hlarge

/-- A file that is too large is known to be ignored then. -/
theorem knownIgnored_of_tooLarge (happly : Runs (applyScan scan epoch now) db output db')
    (hlarge : db.TooLarge scan f) : db'.KnownIgnored f := by
  obtain ⟨hscope, hignored⟩ := ignoredFiles_of_applyScan happly
  obtain ⟨e, he, hpath, -⟩ := mem_files_iff.mp hlarge.1
  have hstale : f.path ∉ db.staleIgnored scan := fun h => (mem_staleIgnored.mp h).2.2 e he hpath
  have hnodup : ((((db.drift scan).filter fun f =>
      readDecision (db.ignoredInScope scan) f = .tooLarge).map ObservedFile.tooLargeRow).map
        IgnoredRow.path).Nodup := by
    rw [List.map_map]
    exact List.pairwise_map.mpr ((pairwise_drift db scan).filter _)
  refine knownIgnored_iff_find?.mpr ⟨f.tooLargeRow, ?_, rfl, nofun⟩
  rw [hignored, if_neg hstale]
  exact Table.find?_putAll_of_mem hnodup
    (List.mem_map_of_mem ((mem_tooLargeFiles hscope).mpr hlarge)) _

/-- A file whose read is not planned is accepted or known to be ignored. -/
theorem accounted_of_applyScan (happly : Runs (applyScan scan epoch now) db output db')
    (hf : f ∈ scan.tree.files) (hskipped : f ∉ db.plannedReads scan) :
    ¬db'.Drifted f ∨ db'.KnownIgnored f := by
  obtain ⟨hscope, -⟩ := ignoredFiles_of_applyScan happly
  rw [drifted_congr (find?_priorTree_of_applyScan happly hf)]
  by_cases hlarge : db.TooLarge scan f
  · exact .inr (knownIgnored_of_tooLarge happly hlarge)
  · rw [knownIgnored_congr (find?_ignoredFiles_of_applyScan happly hf hlarge)]
    by_contra hneither
    rw [not_or, not_not] at hneither
    by_cases hsize : f.fingerprint.stat.size ≤ maxSyncFileSize
    · exact hskipped ((mem_plannedReads hscope).mpr ⟨hf, hneither.1, hneither.2, hsize⟩)
    · exact hlarge ⟨hf, hneither.1, hneither.2, not_le.mp hsize⟩

end Before

section Cycle

variable [Gitignore] [TextCrdt D] [CharDiff] [Xxh3] [DecidableEq D] {disk disk' : Disk}
  {rules : IgnoreRules} {scope : ScanScope} {fuel : Nat} {result : ScanResult}
  {writer : DaemonWriterId} {t t₁ s s' : SemanticActor D} {active : ActiveImportEpoch}
  {now later : Timestamp} {requests : List (SemanticRequest D)}

omit [TextCrdt D] [CharDiff] [Xxh3] [DecidableEq D] in
/-- Two scans of a disk that stays as it is find the same. -/
theorem scan_unique {fuel₂ : Nat} {result₂ : ScanResult} {disk₂ : Disk}
    (hrules : (IgnoreRules.load : Fio Disk _).exec disk = (.ok rules, disk))
    (hscan : (scan fuel scope : Fio Disk _).exec disk = (.ok (some result), disk'))
    (hscan₂ : (scan fuel₂ scope : Fio Disk _).exec disk = (.ok (some result₂), disk₂)) :
    result₂ = result := by
  obtain ⟨-, hscope, hfinds⟩ := scan_eq_some hscan hrules
  obtain ⟨-, hscope₂, hfinds₂⟩ := scan_eq_some hscan₂ hrules
  obtain ⟨scope₁, entries, sorted⟩ := result
  obtain ⟨scope₂, entries₂, sorted₂⟩ := result₂
  have hentries : entries₂ = entries := by
    have : Std.Irrefl fun a b : TreeEntry => a.path < b.path := ⟨fun a => lt_irrefl a.path⟩
    refine sorted₂.eq_of_mem_iff sorted fun e => ?_
    exact (hfinds₂ e).trans (hfinds e).symm
  cases hscope
  cases hscope₂
  cases hentries
  rfl

omit [TextCrdt D] [CharDiff] [Xxh3] [DecidableEq D] in
/-- The files of a scan are on the disk, and the rules do not ignore them. -/
theorem found_of_scanned (hrules : (IgnoreRules.load : Fio Disk _).exec disk = (.ok rules, disk))
    (hscan : (scan fuel scope : Fio Disk _).exec disk = (.ok (some result), disk'))
    {f : ObservedFile} (hf : f ∈ result.tree.files) :
    ∃ stat, f.fingerprint = .statOnly stat ∧ disk.metadata f.path = .ok (.file stat) ∧
      rules.isIgnored f.path false = false := by
  obtain ⟨-, -, hfinds⟩ := scan_eq_some hscan hrules
  obtain ⟨entry, hentry, hpath, hkind⟩ := mem_files_iff.mp hf
  obtain ⟨-, hkept, -⟩ := (hfinds entry).mp hentry
  have heq : entry = ⟨f.path, .file f.fingerprint⟩ := by
    rw [← hpath, ← hkind]
  exact kept_file_iff.mp (heq ▸ hkept)

/-- A scan that plans reads opens an import of the files that drifted. -/
theorem importProgress_of_applyScan (h : (daemonMachine D writer).Reached t)
    (hrules : (IgnoreRules.load : Fio Disk _).exec disk = (.ok rules, disk))
    (hscan : (scan fuel scope : Fio Disk _).exec disk = (.ok (some result), disk'))
    (hstep : t.step (.applyScan result now) = some t₁) (hactive : t₁.active = .importing active) :
    ReadPlan disk (t.db.plannedReads result) active ∧
      ImportProgress disk (t.db.plannedReads result) active t₁.db [] t₁ := by
  cases served_of_step hstep with
  | @applyScan _ _ output db hidle hrun =>
    obtain ⟨hdeleted, -⟩ := runs_applyScan hrun
    obtain ⟨hscope, -⟩ := ignoredFiles_of_applyScan hrun
    have hplanned : active = ⟨t.nextImportEpoch, .sync,
        readActions t.nextImportEpoch (t.db.plannedReads result), []⟩ := by
      dsimp only at hactive
      rw [nextWork_of_applyScan hrun] at hactive
      split_ifs at hactive
      · cases hactive
      · cases hactive
        rfl
    subst hplanned
    have hnil : db.importStagedFiles.rows = [] := by
      have hstaged : db.importStagedFiles = t.db.importStagedFiles := by rw [hdeleted.eq]
      rw [hstaged]
      exact (stagingTidy_of_reached h).staged_eq_nil fun active => by rw [hidle]; nofun
    refine ⟨⟨rfl, kinds_readActions _ _, nodup_readActions _ _,
      List.pairwise_map.mpr ((pairwise_drift t.db result).filter _), fun f hf => ?_⟩,
      ⟨hactive, List.nodup_nil, List.nil_subset _, fun f hf action haction hkind hid => ?_,
        fun row hrow => ?_, fun f hf hdenied => ⟨rfl, fun hknown => ?_⟩, fun p hp => ⟨rfl, rfl⟩⟩⟩
    · obtain ⟨stat, hstat, hmetadata, -⟩ :=
        found_of_scanned hrules hscan ((mem_plannedReads hscope).mp hf).1
      exact ⟨stat, hstat, hmetadata⟩
    · cases hid
    · change row ∈ db.importStagedFiles.rows at hrow
      rw [hnil] at hrow
      cases hrow
    · obtain ⟨hfile, -, hunknown, hsize⟩ := (mem_plannedReads hscope).mp hf
      have hsmall : ¬t.db.TooLarge result f := fun hlarge => absurd hlarge.2.2.2 (not_lt.mpr hsize)
      exact hunknown ((knownIgnored_congr
        (find?_ignoredFiles_of_applyScan hrun hfile hsmall)).mp hknown)

omit [Gitignore] in
theorem exists_applyScan (hstep : t.step (.applyScan result now) = some t₁) :
    ∃ output, Runs (applyScan result t.nextImportEpoch now) t.db output t₁.db := by
  cases served_of_step hstep with
  | applyScan hidle happly => exact ⟨_, happly⟩

omit [Gitignore] [CharDiff] [Xxh3] [DecidableEq D] in
/-- What the commit of an import leaves at a path: the file that was staged there, or what was there. -/
theorem find?_priorTree_of_import {db db' : Db D} {epoch : Nat} {staged : List (StagedRow D)}
    (himported : SyncImported db db' epoch staged now) (hpaths : (staged.map StagedRow.path).Nodup)
    (p : RelativePath) :
    (∃ row ∈ staged, row.path = p ∧ db'.priorTree.find? p = some (row.priorRow now)) ∨
      (∀ row ∈ staged, row.path ≠ p) ∧ db'.priorTree.find? p = db.priorTree.find? p := by
  have htree : db'.priorTree = db.priorTree.putAll (staged.map (StagedRow.priorRow now)) := by
    rw [himported.eq]
  have hkeys : (staged.map (StagedRow.priorRow now)).map PriorTreeRow.path =
      staged.map StagedRow.path := by
    rw [List.map_map]
    rfl
  rw [htree]
  by_cases hstaged : ∃ row ∈ staged, row.path = p
  · obtain ⟨row, hrow, rfl⟩ := hstaged
    exact .inl ⟨row, hrow, rfl, Table.find?_putAll_of_mem (hkeys ▸ hpaths)
      (List.mem_map_of_mem (f := StagedRow.priorRow now) hrow) db.priorTree⟩
  · have hnone : ∀ row ∈ staged, row.path ≠ p := fun row hrow hpath => hstaged ⟨row, hrow, hpath⟩
    refine .inr ⟨hnone, Table.find?_putAll_of_notMem ?_ _⟩
    rw [hkeys, List.mem_map]
    rintro ⟨row, hrow, hpath⟩
    exact hnone row hrow hpath

omit [Gitignore] in
/-- The commit of an import accepts what is accounted for, and changes nothing at the paths that cannot
be read or are none of its own. -/
theorem ImportProgress.commit {files : List ObservedFile} {db₁ : Db D}
    {completed : List ImportActionId} (hplan : ReadPlan disk files active)
    (h : ImportProgress disk files active db₁ completed s) (hreached : (daemonMachine D writer).Reached s)
    (hcommit : s.step (.commitImportEpoch later) = some s') :
    s'.active = .idle ∧
    (∀ f ∈ files, ¬disk.Denied f → ¬s'.db.Drifted f ∨ s'.db.KnownIgnored f) ∧
    (∀ f ∈ files, disk.Denied f → s'.db.priorTree.find? f.path = db₁.priorTree.find? f.path ∧
      ¬s'.db.KnownIgnored f) ∧
    ∀ p, (∀ f ∈ files, f.path ≠ p) → s'.db.priorTree.find? p = db₁.priorTree.find? p ∧
      s'.db.ignoredFiles.find? p = db₁.ignoredFiles.find? p := by
  have hactive := h.continues
  have htidy := stagingTidy_of_reached hreached
  cases served_of_step hcommit with
  | @commitImportEpoch _ active' effects db hactive' hcomplete hrun =>
    rw [hactive] at hactive'
    cases hactive'
    rcases runs_commitImportEpoch hrun with ⟨hinit, -⟩ | ⟨-, n, hsync⟩
    · have hkind : active.kind = .init := hinit
      rw [hplan.sync] at hkind
      cases hkind
    obtain ⟨himported, -⟩ := runs_commitSyncImportEpochTx hsync
    have hrows : ∀ row, row ∈ s.db.importStagedFiles.ofEpoch active.epoch ↔
        row ∈ s.db.importStagedFiles.rows := fun row =>
      ImportStagedFiles.mem_ofEpoch.trans
        ⟨fun hrow => hrow.1, fun hrow => ⟨hrow, htidy.epoch_eq hactive hrow⟩⟩
    have hfind := find?_priorTree_of_import himported
      (ImportStagedFiles.nodup_map_ofEpoch s.db.importStagedFiles.paths_nodup _)
    have hignored : db.ignoredFiles = s.db.ignoredFiles := by
      rw [himported.eq]
    -- Every action has its result.
    have hall : ∀ action ∈ active.expected, action.id ∈ completed := by
      have hlength : completed.length = active.expected.length := of_decide_eq_true hcomplete
      have hperm : completed.Perm (active.expected.map ImportAction.id) := by
        refine (List.subperm_of_subset h.nodup h.subset).perm_of_length_le ?_
        rw [List.length_map, hlength]
      exact fun action haction => hperm.mem_iff.mpr (List.mem_map_of_mem haction)
    refine ⟨rfl, fun f hf hopen => ?_, fun f hf hdenied => ?_, fun p hp => ?_⟩
    · change ¬db.Drifted f ∨ db.KnownIgnored f
      obtain ⟨action, haction, hkind⟩ := hplan.exists_action hf
      have haccounted := h.accounted f hf action haction hkind (hall action haction)
      rcases hfind f.path with ⟨row, hrow, hpath, hrowFind⟩ | ⟨hnone, hsame⟩
      · obtain ⟨f', hf', hpath', hstat, -⟩ := h.staged row ((hrows row).mp hrow)
        have heq := hplan.eq_of_path hf' hf (hpath'.symm.trans hpath)
        rw [heq] at hstat
        refine .inl fun hdrifted => ?_
        exact hdrifted _ (Table.mem_of_find? hrowFind) rfl hpath hstat
      · rcases haccounted with ⟨row, hrow, hpath⟩ | haccepted | hknown | hdenied
        · exact absurd hpath (hnone row ((hrows row).mpr hrow))
        · exact .inl fun hdrifted => haccepted ((drifted_congr hsame).mp hdrifted)
        · exact .inr ((knownIgnored_congr (by rw [hignored])).mpr hknown)
        · exact absurd hdenied hopen
    · obtain ⟨htree, hunknown⟩ := h.denied f hf hdenied
      have hsame : db.KnownIgnored f ↔ s.db.KnownIgnored f := knownIgnored_congr (by rw [hignored])
      refine ⟨?_, fun hknown => hunknown (hsame.mp hknown)⟩
      rcases hfind f.path with ⟨row, hrow, hpath, -⟩ | ⟨-, hsame⟩
      · obtain ⟨f', hf', hpath', -, hopen⟩ := h.staged row ((hrows row).mp hrow)
        rw [hplan.eq_of_path hf' hf (hpath'.symm.trans hpath)] at hopen
        exact absurd hdenied hopen
      · exact hsame.trans htree
    · obtain ⟨htree, hentry⟩ := h.others p hp
      refine ⟨?_, (congrArg (fun t => Table.find? t p) hignored).trans hentry⟩
      rcases hfind p with ⟨row, hrow, hpath, -⟩ | ⟨-, hsame⟩
      · obtain ⟨f, hf, hpath', -⟩ := h.staged row ((hrows row).mp hrow)
        exact absurd (hpath'.symm.trans hpath) (hp f hf)
      · exact hsame.trans htree

omit [Gitignore] in
/-- A scan that misses no row changes no row, and leaves the daemon idle if it plans no read. -/
theorem step_applyScan_of_none_missing (hmissing : s.db.missingPrior result = [])
    (hstep : s.step (.applyScan result now) = some s') :
    Unchanged s.db s'.db ∧ (s'.active = .idle ↔ s.db.plannedReads result = []) := by
  have hdisk := (served_of_step hstep).diskStep
  cases served_of_step hstep with
  | applyScan hidle happly =>
    refine ⟨unchanged_of_applyScan happly hmissing, ?_⟩
    cases hdisk with
    | shared isShared disk active' => cases isShared
    | scan idle disk active' =>
      rw [active']
      split_ifs with hnil
      · exact iff_of_true rfl hnil
      · exact iff_of_false nofun hnil

/-- An import settles a disk that stays as it is: whatever batches come in between, after it the scan
that it came from drifts at exactly the files that could not be read for lack of a permission, and a scan
that is applied then takes nothing as deleted and leaves the daemon idle if there are none of them. -/
theorem import_settles_scan (h : (daemonMachine D writer).Reached t)
    (hrules : (IgnoreRules.load : Fio Disk _).exec disk = (.ok rules, disk))
    (hscan : (scan fuel scope : Fio Disk _).exec disk = (.ok (some result), disk'))
    (hstep : t.step (.applyScan result now) = some t₁) (hactive : t₁.active = .importing active)
    (hrun : (daemonMachine D writer).exec t₁ (requests.map .serve) = some s)
    (himports : ∀ request ∈ requests, request.Imports disk active)
    (hcommit : s.step (.commitImportEpoch later) = some s') :
    (∀ f, f ∈ s'.db.plannedReads result ↔ f ∈ t.db.plannedReads result ∧ disk.Denied f) ∧
    ∀ (fuel₂ : Nat) (result₂ : ScanResult) (disk₂ : Disk),
      (scan fuel₂ scope : Fio Disk _).exec disk = (.ok (some result₂), disk₂) →
      ∀ (time : Timestamp) (s₂ : SemanticActor D), s'.step (.applyScan result₂ time) = some s₂ →
        Unchanged s'.db s₂.db ∧
          (s₂.active = .idle ↔ ∀ f ∈ t.db.plannedReads result, ¬disk.Denied f) := by
  obtain ⟨hplan, hstart⟩ := importProgress_of_applyScan h hrules hscan hstep hactive
  obtain ⟨completed, hprogress⟩ := hstart.run hplan hrun himports
  have hreached : (daemonMachine D writer).Reached s :=
    Machine.Reachable.exec (h.step (a := .serve (.applyScan result now)) trivial hstep)
      (Machine.meets_true _ _) hrun
  obtain ⟨-, hopen, hdenied, hothers⟩ := hprogress.commit hplan hreached hcommit
  obtain ⟨output, happly⟩ := exists_applyScan hstep
  obtain ⟨hscope, -⟩ := ignoredFiles_of_applyScan happly
  have hreads : ∀ f, f ∈ s'.db.plannedReads result ↔
      f ∈ t.db.plannedReads result ∧ disk.Denied f := by
    intro f
    rw [mem_plannedReads hscope]
    constructor
    · rintro ⟨hfile, hdrifted, hunknown, -⟩
      by_cases hplanned : f ∈ t.db.plannedReads result
      · refine ⟨hplanned, ?_⟩
        by_contra hread
        exact (hopen f hplanned hread).elim (fun h => h hdrifted) hunknown
      · have hother : ∀ g ∈ t.db.plannedReads result, g.path ≠ f.path := fun g hg hpath =>
          hplanned (eq_of_path_eq ((mem_plannedReads hscope).mp hg).1 hfile hpath ▸ hg)
        obtain ⟨htree, hentry⟩ := hothers f.path hother
        rw [drifted_congr htree] at hdrifted
        rw [knownIgnored_congr hentry] at hunknown
        exact absurd hdrifted ((accounted_of_applyScan happly hfile hplanned).resolve_right hunknown)
    · rintro ⟨hplanned, hread⟩
      obtain ⟨hfile, hdrifted, -, hsize⟩ := (mem_plannedReads hscope).mp hplanned
      obtain ⟨htree, hunknown⟩ := hdenied f hplanned hread
      refine ⟨hfile, ?_, hunknown, hsize⟩
      rwa [drifted_congr htree, drifted_congr (find?_priorTree_of_applyScan happly hfile)]
  -- The rows at the paths where no file was found are those that the first scan left.
  have hmissing : s'.db.missingPrior result = [] := by
    rw [List.eq_nil_iff_forall_not_mem]
    intro row hrow
    obtain ⟨hmem, hlive, hin, hnone⟩ := mem_missingPrior_iff.mp hrow
    have hfind := (hothers row.path fun f hf => hnone f ((mem_plannedReads hscope).mp hf).1).1
    rw [Table.find?_key hmem] at hfind
    have hold : row ∈ t₁.db.priorTree := Table.mem_of_find? hfind.symm
    have htree : t₁.db.priorTree = tombstoneAll t.db.priorTree
        ((t.db.missingPrior result).map PriorTreeRow.path) now := by
      rw [(runs_applyScan happly).1.eq]
    rw [htree, mem_tombstoneAll_missingPrior] at hold
    rcases hold with ⟨hmem₀, hkept⟩ | ⟨row₀, -, rfl⟩
    · exact hkept ⟨hmem₀, hlive, hin, hnone⟩
    · cases hlive
  refine ⟨hreads, fun fuel₂ result₂ disk₂ hscan₂ time s₂ hstep₂ => ?_⟩
  have hsame := scan_unique hrules hscan hscan₂
  subst hsame
  obtain ⟨hunchanged, hidle⟩ := step_applyScan_of_none_missing hmissing hstep₂
  refine ⟨hunchanged, hidle.trans ?_⟩
  rw [List.eq_nil_iff_forall_not_mem]
  simp only [hreads, not_and]

end Cycle

/-! ## A file that may not be read -/

open Snapshots NoPatterns

/-- A sync root with a text, and with a file that the daemon may not read. -/
def deniedDisk : Disk where
  entries := ⟨[⟨syncRoot, .directory true true⟩,
    ⟨syncRoot ++ [digitName 3], .file (fileStat 8 2 0) [104, 105] true⟩,
    ⟨syncRoot ++ [digitName 4], .file (fileStat 9 2 0) [104, 105] false⟩], by decide⟩
  root := syncRoot

/-- What the full scan finds. -/
def deniedScan : ScanResult := scanOf .full [(rootFile 3, fileStat 8 2 0), (rootFile 4, fileStat 9 2 0)]

/-- The reads of the import, with a read of the outbox in between. -/
def deniedRequests : List (SemanticRequest Doc) :=
  [.commitImportAction (applyImportAction ⟨⟨0, 1⟩, .read (rootFile 4) (.statOnly (fileStat 9 2 0))⟩
      deniedDisk).1 2 [13] [14],
    .readOutbox 5,
    .commitImportAction (applyImportAction ⟨⟨0, 0⟩, .read (rootFile 3) (.statOnly (fileStat 8 2 0))⟩
      deniedDisk).1 2 [11] [12]]

theorem scan_full_deniedDisk : (scan 9 .full : Fio Disk _).exec deniedDisk =
    (.ok (some deniedScan), deniedDisk) := by
  have hload : (IgnoreRules.load : Fio Disk _).exec deniedDisk = (.ok ⟨()⟩, deniedDisk) := rfl
  have hscanned : scanned ((scan 9 .full).exec deniedDisk) = some deniedScan.tree.entries := by
    decide +kernel
  exact exec_scan_of_scanned hload hscanned rfl rfl

/-- `import_settles_scan` there: only the file that may not be read is to be read again. -/
theorem import_settles_scan_deniedDisk : ∃ t s s' : SemanticActor Doc,
    (SemanticActor.start (Db.initialized Doc [0, 0, 0, 1] 0)).step (.applyScan deniedScan 1) = some t ∧
      (daemonMachine Doc [0, 0, 0, 1]).exec t (deniedRequests.map .serve) = some s ∧
      s.step (.commitImportEpoch 3) = some s' ∧
      ∀ f, f ∈ s'.db.plannedReads deniedScan ↔
        f ∈ (SemanticActor.start (Db.initialized Doc [0, 0, 0, 1] 0)).db.plannedReads deniedScan ∧
          deniedDisk.Denied f := by
  have hrun : ((SemanticActor.start (Db.initialized Doc [0, 0, 0, 1] 0)).step
      (.applyScan deniedScan 1)).any (fun t => t.active.importing?.any fun active =>
        decide (active.expected = [⟨⟨0, 0⟩, .read (rootFile 3) (.statOnly (fileStat 8 2 0))⟩,
          ⟨⟨0, 1⟩, .read (rootFile 4) (.statOnly (fileStat 9 2 0))⟩]) &&
        ((daemonMachine Doc [0, 0, 0, 1]).exec t (deniedRequests.map .serve)).any fun s =>
          (s.step (.commitImportEpoch 3)).isSome) = true := by decide +kernel
  obtain ⟨t, ht, hrun⟩ := (Option.any_eq_true _ _).mp hrun
  obtain ⟨active, himporting, hrun⟩ := (Option.any_eq_true _ _).mp hrun
  obtain ⟨hexpected, hrun⟩ := Bool.and_eq_true_iff.mp hrun
  replace hexpected := of_decide_eq_true hexpected
  obtain ⟨s, hs, hcommit⟩ := Machine.exists_exec hrun
  obtain ⟨s', hcommit⟩ := Option.isSome_iff_exists.mp hcommit
  refine ⟨t, s, s', ht, hs, hcommit, (import_settles_scan (Machine.Reachable.init rfl) rfl
    scan_full_deniedDisk ht (ActiveEpoch.importing?_eq_some_iff.mp himporting) hs ?_ hcommit).1⟩
  intro request hrequest
  simp only [deniedRequests, List.mem_cons, List.not_mem_nil, or_false] at hrequest
  rcases hrequest with rfl | rfl | rfl
  · exact ⟨_, by rw [hexpected]; exact List.mem_cons_of_mem _ List.mem_cons_self, rfl⟩
  · trivial
  · exact ⟨_, by rw [hexpected]; exact List.mem_cons_self, rfl⟩

end Opbox
