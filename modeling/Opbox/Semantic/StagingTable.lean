import Opbox.Semantic.ImportRun

/-!
# When a file can be staged

The staging table allows an action, a path, an object and a claim once within an epoch.  Actions and
paths are never used twice: every staged row belongs to a completed action and has its path, and the
plan of a scan reads a path once.  So a read that comes in is refused exactly if the object it takes
over, or the claim that was generated for it, is staged already.
-/

namespace Opbox

variable {D : Type}

/-- A row can be inserted exactly if its action, path, object and claim are new in its epoch. -/
theorem ImportStagedFiles.exists_insert_iff {t : ImportStagedFiles D} {row : StagedRow D} :
    (∃ t', t.insert row = .ok t') ↔
      (row.importEpoch, row.actionSeq) ∉ (t.rows.map fun r => (r.importEpoch, r.actionSeq)) ∧
      (row.importEpoch, row.path) ∉ (t.rows.map fun r => (r.importEpoch, r.path)) ∧
      (row.importEpoch, row.objectId) ∉ (t.rows.map fun r => (r.importEpoch, r.objectId)) ∧
      (row.importEpoch, row.claimId) ∉ (t.rows.map fun r => (r.importEpoch, r.claimId)) := by
  unfold ImportStagedFiles.insert
  constructor
  · rintro ⟨t', h⟩
    split_ifs at h with hseq hpath hobject hclaim
    exact ⟨hseq, hpath, hobject, hclaim⟩
  · rintro ⟨hseq, hpath, hobject, hclaim⟩
    rw [dif_neg hseq, dif_neg hpath, dif_neg hobject, dif_neg hclaim]
    exact ⟨_, rfl⟩

/-- The staged rows belong to the plan of the active epoch. -/
structure StagedByPlan (s : SemanticActor D) : Prop where
  /-- The plan of a running daemon reads a path once. -/
  planned : ∀ active, s.active = .importing active → active.kind = .sync →
    ∃ files, active.expected = readActions active.epoch files ∧
      files.Pairwise fun f f' => f.path ≠ f'.path
  /-- A staged row belongs to a completed action and has its path. -/
  rows : ∀ active, s.active = .importing active → ∀ row ∈ s.db.importStagedFiles.rows,
    ⟨row.importEpoch, row.actionSeq⟩ ∈ active.completed ∧
      ∃ action ∈ active.expected, action.id = ⟨row.importEpoch, row.actionSeq⟩ ∧
        action.kind.path = row.path

section Plan

variable [TextCrdt D] [CharDiff] [Xxh3] [DecidableEq D] {s s' : SemanticActor D}
  {writer : DaemonWriterId}

omit [TextCrdt D] [CharDiff] [Xxh3] [DecidableEq D] in
theorem stagedByPlan_of_not_importing (h : ∀ active, s.active ≠ .importing active) :
    StagedByPlan s where
  planned active hactive := absurd hactive (h active)
  rows active hactive := absurd hactive (h active)

omit [TextCrdt D] [CharDiff] [Xxh3] [DecidableEq D] in
/-- Another result leaves the rows and the plan as they are. -/
theorem StagedByPlan.completed (h : StagedByPlan s) {active : ActiveImportEpoch}
    {id : ImportActionId} (hactive : s.active = .importing active)
    (hactive' : s'.active = .importing { active with completed := id :: active.completed })
    (hrows : s'.db.importStagedFiles.rows = s.db.importStagedFiles.rows) : StagedByPlan s' where
  planned active' h' := by
    rw [hactive'] at h'
    cases h'
    exact h.planned active hactive
  rows active' h' row hrow := by
    rw [hactive'] at h'
    cases h'
    rw [hrows] at hrow
    obtain ⟨hcompleted, haction⟩ := h.rows active hactive row hrow
    exact ⟨List.mem_cons_of_mem _ hcompleted, haction⟩

/-- Every request keeps the staged rows in the plan. -/
theorem StagedByPlan.served {request : SemanticRequest D} (h : StagedByPlan s)
    (htidy : StagingTidy s) (hserved : Served s request s') : StagedByPlan s' := by
  cases hserved.diskStep with
  | shared isShared disk active' =>
    have hrows : s'.db.importStagedFiles = s.db.importStagedFiles :=
      congrArg DiskTables.importStagedFiles disk
    exact ⟨active' ▸ h.planned, by rw [active', hrows]; exact h.rows⟩
  | initScan files found disk active' idle =>
    have hnil := htidy.staged_eq_nil (by rw [idle]; nofun)
    have hrows : s'.db.importStagedFiles = s.db.importStagedFiles :=
      congrArg DiskTables.importStagedFiles disk
    refine ⟨fun active hactive hkind => ?_, fun active hactive row hrow => ?_⟩
    · rw [active'] at hactive
      cases hactive
      cases hkind
    · rw [hrows, hnil] at hrow
      cases hrow
  | @scan scan now idle disk active' =>
    have hnil := htidy.staged_eq_nil (by rw [idle]; nofun)
    have hrows : s'.db.importStagedFiles = s.db.importStagedFiles :=
      congrArg DiskTables.importStagedFiles disk
    refine ⟨fun active hactive _ => ?_, fun active hactive row hrow => ?_⟩
    · rw [active'] at hactive
      split_ifs at hactive
      cases hactive
      exact ⟨_, rfl, (pairwise_drift s.db scan).filter _⟩
    · rw [hrows, hnil] at hrow
      cases hrow
  | @stage result now objectId claimId active context plan rows importing expected decided inserted
      disk active' =>
    obtain ⟨action, haction, hid, rfl⟩ := action_of_context expected
    obtain ⟨fp, -, -, hread, -, -, hresult, -⟩ := stage_of_prepareImportActionStage decided
    have hkind : action.kind = .read plan.path fp := hread
    have hplanId : result.actionId = plan.actionId := by
      rw [hresult]
      rfl
    refine ⟨fun active₁ h₁ => ?_, fun active₁ h₁ row hrow => ?_⟩
    · rw [active'] at h₁
      cases h₁
      exact h.planned active importing
    · rw [active'] at h₁
      cases h₁
      rw [show s'.db.importStagedFiles = rows from congrArg DiskTables.importStagedFiles disk,
        ImportStagedFiles.insert_eq_ok inserted, List.mem_append, List.mem_singleton] at hrow
      rcases hrow with hrow | rfl
      · obtain ⟨hcompleted, hplanned⟩ := h.rows active importing row hrow
        exact ⟨List.mem_cons_of_mem _ hcompleted, hplanned⟩
      · refine ⟨List.mem_cons.mpr (.inl hplanId.symm), action, haction, hid.trans hplanId, ?_⟩
        rw [hkind]
        rfl
  | realign active context plan stat hash row doc importing expected decided fingerprint realignment
      disk active' =>
    exact h.completed importing active' (congrArg (fun t : DiskTables D =>
      t.importStagedFiles.rows) disk)
  | skip active context importing expected decided disk active' =>
    exact h.completed importing active' (congrArg (fun t : DiskTables D =>
      t.importStagedFiles.rows) disk)
  | commit active importing disk active' =>
    exact stagedByPlan_of_not_importing (by rw [active']; nofun)
  | plan idle disk active' =>
    refine stagedByPlan_of_not_importing fun active hactive => ?_
    rw [active'] at hactive
    split_ifs at hactive
  | record active context projecting expected disk active' =>
    exact stagedByPlan_of_not_importing (by rw [active']; nofun)
  | drop active projecting disk active' =>
    exact stagedByPlan_of_not_importing (by rw [active']; nofun)
  | project active projecting run active' =>
    exact stagedByPlan_of_not_importing (by rw [active']; nofun)

/-- In every run the staged rows belong to the plan of the active epoch. -/
theorem stagedByPlan_of_reached (h : (daemonMachine D writer).Reached s) : StagedByPlan s := by
  refine h.invariant ?_ ?_
  · rintro s rfl
    exact stagedByPlan_of_not_importing nofun
  · intro s action s' hs hplan _ hstep
    cases action with
    | serve request => exact hplan.served (stagingTidy_of_reached hs) (served_of_step hstep)
    | restart =>
      cases hstep
      exact stagedByPlan_of_not_importing nofun

/-! ## When a read is accepted -/

variable {active : ActiveImportEpoch} {result : ImportActionResult} {context : ImportActionContext}
  {plan : ImportActionStagePlan} {now : Timestamp} {objectId : ObjectId} {claimId : NamespaceClaimId}

omit [TextCrdt D] [CharDiff] [Xxh3] [DecidableEq D] in
/-- No row is staged for the action or at the path of a read that is still expected. -/
theorem StagedByPlan.row_ne (h : StagedByPlan s) (hactive : s.active = .importing active)
    (hkind : active.kind = .sync) (hcontext : active.context result = some context)
    (hplan : prepareImportActionStage context result = .ok (.stage plan)) {row : StagedRow D}
    (hrow : row ∈ s.db.importStagedFiles.rows) :
    ⟨row.importEpoch, row.actionSeq⟩ ≠ plan.actionId ∧ row.path ≠ plan.path := by
  obtain ⟨action, haction, hid, rfl⟩ := action_of_context hcontext
  obtain ⟨fp, -, -, hread, -, -, hresult, -⟩ := stage_of_prepareImportActionStage hplan
  have hread' : action.kind = .read plan.path fp := hread
  have hplanId : result.actionId = plan.actionId := by
    rw [hresult]
    rfl
  have hopen : result.actionId ∉ active.completed := by
    intro hcompleted
    rw [ActiveImportEpoch.context, if_pos hcompleted] at hcontext
    cases hcontext
  obtain ⟨hcompleted, action', haction', hid', hpath'⟩ := h.rows active hactive row hrow
  refine ⟨fun heq => ?_, fun heq => ?_⟩
  · rw [heq, ← hplanId] at hcompleted
    exact hopen hcompleted
  · obtain ⟨files, hexpected, hpairwise⟩ := h.planned active hactive hkind
    have hpaths : (active.expected.map fun action => action.kind.path).Nodup := by
      rw [hexpected, paths_readActions]
      exact List.pairwise_map.mpr hpairwise
    have hsame : action' = action := by
      refine List.inj_on_of_nodup_map hpaths haction' haction ?_
      rw [hpath', heq, hread']
      rfl
    rw [hsame, hid] at hid'
    rw [← hid'] at hcompleted
    exact hopen hcompleted

omit [Xxh3] in
/-- A read that is staged inserts its row. -/
theorem runs_commitImportAction_of_insert {db : Db D} {rows : ImportStagedFiles D}
    {columns : FileStatFingerprint × FileHash} (hsync : plan.epochKind = .sync)
    (hplan : prepareImportActionStage context result = .ok (.stage plan))
    (hcolumns : fingerprintColumns "import_staged_files" plan.fingerprint = .ok columns)
    (hnone : db.realignment plan (db.appliedIntent plan.path columns.1 columns.2) = none)
    (hinsert : db.importStagedFiles.insert
      (stagedRow plan (db.stagedTextImport plan now objectId claimId)) = .ok rows) :
    Runs (commitImportAction context result now objectId claimId) db result.actionId
      { db with
        importStagedFiles := rows
        ignoredFiles := db.ignoredFiles.deleteWhere fun r => decide (r.path = plan.path) } := by
  have hid := actionId_of_prepareImportActionStage hplan
  have hselect : Runs (selectAppliedProjectionWriteIntent (D := D) plan.path plan.fingerprint) db
      (db.appliedIntent plan.path columns.1 columns.2) db := by
    simp only [selectAppliedProjectionWriteIntent, Runs.bind_iff, Runs.liftExcept_iff, Runs.get_iff,
      Runs.pure_iff]
    exact ⟨columns, db, ⟨fingerprintColumns_table hcolumns, rfl⟩, db, db, ⟨rfl, rfl⟩, rfl, rfl⟩
  have hrealign : Runs (realignTx plan now) db false db := by
    unfold realignTx realignPriorFromWriteIntentTx
    rw [hsync]
    simp only [Runs.bind_iff, Runs.get_iff]
    refine ⟨_, db, hselect, db, db, ⟨rfl, rfl⟩, ?_⟩
    rw [hnone, Runs.pure_iff]
    exact ⟨rfl, rfl⟩
  have hrow : Runs (insertImportStagedFile
      (stagedRow plan (db.stagedTextImport plan now objectId claimId))) db ⟨⟩
      { db with importStagedFiles := rows } := by
    simp only [insertImportStagedFile, Runs.bind_iff, Runs.liftExcept_iff, Runs.get_iff,
      runs_set_iff]
    exact ⟨columns, db, ⟨hcolumns, rfl⟩, db, db, ⟨rfl, rfl⟩, rows, db, ⟨hinsert, rfl⟩, rfl⟩
  simp only [commitImportAction, stageImportActionTx, Runs.bind_iff, Runs.liftExcept_iff]
  refine ⟨.stage plan, db, ⟨hplan, rfl⟩, ?_⟩
  simp only [deleteIgnoredFile, Runs.bind_iff, Runs.modify_iff, Runs.pure_iff]
  refine ⟨⟨⟩, { db with importStagedFiles := rows }, ⟨false, db, hrealign, ?_⟩, ⟨⟩, _, rfl, hid, rfl⟩
  rw [if_neg Bool.false_ne_true, Runs.bind_iff]
  exact ⟨db, db, Runs.get_iff.mpr ⟨rfl, rfl⟩, hrow⟩

/-- A read that is not realigned, and whose stat fits the columns, is accepted exactly if neither the
object it is staged with nor its claim is staged already. -/
theorem exists_stage_iff (h : (daemonMachine D writer).Reached s)
    (hactive : s.active = .importing active) (hkind : active.kind = .sync)
    (hcontext : active.context result = some context)
    (hplan : prepareImportActionStage context result = .ok (.stage plan))
    {columns : FileStatFingerprint × FileHash}
    (hcolumns : fingerprintColumns "import_staged_files" plan.fingerprint = .ok columns)
    (hnone : s.realignedTo (.commitImportAction result now objectId claimId) = none) :
    (∃ s', s.step (.commitImportAction result now objectId claimId) = some s') ↔
      ∀ row ∈ s.db.importStagedFiles.rows,
        row.objectId ≠ (s.db.stagedTextImport plan now objectId claimId).objectId ∧
        row.claimId ≠ (s.db.stagedTextImport plan now objectId claimId).claimId := by
  have htidy := stagingTidy_of_reached h
  have hepoch : plan.actionId.epoch = active.epoch := by
    have hresult := htidy.epoch_of_context hactive hcontext
    have hid : (ImportActionStageDecision.stage plan).actionId = result.actionId :=
      actionId_of_prepareImportActionStage hplan
    rw [← hid] at hresult
    exact hresult
  constructor
  · rintro ⟨s', hstep⟩ row hrow
    obtain ⟨hrows, -⟩ := staged_of_step hactive hkind hcontext hplan hnone hstep
    have hrowEpoch := htidy.epoch_eq hactive hrow
    have hobjects := s'.db.importStagedFiles.objects_nodup
    have hclaims := s'.db.importStagedFiles.claims_nodup
    rw [hrows, List.map_append, List.nodup_append] at hobjects hclaims
    refine ⟨fun heq => ?_, fun heq => ?_⟩
    · exact hobjects.2.2 _ (List.mem_map_of_mem hrow) _ (List.mem_map_of_mem List.mem_cons_self)
        (Prod.ext (hrowEpoch.trans hepoch.symm) heq)
    · exact hclaims.2.2 _ (List.mem_map_of_mem hrow) _ (List.mem_map_of_mem List.mem_cons_self)
        (Prod.ext (hrowEpoch.trans hepoch.symm) heq)
  · intro hfree
    have hne := fun row (hrow : row ∈ s.db.importStagedFiles.rows) =>
      (stagedByPlan_of_reached h).row_ne hactive hkind hcontext hplan hrow
    obtain ⟨rows, hinsert⟩ : ∃ rows, s.db.importStagedFiles.insert
        (stagedRow plan (s.db.stagedTextImport plan now objectId claimId)) = .ok rows := by
      refine ImportStagedFiles.exists_insert_iff.mpr ⟨?_, ?_, ?_, ?_⟩
      · rintro hmem
        obtain ⟨row, hrow, heq⟩ := List.mem_map.mp hmem
        obtain ⟨he, hseq⟩ := Prod.mk.inj heq
        refine (hne row hrow).1 ?_
        rw [he, hseq]
        rfl
      · rintro hmem
        obtain ⟨row, hrow, heq⟩ := List.mem_map.mp hmem
        exact (hne row hrow).2 (Prod.mk.inj heq).2
      · rintro hmem
        obtain ⟨row, hrow, heq⟩ := List.mem_map.mp hmem
        exact (hfree row hrow).1 (Prod.mk.inj heq).2
      · rintro hmem
        obtain ⟨row, hrow, heq⟩ := List.mem_map.mp hmem
        exact (hfree row hrow).2 (Prod.mk.inj heq).2
    have hsync : plan.epochKind = .sync := by
      obtain ⟨-, -, -, -, -, hplanKind, -⟩ := stage_of_prepareImportActionStage hplan
      obtain ⟨action, -, -, rfl⟩ := action_of_context hcontext
      exact hplanKind.trans hkind
    rw [realignedTo_of_stage hactive hkind hcontext hplan (eq_of_fingerprintColumns hcolumns),
      Option.map_eq_none_iff] at hnone
    have hrun := runs_commitImportAction_of_insert hsync hplan hcolumns hnone hinsert
    refine Option.isSome_iff_exists.mp ?_
    unfold SemanticActor.step
    rw [hactive]
    dsimp only
    rw [hcontext, Option.bind_some, attempt_eq_some_iff.mpr hrun]
    rfl

end Plan

end Opbox
