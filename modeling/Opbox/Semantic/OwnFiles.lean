import Opbox.Crdt.PathConflicts
import Opbox.Fs.Ignore
import Opbox.Semantic.DiskStep

/-!
# The daemon's own files

Scans leave out the metadata directory and the temporary files of projections, so a daemon publishes
no claim on them.  Nothing checks the claims that come from the log, though: a claim asks for any
path, and its materialization is planned and written like any other.  A conflict name is never one
of the daemon's own files unless the requested name is.  So a plan touches a file of the daemon's own
exactly if an active claim asks for one, provided that no plan before it was made while one did.
-/

namespace Opbox

/-! ## Conflict names -/

/-- What does not contain a separator lies before or behind it. -/
theorem infix_of_infix_append_cons {α : Type} {needle a b : List α} {c : α} (hc : c ∉ needle)
    (h : needle <:+: a ++ c :: b) : needle <:+: a ∨ needle <:+: b := by
  obtain ⟨s, t, heq⟩ := h
  rcases List.append_eq_append_iff.mp heq with ⟨as, ha, -⟩ | ⟨cs, hneedle, hb⟩
  · exact .inl ⟨s, as, ha.symm⟩
  · cases cs with
    | nil =>
      rw [List.append_nil] at hneedle
      exact .inl ⟨s, [], by rw [List.append_nil, hneedle]⟩
    | cons d cs =>
      obtain ⟨rfl, rfl⟩ := List.cons.inj hb
      rcases List.append_eq_append_iff.mp hneedle with ⟨as, -, has⟩ | ⟨ds, -, hds⟩
      · exact absurd (has ▸ List.mem_append_right _ List.mem_cons_self) hc
      · cases ds with
        | nil =>
          rw [List.nil_append] at hds
          exact absurd (hds ▸ List.mem_cons_self) hc
        | cons e ds =>
          obtain ⟨-, rfl⟩ := List.cons.inj hds
          exact .inr ⟨ds, t, rfl⟩

/-- A conflict name is reserved only if the requested name is. -/
theorem isHardIgnoredComponent_of_formatConflictName {name suffix : List Char} (hname : name ≠ [])
    (hsuffix : SuffixText suffix)
    (h : isHardIgnoredComponent (formatConflictName name suffix) = true) :
    isHardIgnoredComponent name = true := by
  have hsplit := append_splitFilenameForConflict name
  have hstem : (splitFilenameForConflict name).1 ≠ [] := by
    rcases splitFilenameForConflict_cases name with ⟨stem, ext, hne, -, -, heq⟩ | ⟨-, heq⟩
    · rw [heq]
      exact hne
    · rw [heq]
      exact hname
  rw [formatConflictName_eq] at h
  generalize splitFilenameForConflict name = parts at h hsplit hstem
  obtain ⟨stem, ext⟩ := parts
  have hopen : " (conflict ".toList = ' ' :: "(conflict ".toList := by decide +kernel
  have hclose : ")".toList = [')'] := by decide +kernel
  have hform : conflictStem stem suffix ++ ext =
      stem ++ ' ' :: (("(conflict ".toList ++ suffix) ++ ')' :: ext) := by
    rw [conflictStem, hopen, hclose]
    simp only [List.append_assoc, List.cons_append, List.nil_append]
  rw [hform, isHardIgnoredComponent_iff] at h
  rcases h with h | h
  · -- The metadata directory has no blank in its name.
    have hblank : ' ' ∈ metadataDirName := h ▸ List.mem_append_right _ List.mem_cons_self
    exact absurd hblank (by decide +kernel)
  · obtain ⟨hhead, hinfix⟩ := isProjectionTempComponent_iff.mp h
    refine isHardIgnoredComponent_iff.mpr (.inr (isProjectionTempComponent_iff.mpr ⟨?_, ?_⟩))
    · obtain ⟨c, cs, rfl⟩ := List.exists_cons_of_ne_nil hstem
      rw [← hsplit]
      exact hhead
    · rw [← hsplit]
      -- The mark of a temporary file has neither blank nor parenthesis, and starts with a dot.
      rcases infix_of_infix_append_cons (by decide +kernel) hinfix with hinfix | hinfix
      · exact hinfix.trans List.infix_append_left
      · rcases infix_of_infix_append_cons (by decide +kernel) hinfix with hinfix | hinfix
        · have hdot : '.' ∈ "(conflict ".toList ++ suffix := hinfix.subset (by decide +kernel)
          rcases List.mem_append.mp hdot with hdot | hdot
          · exact absurd hdot (by decide +kernel)
          · exact absurd rfl (hsuffix '.' hdot).2.1
        · exact hinfix.trans List.infix_append_right

/-- A claim is moved to a reserved path only if it asks for one. -/
theorem isHardIgnored_of_withSuffix {path q : RelativePath} {suffix : List Char}
    (hsuffix : SuffixText suffix) (hq : path.withSuffix suffix = .ok q)
    (h : isHardIgnored q = true) : isHardIgnored path = true := by
  rw [isHardIgnored, RelativePath.components_of_withFileName hq, List.any_append,
    Bool.or_eq_true, List.any_cons, List.any_nil, Bool.or_false] at h
  rw [isHardIgnored, ← path.dropLast_append_fileName, List.any_append, Bool.or_eq_true,
    List.any_cons, List.any_nil, Bool.or_false]
  exact h.imp_right
    (isHardIgnoredComponent_of_formatConflictName path.validComponent_fileName.1 hsuffix)

/-! ## Placements -/

/-- The suffixes given are those of the claims. -/
theorem SuffixesGiven.suffixText {requested : List RelativePath} {path : RelativePath}
    {given : List (List Char)} {claims : List MaterializationClaim}
    {suffixes : List (MaterializationClaim × List Char)}
    (h : SuffixesGiven requested path given claims suffixes)
    {entry : MaterializationClaim × List Char} (hentry : entry ∈ suffixes) :
    entry.1 ∈ claims ∧ SuffixText entry.2 := by
  induction h with
  | nil => cases hentry
  | cons own used free new rest ih =>
    rcases List.mem_cons.mp hentry with rfl | hentry
    · exact ⟨List.mem_cons_self, suffixText_of_mem (by rw [own]; simp)⟩
    · obtain ⟨hclaim, htext⟩ := ih hentry
      exact ⟨List.mem_cons_of_mem _ hclaim, htext⟩

/-- A reserved path is placed exactly if a claim asks for one. -/
theorem exists_hardIgnored_placement_iff {claims : List MaterializationClaim}
    {placements : List DesiredPlacement} (h : deriveVisiblePlacements claims = .ok placements) :
    (∃ p ∈ placements, isHardIgnored p.path = true) ↔ ∃ c ∈ claims, isHardIgnored c.path = true := by
  constructor
  · rintro ⟨p, hp, hignored⟩
    rcases (mem_map_deriveVisiblePlacements_iff h).mp ⟨p, hp, rfl⟩ with
      hrequested | ⟨path, suffixes, hgiven, entry, hentry, hq⟩
    · obtain ⟨c, hc, hpath⟩ := mem_requestedPaths.mp hrequested
      exact ⟨c, hc, hpath ▸ hignored⟩
    · obtain ⟨hclaim, htext⟩ := hgiven.suffixText hentry
      obtain ⟨hmem, hpath⟩ := mem_claimsAt.mp (List.mem_of_mem_tail hclaim)
      exact ⟨entry.1, hmem, hpath ▸ isHardIgnored_of_withSuffix htext hq hignored⟩
  · rintro ⟨c, hc, hignored⟩
    obtain ⟨p, hp, hpath⟩ := (mem_map_deriveVisiblePlacements_iff h).mpr
      (.inl (mem_requestedPaths.mpr ⟨c, hc, rfl⟩))
    exact ⟨p, hp, hpath ▸ hignored⟩

/-- Every active claim is among the claims that are placed. -/
theorem NamespaceDoc.exists_claim_of_active {doc : NamespaceDoc} {claims : List MaterializationClaim}
    (h : doc.materializationClaims = .ok claims) {claimId : NamespaceClaimId}
    (hid : claimId ∈ doc.activeClaimIds) : ∃ c ∈ claims, c.claimId = claimId := by
  unfold materializationClaims at h
  cases hm : (sortedList doc.activeClaimIds).mapM doc.materializationClaim with
  | error e => rw [hm] at h; cases h
  | ok cs =>
    rw [hm] at h
    cases h
    have hids : cs.map MaterializationClaim.claimId = (sortedList doc.activeClaimIds).map id :=
      map_eq_of_mapM_eq_ok hm fun id c hc => (materializationClaim_eq_ok.mp hc).1
    rw [List.map_id] at hids
    obtain ⟨c, hc, rfl⟩ := List.mem_map.mp (hids ▸ mem_sortedList.mpr hid)
    exact ⟨c, (List.mem_insertionSort _).mpr hc, rfl⟩

/-- An active claim of the document asks for a file of the daemon's own. -/
def NamespaceDoc.ClaimsOwnFile (doc : NamespaceDoc) : Prop :=
  ∃ id ∈ doc.activeClaimIds, (doc.getClaim id).any (fun record => isHardIgnored record.path) = true

instance (doc : NamespaceDoc) : Decidable doc.ClaimsOwnFile :=
  inferInstanceAs (Decidable (∃ id ∈ doc.activeClaimIds, _))

/-- The stable tree has a file of the daemon's own exactly if an active claim asks for one. -/
theorem TreeSynced.exists_hardIgnored_iff {tree : StableTree} {doc : NamespaceDoc}
    (h : TreeSynced tree doc) :
    (∃ row ∈ tree.table, isHardIgnored row.path = true) ↔ doc.ClaimsOwnFile := by
  obtain ⟨projection, hproj, hmem⟩ := h.mem_iff
  obtain ⟨-, claims, hclaims, hplaced⟩ := NamespaceDoc.materialize_eq_ok.mp hproj
  have hrows : (∃ row ∈ tree.table, isHardIgnored row.path = true) ↔
      ∃ p ∈ projection.placements, isHardIgnored p.path = true := by
    constructor
    · rintro ⟨row, hrow, hignored⟩
      obtain ⟨p, hp, hfile⟩ := (hmem row.file).mp ⟨row, hrow, rfl⟩
      have hpath : p.path = row.path := congrArg DesiredStableTreeFile.path hfile
      exact ⟨p, hp, by rw [hpath]; exact hignored⟩
    · rintro ⟨p, hp, hignored⟩
      obtain ⟨row, hrow, hfile⟩ := (hmem p.file).mpr ⟨p, hp, rfl⟩
      have hpath : row.path = p.path := congrArg DesiredStableTreeFile.path hfile
      exact ⟨row, hrow, by rw [hpath]; exact hignored⟩
  rw [hrows, exists_hardIgnored_placement_iff hplaced]
  constructor
  · rintro ⟨c, hc, hignored⟩
    obtain ⟨hactive, hclaim⟩ := (NamespaceDoc.mem_materializationClaims hclaims).mp hc
    have hrecord := (NamespaceDoc.materializationClaim_eq_ok.mp hclaim).2.1
    exact ⟨c.claimId, hactive, by rw [hrecord]; exact hignored⟩
  · rintro ⟨id, hactive, hany⟩
    obtain ⟨record, hrecord, hignored⟩ := (Option.any_eq_true _ _).mp hany
    obtain ⟨c, hc, hid⟩ := NamespaceDoc.exists_claim_of_active hclaims hactive
    obtain ⟨-, hclaim⟩ := (NamespaceDoc.mem_materializationClaims hclaims).mp hc
    have hrecord' := (NamespaceDoc.materializationClaim_eq_ok.mp hclaim).2.1
    rw [hid, hrecord, Option.some.injEq] at hrecord'
    exact ⟨c, hc, by rw [hrecord'] at hignored; exact hignored⟩

/-! ## Runs -/

variable {D : Type}

/-- What is committed of an epoch are its actions with their results. -/
theorem exists_action_of_mem_finish {active : ActiveProjectionEpoch D}
    {completed : CompletedProjectionAction D} (h : completed ∈ active.finish.actions) :
    ∃ action ∈ active.started.actions, ∃ result ∈ active.completed,
      completed = ⟨action.id, action.commitContext, result⟩ := by
  obtain ⟨action, haction, heq⟩ := List.mem_filterMap.mp h
  obtain ⟨result, hfind, rfl⟩ := Option.map_eq_some_iff.mp heq
  exact ⟨action, haction, result, List.mem_of_find?_eq_some hfind, rfl⟩

/-- What a result is committed with comes from an action of the plan. -/
theorem exists_action_of_context {active : ActiveImportEpoch} {result : ImportActionResult}
    {context : ImportActionContext} (h : active.context result = some context) :
    ∃ action ∈ active.expected, action.id = result.actionId ∧
      context = ⟨active.kind, action.kind⟩ := by
  unfold ActiveImportEpoch.context at h
  split_ifs at h
  obtain ⟨action, hfind, rfl⟩ := Option.map_eq_some_iff.mp h
  exact ⟨action, List.mem_of_find?_eq_some hfind, by simpa using List.find?_some hfind, rfl⟩

/-- A file is staged at the path of its action. -/
theorem path_of_prepareImportActionStage {active : ActiveImportEpoch} {result : ImportActionResult}
    {context : ImportActionContext} {plan : ImportActionStagePlan}
    (hcontext : active.context result = some context)
    (h : prepareImportActionStage context result = .ok (.stage plan)) :
    ∃ action ∈ active.expected, action.kind.path = plan.path := by
  obtain ⟨action, haction, -, rfl⟩ := exists_action_of_context hcontext
  obtain ⟨expected, -, -, hkind, -⟩ := stage_of_prepareImportActionStage h
  have hkind' : action.kind = .read plan.path expected := hkind
  exact ⟨action, haction, by rw [hkind']; rfl⟩

/-- A read action reads one of the files. -/
theorem path_of_mem_readActions {epoch : Nat} {files : List ObservedFile} {action : ImportAction}
    (h : action ∈ readActions epoch files) : ∃ f ∈ files, action.kind.path = f.path := by
  have hkind : action.kind ∈ (readActions epoch files).map ImportAction.kind := List.mem_map_of_mem h
  rw [kinds_readActions, List.mem_map] at hkind
  obtain ⟨f, hf, heq⟩ := hkind
  exact ⟨f, hf, by rw [← heq]; rfl⟩

section Runs

variable [TextCrdt D] [CharDiff] [Xxh3] [DecidableEq D] {s s' : SemanticActor D}
  {writer : DaemonWriterId}

omit [CharDiff] [Xxh3] in
/-- A plan works on the paths of rows, and commits to the path it works on. -/
theorem path_of_mem_plannedProjections {db : Db D} {planned : PlannedProjection D}
    (h : planned ∈ db.plannedProjections) : planned.2.path = planned.1.path ∧
      ((∃ row ∈ db.stableTree.table, row.path = planned.1.path) ∨
        ∃ prior ∈ db.priorTree, prior.path = planned.1.path) := by
  rcases List.mem_append.mp h with h | h
  · obtain ⟨⟨row, expected⟩, hrow, rfl⟩ := List.mem_map.mp h
    exact ⟨rfl, .inl ⟨row, (mem_rowsToWrite.mp hrow).1, rfl⟩⟩
  · obtain ⟨prior, hprior, rfl⟩ := List.mem_map.mp h
    exact ⟨rfl, .inr ⟨prior, (mem_rowsToDelete.mp hprior).1.1, rfl⟩⟩

/-- A step with a scan that leaves the daemon's own files out, as every scan does, or with a plan
made while no active claim asks for one. -/
def SparesOwnFiles (s : SemanticActor D) : DaemonAction D → Prop
  | .serve (.applyInitScan scan) => scan.SparesOwnFiles
  | .serve (.applyScan scan _) => scan.SparesOwnFiles
  | .serve .getNextWork => ¬s.db.stableNamespace.ClaimsOwnFile
  | _ => True

instance (s : SemanticActor D) : ∀ action : DaemonAction D, Decidable (SparesOwnFiles s action)
  | .serve (.applyInitScan scan) => inferInstanceAs (Decidable scan.SparesOwnFiles)
  | .serve (.applyScan scan _) => inferInstanceAs (Decidable scan.SparesOwnFiles)
  | .serve .getNextWork => inferInstanceAs (Decidable ¬s.db.stableNamespace.ClaimsOwnFile)
  | .serve (.commitImportAction ..) => isTrue trivial
  | .serve (.commitImportEpoch _) => isTrue trivial
  | .serve (.commitProjectionAction _) => isTrue trivial
  | .serve (.commitProjectionEpoch _ _) => isTrue trivial
  | .serve (.applySharedMessageBatch _) => isTrue trivial
  | .serve (.readOutbox _) => isTrue trivial
  | .serve .releaseOutbox => isTrue trivial
  | .serve (.trimOutbox _) => isTrue trivial
  | .restart => isTrue trivial

/-- No action of the active epoch works on a file of the daemon's own. -/
def ActiveEpoch.SparesOwnFiles : ActiveEpoch D → Prop
  | idle => True
  | importing active => ∀ action ∈ active.expected, isHardIgnored action.kind.path = false
  | projecting active => ∀ action ∈ active.started.actions,
    isHardIgnored action.kind.path = false ∧ action.commitContext.path = action.kind.path

/-- Nothing that was accepted, staged or planned is a file of the daemon's own. -/
structure OwnFilesSpared (s : SemanticActor D) : Prop where
  /-- The accepted files. -/
  prior : ∀ row ∈ s.db.priorTree, isHardIgnored row.path = false
  /-- The staged files. -/
  staged : ∀ row ∈ s.db.importStagedFiles.rows, isHardIgnored row.path = false
  /-- What is planned. -/
  active : s.active.SparesOwnFiles

omit [CharDiff] [Xxh3] in
/-- A plan spares the daemon's own files exactly if no active claim asks for one. -/
theorem plannedProjections_spare_iff (h : OwnFilesSpared s)
    (hsynced : TreeSynced s.db.stableTree s.db.stableNamespace) :
    (∀ planned ∈ s.db.plannedProjections, isHardIgnored planned.1.path = false) ↔
      ¬s.db.stableNamespace.ClaimsOwnFile := by
  rw [← hsynced.exists_hardIgnored_iff]
  constructor
  · rintro hplan ⟨row, hrow, hignored⟩
    -- No file was accepted at the path, so the row is to be written.
    have hnone : s.db.priorTreeLiveFile row.path = none := by
      rw [Option.eq_none_iff_forall_not_mem]
      intro prior hprior
      obtain ⟨hmem, hpath, -⟩ := Db.priorTreeLiveFile_eq_some_iff.mp hprior
      have hspared := h.prior prior hmem
      rw [hpath, hignored] at hspared
      cases hspared
    have hexpected : s.db.expectedBefore row = some .missing := by rw [Db.expectedBefore, hnone]
    have hspared := hplan (s.db.plannedWrite row .missing) (List.mem_append_left _
      (List.mem_map.mpr ⟨(row, .missing), mem_rowsToWrite.mpr ⟨hrow, hexpected⟩, rfl⟩))
    have hignored' : isHardIgnored row.path = false := hspared
    rw [hignored] at hignored'
    cases hignored'
  · intro hclean planned hplanned
    rcases (path_of_mem_plannedProjections hplanned).2 with ⟨row, hrow, hpath⟩ | ⟨prior, hprior, hpath⟩
    · rw [← hpath, Bool.eq_false_iff]
      exact fun hignored => hclean ⟨row, hrow, hignored⟩
    · rw [← hpath]
      exact h.prior prior hprior

omit [TextCrdt D] [CharDiff] [Xxh3] [DecidableEq D] in
/-- The same files are accepted and staged. -/
theorem OwnFilesSpared.of_disk (h : OwnFilesSpared s)
    (hprior : s'.db.disk.priorTree = s.db.disk.priorTree)
    (hstaged : s'.db.disk.importStagedFiles = s.db.disk.importStagedFiles)
    (hactive : s'.active.SparesOwnFiles) : OwnFilesSpared s' where
  prior := (show s'.db.priorTree = s.db.priorTree from hprior) ▸ h.prior
  staged := (show s'.db.importStagedFiles = s.db.importStagedFiles from hstaged) ▸ h.staged
  active := hactive

omit [TextCrdt D] [CharDiff] [Xxh3] [DecidableEq D] in
/-- The reads of a scan that spares the daemon's own files. -/
theorem reads_spared {scan : ScanResult} (hscan : scan.SparesOwnFiles) {files : List ObservedFile}
    (hfiles : files ⊆ scan.tree.files) (epoch : Nat) :
    ∀ action ∈ readActions epoch files, isHardIgnored action.kind.path = false := by
  intro action haction
  obtain ⟨f, hf, hpath⟩ := path_of_mem_readActions haction
  obtain ⟨e, he, hepath, -⟩ := mem_files_iff.mp (hfiles hf)
  rw [hpath, ← hepath]
  exact hscan e he

omit [TextCrdt D] [CharDiff] [Xxh3] [DecidableEq D] in
/-- Accepting the actions of a plan keeps to their paths. -/
theorem prior_spared_of_commit {actions : List (CompletedProjectionAction D)} {now : Timestamp}
    {db db' : Db D} (h : Runs (forM actions (commitCompletedProjectionActionTx now)) db ⟨⟩ db')
    (hactions : ∀ action ∈ actions, isHardIgnored action.commitContext.path = false)
    (hprior : ∀ row ∈ db.priorTree, isHardIgnored row.path = false) :
    ∀ row ∈ db'.priorTree, isHardIgnored row.path = false := by
  refine Runs.forM_preserves (fun t => ∀ row ∈ t.priorTree, isHardIgnored row.path = false) h hprior ?_
  intro action haction t t' ht hrun row hrow
  rcases runs_commitCompletedProjectionActionTx hrun with ⟨doc, stat, hash, -, -, rfl⟩ | ⟨-, rfl⟩
  · rcases Table.mem_put.mp hrow with rfl | ⟨hrow, -⟩
    · exact hactions action haction
    · exact ht row hrow
  · have hrow' : row ∈ tombstoneAt t.priorTree action.commitContext.path now := hrow
    rw [tombstoneAt, Table.mem_updateWhere] at hrow'
    obtain ⟨old, hold, rfl⟩ := hrow'
    split_ifs
    · exact ht old hold
    · exact ht old hold

omit [TextCrdt D] [CharDiff] [Xxh3] [DecidableEq D] in
/-- A file is staged or realigned at a path that is read. -/
theorem plan_spared {active : ActiveImportEpoch} {result : ImportActionResult}
    {context : ImportActionContext} {plan : ImportActionStagePlan}
    (hspared : (ActiveEpoch.importing (D := D) active).SparesOwnFiles)
    (hcontext : active.context result = some context)
    (h : prepareImportActionStage context result = .ok (.stage plan)) :
    isHardIgnored plan.path = false := by
  obtain ⟨action, haction, hpath⟩ := path_of_prepareImportActionStage hcontext h
  exact hpath ▸ hspared action haction

/-- A step that spares the daemon's own files keeps them spared. -/
theorem OwnFilesSpared.served {request : SemanticRequest D} (h : OwnFilesSpared s)
    (hsynced : TreeSynced s.db.stableTree s.db.stableNamespace)
    (hspares : SparesOwnFiles s (.serve request)) (hserved : Served s request s') :
    OwnFilesSpared s' := by
  have hactive := h.active
  cases hserved.diskStep with
  | shared isShared disk active => exact h.of_disk (by rw [disk]) (by rw [disk]) (active ▸ hactive)
  | initScan files found disk active =>
    refine h.of_disk (by rw [disk]) (by rw [disk]) ?_
    rw [active]
    exact reads_spared hspares found _
  | @scan scan now idle disk active =>
    refine ⟨?_, ?_, ?_⟩
    · intro row hrow
      rw [show s'.db.priorTree = _ from congrArg DiskTables.priorTree disk] at hrow
      rcases mem_tombstoneAll_missingPrior.mp hrow with ⟨hrow, -⟩ | ⟨old, hmissing, rfl⟩
      · exact h.prior row hrow
      · exact h.prior old hmissing.1
    · rw [show s'.db.importStagedFiles = _ from congrArg DiskTables.importStagedFiles disk]
      exact h.staged
    · rw [active]
      split_ifs
      · trivial
      · refine reads_spared hspares (fun f hf => ?_) _
        rcases List.mem_append.mp (List.mem_of_mem_filter hf) with hf | hf
        · exact (mem_changedFiles.mp hf).1
        · exact (mem_newFiles.mp hf).1
  | stage active context plan rows importing expected decided inserted disk active' =>
    rw [importing] at hactive
    refine ⟨?_, ?_, active' ▸ hactive⟩
    · rw [show s'.db.priorTree = s.db.priorTree from congrArg DiskTables.priorTree disk]
      exact h.prior
    · intro row hrow
      rw [show s'.db.importStagedFiles = rows from congrArg DiskTables.importStagedFiles disk,
        ImportStagedFiles.insert_eq_ok inserted, List.mem_append, List.mem_singleton] at hrow
      rcases hrow with hrow | rfl
      · exact h.staged row hrow
      · exact plan_spared hactive expected decided
  | realign active context plan stat hash row doc importing expected decided fingerprint realignment
      disk active' =>
    rw [importing] at hactive
    refine ⟨?_, ?_, active' ▸ hactive⟩
    · intro prior hprior
      rw [show s'.db.priorTree = _ from congrArg DiskTables.priorTree disk] at hprior
      rcases Table.mem_put.mp hprior with rfl | ⟨hprior, -⟩
      · exact plan_spared hactive expected decided
      · exact h.prior prior hprior
    · rw [show s'.db.importStagedFiles = _ from congrArg DiskTables.importStagedFiles disk]
      exact h.staged
  | skip active context importing expected decided disk active' =>
    rw [importing] at hactive
    exact h.of_disk (by rw [disk]) (by rw [disk]) (active' ▸ hactive)
  | commit active importing disk active' =>
    refine ⟨?_, ?_, active' ▸ trivial⟩
    · intro prior hprior
      rw [show s'.db.priorTree = _ from congrArg DiskTables.priorTree disk] at hprior
      rcases Table.mem_of_mem_putAll hprior with hprior | ⟨hprior, -⟩
      · obtain ⟨row, hrow, rfl⟩ := List.mem_map.mp hprior
        exact h.staged row (ImportStagedFiles.mem_ofEpoch.mp hrow).1
      · exact h.prior prior hprior
    · intro row hrow
      rw [show s'.db.importStagedFiles = _ from congrArg DiskTables.importStagedFiles disk] at hrow
      exact h.staged row (ImportStagedFiles.mem_deleteEpoch.mp hrow).1
  | plan idle disk active =>
    refine h.of_disk (by rw [disk]) (by rw [disk]) ?_
    rw [active]
    split_ifs
    · trivial
    · intro action haction
      have hplanned := (mem_projectionActions haction).1
      exact ⟨(plannedProjections_spare_iff h hsynced).mpr hspares _ hplanned,
        (path_of_mem_plannedProjections hplanned).1⟩
  | record active context projecting expected disk active' =>
    rw [projecting] at hactive
    have hprior : s'.db.disk.priorTree = s.db.disk.priorTree := by
      rcases disk with disk | ⟨_, _, -, -, disk⟩ <;> rw [disk]
    have hstaged : s'.db.disk.importStagedFiles = s.db.disk.importStagedFiles := by
      rcases disk with disk | ⟨_, _, -, -, disk⟩ <;> rw [disk]
    exact h.of_disk hprior hstaged (active' ▸ hactive)
  | drop active projecting disk active' =>
    exact h.of_disk (by rw [disk]) (by rw [disk]) (active' ▸ trivial)
  | project active projecting run active' =>
    rw [projecting] at hactive
    refine ⟨prior_spared_of_commit run (fun completed hcompleted => ?_) h.prior, ?_, active' ▸ trivial⟩
    · obtain ⟨action, haction, result, -, rfl⟩ := exists_action_of_mem_finish hcompleted
      obtain ⟨hspared, hpath⟩ := hactive action haction
      rw [← hpath] at hspared
      exact hspared
    · rw [runs_commitCompletedProjectionActions_frame run]
      exact h.staged

/-- In every run whose steps spare the daemon's own files, they stay spared. -/
theorem ownFilesSpared_of_reachable (h : (daemonMachine D writer).Reachable SparesOwnFiles s) :
    OwnFilesSpared s := by
  refine h.invariant ?_ ?_
  · rintro s rfl
    exact ⟨nofun, nofun, trivial⟩
  · intro s action s' hreach hs hspares hstep
    cases action with
    | serve request =>
      have hderived := treeDerived_of_reached (hreach.mono fun _ _ _ => trivial)
      exact hs.served hderived.treeSynced hspares (served_of_step hstep)
    | restart =>
      cases hstep
      exact ⟨hs.prior, nofun, trivial⟩

/-- In every run whose steps spare the daemon's own files, what is planned spares them, and so does
the next plan exactly if no active claim asks for one of them. -/
theorem plans_spare_own_files_iff (h : (daemonMachine D writer).Reachable SparesOwnFiles s) :
    (∀ kind ∈ s.active.plan, isHardIgnored kind.path = false) ∧
      ∀ s', s.step .getNextWork = some s' →
        ((∀ kind ∈ s'.active.plan, isHardIgnored kind.path = false) ↔
          ¬s.db.stableNamespace.ClaimsOwnFile) := by
  have hspared := ownFilesSpared_of_reachable h
  have hderived := treeDerived_of_reached (h.mono fun _ _ _ => trivial)
  refine ⟨?_, fun s' hstep => ?_⟩
  · have hactive := hspared.active
    intro kind hkind
    cases hcase : s.active with
    | projecting active =>
      rw [hcase] at hkind hactive
      obtain ⟨action, haction, rfl⟩ := List.mem_map.mp hkind
      exact (hactive action haction).1
    | idle => rw [hcase] at hkind; cases hkind
    | importing active => rw [hcase] at hkind; cases hkind
  · rw [← plannedProjections_spare_iff hspared hderived.treeSynced]
    have hidle : s.active = .idle := by
      cases (served_of_step hstep).diskStep with
      | shared isShared => cases isShared
      | plan idle => exact idle
    obtain ⟨s'', hstep', hplan, -⟩ := exists_getNextWork hidle
    rw [hstep] at hstep'
    cases hstep'
    rw [hplan, List.forall_mem_map]

end Runs

open Snapshots

/-- A file of the daemon's own: the configuration of the workspace. -/
def configFile : RelativePath :=
  ⟨[metadataDirName, "config.toml".toList], by simp, by decide +kernel⟩

/-- A daemon imports a file, and another daemon claims a path. -/
def claimedRun (path : RelativePath) : List (DaemonAction Doc) :=
  [.serve (.applyInitScan (scanOf .full [(rootFile 1, fileStat 7 2 0)])),
    .serve (.commitImportAction (.read ⟨0, 0⟩ (.completed (.read [104, 105]
      (.statAndContent (fileStat 7 2 0) [104, 105])))) 0 [1] [2]),
    .serve (.commitImportEpoch 0)] ++
  serveBatch (foreignBatch 0 [.namespaceUpdate (NamespaceDoc.mintedOps 77 0
    [.object [3] ⟨.text, [9]⟩, .claim [4] ⟨[3], path⟩])])

/-- Another daemon claims the configuration of the workspace, and its write is planned. -/
theorem own_file_is_planned : isHardIgnored configFile = true ∧ ∃ s s' : SemanticActor Doc,
    (daemonMachine Doc [0, 0, 0, 1]).exec (.start (Db.initialized Doc [0, 0, 0, 1] 0))
        (claimedRun configFile) = some s ∧
      s.step .getNextWork = some s' ∧ .writeFile configFile [] .missing ∈ s'.active.plan := by
  have hrun : ((daemonMachine Doc [0, 0, 0, 1]).exec
      (.start (Db.initialized Doc [0, 0, 0, 1] 0)) (claimedRun configFile)).any (fun s =>
        (s.step .getNextWork).any fun s' =>
          decide (.writeFile configFile [] .missing ∈ s'.active.plan)) = true := by decide +kernel
  obtain ⟨s, hs, hplan⟩ := Machine.exists_exec hrun
  obtain ⟨s', hstep, hplan⟩ := (Option.any_eq_true _ _).mp hplan
  exact ⟨by decide +kernel, s, s', hs, hstep, of_decide_eq_true hplan⟩

/-- `plans_spare_own_files_iff` where another daemon claims a file: its write is planned, and spares
the daemon's own files. -/
theorem plans_spare_own_files_claimedFile : ∃ s s' : SemanticActor Doc,
    (daemonMachine Doc [0, 0, 0, 1]).Reachable SparesOwnFiles s ∧
      s.step .getNextWork = some s' ∧ .writeFile (rootFile 2) [] .missing ∈ s'.active.plan ∧
      ∀ kind ∈ s'.active.plan, isHardIgnored kind.path = false := by
  have hrun : ((daemonMachine Doc [0, 0, 0, 1]).exec
      (.start (Db.initialized Doc [0, 0, 0, 1] 0)) (claimedRun (rootFile 2))).any (fun s =>
        decide (¬s.db.stableNamespace.ClaimsOwnFile) && (s.step .getNextWork).any fun s' =>
          decide (.writeFile (rootFile 2) [] .missing ∈ s'.active.plan)) = true := by decide +kernel
  have hmeets : (daemonMachine Doc [0, 0, 0, 1]).Meets SparesOwnFiles
      (.start (Db.initialized Doc [0, 0, 0, 1] 0)) (claimedRun (rootFile 2)) := by decide +kernel
  obtain ⟨s, hs, hplan⟩ := Machine.exists_exec hrun
  obtain ⟨hclean, hplan⟩ := (Bool.and_eq_true_iff).mp hplan
  obtain ⟨s', hstep, hplan⟩ := (Option.any_eq_true _ _).mp hplan
  have hreach : (daemonMachine Doc [0, 0, 0, 1]).Reachable SparesOwnFiles s :=
    Machine.Reachable.exec (.init rfl) hmeets hs
  exact ⟨s, s', hreach, hstep, of_decide_eq_true hplan,
    ((plans_spare_own_files_iff hreach).2 s' hstep).mpr (of_decide_eq_true hclean)⟩

end Opbox
