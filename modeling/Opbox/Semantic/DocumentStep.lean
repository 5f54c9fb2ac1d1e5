import Opbox.Semantic.Runs

/-!
# What a request does to the documents

The namespaces, the text documents and the documents staged or planned for later change in a few
ways only: a local mutation mints operations on the prior documents and merges them into the stable
ones, a realignment takes over a stable document, a file is staged, a projection is planned or
committed, a batch is merged.  `DocumentStep` lists them, and the invariants about documents are
derived from it.
-/

namespace Opbox

variable {D : Type} [TextCrdt D]

open TextCrdt

/-- Rows are staged under the active import epoch only, and so are its actions numbered. -/
structure StagingTidy (s : SemanticActor D) : Prop where
  /-- The epoch of a staged row. -/
  staged : ∀ row ∈ s.db.importStagedFiles.rows,
    ∃ active, s.active = .importing active ∧ row.importEpoch = active.epoch
  /-- The epoch of an action. -/
  expected : ∀ active, s.active = .importing active →
    ∀ action ∈ active.expected, action.id.epoch = active.epoch

/-- The operations a staged row adds to the document of its object. -/
def StagedRow.updateOps (row : StagedRow D) : Set (Op D) :=
  { op | ∃ update, row.textUpdate = some update ∧ op ∈ ops update }

theorem StagedRow.updateOps_of_none {row : StagedRow D} (h : row.textUpdate = none) :
    row.updateOps = ∅ := by
  rw [Set.eq_empty_iff_forall_notMem]
  rintro op ⟨update, hupdate, -⟩
  rw [h] at hupdate
  cases hupdate

theorem StagedRow.updateOps_of_some {row : StagedRow D} {update : D}
    (h : row.textUpdate = some update) : row.updateOps = ops update := by
  ext op
  constructor
  · rintro ⟨update', hupdate, hop⟩
    rw [h] at hupdate
    cases hupdate
    exact hop
  · exact fun hop => ⟨update, h, hop⟩

/-- The documents are the same. -/
structure SameDocs (db db' : Db D) : Prop where
  priorNamespace : db'.priorNamespace = db.priorNamespace
  stableNamespace : db'.stableNamespace = db.stableNamespace
  priorText : db'.priorText = db.priorText
  stableText : db'.stableText = db.stableText

/-- A local mutation: both namespaces gain what is minted on the prior one, and the objects of the
staged rows get the staged documents as prior ones and the updates into the stable ones. -/
structure DocsMinted (db db' : Db D) (entries : List NsEntry) (staged : List (StagedRow D)) :
    Prop where
  priorNamespace : db'.priorNamespace = db.priorNamespace ∪
    NamespaceDoc.mintedOps (clientIdForWriter db.writerId)
      (db.priorNamespace.stateVector (clientIdForWriter db.writerId)) entries
  stableNamespace : db'.stableNamespace = db.stableNamespace ∪
    NamespaceDoc.mintedOps (clientIdForWriter db.writerId)
      (db.priorNamespace.stateVector (clientIdForWriter db.writerId)) entries
  texts : ∀ id, (∃ row ∈ staged, row.objectId = id ∧ db'.priorText id = row.priorDocBlob ∧
      ops (db'.stableText id) = ops (db.stableText id) ∪ row.updateOps) ∨
    (db'.priorText id = db.priorText id ∧ ops (db'.stableText id) = ops (db.stableText id))

section Step

variable [CharDiff] [Xxh3] [DecidableEq D]

/-- What a request does to the documents. -/
inductive DocumentStep (s s' : SemanticActor D) : SemanticRequest D → Prop
  /-- Nothing. -/
  | frame {request : SemanticRequest D} (docs : SameDocs s.db s'.db)
      (staged : s'.db.importStagedFiles = s.db.importStagedFiles)
      (target : ∀ active', s'.active = .projecting active' →
        ∃ active, s.active = .projecting active ∧ active'.started = active.started) :
      DocumentStep s s' request
  /-- A projection towards the stable documents is planned. -/
  | plan {request : SemanticRequest D} (docs : SameDocs s.db s'.db)
      (staged : s'.db.importStagedFiles.rows = [])
      (target : ∀ active, s'.active = .projecting active →
        active.started.targetNamespaceDocBlob = s.db.stableNamespace ∧
          ∀ action ∈ active.started.actions, ∀ doc,
            action.commitContext.targetTextDocBlob = some doc →
              doc = s.db.stableText action.commitContext.objectId) :
      DocumentStep s s' request
  /-- Operations are minted and published. -/
  | mint {request : SemanticRequest D} (entries : List NsEntry) (rows : List (StagedRow D))
      (rows_staged : ∀ row ∈ rows, row ∈ s.db.importStagedFiles.rows)
      (docs : DocsMinted s.db s'.db entries rows) (staged : s'.db.importStagedFiles.rows = [])
      (target : ∀ active, s'.active ≠ .projecting active) : DocumentStep s s' request
  /-- A file is staged. -/
  | stage {result : ImportActionResult} {now : Timestamp} {objectId : ObjectId}
      {claimId : NamespaceClaimId} (plan : ImportActionStagePlan) (docs : SameDocs s.db s'.db)
      (staged : s'.db.importStagedFiles.rows = s.db.importStagedFiles.rows ++
        [stagedRow plan (s.db.stagedTextImport plan now objectId claimId)])
      (target : ∀ active, s'.active ≠ .projecting active) :
      DocumentStep s s' (.commitImportAction result now objectId claimId)
  /-- A prior document is replaced by the stable one. -/
  | realign {request : SemanticRequest D} (id : ObjectId)
      (priorNamespace : s'.db.priorNamespace = s.db.priorNamespace)
      (stableNamespace : s'.db.stableNamespace = s.db.stableNamespace)
      (priorText : ∀ id', s'.db.priorText id' =
        if id = id' then s.db.stableText id else s.db.priorText id')
      (stableText : s'.db.stableText = s.db.stableText)
      (staged : s'.db.importStagedFiles = s.db.importStagedFiles)
      (target : ∀ active, s'.active ≠ .projecting active) : DocumentStep s s' request
  /-- The prior documents become those a projection worked towards. -/
  | project {request : SemanticRequest D} (active : ActiveProjectionEpoch D)
      (projecting : s.active = .projecting active)
      (priorNamespace : s'.db.priorNamespace = active.started.targetNamespaceDocBlob)
      (stableNamespace : s'.db.stableNamespace = s.db.stableNamespace)
      (priorText : ∀ id, s'.db.priorText id = s.db.priorText id ∨
        ∃ action ∈ active.started.actions, action.commitContext.objectId = id ∧
          action.commitContext.targetTextDocBlob = some (s'.db.priorText id))
      (stableText : s'.db.stableText = s.db.stableText)
      (staged : s'.db.importStagedFiles.rows = [])
      (target : ∀ active, s'.active ≠ .projecting active) : DocumentStep s s' request
  /-- A batch is merged. -/
  | batch {batch : SharedMessageBatch (SharedMessage D)}
      (priorNamespace : s'.db.priorNamespace = s.db.priorNamespace)
      (priorText : s'.db.priorText = s.db.priorText)
      (stable : s'.db.stableOps =
        s.db.stableOps ∪ messageOps (foreignMessages s.db.writerId batch.messages))
      (staged : s'.db.importStagedFiles = s.db.importStagedFiles) (active : s'.active = s.active) :
      DocumentStep s s' (.applySharedMessageBatch batch)

end Step

/-! ## The prior and the stable texts after a request -/

section Docs

variable {db db' : Db D}

theorem sameDocs_of_eq (hpriorNamespace : db'.priorNamespace = db.priorNamespace)
    (hstableNamespace : db'.stableNamespace = db.stableNamespace)
    (hpriorTexts : db'.priorTextObjects = db.priorTextObjects)
    (hstableTexts : db'.stableTextObjects = db.stableTextObjects) : SameDocs db db' where
  priorNamespace := hpriorNamespace
  stableNamespace := hstableNamespace
  priorText := by
    funext id
    rw [Db.priorText, Db.priorTextObjectDoc, hpriorTexts]
    rfl
  stableText := by
    funext id
    rw [Db.stableText, Db.stableTextObjectDoc, hstableTexts]
    rfl

theorem priorText_put {id : ObjectId} {doc : D}
    (htexts : db'.priorTextObjects = db.priorTextObjects.put ⟨id, doc⟩) (id' : ObjectId) :
    db'.priorText id' = if id = id' then doc else db.priorText id' := by
  rw [Db.priorText, Db.priorTextObjectDoc, htexts, Table.find?_put]
  by_cases hid : id = id'
  · rw [if_pos hid, if_pos hid]
    rfl
  · rw [if_neg hid, if_neg hid]
    rfl

/-- The prior document of an object after the commit of staged rows. -/
theorem priorText_putAll {staged : List (StagedRow D)}
    (htexts : db'.priorTextObjects = db.priorTextObjects.putAll (staged.map StagedRow.priorText))
    (hobjects : (staged.map StagedRow.objectId).Nodup) (id : ObjectId) :
    (∃ row ∈ staged, row.objectId = id ∧ db'.priorText id = row.priorDocBlob) ∨
      ((∀ row ∈ staged, row.objectId ≠ id) ∧ db'.priorText id = db.priorText id) := by
  have hkeys : (staged.map StagedRow.priorText).map TextObjectRow.objectId =
      staged.map StagedRow.objectId := by
    rw [List.map_map]
    rfl
  by_cases hid : ∃ row ∈ staged, row.objectId = id
  · obtain ⟨row, hrow, rfl⟩ := hid
    have hfind := Table.find?_putAll_of_mem (hkeys ▸ hobjects)
      (show row.priorText ∈ staged.map StagedRow.priorText from List.mem_map_of_mem hrow)
      db.priorTextObjects
    refine .inl ⟨row, hrow, rfl, ?_⟩
    have hfind' : (db.priorTextObjects.putAll (staged.map StagedRow.priorText)).find?
        row.objectId = some row.priorText := hfind
    rw [Db.priorText, Db.priorTextObjectDoc, htexts, hfind']
    rfl
  · refine .inr ⟨fun row hrow heq => hid ⟨row, hrow, heq⟩, ?_⟩
    have hnot : id ∉ (staged.map StagedRow.priorText).map TextObjectRow.objectId := by
      rw [hkeys, List.mem_map]
      exact hid
    rw [Db.priorText, Db.priorTextObjectDoc, htexts, Table.find?_putAll_of_notMem hnot]
    rfl

theorem LocallyDeleted.docsMinted {rows : List PriorTreeRow} {now : Timestamp}
    (h : LocallyDeleted db db' rows now) : DocsMinted db db' (removals rows) [] where
  priorNamespace := by
    rw [h.eq]
    rfl
  stableNamespace := by
    rw [h.eq]
    rfl
  texts id := by
    refine .inr ?_
    rw [h.eq]
    exact ⟨rfl, rfl⟩

/-- The stable document of an object after the commit of staged rows. -/
theorem SyncImported.mem_stableText {epoch : Nat} {staged : List (StagedRow D)} {now : Timestamp}
    (h : SyncImported db db' epoch staged now) (id : ObjectId) (op : Op D) :
    op ∈ ops (db'.stableText id) ↔ op ∈ ops (db.stableText id) ∨
      ∃ row ∈ staged, row.objectId = id ∧ op ∈ row.updateOps := by
  have hmerged : db'.stableTextObjects = mergeStaged db.stableTextObjects staged := by rw [h.eq]
  rw [Db.stableText, Db.stableTextObjectDoc, hmerged, mem_ops_mergeStaged]
  refine or_congr Iff.rfl ⟨?_, ?_⟩
  · rintro ⟨row, hrow, update, hupdate, hid, hop⟩
    exact ⟨row, hrow, hid, update, hupdate, hop⟩
  · rintro ⟨row, hrow, hid, update, hupdate, hop⟩
    exact ⟨row, hrow, update, hupdate, hid, hop⟩

theorem SyncImported.docsMinted {epoch : Nat} {staged : List (StagedRow D)} {now : Timestamp}
    (h : SyncImported db db' epoch staged now)
    (hobjects : (staged.map StagedRow.objectId).Nodup) :
    DocsMinted db db' (importEntries db.writerId staged) staged where
  priorNamespace := by
    rw [h.eq]
    rfl
  stableNamespace := by
    rw [h.eq]
    rfl
  texts id := by
    have htexts : db'.priorTextObjects =
        db.priorTextObjects.putAll (staged.map StagedRow.priorText) := by rw [h.eq]
    have hprior := priorText_putAll htexts hobjects id
    rcases hprior with ⟨row, hrow, rfl, hprior⟩ | ⟨hnone, hprior⟩
    · refine .inl ⟨row, hrow, rfl, hprior, ?_⟩
      ext op
      rw [h.mem_stableText, Set.mem_union]
      refine or_congr Iff.rfl ⟨?_, fun hop => ⟨row, hrow, rfl, hop⟩⟩
      rintro ⟨row', hrow', hid, hop⟩
      rwa [List.inj_on_of_nodup_map hobjects hrow' hrow hid] at hop
    · refine .inr ⟨hprior, ?_⟩
      ext op
      rw [h.mem_stableText]
      refine ⟨?_, .inl⟩
      rintro (hop | ⟨row, hrow, hid, -⟩)
      · exact hop
      · exact absurd hid (hnone row hrow)

theorem InitImported.docsMinted {epoch : Nat} {staged : List (StagedRow D)} {now : Timestamp}
    (h : InitImported db db' epoch staged now)
    (hobjects : (staged.map StagedRow.objectId).Nodup)
    (hcomplete : ∀ row ∈ staged, row.textUpdate = some row.priorDocBlob) :
    DocsMinted db db' (importEntries db.writerId staged) staged where
  priorNamespace := by
    rw [h.eq]
    rfl
  stableNamespace := by
    rw [h.eq]
    rfl
  texts id := by
    have htexts : db'.priorTextObjects =
        db.priorTextObjects.putAll (staged.map StagedRow.priorText) := by rw [h.eq]
    have hprior := priorText_putAll htexts hobjects id
    -- The stable documents are stored as the prior ones are.
    let swapped : Db D → Db D := fun db => { db with priorTextObjects := db.stableTextObjects }
    have hswapped : (swapped db').priorTextObjects =
        (swapped db).priorTextObjects.putAll (staged.map StagedRow.priorText) := by rw [h.eq]
    have hstable := priorText_putAll hswapped hobjects id
    rcases hprior with ⟨row, hrow, hid, hprior⟩ | ⟨hnone, hprior⟩
    · refine .inl ⟨row, hrow, hid, hprior, ?_⟩
      rcases hstable with ⟨row', hrow', hid', hstable⟩ | ⟨hnone, -⟩
      · have hsame : row = row' :=
          List.inj_on_of_nodup_map hobjects hrow hrow' (hid.trans hid'.symm)
        have hdoc : db'.stableText id = row.priorDocBlob := hsame ▸ hstable
        have hempty : db.stableText id = TextDoc.emptyTextState := by
          rw [Db.stableText, Db.stableTextObjectDoc, ← hid, h.new_texts row hrow]
          rfl
        have hupdate : row.updateOps = ops row.priorDocBlob := by
          ext op
          simp [StagedRow.updateOps, hcomplete row hrow]
        rw [hdoc, hempty, hupdate, TextDoc.ops_emptyTextState, Set.empty_union]
      · exact absurd hid (hnone row hrow)
    · refine .inr ⟨hprior, ?_⟩
      rcases hstable with ⟨row', hrow', hid', -⟩ | ⟨-, hstable⟩
      · exact absurd hid' (hnone row' hrow')
      · exact congrArg ops hstable

/-- Committing the actions of a projection stores documents it worked towards. -/
theorem priorText_commitCompletedProjectionActions {actions : List (CompletedProjectionAction D)}
    {acceptedAt : Timestamp} {u : PUnit}
    (h : Runs (forM actions (commitCompletedProjectionActionTx acceptedAt)) db u db')
    (id : ObjectId) : db'.priorText id = db.priorText id ∨
      ∃ action ∈ actions, action.commitContext.objectId = id ∧
        action.commitContext.targetTextDocBlob = some (db'.priorText id) := by
  refine Runs.forM_preserves (fun t => t.priorText id = db.priorText id ∨
    ∃ action ∈ actions, action.commitContext.objectId = id ∧
      action.commitContext.targetTextDocBlob = some (t.priorText id)) h (.inl rfl) ?_
  intro action haction t t' ht hrun
  rcases runs_commitCompletedProjectionActionTx hrun with ⟨doc, stat, hash, -, hdoc, rfl⟩ | ⟨-, rfl⟩
  · have htexts : (t.writeAccepted action.commitContext doc (.statAndContent stat hash)
        acceptedAt).priorTextObjects =
          t.priorTextObjects.put ⟨action.commitContext.objectId, doc⟩ := rfl
    have hput := priorText_put htexts id
    by_cases hid : action.commitContext.objectId = id
    · rw [if_pos hid] at hput
      exact .inr ⟨action, haction, hid, by rw [hput, hdoc]⟩
    · rw [if_neg hid] at hput
      rw [hput]
      exact ht
  · exact ht

end Docs

/-! ## Staging -/

section Requests

variable [CharDiff] [Xxh3] [DecidableEq D] {s s' : SemanticActor D}

omit [TextCrdt D] [CharDiff] [Xxh3] [DecidableEq D] in
/-- While no import is active nothing is staged. -/
theorem StagingTidy.staged_eq_nil (h : StagingTidy s)
    (hactive : ∀ active, s.active ≠ .importing active) : s.db.importStagedFiles.rows = [] := by
  rw [List.eq_nil_iff_forall_not_mem]
  intro row hrow
  obtain ⟨active, hactive', -⟩ := h.staged row hrow
  exact hactive active hactive'

omit [TextCrdt D] [CharDiff] [Xxh3] [DecidableEq D] in
theorem StagingTidy.epoch_eq (h : StagingTidy s) {active : ActiveImportEpoch}
    (hactive : s.active = .importing active) {row : StagedRow D}
    (hrow : row ∈ s.db.importStagedFiles.rows) : row.importEpoch = active.epoch := by
  obtain ⟨active', hactive', hepoch⟩ := h.staged row hrow
  rw [hactive] at hactive'
  cases hactive'
  exact hepoch

omit [TextCrdt D] [CharDiff] [Xxh3] [DecidableEq D] in
/-- The commit of an epoch leaves nothing staged. -/
theorem StagingTidy.deleteEpoch_eq_nil (h : StagingTidy s) {active : ActiveImportEpoch}
    (hactive : s.active = .importing active) :
    (s.db.importStagedFiles.deleteEpoch active.epoch).rows = [] := by
  rw [List.eq_nil_iff_forall_not_mem]
  intro row hrow
  obtain ⟨hrow, hne⟩ := ImportStagedFiles.mem_deleteEpoch.mp hrow
  exact hne (h.epoch_eq hactive hrow)

omit [TextCrdt D] [CharDiff] [Xxh3] [DecidableEq D] in
/-- A result that fits the active import epoch belongs to it. -/
theorem StagingTidy.epoch_of_context (h : StagingTidy s) {active : ActiveImportEpoch}
    (hactive : s.active = .importing active) {result : ImportActionResult}
    {context : ImportActionContext} (hcontext : active.context result = some context) :
    result.actionId.epoch = active.epoch := by
  unfold ActiveImportEpoch.context at hcontext
  split_ifs at hcontext
  obtain ⟨action, haction, -⟩ := Option.map_eq_some_iff.mp hcontext
  have hid : action.id = result.actionId := by simpa using List.find?_some haction
  rw [← hid]
  exact h.expected active hactive action (List.mem_of_find?_eq_some haction)

omit [TextCrdt D] [CharDiff] [Xxh3] [DecidableEq D] in
theorem stagingTidy_of_nil (hstaged : s.db.importStagedFiles.rows = [])
    (hexpected : ∀ active, s.active = .importing active →
      ∀ action ∈ active.expected, action.id.epoch = active.epoch) : StagingTidy s where
  staged row hrow := by
    rw [hstaged] at hrow
    cases hrow
  expected := hexpected

omit [Xxh3] in
/-- A file is staged or realigned, or only the entries of ignored files change. -/
theorem runs_commitImportAction_cases {db db' : Db D} {context : ImportActionContext}
    {result : ImportActionResult} {now : Timestamp} {objectId : ObjectId}
    {claimId : NamespaceClaimId} {actionId : ImportActionId}
    (h : Runs (commitImportAction (D := D) context result now objectId claimId) db actionId db') :
    actionId = result.actionId ∧
      ((∃ plan rows, prepareImportActionStage context result = .ok (.stage plan) ∧
          rows.rows = db.importStagedFiles.rows ++
            [stagedRow plan (db.stagedTextImport plan now objectId claimId)] ∧
          db' = { db with importStagedFiles := rows, ignoredFiles := db'.ignoredFiles }) ∨
        (∃ plan row doc, prepareImportActionStage context result = .ok (.stage plan) ∧
          db.stableTreeFile plan.path = some row ∧
          db.stableTextObjectDoc row.objectId = some doc ∧
          db' = { db.realigned plan row doc now with ignoredFiles := db'.ignoredFiles }) ∨
        db' = { db with ignoredFiles := db'.ignoredFiles }) := by
  obtain ⟨rfl, ⟨plan, t, hplan, hstage, heq⟩ | ⟨-, heq⟩⟩ := runs_commitImportAction h
  · refine ⟨rfl, ?_⟩
    obtain ⟨stat, hash, -, ⟨-, row, doc, hrealign, rfl⟩ | ⟨-, rows, hrows, rfl⟩⟩ :=
      runs_stageImportActionTx hstage
    · obtain ⟨-, hrow, hdoc⟩ := realignment_eq_some hrealign
      exact .inr (.inl ⟨plan, row, doc, hplan, hrow, hdoc, heq⟩)
    · exact .inl ⟨plan, rows, hplan, ImportStagedFiles.insert_eq_ok hrows, heq⟩
  · exact ⟨rfl, .inr (.inr heq)⟩

omit [TextCrdt D] [CharDiff] [Xxh3] [DecidableEq D] in
/-- A plan is active exactly while it has reads to do. -/
theorem importing_of_applyScan {scan : ScanResult} {epoch : Nat} {now : Timestamp}
    {output : ApplyScanOutput D} {db db' : Db D}
    (h : Runs (applyScan scan epoch now) db output db') :
    (∀ active, ActiveEpoch.ofNextWork output.nextWork = .importing active →
      ∀ action ∈ active.expected, action.id.epoch = active.epoch) ∧
    ∀ active, ActiveEpoch.ofNextWork output.nextWork ≠ .projecting active := by
  have hwork := (runs_applyScan h).2
  rw [hwork]
  split_ifs
  · exact ⟨nofun, nofun⟩
  · refine ⟨fun active hactive action haction => ?_, nofun⟩
    cases hactive
    exact epoch_of_mem_readActions haction

/-- Every request keeps the staging tidy. -/
theorem Served.stagingTidy {request : SemanticRequest D} (hserved : Served s request s')
    (h : StagingTidy s) : StagingTidy s' := by
  cases hserved with
  | @applyInitScan scan started db hidle hrun =>
    obtain ⟨heq, ⟨files, -, rfl⟩, -⟩ := runs_applyInitScan hrun
    refine stagingTidy_of_nil ?_ ?_
    · show db.importStagedFiles.rows = []
      rw [heq]
      exact h.staged_eq_nil fun active hactive => by rw [hidle] at hactive; cases hactive
    · intro active hactive action haction
      cases hactive
      exact epoch_of_mem_readActions haction
  | @applyScan scan now output db hidle hrun =>
    refine stagingTidy_of_nil ?_ (importing_of_applyScan hrun).1
    show db.importStagedFiles.rows = []
    rw [(runs_applyScan hrun).1.eq]
    exact h.staged_eq_nil fun active hactive => by rw [hidle] at hactive; cases hactive
  | @commitImportAction result now objectId claimId active context id db hactive hcontext hrun =>
    have hepoch := h.epoch_of_context hactive hcontext
    refine ⟨fun row hrow => ⟨_, rfl, ?_⟩, ?_⟩
    · have hrow' : row ∈ db.importStagedFiles.rows := hrow
      obtain ⟨-, ⟨plan, rows, hplan, hrows, heq⟩ | ⟨plan, tree, doc, -, -, -, heq⟩ | heq⟩ :=
        runs_commitImportAction_cases hrun
      · rw [heq] at hrow'
        have hrow'' : row ∈ rows.rows := hrow'
        rw [hrows, List.mem_append, List.mem_singleton] at hrow''
        rcases hrow'' with hrow | rfl
        · exact h.epoch_eq hactive hrow
        · obtain ⟨-, -, -, -, -, -, hresult, -⟩ := stage_of_prepareImportActionStage hplan
          rw [hresult] at hepoch
          exact hepoch
      · rw [heq] at hrow'
        exact h.epoch_eq hactive hrow'
      · rw [heq] at hrow'
        exact h.epoch_eq hactive hrow'
    · intro active' hactive'
      cases hactive'
      exact h.expected active hactive
  | @commitImportEpoch now active effects db hactive hcomplete hrun =>
    refine stagingTidy_of_nil ?_ nofun
    show db.importStagedFiles.rows = []
    rcases runs_commitImportEpoch hrun with ⟨-, n, hrun⟩ | ⟨-, n, hrun⟩
    · rw [(runs_commitInitImportEpochTx hrun).1.eq]
      exact h.deleteEpoch_eq_nil hactive
    · rw [(runs_commitSyncImportEpochTx hrun).1.eq]
      exact h.deleteEpoch_eq_nil hactive
  | @getNextWork work db hidle hrun =>
    obtain ⟨heq, hwork⟩ := runs_getNextWorkTx hrun
    refine stagingTidy_of_nil ?_ ?_
    · show db.importStagedFiles.rows = []
      rw [heq]
      exact h.staged_eq_nil fun active hactive => by rw [hidle] at hactive; cases hactive
    · rw [hwork]
      split_ifs <;> exact nofun
  | @commitProjectionAction result active context u db hactive hcontext hrun =>
    refine stagingTidy_of_nil ?_ nofun
    have hnone := h.staged_eq_nil fun active hactive' => by rw [hactive] at hactive'; cases hactive'
    rcases runs_commitProjectionAction hrun with ⟨-, rfl⟩ | ⟨stat, hash, -, rfl⟩
    · exact hnone
    · split <;> exact hnone
  | @commitProjectionEpoch reason now active u db hactive hcomplete hrun =>
    refine stagingTidy_of_nil ?_ nofun
    have hnone := h.staged_eq_nil fun active hactive' => by rw [hactive] at hactive'; cases hactive'
    rcases runs_commitProjectionEpochTx hrun with ⟨-, rfl⟩ | ⟨-, hrun⟩
    · exact hnone
    · show db.importStagedFiles.rows = []
      rw [runs_commitCompletedProjectionActions_frame hrun]
      exact hnone
  | @applySharedMessageBatch batch effects db hrun =>
    obtain ⟨docs, happlied, -⟩ := runs_applySharedMessageBatchTx hrun
    have hstaged : db.importStagedFiles = s.db.importStagedFiles := by rw [happlied.eq]
    refine ⟨fun row hrow => ?_, h.expected⟩
    have hrow' : row ∈ db.importStagedFiles.rows := hrow
    rw [hstaged] at hrow'
    exact h.staged row hrow'
  | readOutbox => exact ⟨h.staged, h.expected⟩
  | releaseOutbox => exact ⟨h.staged, h.expected⟩
  | trimOutbox => exact ⟨h.staged, h.expected⟩

/-- What a request does to the documents. -/
theorem Served.documentStep {request : SemanticRequest D} (hserved : Served s request s')
    (h : StagingTidy s) (hready : ImportReady s) : DocumentStep s s' request := by
  cases hserved with
  | @applyInitScan scan started db hidle hrun =>
    refine .frame ?_ ?_ (by rintro _ ⟨⟩)
    · show SameDocs s.db db
      rw [(runs_applyInitScan hrun).1]
      exact sameDocs_of_eq rfl rfl rfl rfl
    · show db.importStagedFiles = s.db.importStagedFiles
      rw [(runs_applyInitScan hrun).1]
  | @applyScan scan now output db hidle hrun =>
    have hdeleted := (runs_applyScan hrun).1
    refine .mint _ [] (by simp) hdeleted.docsMinted ?_ (importing_of_applyScan hrun).2
    show db.importStagedFiles.rows = []
    rw [hdeleted.eq]
    exact h.staged_eq_nil fun active hactive => by rw [hidle] at hactive; cases hactive
  | @commitImportAction result now objectId claimId active context id db hactive hcontext hrun =>
    obtain ⟨-, ⟨plan, rows, hplan, hrows, heq⟩ | ⟨plan, row, doc, -, -, hdoc, heq⟩ | heq⟩ :=
      runs_commitImportAction_cases hrun
    · refine .stage plan ?_ ?_ (by rintro _ ⟨⟩)
      · show SameDocs s.db db
        rw [heq]
        exact sameDocs_of_eq rfl rfl rfl rfl
      · show db.importStagedFiles.rows = _
        rw [heq]
        exact hrows
    · have hstable : s.db.stableText row.objectId = doc := by rw [Db.stableText, hdoc]; rfl
      have htexts : db.priorTextObjects = s.db.priorTextObjects.put ⟨row.objectId, doc⟩ := by
        rw [heq]
        rfl
      have hsame : SameDocs s.db { db with priorTextObjects := s.db.priorTextObjects } := by
        rw [heq]
        exact sameDocs_of_eq rfl rfl rfl rfl
      refine .realign row.objectId hsame.priorNamespace hsame.stableNamespace (fun id' => ?_)
        hsame.stableText ?_ (by rintro _ ⟨⟩)
      · rw [hstable]
        exact priorText_put htexts id'
      · show db.importStagedFiles = s.db.importStagedFiles
        rw [heq]
        rfl
    · refine .frame ?_ ?_ (by rintro _ ⟨⟩)
      · show SameDocs s.db db
        rw [heq]
        exact sameDocs_of_eq rfl rfl rfl rfl
      · show db.importStagedFiles = s.db.importStagedFiles
        rw [heq]
  | @commitImportEpoch now active effects db hactive hcomplete hrun =>
    have hobjects := ImportStagedFiles.nodup_map_ofEpoch s.db.importStagedFiles.objects_nodup
      active.epoch
    have hrows : ∀ row ∈ s.db.importStagedFiles.ofEpoch active.epoch,
        row ∈ s.db.importStagedFiles.rows := fun row hrow =>
      (ImportStagedFiles.mem_ofEpoch.mp hrow).1
    rcases runs_commitImportEpoch hrun with ⟨-, n, hrun⟩ | ⟨-, n, hrun⟩
    · obtain ⟨himported, -, hnew, -⟩ := runs_commitInitImportEpochTx hrun
      have hcompleted : ∀ row ∈ s.db.importStagedFiles.ofEpoch active.epoch,
          row.textUpdate = some row.priorDocBlob := fun row hrow =>
        hready.newRowsComplete row (hrows row hrow) (hnew row hrow)
      refine .mint _ _ hrows (himported.docsMinted hobjects hcompleted) ?_ (by rintro _ ⟨⟩)
      show db.importStagedFiles.rows = []
      rw [himported.eq]
      exact h.deleteEpoch_eq_nil hactive
    · have himported := (runs_commitSyncImportEpochTx hrun).1
      refine .mint _ _ hrows (himported.docsMinted hobjects) ?_ (by rintro _ ⟨⟩)
      show db.importStagedFiles.rows = []
      rw [himported.eq]
      exact h.deleteEpoch_eq_nil hactive
  | @getNextWork work db hidle hrun =>
    obtain ⟨heq, hwork⟩ := runs_getNextWorkTx hrun
    refine .plan ?_ ?_ fun active hactive => ?_
    · show SameDocs s.db db
      rw [heq]
      exact sameDocs_of_eq rfl rfl rfl rfl
    · show db.importStagedFiles.rows = []
      rw [heq]
      exact h.staged_eq_nil fun active hactive => by rw [hidle] at hactive; cases hactive
    · have hactive' : ActiveEpoch.ofNextWork work = .projecting active := hactive
      rw [hwork] at hactive'
      split_ifs at hactive'
      · cases hactive'
      · cases hactive'
        refine ⟨rfl, fun action haction doc hdoc => ?_⟩
        obtain ⟨hplanned, -⟩ := mem_projectionActions haction
        rw [Db.plannedProjections, List.mem_append, List.mem_map, List.mem_map] at hplanned
        rcases hplanned with ⟨⟨row, expected⟩, -, hrow⟩ | ⟨prior, -, hprior⟩
        · rw [← (Prod.mk.inj hrow).2] at hdoc ⊢
          cases hdoc
          rfl
        · rw [← (Prod.mk.inj hprior).2] at hdoc
          cases hdoc
  | @commitProjectionAction result active context u db hactive hcontext hrun =>
    have hdb : db = { s.db with
        projectionAppliedWriteIntents := db.projectionAppliedWriteIntents } := by
      rcases runs_commitProjectionAction hrun with ⟨-, rfl⟩ | ⟨stat, hash, -, rfl⟩
      · rfl
      · split <;> rfl
    rw [hdb]
    refine .frame (sameDocs_of_eq rfl rfl rfl rfl) rfl ?_
    intro active' hactive'
    cases hactive'
    exact ⟨active, hactive, rfl⟩
  | @commitProjectionEpoch reason now active u db hactive hcomplete hrun =>
    have hnone := h.staged_eq_nil fun active hactive' => by rw [hactive] at hactive'; cases hactive'
    rcases runs_commitProjectionEpochTx hrun with ⟨-, rfl⟩ | ⟨-, hrun⟩
    · exact .frame (sameDocs_of_eq rfl rfl rfl rfl) rfl (by rintro _ ⟨⟩)
    · have hframe := runs_commitCompletedProjectionActions_frame hrun
      have hsame : SameDocs s.db { db with
          priorNamespace := s.db.priorNamespace
          priorTextObjects := s.db.priorTextObjects } := by
        rw [hframe]
        exact sameDocs_of_eq rfl rfl rfl rfl
      refine .project active hactive ?_ hsame.stableNamespace (fun id => ?_) hsame.stableText ?_ (by rintro _ ⟨⟩)
      · show db.priorNamespace = _
        rw [hframe]
        rfl
      · rcases priorText_commitCompletedProjectionActions hrun id with heq | ⟨action, haction, hid, hdoc⟩
        · exact .inl heq
        · obtain ⟨planned, hplanned, hresult⟩ := List.mem_filterMap.mp haction
          obtain ⟨result, -, rfl⟩ := Option.map_eq_some_iff.mp hresult
          exact .inr ⟨planned, hplanned, hid, hdoc⟩
      · show db.importStagedFiles.rows = []
        rw [hframe]
        exact hnone
  | @applySharedMessageBatch batch effects db hrun =>
    obtain ⟨docs, happlied, -⟩ := runs_applySharedMessageBatchTx hrun
    have hsame : SameDocs s.db { db with
        stableNamespace := s.db.stableNamespace
        stableTextObjects := s.db.stableTextObjects } := by
      rw [happlied.eq]
      exact sameDocs_of_eq rfl rfl rfl rfl
    refine .batch hsame.priorNamespace hsame.priorText happlied.stableOps ?_ rfl
    show db.importStagedFiles = s.db.importStagedFiles
    rw [happlied.eq]
  | readOutbox =>
    exact .frame (sameDocs_of_eq rfl rfl rfl rfl) rfl fun active hactive => ⟨active, hactive, rfl⟩
  | releaseOutbox =>
    exact .frame (sameDocs_of_eq rfl rfl rfl rfl) rfl fun active hactive => ⟨active, hactive, rfl⟩
  | trimOutbox =>
    exact .frame (sameDocs_of_eq rfl rfl rfl rfl) rfl fun active hactive => ⟨active, hactive, rfl⟩

end Requests

end Opbox
