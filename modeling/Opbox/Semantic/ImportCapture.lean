import Opbox.Semantic.DaemonOutbox
import Opbox.Semantic.ImportRun

/-!
# What an import captures

A file is staged against the prior document of the object it takes over, at the moment its read comes
in, and the commit writes all staged files together.  Whatever was staged in between and whatever
batches have come, the commit leaves the text that was read in the prior document, adds the operations
of the edit to the stable one and puts them into the outbox once.  The stable text is what was read
if the stable document has not moved away from the document the file was staged against.

That need not be the prior document just before the commit: another file may have been realigned to
the object meanwhile.
-/

namespace Opbox

open TextCrdt

section Capture

variable {D : Type} [TextCrdt D] [CharDiff]

/-! ## What a file is staged against -/

omit [TextCrdt D] [CharDiff] in
/-- The row whose object a file takes over: the live row of its path, or a recent tombstone. -/
def Db.takenOver (db : Db D) (plan : ImportActionStagePlan) (now : Timestamp) :
    Option PriorTreeRow :=
  (db.priorTreeLiveFile plan.path).or (db.reusableTombstone plan now)

omit [CharDiff] in
/-- The document a file is staged against: the prior document of the object it takes over, or that of
a new object. -/
def Db.importBase (db : Db D) (plan : ImportActionStagePlan) (now : Timestamp) : D :=
  match db.takenOver plan now with
  | some prior => db.priorText prior.objectId
  | none => TextDoc.emptyTextState

section Staging

variable {db : Db D} {plan : ImportActionStagePlan} {now : Timestamp} {objectId : ObjectId}
  {claimId : NamespaceClaimId}

/-- In an epoch of a running daemon a file is an edit of the object it takes over, or a new one. -/
theorem stagedTextImport_sync (db : Db D) (now : Timestamp) (objectId : ObjectId)
    (claimId : NamespaceClaimId) (hsync : plan.epochKind = .sync) :
    (∃ prior kind claim, db.takenOver plan now = some prior ∧ kind ≠ StageKind.new ∧
        db.stagedTextImport plan now objectId claimId =
          stageExistingTextFile db (clientIdForWriter db.writerId) plan prior kind claim) ∨
      (db.takenOver plan now = none ∧ db.stagedTextImport plan now objectId claimId =
        stageNewTextFile (clientIdForWriter db.writerId) plan.content objectId claimId) := by
  unfold Db.stagedTextImport Db.takenOver
  rw [hsync]
  dsimp only
  cases db.priorTreeLiveFile plan.path with
  | some prior => exact .inl ⟨prior, .update, prior.claimId, rfl, by decide, rfl⟩
  | none =>
    rw [Option.none_or]
    cases db.reusableTombstone plan now with
    | some prior => exact .inl ⟨prior, .resurrect, claimId, rfl, by decide, rfl⟩
    | none => exact .inr ⟨rfl, rfl⟩

/-- A staged file is an edit of a base document to a text. -/
structure StagedRow.EditOf (row : StagedRow D) (base : D) (content : Bytes) : Prop where
  /-- Its document has the text. -/
  text : getText row.priorDocBlob = content
  /-- Its document has the operations of the base and of the update. -/
  ops : ops row.priorDocBlob = TextCrdt.ops base ∪ row.updateOps
  /-- There is no update exactly if the base has the text and the file is not new. -/
  textUpdate : row.textUpdate = none ↔ row.stageKind ≠ .new ∧ getText base = content

/-- What is staged is an edit of the document it is staged against to the text that was read. -/
theorem editOf_stagedTextImport (hsync : plan.epochKind = .sync) :
    (stagedRow plan (db.stagedTextImport plan now objectId claimId)).EditOf
      (db.importBase plan now) plan.content := by
  rcases stagedTextImport_sync db now objectId claimId hsync with ⟨prior, kind, claim, htaken, hkind, heq⟩ | ⟨htaken, heq⟩
  · have hbase : db.importBase plan now = db.priorText prior.objectId := by
      rw [Db.importBase, htaken]
    rw [heq, hbase]
    unfold stageExistingTextFile
    dsimp only
    split
    next capture hcapture =>
      obtain ⟨hops, htext⟩ := TextDoc.captureTextChange_spec hcapture
      refine ⟨htext, ?_, ?_⟩
      · show TextCrdt.ops capture.fullStateBytes = _
        rw [hops, StagedRow.updateOps_of_some rfl]
      · have hne : getText (db.priorText prior.objectId) ≠ plan.content := by
          intro hsame
          rw [TextDoc.captureTextChange_eq_none_iff.mpr hsame] at hcapture
          cases hcapture
        exact iff_of_false (by simp [stagedRow]) fun h => hne h.2
    next hnone =>
      have hsame := TextDoc.captureTextChange_eq_none_iff.mp hnone
      refine ⟨hsame, ?_, ?_⟩
      · rw [StagedRow.updateOps_of_none rfl, Set.union_empty]
        rfl
      · exact iff_of_true rfl ⟨hkind, hsame⟩
  · have hbase : db.importBase plan now = TextDoc.emptyTextState := by
      rw [Db.importBase, htaken]
    rw [heq, hbase]
    refine ⟨TextDoc.getText_textStateFromContent _ _, ?_, ?_⟩
    · rw [StagedRow.updateOps_of_some rfl, TextDoc.ops_emptyTextState, Set.empty_union]
      rfl
    · exact iff_of_false (by simp [stagedRow, stageNewTextFile]) fun h => h.1 rfl

/-- The document a file is staged against is the prior one of its object, unless the file is new. -/
theorem importBase_of_ne_new (hsync : plan.epochKind = .sync)
    (hkind : (db.stagedTextImport plan now objectId claimId).stageKind ≠ .new) :
    db.importBase plan now =
      db.priorText (db.stagedTextImport plan now objectId claimId).objectId := by
  rcases stagedTextImport_sync db now objectId claimId hsync with ⟨prior, kind, claim, htaken, -, heq⟩ | ⟨-, heq⟩
  · rw [heq, Db.importBase, htaken]
    unfold stageExistingTextFile
    dsimp only
    split <;> rfl
  · rw [heq] at hkind
    exact absurd rfl hkind

/-- A new file has the object that was generated for it, and nothing it is staged against. -/
theorem importBase_of_new (hsync : plan.epochKind = .sync)
    (hkind : (db.stagedTextImport plan now objectId claimId).stageKind = .new) :
    (db.stagedTextImport plan now objectId claimId).objectId = objectId ∧
      db.importBase plan now = TextDoc.emptyTextState := by
  rcases stagedTextImport_sync db now objectId claimId hsync with ⟨prior, kind, claim, -, hne, heq⟩ | ⟨htaken, heq⟩
  · rw [heq] at hkind
    unfold stageExistingTextFile at hkind
    dsimp only at hkind
    split at hkind <;> exact absurd hkind hne
  · rw [heq, Db.importBase, htaken]
    exact ⟨rfl, rfl⟩

end Staging

/-! ## What the commit leaves -/

omit [TextCrdt D] [CharDiff] in
/-- The message is an update of the text of an object. -/
def SharedMessage.IsTextOf (id : ObjectId) : SharedMessage D → Prop
  | .textObjectUpdate id' _ => id' = id
  | _ => False

omit [TextCrdt D] [CharDiff] in
theorem not_isTextOf_of_namespace {db : Db D} {staged : List (StagedRow D)} {id : ObjectId}
    {message : SharedMessage D} (hmem : message ∈ db.importNamespaceMessages staged) :
    ¬message.IsTextOf id := by
  unfold Db.importNamespaceMessages at hmem
  split_ifs at hmem
  · cases hmem
  · rw [List.mem_singleton.mp hmem]
    exact not_false

omit [TextCrdt D] [CharDiff] in
/-- An import that has staged every object once has one text message for each at most. -/
theorem importMessages_once {db : Db D} {staged : List (StagedRow D)}
    (hobjects : (staged.map StagedRow.objectId).Nodup) (id : ObjectId) :
    (db.importNamespaceMessages staged ++ textMessages staged).Pairwise
      fun a b => a.IsTextOf id → ¬b.IsTextOf id := by
  refine List.pairwise_append.mpr ⟨?_, ?_, ?_⟩
  · unfold Db.importNamespaceMessages
    split_ifs
    · exact .nil
    · exact List.pairwise_singleton _ _
  · refine List.Pairwise.filterMap _ ?_ (List.pairwise_map.mp hobjects)
    intro row row' hne message hmessage message' hmessage' hid hid'
    obtain ⟨update, -, rfl⟩ := Option.map_eq_some_iff.mp hmessage
    obtain ⟨update', -, rfl⟩ := Option.map_eq_some_iff.mp hmessage'
    exact hne (Eq.trans hid hid'.symm)
  · exact fun message hmem message' _ htext => absurd htext (not_isTextOf_of_namespace hmem)

omit [TextCrdt D] [CharDiff] in
/-- A text message of an import is the update of a staged row. -/
theorem exists_row_of_isTextOf {db : Db D} {staged : List (StagedRow D)} {id : ObjectId}
    {message : SharedMessage D}
    (hmem : message ∈ db.importNamespaceMessages staged ++ textMessages staged)
    (htext : message.IsTextOf id) : ∃ row ∈ staged, row.objectId = id ∧
      ∃ update, row.textUpdate = some update ∧ message = .textObjectUpdate id update := by
  rcases List.mem_append.mp hmem with hns | hmem
  · exact absurd htext (not_isTextOf_of_namespace hns)
  · obtain ⟨row, hrow, hmessage⟩ := List.mem_filterMap.mp hmem
    obtain ⟨update, hupdate, rfl⟩ := Option.map_eq_some_iff.mp hmessage
    have hid : row.objectId = id := htext
    exact ⟨row, hrow, hid, update, hupdate, by rw [hid]⟩

/-- What the commit of an import leaves of a staged file that is an edit of a base document. -/
structure ImportCaptured (base : D) (content : Bytes) (row : StagedRow D) (now : Timestamp)
    (db db' : Db D) : Prop where
  /-- The prior text is the one that was read. -/
  priorText : getText (db'.priorText row.objectId) = content
  /-- The stable document gains exactly the operations of the update. -/
  stableText : ops (db'.stableText row.objectId) = ops (db.stableText row.objectId) ∪ row.updateOps
  /-- The file is accepted as it was read. -/
  priorRow : db'.priorTreeLiveFile row.path =
    some ⟨row.path, row.path, row.claimId, row.objectId, row.fingerprint, now, none⟩
  /-- What the outbox gains for its text is the update. -/
  textRows : ∀ r ∈ db'.outbox.rows, r ∉ db.outbox.rows → r.sharedMessage.IsTextOf row.objectId →
    ∃ update, row.textUpdate = some update ∧
      r.sharedMessage = .textObjectUpdate row.objectId update
  /-- The outbox gains exactly one text row for it if it is new or its text changed. -/
  textRow : row.stageKind = .new ∨ getText base ≠ content →
    ∃! r, (r ∈ db'.outbox.rows ∧ r ∉ db.outbox.rows) ∧ r.sharedMessage.IsTextOf row.objectId
  /-- And otherwise none. -/
  noTextRow : ¬(row.stageKind = .new ∨ getText base ≠ content) →
    ∀ r ∈ db'.outbox.rows, r ∉ db.outbox.rows → ¬r.sharedMessage.IsTextOf row.objectId
  /-- The stable text is the one that was read if the stable document was the base. -/
  stableContent : ops (db.stableText row.objectId) = ops base →
    getText (db'.stableText row.objectId) = content

omit [TextCrdt D] [CharDiff] in
/-- There is an update unless the file is not new and the base has its text. -/
theorem StagedRow.EditOf.exists_update [TextCrdt D] {row : StagedRow D} {base : D} {content : Bytes}
    (h : row.EditOf base content) :
    (∃ update, row.textUpdate = some update) ↔ row.stageKind = .new ∨ getText base ≠ content := by
  rw [← Option.ne_none_iff_exists', Ne, h.textUpdate, not_and_or, not_not]

omit [CharDiff] in
/-- The commit of a sync import captures every staged file. -/
theorem SyncImported.captured {db db' : Db D} {epoch : Nat} {staged : List (StagedRow D)}
    {now : Timestamp} (h : SyncImported db db' epoch staged now)
    (hobjects : (staged.map StagedRow.objectId).Nodup) (hpaths : (staged.map StagedRow.path).Nodup)
    (hallocated : db.outbox.Allocated) {row : StagedRow D} (hrow : row ∈ staged) {base : D}
    {content : Bytes} (hedit : row.EditOf base content) :
    ImportCaptured base content row now db db' := by
  have hprior : db'.priorText row.objectId = row.priorDocBlob := by
    have htexts : db'.priorTextObjects =
        db.priorTextObjects.putAll (staged.map StagedRow.priorText) := by rw [h.eq]
    rcases priorText_putAll htexts hobjects row.objectId with ⟨row', hrow', hid, hprior⟩ | ⟨hnone, -⟩
    · rw [List.inj_on_of_nodup_map hobjects hrow' hrow hid] at hprior
      exact hprior
    · exact absurd rfl (hnone row hrow)
  have hstable : ops (db'.stableText row.objectId) =
      ops (db.stableText row.objectId) ∪ row.updateOps := by
    ext op
    rw [h.mem_stableText, Set.mem_union]
    refine or_congr Iff.rfl ⟨?_, fun hop => ⟨row, hrow, rfl, hop⟩⟩
    rintro ⟨row', hrow', hid, hop⟩
    rwa [List.inj_on_of_nodup_map hobjects hrow' hrow hid] at hop
  have hmem : ∀ r, r ∈ db'.outbox.rows ∧ r ∉ db.outbox.rows → r.sharedMessage ∈
      db.importNamespaceMessages staged ++ textMessages staged := by
    intro r hr
    obtain ⟨i, hi, rfl⟩ := (Outbox.mem_pushed_iff h.outbox hallocated).mp hr
    exact List.getElem_mem hi
  have htextRows : ∀ r ∈ db'.outbox.rows, r ∉ db.outbox.rows →
      r.sharedMessage.IsTextOf row.objectId → ∃ update, row.textUpdate = some update ∧
        r.sharedMessage = .textObjectUpdate row.objectId update := by
    intro r hr hnew htext
    obtain ⟨row', hrow', hid, update, hupdate, hmessage⟩ :=
      exists_row_of_isTextOf (hmem r ⟨hr, hnew⟩) htext
    rw [List.inj_on_of_nodup_map hobjects hrow' hrow hid] at hupdate
    exact ⟨update, hupdate, hmessage⟩
  exact {
    priorText := by rw [hprior, hedit.text]
    stableText := hstable
    priorRow := by
      have htree : db'.priorTree = db.priorTree.putAll (staged.map (StagedRow.priorRow now)) := by
        rw [h.eq]
      have hkeys : ((staged.map (StagedRow.priorRow now)).map PriorTreeRow.path).Nodup := by
        rw [List.map_map]
        exact hpaths
      have hfind := Table.find?_putAll_of_mem hkeys
        (List.mem_map_of_mem (f := StagedRow.priorRow now) hrow) db.priorTree
      rw [Db.priorTreeLiveFile, htree]
      have hfind' : (db.priorTree.putAll (staged.map (StagedRow.priorRow now))).find? row.path =
        some (row.priorRow now) := hfind
      rw [hfind']
      rfl
    textRows := htextRows
    textRow := by
      intro hchanged
      obtain ⟨update, hupdate⟩ := hedit.exists_update.mpr hchanged
      have htext : (SharedMessage.textObjectUpdate row.objectId update).IsTextOf row.objectId := rfl
      refine Outbox.existsUnique_pushed h.outbox hallocated (importMessages_once hobjects _) ?_ htext
      refine List.mem_append_right _ (List.mem_filterMap.mpr ⟨row, hrow, ?_⟩)
      rw [hupdate]
      rfl
    noTextRow := by
      intro hsame r hr hnew htext
      obtain ⟨update, hupdate, -⟩ := htextRows r hr hnew htext
      exact hsame (hedit.exists_update.mp ⟨update, hupdate⟩)
    stableContent := by
      intro hbase
      rw [getText_eq_of_ops_eq _ row.priorDocBlob (by rw [hstable, hbase, hedit.ops]), hedit.text] }

variable [Xxh3] [DecidableEq D]

/-! ## Every import of a run -/

section Runs

variable {s s' t t' : SemanticActor D} {writer : DaemonWriterId} {active : ActiveImportEpoch}

/-- The commit of the import epoch of a running daemon imports the staged rows of the epoch. -/
theorem syncImported_of_commit {now : Timestamp} (hactive : s.active = .importing active)
    (hkind : active.kind = .sync) (hstep : s.step (.commitImportEpoch now) = some s') :
    SyncImported s.db s'.db active.epoch (s.db.importStagedFiles.ofEpoch active.epoch) now ∧
      s'.active = .idle := by
  cases served_of_step hstep with
  | @commitImportEpoch _ active' effects db hactive' hcomplete hrun =>
    rw [hactive] at hactive'
    cases hactive'
    rcases runs_commitImportEpoch hrun with ⟨hinit, -⟩ | ⟨-, n, hsync⟩
    · have hinit' : active.kind = .init := hinit
      rw [hkind] at hinit'
      cases hinit'
    · exact ⟨(runs_commitSyncImportEpochTx hsync).1, rfl⟩

/-- It captures every one of them. -/
theorem importCaptured_of_commit (h : (daemonMachine D writer).Reached s)
    (hactive : s.active = .importing active) (hkind : active.kind = .sync) {row : StagedRow D}
    (hrow : row ∈ s.db.importStagedFiles.rows) {base : D} {content : Bytes}
    (hedit : row.EditOf base content) {now : Timestamp}
    (hstep : s.step (.commitImportEpoch now) = some s') :
    ImportCaptured base content row now s.db s'.db := by
  have hepoch := (stagingTidy_of_reached h).epoch_eq hactive hrow
  have hallocated : s.db.outbox.Allocated := by
    obtain ⟨first, middle, hspans⟩ := outbox_spans_of_reached h
    rintro e ⟨r, hr, rfl⟩
    exact ((hspans.mem_iff r.outboxId).mp ⟨r, hr, rfl⟩).2
  have hmem : row ∈ s.db.importStagedFiles.ofEpoch active.epoch :=
    ImportStagedFiles.mem_ofEpoch.mpr ⟨hrow, hepoch⟩
  exact (syncImported_of_commit hactive hkind hstep).1.captured
    (ImportStagedFiles.nodup_map_ofEpoch s.db.importStagedFiles.objects_nodup _)
    (ImportStagedFiles.nodup_map_ofEpoch s.db.importStagedFiles.paths_nodup _)
    hallocated hmem hedit

omit [CharDiff] [Xxh3] in
/-- Where the stable tree places an object, a plan writes its stable text. -/
theorem writeFile_of_mem_plannedProjections {db : Db D} {path : RelativePath} {tree : StableTreeRow}
    (htree : db.stableTreeFile path = some tree) {planned : PlannedProjection D}
    (hplanned : planned ∈ db.plannedProjections) (hpath : planned.1.path = path) :
    ∃ expected, planned.1 = .writeFile path (getText (db.stableText tree.objectId)) expected := by
  rcases List.mem_append.mp hplanned with hwrite | hdelete
  · obtain ⟨⟨row, expected⟩, hrow, rfl⟩ := List.mem_map.mp hwrite
    have hpath' : row.path = path := hpath
    have hfind : db.stableTreeFile row.path = some row := Table.find?_key (mem_rowsToWrite.mp hrow).1
    rw [hpath', htree] at hfind
    cases hfind
    subst hpath'
    exact ⟨expected, rfl⟩
  · obtain ⟨prior, hprior, rfl⟩ := List.mem_map.mp hdelete
    have hpath' : prior.path = path := hpath
    have hnone := (mem_rowsToDelete.mp hprior).2
    rw [hpath', htree] at hnone
    cases hnone

/-- An import captures the disk: a file that is staged in an epoch of a running daemon is accepted by
the commit of the epoch with the text that was read, as an edit of the document it was staged against.
That is still the prior document of its object just before the commit if no other file has been
realigned to the object.  And if the stable document has not moved away from it, the next plan writes
the text that was read wherever it writes the file. -/
theorem import_captures_disk (h : (daemonMachine D writer).Reached t)
    (hactive : t.active = .importing active) (hkind : active.kind = .sync)
    {result : ImportActionResult} {context : ImportActionContext} {plan : ImportActionStagePlan}
    {stagedAt now : Timestamp} {objectId : ObjectId} {claimId : NamespaceClaimId}
    (hcontext : active.context result = some context)
    (hplan : prepareImportActionStage context result = .ok (.stage plan))
    (hnone : t.realignedTo (.commitImportAction result stagedAt objectId claimId) = none)
    (hstage : t.step (.commitImportAction result stagedAt objectId claimId) = some t')
    {requests : List (SemanticRequest D)}
    (hrun : (daemonMachine D writer).exec t' (requests.map .serve) = some s)
    (hends : ∀ request ∈ requests, request.endsImport = false)
    (hcommit : s.step (.commitImportEpoch now) = some s') {row : StagedRow D}
    (hrow : row = stagedRow plan (t.db.stagedTextImport plan stagedAt objectId claimId)) :
    ImportCaptured (t.db.importBase plan stagedAt) plan.content row now s.db s'.db ∧
      ((row.stageKind = .new → t.db.priorText objectId = TextDoc.emptyTextState) →
        (daemonMachine D writer).Meets (NeverRealigned row.objectId) t' (requests.map .serve) →
          s.db.priorText row.objectId = t.db.importBase plan stagedAt) ∧
      (ops (s.db.stableText row.objectId) = ops (t.db.importBase plan stagedAt) →
        ∀ tree, s'.db.stableTreeFile row.path = some tree → tree.objectId = row.objectId →
          ∀ s₁, s'.step .getNextWork = some s₁ → ∀ kind ∈ s₁.active.plan, kind.path = row.path →
            ∃ expected, kind = .writeFile row.path plan.content expected) := by
  have hsync : plan.epochKind = .sync := by
    obtain ⟨-, -, -, -, -, hplanKind, -⟩ := stage_of_prepareImportActionStage hplan
    obtain ⟨action, -, -, rfl⟩ := action_of_context hcontext
    exact hplanKind.trans hkind
  obtain ⟨hrows, hactive'⟩ := staged_of_step hactive hkind hcontext hplan hnone hstage
  have hstretch := (importStretch_refl hactive').run hrun hends
  obtain ⟨completed, hactive''⟩ := hstretch.continues
  have hmem : row ∈ s.db.importStagedFiles.rows :=
    hstretch.staged (by rw [hrows, hrow]; exact List.mem_append_right _ List.mem_cons_self)
  have hreached : (daemonMachine D writer).Reached s :=
    Machine.Reachable.exec
      (h.step (a := .serve (.commitImportAction result stagedAt objectId claimId)) trivial hstage)
      (Machine.meets_true _ _) hrun
  have hedit : row.EditOf (t.db.importBase plan stagedAt) plan.content :=
    hrow ▸ editOf_stagedTextImport hsync
  have hcaptured := importCaptured_of_commit hreached hactive'' hkind hmem hedit hcommit
  have hidle := (syncImported_of_commit hactive'' hkind hcommit).2
  refine ⟨hcaptured, fun hfresh hmeets => ?_, fun hbase tree htree hobject s₁ hnext kind hin hpath => ?_⟩
  · have hstay : t'.db.priorText row.objectId = t.db.priorText row.objectId := by
      refine priorText_of_served hactive hkind (served_of_step hstage) rfl fun r hr => ?_
      rw [hnone] at hr
      cases hr
    rw [priorText_of_run hactive' hkind hrun hends hmeets, hstay]
    by_cases hnew : row.stageKind = .new
    · rw [hrow] at hnew
      obtain ⟨hid, hempty⟩ := importBase_of_new hsync hnew
      rw [hempty, hrow]
      exact (congrArg t.db.priorText hid).trans (hfresh (hrow ▸ hnew))
    · rw [hrow] at hnew ⊢
      exact (importBase_of_ne_new hsync hnew).symm
  · obtain ⟨s₂, hnext', hplanned, -⟩ := exists_getNextWork hidle
    rw [hnext] at hnext'
    cases hnext'
    rw [hplanned] at hin
    obtain ⟨planned, hplanned', rfl⟩ := List.mem_map.mp hin
    obtain ⟨expected, heq⟩ := writeFile_of_mem_plannedProjections htree hplanned' hpath
    rw [hobject, hcaptured.stableContent hbase] at heq
    exact ⟨expected, heq⟩

end Runs

end Capture

/-! ## An import during which a file is realigned -/

open Snapshots

/-- A file is imported.  Another daemon moves its object to a second path and edits the text; the second
file is written, but the first one is not deleted, because it was edited meanwhile.  So a scan finds the
first file changed and the second one new. -/
def movedRun : List (DaemonAction Doc) :=
  [.serve (.applyInitScan (scanOf .full [(rootFile 1, fileStat 7 1 0)])),
    .serve (.commitImportAction (.read ⟨0, 0⟩ (.completed (.read [97]
      (.statAndContent (fileStat 7 1 0) [97])))) 0 [1] [2]),
    .serve (.commitImportEpoch 0)] ++
  serveBatch (foreignBatch 0 [.namespaceUpdate (NamespaceDoc.mintedOps 77 0
    [.removed [2], .claim [4] ⟨[1], rootFile 2⟩]),
    .textObjectUpdate [1]
      (Doc.write (Doc.write (Doc.write (new : Doc) 1 [97]) 77 []) 77 [97, 98])]) ++
  [.serve .getNextWork,
    .serve (.commitProjectionAction (.writeFile ⟨0, 0⟩
      (.written (.statAndContent (fileStat 8 2 0) [97, 98])))),
    .serve (.commitProjectionEpoch (.actionInvalidatedProjection ⟨0, 1⟩) 0),
    .serve (.applyScan (scanOf .full [(rootFile 1, fileStat 7 2 1), (rootFile 2, fileStat 8 2 0)]) 1)]

/-- The read of the first file. -/
def editedRead : ImportActionResult :=
  .read ⟨1, 0⟩ (.completed (.read [120, 97] (.statAndContent (fileStat 7 2 1) [120, 97])))

/-- What the first file is staged as. -/
def editedPlan : ImportActionStagePlan where
  actionId := ⟨1, 0⟩
  epochKind := .sync
  path := rootFile 1
  fingerprint := .statAndContent (fileStat 7 2 1) [120, 97]
  content := [120, 97]

/-- The read of the second file, which realigns it to the object. -/
def movedRead : ImportActionResult :=
  .read ⟨1, 1⟩ (.completed (.read [97, 98] (.statAndContent (fileStat 8 2 0) [97, 98])))

/-- The first file is staged, then the second one is realigned to its object.  Just before the commit
the prior and the stable document of the object are the same, and yet the commit leaves another stable
text than was read. -/
theorem import_misses_disk_realignedMeanwhile : ∃ t t' s s' : SemanticActor Doc,
    (daemonMachine Doc [0, 0, 0, 1]).exec (.start (Db.initialized Doc [0, 0, 0, 1] 0)) movedRun =
        some t ∧
      t.step (.commitImportAction editedRead 2 [5] [6]) = some t' ∧
      t'.step (.commitImportAction movedRead 2 [7] [8]) = some s ∧
      s.step (.commitImportEpoch 3) = some s' ∧
      (∃ row ∈ s.db.importStagedFiles.rows, row.path = rootFile 1 ∧ row.objectId = [1]) ∧
      s.db.priorText [1] = s.db.stableText [1] ∧
      s'.db.stableText [1] ≠ s'.db.priorText [1] ∧ getText (s'.db.stableText [1]) ≠ [120, 97] := by
  have hrun : ((daemonMachine Doc [0, 0, 0, 1]).exec
      (.start (Db.initialized Doc [0, 0, 0, 1] 0)) movedRun).any (fun t =>
        (t.step (.commitImportAction editedRead 2 [5] [6])).any fun t' =>
          (t'.step (.commitImportAction movedRead 2 [7] [8])).any fun s =>
            (s.step (.commitImportEpoch 3)).any fun s' => decide (
              (∃ row ∈ s.db.importStagedFiles.rows, row.path = rootFile 1 ∧ row.objectId = [1]) ∧
              s.db.priorText [1] = s.db.stableText [1] ∧
              s'.db.stableText [1] ≠ s'.db.priorText [1] ∧
              getText (s'.db.stableText [1]) ≠ [120, 97])) = true := by decide +kernel
  obtain ⟨t, ht, hrun⟩ := Machine.exists_exec hrun
  obtain ⟨t', hstage, hrun⟩ := (Option.any_eq_true _ _).mp hrun
  obtain ⟨s, hrealign, hrun⟩ := (Option.any_eq_true _ _).mp hrun
  obtain ⟨s', hcommit, hrun⟩ := (Option.any_eq_true _ _).mp hrun
  exact ⟨t, t', s, s', ht, hstage, hrealign, hcommit, of_decide_eq_true hrun⟩

/-- What `import_captures_disk` says of this run: the edit is captured against the text that was
accepted before. -/
theorem import_captures_disk_realignedMeanwhile : ∃ t s s' : SemanticActor Doc, ∃ row,
    (daemonMachine Doc [0, 0, 0, 1]).exec (.start (Db.initialized Doc [0, 0, 0, 1] 0)) movedRun =
        some t ∧
      s.step (.commitImportEpoch 3) = some s' ∧ getText (t.db.importBase editedPlan 2) = [97] ∧
      ImportCaptured (t.db.importBase editedPlan 2) [120, 97] row 3 s.db s'.db := by
  have hrun : ((daemonMachine Doc [0, 0, 0, 1]).exec
      (.start (Db.initialized Doc [0, 0, 0, 1] 0)) movedRun).any (fun t => t.active.importing?.any fun active =>
        (active.context editedRead).any fun context =>
          decide (prepareImportActionStage context editedRead = .ok (.stage editedPlan) ∧
            active.kind = .sync ∧
            t.realignedTo (.commitImportAction editedRead 2 [5] [6]) = none ∧
            getText (t.db.importBase editedPlan 2) = [97]) &&
          (t.step (.commitImportAction editedRead 2 [5] [6])).any fun t' =>
            ((daemonMachine Doc [0, 0, 0, 1]).exec t'
              (([.commitImportAction movedRead 2 [7] [8]] : List _).map .serve)).any fun s =>
              (s.step (.commitImportEpoch 3)).isSome) = true := by decide +kernel
  obtain ⟨t, ht, hrun⟩ := Machine.exists_exec hrun
  obtain ⟨active, himporting, hrun⟩ := (Option.any_eq_true _ _).mp hrun
  have hactive := ActiveEpoch.importing?_eq_some_iff.mp himporting
  obtain ⟨context, hcontext, hrun⟩ := (Option.any_eq_true _ _).mp hrun
  obtain ⟨hstaged, hrun⟩ := (Bool.and_eq_true_iff).mp hrun
  obtain ⟨hplan, hkind, hnone, hbase⟩ := of_decide_eq_true hstaged
  obtain ⟨t', hstage, hrun⟩ := (Option.any_eq_true _ _).mp hrun
  obtain ⟨s, hs, hcommit⟩ := Machine.exists_exec hrun
  obtain ⟨s', hcommit⟩ := Option.isSome_iff_exists.mp hcommit
  exact ⟨t, s, s', _, ht, hcommit, hbase, (import_captures_disk (Machine.reached_of_exec rfl ht)
    hactive hkind hcontext hplan hnone hstage hs (by decide +kernel) hcommit rfl).1⟩

end Opbox
