import Opbox.Semantic.DocumentStep
import Opbox.Semantic.Runs

/-!
# Completed projections

A snapshot says what is placed where: the object at each path and its document.  The stable tree
with the stable documents is one, and the live rows of the prior tree with the prior documents are
another.  A plan turns the prior snapshot into the stable one: it writes where the stable snapshot
has something else and deletes where it has nothing.  Stable moves on while the actions are carried
out, but they were numbered and their documents taken when the plan was made, so a plan that is
completed leaves the prior snapshot at the stable snapshot of its planning.
-/

namespace Opbox

variable {D : Type} [TextCrdt D]

/-! ## Snapshots -/

/-- What is placed where: an object and its document. -/
abbrev TreeSnapshot (D : Type) := RelativePath → Option (ObjectId × D)

/-- The desired state of the disk. -/
def Db.stableSnapshot (db : Db D) : TreeSnapshot D := fun path =>
  (db.stableTreeFile path).map fun row => (row.objectId, db.stableText row.objectId)

/-- The accepted state of the disk. -/
def Db.priorSnapshot (db : Db D) : TreeSnapshot D := fun path =>
  (db.priorTreeLiveFile path).map fun row => (row.objectId, db.priorText row.objectId)

section Plan

variable {db : Db D}

theorem stableSnapshot_eq_none_iff {path : RelativePath} :
    db.stableSnapshot path = none ↔ db.stableTreeFile path = none :=
  Option.map_eq_none_iff

theorem priorSnapshot_eq_none_iff {path : RelativePath} :
    db.priorSnapshot path = none ↔ db.priorTreeLiveFile path = none :=
  Option.map_eq_none_iff

theorem stableSnapshot_of_mem {row : StableTreeRow} (h : row ∈ db.stableTree.table) :
    db.stableSnapshot row.path = some (row.objectId, db.stableText row.objectId) := by
  have hfind : db.stableTreeFile row.path = some row := Table.find?_key h
  rw [Db.stableSnapshot, hfind, Option.map_some]

theorem exists_row_of_stableSnapshot {path : RelativePath} (h : db.stableSnapshot path ≠ none) :
    ∃ row ∈ db.stableTree.table, row.path = path := by
  obtain ⟨row, hrow⟩ := Option.ne_none_iff_exists'.mp (mt stableSnapshot_eq_none_iff.mpr h)
  exact ⟨row, Table.mem_of_find? hrow, Table.key_of_find? hrow⟩

variable [DecidableEq D]

/-- Nothing is to be written exactly where the prior snapshot has the object with its stable
document. -/
theorem expectedBefore_eq_none_iff {row : StableTreeRow} :
    db.expectedBefore row = none ↔
      db.priorSnapshot row.path = some (row.objectId, db.stableText row.objectId) := by
  unfold Db.expectedBefore Db.priorSnapshot
  cases db.priorTreeLiveFile row.path with
  | none => simp
  | some prior =>
    simp only [Option.map_some, Option.some.injEq, Prod.mk.injEq, ite_eq_left_iff, reduceCtorEq,
      imp_false, not_not]

/-- The writes of a plan: where the stable snapshot has something that the prior one has not. -/
theorem exists_rowsToWrite_iff {path : RelativePath} :
    (∃ row expected, (row, expected) ∈ db.rowsToWrite ∧ row.path = path) ↔
      db.stableSnapshot path ≠ none ∧ db.stableSnapshot path ≠ db.priorSnapshot path := by
  constructor
  · rintro ⟨row, expected, hmem, rfl⟩
    obtain ⟨hrow, hexpected⟩ := mem_rowsToWrite.mp hmem
    have hstable := stableSnapshot_of_mem hrow
    refine ⟨by rw [hstable]; exact Option.some_ne_none _, fun hsame => ?_⟩
    have hnone : db.expectedBefore row = none :=
      expectedBefore_eq_none_iff.mpr (hsame.symm.trans hstable)
    rw [hnone] at hexpected
    cases hexpected
  · rintro ⟨hsome, hne⟩
    obtain ⟨row, hrow, rfl⟩ := exists_row_of_stableSnapshot hsome
    have hexpected : db.expectedBefore row ≠ none := fun hnone =>
      hne ((stableSnapshot_of_mem hrow).trans (expectedBefore_eq_none_iff.mp hnone).symm)
    obtain ⟨expected, hexpected⟩ := Option.ne_none_iff_exists'.mp hexpected
    exact ⟨row, expected, mem_rowsToWrite.mpr ⟨hrow, hexpected⟩, rfl⟩

omit [DecidableEq D] in
/-- The deletes of a plan: where the prior snapshot has something and the stable one nothing. -/
theorem exists_rowsToDelete_iff {path : RelativePath} :
    (∃ prior ∈ db.rowsToDelete, prior.path = path) ↔
      db.priorSnapshot path ≠ none ∧ db.stableSnapshot path = none := by
  rw [Ne, priorSnapshot_eq_none_iff, stableSnapshot_eq_none_iff]
  constructor
  · rintro ⟨prior, hmem, rfl⟩
    obtain ⟨hlive, hplaced⟩ := mem_rowsToDelete.mp hmem
    have hprior : db.priorTreeLiveFile prior.path = some prior :=
      Db.priorTreeLiveFile_eq_some_iff.mpr ⟨hlive.1, rfl, hlive.2⟩
    exact ⟨by rw [hprior]; exact Option.some_ne_none _, hplaced⟩
  · rintro ⟨hsome, hplaced⟩
    obtain ⟨prior, hprior⟩ := Option.ne_none_iff_exists'.mp hsome
    obtain ⟨hmem, rfl, hlive⟩ := Db.priorTreeLiveFile_eq_some_iff.mp hprior
    exact ⟨prior, mem_rowsToDelete.mpr ⟨⟨hmem, hlive⟩, hplaced⟩, rfl⟩

/-- A plan is empty exactly when the snapshots agree. -/
theorem plannedProjections_eq_nil_iff :
    db.plannedProjections = [] ↔ db.stableSnapshot = db.priorSnapshot := by
  rw [Db.plannedProjections, List.append_eq_nil_iff, List.map_eq_nil_iff, List.map_eq_nil_iff]
  constructor
  · rintro ⟨hwrite, hdelete⟩
    funext path
    by_contra hne
    by_cases hplaced : db.stableSnapshot path = none
    · have hprior : db.priorSnapshot path ≠ none := fun hnone => hne (hplaced.trans hnone.symm)
      obtain ⟨prior, hmem, -⟩ := exists_rowsToDelete_iff.mpr ⟨hprior, hplaced⟩
      rw [hdelete] at hmem
      cases hmem
    · obtain ⟨row, expected, hmem, -⟩ := exists_rowsToWrite_iff.mpr ⟨hplaced, hne⟩
      rw [hwrite] at hmem
      cases hmem
  · intro hsame
    refine ⟨List.eq_nil_iff_forall_not_mem.mpr fun r hr => ?_,
      List.eq_nil_iff_forall_not_mem.mpr fun prior hprior => ?_⟩
    · exact (exists_rowsToWrite_iff.mp ⟨r.1, r.2, hr, rfl⟩).2 (congrFun hsame _)
    · obtain ⟨hsome, hnone⟩ := exists_rowsToDelete_iff.mp ⟨prior, hprior, rfl⟩
      exact hsome ((congrFun hsame _).symm.trans hnone)

/-- Where the snapshots agree nothing is planned. -/
theorem path_ne_of_snapshot_eq {path : RelativePath}
    (h : db.stableSnapshot path = db.priorSnapshot path) :
    ∀ planned ∈ db.plannedProjections, planned.1.path ≠ path := by
  intro planned hplanned hpath
  rcases List.mem_append.mp hplanned with hplanned | hplanned
  · obtain ⟨⟨row, expected⟩, hrow, rfl⟩ := List.mem_map.mp hplanned
    exact (exists_rowsToWrite_iff.mp ⟨row, expected, hrow, hpath⟩).2 h
  · obtain ⟨prior, hprior, rfl⟩ := List.mem_map.mp hplanned
    obtain ⟨hsome, hnone⟩ := exists_rowsToDelete_iff.mp ⟨prior, hprior, hpath⟩
    exact hsome (h.symm.trans hnone)

end Plan

/-! ## Succeeding actions -/

/-- The action reached its target: a write landed, or the file to be deleted is gone. -/
def ProjectionActionResult.succeeds (result : ProjectionActionResult) :
    ProjectionActionKind → Bool
  | .writeFile _ _ _ => result.landed.isSome
  | .deleteFile _ _ => result.deleted

/-- The request ends a projection epoch. -/
def SemanticRequest.endsProjection : SemanticRequest D → Bool
  | commitProjectionEpoch _ _ => true
  | _ => false

/-- The request serves the shared log: a batch, or a request about the outbox. -/
def SemanticRequest.isShared : SemanticRequest D → Bool
  | applySharedMessageBatch _ => true
  | readOutbox _ => true
  | releaseOutbox => true
  | trimOutbox _ => true
  | _ => false

/-- What the actions of the active plan do. -/
def ActiveEpoch.plan : ActiveEpoch D → List ProjectionActionKind
  | projecting active => active.started.actions.map ProjectionAction.kind
  | _ => []

/-- The active plan writes a path. -/
def ActiveEpoch.Writes (active : ActiveEpoch D) (path : RelativePath) : Prop :=
  ∃ bytes expectedBefore, .writeFile path bytes expectedBefore ∈ active.plan

/-- The active plan deletes a path. -/
def ActiveEpoch.Deletes (active : ActiveEpoch D) (path : RelativePath) : Prop :=
  ∃ expectedBefore, .deleteFile path expectedBefore ∈ active.plan

section Commit

variable [DecidableEq D] {db t : Db D}

/-- What an action of a plan is: a write of a row with its stable document, or the delete of an
accepted file that is placed nowhere. -/
theorem action_of_mem {epoch : Nat} {action : ProjectionAction D}
    (h : action ∈ projectionActions epoch db.plannedProjections) :
    (∃ row ∈ db.stableTree.table, ∃ bytes expected,
      action.kind = .writeFile row.path bytes expected ∧
      action.commitContext = ⟨row.path, row.claimedPath, row.claimId, row.objectId,
        some (db.stableText row.objectId)⟩) ∨
      ∃ path expected, db.stableTreeFile path = none ∧ action.kind = .deleteFile path expected ∧
        action.commitContext.path = path ∧ action.commitContext.targetTextDocBlob = none := by
  have hmem := (mem_projectionActions h).1
  rw [Db.plannedProjections, List.mem_append, List.mem_map, List.mem_map] at hmem
  rcases hmem with ⟨⟨row, expected⟩, hrow, heq⟩ | ⟨prior, hprior, heq⟩
  · obtain ⟨hkind, hcontext⟩ := Prod.mk.inj heq
    exact .inl ⟨row, (mem_rowsToWrite.mp hrow).1, _, expected, hkind.symm, hcontext.symm⟩
  · obtain ⟨hkind, hcontext⟩ := Prod.mk.inj heq
    refine .inr ⟨prior.path, _, (mem_rowsToDelete.mp hprior).2, hkind.symm, ?_, ?_⟩
    · rw [← hcontext]
    · rw [← hcontext]

/-- The prior tree has accepted the actions `done` of the plan made on `db`. -/
structure Settled (db : Db D) (done : List (CompletedProjectionAction D)) (t : Db D) : Prop where
  /-- The namespace of the plan. -/
  namespaceDoc : t.priorNamespace = db.stableNamespace
  /-- The other paths are as they were. -/
  untouched : ∀ path, (∀ action ∈ done, action.commitContext.path ≠ path) →
    t.priorTreeLiveFile path = db.priorTreeLiveFile path
  /-- The paths of the actions hold the objects of the stable tree. -/
  settled : ∀ action ∈ done, (t.priorTreeLiveFile action.commitContext.path).map
    PriorTreeRow.objectId =
      (db.stableTreeFile action.commitContext.path).map StableTreeRow.objectId
  /-- A prior document is as it was or the stable one. -/
  texts : ∀ id, t.priorText id = db.priorText id ∨ t.priorText id = db.stableText id
  /-- It is the stable one where an action wrote it. -/
  written : ∀ action ∈ done, action.commitContext.targetTextDocBlob ≠ none →
    t.priorText action.commitContext.objectId = db.stableText action.commitContext.objectId

omit [DecidableEq D] in
/-- At the start of the commit only the namespace is new. -/
theorem settled_nil (htree : t.priorTree = db.priorTree)
    (htexts : t.priorTextObjects = db.priorTextObjects) :
    Settled db [] { t with priorNamespace := db.stableNamespace } where
  namespaceDoc := rfl
  untouched path _ := by rw [Db.priorTreeLiveFile, Db.priorTreeLiveFile, htree]
  settled _ h := absurd h List.not_mem_nil
  texts id := .inl (by rw [Db.priorText, Db.priorTextObjectDoc, Db.priorText,
    Db.priorTextObjectDoc, htexts])
  written _ h := absurd h List.not_mem_nil

/-- The step of a commit: the prior tree accepts one more action of the plan. -/
theorem Settled.accept {done : List (CompletedProjectionAction D)} {epoch : Nat}
    {action : ProjectionAction D} {result : ProjectionActionResult} {now : Timestamp}
    (h : Settled db done t) (haction : action ∈ projectionActions epoch db.plannedProjections)
    (hresult : result.succeeds action.kind = true)
    (hcolumns : ∀ fingerprint, result.landed = some fingerprint →
      ∃ columns, fingerprintColumns "prior_tree" fingerprint = .ok columns)
    (hclock : ∀ row ∈ db.priorTree, row.acceptedAt ≤ now) :
    ∃ t', Runs (commitCompletedProjectionActionTx now ⟨action.id, action.commitContext, result⟩)
        t ⟨⟩ t' ∧
      Settled db (done ++ [⟨action.id, action.commitContext, result⟩]) t' := by
  rcases action_of_mem haction with
    ⟨row, hrow, bytes, expected, hkind, hcontext⟩ | ⟨path, expected, hplaced, hkind, hpath, hdoc⟩
  · rw [hkind] at hresult
    obtain ⟨fingerprint, hlanded⟩ := Option.isSome_iff_exists.mp hresult
    obtain ⟨columns, hcols⟩ := hcolumns fingerprint hlanded
    have hstable : db.stableTreeFile row.path = some row := Table.find?_key hrow
    have hput : ∀ id, (t.writeAccepted action.commitContext (db.stableText row.objectId)
        fingerprint now).priorText id =
          if row.objectId = id then db.stableText row.objectId else t.priorText id := by
      intro id
      rw [hcontext]
      exact priorText_put rfl id
    refine ⟨_, runs_commit_of_landed hlanded (by rw [hcontext]) hcols, h.namespaceDoc, ?_, ?_, ?_,
      ?_⟩
    · intro path hpath
      have hne : action.commitContext.path ≠ path :=
        hpath ⟨action.id, action.commitContext, result⟩ (by simp)
      rw [priorTreeLiveFile_writeAccepted, if_neg hne]
      exact h.untouched path fun other hother => hpath other (by simp [hother])
    · intro other hother
      rw [priorTreeLiveFile_writeAccepted]
      split_ifs with hsame
      · rw [← hsame, hcontext, hstable]
        rfl
      · refine h.settled other ((List.mem_append.mp hother).resolve_right fun hx => hsame ?_)
        rw [List.mem_singleton.mp hx]
    · intro id
      rw [hput]
      split_ifs with hid
      · exact .inr (by rw [hid])
      · exact h.texts id
    · intro other hother hwritten
      rw [hput]
      split_ifs with hid
      · rw [hid]
      · refine h.written other ((List.mem_append.mp hother).resolve_right fun hx => hid ?_) hwritten
        rw [List.mem_singleton.mp hx, hcontext]
  · rw [hkind] at hresult
    have hlive : ∀ row, t.priorTreeLiveFile action.commitContext.path = some row →
        row.acceptedAt ≤ now := by
      intro row hrow
      by_cases hdone : ∃ other ∈ done, other.commitContext.path = action.commitContext.path
      · obtain ⟨other, hother, heq⟩ := hdone
        have hsettled := h.settled other hother
        rw [heq, hrow, hpath, hplaced] at hsettled
        cases hsettled
      · rw [h.untouched _ fun other hother heq => hdone ⟨other, hother, heq⟩] at hrow
        exact hclock row (Db.priorTreeLiveFile_eq_some_iff.mp hrow).1
    refine ⟨_, runs_commit_of_deleted hresult hlive, h.namespaceDoc, ?_, ?_, h.texts, ?_⟩
    · intro path' hpath'
      have hne : action.commitContext.path ≠ path' :=
        hpath' ⟨action.id, action.commitContext, result⟩ (by simp)
      rw [priorTreeLiveFile_deleteAccepted, if_neg hne]
      exact h.untouched path' fun other hother => hpath' other (by simp [hother])
    · intro other hother
      rw [priorTreeLiveFile_deleteAccepted]
      split_ifs with hsame
      · rw [← hsame, hpath, hplaced]
        rfl
      · refine h.settled other ((List.mem_append.mp hother).resolve_right fun hx => hsame ?_)
        rw [List.mem_singleton.mp hx]
    · intro other hother hwritten
      refine h.written other ((List.mem_append.mp hother).resolve_right fun hx => hwritten ?_)
        hwritten
      rw [List.mem_singleton.mp hx, hdoc]

omit [DecidableEq D] in
/-- The objects of a path once its action, if there is one, is accepted. -/
theorem Settled.objects {done : List (CompletedProjectionAction D)} (h : Settled db done t)
    {path : RelativePath}
    (hsame : (∀ action ∈ done, action.commitContext.path ≠ path) →
      (db.priorTreeLiveFile path).map PriorTreeRow.objectId =
        (db.stableTreeFile path).map StableTreeRow.objectId) :
    (t.priorTreeLiveFile path).map PriorTreeRow.objectId =
      (db.stableTreeFile path).map StableTreeRow.objectId := by
  by_cases hacted : ∃ action ∈ done, action.commitContext.path = path
  · obtain ⟨action, haction, rfl⟩ := hacted
    exact h.settled action haction
  · have hnone : ∀ action ∈ done, action.commitContext.path ≠ path :=
      fun action haction hpath => hacted ⟨action, haction, hpath⟩
    rw [h.untouched path hnone]
    exact hsame hnone

/-- Once all actions of the plan are accepted the prior snapshot is the stable snapshot of the
planning. -/
theorem Settled.priorSnapshot {done : List (CompletedProjectionAction D)} (h : Settled db done t)
    (hdone : ∀ planned ∈ db.plannedProjections, ∃ action ∈ done, action.commitContext = planned.2) :
    t.priorSnapshot = db.stableSnapshot := by
  funext path
  have hprior : ∀ db : Db D, db.priorSnapshot path = ((db.priorTreeLiveFile path).map
      PriorTreeRow.objectId).map fun id => (id, db.priorText id) := by
    intro db
    rw [Option.map_map]
    rfl
  have hstable : db.stableSnapshot path = ((db.stableTreeFile path).map
      StableTreeRow.objectId).map fun id => (id, db.stableText id) := by
    rw [Option.map_map]
    rfl
  -- It remains to find the objects of the path, and their documents.
  suffices hobjects : (t.priorTreeLiveFile path).map PriorTreeRow.objectId =
      (db.stableTreeFile path).map StableTreeRow.objectId ∧
      ∀ id ∈ (db.stableTreeFile path).map StableTreeRow.objectId,
        t.priorText id = db.stableText id by
    rw [hprior t, hstable, hobjects.1]
    exact Option.map_congr fun id hid => congrArg (Prod.mk id) (hobjects.2 id hid)
  by_cases hsame : db.stableSnapshot path = db.priorSnapshot path
  · rw [hstable, hprior db] at hsame
    have hids := congrArg (Option.map Prod.fst) hsame
    rw [Option.map_map, Option.map_map] at hids
    have hobjects : (db.priorTreeLiveFile path).map PriorTreeRow.objectId =
        (db.stableTreeFile path).map StableTreeRow.objectId := by
      simpa [Function.comp_def] using hids.symm
    refine ⟨h.objects fun _ => hobjects, fun id hid => ?_⟩
    rw [hobjects, hid, Option.map_some, Option.map_some, Option.some.injEq, Prod.mk.injEq] at hsame
    rcases h.texts id with htext | htext
    · exact htext.trans hsame.2.symm
    · exact htext
  · by_cases hplaced : db.stableSnapshot path = none
    · have hdelete : db.priorSnapshot path ≠ none := fun hnone => hsame (hplaced.trans hnone.symm)
      obtain ⟨prior, hmem, rfl⟩ := exists_rowsToDelete_iff.mpr ⟨hdelete, hplaced⟩
      have hplanned : plannedDelete prior ∈ db.plannedProjections :=
        List.mem_append_right _ (List.mem_map_of_mem hmem)
      obtain ⟨action, haction, hcontext⟩ := hdone _ hplanned
      refine ⟨h.objects fun hnone => absurd (by rw [hcontext]; rfl) (hnone action haction), ?_⟩
      intro id hid
      rw [stableSnapshot_eq_none_iff.mp hplaced] at hid
      cases hid
    · obtain ⟨row, expected, hmem, rfl⟩ := exists_rowsToWrite_iff.mpr ⟨hplaced, hsame⟩
      have hplanned : db.plannedWrite row expected ∈ db.plannedProjections :=
        List.mem_append_left _ (List.mem_map.mpr ⟨(row, expected), hmem, rfl⟩)
      obtain ⟨action, haction, hcontext⟩ := hdone _ hplanned
      refine ⟨h.objects fun hnone => absurd (by rw [hcontext]; rfl) (hnone action haction), ?_⟩
      intro id hid
      have hfind : db.stableTreeFile row.path = some row := Table.find?_key (mem_rowsToWrite.mp hmem).1
      rw [hfind] at hid
      cases hid
      have hwritten := h.written action haction (by rw [hcontext]; exact Option.some_ne_none _)
      rw [hcontext] at hwritten
      exact hwritten

end Commit

section Run

variable [CharDiff] [Xxh3] [DecidableEq D] {db : Db D} {active : ActiveProjectionEpoch D}
  {s s' : SemanticActor D} {request : SemanticRequest D} {writer : DaemonWriterId}

/-! ## Carrying out a plan -/

/-- The plan made on `db` is carried out, and every action that came to a result succeeded. -/
structure Underway (db : Db D) (active : ActiveProjectionEpoch D) (s : SemanticActor D) :
    Prop where
  /-- The active epoch. -/
  projecting : s.active = .projecting active
  /-- It works towards the namespace of the planning. -/
  target : active.started.targetNamespaceDocBlob = db.stableNamespace
  /-- Its actions are those of the plan. -/
  planned : ∃ epoch, active.started.actions = projectionActions epoch db.plannedProjections
  /-- No action came to two results. -/
  nodup : (active.completed.map ProjectionActionResult.actionId).Nodup
  /-- Each result is the success of an action. -/
  succeeded : ∀ result ∈ active.completed, ∃ action ∈ active.started.actions,
    action.id = result.actionId ∧ result.succeeds action.kind = true
  /-- The fingerprints of the files that landed can be stored. -/
  columns : ∀ result ∈ active.completed, ∀ fingerprint, result.landed = some fingerprint →
    ∃ columns, fingerprintColumns "prior_tree" fingerprint = .ok columns
  /-- The prior tree waits for the end of the epoch. -/
  priorTree : s.db.priorTree = db.priorTree
  /-- So do the prior documents. -/
  priorTextObjects : s.db.priorTextObjects = db.priorTextObjects

/-- A request about the shared log leaves the epoch and the prior state alone. -/
theorem Served.shared (h : Served s request s') (hshared : request.isShared = true) :
    s'.active = s.active ∧ s'.db.priorTree = s.db.priorTree ∧
      s'.db.priorTextObjects = s.db.priorTextObjects := by
  cases h with
  | applySharedMessageBatch hrun =>
    obtain ⟨docs, happlied, -⟩ := runs_applySharedMessageBatchTx hrun
    refine ⟨rfl, ?_, ?_⟩
    · rw [happlied.eq]
    · rw [happlied.eq]
  | readOutbox => exact ⟨rfl, rfl, rfl⟩
  | releaseOutbox => exact ⟨rfl, rfl, rfl⟩
  | trimOutbox => exact ⟨rfl, rfl, rfl⟩
  | _ => exact absurd hshared Bool.false_ne_true

omit [CharDiff] [Xxh3] in
/-- The epoch goes on with its prior state as it was. -/
theorem Underway.of_eq (h : Underway db active s) (hactive : s'.active = s.active)
    (htree : s'.db.priorTree = s.db.priorTree)
    (htexts : s'.db.priorTextObjects = s.db.priorTextObjects) : Underway db active s' :=
  { h with
    projecting := hactive.trans h.projecting
    priorTree := htree.trans h.priorTree
    priorTextObjects := htexts.trans h.priorTextObjects }

/-- A plan that was just made has no results yet. -/
theorem underway_of_getNextWork (hplan : s.step .getNextWork = some s')
    (hactive : s'.active = .projecting active) : Underway s.db active s' := by
  cases served_of_step hplan with
  | getNextWork hidle hrun =>
    obtain ⟨rfl, hwork⟩ := runs_getNextWorkTx hrun
    have hprojecting := hactive
    dsimp only at hactive
    rw [hwork] at hactive
    split_ifs at hactive
    · cases hactive
    · cases hactive
      exact ⟨hprojecting, rfl, ⟨_, rfl⟩, List.nodup_nil, fun _ h => absurd h List.not_mem_nil,
        fun _ h => absurd h List.not_mem_nil, rfl, rfl⟩

/-- A request other than the end of the epoch keeps it going; a result it commits is recorded. -/
theorem Underway.served (h : Underway db active s) (hserved : Served s request s')
    (hends : request.endsProjection = false)
    (hsucceeds : ∀ result, request = .commitProjectionAction result →
      ∀ action ∈ active.started.actions, action.id = result.actionId →
        result.succeeds action.kind = true) :
    ∃ completed, Underway db { active with completed := completed } s' ∧
      active.completed ⊆ completed ∧
      ∀ result, request = .commitProjectionAction result → result ∈ completed := by
  by_cases hshared : request.isShared = true
  · obtain ⟨hactive, htree, htexts⟩ := hserved.shared hshared
    refine ⟨active.completed, h.of_eq hactive htree htexts, List.Subset.refl _, ?_⟩
    rintro result rfl
    cases hshared
  · cases hserved with
    | @commitProjectionAction result active' context u db' hactive hcontext hrun =>
      have hsame : active' = active := by
        rw [h.projecting] at hactive
        cases hactive
        rfl
      subst hsame
      obtain ⟨⟨htree, htexts⟩, hcolumns⟩ := frame_of_commitProjectionAction hrun
      unfold ActiveProjectionEpoch.context at hcontext
      split_ifs at hcontext with hnew
      obtain ⟨action, hfind, -⟩ := Option.map_eq_some_iff.mp hcontext
      have hmem := List.mem_of_find?_eq_some hfind
      have hid : action.id = result.actionId := by simpa using List.find?_some hfind
      refine ⟨result :: active'.completed, ⟨rfl, h.target, h.planned, ?_, ?_, ?_, ?_, ?_⟩,
        List.subset_cons_self _ _, fun other heq => ?_⟩
      · exact List.nodup_cons.mpr ⟨hnew, h.nodup⟩
      · intro other hother
        rcases List.mem_cons.mp hother with rfl | hother
        · exact ⟨action, hmem, hid, hsucceeds _ rfl action hmem hid⟩
        · exact h.succeeded other hother
      · intro other hother
        rcases List.mem_cons.mp hother with rfl | hother
        · exact hcolumns
        · exact h.columns other hother
      · exact htree.trans h.priorTree
      · exact htexts.trans h.priorTextObjects
      · cases heq
        exact List.mem_cons_self
    | applyInitScan hidle => rw [h.projecting] at hidle; cases hidle
    | applyScan hidle => rw [h.projecting] at hidle; cases hidle
    | getNextWork hidle => rw [h.projecting] at hidle; cases hidle
    | commitImportAction hactive => rw [h.projecting] at hactive; cases hactive
    | commitImportEpoch hactive => rw [h.projecting] at hactive; cases hactive
    | commitProjectionEpoch => cases hends
    | _ => exact absurd rfl hshared

/-- The run of it: the epoch is still going after any requests that do not end it, and has the
results of all that were committed. -/
theorem Underway.run {requests : List (SemanticRequest D)} (h : Underway db active s)
    (hrun : (daemonMachine D writer).exec s (requests.map .serve) = some s')
    (hends : ∀ request ∈ requests, request.endsProjection = false)
    (hsucceed : ∀ result, .commitProjectionAction result ∈ requests →
      ∀ action ∈ active.started.actions, action.id = result.actionId →
        result.succeeds action.kind = true) :
    ∃ completed, Underway db { active with completed := completed } s' ∧
      active.completed ⊆ completed ∧
      ∀ result, .commitProjectionAction result ∈ requests → result ∈ completed := by
  induction requests generalizing s active with
  | nil =>
    cases hrun
    exact ⟨active.completed, h, List.Subset.refl _, fun _ hmem => absurd hmem List.not_mem_nil⟩
  | cons request requests ih =>
    rw [List.map_cons, Machine.exec, Option.bind_eq_some_iff] at hrun
    obtain ⟨t, hstep, hrun⟩ := hrun
    obtain ⟨completed, ht, hsub, hnew⟩ := h.served (served_of_step hstep)
      (hends request List.mem_cons_self)
      (fun result heq => hsucceed result (heq ▸ List.mem_cons_self))
    obtain ⟨completed', hs', hsub', hnew'⟩ := ih ht hrun
      (fun r hr => hends r (List.mem_cons_of_mem _ hr))
      (fun result hr => hsucceed result (List.mem_cons_of_mem _ hr))
    refine ⟨completed', hs', List.Subset.trans hsub hsub', fun result hmem => ?_⟩
    rcases List.mem_cons.mp hmem with heq | hmem
    · exact hsub' (hnew result heq.symm)
    · exact hnew' result hmem

omit [CharDiff] [Xxh3] in
/-- Every action has a result when every action was answered. -/
theorem Underway.complete (h : Underway db active s)
    (hall : ∀ action ∈ active.started.actions, ∃ result ∈ active.completed,
      result.actionId = action.id) : active.complete = true := by
  obtain ⟨epoch, hplanned⟩ := h.planned
  have hids : (active.started.actions.map ProjectionAction.id).Nodup := by
    rw [hplanned]
    exact nodup_projectionActions _ _
  have hsame : ∀ id, id ∈ active.completed.map ProjectionActionResult.actionId ↔
      id ∈ active.started.actions.map ProjectionAction.id := by
    intro id
    rw [List.mem_map, List.mem_map]
    constructor
    · rintro ⟨result, hresult, rfl⟩
      obtain ⟨action, haction, hid, -⟩ := h.succeeded result hresult
      exact ⟨action, haction, hid⟩
    · rintro ⟨action, haction, rfl⟩
      exact hall action haction
  have hlength := ((List.perm_ext_iff_of_nodup h.nodup hids).mpr hsame).length_eq
  rw [List.length_map, List.length_map] at hlength
  exact decide_eq_true hlength

/-- The commit of a plan whose actions all succeeded: it does not fail, and the prior state is then
the stable state of the planning. -/
theorem Underway.commit {now : Timestamp} (h : Underway db active s)
    (hall : ∀ action ∈ active.started.actions, ∃ result ∈ active.completed,
      result.actionId = action.id)
    (hclock : ∀ row ∈ db.priorTree, row.acceptedAt ≤ now) :
    ∃ s', s.step (.commitProjectionEpoch .planExhausted now) = some s' ∧ s'.active = .idle ∧
      s'.db.priorSnapshot = db.stableSnapshot ∧ s'.db.priorNamespace = db.stableNamespace := by
  obtain ⟨epoch, hplanned⟩ := h.planned
  -- What is committed are the actions of the plan with their results.
  have hfinish : ∀ completed ∈ active.finish.actions, ∃ action ∈ active.started.actions,
      ∃ result ∈ active.completed, completed = ⟨action.id, action.commitContext, result⟩ ∧
        result.succeeds action.kind = true := by
    intro completed hmem
    obtain ⟨action, haction, heq⟩ := List.mem_filterMap.mp hmem
    obtain ⟨result, hfind, rfl⟩ := Option.map_eq_some_iff.mp heq
    have hresult := List.mem_of_find?_eq_some hfind
    have hid : result.actionId = action.id := by simpa using List.find?_some hfind
    obtain ⟨action', haction', hid', hsucceeds⟩ := h.succeeded result hresult
    have hnodup : (active.started.actions.map ProjectionAction.id).Nodup := by
      rw [hplanned]
      exact nodup_projectionActions _ _
    have hsame : action' = action :=
      List.inj_on_of_nodup_map hnodup haction' haction (hid'.trans hid)
    exact ⟨action, haction, result, hresult, rfl, hsame ▸ hsucceeds⟩
  have hcovered : ∀ planned ∈ db.plannedProjections, ∃ completed ∈ active.finish.actions,
      completed.commitContext = planned.2 := by
    intro planned hmem
    rw [← map_projectionActions epoch db.plannedProjections, ← hplanned, List.mem_map] at hmem
    obtain ⟨action, haction, rfl⟩ := hmem
    obtain ⟨result, hresult, hid⟩ := hall action haction
    have hfound : (active.completed.find? fun r => r.actionId = action.id).isSome := by
      rw [List.find?_isSome]
      exact ⟨result, hresult, decide_eq_true hid⟩
    obtain ⟨found, hfound⟩ := Option.isSome_iff_exists.mp hfound
    refine ⟨⟨action.id, action.commitContext, found⟩, List.mem_filterMap.mpr ⟨action, haction, ?_⟩,
      rfl⟩
    rw [hfound]
    rfl
  obtain ⟨t, hloop, hsettled⟩ : ∃ t, Runs (forM active.finish.actions
      (commitCompletedProjectionActionTx now))
      { s.db with priorNamespace := db.stableNamespace } ⟨⟩ t ∧
        Settled db active.finish.actions t := by
    refine Runs.exists_forM (fun done t => Settled db done t)
      (settled_nil h.priorTree h.priorTextObjects) fun done completed rest t hsplit ht => ?_
    obtain ⟨action, haction, result, hresult, rfl, hsucceeds⟩ :=
      hfinish completed (by rw [hsplit]; simp)
    rw [hplanned] at haction
    exact ht.accept haction hsucceeds (h.columns result hresult) hclock
  have hrun : Runs (commitProjectionEpochTx active.finish .planExhausted now) s.db ⟨⟩ t := by
    simp only [commitProjectionEpochTx, updatePriorNamespace, Runs.bind_iff, Runs.modify_iff]
    have htarget : active.finish.targetNamespaceDocBlob = db.stableNamespace := h.target
    rw [htarget]
    exact ⟨⟨⟩, _, rfl, hloop⟩
  refine ⟨{ s with db := t, active := .idle }, ?_, rfl, hsettled.priorSnapshot hcovered,
    hsettled.namespaceDoc⟩
  unfold SemanticActor.step
  rw [h.projecting]
  dsimp only
  rw [h.complete hall, if_neg (by simp), attempt_eq_some_iff.mpr hrun]
  rfl

/-! ## The next plan -/

/-- Planning does not fail, and its plan is that of the database. -/
theorem exists_getNextWork (hidle : s.active = .idle) :
    ∃ s', s.step .getNextWork = some s' ∧
      s'.active.plan = s.db.plannedProjections.map Prod.fst ∧
      (s.db.plannedProjections = [] → s'.active = .idle) := by
  obtain ⟨work, db', hrun⟩ := exists_runs_getNextWorkTx s.db s.nextProjectionEpoch
  refine ⟨⟨db', s.nextImportEpoch, s.nextProjectionEpoch + 1, .ofNextWork work⟩, ?_, ?_, ?_⟩
  · unfold SemanticActor.step
    rw [hidle]
    dsimp only
    rw [attempt_eq_some_iff.mpr hrun]
    rfl
  · rw [(runs_getNextWorkTx hrun).2]
    split_ifs with hnil
    · rw [hnil]
      rfl
    · have hkinds := congrArg (List.map Prod.fst)
        (map_projectionActions s.nextProjectionEpoch s.db.plannedProjections)
      rw [List.map_map] at hkinds
      exact hkinds
  · intro hnil
    rw [(runs_getNextWorkTx hrun).2, if_pos hnil]
    rfl

omit [CharDiff] [Xxh3] in
/-- The writes of a plan. -/
theorem writes_iff {active : ActiveEpoch D}
    (hplan : active.plan = db.plannedProjections.map Prod.fst) (path : RelativePath) :
    active.Writes path ↔
      db.stableSnapshot path ≠ none ∧ db.stableSnapshot path ≠ db.priorSnapshot path := by
  rw [← exists_rowsToWrite_iff, ActiveEpoch.Writes, hplan]
  constructor
  · rintro ⟨bytes, expected, hmem⟩
    obtain ⟨planned, hplanned, hkind⟩ := List.mem_map.mp hmem
    rcases List.mem_append.mp hplanned with hwrite | hdelete
    · obtain ⟨⟨row, e⟩, hrow, rfl⟩ := List.mem_map.mp hwrite
      cases hkind
      exact ⟨row, expected, hrow, rfl⟩
    · obtain ⟨prior, -, rfl⟩ := List.mem_map.mp hdelete
      cases hkind
  · rintro ⟨row, expected, hmem, rfl⟩
    exact ⟨_, expected, List.mem_map.mpr ⟨db.plannedWrite row expected,
      List.mem_append_left _ (List.mem_map.mpr ⟨(row, expected), hmem, rfl⟩), rfl⟩⟩

omit [CharDiff] [Xxh3] in
/-- The deletes of a plan. -/
theorem deletes_iff {active : ActiveEpoch D}
    (hplan : active.plan = db.plannedProjections.map Prod.fst) (path : RelativePath) :
    active.Deletes path ↔ db.priorSnapshot path ≠ none ∧ db.stableSnapshot path = none := by
  rw [← exists_rowsToDelete_iff, ActiveEpoch.Deletes, hplan]
  constructor
  · rintro ⟨expected, hmem⟩
    obtain ⟨planned, hplanned, hkind⟩ := List.mem_map.mp hmem
    rcases List.mem_append.mp hplanned with hwrite | hdelete
    · obtain ⟨⟨row, e⟩, -, rfl⟩ := List.mem_map.mp hwrite
      cases hkind
    · obtain ⟨prior, hprior, rfl⟩ := List.mem_map.mp hdelete
      cases hkind
      exact ⟨prior, hprior, rfl⟩
  · rintro ⟨prior, hmem, rfl⟩
    exact ⟨_, List.mem_map.mpr ⟨plannedDelete prior,
      List.mem_append_right _ (List.mem_map_of_mem hmem), rfl⟩⟩

/-- Requests about the shared log leave the prior snapshot alone. -/
theorem priorSnapshot_of_shared {requests : List (SemanticRequest D)}
    (hrun : (daemonMachine D writer).exec s (requests.map .serve) = some s')
    (hshared : ∀ request ∈ requests, request.isShared = true) :
    s'.active = s.active ∧ s'.db.priorSnapshot = s.db.priorSnapshot := by
  induction requests generalizing s with
  | nil =>
    cases hrun
    exact ⟨rfl, rfl⟩
  | cons request requests ih =>
    rw [List.map_cons, Machine.exec, Option.bind_eq_some_iff] at hrun
    obtain ⟨t, hstep, hrun⟩ := hrun
    obtain ⟨hactive, htree, htexts⟩ :=
      (served_of_step hstep).shared (hshared request List.mem_cons_self)
    obtain ⟨hactive', hsnapshot⟩ := ih hrun fun r hr => hshared r (List.mem_cons_of_mem _ hr)
    refine ⟨hactive'.trans hactive, hsnapshot.trans ?_⟩
    funext path
    simp only [Db.priorSnapshot, Db.priorTreeLiveFile, Db.priorText, Db.priorTextObjectDoc, htree,
      htexts]

/-- A projection whose actions all succeed makes the prior snapshot the stable snapshot of its
planning, whatever batches have come since, and its commit does not fail.  The next plan writes and
deletes exactly where the stable snapshot of then differs from that. -/
theorem completed_projection_is_snapshot {s₁ s₂ : SemanticActor D}
    {meanwhile : List (SemanticRequest D)} {now : Timestamp}
    (hplan : s.step .getNextWork = some s₁) (hactive : s₁.active = .projecting active)
    (hmeanwhile : (daemonMachine D writer).exec s₁ (meanwhile.map .serve) = some s₂)
    (hends : ∀ request ∈ meanwhile, request.endsProjection = false)
    (hsucceed : ∀ result, .commitProjectionAction result ∈ meanwhile →
      ∀ action ∈ active.started.actions, action.id = result.actionId →
        result.succeeds action.kind = true)
    (hall : ∀ action ∈ active.started.actions, ∃ result,
      .commitProjectionAction result ∈ meanwhile ∧ result.actionId = action.id)
    (hclock : ∀ row ∈ s.db.priorTree, row.acceptedAt ≤ now) :
    ∃ s₃, s₂.step (.commitProjectionEpoch .planExhausted now) = some s₃ ∧
      s₃.db.priorSnapshot = s.db.stableSnapshot ∧ s₃.db.priorNamespace = s.db.stableNamespace ∧
      ∀ (later : List (SemanticRequest D)) (s₄ : SemanticActor D), (∀ request ∈ later, request.isShared = true) →
        (daemonMachine D writer).exec s₃ (later.map .serve) = some s₄ →
        ∃ s₅, s₄.step .getNextWork = some s₅ ∧
          (∀ path, s₅.active.Writes path ↔ s₄.db.stableSnapshot path ≠ none ∧
            s₄.db.stableSnapshot path ≠ s.db.stableSnapshot path) ∧
          (∀ path, s₅.active.Deletes path ↔ s.db.stableSnapshot path ≠ none ∧
            s₄.db.stableSnapshot path = none) ∧
          (s₄.db.stableSnapshot = s.db.stableSnapshot → s₅.active = .idle) := by
  have hstart := underway_of_getNextWork hplan hactive
  obtain ⟨completed, hunder, -, hnew⟩ := hstart.run hmeanwhile hends hsucceed
  obtain ⟨s₃, hcommit, hidle, hsnapshot, hns⟩ := hunder.commit (fun action haction => by
    obtain ⟨result, hmem, hid⟩ := hall action haction
    exact ⟨result, hnew result hmem, hid⟩) hclock
  refine ⟨s₃, hcommit, hsnapshot, hns, fun later s₄ hshared hlater => ?_⟩
  obtain ⟨hactive₄, hprior⟩ := priorSnapshot_of_shared hlater hshared
  obtain ⟨s₅, hnext, hplan₅, hnone⟩ := exists_getNextWork (hactive₄.trans hidle)
  rw [hsnapshot] at hprior
  refine ⟨s₅, hnext, fun path => ?_, fun path => ?_, fun hsame => hnone ?_⟩
  · rw [writes_iff hplan₅, hprior]
  · rw [deletes_iff hplan₅, hprior]
  · rw [plannedProjections_eq_nil_iff, hprior]
    exact hsame

end Run

/-! ## A projection during which a batch arrives -/

open Snapshots

/-- A batch of the claims of another daemon on new files. -/
def claimsBatch (cursor : SequenceNumber) (entries : List NsEntry) :
    List (SemanticRequest Doc) :=
  ((foreignBatch cursor [.namespaceUpdate (NamespaceDoc.mintedOps 77 cursor entries)]).map
    .applySharedMessageBatch).toList

theorem exists_batch_of_mem_claimsBatch {cursor : SequenceNumber} {entries : List NsEntry}
    {request : SemanticRequest Doc} (h : request ∈ claimsBatch cursor entries) :
    ∃ batch, request = .applySharedMessageBatch batch := by
  rw [claimsBatch, Option.mem_toList, Option.map_eq_some_iff] at h
  obtain ⟨batch, -, rfl⟩ := h
  exact ⟨batch, rfl⟩

/-- The write of the first file lands. -/
def writtenFirst : ProjectionActionResult :=
  .writeFile ⟨0, 0⟩ (.written (.statAndContent (fileStat 7 0 0) []))

/-- Meanwhile the claim of a second file arrives. -/
def writtenMeanwhile : List (SemanticRequest Doc) :=
  .commitProjectionAction writtenFirst ::
    claimsBatch 1 [.object [5] ⟨.text, [9]⟩, .claim [6] ⟨[5], rootFile 2⟩]

/-- What `completed_projection_is_snapshot` says of this run: the next plan writes the second file and
leaves the first one alone. -/
theorem completed_projection_is_snapshot_batchMeanwhile :
    ∃ s s₁ s₂ s₃ : SemanticActor Doc,
      (daemonMachine Doc [0, 0, 0, 1]).exec (.start (Db.initialized Doc [0, 0, 0, 1] 0))
        ((claimsBatch 0 [.object [3] ⟨.text, [9]⟩, .claim [4] ⟨[3], rootFile 1⟩]).map .serve) =
          some s ∧
      s.step .getNextWork = some s₁ ∧
      (daemonMachine Doc [0, 0, 0, 1]).exec s₁ (writtenMeanwhile.map .serve) = some s₂ ∧
      s₂.step (.commitProjectionEpoch .planExhausted 1) = some s₃ ∧
      s₃.db.priorSnapshot = s.db.stableSnapshot ∧
      ∃ s₅, s₃.step .getNextWork = some s₅ ∧ s₅.active.Writes (rootFile 2) ∧
        ¬s₅.active.Writes (rootFile 1) := by
  have hrun : ((daemonMachine Doc [0, 0, 0, 1]).exec (.start (Db.initialized Doc [0, 0, 0, 1] 0))
      ((claimsBatch 0 [.object [3] ⟨.text, [9]⟩, .claim [4] ⟨[3], rootFile 1⟩]).map .serve)).any
      (fun s => (s.step .getNextWork).any fun s₁ => s₁.active.projecting?.any fun active =>
        ((daemonMachine Doc [0, 0, 0, 1]).exec s₁ (writtenMeanwhile.map .serve)).any fun s₂ =>
              (s₂.step (.commitProjectionEpoch .planExhausted 1)).any fun s₃ => decide (
                (∀ action ∈ active.started.actions, action.id = ⟨0, 0⟩ ∧
                  writtenFirst.succeeds action.kind = true) ∧
                (∀ row ∈ s.db.priorTree.rows, row.acceptedAt ≤ 1) ∧
                s₃.db.stableSnapshot (rootFile 2) ≠ none ∧
                s₃.db.stableSnapshot (rootFile 2) ≠ s.db.stableSnapshot (rootFile 2) ∧
                s₃.db.stableSnapshot (rootFile 1) = s.db.stableSnapshot (rootFile 1))) = true := by decide +kernel
  obtain ⟨s, hs, hrun⟩ := Machine.exists_exec hrun
  obtain ⟨s₁, hplan, hrun⟩ := (Option.any_eq_true _ _).mp hrun
  obtain ⟨active, hprojecting, hrun⟩ := (Option.any_eq_true _ _).mp hrun
  have hactive := ActiveEpoch.projecting?_eq_some_iff.mp hprojecting
  obtain ⟨s₂, hmeanwhile, hrun⟩ := Machine.exists_exec hrun
  obtain ⟨s₃, hcommit, hrun⟩ := (Option.any_eq_true _ _).mp hrun
  obtain ⟨hactions, hclock, hplaced, hnew, hsame⟩ := of_decide_eq_true hrun
  have hresult : ∀ result, .commitProjectionAction result ∈ writtenMeanwhile →
      result = writtenFirst := by
    intro result hmem
    rcases List.mem_cons.mp hmem with heq | hmem
    · cases heq
      rfl
    · obtain ⟨batch, heq⟩ := exists_batch_of_mem_claimsBatch hmem
      cases heq
  obtain ⟨s₃', hcommit', hsnapshot, -, hnext⟩ := completed_projection_is_snapshot hplan hactive
    hmeanwhile (by decide +kernel)
    (fun result hmem action haction _ => hresult result hmem ▸ (hactions action haction).2)
    (fun action haction => ⟨writtenFirst, List.mem_cons_self, (hactions action haction).1.symm⟩)
    hclock
  rw [hcommit] at hcommit'
  cases hcommit'
  obtain ⟨s₅, hstep, hwrites, -, -⟩ := hnext [] s₃ (fun _ h => absurd h List.not_mem_nil) rfl
  refine ⟨s, s₁, s₂, s₃, hs, hplan, hmeanwhile, hcommit, hsnapshot, s₅, hstep,
    (hwrites _).mpr ⟨hplaced, hnew⟩, fun h => ((hwrites _).mp h).2 hsame⟩

end Opbox
