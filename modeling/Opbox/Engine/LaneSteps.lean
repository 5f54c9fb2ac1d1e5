import Opbox.Engine.SessionInvariant

/-!
# What the lane of the actor leaves

Starting a request, committing its transaction and finishing it keep the actor coupled with the
engine, and none of the actor's checks fails.  The commit of an epoch is never deferred: the results
of its actions were in the mailbox before it.
-/

namespace Opbox

variable {D : Type}

section InProgress

variable {rt : SemanticRuntimeState D} {epoch : Nat} {active : ActiveImportEpoch}
  {ran : List ImportActionId} {rest : List ImportActionId} {result : ImportActionResult}
  {results : List ImportActionResult}

/-- The commit of a result starts. -/
theorem ImportInProgress.start {context : ImportActionContext}
    (h : ImportInProgress rt epoch none (result :: results) rest active ran) :
    ImportInProgress rt epoch (some (.started (.commitImportAction context result false))) results
      rest active [result.actionId] where
  activeImport := h.activeImport
  activeProjection := h.activeProjection
  epoch := h.epoch
  numbered := h.numbered
  running := .started
  plan := by
    have hran : ran = [] := by cases h.running; rfl
    rw [← h.plan, hran, List.append_nil, List.append_assoc (_ ++ _), List.append_assoc,
      List.append_assoc]
    rfl

/-- The transaction of a result has committed. -/
theorem ImportInProgress.commit {context : ImportActionContext} {id : ImportActionId}
    (h : ImportInProgress rt epoch (some (.started (.commitImportAction context result false))) results
      rest active ran) (hid : id = result.actionId) :
    ImportInProgress rt epoch (some (.committed (.commitImportAction id false))) results rest active
      [id] where
  activeImport := h.activeImport
  activeProjection := h.activeProjection
  epoch := h.epoch
  numbered := h.numbered
  running := .committed
  plan := by
    have hran : ran = [result.actionId] := by cases h.running; rfl
    rw [← h.plan, hran, hid]

/-- The commit of a result has finished. -/
theorem ImportInProgress.finish {id : ImportActionId}
    (h : ImportInProgress rt epoch (some (.committed (.commitImportAction id false))) results rest
      active ran) :
    ImportInProgress { rt with
        activeImport := some { active with completed := id :: active.completed } }
      epoch none results rest { active with completed := id :: active.completed } [] where
  activeImport := rfl
  activeProjection := h.activeProjection
  epoch := h.epoch
  numbered := h.numbered
  running := .none
  plan := by
    have hran : ran = [id] := by cases h.running; rfl
    rw [← h.plan, hran, List.reverse_cons, List.append_nil]

/-- In the end the results follow the plan. -/
theorem ImportInProgress.completed_eq (h : ImportInProgress rt epoch none [] [] active ran) :
    active.completed.reverse = active.expected.map ImportAction.id := by
  have hran : ran = [] := by cases h.running; rfl
  rw [← h.plan, hran, List.map_nil, List.append_nil, List.append_nil, List.append_nil]

/-- Once every action has a result the epoch is complete. -/
theorem ImportInProgress.complete (h : ImportInProgress rt epoch none [] [] active ran) :
    active.complete = true := by
  have hlength := congrArg List.length h.completed_eq
  rw [List.length_reverse, List.length_map] at hlength
  exact decide_eq_true hlength

/-- In the end every action has a result. -/
theorem ImportInProgress.mem_completed (h : ImportInProgress rt epoch none [] [] active ran) :
    ∀ action ∈ active.expected, action.id ∈ active.completed := by
  intro action haction
  rw [← List.mem_reverse, h.completed_eq]
  exact List.mem_map_of_mem haction

end InProgress

section InProgress

variable {rt : SemanticRuntimeState D} {epoch : Nat} {active : ActiveProjectionEpoch D}
  {ran : List ProjectionActionResult} {rest : List ProjectionActionId}
  {result : ProjectionActionResult} {results : List ProjectionActionResult} {valid : Prop}

/-- The commit of a result starts. -/
theorem ProjectionInProgress.start {context : ProjectionActionCommitContext D}
    (h : ProjectionInProgress rt epoch none (result :: results) rest valid active ran) :
    ProjectionInProgress rt epoch (some (.started (.commitProjectionAction context result false)))
      results rest valid active [result] := by
  have hran : ran = [] := by cases h.running; rfl
  have hsame : active.completed.reverse ++ [result] ++ results =
      active.completed.reverse ++ ran ++ (result :: results) := by
    rw [hran, List.append_nil, List.append_assoc]
    rfl
  exact ⟨h.activeProjection, h.activeImport, h.epoch, h.numbered, .started, by rw [hsame]; exact h.plan,
    by rw [hsame]; exact h.succeeded⟩

/-- The transaction of a result has committed. -/
theorem ProjectionInProgress.commit {context : ProjectionActionCommitContext D}
    (h : ProjectionInProgress rt epoch (some (.started (.commitProjectionAction context result false)))
      results rest valid active ran) :
    ProjectionInProgress rt epoch (some (.committed (.commitProjectionAction result false))) results
      rest valid active [result] := by
  have hran : ran = [result] := by cases h.running; rfl
  rw [hran] at h
  exact { h with running := .committed }

/-- The commit of a result has finished. -/
theorem ProjectionInProgress.finish
    (h : ProjectionInProgress rt epoch (some (.committed (.commitProjectionAction result false)))
      results rest valid active ran) :
    ProjectionInProgress { rt with
        activeProjection := some { active with completed := result :: active.completed } }
      epoch none results rest valid { active with completed := result :: active.completed } [] := by
  have hran : ran = [result] := by cases h.running; rfl
  have hsame : (result :: active.completed).reverse ++ [] ++ results =
      active.completed.reverse ++ ran ++ results := by
    rw [hran, List.reverse_cons, List.append_nil]
  exact ⟨rfl, h.activeImport, h.epoch, h.numbered, .none, by rw [hsame]; exact h.plan,
    by rw [hsame]; exact h.succeeded⟩

/-- In the end the results follow the plan. -/
theorem ProjectionInProgress.completed_eq
    (h : ProjectionInProgress rt epoch none [] [] valid active ran) :
    active.completed.reverse.map ProjectionActionResult.actionId =
      active.started.actions.map ProjectionAction.id := by
  have hran : ran = [] := by cases h.running; rfl
  rw [← h.plan, hran, List.append_nil, List.append_nil, List.append_nil]

/-- Once every action has a result the epoch is complete. -/
theorem ProjectionInProgress.complete (h : ProjectionInProgress rt epoch none [] [] valid active ran) :
    active.complete = true := by
  have hlength := congrArg List.length h.completed_eq
  rw [List.length_map, List.length_reverse, List.length_map] at hlength
  exact decide_eq_true hlength

/-- In the end every action has a result. -/
theorem ProjectionInProgress.mem_completed
    (h : ProjectionInProgress rt epoch none [] [] valid active ran) :
    ∀ action ∈ active.started.actions,
      action.id ∈ active.completed.map ProjectionActionResult.actionId := by
  intro action haction
  have hmem := List.mem_map_of_mem (f := ProjectionAction.id) haction
  rw [← h.completed_eq, List.map_reverse, List.mem_reverse] at hmem
  exact hmem

end InProgress

/-! ## Starting a request -/

namespace SemanticLane

variable {lane : SemanticLane D} {phase : EnginePhase D} {queued : List (SemanticMessage D)}
  {answered : List (SemanticResponse D)} {calls : List (FsCall D)}

/-- No commit is deferred. -/
structure Undeferred (lane : SemanticLane D) : Prop where
  deferredImport : lane.deferredImportEpochCommit = none
  deferredProjection : lane.deferredProjectionEpochCommit = none

/-- What a request leaves when it is started: a task of its phase runs. -/
structure Started (lane lane' : SemanticLane D) (phase : EnginePhase D)
    (queued : List (SemanticMessage D)) (answered : List (SemanticResponse D))
    (calls : List (FsCall D)) (task : SemanticTask D) : Prop where
  running : lane'.running = some (.started task)
  isPhase : (RunningOp.started task).isPhase = true
  db : lane'.db = lane.db
  undeferred : lane'.Undeferred
  coupled : Coupled lane'.runtime phase ⟨queued, some (.started task), answered, calls⟩

/-- A scan reserves an import epoch. -/
theorem startApplyScan_ok (h : lane.runtime.Inactive) (scan : ScanResult) :
    lane.startRequest (.applyScan scan) =
      .ok ({ lane with runtime := { lane.runtime with
          nextImportEpoch := lane.runtime.nextImportEpoch + 1 } }.push
        (.applyScan scan lane.runtime.nextImportEpoch)) := by
  rw [startRequest, SemanticRuntimeState.reserveImportEpoch_ok h.activeImport]
  rfl

/-- A request for the next work reserves a projection epoch. -/
theorem startGetNextWork_ok (h : lane.runtime.Inactive) (boundary : Nat) :
    lane.startRequest (.getNextWork boundary) =
      .ok ({ lane with runtime := { lane.runtime with
          nextProjectionEpoch := lane.runtime.nextProjectionEpoch + 1 } }.push
        (.getNextWork lane.runtime.nextProjectionEpoch boundary)) := by
  rw [startRequest, SemanticRuntimeState.reserveProjectionEpoch_ok h.activeProjection]
  rfl

/-- The result of an import action is committed. -/
theorem startImportAction_ok {epoch : Nat} {result : ImportActionResult}
    {results : List ImportActionResult} {rest : List ImportActionId} {active : ActiveImportEpoch}
    {ran : List ImportActionId}
    (h : ImportInProgress lane.runtime epoch none (result :: results) rest active ran) :
    ∃ context, lane.startRequest (.commitImportAction result false) =
        .ok (lane.push (.commitImportAction context result false)) ∧
      ImportInProgress lane.runtime epoch
        (some (.started (.commitImportAction context result false))) results rest active
        [result.actionId] := by
  obtain ⟨hepoch, hmem, hnew⟩ := h.fits result.actionId
    (List.mem_append_right _ (List.mem_map_of_mem List.mem_cons_self))
  obtain ⟨context, hcontext⟩ :=
    SemanticRuntimeState.validateImportAction_ok h.activeImport hepoch hmem hnew
  refine ⟨context, ?_, h.start⟩
  rw [startRequest, hcontext]
  rfl

/-- The result of a projection action is committed. -/
theorem startProjectionAction_ok {epoch : Nat} {result : ProjectionActionResult}
    {results : List ProjectionActionResult} {rest : List ProjectionActionId} {valid : Prop}
    {active : ActiveProjectionEpoch D} {ran : List ProjectionActionResult}
    (h : ProjectionInProgress lane.runtime epoch none (result :: results) rest valid active ran) :
    ∃ context, lane.startRequest (.commitProjectionAction result false) =
        .ok (lane.push (.commitProjectionAction context result false)) ∧
      ProjectionInProgress lane.runtime epoch
        (some (.started (.commitProjectionAction context result false))) results rest valid active
        [result] := by
  obtain ⟨hepoch, hmem, hnew⟩ := h.fits result (List.mem_append_right _ List.mem_cons_self)
  obtain ⟨context, hcontext⟩ :=
    SemanticRuntimeState.validateProjectionAction_ok h.activeProjection hepoch hmem hnew
  refine ⟨context, ?_, h.start⟩
  rw [startRequest, hcontext]
  rfl

/-- The commit of a complete import epoch starts at once. -/
theorem startImportEpoch_ok {epoch : Nat} {active : ActiveImportEpoch} {ran : List ImportActionId}
    (hd : lane.Undeferred) (h : ImportInProgress lane.runtime epoch none [] [] active ran) :
    lane.startRequest (.commitImportEpoch epoch) =
      .ok ({ lane with runtime := { lane.runtime with activeImport := none } }.push
        (.commitImportEpoch active.finish)) := by
  have hvalid := SemanticRuntimeState.validateImportEpochCommit_ok h.activeImport
  have hfinish :=
    SemanticRuntimeState.finishImportEpoch_ok h.activeImport h.complete h.mem_completed
  rw [h.epoch] at hvalid hfinish
  have hcomplete : lane.runtime.importEpochComplete epoch = .ok true := by
    rw [SemanticRuntimeState.importEpochComplete, hvalid, ← h.complete]
    rfl
  rw [startRequest, hvalid, hcomplete]
  show (require (lane.deferredImportEpochCommit = none) _ >>= fun _ =>
    lane.startCommitImportEpoch epoch) = _
  rw [require_of hd.deferredImport, startCommitImportEpoch, hfinish]
  rfl

/-- The commit of a projection epoch starts at once: its results are committed, and all of them are
there if the plan was exhausted. -/
theorem startProjectionEpoch_ok {epoch : Nat} {reason : ProjectionEpochEndReason}
    {dropped : List ProjectionActionId} {valid : Prop} {active : ActiveProjectionEpoch D}
    {ran : List ProjectionActionResult} (hd : lane.Undeferred) (hrunning : lane.running = none)
    (h : ProjectionInProgress lane.runtime epoch none [] dropped valid active ran)
    (hdropped : reason = .planExhausted → dropped = []) :
    lane.startRequest (.commitProjectionEpoch epoch reason) =
      .ok ({ lane with runtime := { lane.runtime with activeProjection := none } }.push
        (.commitProjectionEpoch active.finish reason)) := by
  have hcomplete : reason = .planExhausted → active.complete = true := by
    intro hreason
    rw [hdropped hreason] at h
    exact h.complete
  have hall : reason = .planExhausted → ∀ action ∈ active.started.actions,
      action.id ∈ active.completed.map ProjectionActionResult.actionId := by
    intro hreason
    rw [hdropped hreason] at h
    exact h.mem_completed
  have hvalid := SemanticRuntimeState.validateProjectionEpochCommit_ok h.activeProjection
  have hfinish := SemanticRuntimeState.finishProjectionEpoch_ok h.activeProjection hcomplete hall
  rw [h.epoch] at hvalid hfinish
  have hready : lane.projectionEpochReadyToCommit epoch reason = .ok true := by
    have hflight : lane.projectionActionCommitsInFlight = false := by
      rw [projectionActionCommitsInFlight, hrunning]
    unfold projectionEpochReadyToCommit
    rw [hvalid, hflight]
    cases reason with
    | planExhausted =>
      show lane.runtime.projectionEpochComplete epoch = _
      rw [SemanticRuntimeState.projectionEpochComplete, hvalid, ← hcomplete rfl]
      rfl
    | actionInvalidatedProjection id => rfl
  rw [startRequest, hvalid, hready]
  show (require (lane.deferredProjectionEpochCommit = none) _ >>= fun _ =>
    lane.startCommitProjectionEpoch epoch reason) = _
  rw [require_of hd.deferredProjection, startCommitProjectionEpoch, hfinish]
  rfl

/-- The actor starts the next request of a phase. -/
theorem startRequest_ok {message : SemanticMessage D} (hd : lane.Undeferred)
    (hrunning : lane.running = none)
    (h : Coupled lane.runtime phase ⟨message :: queued, none, answered, calls⟩) :
    ∃ lane' task, lane.startRequest message = .ok lane' ∧
      lane.Started lane' phase queued answered calls task := by
  generalize hqueued : message :: queued = messages at h
  cases h with
  | idle => cases hqueued
  | nextWorkAsked hrt =>
    cases hqueued
    refine ⟨_, _, startGetNextWork_ok hrt _, rfl, rfl, rfl, ⟨hd.1, hd.2⟩, ?_⟩
    exact .nextWorkStarted ⟨hrt.activeImport, hrt.activeProjection⟩
  | scanQueued hrt =>
    cases hqueued
    refine ⟨_, _, startApplyScan_ok hrt _, rfl, rfl, rfl, ⟨hd.1, hd.2⟩, ?_⟩
    exact .scanStarted ⟨hrt.activeImport, hrt.activeProjection⟩
  | @dispatchingImports epoch queue inFlight results _ active ran hprogress =>
    cases results with
    | nil => cases hqueued
    | cons result results =>
      cases hqueued
      obtain ⟨context, heq, hprogress'⟩ := startImportAction_ok hprogress
      exact ⟨_, _, heq, rfl, rfl, rfl, ⟨hd.1, hd.2⟩, .dispatchingImports _ hprogress'⟩
  | @committingImport epoch results _ active ran hprogress =>
    cases results with
    | nil =>
      cases hqueued
      refine ⟨_, _, startImportEpoch_ok hd hprogress, rfl, rfl, rfl, ⟨hd.1, hd.2⟩, ?_⟩
      exact .importCommitStarted ⟨rfl, hprogress.activeProjection⟩
    | cons result results =>
      cases hqueued
      obtain ⟨context, heq, hprogress'⟩ := startImportAction_ok hprogress
      exact ⟨_, _, heq, rfl, rfl, rfl, ⟨hd.1, hd.2⟩, .committingImport hprogress'⟩
  | @dispatchingProjections epoch generation plan inFlight results _ active ran hprogress =>
    cases results with
    | nil => cases hqueued
    | cons result results =>
      cases hqueued
      obtain ⟨context, heq, hprogress'⟩ := startProjectionAction_ok hprogress
      exact ⟨_, _, heq, rfl, rfl, rfl, ⟨hd.1, hd.2⟩, .dispatchingProjections _ hprogress'⟩
  | @drainingProjections epoch generation id dropped results _ active ran hprogress =>
    cases results with
    | nil => cases hqueued
    | cons result results =>
      cases hqueued
      obtain ⟨context, heq, hprogress'⟩ := startProjectionAction_ok hprogress
      exact ⟨_, _, heq, rfl, rfl, rfl, ⟨hd.1, hd.2⟩, .drainingProjections hprogress'⟩
  | @committingProjection epoch generation reason dropped results _ active ran hprogress hdropped =>
    cases results with
    | nil =>
      cases hqueued
      refine ⟨_, _, startProjectionEpoch_ok hd hrunning hprogress hdropped, rfl, rfl, rfl,
        ⟨hd.1, hd.2⟩, ?_⟩
      exact .projectionCommitStarted ⟨hprogress.activeImport, rfl⟩
    | cons result results =>
      cases hqueued
      obtain ⟨context, heq, hprogress'⟩ := startProjectionAction_ok hprogress
      exact ⟨_, _, heq, rfl, rfl, rfl, ⟨hd.1, hd.2⟩, .committingProjection hprogress' hdropped⟩
  | _ => cases hqueued

end SemanticLane

/-! ## Committing its transaction -/

section Commit

variable [TextCrdt D] [CharDiff] [Xxh3] [DecidableEq D] {now : Timestamp} {objectId : ObjectId}
  {claimId : NamespaceClaimId} {db db' : Db D} {result : SemanticTaskResult D}

/-- A boundary gives no import, and numbers its plan. -/
theorem runs_getNextWork_task {epoch boundary : Nat}
    (h : Runs ((SemanticTask.getNextWork epoch boundary : SemanticTask D).run now objectId claimId) db
      result db') :
    ∃ work : NextWork D, result = .getNextWork boundary work ∧ work.OfBoundary ∧
      Runs (getNextWorkTx epoch) db work db' := by
  simp only [SemanticTask.run, Runs.bind_iff, Runs.pure_iff] at h
  obtain ⟨work, _, hrun, rfl, rfl⟩ := h
  refine ⟨work, rfl, ?_, hrun⟩
  obtain ⟨-, rfl⟩ := runs_getNextWorkTx hrun
  split_ifs
  · trivial
  · exact numbered_projectionActions _ _ _ _

/-- Only a request for the next work finds work. -/
theorem runs_task_getNextWork {task : SemanticTask D} {boundary : Nat} {work : NextWork D}
    (h : Runs (task.run now objectId claimId) db (.getNextWork boundary work) db') :
    ∃ epoch, task = .getNextWork epoch boundary ∧ Runs (getNextWorkTx epoch) db work db' := by
  cases task with
  | getNextWork epoch boundary' =>
    obtain ⟨work', hwork, -, hrun⟩ := runs_getNextWork_task h
    cases hwork
    exact ⟨epoch, rfl, hrun⟩
  | readStableNamespace =>
    rw [SemanticTask.run, Runs.pure_iff] at h
    cases h.1
  | _ =>
    simp only [SemanticTask.run, Runs.bind_iff, Runs.pure_iff] at h
    obtain ⟨_, _, _, h, _⟩ := h
    cases h

/-- A scan gives no projection, and numbers its plan. -/
theorem runs_applyScan_task {scan : ScanResult} {epoch : Nat}
    (h : Runs ((SemanticTask.applyScan scan epoch : SemanticTask D).run now objectId claimId) db
      result db') :
    ∃ output, result = .applyScan output ∧ output.nextWork.OfScan := by
  simp only [SemanticTask.run, Runs.bind_iff, Runs.pure_iff] at h
  obtain ⟨output, _, hrun, rfl, rfl⟩ := h
  refine ⟨output, rfl, ?_⟩
  obtain ⟨-, hwork⟩ := runs_applyScan hrun
  rw [hwork]
  split_ifs
  · trivial
  · exact numbered_readActions _ _

/-- Committing the result of an import action names the action. -/
theorem runs_commitImportAction_task {context : ImportActionContext} {action : ImportActionResult}
    {checked : Bool}
    (h : Runs ((SemanticTask.commitImportAction context action checked : SemanticTask D).run now
      objectId claimId) db result db') :
    result = .commitImportAction action.actionId checked := by
  simp only [SemanticTask.run, Runs.bind_iff, Runs.pure_iff] at h
  obtain ⟨id, _, hrun, rfl, rfl⟩ := h
  rw [(runs_commitImportAction hrun).1]

/-- What runs stays coupled when its transaction commits. -/
theorem Coupled.commit {rt : SemanticRuntimeState D} {phase : EnginePhase D}
    {queued : List (SemanticMessage D)} {answered : List (SemanticResponse D)}
    {calls : List (FsCall D)} {task : SemanticTask D}
    (h : Coupled rt phase ⟨queued, some (.started task), answered, calls⟩)
    (hrun : Runs (task.run now objectId claimId) db result db') :
    (RunningOp.committed result).isPhase = true ∧
      Coupled rt phase ⟨queued, some (.committed result), answered, calls⟩ := by
  cases h with
  | nextWorkStarted hrt =>
    obtain ⟨work, rfl, hwork, -⟩ := runs_getNextWork_task hrun
    exact ⟨rfl, .nextWorkFound hrt hwork⟩
  | scanStarted hrt =>
    obtain ⟨output, rfl, hwork⟩ := runs_applyScan_task hrun
    exact ⟨rfl, .scanApplied hrt hwork⟩
  | dispatchingImports inFlight hprogress =>
    cases hprogress.running with
    | started =>
      rw [runs_commitImportAction_task hrun]
      exact ⟨rfl, .dispatchingImports _ (hprogress.commit rfl)⟩
  | committingImport hprogress =>
    cases hprogress.running with
    | started =>
      rw [runs_commitImportAction_task hrun]
      exact ⟨rfl, .committingImport (hprogress.commit rfl)⟩
  | importCommitStarted hrt =>
    simp only [SemanticTask.run, Runs.bind_iff, Runs.pure_iff] at hrun
    obtain ⟨effects, _, -, rfl, rfl⟩ := hrun
    exact ⟨rfl, .importCommitted hrt⟩
  | dispatchingProjections inFlight hprogress =>
    cases hprogress.running with
    | started =>
      simp only [SemanticTask.run, Runs.bind_iff, Runs.pure_iff] at hrun
      obtain ⟨_, _, -, rfl, rfl⟩ := hrun
      exact ⟨rfl, .dispatchingProjections _ hprogress.commit⟩
  | drainingProjections hprogress =>
    cases hprogress.running with
    | started =>
      simp only [SemanticTask.run, Runs.bind_iff, Runs.pure_iff] at hrun
      obtain ⟨_, _, -, rfl, rfl⟩ := hrun
      exact ⟨rfl, .drainingProjections hprogress.commit⟩
  | committingProjection hprogress hdropped =>
    cases hprogress.running with
    | started =>
      simp only [SemanticTask.run, Runs.bind_iff, Runs.pure_iff] at hrun
      obtain ⟨_, _, -, rfl, rfl⟩ := hrun
      exact ⟨rfl, .committingProjection hprogress.commit hdropped⟩
  | projectionCommitStarted hrt =>
    simp only [SemanticTask.run, Runs.bind_iff, Runs.pure_iff] at hrun
    obtain ⟨_, _, -, rfl, rfl⟩ := hrun
    exact ⟨rfl, .projectionCommitted hrt⟩

end Commit

/-! ## Finishing a request -/

namespace SemanticLane

variable {lane : SemanticLane D} {phase : EnginePhase D} {queued : List (SemanticMessage D)}
  {answered : List (SemanticResponse D)} {calls : List (FsCall D)}

/-- What a finished request leaves: nothing runs, and its reply is on its way. -/
structure FinishedWith (lane : SemanticLane D) (finished : Finished D) (phase : EnginePhase D)
    (queued : List (SemanticMessage D)) (answered : List (SemanticResponse D))
    (calls : List (FsCall D)) : Prop where
  running : finished.lane.running = none
  db : finished.lane.db = lane.db
  undeferred : finished.lane.Undeferred
  replies : ∀ reply ∈ finished.replies, reply.isPhase = true
  coupled : Coupled finished.lane.runtime phase ⟨queued, none, answered ++ finished.replies, calls⟩

/-- A committed result of an import action is entered. -/
theorem finishImportAction_ok {epoch : Nat} {id : ImportActionId}
    {results : List ImportActionResult} {rest : List ImportActionId} {active : ActiveImportEpoch}
    {ran : List ImportActionId} (hd : lane.Undeferred)
    (h : ImportInProgress lane.runtime epoch (some (.committed (.commitImportAction id false)))
      results rest active ran) :
    lane.finishTaskResult (.commitImportAction id false) =
      .ok ⟨{ lane with runtime := { lane.runtime with
        activeImport := some { active with completed := id :: active.completed } } }, [], []⟩ := by
  have hran : ran = [id] := by cases h.running; rfl
  obtain ⟨hepoch, hmem, hnew⟩ := h.fits id
    (List.mem_append_left _ (by rw [hran]; exact List.mem_cons_self))
  rw [finishTaskResult,
    SemanticRuntimeState.finishImportAction_ok h.activeImport hepoch hmem hnew]
  show (startReadyDeferredImportEpochCommit _ >>= fun _ => _) = _
  rw [startReadyDeferredImportEpochCommit, hd.deferredImport]
  rfl

/-- A committed result of a projection action is entered. -/
theorem finishProjectionAction_ok {epoch : Nat} {result : ProjectionActionResult}
    {results : List ProjectionActionResult} {rest : List ProjectionActionId} {valid : Prop}
    {active : ActiveProjectionEpoch D} {ran : List ProjectionActionResult} (hd : lane.Undeferred)
    (h : ProjectionInProgress lane.runtime epoch
      (some (.committed (.commitProjectionAction result false))) results rest valid active ran) :
    lane.finishTaskResult (.commitProjectionAction result false) =
      .ok ⟨{ lane with runtime := { lane.runtime with
        activeProjection := some { active with completed := result :: active.completed } } },
        [], []⟩ := by
  have hran : ran = [result] := by cases h.running; rfl
  obtain ⟨hepoch, hmem, hnew⟩ := h.fits result
    (List.mem_append_left _ (by rw [hran]; exact List.mem_cons_self))
  rw [finishTaskResult,
    SemanticRuntimeState.finishProjectionAction_ok h.activeProjection hepoch hmem hnew]
  show (startReadyDeferredProjectionEpochCommit _ >>= fun _ => _) = _
  rw [startReadyDeferredProjectionEpochCommit, hd.deferredProjection]
  rfl

/-- The work of a scan is installed. -/
theorem finishApplyScan_ok (lane : SemanticLane D) {output : ApplyScanOutput D} (hrt : lane.runtime.Inactive)
    (hwork : output.nextWork.OfScan) :
    ∃ rt, lane.finishTaskResult (.applyScan output) = .ok ⟨{ lane with runtime := rt },
        output.effects.emit, [.applyScan output.nextWork]⟩ ∧ rt.Installed output.nextWork := by
  obtain ⟨work, effects⟩ := output
  cases work with
  | none => exact ⟨lane.runtime, rfl, .none hrt⟩
  | project started => exact hwork.elim
  | importEpoch started =>
    refine ⟨{ lane.runtime with
      activeImport := some ⟨started.epoch, .sync, started.actions, []⟩ }, ?_,
      .importEpoch rfl hrt.activeProjection⟩
    show (lane.runtime.installImportEpoch started .sync >>= fun _ => _) = _
    rw [SemanticRuntimeState.installImportEpoch_ok hrt.activeImport hwork]
    rfl

/-- The work of a boundary is installed. -/
theorem finishGetNextWork_ok (lane : SemanticLane D) {boundary : Nat} {work : NextWork D} (hrt : lane.runtime.Inactive)
    (hwork : work.OfBoundary) :
    ∃ rt, lane.finishTaskResult (.getNextWork boundary work) = .ok ⟨{ lane with runtime := rt }, [],
        [.getNextWork boundary work]⟩ ∧ rt.Installed work := by
  cases work with
  | none => exact ⟨lane.runtime, rfl, .none hrt⟩
  | importEpoch started => exact hwork.elim
  | project started =>
    refine ⟨{ lane.runtime with activeProjection := some ⟨started, []⟩ }, ?_,
      .project rfl hrt.activeImport⟩
    show (lane.runtime.installProjectionEpoch started >>= fun _ => _) = _
    rw [SemanticRuntimeState.installProjectionEpoch_ok hrt.activeProjection hwork]
    rfl

/-- The actor finishes the request of a phase. -/
theorem finishTaskResult_ok (lane : SemanticLane D) {result : SemanticTaskResult D} (hd : lane.Undeferred)
    (hrunning : lane.running = none)
    (h : Coupled lane.runtime phase ⟨queued, some (.committed result), answered, calls⟩) :
    ∃ finished, lane.finishTaskResult result = .ok finished ∧
      lane.FinishedWith finished phase queued answered calls := by
  cases h with
  | nextWorkFound hrt hwork =>
    obtain ⟨rt, heq, hinstalled⟩ := finishGetNextWork_ok lane hrt hwork
    exact ⟨_, heq, hrunning, rfl, ⟨hd.1, hd.2⟩, by simp [SemanticResponse.isPhase],
      .nextWorkAnswered hinstalled hwork⟩
  | scanApplied hrt hwork =>
    obtain ⟨rt, heq, hinstalled⟩ := finishApplyScan_ok lane hrt hwork
    exact ⟨_, heq, hrunning, rfl, ⟨hd.1, hd.2⟩, by simp [SemanticResponse.isPhase],
      .scanAnswered hinstalled hwork⟩
  | dispatchingImports inFlight hprogress =>
    cases hprogress.running with
    | committed =>
      exact ⟨_, finishImportAction_ok hd hprogress, hrunning, rfl, ⟨hd.1, hd.2⟩, nofun,
        .dispatchingImports _ hprogress.finish⟩
  | committingImport hprogress =>
    cases hprogress.running with
    | committed =>
      exact ⟨_, finishImportAction_ok hd hprogress, hrunning, rfl, ⟨hd.1, hd.2⟩, nofun,
        .committingImport hprogress.finish⟩
  | importCommitted hrt =>
    exact ⟨_, rfl, hrunning, rfl, hd, by simp [SemanticResponse.isPhase], .importCommitAnswered hrt⟩
  | dispatchingProjections inFlight hprogress =>
    cases hprogress.running with
    | committed =>
      exact ⟨_, finishProjectionAction_ok hd hprogress, hrunning, rfl, ⟨hd.1, hd.2⟩, nofun,
        .dispatchingProjections _ hprogress.finish⟩
  | drainingProjections hprogress =>
    cases hprogress.running with
    | committed =>
      exact ⟨_, finishProjectionAction_ok hd hprogress, hrunning, rfl, ⟨hd.1, hd.2⟩, nofun,
        .drainingProjections hprogress.finish⟩
  | committingProjection hprogress hdropped =>
    cases hprogress.running with
    | committed =>
      exact ⟨_, finishProjectionAction_ok hd hprogress, hrunning, rfl, ⟨hd.1, hd.2⟩, nofun,
        .committingProjection hprogress.finish hdropped⟩
  | projectionCommitted hrt =>
    exact ⟨_, rfl, hrunning, rfl, hd, by simp [SemanticResponse.isPhase],
      .projectionCommitAnswered hrt⟩

end SemanticLane

end Opbox
