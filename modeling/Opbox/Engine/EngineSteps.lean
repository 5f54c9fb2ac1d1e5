import Opbox.Engine.SessionInvariant

/-!
# What the engine's handlers leave

Every branch of the engine's loop keeps the engine coupled with the semantic actor, and none of its
checks fails.
-/

namespace Opbox

variable {D : Type}

namespace Engine

variable {e : Engine D} {rt : SemanticRuntimeState D} {running : Option (RunningOp D)}
  {answered : List (SemanticResponse D)}

/-! ## Boundaries and scans -/

/-- A boundary starts a scan or asks for the next work. -/
theorem enterBoundary_coupled (hrt : rt.Inactive) (hqueued : phaseMessages e.mailbox = [])
    (hcalls : e.fsClient.phaseCalls = []) (hcounted : e.fsClient.Counted) :
    e.enterBoundary.CoupledWith rt none [] := by
  unfold enterBoundary
  split
  next scope _ =>
    refine ⟨?_, hcounted.request rfl, nofun⟩
    show Coupled rt (.scanning scope)
      ⟨phaseMessages e.mailbox, none, [], (e.fsClient.request (.scan scope)).phaseCalls⟩
    rw [FsClient.phaseCalls_request rfl, hcalls, hqueued]
    exact .scanning hrt
  next =>
    refine ⟨?_, hcounted, nofun⟩
    show Coupled rt (.awaitingNextWork (e.nextBoundary + 1) false)
      ⟨phaseMessages (e.mailbox ++ [.getNextWork (e.nextBoundary + 1)]), none, [],
        e.fsClient.phaseCalls⟩
    rw [phaseMessages_append rfl, hcalls, hqueued]
    exact .nextWorkAsked hrt

/-- What is under way while the engine is idle. -/
theorem CoupledWith.of_idle (h : e.CoupledWith rt running answered) (hidle : e.phase = .idle) :
    rt.Inactive ∧ running = none ∧ answered = [] ∧ phaseMessages e.mailbox = [] ∧
      e.fsClient.phaseCalls = [] := by
  have hcoupled := h.coupled
  rw [hidle] at hcoupled
  generalize phaseMessages e.mailbox = queued, e.fsClient.phaseCalls = calls at hcoupled ⊢
  cases hcoupled with
  | idle hrt => exact ⟨hrt, rfl, rfl, rfl, rfl⟩

/-- `requestScan` while the engine is busy. -/
theorem requestScan_of_ne (hidle : e.phase ≠ .idle) (scope : ScanScope) :
    e.requestScan scope = e.addScanScope scope := by
  unfold requestScan
  split
  next hphase => exact absurd hphase hidle
  · rfl

/-- `requestScan` while the engine is idle. -/
theorem requestScan_of_idle (hidle : e.phase = .idle) (scope : ScanScope) :
    e.requestScan scope = (e.addScanScope scope).enterBoundary := by
  rw [requestScan, hidle]

/-- A requested scan keeps the engine coupled. -/
theorem CoupledWith.requestScan (h : e.CoupledWith rt running answered) (scope : ScanScope) :
    (e.requestScan scope).CoupledWith rt running answered := by
  by_cases hidle : e.phase = .idle
  · obtain ⟨hrt, rfl, rfl, hqueued, hcalls⟩ := h.of_idle hidle
    rw [requestScan_of_idle hidle]
    exact enterBoundary_coupled hrt hqueued hcalls h.counted
  · rw [requestScan_of_ne hidle]
    exact ⟨h.coupled, h.counted, fun hphase => absurd hphase hidle⟩

/-- A request of the rest of the engine does not touch the phases. -/
theorem CoupledWith.sendService (h : e.CoupledWith rt running answered) (call : ServiceCall D) :
    (e.send (.service call)).CoupledWith rt running answered := by
  refine ⟨?_, h.counted, h.settled⟩
  show Coupled rt e.phase ⟨phaseMessages (e.mailbox ++ [.service call]), _, _, _⟩
  rw [phaseMessages_append_service]
  exact h.coupled

/-! ## Driving -/

theorem dispatchImports_of_busy {fs : FsClient D} (h : fs.phaseInflight ≠ 0)
    (inFlight : List ImportActionId) (queue : List ImportAction) :
    dispatchImports fs inFlight queue = (fs, queue, inFlight) := by
  cases queue with
  | nil => rfl
  | cons action queue => rw [dispatchImports, FsClient.canAcceptImport, decide_eq_false h]; rfl

theorem dispatchImports_of_free {fs : FsClient D} (h : fs.phaseInflight = 0)
    (inFlight : List ImportActionId) (action : ImportAction) (queue : List ImportAction) :
    dispatchImports fs inFlight (action :: queue) =
      (fs.request (.importAction action), queue, inFlight ++ [action.id]) := by
  rw [dispatchImports, FsClient.canAcceptImport, decide_eq_true h]
  exact dispatchImports_of_busy (Nat.succ_ne_zero _) _ _

theorem dispatchProjections_of_busy {fs : FsClient D} (h : fs.phaseInflight ≠ 0)
    (inFlight : List ProjectionActionId) (plan : List (ProjectionAction D)) :
    dispatchProjections fs inFlight plan = (fs, plan, inFlight) := by
  cases plan with
  | nil => rfl
  | cons action plan =>
    rw [dispatchProjections, FsClient.canAcceptProjection, decide_eq_false h]
    rfl

theorem dispatchProjections_of_free {fs : FsClient D} (h : fs.phaseInflight = 0)
    (inFlight : List ProjectionActionId) (action : ProjectionAction D)
    (plan : List (ProjectionAction D)) :
    dispatchProjections fs inFlight (action :: plan) =
      (fs.request (.projectionAction action), plan, inFlight ++ [action.id]) := by
  rw [dispatchProjections, FsClient.canAcceptProjection, decide_eq_true h]
  exact dispatchProjections_of_busy (Nat.succ_ne_zero _) _ _

/-- Dispatching takes the next action of the plan when the filesystem has none. -/
theorem CoupledWith.dispatch (h : e.CoupledWith rt running answered) :
    e.dispatch.CoupledWith rt running answered := by
  obtain ⟨hcoupled, hcounted, hsettled⟩ := h
  have hphaseInflight := hcounted.phaseInflight
  unfold Engine.dispatch
  split
  next epoch queue inFlight hphase =>
    rw [hphase] at hcoupled
    generalize hmessages : phaseMessages e.mailbox = queued at hcoupled
    generalize hcalls : e.fsClient.phaseCalls = calls at hcoupled hphaseInflight
    cases hcoupled with
    | @dispatchingImports _ _ inFlight results _ _ _ hprogress =>
      cases inFlight with
      | some action =>
        rw [dispatchImports_of_busy (by rw [hphaseInflight]; exact Nat.succ_ne_zero _)]
        refine ⟨?_, hcounted, nofun⟩
        show Coupled rt (.importing (.dispatching epoch queue _))
          ⟨phaseMessages e.mailbox, _, _, e.fsClient.phaseCalls⟩
        rw [hmessages, hcalls]
        exact .dispatchingImports (some action) hprogress
      | none =>
        cases queue with
        | nil =>
          refine ⟨?_, hcounted, nofun⟩
          show Coupled rt (.importing (.dispatching epoch [] _))
            ⟨phaseMessages e.mailbox, _, _, e.fsClient.phaseCalls⟩
          rw [hmessages, hcalls]
          exact .dispatchingImports none hprogress
        | cons action queue =>
          rw [dispatchImports_of_free hphaseInflight]
          refine ⟨?_, hcounted.request rfl, nofun⟩
          show Coupled rt (.importing (.dispatching epoch queue _))
            ⟨phaseMessages e.mailbox, _, _, (e.fsClient.request (.importAction action)).phaseCalls⟩
          rw [FsClient.phaseCalls_request rfl, hmessages, hcalls]
          exact .dispatchingImports (some action) hprogress
  next epoch generation plan inFlight hphase =>
    rw [hphase] at hcoupled
    generalize hmessages : phaseMessages e.mailbox = queued at hcoupled
    generalize hcalls : e.fsClient.phaseCalls = calls at hcoupled hphaseInflight
    cases hcoupled with
    | @dispatchingProjections _ _ _ inFlight results _ _ _ hprogress =>
      cases inFlight with
      | some action =>
        rw [dispatchProjections_of_busy (by rw [hphaseInflight]; exact Nat.succ_ne_zero _)]
        refine ⟨?_, hcounted, nofun⟩
        show Coupled rt (.projecting (.dispatching epoch generation plan _))
          ⟨phaseMessages e.mailbox, _, _, e.fsClient.phaseCalls⟩
        rw [hmessages, hcalls]
        exact .dispatchingProjections (some action) hprogress
      | none =>
        cases plan with
        | nil =>
          refine ⟨?_, hcounted, nofun⟩
          show Coupled rt (.projecting (.dispatching epoch generation [] _))
            ⟨phaseMessages e.mailbox, _, _, e.fsClient.phaseCalls⟩
          rw [hmessages, hcalls]
          exact .dispatchingProjections none hprogress
        | cons action plan =>
          rw [dispatchProjections_of_free hphaseInflight]
          refine ⟨?_, hcounted.request rfl, nofun⟩
          show Coupled rt (.projecting (.dispatching epoch generation plan _))
            ⟨phaseMessages e.mailbox, _, _,
              (e.fsClient.request (.projectionAction action)).phaseCalls⟩
          rw [FsClient.phaseCalls_request rfl, hmessages, hcalls]
          exact .dispatchingProjections (some action) hprogress
  · exact ⟨hcoupled, hcounted, hsettled⟩

/-- Once an epoch has nothing left its commit is requested. -/
theorem CoupledWith.requestCommit (h : e.CoupledWith rt running answered) :
    e.requestCommit.CoupledWith rt running answered := by
  obtain ⟨hcoupled, hcounted, hsettled⟩ := h
  unfold Engine.requestCommit
  split
  next epoch hphase =>
    rw [hphase] at hcoupled
    refine ⟨?_, hcounted, nofun⟩
    show Coupled rt (.importing (.committing epoch))
      ⟨phaseMessages (e.mailbox ++ [.commitImportEpoch epoch]), _, _, e.fsClient.phaseCalls⟩
    rw [phaseMessages_append rfl]
    generalize phaseMessages e.mailbox = queued, hin : ([] : List ImportActionId) = inFlight,
      e.fsClient.phaseCalls = calls at hcoupled ⊢
    cases hcoupled with
    | @dispatchingImports _ _ inFlight results _ _ _ hprogress =>
      cases inFlight with
      | some action => cases hin
      | none => exact .committingImport hprogress
  next epoch generation hphase =>
    rw [hphase] at hcoupled
    refine ⟨?_, hcounted, nofun⟩
    show Coupled rt (.projecting (.committing epoch generation))
      ⟨phaseMessages (e.mailbox ++ [.commitProjectionEpoch epoch .planExhausted]), _, _,
        e.fsClient.phaseCalls⟩
    rw [phaseMessages_append rfl]
    generalize phaseMessages e.mailbox = queued, hin : ([] : List ProjectionActionId) = inFlight,
      e.fsClient.phaseCalls = calls at hcoupled ⊢
    cases hcoupled with
    | @dispatchingProjections _ _ _ inFlight results _ _ _ hprogress =>
      cases inFlight with
      | some action => cases hin
      | none =>
        exact .committingProjection (hprogress.imp fun _ => trivial) fun _ => rfl
  next epoch generation reason hphase =>
    rw [hphase] at hcoupled
    refine ⟨?_, hcounted, nofun⟩
    show Coupled rt (.projecting (.committing epoch generation))
      ⟨phaseMessages (e.mailbox ++ [.commitProjectionEpoch epoch reason]), _, _,
        e.fsClient.phaseCalls⟩
    rw [phaseMessages_append rfl]
    generalize phaseMessages e.mailbox = queued, e.fsClient.phaseCalls = calls at hcoupled ⊢
    cases hcoupled with
    | @drainingProjections _ _ id dropped results _ _ _ hprogress =>
      exact .committingProjection (hprogress.imp nofun) nofun
  · exact ⟨hcoupled, hcounted, hsettled⟩

theorem CoupledWith.drivePhase (h : e.CoupledWith rt running answered) :
    e.drivePhase.CoupledWith rt running answered := h.dispatch.requestCommit

/-- The cleanup never finds the client full, and adds no request of a phase. -/
theorem cleanup_ok {fs : FsClient D} (h : fs.Counted) (queue : List RelativePath) :
    ∃ fs' queue', cleanup fs queue = .ok (fs', queue') ∧ fs'.Counted ∧
      fs'.phaseCalls = fs.phaseCalls := by
  induction queue generalizing fs with
  | nil => exact ⟨fs, [], rfl, h, rfl⟩
  | cons path queue ih =>
    rw [cleanup]
    by_cases hfull : fs.canAcceptCleanup = true
    · rw [if_pos hfull, FsClient.deleteIfExists, require_of hfull]
      have hcalls : ({ fs with
          pending := fs.pending ++ [.deleteIfExists path]
          cleanupInflight := fs.cleanupInflight + 1 } : FsClient D).phaseCalls = fs.phaseCalls := by
        rw [FsClient.phaseCalls, List.filter_append, List.filter_cons_of_neg (by simp [FsCall.isPhase]),
          List.filter_nil, List.append_nil]
        rfl
      have hcounted' : ({ fs with
          pending := fs.pending ++ [.deleteIfExists path]
          cleanupInflight := fs.cleanupInflight + 1 } : FsClient D).Counted := by
        refine ⟨by rw [hcalls]; exact h.phaseInflight, ?_⟩
        rw [FsClient.cleanupCalls, List.filter_append, List.filter_cons_of_pos rfl,
          List.length_append, h.cleanupInflight]
        rfl
      obtain ⟨fs', queue', hrun, hcounted, hsame⟩ := ih hcounted'
      exact ⟨fs', queue', hrun, hcounted, hsame.trans hcalls⟩
    · rw [if_neg hfull]
      exact ⟨fs, path :: queue, rfl, h, rfl⟩

/-- The top of the loop keeps the engine coupled. -/
theorem CoupledWith.drive (h : e.CoupledWith rt running answered) :
    ∃ e', e.drive = .ok e' ∧ e'.CoupledWith rt running answered := by
  obtain ⟨fs', queue', hrun, hcounted, hcalls⟩ := cleanup_ok h.counted e.cleanupQueue
  refine ⟨_, by rw [Engine.drive, driveCleanup, hrun]; rfl, CoupledWith.drivePhase ?_⟩
  exact ⟨by rw [hcalls]; exact h.coupled, hcounted, h.settled⟩

/-! ## Replies of the actor -/

/-- A plan that was found is dispatched from its start. -/
theorem dispatching_of_project {started : ProjectionEpochStarted D}
    (h : rt.Installed (.project started)) (hnumbered : started.Numbered) :
    Coupled rt (.projecting (.dispatching started.epoch started.generation started.actions []))
      ⟨[], none, [], []⟩ := by
  cases h with
  | project hactive hnone =>
    have hprogress : ProjectionInProgress rt started.epoch none []
        (started.actions.map ProjectionAction.id) True ⟨started, []⟩ [] :=
      ⟨hactive, hnone, rfl, hnumbered, .none, rfl, nofun⟩
    exact .dispatchingProjections none hprogress

/-- An import that was found is dispatched from its start. -/
theorem dispatching_of_importEpoch {started : ImportEpochStarted}
    (h : rt.Installed (.importEpoch started)) (hnumbered : started.Numbered) :
    Coupled rt (.importing (.dispatching started.epoch started.actions [])) ⟨[], none, [], []⟩ := by
  cases h with
  | importEpoch hactive hnone =>
    have hprogress : ImportInProgress rt started.epoch none [] (started.actions.map ImportAction.id)
        ⟨started.epoch, .sync, started.actions, []⟩ [] :=
      ⟨hactive, hnone, rfl, hnumbered, .none, rfl⟩
    exact .dispatchingImports none hprogress

/-- The answer to a request for the next work starts a projection, leads to a boundary again or
leaves the engine idle. -/
theorem handleGetNextWorkResponse_ok {boundary : Nat} {dirty : Bool} {work : NextWork D}
    (hphase : e.phase = .awaitingNextWork boundary dirty) (h : rt.Installed work)
    (hwork : work.OfBoundary) (hqueued : phaseMessages e.mailbox = [])
    (hcalls : e.fsClient.phaseCalls = []) (hcounted : e.fsClient.Counted) :
    ∃ e', e.handleGetNextWorkResponse boundary work = .ok e' ∧ e'.CoupledWith rt none [] := by
  have hsame : require (boundary = boundary)
      (EngineBail.nextWorkForOtherBoundary boundary boundary) = .ok ⟨⟩ := require_of rfl _
  rw [handleGetNextWorkResponse, hphase]
  dsimp only
  rw [hsame]
  cases work with
  | importEpoch started => exact hwork.elim
  | project started =>
    refine ⟨_, rfl, ?_, hcounted, nofun⟩
    show Coupled rt _ ⟨phaseMessages e.mailbox, none, [], e.fsClient.phaseCalls⟩
    rw [hqueued, hcalls]
    exact dispatching_of_project h hwork
  | none =>
    cases h with
    | none hrt =>
      by_cases hagain : (dirty || e.pendingScanScope.isSome) = true
      · refine ⟨e.enterBoundary, ?_, enterBoundary_coupled hrt hqueued hcalls hcounted⟩
        show (if (dirty || e.pendingScanScope.isSome) = true then _ else _) = _
        rw [if_pos hagain]
        rfl
      · refine ⟨e.setPhase .idle, ?_, ?_, hcounted, fun _ => ?_⟩
        · show (if (dirty || e.pendingScanScope.isSome) = true then _ else _) = _
          rw [if_neg hagain]
          rfl
        · show Coupled rt .idle ⟨phaseMessages e.mailbox, none, [], e.fsClient.phaseCalls⟩
          rw [hqueued, hcalls]
          exact .idle hrt
        · show e.pendingScanScope = none
          rw [Bool.or_eq_true, not_or, Option.not_isSome_iff_eq_none] at hagain
          exact hagain.2

/-- The answer to a scan starts an import or leads to a boundary. -/
theorem handleApplyScanResponse_ok {work : NextWork D} (hphase : e.phase = .planningImport)
    (h : rt.Installed work) (hwork : work.OfScan) (hqueued : phaseMessages e.mailbox = [])
    (hcalls : e.fsClient.phaseCalls = []) (hcounted : e.fsClient.Counted) :
    ∃ e', e.handleApplyScanResponse work = .ok e' ∧ e'.CoupledWith rt none [] := by
  unfold handleApplyScanResponse
  cases work with
  | project started => exact hwork.elim
  | importEpoch started =>
    refine ⟨e.setPhase (.importing (.dispatching started.epoch started.actions [])), ?_, ?_,
      hcounted, nofun⟩
    · rw [hphase]
    show Coupled rt _ ⟨phaseMessages e.mailbox, none, [], e.fsClient.phaseCalls⟩
    rw [hqueued, hcalls]
    exact dispatching_of_importEpoch h hwork
  | none =>
    cases h with
    | none hrt =>
      refine ⟨e.enterBoundary, ?_, enterBoundary_coupled hrt hqueued hcalls hcounted⟩
      rw [hphase]

/-- The engine waits for every reply of a phase that is on its way. -/
theorem CoupledWith.handleSemanticResponse {response : SemanticResponse D}
    (h : e.CoupledWith rt running [response]) :
    ∃ e', e.handleSemanticResponse response = .ok e' ∧ e'.CoupledWith rt running [] := by
  obtain ⟨hcoupled, hcounted, -⟩ := h
  generalize hphase : e.phase = phase at hcoupled
  generalize hqueued : phaseMessages e.mailbox = queued at hcoupled
  generalize hcalls : e.fsClient.phaseCalls = calls at hcoupled
  cases hcoupled with
  | nextWorkAnswered hrt hwork =>
    exact handleGetNextWorkResponse_ok hphase hrt hwork hqueued hcalls hcounted
  | scanAnswered hrt hwork =>
    exact handleApplyScanResponse_ok hphase hrt hwork hqueued hcalls hcounted
  | importCommitAnswered hrt =>
    refine ⟨e.enterBoundary, ?_, enterBoundary_coupled hrt hqueued hcalls hcounted⟩
    rw [Engine.handleSemanticResponse, hphase]
  | projectionCommitAnswered hrt =>
    refine ⟨e.enterBoundary, ?_, enterBoundary_coupled hrt hqueued hcalls hcounted⟩
    rw [Engine.handleSemanticResponse, hphase]

/-! ## Events -/

/-- A changed projection wakes an idle engine up and makes an answer that is awaited out of date. -/
theorem CoupledWith.handleSemanticEvent (h : e.CoupledWith rt running answered)
    (event : SemanticEvent) : (e.handleSemanticEvent event).CoupledWith rt running answered := by
  cases event with
  | outboxReady n => exact h
  | projectionChanged generation =>
    show e.handleProjectionChanged.CoupledWith rt running answered
    unfold handleProjectionChanged
    split
    next hphase =>
      obtain ⟨hrt, rfl, rfl, hqueued, hcalls⟩ := h.of_idle hphase
      exact enterBoundary_coupled hrt hqueued hcalls h.counted
    next boundary dirty hphase =>
      obtain ⟨hcoupled, hcounted, -⟩ := h
      refine ⟨?_, hcounted, nofun⟩
      rw [hphase] at hcoupled
      show Coupled rt (.awaitingNextWork boundary true)
        ⟨phaseMessages e.mailbox, running, answered, e.fsClient.phaseCalls⟩
      generalize phaseMessages e.mailbox = queued, e.fsClient.phaseCalls = calls at hcoupled ⊢
      cases hcoupled with
      | nextWorkAsked hrt => exact .nextWorkAsked hrt
      | nextWorkStarted hrt => exact .nextWorkStarted hrt
      | nextWorkFound hrt hwork => exact .nextWorkFound hrt hwork
      | nextWorkAnswered hrt hwork => exact .nextWorkAnswered hrt hwork
    · exact h

/-! ## Answers of the filesystem -/

/-- A scan that an action has asked for is pending. -/
theorem CoupledWith.rescan {message : SemanticMessage D} (hbusy : e.phase ≠ .idle)
    (h : (e.send message).CoupledWith rt running answered) (again : Bool) :
    ((if again = true then e.requestScan .full else e).send message).CoupledWith rt running
      answered := by
  by_cases hagain : again = true
  · rw [if_pos hagain, requestScan_of_ne hbusy]
    exact ⟨h.coupled, h.counted, fun hphase => absurd hphase hbusy⟩
  · rw [if_neg hagain]
    exact h

/-- The engine waits for the result of an import action that was dispatched. -/
theorem handleImportAction_ok {epoch : Nat} {queue : List ImportAction}
    {results : List ImportActionResult} {result : ImportActionResult}
    {active : ActiveImportEpoch} {ran : List ImportActionId}
    (hphase : e.phase = .importing (.dispatching epoch queue [result.actionId]))
    (h : ImportInProgress rt epoch running results
      (result.actionId :: queue.map ImportAction.id) active ran)
    (hqueued : phaseMessages e.mailbox = results.map (.commitImportAction · false))
    (hcalls : e.fsClient.phaseCalls = []) (hcounted : e.fsClient.Counted) :
    ∃ e', e.handleImportAction result = .ok e' ∧ e'.CoupledWith rt running [] := by
  have hepoch : result.actionId.epoch = epoch := h.epoch_of_rest List.mem_cons_self
  have hmem : result.actionId ∈ [result.actionId] := List.mem_singleton_self _
  rw [handleImportAction, hphase]
  dsimp only
  rw [require_of hepoch, require_of hmem]
  refine ⟨_, rfl, ?_⟩
  refine CoupledWith.rescan ?_ ?_ _
  · exact nofun
  refine ⟨?_, hcounted, nofun⟩
  show Coupled rt (.importing (.dispatching epoch queue ([result.actionId].erase result.actionId)))
    ⟨phaseMessages (e.mailbox ++ [.commitImportAction result false]), running, [],
      e.fsClient.phaseCalls⟩
  rw [phaseMessages_append rfl, hqueued, hcalls, List.erase_cons_head]
  have hcoupled : Coupled rt (.importing (.dispatching epoch queue []))
      ⟨(results ++ [result]).map (.commitImportAction · false), running, [], []⟩ :=
    .dispatchingImports none h.receive
  rw [List.map_append] at hcoupled
  exact hcoupled

/-- The engine waits for the result of a projection action that was dispatched. -/
theorem handleProjectionAction_ok {epoch : Nat} {generation : SequenceNumber}
    {plan : List (ProjectionAction D)} {results : List ProjectionActionResult}
    {result : ProjectionActionResult} {active : ActiveProjectionEpoch D}
    {ran : List ProjectionActionResult}
    (hphase : e.phase = .projecting (.dispatching epoch generation plan [result.actionId]))
    (h : ProjectionInProgress rt epoch running results
      (result.actionId :: plan.map ProjectionAction.id) True active ran)
    (hqueued : phaseMessages e.mailbox = results.map (.commitProjectionAction · false))
    (hcalls : e.fsClient.phaseCalls = []) (hcounted : e.fsClient.Counted) :
    ∃ e', e.handleProjectionAction result = .ok e' ∧ e'.CoupledWith rt running [] := by
  have hepoch : result.actionId.epoch = epoch := h.epoch_of_rest List.mem_cons_self
  have hmem : result.actionId ∈ [result.actionId] := List.mem_singleton_self _
  have hafter : projectionPhaseAfter result e.phase = .ok
      (if result.invalidatesProjection = true then
        .projecting (.draining epoch generation (.actionInvalidatedProjection result.actionId) [])
      else .projecting (.dispatching epoch generation plan [])) := by
    rw [hphase, projectionPhaseAfter]
    rw [require_of hepoch, require_of hmem, List.erase_cons_head]
    split_ifs <;> rfl
  rw [handleProjectionAction, hafter]
  have hmessages : phaseMessages (e.mailbox ++ [.commitProjectionAction result false]) =
      (results ++ [result]).map (.commitProjectionAction · false) := by
    rw [phaseMessages_append rfl, hqueued, List.map_append]
    rfl
  refine ⟨_, rfl, ?_⟩
  refine CoupledWith.rescan ?_ ?_ _
  · dsimp only [Engine.setPhase]
    split_ifs <;> exact nofun
  refine ⟨?_, hcounted, ?_⟩
  · show Coupled rt (if result.invalidatesProjection = true then _ else _)
      ⟨phaseMessages (e.mailbox ++ [.commitProjectionAction result false]), running, [],
        e.fsClient.phaseCalls⟩
    rw [hmessages, hcalls]
    split_ifs with hinvalid
    · exact .drainingProjections (h.receive.imp nofun)
    · exact .dispatchingProjections none
        (h.receive.imp fun _ => ⟨trivial, Bool.eq_false_iff.mpr hinvalid⟩)
  · dsimp only [Engine.send, Engine.setPhase]
    split_ifs <;> exact nofun

/-- The engine waits for every answer of the filesystem. -/
theorem CoupledWith.takeFsResponse (h : e.CoupledWith rt running answered) {n : Nat}
    {call : FsCall D} {response : FsClientResponse} (hcall : e.fsClient.pending[n]? = some call)
    (hanswer : call.answeredBy response = true) :
    ∃ e', e.takeFsResponse n call response = .ok e' ∧ e'.CoupledWith rt running answered := by
  obtain ⟨hcoupled, hcounted, hsettled⟩ := h
  by_cases hphaseCall : call.isPhase = true
  · have hmem : call ∈ e.fsClient.phaseCalls :=
      List.mem_filter.mpr ⟨List.mem_of_getElem? hcall, hphaseCall⟩
    generalize hphase : e.phase = phase at hcoupled
    generalize hqueued : phaseMessages e.mailbox = queued at hcoupled
    generalize hcalls : e.fsClient.phaseCalls = calls at hcoupled hmem
    have hnext : ∀ call', calls = [call'] → call = call' ∧ ∃ fs',
        e.fsClient.next n call = .ok fs' ∧ fs'.Counted ∧ fs'.phaseCalls = [] :=
      fun call' hsingle => FsClient.next_phase hcounted hcall hphaseCall (hcalls.trans hsingle)
    cases hcoupled with
    | scanning hrt =>
      obtain ⟨rfl, fs', hrun, hcounted', hcalls'⟩ := hnext _ rfl
      cases response with
      | scan result =>
        refine ⟨{ (e.send (.applyScan result)).setPhase .planningImport with fsClient := fs' }, ?_,
          ?_, hcounted', nofun⟩
        · rw [Engine.takeFsResponse, hrun]
          show Engine.handleFsResponse { e with fsClient := fs' } (.scan result) = _
          rw [handleFsResponse, hphase]
          rfl
        · show Coupled rt .planningImport
            ⟨phaseMessages (e.mailbox ++ [.applyScan result]), none, [], fs'.phaseCalls⟩
          rw [phaseMessages_append rfl, hqueued, hcalls']
          exact .scanQueued hrt
      | _ => cases hanswer
    | @dispatchingImports epoch queue inFlight results _ active ran hprogress =>
      cases inFlight with
      | none => cases hmem
      | some action =>
        obtain ⟨rfl, fs', hrun, hcounted', hcalls'⟩ := hnext _ rfl
        cases response with
        | applyImportAction result =>
          have hid : result.actionId = action.id :=
            of_decide_eq_true (Bool.and_eq_true_iff.mp hanswer).1
          obtain ⟨e', he', hcoupled'⟩ := handleImportAction_ok (e := { e with fsClient := fs' })
            (by rw [hid]; exact hphase) (by rw [hid]; exact hprogress) hqueued hcalls' hcounted'
          refine ⟨e', ?_, hcoupled'⟩
          rw [Engine.takeFsResponse, hrun]
          exact he'
        | _ => cases hanswer
    | @dispatchingProjections epoch generation plan inFlight results _ active ran hprogress =>
      cases inFlight with
      | none => cases hmem
      | some action =>
        obtain ⟨rfl, fs', hrun, hcounted', hcalls'⟩ := hnext _ rfl
        cases response with
        | applyProjectionAction result =>
          have hid : result.actionId = action.id :=
            of_decide_eq_true (Bool.and_eq_true_iff.mp hanswer).1
          obtain ⟨e', he', hcoupled'⟩ := handleProjectionAction_ok (e := { e with fsClient := fs' })
            (by rw [hid]; exact hphase) (by rw [hid]; exact hprogress) hqueued hcalls' hcounted'
          refine ⟨e', ?_, hcoupled'⟩
          rw [Engine.takeFsResponse, hrun]
          exact he'
        | _ => cases hanswer
    | _ => cases hmem
  · have hcleanup := Bool.eq_false_iff.mpr hphaseCall
    obtain ⟨fs', hrun, hcounted', hsame⟩ := FsClient.next_cleanup hcounted hcall hcleanup
    cases call with
    | deleteIfExists path =>
      cases response with
      | deleteIfExists path' =>
        refine ⟨{ e with fsClient := fs' }, ?_, ?_, hcounted', hsettled⟩
        · rw [Engine.takeFsResponse, hrun]
          rfl
        · rw [hsame]
          exact hcoupled
      | _ => cases hanswer
    | _ => cases hcleanup

end Engine

end Opbox
